import NetworkEmulator.Station.Console
import NetworkEmulator.Station.Host
import NetworkEmulator.Station.Routes

namespace NetworkEmulator.Station

open Transition

variable {cfg : Config} {s s' : State} {st st' : Store} {out : List Out} {o : Out}
  {i : IfaceSocketPair} {recv pkt : EtherPkt} {pp : PendingPkt} {fd : Port}
  {srcIp dstIp : IPAddr} {data : String}
  {Pair : IPAddr → MacAddr → Prop} {Mac : MacAddr → Prop} {T : IPAddr → IPAddr → String → Prop}

structure Relied (Pair : IPAddr → MacAddr → Prop) (Mac : MacAddr → Prop) (recv : EtherPkt) :
    Prop where
  macSrc : Mac recv.macSrc
  arp : recv.type = 0 → Pair recv.arpPkt.srcIp recv.arpPkt.srcMac

structure Own (cfg : Config) (Mac : MacAddr → Prop) (fd : Port) (pkt : EtherPkt) : Prop where
  source : ∃ i ∈ cfg.ifaces, pkt.macSrc = i.1.macAddr ∧ (pkt.type = 0 →
    fd = i.2.fd ∧ pkt.arpPkt.srcIp = i.1.ipAddr ∧ pkt.arpPkt.srcMac = i.1.macAddr)
  macDst : pkt.macDst = "" ∨ Mac pkt.macDst

-- a buffer that nothing has been read into has no destination to route to
theorem not_forwards_blank {u : Uninit} (hs : Handles cfg st i (EtherPkt.uninit u "") st' out) :
    ¬ Forwards cfg (EtherPkt.uninit u "") := by
  intro hf
  cases sends_of_forwards hf hs with
  | cached _ _ hr | queued _ _ hr => cases hr

theorem resolve_of_route {dst : IPAddr} {nextHop : NextHop} {owner : IfaceSocketPair}
    (hn : Routing.getNextHop cfg.routes dst = .ok nextHop)
    (hi : getIface cfg nextHop.iface = some owner) :
    resolve cfg dst = .ok ⟨if nextHop.ipAddr = "0.0.0.0" then dst else nextHop.ipAddr,
      nextHop.iface, owner⟩ := by
  simp only [resolve, hn, bind, Except.bind, hi]

theorem own_sends (hpair : ∀ ip mac, Pair ip mac → Mac mac)
    (harp : ∀ ip c, AList.lookup ip st.arp = some c → Pair ip c.mac)
    (hs : Sends cfg st srcIp dstIp data st' out) (ho : o ∈ out) (hf : o.frame = some (fd, pkt)) :
    Own cfg Mac fd pkt := by
  cases hs with
  | cached u hop hr hm =>
    obtain rfl := List.mem_singleton.mp ho
    obtain ⟨rfl, rfl⟩ := Prod.mk.inj (Option.some.inj hf)
    have hiface := (getIface_some (resolve_ok hr)).1
    obtain ⟨c, hc⟩ := Option.isSome_iff_exists.mp hm
    have hmac : st.arp.getMacFor hop.ipAddr = c.mac := by simp [ArpCache.getMacFor, hc]
    refine ⟨⟨hop.iface, hiface, rfl, fun ht => absurd ht (by simp [Hop.ipFrame])⟩, Or.inr ?_⟩
    change Mac (st.arp.getMacFor hop.ipAddr)
    exact hmac ▸ hpair _ _ (harp _ c hc)
  | queued u hop hr =>
    obtain rfl := List.mem_singleton.mp ho
    obtain ⟨rfl, rfl⟩ := Prod.mk.inj (Option.some.inj hf)
    have hiface := (getIface_some (resolve_ok hr)).1
    exact ⟨⟨hop.iface, hiface, rfl, fun _ => ⟨rfl, rfl, rfl⟩⟩, Or.inl rfl⟩

theorem own_handles (hpair : ∀ ip mac, Pair ip mac → Mac mac)
    (harp : ∀ ip c, AList.lookup ip st.arp = some c → Pair ip c.mac)
    (hrecv : Vouches cfg st recv → Relied Pair Mac recv) (hs : Handles cfg st i recv st' out)
    (ho : o ∈ out) (hf : o.frame = some (fd, pkt)) : Own cfg Mac fd pkt := by
  cases hs with
  | ignored => cases ho
  | request now u ht hop hd =>
    have hrelied := hrecv ⟨ht, hd, Or.inl hop⟩
    obtain ⟨owner, howner, rfl⟩ := List.mem_map.mp ho
    obtain ⟨rfl, rfl⟩ := Prod.mk.inj (Option.some.inj hf)
    exact ⟨⟨owner, List.mem_of_mem_filter howner, rfl, fun _ => ⟨rfl, rfl, rfl⟩⟩,
      Or.inr hrelied.macSrc⟩
  | flush now u k pp owner ht hop hd hp hi =>
    obtain ⟨hget, hkey, -⟩ := firstPending_some hp
    have hrelied := hrecv ⟨ht, hd, Or.inr ⟨pp, List.mem_of_getElem? hget, hkey⟩⟩
    obtain rfl := List.mem_singleton.mp ho
    obtain ⟨rfl, rfl⟩ := Prod.mk.inj (Option.some.inj hf)
    exact ⟨⟨owner, (getIface_some hi).1, rfl, fun ht => absurd ht (by simp [flushFrame])⟩,
      Or.inr (hpair _ _ (hrelied.arp ht))⟩
  | deliver =>
    obtain rfl := List.mem_singleton.mp ho
    cases hf
  | forward _ _ _ hs => exact own_sends hpair harp hs ho hf

theorem own_effect (hpair : ∀ ip mac, Pair ip mac → Mac mac)
    (harp : ∀ ip c, AList.lookup ip st.arp = some c → Pair ip c.mac)
    (hrecv : ∀ i recv, .handle i recv ∈ out → Vouches cfg st recv → Relied Pair Mac recv)
    (he : Effect cfg st st' out) :
    (∀ ip c, AList.lookup ip st'.arp = some c → Pair ip c.mac) ∧
      ∀ o ∈ out, ∀ fd pkt, o.frame = some (fd, pkt) → Own cfg Mac fd pkt := by
  constructor
  · intro ip c hl
    rcases arp_effect he hl with hold | ⟨-, i, recv, hh, ⟨rfl, hmac⟩, hv⟩
    · exact harp ip c hold
    · exact hmac ▸ (hrecv i recv hh hv).arp hv.1
  · intro o ho fd pkt hf
    cases he with
    | quiet | sweep => cases ho
    | console hc =>
      cases hc with
      | other =>
        obtain rfl := List.mem_singleton.mp ho
        cases hf
      | send line dst data _ hs =>
        rcases List.mem_cons.mp ho with rfl | ho
        · cases hf
        · exact own_sends hpair harp hs ho hf
    | handle i recv hs =>
      rcases List.mem_cons.mp ho with rfl | ho
      · cases hf
      · exact own_handles hpair harp (hrecv i recv List.mem_cons_self) hs ho hf

theorem text_sends (hpq : ∀ pp ∈ st.pq, T pp.srcIpaddr pp.dstIpaddr pp.data)
    (hown : ∀ i ∈ cfg.ifaces, T i.1.ipAddr dstIp data)
    (hsrc : cfg.isRouter = true → T srcIp dstIp data)
    (hs : Sends cfg st srcIp dstIp data st' out) :
    (∀ pp ∈ st'.pq, T pp.srcIpaddr pp.dstIpaddr pp.data) ∧
      ∀ o ∈ out, ∀ fd pkt, o.frame = some (fd, pkt) → pkt.type ≠ 0 →
        T pkt.ipPkt.srcIp pkt.ipPkt.dstIp pkt.ipPkt.data := by
  cases hs with
  | cached u hop hr =>
    refine ⟨hpq, fun o ho fd pkt hf _ => ?_⟩
    obtain rfl := List.mem_singleton.mp ho
    obtain ⟨rfl, rfl⟩ := Prod.mk.inj (Option.some.inj hf)
    exact hown hop.iface (getIface_some (resolve_ok hr)).1
  | queued u hop hr =>
    constructor
    · intro pp hpp
      rcases List.mem_append.mp hpp with hpp | hpp
      · exact hpq pp hpp
      · rw [List.mem_singleton.mp hpp]
        simp only [Hop.pendingPkt]
        split_ifs with hrouter
        · exact hsrc hrouter
        · exact hown hop.iface (getIface_some (resolve_ok hr)).1
    · intro o ho fd pkt hf htype
      obtain rfl := List.mem_singleton.mp ho
      obtain ⟨rfl, rfl⟩ := Prod.mk.inj (Option.some.inj hf)
      exact absurd rfl htype

theorem text_handles (hpq : ∀ pp ∈ st.pq, T pp.srcIpaddr pp.dstIpaddr pp.data)
    (hrecv : Forwards cfg recv → T recv.ipPkt.srcIp recv.ipPkt.dstIp recv.ipPkt.data ∧
      ∀ i ∈ cfg.ifaces, T i.1.ipAddr recv.ipPkt.dstIp recv.ipPkt.data)
    (hs : Handles cfg st i recv st' out) :
    (∀ pp ∈ st'.pq, T pp.srcIpaddr pp.dstIpaddr pp.data) ∧
      ∀ o ∈ out, ∀ fd pkt, o.frame = some (fd, pkt) → pkt.type ≠ 0 →
        T pkt.ipPkt.srcIp pkt.ipPkt.dstIp pkt.ipPkt.data := by
  cases hs with
  | ignored => exact ⟨hpq, by simp⟩
  | request now u =>
    refine ⟨hpq, fun o ho fd pkt hf htype => ?_⟩
    obtain ⟨owner, -, rfl⟩ := List.mem_map.mp ho
    obtain ⟨rfl, rfl⟩ := Prod.mk.inj (Option.some.inj hf)
    exact absurd rfl htype
  | flush now u k pp owner ht hop hd hp hi =>
    constructor
    · exact fun pp' hpp' => hpq pp' (List.mem_of_mem_eraseIdx hpp')
    · intro o ho fd pkt hf _
      obtain rfl := List.mem_singleton.mp ho
      obtain ⟨rfl, rfl⟩ := Prod.mk.inj (Option.some.inj hf)
      exact hpq pp (List.mem_of_getElem? (firstPending_some hp).1)
  | deliver =>
    refine ⟨hpq, fun o ho fd pkt hf _ => ?_⟩
    obtain rfl := List.mem_singleton.mp ho
    cases hf
  | forward ht hd hr hs =>
    obtain ⟨hsrc, hown⟩ := hrecv ⟨ht, hd, hr⟩
    exact text_sends hpq hown (fun _ => hsrc) hs

theorem text_effect (hpq : ∀ pp ∈ st.pq, T pp.srcIpaddr pp.dstIpaddr pp.data)
    (huser : cfg.isRouter = false → ∀ pp cached fd pkt, .send pp cached fd pkt ∈ out →
      ∀ i ∈ cfg.ifaces, T i.1.ipAddr pp.dstIpaddr pp.data)
    (hrecv : ∀ i recv, .handle i recv ∈ out → Forwards cfg recv →
      T recv.ipPkt.srcIp recv.ipPkt.dstIp recv.ipPkt.data ∧
        ∀ i ∈ cfg.ifaces, T i.1.ipAddr recv.ipPkt.dstIp recv.ipPkt.data)
    (he : Effect cfg st st' out) :
    (∀ pp ∈ st'.pq, T pp.srcIpaddr pp.dstIpaddr pp.data) ∧
      ∀ o ∈ out, ∀ fd pkt, o.frame = some (fd, pkt) → pkt.type ≠ 0 →
        T pkt.ipPkt.srcIp pkt.ipPkt.dstIp pkt.ipPkt.data := by
  cases he with
  | quiet | sweep => exact ⟨hpq, by simp⟩
  | console hc =>
    cases hc with
    | other => exact ⟨hpq, by simp [Out.frame]⟩
    | send line dst data hr hs =>
      have hown : ∀ i ∈ cfg.ifaces, T i.1.ipAddr dst data := by
        cases hs with
        | cached u hop => exact huser hr _ _ _ _ (List.mem_cons_of_mem _ List.mem_cons_self)
        | queued u hop => exact huser hr _ _ _ _ (List.mem_cons_of_mem _ List.mem_cons_self)
      have hsrc : cfg.isRouter = true → T "" dst data := fun hr' => absurd hr' (by simp [hr])
      obtain ⟨hpq', hframes⟩ := text_sends hpq hown hsrc hs
      refine ⟨hpq', fun o ho fd pkt hf => ?_⟩
      rcases List.mem_cons.mp ho with rfl | ho
      · cases hf
      · exact hframes o ho fd pkt hf
  | handle i recv hs =>
    obtain ⟨hpq', hframes⟩ := text_handles hpq (hrecv i recv List.mem_cons_self) hs
    refine ⟨hpq', fun o ho fd pkt hf => ?_⟩
    rcases List.mem_cons.mp ho with rfl | ho
    · cases hf
    · exact hframes o ho fd pkt hf

def ToHop (cfg : Config) (Pair : IPAddr → MacAddr → Prop) (pkt : EtherPkt) : Prop :=
  ∃ hop, resolve cfg pkt.ipPkt.dstIp = .ok hop ∧ pkt.macSrc = hop.iface.1.macAddr ∧
    Pair hop.ipAddr pkt.macDst

theorem hop_sends (harp : ∀ ip c, AList.lookup ip st.arp = some c → Pair ip c.mac)
    (hs : Sends cfg st srcIp dstIp data st' out) (ho : o ∈ out) (hf : o.frame = some (fd, pkt))
    (ht : pkt.type ≠ 0) : ToHop cfg Pair pkt := by
  cases hs with
  | cached u hop hr hm =>
    obtain rfl := List.mem_singleton.mp ho
    obtain ⟨rfl, rfl⟩ := Prod.mk.inj (Option.some.inj hf)
    obtain ⟨c, hc⟩ := Option.isSome_iff_exists.mp hm
    have hmac : st.arp.getMacFor hop.ipAddr = c.mac := by simp [ArpCache.getMacFor, hc]
    refine ⟨hop, hr, rfl, ?_⟩
    change Pair hop.ipAddr (st.arp.getMacFor hop.ipAddr)
    exact hmac ▸ harp _ c hc
  | queued u hop =>
    obtain rfl := List.mem_singleton.mp ho
    obtain ⟨rfl, rfl⟩ := Prod.mk.inj (Option.some.inj hf)
    exact absurd rfl ht

theorem hop_effect {ms : List (Move State Event Out)} {h : List Out}
    (p : Path (machine cfg) ms s h)
    (harp : ∀ ip c, AList.lookup ip s.store.arp = some c → Pair ip c.mac)
    (hrecv : ∀ i recv, .handle i recv ∈ out → Vouches cfg s.store recv →
      Pair recv.arpPkt.srcIp recv.arpPkt.srcMac)
    (he : Effect cfg s.store st' out) (ho : o ∈ out) (hf : o.frame = some (fd, pkt))
    (ht : pkt.type ≠ 0) : ToHop cfg Pair pkt := by
  cases he with
  | quiet | sweep => cases ho
  | console hc =>
    cases hc with
    | other =>
      obtain rfl := List.mem_singleton.mp ho
      cases hf
    | send line dst data _ hs =>
      rcases List.mem_cons.mp ho with rfl | ho
      · cases hf
      · exact hop_sends harp hs ho hf ht
  | handle i recv hs =>
    rcases List.mem_cons.mp ho with rfl | ho
    · cases hf
    · cases hs with
      | ignored => cases ho
      | request =>
        obtain ⟨owner, -, rfl⟩ := List.mem_map.mp ho
        obtain ⟨rfl, rfl⟩ := Prod.mk.inj (Option.some.inj hf)
        exact absurd rfl ht
      | deliver =>
        obtain rfl := List.mem_singleton.mp ho
        cases hf
      | forward _ _ _ hs => exact hop_sends harp hs ho hf ht
      | flush now u k pp owner htype hop hd hp hi =>
        obtain rfl := List.mem_singleton.mp ho
        obtain ⟨rfl, rfl⟩ := Prod.mk.inj (Option.some.inj hf)
        obtain ⟨hget, hkey, -⟩ := firstPending_some hp
        have hpp := List.mem_of_getElem? hget
        have hpair := hrecv i recv List.mem_cons_self ⟨htype, hd, Or.inr ⟨pp, hpp, hkey⟩⟩
        obtain ⟨owner', nextHop, hw⟩ := wellFormed_of_mem p hpp
        obtain rfl : owner = owner' := Option.some.inj (hi.symm.trans hw.found)
        have hres := resolve_of_route hw.route (hw.hop.1 ▸ hw.found)
        refine ⟨_, hres, rfl, ?_⟩
        change Pair _ recv.arpPkt.srcMac
        rw [← hw.hop.2, hkey]
        exact hpair

theorem answer_effect (he : Effect cfg st st' out) (ho : o ∈ out) (hf : o.frame = some (fd, pkt))
    (ht : pkt.type = 0) :
    pkt.arpPkt.op = 0 ∧ pkt.macDst = "" ∨
      pkt.arpPkt.op ≠ 0 ∧ ∃ i recv, .handle i recv ∈ out ∧ Vouches cfg st recv ∧
        pkt.macDst = recv.macSrc ∧ pkt.arpPkt.dstIp = recv.arpPkt.srcIp := by
  have hsends : ∀ {srcIp dstIp data ws}, Sends cfg st srcIp dstIp data st' ws → o ∈ ws →
      pkt.arpPkt.op = 0 ∧ pkt.macDst = "" := by
    intro srcIp dstIp data ws hs ho
    cases hs with
    | cached u hop =>
      obtain rfl := List.mem_singleton.mp ho
      obtain ⟨rfl, rfl⟩ := Prod.mk.inj (Option.some.inj hf)
      cases ht
    | queued u hop =>
      obtain rfl := List.mem_singleton.mp ho
      obtain ⟨rfl, rfl⟩ := Prod.mk.inj (Option.some.inj hf)
      exact ⟨rfl, rfl⟩
  cases he with
  | quiet | sweep => cases ho
  | console hc =>
    cases hc with
    | other =>
      obtain rfl := List.mem_singleton.mp ho
      cases hf
    | send line dst data _ hs =>
      rcases List.mem_cons.mp ho with rfl | ho
      · cases hf
      · exact Or.inl (hsends hs ho)
  | handle i recv hs =>
    rcases List.mem_cons.mp ho with rfl | ho
    · cases hf
    · cases hs with
      | ignored => cases ho
      | request now u htype hop hd =>
        obtain ⟨owner, -, rfl⟩ := List.mem_map.mp ho
        obtain ⟨rfl, rfl⟩ := Prod.mk.inj (Option.some.inj hf)
        exact Or.inr ⟨Int.one_ne_zero, i, recv, List.mem_cons_self, ⟨htype, hd, Or.inl hop⟩, rfl, rfl⟩
      | flush =>
        obtain rfl := List.mem_singleton.mp ho
        obtain ⟨rfl, rfl⟩ := Prod.mk.inj (Option.some.inj hf)
        cases ht
      | deliver =>
        obtain rfl := List.mem_singleton.mp ho
        cases hf
      | forward _ _ _ hs => exact Or.inl (hsends hs ho)

theorem delivered_effect {sender : String} {ip : IpPkt} (he : Effect cfg st st' out)
    (hd : .deliver sender ip ∈ out) : ∃ i recv, .handle i recv ∈ out ∧ recv.type ≠ 0 ∧
      recv.ipPkt = ip ∧ isIntendedIpDestination cfg ip.dstIp = true := by
  have hpos : 0 < out.countP (isDelivery ip) :=
    List.countP_pos_iff.mpr ⟨_, hd, by simp [isDelivery]⟩
  rcases deliveries_effect ip he with hzero | ⟨-, hown, i, recv, hh, ht, hip⟩
  · omega
  · exact ⟨i, recv, hh, ht, hip, hown⟩

theorem send_notMem_handles (hr : cfg.isRouter = false) {cached : Bool}
    (hs : Handles cfg st i recv st' out) : .send pp cached fd pkt ∉ out := by
  cases hs with
  | ignored | request | flush | deliver => simp
  | forward _ _ hr' => exact absurd hr' (by simp [hr])

theorem send_notMem_settle (hr : cfg.isRouter = false) {pc : Pc} {cached : Bool}
    {now : Milliseconds} {u : Uninit} :
    .send pp cached fd pkt ∉
      (settle s pc [.handle i recv] (handlePkt cfg s.store i now u recv)).2 := by
  intro hmem
  cases hp : handlePkt cfg s.store i now u recv with
  | error f => simp [hp, settle] at hmem
  | ok r =>
    rw [hp] at hmem
    rcases List.mem_cons.mp hmem with heq | hmem
    · cases heq
    · exact send_notMem_handles hr (handles_of_handlePkt hp) hmem

theorem hosted_sends {cached : Bool} (hs : Sends cfg st srcIp dstIp data st' out)
    (ho : .send pp cached fd pkt ∈ out) : pp.dstIpaddr = dstIp := by
  cases hs with
  | cached u hop | queued u hop =>
    obtain ⟨rfl, -⟩ := Out.send.inj (List.mem_singleton.mp ho)
    rfl

theorem hosted_menu {u : Uninit} {cmd : List Char} {m : Menu} {cached : Bool}
    (h : menuCommands cfg st u cmd = .ok m) (ho : .send pp cached fd pkt ∈ m.out) :
    ∃ host ∈ cfg.hosts, pp.dstIpaddr = host.addr := by
  rw [menuCommands_eq] at h
  split at h
  · obtain rfl := Except.ok.inj h
    simp at ho
  · obtain ⟨r, hr, h⟩ := Fault.bind_ok h
    obtain rfl := Except.ok.inj h
    have ho' : .send pp cached fd pkt ∈ r.2 := by simpa using ho
    unfold sendCmd at hr
    split at hr
    · obtain rfl := Except.ok.inj hr
      cases ho'
    · rename_i host hfind
      exact ⟨host, List.mem_of_find?_eq_some hfind, hosted_sends (sends_of_sendEtherPkt hr) ho'⟩

theorem hosted_of_step (hr : cfg.isRouter = false) {e : Event} {cached : Bool}
    (hs : step cfg s e = some (s', out)) (ho : .send pp cached fd pkt ∈ out) :
    ∃ host ∈ cfg.hosts, pp.dstIpaddr = host.addr := by
  cases turn_of_step hs with
  | sweep | frames | skip => cases ho
  | stdin bytes u hpc hread =>
    unfold readStdin at hread
    split at hread
    · obtain ⟨rfl, rfl⟩ := Prod.mk.inj (Option.some.inj hread)
      cases ho
    · split at hread
      · split at hread
        · obtain ⟨rfl, rfl⟩ := Prod.mk.inj (Option.some.inj hread)
          cases ho
        · rename_i m hm
          obtain ⟨rfl, rfl⟩ := Prod.mk.inj (Option.some.inj hread)
          obtain ⟨cmd, -, hmenu⟩ := Fault.bind_ok hm
          exact hosted_menu hmenu ho
      · cases hread
  | recv i rest buffer r now u =>
    cases r with
    | eof => cases ho
    | error | frame => exact absurd ho (send_notMem_settle hr)

end NetworkEmulator.Station

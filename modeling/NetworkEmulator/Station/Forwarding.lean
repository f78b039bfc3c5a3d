import NetworkEmulator.Station.Pending

namespace NetworkEmulator.Station

open Transition

variable {cfg : Config} {ms : List (Move State Event Out)} {s s' : State} {st st' : Store}
  {h out : List Out} {i : IfaceSocketPair} {recv : EtherPkt}

theorem handle_effect (he : Effect cfg st st' out) (hh : .handle i recv ∈ out) :
    ∃ ws, out = .handle i recv :: ws ∧ Handles cfg st i recv st' ws := by
  cases he with
  | quiet | sweep => simp at hh
  | console hc => exact absurd hh (handle_notMem_commands hc)
  | handle i' recv' hs =>
    rcases List.mem_cons.mp hh with heq | hh
    · obtain ⟨rfl, rfl⟩ := Out.handle.inj heq
      exact ⟨_, rfl, hs⟩
    · exact absurd hh (handle_notMem_handles hs)

def Forwards (cfg : Config) (recv : EtherPkt) : Prop :=
  recv.type ≠ 0 ∧ isIntendedIpDestination cfg recv.ipPkt.dstIp = false ∧ cfg.isRouter = true

theorem sends_of_forwards (hf : Forwards cfg recv) (hs : Handles cfg st i recv st' out) :
    Sends cfg st recv.ipPkt.srcIp recv.ipPkt.dstIp recv.ipPkt.data st' out := by
  obtain ⟨ht, hd, hr⟩ := hf
  cases hs with
  | ignored h =>
    rw [Ignored, if_neg ht] at h
    exact absurd hr (by simp [h.2])
  | request _ _ ht' => exact absurd ht' ht
  | flush _ _ _ _ _ ht' => exact absurd ht' ht
  | deliver _ hd' => exact absurd hd' (by simp [hd])
  | forward _ _ _ hs => exact hs

theorem ledger_handle : ledger (h ++ [.handle i recv]) = ledger h :=
  congrArg Ledger.ofEntries (filterMap_snoc_none rfl)

theorem ledger_sends {srcIp dstIp : IPAddr} {data : String} {hop : Hop}
    (hs : Sends cfg st srcIp dstIp data st' out) (hr : resolve cfg dstIp = .ok hop) :
    (st.arp.hasMapping hop.ipAddr = true ∧
        (ledger (h ++ out)).accepted[(ledger h).accepted.length]? =
          some ⟨hop.pendingPkt cfg srcIp dstIp data, true⟩ ∧
        ∃ pkt, ((ledger h).accepted.length, ⟨hop.pendingPkt cfg srcIp dstIp data, true⟩, pkt) ∈
          (ledger (h ++ out)).sent) ∨
      (st.arp.hasMapping hop.ipAddr = false ∧
        (ledger (h ++ out)).accepted[(ledger h).accepted.length]? =
          some ⟨hop.pendingPkt cfg srcIp dstIp data, false⟩) := by
  cases hs with
  | cached u hop' hr' hm =>
    obtain rfl := Except.ok.inj (hr'.symm.trans hr)
    have he : entryOf (.send (hop'.pendingPkt cfg srcIp dstIp data) true hop'.iface.2.fd
        (hop'.ipFrame u (st.arp.getMacFor hop'.ipAddr) dstIp data)) = some (.direct _ _) := rfl
    rw [ledger_snoc he]
    refine Or.inl ⟨hm, ?_, _, List.mem_append_right _ (List.mem_singleton.mpr rfl)⟩
    simp [Ledger.record, Ledger.direct]
  | queued u hop' hr' hm =>
    obtain rfl := Except.ok.inj (hr'.symm.trans hr)
    have he : entryOf (.send (hop'.pendingPkt cfg srcIp dstIp data) false hop'.iface.2.fd
        (hop'.requestFrame u)) = some (.wait _) := rfl
    rw [ledger_snoc he]
    exact Or.inr ⟨hm, by simp [Ledger.record, Ledger.wait]⟩

theorem accepted_extends {n : Nat} {a : Accepted} (ha : (ledger h).accepted[n]? = some a)
    (out : List Out) : (ledger (h ++ out)).accepted[n]? = some a := by
  rw [ledger, List.filterMap_append]
  exact Ledger.accepted_append _ ha

theorem sent_extends {t : Nat × Accepted × EtherPkt} (ht : t ∈ (ledger h).sent)
    (out : List Out) : t ∈ (ledger (h ++ out)).sent := by
  rw [ledger, List.filterMap_append]
  exact Ledger.sent_append _ ht

theorem carries_sent (p : Path (machine cfg) ms s h) {n : Nat} {a b : Accepted} {pkt : EtherPkt}
    (ha : (ledger h).accepted[n]? = some a) (hb : (n, b, pkt) ∈ (ledger h).sent) :
    Carries cfg a pkt := by
  have hitem := (ledger h).sent_item _ hb
  obtain rfl := Option.some.inj (ha.symm.trans hitem)
  exact Ledger.sent_certified (tracks p).certified _ hb

theorem createPkt_src {src src' dst : IPAddr} {data : String} :
    IpPkt.createPkt src dst data = IpPkt.createPkt src' dst data ↔ src = src' := by
  simp [IpPkt.createPkt]

-- the cached branch of send_ether_pkt drops its src_ip parameter, the queued one keeps it
theorem forwarded_unchanged_iff (p : Path (machine cfg) ms s h) {mv : Move State Event Out}
    (hmv : mv ∈ ms) (hh : .handle i recv ∈ mv.out) (hf : Forwards cfg recv) {hop : Hop}
    (hr : resolve cfg recv.ipPkt.dstIp = .ok hop) :
    (∀ a pkt, ((ledger mv.log).accepted.length, a, pkt) ∈ (ledger h).sent →
        pkt.ipPkt = IpPkt.createPkt recv.ipPkt.srcIp recv.ipPkt.dstIp recv.ipPkt.data) ↔
      mv.before.store.arp.hasMapping hop.ipAddr = false ∨
        recv.ipPkt.srcIp = hop.iface.1.ipAddr := by
  obtain ⟨_, -, -, hs⟩ := p.before hmv
  obtain ⟨h₂, rfl⟩ := p.log_prefix hmv
  obtain ⟨ws, hout, hhandles⟩ := handle_effect (effect_of_step hs) hh
  have hlog : mv.logAfter = (mv.log ++ [.handle i recv]) ++ ws := by
    rw [Move.logAfter, hout, List.append_assoc]
    rfl
  have hadds := ledger_sends (h := mv.log ++ [.handle i recv]) (sends_of_forwards hf hhandles) hr
  rw [← hlog, ledger_handle] at hadds
  rcases hadds with ⟨hm, hacc, pkt, hsent⟩ | ⟨hm, hacc⟩
  · have hsource : ∀ b pkt, ((ledger mv.log).accepted.length, b, pkt) ∈
        (ledger (mv.logAfter ++ h₂)).sent → pkt.ipPkt =
          IpPkt.createPkt hop.iface.1.ipAddr recv.ipPkt.dstIp recv.ipPkt.data := by
      intro b pkt hb
      obtain ⟨-, src, hsrc, hpkt⟩ := carries_sent p (accepted_extends hacc h₂) hb
      have hname : getIface cfg (hop.pendingPkt cfg recv.ipPkt.srcIp recv.ipPkt.dstIp
        recv.ipPkt.data).ifaceName = some hop.iface := resolve_ok hr
      simp only [Accepted.source, if_true, hname, Option.map_some, Option.some.injEq] at hsrc
      exact hsrc ▸ hpkt
    constructor
    · intro hall
      have hkept := hall _ pkt (sent_extends hsent h₂)
      rw [hsource _ pkt (sent_extends hsent h₂), createPkt_src] at hkept
      exact Or.inr hkept.symm
    · rintro (hno | hsrc) b pkt hb
      · exact absurd hm (by simp [hno])
      · exact hsrc ▸ hsource b pkt hb
  · refine ⟨fun _ => Or.inl hm, fun _ b pkt hb => ?_⟩
    obtain ⟨-, src, hsrc, hpkt⟩ := carries_sent p (accepted_extends hacc h₂) hb
    simp only [Accepted.source, Hop.pendingPkt, hf.2.2, if_true, Bool.false_eq_true, if_false,
      Option.some.injEq] at hsrc
    exact hsrc ▸ hpkt

def cachedRun : List Event :=
  [.sweep 0, .frames ⟨0, 0⟩, .skip,
    .recv (.frame { EtherPkt.uninit ⟨0, 0⟩ "dd" with
      type := 0
      arpPkt := ArpPkt.createReqPkt ⟨"D", "10.0.2.9", "255.255.255.0", "dd", "cs2"⟩ "10.0.2.1" })
      0 ⟨0, 0⟩,
    .sweep 0, .frames ⟨0, 0⟩, .recv (.frame (ipFrameTo "r1")) 0 ⟨0, 0⟩]

def cachedForward : Move State Event Out := ((machine routerR).moves cachedRun).get ⟨6, by decide⟩

theorem cachedForward_mem : cachedForward ∈ (machine routerR).moves cachedRun := List.get_mem _ _

def hopD : Hop := ⟨"10.0.2.9", "R2", (ifaceR2, ⟨4⟩)⟩

theorem forwarded_unchanged_iff_cached :
    (∀ a pkt, ((ledger cachedForward.log).accepted.length, a, pkt) ∈
        (ledger ((machine routerR).trace cachedRun)).sent →
        pkt.ipPkt = IpPkt.createPkt "10.0.1.5" "10.0.2.9" " hi") ↔
      cachedForward.before.store.arp.hasMapping "10.0.2.9" = false ∨ "10.0.1.5" = "10.0.2.1" :=
  have hh : .handle (ifaceR1, ⟨3⟩) (ipFrameTo "r1") ∈ cachedForward.out := by decide
  have hf : Forwards routerR (ipFrameTo "r1") := by
    unfold Forwards
    decide
  have hr : resolve routerR (ipFrameTo "r1").ipPkt.dstIp = .ok hopD := by decide
  forwarded_unchanged_iff ((machine routerR).path cachedRun (by decide)) cachedForward_mem hh hf hr

theorem forwarded_source_replaced :
    ¬ ∀ (cfg : Config) (ms : List (Move State Event Out)) (s : State) (h : List Out),
      Path (machine cfg) ms s h → ∀ mv ∈ ms, ∀ i recv hop, .handle i recv ∈ mv.out →
      Forwards cfg recv → resolve cfg recv.ipPkt.dstIp = .ok hop →
      ∀ a pkt, ((ledger mv.log).accepted.length, a, pkt) ∈ (ledger h).sent →
      pkt.ipPkt = IpPkt.createPkt recv.ipPkt.srcIp recv.ipPkt.dstIp recv.ipPkt.data := by
  intro hall
  have hp := (machine routerR).path cachedRun (by decide)
  have hkept := hall _ _ _ _ hp cachedForward cachedForward_mem (ifaceR1, ⟨3⟩) (ipFrameTo "r1") hopD
    (by decide) (by unfold Forwards; decide) (by decide) ⟨hopD.pendingPkt routerR "10.0.1.5"
      "10.0.2.9" " hi", true⟩ (hopD.ipFrame ⟨0, 0⟩ "dd" "10.0.2.9" " hi") (by decide)
  exact absurd hkept (by decide)

-- no branch of the receive loop compares mac_dst with anything
theorem handlePkt_macDst (cfg : Config) (st : Store) (i : IfaceSocketPair) (now : Milliseconds)
    (u : Uninit) (recv : EtherPkt) (macDst : MacAddr) :
    handlePkt cfg st i now u { recv with macDst := macDst } = handlePkt cfg st i now u recv := by
  have hreq : ∀ (ifaces : List IfaceSocketPair) (st : Store),
      handleRequest now u { recv with macDst := macDst } ifaces st =
        handleRequest now u recv ifaces st := by
    intro ifaces st
    rw [handleRequest_eq, handleRequest_eq]
    rfl
  unfold handlePkt
  rw [hreq]
  rfl

def LeavesAlone (mv : Move State Event Out) : Prop :=
  mv.after.store = mv.before.store ∧ (∀ o ∈ mv.out, o.frame = none) ∧
    ∀ sender pkt, .deliver sender pkt ∉ mv.out

theorem Handles.out_eq_nil_iff (hs : Handles cfg st i recv st' out) :
    out = [] ↔ Ignored cfg st recv := by
  cases hs with
  | ignored h => exact iff_of_true rfl h
  | request now u ht ho hd =>
    refine iff_of_false ?_ ?_
    · rw [List.map_eq_nil_iff, owners_eq_nil, hd]
      simp
    · simp [Ignored, ht, ho, hd]
  | flush now u k pp o ht ho hd hp =>
    refine iff_of_false (by simp) ?_
    obtain ⟨hk, hkey, -⟩ := firstPending_some hp
    have hmem := List.mem_of_getElem? hk
    rw [Ignored, if_pos ht, hd]
    rintro (h | ⟨-, hno⟩)
    · simp at h
    · exact hno pp hmem hkey
  | deliver ht hd => exact iff_of_false (by simp) (by simp [Ignored, ht, hd])
  | forward ht hd hr hs =>
    refine iff_of_false ?_ (by simp [Ignored, ht, hr])
    cases hs <;> simp

theorem Handles.visible (hs : Handles cfg st i recv st' out) :
    ∀ o ∈ out, o.frame ≠ none ∨ ∃ sender pkt, o = .deliver sender pkt := by
  intro o ho
  cases hs with
  | ignored => simp at ho
  | request =>
    obtain ⟨owner, -, rfl⟩ := List.mem_map.mp ho
    exact Or.inl (by simp [Out.frame])
  | flush =>
    rw [List.mem_singleton.mp ho]
    exact Or.inl (by simp [Out.frame])
  | deliver => exact Or.inr ⟨_, _, List.mem_singleton.mp ho⟩
  | forward _ _ _ hs =>
    cases hs with
    | cached | queued =>
      rw [List.mem_singleton.mp ho]
      exact Or.inl (by simp [Out.frame])

theorem Handles.store_of_nil (hs : Handles cfg st i recv st' out) (hout : out = []) : st' = st := by
  cases hs with
  | ignored | deliver => rfl
  | request now u ht ho hd => exact absurd hout (by simp [owners_eq_nil, hd])
  | flush => simp at hout
  | forward _ _ _ hs => cases hs <;> simp at hout

theorem Handles.leavesAlone_iff {mv : Move State Event Out}
    (hs : Handles cfg mv.before.store i recv mv.after.store out)
    (hout : mv.out = .handle i recv :: out) :
    LeavesAlone mv ↔ Ignored cfg mv.before.store recv := by
  rw [← hs.out_eq_nil_iff]
  constructor
  · rintro ⟨-, hframes, hdeliver⟩
    refine List.eq_nil_iff_forall_not_mem.mpr fun o ho => ?_
    have hmem : o ∈ mv.out := hout ▸ List.mem_cons_of_mem _ ho
    rcases hs.visible o ho with hframe | ⟨sender, pkt, rfl⟩
    · exact hframe (hframes o hmem)
    · exact hdeliver sender pkt hmem
  · intro hnil
    refine ⟨hs.store_of_nil hnil, ?_, ?_⟩
    · intro o ho
      rw [hout, hnil] at ho
      rw [List.mem_singleton.mp ho]
      rfl
    · simp [hout, hnil]

theorem frame_taken_by_payload (p : Path (machine cfg) ms s h) {mv : Move State Event Out}
    (hmv : mv ∈ ms) (hh : .handle i recv ∈ mv.out) :
    (LeavesAlone mv ↔ Ignored cfg mv.before.store recv) ∧
      (Forwards cfg recv → ∃ pp cached fd pkt, .send pp cached fd pkt ∈ mv.out) ∧
      ∀ st now u macDst, handlePkt cfg st i now u { recv with macDst := macDst } =
        handlePkt cfg st i now u recv := by
  obtain ⟨_, -, -, hs⟩ := p.before hmv
  obtain ⟨ws, hout, hhandles⟩ := handle_effect (effect_of_step hs) hh
  refine ⟨hhandles.leavesAlone_iff hout, ?_,
    fun st now u macDst => handlePkt_macDst cfg st i now u recv macDst⟩
  intro hf
  have hsends := sends_of_forwards hf hhandles
  rw [hout]
  generalize mv.after.store = st' at hsends
  cases hsends with
  | cached | queued => exact ⟨_, _, _, _, List.mem_cons_of_mem _ List.mem_cons_self⟩

def strayRun : List Event := heard (ipFrameTo "zz")

def strayForward : Move State Event Out := ((machine routerR).moves strayRun).get ⟨2, by decide⟩

theorem strayForward_mem : strayForward ∈ (machine routerR).moves strayRun := List.get_mem _ _

theorem frame_taken_by_payload_stray :
    (LeavesAlone strayForward ↔ Ignored routerR strayForward.before.store (ipFrameTo "zz")) ∧
      (Forwards routerR (ipFrameTo "zz") →
        ∃ pp cached fd pkt, .send pp cached fd pkt ∈ strayForward.out) ∧
      ∀ st now u macDst,
        handlePkt routerR st (ifaceR1, ⟨3⟩) now u { ipFrameTo "zz" with macDst := macDst } =
          handlePkt routerR st (ifaceR1, ⟨3⟩) now u (ipFrameTo "zz") :=
  frame_taken_by_payload ((machine routerR).path strayRun (by decide)) strayForward_mem (by decide)

theorem stray_frame_forwarded :
    ¬ ∀ (cfg : Config) (ms : List (Move State Event Out)) (s : State) (h : List Out),
      Path (machine cfg) ms s h → ∀ mv ∈ ms, ∀ i recv, .handle i recv ∈ mv.out →
      recv.macDst ≠ "" → recv.macDst ≠ i.1.macAddr → LeavesAlone mv := by
  intro hall
  have hp := (machine routerR).path strayRun (by decide)
  have halone := hall _ _ _ _ hp strayForward strayForward_mem (ifaceR1, ⟨3⟩) (ipFrameTo "zz")
    (by decide) (by decide) (by decide)
  exact absurd halone.2.1 (by decide)

end NetworkEmulator.Station

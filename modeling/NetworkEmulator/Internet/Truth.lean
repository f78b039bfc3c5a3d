import NetworkEmulator.Bridge.Learning
import NetworkEmulator.Internet.Wiring
import NetworkEmulator.Station.Egress
import NetworkEmulator.Station.Speech

namespace NetworkEmulator.Internet

open Transition Exchange

variable {β ν ζ : Type} {P : Plan β ν} {zone : β → ζ} {s s' : State β ν} {pkt recv : EtherPkt}
  {h out : List (Out ν)} {n m : ν} {b : β} {z : ζ}

def RealOn (P : Plan β ν) (b : β) (ip : IPAddr) (mac : MacAddr) : Prop :=
  ∃ n, ∃ i ∈ (P.config n).ifaces, P.lan i.1.lanName = b ∧ i.1.ipAddr = ip ∧ i.1.macAddr = mac

def RealMac (P : Plan β ν) (mac : MacAddr) : Prop := ∃ b ip, RealOn P b ip mac

def On (P : Plan β ν) (n : ν) (b : β) : Prop := ∃ i ∈ (P.config n).ifaces, P.lan i.1.lanName = b

def Nearby (P : Plan β ν) (n : ν) (ip : IPAddr) (mac : MacAddr) : Prop :=
  ∃ b, On P n b ∧ RealOn P b ip mac

def InZone (P : Plan β ν) (zone : β → ζ) (n : ν) (z : ζ) : Prop := ∃ b, On P n b ∧ zone b = z

-- no router has networks of two zones; a host may, since it forwards nothing
def Zoned (P : Plan β ν) (zone : β → ζ) : Prop :=
  ∀ n, (P.config n).isRouter = true → ∀ b b', On P n b → On P n b' → zone b = zone b'

def Said (P : Plan β ν) (h : List (Out ν)) (n : ν) (dst : IPAddr) (data : String) : Prop :=
  (P.config n).isRouter = false ∧ ∃ pp cached fd pkt, (n, .send pp cached fd pkt) ∈ h ∧
    pp.dstIpaddr = dst ∧ pp.data = data

def SaidIn (P : Plan β ν) (zone : β → ζ) (h : List (Out ν)) (z : ζ) (src dst : IPAddr)
    (data : String) : Prop :=
  ∃ m r, InZone P zone m z ∧ Said P h m dst data ∧
    (r = m ∨ (P.config r).isRouter = true ∧ InZone P zone r z) ∧
    ∃ i ∈ (P.config r).ifaces, i.1.ipAddr = src

structure Honest (P : Plan β ν) (zone : β → ζ) (h : List (Out ν)) (b : β) (pkt : EtherPkt) :
    Prop where
  macSrc : RealMac P pkt.macSrc
  macDst : pkt.macDst = "" ∨ RealMac P pkt.macDst
  arp : pkt.type = 0 → RealOn P b pkt.arpPkt.srcIp pkt.arpPkt.srcMac
  text : pkt.type ≠ 0 → SaidIn P zone h (zone b) pkt.ipPkt.srcIp pkt.ipPkt.dstIp pkt.ipPkt.data

def Heard (P : Plan β ν) (zone : β → ζ) (h : List (Out ν)) (n : ν) (pkt : EtherPkt) : Prop :=
  ∃ b, On P n b ∧ Honest P zone h b pkt

structure Trusts (P : Plan β ν) (zone : β → ζ) (h : List (Out ν)) (n : ν) (nd : Node) :
    Prop where
  ifaces : nd.ifaces ⊆ (P.config n).ifaces
  run : ∃ ms h, Path (Station.machine (P.running n nd.ifaces)) ms nd.state h
  arp : ∀ ip c, AList.lookup ip nd.state.store.arp = some c → Nearby P n ip c.mac
  pq : ∀ pp ∈ nd.state.store.pq, ∀ z, InZone P zone n z →
    SaidIn P zone h z pp.srcIpaddr pp.dstIpaddr pp.data
  buffer : ∀ rest recv, nd.state.pc = .ifaces rest recv →
    Heard P zone h n recv ∨ ∃ u, recv = EtherPkt.uninit u ""

theorem Nearby.realMac {ip : IPAddr} {mac : MacAddr} (hn : Nearby P n ip mac) : RealMac P mac := by
  obtain ⟨b, -, hr⟩ := hn
  exact ⟨b, ip, hr⟩

theorem SaidIn.append {src dst : IPAddr} {data : String} (out : List (Out ν))
    (hs : SaidIn P zone h z src dst data) : SaidIn P zone (h ++ out) z src dst data := by
  obtain ⟨m, r, hm, ⟨hhost, pp, cached, fd, pkt, hmem, hpp⟩, hr⟩ := hs
  exact ⟨m, r, hm, ⟨hhost, pp, cached, fd, pkt, List.mem_append_left _ hmem, hpp⟩, hr⟩

theorem Honest.append (out : List (Out ν)) (hp : Honest P zone h b pkt) :
    Honest P zone (h ++ out) b pkt :=
  { hp with text := fun ht => (hp.text ht).append out }

theorem Heard.append (out : List (Out ν)) (hp : Heard P zone h n pkt) :
    Heard P zone (h ++ out) n pkt := by
  obtain ⟨b, hon, hp⟩ := hp
  exact ⟨b, hon, hp.append out⟩

theorem Trusts.append {nd : Node} (out : List (Out ν)) (ht : Trusts P zone h n nd) :
    Trusts P zone (h ++ out) n nd :=
  { ht with
    pq := fun pp hpp z hz => (ht.pq pp hpp z hz).append out
    buffer := fun rest recv hpc => (ht.buffer rest recv hpc).imp (Heard.append out) id }

theorem Trusts.addressed {nd : Node} (ht : Trusts P zone h n nd) :
    ∀ i ∈ (P.running n nd.ifaces).ifaces, i.1.ipAddr ≠ "" :=
  fun i hi => P.addressed n i (ht.ifaces hi)

def Part (β ν : Type) : β ⊕ ν → Type
  | .inl _ => Bridge.State
  | .inr _ => Option Node

-- a frame is on a network while a port or an interface there can still read it
def view (P : Plan β ν) : View (State β ν) (β × EtherPkt) (Part β ν) where
  part s
    | .inl b => s.bridge b
    | .inr n => s.node n
  flight s x :=
    (∃ c fd, (c, x.2) ∈ s.up ∧ s.far x.1 fd = some c) ∨
      ∃ c n, ∃ i ∈ (P.config n).ifaces, (c, x.2) ∈ s.down ∧ P.lan i.1.lanName = x.1 ∧
        s.near n i.2.fd = some c

def Keeps (P : Plan β ν) (zone : β → ζ) : (k : β ⊕ ν) → List (Out ν) → Part β ν k → Prop
  | .inl _, _, bs => ∀ fd mac, Bridge.Records (Bridge.State.btable bs) fd mac → RealMac P mac
  | .inr n, h, nd => ∀ x : Node, nd = some x → Trusts P zone h n x

def truth (P : Plan β ν) (zone : β → ζ) : Contract (Out ν) (β × EtherPkt) (Part β ν) where
  good h x := Honest P zone h x.1 x.2
  keeps := Keeps P zone
  good_append out hp := hp.append out
  keeps_append {k h s} out hk := by
    cases k with
    | inl b => exact hk
    | inr n => exact fun nd hnd => (hk nd hnd).append out

theorem heard_step {nd : Node} (ht : Trusts P zone h n nd) {e : Station.Event}
    {st : Station.State} {sout : List Station.Out}
    (hrecv : ∀ recv now u, e = .recv (.frame recv) now u → Heard P zone h n recv)
    (hs : Station.step (P.running n nd.ifaces) nd.state e = some (st, sout)) {i : IfaceSocketPair}
    (hh : .handle i recv ∈ sout) : Heard P zone h n recv ∨ ∃ u, recv = EtherPkt.uninit u "" := by
  rcases Station.handled_of_step hs hh with ⟨now, u, rfl⟩ | ⟨now, u, rest, -, hpc⟩
  · exact Or.inl (hrecv recv now u rfl)
  · exact ht.buffer rest recv hpc

theorem vouched_step {nd : Node} (ht : Trusts P zone h n nd) {e : Station.Event}
    {st : Station.State} {sout : List Station.Out}
    (hrecv : ∀ recv now u, e = .recv (.frame recv) now u → Heard P zone h n recv)
    (hs : Station.step (P.running n nd.ifaces) nd.state e = some (st, sout)) :
    ∀ i recv, .handle i recv ∈ sout → Station.Vouches (P.running n nd.ifaces) nd.state.store recv →
      Station.Relied (Nearby P n) (RealMac P) recv := by
  intro i recv hh hv
  rcases heard_step ht hrecv hs hh with ⟨b, hon, hhonest⟩ | ⟨u, rfl⟩
  · exact ⟨hhonest.macSrc, fun htype => ⟨b, hon, hhonest.arp htype⟩⟩
  · exact absurd hv (Station.not_vouches_uninit ht.addressed u)

theorem forwarded_step (hz : Zoned P zone) {nd : Node} (ht : Trusts P zone h n nd)
    {e : Station.Event} {st : Station.State} {sout : List Station.Out}
    (hrecv : ∀ recv now u, e = .recv (.frame recv) now u → Heard P zone h n recv)
    (hs : Station.step (P.running n nd.ifaces) nd.state e = some (st, sout)) {i : IfaceSocketPair}
    (hh : .handle i recv ∈ sout) (hf : Station.Forwards (P.running n nd.ifaces) recv)
    (hin : InZone P zone n z) :
    SaidIn P zone h z recv.ipPkt.srcIp recv.ipPkt.dstIp recv.ipPkt.data ∧
      ∀ j ∈ (P.config n).ifaces,
        SaidIn P zone h z j.1.ipAddr recv.ipPkt.dstIp recv.ipPkt.data := by
  rcases heard_step ht hrecv hs hh with ⟨b, hon, hhonest⟩ | ⟨u, rfl⟩
  · obtain ⟨b', hon', rfl⟩ := hin
    have hrouter : (P.config n).isRouter = true := hf.2.2
    have hsame : zone b = zone b' := hz n hrouter b b' hon hon'
    have hsaid := hsame ▸ hhonest.text hf.1
    obtain ⟨m, r, hm, hsays, -⟩ := id hsaid
    exact ⟨hsaid, fun j hj => ⟨m, n, hm, hsays, Or.inr ⟨hrouter, b', hon', rfl⟩, j, hj, rfl⟩⟩
  · obtain ⟨ws, -, hhandles⟩ := Station.handle_effect (Station.effect_of_step hs) hh
    exact absurd hf (Station.not_forwards_blank hhandles)

theorem trusts_step (hz : Zoned P zone) {nd : Node} (ht : Trusts P zone h n nd)
    {e : Station.Event} {st : Station.State} {sout : List Station.Out}
    (hrecv : ∀ recv now u, e = .recv (.frame recv) now u → Heard P zone h n recv)
    (hs : Station.step (P.running n nd.ifaces) nd.state e = some (st, sout)) :
    Trusts P zone (h ++ sout.map fun o => (n, o)) n ⟨nd.ifaces, st⟩ ∧
      ∀ o ∈ sout, ∀ i ∈ (P.config n).ifaces, ∀ pkt, o.frame = some (i.2.fd, pkt) →
        Honest P zone (h ++ sout.map fun o => (n, o)) (P.lan i.1.lanName) pkt := by
  have he := Station.effect_of_step hs
  obtain ⟨harp, hown⟩ := Station.own_effect (fun ip mac hr => hr.realMac) ht.arp
    (vouched_step ht hrecv hs) he
  obtain ⟨hpq, htext⟩ := Station.text_effect
    (T := fun src dst data => ∀ z, InZone P zone n z →
      SaidIn P zone (h ++ sout.map fun o => (n, o)) z src dst data)
    (fun pp hpp z hin => (ht.pq pp hpp z hin).append _)
    (by
      intro hhost pp cached fd pkt hmem i hi z hin
      have hlog : (n, Station.Out.send pp cached fd pkt) ∈ sout.map fun o => (n, o) :=
        List.mem_map_of_mem hmem
      have hsays : Said P (h ++ sout.map fun o => (n, o)) n pp.dstIpaddr pp.data :=
        ⟨hhost, pp, cached, fd, pkt, List.mem_append_right _ hlog, rfl, rfl⟩
      exact ⟨n, n, hin, hsays, Or.inl rfl, i, ht.ifaces hi, rfl⟩)
    (by
      intro i recv hh hf
      refine ⟨fun z hin => ?_, fun j hj z hin => ?_⟩
      · exact (forwarded_step hz ht hrecv hs hh hf hin).1.append _
      · exact ((forwarded_step hz ht hrecv hs hh hf hin).2 j (ht.ifaces hj)).append _)
    he
  constructor
  · obtain ⟨ms, h', hp⟩ := ht.run
    refine ⟨ht.ifaces, ⟨_, _, hp.snoc hs⟩, harp, hpq, fun rest recv hpc => ?_⟩
    rcases Station.pc_of_step hs hpc with ⟨-, hblank⟩ | ⟨i, buffer, hpc', -, rfl | ⟨now, u, rfl⟩⟩
    · exact Or.inr hblank
    · exact (ht.buffer _ _ hpc').imp (Heard.append _) id
    · exact Or.inl ((hrecv recv now u rfl).append _)
  · intro o ho i hi pkt hf
    obtain ⟨⟨j, hj, hsrc, harpSrc⟩, hdst⟩ := hown o ho i.2.fd pkt hf
    have hreal : RealOn P (P.lan j.1.lanName) j.1.ipAddr j.1.macAddr :=
      ⟨n, j, ht.ifaces hj, rfl, rfl, rfl⟩
    refine ⟨hsrc ▸ ⟨_, _, hreal⟩, hdst, fun htype => ?_, fun htype => ?_⟩
    · obtain ⟨hfd, hip, hmac⟩ := harpSrc htype
      rw [hip, hmac, P.iface_unique hi (ht.ifaces hj) hfd]
      exact hreal
    · exact htext o ho i.2.fd pkt hf htype _ ⟨_, ⟨i, hi, rfl⟩, rfl⟩

theorem bridge_step {bs bs' : Bridge.State} {w : Bridge.Wake} {bout : List Bridge.Out}
    (hk : ∀ fd mac, Bridge.Records bs.btable fd mac → RealMac P mac)
    (hread : ∀ fd pkt, .read fd pkt ∈ bout → Honest P zone h b pkt)
    (hb : Bridge.step bs w = some (bs', bout)) :
    (∀ fd mac, Bridge.Records bs'.btable fd mac → RealMac P mac) ∧
      ∀ fd pkt, .write fd pkt ∈ bout → Honest P zone h b pkt := by
  constructor
  · intro fd mac hr
    rcases Bridge.records_step hb hr with hr | ⟨pkt, hpkt, -, rfl | ⟨rfl, hne, -⟩⟩
    · exact hk fd mac (Bridge.records_monitor hr)
    · exact (hread fd pkt hpkt).macSrc
    · exact (hread fd pkt hpkt).macDst.resolve_left hne
  · intro fd pkt hw
    obtain ⟨fd', hr⟩ := Bridge.read_of_write hb hw
    exact hread fd' pkt hr

theorem trusts_boot {ifaces : List IfaceSocketPair} (hi : ifaces.Sublist (P.config n).ifaces) :
    Trusts P zone h n ⟨ifaces, (Station.machine (P.running n ifaces)).init⟩ where
  ifaces := hi.subset
  run := ⟨_, _, .nil⟩
  arp := by simp [Station.machine]
  pq := by simp [Station.machine]
  buffer := fun rest recv hpc => by cases hpc

theorem flight_read {bs : Bridge.State} {w : Bridge.Wake} {bout : List Bridge.Out}
    {up : Link ConnId EtherPkt} (hb : Bridge.step (s.bridge b) w = some (bs, bout))
    (hd : drain s b bout = some up) {fd : Port} (hr : .read fd pkt ∈ bout) :
    (view P).flight s (b, pkt) := by
  obtain ⟨ws, rfl⟩ := Bridge.read_head hb hr
  obtain ⟨c, hc, hreceive⟩ := Option.bind_eq_some_iff.mp hd
  exact Or.inl ⟨c, fd, (Link.receive_perm hreceive).mem_iff.mp List.mem_cons_self, hc⟩

theorem flight_fetch {nd : Node} (ht : Trusts P zone h n nd) {now : Milliseconds} {u : Uninit}
    {down : Link ConnId EtherPkt}
    (hf : fetch s n nd.state.pc (.recv (.frame recv) now u) = some down) :
    ∃ b, On P n b ∧ (view P).flight s (b, recv) := by
  simp only [fetch] at hf
  split at hf
  · rename_i i rest buffer hpc
    obtain ⟨ms, h', hp⟩ := ht.run
    have hi : i ∈ (P.config n).ifaces := ht.ifaces (Station.rest_subset hp hpc List.mem_cons_self)
    obtain ⟨c, hc, hreceive⟩ := Option.bind_eq_some_iff.mp hf
    have hmem := (Link.receive_perm hreceive).mem_iff.mp List.mem_cons_self
    exact ⟨_, ⟨i, hi, rfl⟩, Or.inr ⟨c, n, i, hi, hmem, rfl, hc⟩⟩
  · cases hf

section Moves
variable [DecidableEq β] [DecidableEq ν]

omit [DecidableEq ν] in
theorem moves_bridge {bs : Bridge.State} {w : Bridge.Wake} {bout : List Bridge.Out}
    (hb : Bridge.step (s.bridge b) w = some (bs, bout))
    (hbridge : s'.bridge = Function.update s.bridge b bs) (hnode : s'.node = s.node)
    (htaken : ∀ fd pkt, .read fd pkt ∈ bout → (view P).flight s (b, pkt))
    (hput : ∀ x, (view P).flight s' x →
      (view P).flight s x ∨ x.1 = b ∧ ∃ fd, .write fd x.2 ∈ bout) :
    (truth P zone).Moves (view P) h [] s s' := by
  refine ⟨.inl b, fun x => x.1 = b ∧ ∃ fd, .read fd x.2 ∈ bout,
    fun x => x.1 = b ∧ ∃ fd, .write fd x.2 ∈ bout, ⟨?_, ?_, hput⟩, fun hk hgood => ?_⟩
  · intro j hj
    cases j with
    | inl b' =>
      have hne : b' ≠ b := fun he => hj (congrArg Sum.inl he)
      change s'.bridge b' = s.bridge b'
      rw [hbridge, Function.update_of_ne hne]
    | inr n =>
      change s'.node n = s.node n
      rw [hnode]
  · rintro ⟨_, pkt⟩ ⟨rfl, fd, hr⟩
    exact htaken fd pkt hr
  · rw [List.append_nil]
    have hread : ∀ fd pkt, .read fd pkt ∈ bout → Honest P zone h b pkt :=
      fun fd pkt hr => hgood (b, pkt) ⟨rfl, fd, hr⟩
    obtain ⟨hrec, hwrite⟩ := bridge_step hk hread hb
    constructor
    · change ∀ fd mac, Bridge.Records (s'.bridge b).btable fd mac → RealMac P mac
      rw [hbridge, Function.update_self]
      exact hrec
    · rintro ⟨_, pkt⟩ ⟨rfl, fd, hw⟩
      exact hwrite fd pkt hw

omit [DecidableEq β] in
theorem moves_node {nd' : Option Node} (takes puts : β × EtherPkt → Prop)
    (hbridge : s'.bridge = s.bridge) (hnode : s'.node = Function.update s.node n nd')
    (htaken : ∀ x, takes x → (view P).flight s x)
    (hput : ∀ x, (view P).flight s' x → (view P).flight s x ∨ puts x)
    (hturn : (∀ nd, s.node n = some nd → Trusts P zone h n nd) →
      (∀ x, takes x → Honest P zone h x.1 x.2) →
      (∀ nd, nd' = some nd → Trusts P zone (h ++ out) n nd) ∧
        ∀ x, puts x → Honest P zone (h ++ out) x.1 x.2) :
    (truth P zone).Moves (view P) h out s s' := by
  refine ⟨.inr n, takes, puts, ⟨?_, htaken, hput⟩, fun hk hgood => ?_⟩
  · intro j hj
    cases j with
    | inl b =>
      change s'.bridge b = s.bridge b
      rw [hbridge]
    | inr m =>
      have hne : m ≠ n := fun he => hj (congrArg Sum.inr he)
      change s'.node m = s.node m
      rw [hnode, Function.update_of_ne hne]
  · obtain ⟨htrusts, hputs⟩ := hturn hk hgood
    refine ⟨?_, hputs⟩
    change ∀ nd, s'.node n = some nd → Trusts P zone (h ++ out) n nd
    rw [hnode, Function.update_self]
    exact htrusts

omit [DecidableEq ν] in
theorem flight_serve (hp : Plugged P s) {bs : Bridge.State} {bout : List Bridge.Out}
    {up : Link ConnId EtherPkt} (hd : drain s b bout = some up) {x : β × EtherPkt}
    (hx : (view P).flight { s with
      bridge := Function.update s.bridge b bs
      far := Function.update s.far b (ports s b bout)
      up := up
      down := s.down ++ relayed s b bout } x) :
    (view P).flight s x ∨ x.1 = b ∧ ∃ fd, .write fd x.2 ∈ bout := by
  rcases hx with ⟨c, fd, hup, hfar⟩ | ⟨c, n, i, hi, hdown, hlan, hnear⟩
  · have hfar' : s.far x.1 fd = some c := end_of_cut (fun fd c he => far_of_ports he) hfar
    exact Or.inl (Or.inl ⟨c, fd, drain_subset hd hup, hfar'⟩)
  · rcases List.mem_append.mp hdown with hdown | hdown
    · exact Or.inl (Or.inr ⟨c, n, i, hi, hdown, hlan, hnear⟩)
    · obtain ⟨fd, hw, hfar⟩ := mem_relayed hdown
      exact Or.inr ⟨hlan ▸ hp.lan n i hi c b fd hnear hfar, fd, hw⟩

theorem flight_join (hp : Plugged P s) {i : IfaceSocketPair} {bs : Bridge.State} {cliFd : Port}
    {x : β × EtherPkt} (hx : (view P).flight (joined s n i.2.fd b bs cliFd) x) :
    (view P).flight s x := by
  rcases hx with ⟨c, fd, hup, hfar⟩ | ⟨c, m, j, hj, hdown, hlan, hnear⟩
  · rcases end_added hfar with ⟨-, -, rfl⟩ | hfar
    · exact absurd (hp.upOld _ hup) (Nat.lt_irrefl _)
    · exact Or.inl ⟨c, fd, hup, hfar⟩
  · rcases end_added hnear with ⟨-, -, rfl⟩ | hnear
    · exact absurd (hp.downOld _ hdown) (Nat.lt_irrefl _)
    · exact Or.inr ⟨c, m, j, hj, hdown, hlan, hnear⟩

omit [DecidableEq β] in
theorem moves_process (hz : Zoned P zone) (hp : Plugged P s) {nd : Node} {e : Station.Event}
    {st : Station.State} {sout : List Station.Out} {down : Link ConnId EtherPkt}
    (hn : s.node n = some nd) (hf : fetch s n nd.state.pc e = some down)
    (hs : Station.step (P.running n nd.ifaces) nd.state e = some (st, sout)) :
    (truth P zone).Moves (view P) h (sout.map fun o => (n, o)) s
      { s with
        node := Function.update s.node n (some ⟨nd.ifaces, st⟩)
        up := s.up ++ sent s n sout
        down := down } := by
  refine moves_node (fun x => (∃ now u, e = .recv (.frame x.2) now u) ∧ On P n x.1 ∧
      (view P).flight s x)
    (fun x => ∃ o ∈ sout, ∃ i ∈ (P.config n).ifaces, o.frame = some (i.2.fd, x.2) ∧
      P.lan i.1.lanName = x.1) rfl rfl (fun x hx => hx.2.2) ?_ fun hk hgood => ?_
  · rintro x (⟨c, fd, hup, hfar⟩ | ⟨c, m, j, hj, hdown, hlan, hnear⟩)
    · rcases List.mem_append.mp hup with hup | hup
      · exact Or.inl (Or.inl ⟨c, fd, hup, hfar⟩)
      · obtain ⟨o, ho, i, hi, hframe, hnear⟩ := mem_sent_iface hp hup
        exact Or.inr ⟨o, ho, i, hi, hframe, hp.lan n i hi c x.1 fd hnear hfar⟩
    · exact Or.inl (Or.inr ⟨c, m, j, hj, fetch_subset hf hdown, hlan, hnear⟩)
  · have ht := hk nd hn
    have hrecv : ∀ recv now u, e = .recv (.frame recv) now u → Heard P zone h n recv := by
      rintro recv now u rfl
      obtain ⟨b, hon, hflight⟩ := flight_fetch ht hf
      exact ⟨b, hon, hgood (b, recv) ⟨⟨now, u, rfl⟩, hon, hflight⟩⟩
    obtain ⟨htrusts, hframes⟩ := trusts_step hz ht hrecv hs
    refine ⟨fun nd' hnd' => Option.some.inj hnd' ▸ htrusts, ?_⟩
    rintro ⟨_, pkt⟩ ⟨o, ho, i, hi, hframe, rfl⟩
    exact hframes o ho i hi pkt hframe

variable {e : Event β ν} {ms : List (Move (State β ν) (Event β ν) (Out ν))}

theorem moves_of_happens (hz : Zoned P zone) (hp : Plugged P s) (h : List (Out ν))
    (hh : Happens P s e s' out) : (truth P zone).Moves (view P) h out s s' := by
  cases hh with
  | join n i w bs cliFd hi hn hl hb =>
    refine moves_bridge hb rfl rfl ?_ fun x hx => Or.inl (flight_join hp hx)
    exact fun fd pkt hr => absurd hr (Bridge.no_frame_of_listen hb hl fd pkt).1
  | refuse n i w bs bout hl hb =>
    refine moves_bridge hb rfl rfl ?_ fun x hx => Or.inl hx
    exact fun fd pkt hr => absurd hr (Bridge.no_frame_of_listen hb hl fd pkt).1
  | bridge b w bs bout up hl hb hd =>
    exact moves_bridge hb rfl rfl (fun fd pkt hr => flight_read hb hd hr) fun x hx =>
      flight_serve hp hd hx
  | boot n ifaces hi =>
    refine moves_node (fun _ => False) (fun _ => False) rfl rfl (by simp)
      (fun x hx => Or.inl hx) fun _ _ => ⟨fun nd hnd => ?_, by simp⟩
    exact Option.some.inj hnd ▸ trusts_boot hi
  | halt n =>
    refine moves_node (fun _ => False) (fun _ => False) rfl rfl (by simp)
      (fun x hx => Or.inl ?_) fun _ _ => ⟨by simp, by simp⟩
    rcases hx with hx | ⟨c, m, i, hi, hdown, hlan, hnear⟩
    · exact Or.inl hx
    · exact Or.inr ⟨c, m, i, hi, hdown, hlan, end_of_cut (by simp) hnear⟩
  | node n nd e st sout down hn hf hs => exact moves_process hz hp hn hf hs

theorem truth_holds (hz : Zoned P zone) (p : Path (machine P) ms s h) :
    (truth P zone).Holds (view P) h s := by
  have hinit : (truth P zone).Holds (view P) [] (machine P).init := by
    refine ⟨fun k => ?_, by simp [view, machine]⟩
    cases k with
    | inl b => exact fun fd mac hr => absurd hr (Bridge.not_records_empty fd mac)
    | inr n => exact fun nd hnd => by cases hnd
  exact Contract.holds_of_path (Plugged P) plugged_init hinit
    (fun hp hs => plugged_happens hp (happens_of_step hs))
    (fun hp hs => moves_of_happens hz hp _ (happens_of_step hs)) p

theorem trusts_of_path (hz : Zoned P zone) (p : Path (machine P) ms s h) {nd : Node}
    (hn : s.node n = some nd) : Trusts P zone h n nd :=
  (truth_holds hz p).parts (.inr n) nd hn

theorem heard_of_path (hz : Zoned P zone) (p : Path (machine P) ms s h) {nd : Node}
    (hn : s.node n = some nd) {ev : Station.Event} {down : Link ConnId EtherPkt}
    (hf : fetch s n nd.state.pc ev = some down) :
    ∀ recv now u, ev = .recv (.frame recv) now u → Heard P zone h n recv := by
  rintro recv now u rfl
  obtain ⟨b, hon, hflight⟩ := flight_fetch (trusts_of_path hz p hn) hf
  exact ⟨b, hon, (truth_holds hz p).flight (b, recv) hflight⟩

end Moves

variable [DecidableEq β] [DecidableEq ν] {ms : List (Move (State β ν) (Event β ν) (Out ν))}

def everywhere (_ : β) : Unit := ()

omit [DecidableEq β] [DecidableEq ν] in
theorem zoned_everywhere (P : Plan β ν) : Zoned P everywhere := fun _ _ _ _ _ _ => rfl

theorem addresses_real (p : Path (machine P) ms s h) :
    (∀ n nd, s.node n = some nd → ∀ ip c, AList.lookup ip nd.state.store.arp = some c →
        ∃ b, On P n b ∧ RealOn P b ip c.mac) ∧
      (∀ b fd mac, Bridge.Records (s.bridge b).btable fd mac → RealMac P mac) ∧
      ((∀ b b' ip mac mac', RealOn P b ip mac → RealOn P b' ip mac' → mac = mac') →
        ∀ n n' nd nd' ip c c', s.node n = some nd → s.node n' = some nd' →
          AList.lookup ip nd.state.store.arp = some c →
          AList.lookup ip nd'.state.store.arp = some c' → c.mac = c'.mac) := by
  have harp : ∀ n nd, s.node n = some nd → ∀ ip c,
      AList.lookup ip nd.state.store.arp = some c → Nearby P n ip c.mac :=
    fun n nd hn ip c hc => (trusts_of_path (zoned_everywhere P) p hn).arp ip c hc
  refine ⟨harp, fun b => (truth_holds (zoned_everywhere P) p).parts (.inl b), ?_⟩
  intro hdistinct n n' nd nd' ip c c' hn hn' hc hc'
  obtain ⟨b, -, hreal⟩ := harp n nd hn ip c hc
  obtain ⟨b', -, hreal'⟩ := harp n' nd' hn' ip c' hc'
  exact hdistinct b b' ip _ _ hreal hreal'

theorem addresses_real_hop :
    (∀ n nd, ((machine twoLans).final hopRun).node n = some nd →
        ∀ ip c, AList.lookup ip nd.state.store.arp = some c →
          ∃ b, On twoLans n b ∧ RealOn twoLans b ip c.mac) ∧
      (∀ b fd mac, Bridge.Records (((machine twoLans).final hopRun).bridge b).btable fd mac →
        RealMac twoLans mac) ∧
      ((∀ b b' ip mac mac', RealOn twoLans b ip mac → RealOn twoLans b' ip mac' → mac = mac') →
        ∀ n n' nd nd' ip c c', ((machine twoLans).final hopRun).node n = some nd →
          ((machine twoLans).final hopRun).node n' = some nd' →
          AList.lookup ip nd.state.store.arp = some c →
          AList.lookup ip nd'.state.store.arp = some c' → c.mac = c'.mac) :=
  addresses_real ((machine twoLans).path hopRun (by decide))

end NetworkEmulator.Internet

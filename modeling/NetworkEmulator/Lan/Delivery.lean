import NetworkEmulator.Lan.Net

namespace NetworkEmulator.Lan

open Transition

variable {ι : Type} {L : Plan ι} {s s' : State ι} {out h : List (Out ι)} {src dst : IPAddr}
  {data : String} {conn conn' : ι → Option ConnId}

def IsCopy (src dst : IPAddr) (data : String) (pkt : EtherPkt) : Prop :=
  pkt.type ≠ 0 ∧ pkt.ipPkt = IpPkt.createPkt src dst data

instance : DecidablePred (IsCopy src dst data) :=
  fun pkt => inferInstanceAs (Decidable (_ ∧ pkt.ipPkt = _))

def Facing (L : Plan ι) (conn : ι → Option ConnId) (ip : IPAddr) (c : ConnId) : Prop :=
  ∃ k, L.ip k = ip ∧ conn k = some c

def isAccepted (dst : IPAddr) (data : String) (pp : PendingPkt) : Bool :=
  pp.dstIpaddr = dst ∧ pp.data = data

def deliveries (pkt : IpPkt) (h : List (Out ι)) : Nat :=
  h.countP fun x => Station.isDelivery pkt x.2

def acceptances (L : Plan ι) (src dst : IPAddr) (data : String) (h : List (Out ι)) : Nat :=
  h.countP fun x => L.ip x.1 = src ∧ (Station.acceptedPkt x.2).any (isAccepted dst data)

def upCopies (src dst : IPAddr) (data : String) (up : Link ConnId EtherPkt) : Nat :=
  up.countP fun x => IsCopy src dst data x.2

open Classical in
noncomputable def downCopies (L : Plan ι) (conn : ι → Option ConnId) (src dst : IPAddr)
    (data : String) (down : Link ConnId EtherPkt) : Nat :=
  down.countP fun x => IsCopy src dst data x.2 ∧ Facing L conn dst x.1

def backlog (node : ι → Station.State) (dst : IPAddr) (data : String) : Option ι → Nat
  | none => 0
  | some k => (node k).store.pq.countP (isAccepted dst data)

def Owner (L : Plan ι) (ip : IPAddr) (owner : Option ι) : Prop :=
  ∀ k, L.ip k = ip ↔ owner = some k

theorem exists_owner (L : Plan ι) (ip : IPAddr) : ∃ owner, Owner L ip owner := by
  by_cases hex : ∃ k, L.ip k = ip
  · obtain ⟨k, rfl⟩ := hex
    refine ⟨some k, fun j => ?_⟩
    rw [Option.some.injEq, eq_comm]
    exact L.ip_injective.eq_iff
  · exact ⟨none, fun k => by simpa using fun hk => hex ⟨k, hk⟩⟩

def Bounded (L : Plan ι) (src dst : IPAddr) (data : String) (owner : Option ι) (s : State ι)
    (h : List (Out ι)) : Prop :=
  deliveries (IpPkt.createPkt src dst data) h + downCopies L s.conn src dst data s.down +
    upCopies src dst data s.up + backlog s.node dst data owner ≤ acceptances L src dst data h

theorem facing_unique {c c' : ConnId} (hc : Facing L conn dst c) (hc' : Facing L conn dst c') :
    c = c' := by
  obtain ⟨k, hk, hconn⟩ := hc
  obtain ⟨k', hk', hconn'⟩ := hc'
  obtain rfl : k = k' := L.ip_injective (hk.trans hk'.symm)
  exact Option.some.inj (hconn.symm.trans hconn')

theorem downCopies_append {down down' : Link ConnId EtherPkt} :
    downCopies L conn src dst data (down ++ down') =
      downCopies L conn src dst data down + downCopies L conn src dst data down' :=
  List.countP_append

theorem downCopies_mono {down : Link ConnId EtherPkt}
    (hf : ∀ x ∈ down, Facing L conn' dst x.1 → Facing L conn dst x.1) :
    downCopies L conn' src dst data down ≤ downCopies L conn src dst data down := by
  refine List.countP_mono_left fun x hx => ?_
  simp only [decide_eq_true_eq]
  exact fun hc => ⟨hc.1, hf x hx hc.2⟩

theorem upCopies_append {up up' : Link ConnId EtherPkt} :
    upCopies src dst data (up ++ up') = upCopies src dst data up + upCopies src dst data up' :=
  List.countP_append

theorem relayed_eq {pkt : EtherPkt} {ws : List Bridge.Out}
    (hws : ∀ o ∈ ws, ∃ fd, o = .write fd pkt ∨ o = .broken fd) :
    relayed s ws =
      (Bridge.written ws).filterMap fun fd => (s.port fd).map fun c => (c, pkt) := by
  induction ws with
  | nil => rfl
  | cons o ws ih =>
    have hrest := ih fun o ho => hws o (List.mem_cons_of_mem _ ho)
    simp only [relayed, Bridge.written] at hrest ⊢
    obtain ⟨fd, rfl | rfl⟩ := hws o List.mem_cons_self
    · cases hport : s.port fd with
      | none => simp [hport, hrest]
      | some c => simp [hport, hrest]
    · simpa using hrest

theorem relayed_copies (src dst : IPAddr) (data : String) (hso : Sound L s) {pkt : EtherPkt}
    {ws : List Bridge.Out} (hnd : (Bridge.written ws).Nodup)
    (hws : ∀ o ∈ ws, ∃ fd, o = .write fd pkt ∨ o = .broken fd) :
    downCopies L s.conn src dst data (relayed s ws) ≤ if IsCopy src dst data pkt then 1 else 0 := by
  rw [relayed_eq hws, downCopies, List.countP_filterMap]
  split_ifs with hcopy
  · refine Link.countP_le_one hnd fun fd _ fd' _ hfd hfd' => ?_
    cases hport : s.port fd with
    | none => simp [hport] at hfd
    | some c =>
      cases hport' : s.port fd' with
      | none => simp [hport'] at hfd'
      | some c' =>
        have hc : Facing L s.conn dst c := by simpa [hport, hcopy] using hfd
        have hc' : Facing L s.conn dst c' := by simpa [hport', hcopy] using hfd'
        obtain rfl := facing_unique hc hc'
        exact hso.portInj fd fd' c hport hport'
  · refine Nat.le_of_eq (List.countP_eq_zero.mpr fun fd _ => ?_)
    cases s.port fd <;> simp [hcopy]

theorem relayed_nil {bout : List Bridge.Out} (hno : ∀ fd pkt, Bridge.Out.write fd pkt ∉ bout) :
    relayed s bout = [] := by
  refine List.filterMap_eq_nil_iff.mpr fun o ho => ?_
  cases o with
  | write fd pkt => exact absurd ho (hno fd pkt)
  | accept | reject | read | broken | disconnect | overrun => rfl

theorem bridge_copies (src dst : IPAddr) (data : String) (hso : Sound L s) {w : Bridge.Wake}
    {b : Bridge.State} {bout : List Bridge.Out} {up : Link ConnId EtherPkt}
    (hb : Bridge.step s.bridge w = some (b, bout)) (hd : drain s bout = some up) :
    downCopies L s.conn src dst data (relayed s bout) + upCopies src dst data up ≤
      upCopies src dst data s.up := by
  obtain ⟨ms, h, hp⟩ := hso.bridge
  rcases Bridge.written_of_step (Bridge.wired hp) hb with hno | ⟨fd, pkt, ws, rfl, hnd, hws⟩
  · have hup : upCopies src dst data up ≤ upCopies src dst data s.up := by
      unfold drain at hd
      split at hd
      · obtain ⟨c, -, hc⟩ := Option.bind_eq_some_iff.mp hd
        have hcount := Link.receive_countP hc fun x => IsCopy src dst data x.2
        exact Nat.le.intro hcount.symm
      · exact Nat.le_of_eq (Option.some.inj hd ▸ rfl)
    rw [relayed_nil hno]
    simpa [downCopies] using hup
  · obtain ⟨c, -, hc⟩ := Option.bind_eq_some_iff.mp hd
    have hcount := Link.receive_countP hc fun x => IsCopy src dst data x.2
    have hcopies := relayed_copies src dst data hso hnd hws
    change downCopies L s.conn src dst data (relayed s ws) + _ ≤ _
    simp only [decide_eq_true_eq] at hcount
    unfold upCopies
    omega

theorem upCopies_sent (c : ConnId) (sout : List Station.Out) :
    upCopies src dst data (sent c sout) =
      (sout.filterMap Station.ipFrame).countP
        (fun pkt => pkt.ipPkt = IpPkt.createPkt src dst data) := by
  rw [upCopies, sent, List.countP_filterMap, List.countP_filterMap]
  refine List.countP_congr fun o _ => ?_
  cases hf : o.frame with
  | none => simp [Station.ipFrame, hf]
  | some f =>
    by_cases ht : f.2.type = 0
    · simp [Station.ipFrame, hf, ht, IsCopy, Option.filter]
    · simp [Station.ipFrame, hf, ht, IsCopy, Option.filter]

theorem deliveries_append {pkt : IpPkt} :
    deliveries pkt (h ++ out) = deliveries pkt h + deliveries pkt out :=
  List.countP_append

theorem acceptances_append :
    acceptances L src dst data (h ++ out) =
      acceptances L src dst data h + acceptances L src dst data out :=
  List.countP_append

theorem deliveries_station (pkt : IpPkt) (k : ι) (sout : List Station.Out) :
    deliveries pkt (sout.map fun o => (k, o)) = sout.countP (Station.isDelivery pkt) :=
  List.countP_map

theorem acceptances_station (L : Plan ι) (src dst : IPAddr) (data : String) (k : ι)
    (sout : List Station.Out) :
    acceptances L src dst data (sout.map fun o => (k, o)) =
      if L.ip k = src then (sout.filterMap Station.acceptedPkt).countP (isAccepted dst data)
      else 0 := by
  rw [acceptances, List.countP_map, List.countP_filterMap]
  split_ifs with hsrc
  · refine List.countP_congr fun o _ => ?_
    cases ha : Station.acceptedPkt o <;> simp [hsrc, ha]
  · exact List.countP_eq_zero.mpr fun o _ => by simp [hsrc]

theorem station_source (hso : Sound L s) {k : ι} {e : Station.Event} {n : Station.State}
    {sout : List Station.Out} (hn : Station.step (L.config k) (s.node k) e = some (n, sout)) :
    ∀ pkt ∈ sout.filterMap Station.ipFrame, pkt.ipPkt.srcIp = L.ip k := by
  obtain ⟨ms, h, hp⟩ := hso.node k
  intro pkt hpkt
  have hmem : pkt ∈ (h ++ sout).filterMap Station.ipFrame := by
    rw [List.filterMap_append]
    exact List.mem_append_right _ hpkt
  obtain ⟨i, hi, hsrc⟩ := Station.written_source rfl (hp.snoc hn) pkt hmem
  obtain rfl := List.mem_singleton.mp hi
  exact hsrc

theorem station_accounted (dst : IPAddr) (data : String) (hso : Sound L s) {k : ι}
    {e : Station.Event} {n : Station.State} {sout : List Station.Out}
    (hn : Station.step (L.config k) (s.node k) e = some (n, sout)) :
    (sout.filterMap Station.ipFrame).countP
          (fun pkt => pkt.ipPkt.dstIp = dst ∧ pkt.ipPkt.data = data) +
        n.store.pq.countP (isAccepted dst data) =
      (sout.filterMap Station.acceptedPkt).countP (isAccepted dst data) +
        (s.node k).store.pq.countP (isAccepted dst data) := by
  obtain ⟨ms, h, hp⟩ := hso.node k
  have hbefore := (Station.tracks hp).accounted dst data
  have hafter := (Station.tracks (hp.snoc hn)).accounted dst data
  rw [List.filterMap_append, List.filterMap_append, List.countP_append,
    List.countP_append] at hafter
  unfold isAccepted
  omega

theorem upCopies_station (src dst : IPAddr) (data : String) (hso : Sound L s) {k : ι}
    {e : Station.Event} {n : Station.State} {sout : List Station.Out}
    (hn : Station.step (L.config k) (s.node k) e = some (n, sout))
    (c : ConnId) :
    upCopies src dst data (sent c sout) =
      if L.ip k = src then
        (sout.filterMap Station.ipFrame).countP
          (fun pkt => pkt.ipPkt.dstIp = dst ∧ pkt.ipPkt.data = data)
      else 0 := by
  have hsource := station_source hso hn
  rw [upCopies_sent]
  split_ifs with hsrc
  · refine List.countP_congr fun pkt hpkt => ?_
    have hpktSrc := (hsource pkt hpkt).trans hsrc
    simp [IpPkt.eq_createPkt_iff, hpktSrc]
  · refine List.countP_eq_zero.mpr fun pkt hpkt => ?_
    have hpktSrc := hsource pkt hpkt
    simp only [decide_eq_true_eq]
    rintro heq
    exact hsrc (hpktSrc.symm.trans (congrArg IpPkt.srcIp heq))

theorem downCopies_fetch {k : ι} {c : ConnId} {e : Station.Event} {down : Link ConnId EtherPkt}
    (hf : fetch L s k c e = some down) :
    downCopies L s.conn src dst data down ≤ downCopies L s.conn src dst data s.down := by
  unfold fetch at hf
  split at hf
  · exact Nat.le.intro (Link.receive_countP hf _).symm
  · split at hf
    · cases hf
    · exact Nat.le_of_eq (Option.some.inj hf ▸ rfl)
  · exact Nat.le_of_eq (Option.some.inj hf ▸ rfl)

theorem station_deliveries (src dst : IPAddr) (data : String) (hso : Sound L s) {k : ι} {c : ConnId}
    {e : Station.Event} {n : Station.State} {sout : List Station.Out} {down : Link ConnId EtherPkt}
    (hc : s.conn k = some c) (hf : fetch L s k c e = some down)
    (hn : Station.step (L.config k) (s.node k) e = some (n, sout)) :
    sout.countP (Station.isDelivery (IpPkt.createPkt src dst data)) +
        downCopies L s.conn src dst data down ≤
      downCopies L s.conn src dst data s.down := by
  rcases Station.deliveries_effect (IpPkt.createPkt src dst data) (Station.effect_of_step hn) with
    hzero | ⟨hone, hown, i, recv, hh, ht, hip⟩
  · rw [hzero, Nat.zero_add]
    exact downCopies_fetch hf
  · obtain ⟨j, hj, hdst⟩ := Station.isIntended_iff.mp hown
    obtain rfl := List.mem_singleton.mp hj
    have hcopy : IsCopy src dst data recv := ⟨ht, hip⟩
    rcases Station.handled_of_step hn hh with ⟨now, u, rfl⟩ | ⟨now, u, rest, rfl, hpc⟩
    · have hfacing : Facing L s.conn dst c := ⟨k, hdst.symm, hc⟩
      have hcount : downCopies L s.conn src dst data s.down = _ := Link.receive_countP hf _
      rw [if_pos (by simp [hcopy, hfacing])] at hcount
      have hsame : downCopies L s.conn src dst data down + 1 = _ := hcount.symm
      omega
    · obtain ⟨ms, h, hp⟩ := hso.node k
      obtain ⟨-, u, rfl⟩ := Station.blank rfl hp rest recv hpc
      have hempty : L.ip k = "" := hdst.symm.trans (congrArg IpPkt.dstIp hip).symm
      simp [fetch, hempty] at hf

variable [DecidableEq ι] {owner : Option ι}

theorem facing_update {k j : ι} {o : Option ConnId} {c : ConnId} (hj : L.ip j = dst)
    (ho : o ≠ some c) (hconn : Function.update conn k o j = some c) : Facing L conn dst c := by
  by_cases hjk : j = k
  · rw [hjk, Function.update_self] at hconn
    exact absurd hconn ho
  · rw [Function.update_of_ne hjk] at hconn
    exact ⟨j, hj, hconn⟩

theorem bounded_join (hso : Sound L s) (hbd : Bounded L src dst data owner s h) (k : ι)
    (b : Bridge.State) (fd : Port) : Bounded L src dst data owner (joined L s k b fd) h := by
  have hdown : downCopies L (Function.update s.conn k (some s.next)) src dst data s.down ≤
      downCopies L s.conn src dst data s.down := by
    refine downCopies_mono fun x hx => ?_
    rintro ⟨j, hj, hconn⟩
    have hfresh : some s.next ≠ some x.1 :=
      fun heq => Nat.ne_of_gt (hso.downOld x hx) (Option.some.inj heq)
    exact facing_update hj hfresh hconn
  have hlog : backlog (Function.update s.node k (Station.machine (L.config k)).init) dst data
      owner ≤ backlog s.node dst data owner := by
    cases owner with
    | none => exact Nat.le_refl _
    | some j =>
      by_cases hj : j = k
      · subst hj
        simp [backlog, Station.machine]
      · simp [backlog, Function.update_of_ne hj]
  unfold Bounded at hbd
  change deliveries _ h + downCopies L (Function.update s.conn k (some s.next)) src dst data s.down +
    upCopies src dst data s.up + backlog (Function.update s.node k _) dst data owner ≤ _
  omega

omit [DecidableEq ι] in
theorem bounded_bridge (hso : Sound L s) (hbd : Bounded L src dst data owner s h)
    {w : Bridge.Wake} {b : Bridge.State} {bout : List Bridge.Out} {up : Link ConnId EtherPkt}
    (hb : Bridge.step s.bridge w = some (b, bout)) (hd : drain s bout = some up) :
    Bounded L src dst data owner
      { s with bridge := b, port := ports s bout, up := up, down := s.down ++ relayed s bout }
      h := by
  have hcopies := bridge_copies src dst data hso hb hd
  unfold Bounded at hbd
  change deliveries _ h + downCopies L s.conn src dst data (s.down ++ relayed s bout) +
    upCopies src dst data up + backlog s.node dst data owner ≤ _
  rw [downCopies_append]
  omega

theorem bounded_station (ho : Owner L src owner) (hso : Sound L s)
    (hbd : Bounded L src dst data owner s h) {k : ι} {c : ConnId} {e : Station.Event}
    {n : Station.State} {sout : List Station.Out} {down : Link ConnId EtherPkt}
    (hc : s.conn k = some c) (hf : fetch L s k c e = some down)
    (hn : Station.step (L.config k) (s.node k) e = some (n, sout)) :
    Bounded L src dst data owner
      { s with node := Function.update s.node k n, up := s.up ++ sent c sout, down := down }
      (h ++ sout.map fun o => (k, o)) := by
  have hdeliver := station_deliveries src dst data hso hc hf hn
  have hup := upCopies_station src dst data hso hn c
  have haccept := acceptances_station L src dst data k sout
  have hcount := station_accounted dst data hso hn
  unfold Bounded at hbd
  change deliveries _ (h ++ sout.map fun o => (k, o)) + downCopies L s.conn src dst data down +
    upCopies src dst data (s.up ++ sent c sout) +
    backlog (Function.update s.node k n) dst data owner ≤ _
  rw [deliveries_append, deliveries_station, acceptances_append, haccept, upCopies_append, hup]
  by_cases hk : L.ip k = src
  · obtain rfl := (ho k).mp hk
    rw [if_pos hk, if_pos hk]
    simp only [backlog, Function.update_self] at hbd ⊢
    omega
  · have hbacklog : backlog (Function.update s.node k n) dst data owner =
        backlog s.node dst data owner := by
      cases owner with
      | none => rfl
      | some j =>
        have hj : j ≠ k := by
          rintro rfl
          exact hk ((ho j).mpr rfl)
        simp [backlog, Function.update_of_ne hj]
    rw [if_neg hk, if_neg hk, hbacklog]
    omega

theorem bounded_halt (hbd : Bounded L src dst data owner s h) (k : ι) :
    Bounded L src dst data owner { s with conn := Function.update s.conn k none } h := by
  have hdown : downCopies L (Function.update s.conn k none) src dst data s.down ≤
      downCopies L s.conn src dst data s.down := by
    refine downCopies_mono fun x _ => ?_
    rintro ⟨j, hj, hconn⟩
    exact facing_update hj (by simp) hconn
  unfold Bounded at hbd
  change deliveries _ h + downCopies L (Function.update s.conn k none) src dst data s.down +
    upCopies src dst data s.up + backlog s.node dst data owner ≤ _
  omega

theorem bounded_happens (ho : Owner L src owner) (hso : Sound L s)
    (hbd : Bounded L src dst data owner s h) (hh : Happens L s s' out) :
    Bounded L src dst data owner s' (h ++ out) := by
  cases hh with
  | join k w b fd =>
    rw [List.append_nil]
    exact bounded_join hso hbd k b fd
  | refuse =>
    rw [List.append_nil]
    exact hbd
  | bridge w b bout up hb hd =>
    rw [List.append_nil]
    exact bounded_bridge hso hbd hb hd
  | station k c e down n sout hc hf hn => exact bounded_station ho hso hbd hc hf hn
  | halt k =>
    rw [List.append_nil]
    exact bounded_halt hbd k

theorem bounded {ms : List (Move (State ι) (Event ι) (Out ι))} (p : Path (machine L) ms s h)
    (dst : IPAddr) (data : String) (ho : Owner L src owner) : Bounded L src dst data owner s h := by
  have hinit : Bounded L src dst data owner (machine L).init [] := by
    have hlog : backlog (machine L).init.node dst data owner = 0 := by
      cases owner <;> rfl
    unfold Bounded
    rw [hlog]
    exact Nat.le_refl _
  have hboth : Sound L s ∧ Bounded L src dst data owner s h :=
    p.invariant (fun s h => Sound L s ∧ Bounded L src dst data owner s h)
      ⟨sound .nil, hinit⟩ (fun hi hs =>
        ⟨sound_happens hi.1 (happens_of_step hs),
          bounded_happens ho hi.1 hi.2 (happens_of_step hs)⟩)
  exact hboth.2

def AtHome (L : Plan ι) (h : List (Out ι)) : Prop :=
  ∀ k sender pkt, (k, .deliver sender pkt) ∈ h → pkt.dstIp = L.ip k

theorem atHome_happens (hh : Happens L s s' out) : AtHome L out := by
  intro k sender pkt hmem
  cases hh with
  | join | refuse | bridge | halt => simp at hmem
  | station j c e down n sout hc hf hn =>
    obtain ⟨o, ho, heq⟩ := List.mem_map.mp hmem
    obtain ⟨rfl, rfl⟩ := Prod.mk.inj heq
    have hpos : 0 < sout.countP (Station.isDelivery pkt) :=
      List.countP_pos_iff.mpr ⟨_, ho, by simp [Station.isDelivery]⟩
    rcases Station.deliveries_effect pkt (Station.effect_of_step hn) with hzero | ⟨-, hown, -⟩
    · omega
    · obtain ⟨i, hi, hdst⟩ := Station.isIntended_iff.mp hown
      obtain rfl := List.mem_singleton.mp hi
      exact hdst

theorem delivered_at_most_once_each {ms : List (Move (State ι) (Event ι) (Out ι))}
    (p : Path (machine L) ms s h) (src dst : IPAddr) (data : String) :
    deliveries (IpPkt.createPkt src dst data) h ≤ acceptances L src dst data h ∧
      ∀ k sender, (k, .deliver sender (IpPkt.createPkt src dst data)) ∈ h → L.ip k = dst := by
  constructor
  · obtain ⟨owner, ho⟩ := exists_owner L src
    have hbd := bounded p dst data ho
    unfold Bounded at hbd
    omega
  · have hhome : AtHome L h := by
      refine p.invariant (fun _ h => AtHome L h) (by intro k sender pkt hm; simp at hm) ?_
      intro s h e s' out hh hs k sender pkt hm
      rcases List.mem_append.mp hm with hm | hm
      · exact hh k sender pkt hm
      · exact atHome_happens (happens_of_step hs) k sender pkt hm
    exact fun k sender hm => (hhome k sender _ hm).symm

def pairPlan : Plan Bool where
  numPorts := 2
  listenFd := 3
  iface k := if k then Station.ifaceB else Station.ifaceA
  fd _ := 3
  routes k := [⟨"10.0.0.0", "0.0.0.0", "255.255.255.0", if k then "B" else "A"⟩]
  hosts _ := [⟨"A", "10.0.0.1"⟩, ⟨"B", "10.0.0.2"⟩]
  ip_injective := by
    unfold Function.Injective
    decide

def requestFromA : EtherPkt :=
  { EtherPkt.uninit ⟨0, 0⟩ "aa" with
    type := 0, arpPkt := ArpPkt.createReqPkt Station.ifaceA "10.0.0.2" }

def packetFromA : EtherPkt :=
  Station.flushFrame ⟨0, 0⟩ Station.ifaceA Station.responseFromB
    ⟨"10.0.0.2", "10.0.0.2", "10.0.0.1", "A", " x"⟩

def greetingRun : List (Event Bool) :=
  [.connect false (.connect 3 4), .connect true (.connect 3 5)] ++
    (Station.typed "send B x").map (.station false) ++ [.bridge (.carry 4 requestFromA)] ++
    (Station.heard requestFromA).map (.station true) ++
    [.bridge (.carry 5 Station.responseFromB)] ++
    (Station.heard Station.responseFromB).map (.station false) ++
    [.bridge (.carry 4 packetFromA)] ++ (Station.heard packetFromA).map (.station true)

example : deliveries (IpPkt.createPkt "10.0.0.1" "10.0.0.2" " x")
    ((machine pairPlan).trace greetingRun) = 1 := by decide

theorem delivered_at_most_once_each_greeting :
    deliveries (IpPkt.createPkt "10.0.0.1" "10.0.0.2" " x")
          ((machine pairPlan).trace greetingRun) ≤
        acceptances pairPlan "10.0.0.1" "10.0.0.2" " x" ((machine pairPlan).trace greetingRun) ∧
      ∀ k sender, (k, .deliver sender (IpPkt.createPkt "10.0.0.1" "10.0.0.2" " x")) ∈
        (machine pairPlan).trace greetingRun → pairPlan.ip k = "10.0.0.2" :=
  delivered_at_most_once_each ((machine pairPlan).path greetingRun (by decide)) _ _ _

end NetworkEmulator.Lan

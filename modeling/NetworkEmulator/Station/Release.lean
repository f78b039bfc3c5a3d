import NetworkEmulator.Station.Routed

namespace NetworkEmulator.Station

open Transition

variable {cfg : Config} {ms : List (Move State Event Out)} {s : State} {st st' : Store}
  {h out : List Out} {i : IfaceSocketPair} {recv : EtherPkt} {ip : IPAddr} {pq : PendingQueue}
  {now : Milliseconds} {u : Uninit}

def waiting (ip : IPAddr) (pq : PendingQueue) : PendingQueue :=
  pq.filter (fun pp => pp.nextHopIpaddr = ip)

def others (ip : IPAddr) (pq : PendingQueue) : PendingQueue :=
  pq.filter (fun pp => pp.nextHopIpaddr ≠ ip)

def Delivers (recv : EtherPkt) (pp : PendingPkt) (pkt : EtherPkt) : Prop :=
  pkt.type = 1 ∧ pkt.macDst = recv.arpPkt.srcMac ∧
    pkt.ipPkt = IpPkt.createPkt pp.srcIpaddr pp.dstIpaddr pp.data

structure Released (recv : EtherPkt) (st st' : Store) (out : List Out) : Prop where
  emptied : waiting recv.arpPkt.srcIp st'.pq = []
  written : List.Forall₂ (Delivers recv) (waiting recv.arpPkt.srcIp st.pq)
    ((out.filterMap Out.frame).map Prod.snd)
  kept : others recv.arpPkt.srcIp st'.pq = others recv.arpPkt.srcIp st.pq

def Releases (cfg : Config) (st : Store) (i : IfaceSocketPair) (now : Milliseconds) (u : Uninit)
    (recv : EtherPkt) : Prop :=
  ∃ st' out, handlePkt cfg st i now u recv = .ok (st', out) ∧ Released recv st st' out

structure FirstReleased (recv : EtherPkt) (st st' : Store) (out : List Out) : Prop where
  taken : st'.pq = st.pq.eraseP fun pp => pp.nextHopIpaddr = recv.arpPkt.srcIp
  written : List.Forall₂ (Delivers recv) ((waiting recv.arpPkt.srcIp st.pq).take 1)
    ((out.filterMap Out.frame).map Prod.snd)

def ReleasesFirst (cfg : Config) (st : Store) (i : IfaceSocketPair) (now : Milliseconds)
    (u : Uninit) (recv : EtherPkt) : Prop :=
  ∃ st' out, handlePkt cfg st i now u recv = .ok (st', out) ∧ FirstReleased recv st st' out

theorem waiting_eq_nil : waiting ip pq = [] ↔ firstPending ip pq = none := by
  simp [waiting, firstPending_none]

theorem firstPending_split {k : Nat} {pp : PendingPkt} (hp : firstPending ip pq = some (k, pp)) :
    waiting ip pq = pp :: waiting ip (pq.eraseIdx k) ∧
      others ip (pq.eraseIdx k) = others ip pq := by
  induction pq generalizing k with
  | nil => cases hp
  | cons q pq ih =>
    by_cases hq : q.nextHopIpaddr = ip
    · simp only [firstPending, hq, if_true, Option.some.injEq, Prod.mk.injEq] at hp
      obtain ⟨rfl, rfl⟩ := hp
      constructor
      · rw [waiting, List.filter_cons_of_pos (by simpa using hq)]
        rfl
      · rw [others, others, List.filter_cons_of_neg (by simpa using hq)]
        rfl
    · simp only [firstPending, hq, if_false, Option.map_eq_some_iff] at hp
      obtain ⟨⟨j, pp'⟩, hj, he⟩ := hp
      obtain ⟨rfl, rfl⟩ := Prod.mk.inj he
      obtain ⟨hw, ho⟩ := ih hj
      constructor
      · rw [List.eraseIdx_cons_succ, waiting, waiting, List.filter_cons_of_neg (by simpa using hq),
          List.filter_cons_of_neg (by simpa using hq)]
        exact hw
      · rw [List.eraseIdx_cons_succ, others, others, List.filter_cons_of_pos (by simpa using hq),
          List.filter_cons_of_pos (by simpa using hq)]
        exact congrArg (q :: ·) ho

theorem eraseIdx_firstPending {k : Nat} {pp : PendingPkt}
    (hp : firstPending ip pq = some (k, pp)) :
    pq.eraseIdx k = pq.eraseP fun pp => pp.nextHopIpaddr = ip := by
  induction pq generalizing k with
  | nil => cases hp
  | cons q pq ih =>
    by_cases hq : q.nextHopIpaddr = ip
    · simp only [firstPending, hq, if_true, Option.some.injEq, Prod.mk.injEq] at hp
      obtain ⟨rfl, -⟩ := hp
      rw [List.eraseP_cons_of_pos (by simpa using hq), List.eraseIdx_zero, List.tail_cons]
    · simp only [firstPending, hq, if_false, Option.map_eq_some_iff] at hp
      obtain ⟨⟨j, pp'⟩, hj, he⟩ := hp
      obtain ⟨rfl, rfl⟩ := Prod.mk.inj he
      rw [List.eraseP_cons_of_neg (by simpa using hq), List.eraseIdx_cons_succ, ih hj]

theorem handlePkt_response (ht : recv.type = 0) (ho : recv.arpPkt.op ≠ 0) :
    handlePkt cfg st i now u recv = handleResponse cfg st i.2.fd now u recv := by
  rw [handlePkt, if_pos ht, if_neg ho]

theorem releases_none (ht : recv.type = 0) (ho : recv.arpPkt.op ≠ 0)
    (hd : isIntendedIpDestination cfg recv.arpPkt.dstIp = true)
    (hp : firstPending recv.arpPkt.srcIp st.pq = none) : Releases cfg st i now u recv := by
  have hnil := waiting_eq_nil.mpr hp
  refine ⟨st, [], ?_, hnil, ?_, rfl⟩
  · rw [handlePkt_response ht ho, handleResponse, if_pos hd, hp]
  · rw [hnil]
    exact .nil

theorem releases_some (ht : recv.type = 0) (ho : recv.arpPkt.op ≠ 0)
    (hd : isIntendedIpDestination cfg recv.arpPkt.dstIp = true) {k : Nat} {pp : PendingPkt}
    (hp : firstPending recv.arpPkt.srcIp st.pq = some (k, pp)) :
    Releases cfg st i now u recv ↔
      waiting recv.arpPkt.srcIp (st.pq.eraseIdx k) = [] ∧
        ∃ o, getIface cfg pp.ifaceName = some o := by
  obtain ⟨hw, hrest⟩ := firstPending_split hp
  unfold Releases
  rw [handlePkt_response ht ho, handleResponse, if_pos hd, hp]
  cases hi : getIface cfg pp.ifaceName with
  | none => simp [hi]
  | some o =>
    simp only [hi, Except.ok.injEq, Prod.mk.injEq, Option.some.injEq, exists_eq', and_true]
    constructor
    · rintro ⟨st', out, ⟨rfl, rfl⟩, hr⟩
      exact hr.emptied
    · intro hnil
      refine ⟨_, _, ⟨rfl, rfl⟩, hnil, ?_, hrest⟩
      rw [hw, hnil]
      exact .cons ⟨rfl, rfl, rfl⟩ .nil

theorem releases_iff (ht : recv.type = 0) (ho : recv.arpPkt.op ≠ 0)
    (hd : isIntendedIpDestination cfg recv.arpPkt.dstIp = true) :
    Releases cfg st i now u recv ↔
      (waiting recv.arpPkt.srcIp st.pq).length ≤ 1 ∧
        ∀ pp ∈ waiting recv.arpPkt.srcIp st.pq, ∃ o, getIface cfg pp.ifaceName = some o := by
  cases hp : firstPending recv.arpPkt.srcIp st.pq with
  | none =>
    have hnil := waiting_eq_nil.mpr hp
    exact iff_of_true (releases_none ht ho hd hp) (by simp [hnil])
  | some r =>
    obtain ⟨hw, -⟩ := firstPending_split hp
    rw [releases_some ht ho hd hp, hw, List.length_cons, List.forall_mem_cons]
    constructor
    · rintro ⟨hnil, hi⟩
      simp [hnil, hi]
    · rintro ⟨hlen, hi, -⟩
      exact ⟨List.eq_nil_of_length_eq_zero (by omega), hi⟩

theorem response_releases_iff (ht : recv.type = 0) (ho : recv.arpPkt.op ≠ 0)
    (hd : isIntendedIpDestination cfg recv.arpPkt.dstIp = true) :
    (Releases cfg st i now u recv ↔
      (waiting recv.arpPkt.srcIp st.pq).length ≤ 1 ∧
        ∀ pp ∈ waiting recv.arpPkt.srcIp st.pq, ∃ o, getIface cfg pp.ifaceName = some o) ∧
      ∀ ms s h, Path (machine cfg) ms s h → s.store = st →
        (Releases cfg st i now u recv ↔ (waiting recv.arpPkt.srcIp st.pq).length ≤ 1) := by
  refine ⟨releases_iff ht ho hd, ?_⟩
  rintro ms s h p rfl
  rw [releases_iff ht ho hd]
  refine and_iff_left fun pp hpp => ?_
  obtain ⟨o, nextHop, hw⟩ := wellFormed_of_mem p (List.mem_of_mem_filter hpp)
  exact ⟨o, hw.found⟩

theorem releasesFirst_none (ht : recv.type = 0) (ho : recv.arpPkt.op ≠ 0)
    (hd : isIntendedIpDestination cfg recv.arpPkt.dstIp = true)
    (hp : firstPending recv.arpPkt.srcIp st.pq = none) : ReleasesFirst cfg st i now u recv := by
  refine ⟨st, [], ?_, ?_, ?_⟩
  · rw [handlePkt_response ht ho, handleResponse, if_pos hd, hp]
  · exact (List.eraseP_of_forall_not (by simpa using firstPending_none.mp hp)).symm
  · rw [waiting_eq_nil.mpr hp]
    exact .nil

theorem releasesFirst_some (ht : recv.type = 0) (ho : recv.arpPkt.op ≠ 0)
    (hd : isIntendedIpDestination cfg recv.arpPkt.dstIp = true) {k : Nat} {pp : PendingPkt}
    (hp : firstPending recv.arpPkt.srcIp st.pq = some (k, pp)) :
    ReleasesFirst cfg st i now u recv ↔ ∃ o, getIface cfg pp.ifaceName = some o := by
  unfold ReleasesFirst
  rw [handlePkt_response ht ho, handleResponse, if_pos hd, hp]
  cases hi : getIface cfg pp.ifaceName with
  | none => simp [hi]
  | some o =>
    refine iff_of_true ⟨_, _, by simp only [hi]; rfl, ?_, ?_⟩ ⟨o, rfl⟩
    · exact eraseIdx_firstPending hp
    · rw [(firstPending_split hp).1]
      exact .cons ⟨rfl, rfl, rfl⟩ .nil

theorem releasesFirst_iff (ht : recv.type = 0) (ho : recv.arpPkt.op ≠ 0)
    (hd : isIntendedIpDestination cfg recv.arpPkt.dstIp = true) :
    ReleasesFirst cfg st i now u recv ↔ ∀ pp ∈ (waiting recv.arpPkt.srcIp st.pq).head?,
      ∃ o, getIface cfg pp.ifaceName = some o := by
  cases hp : firstPending recv.arpPkt.srcIp st.pq with
  | none =>
    have hnil := waiting_eq_nil.mpr hp
    exact iff_of_true (releasesFirst_none ht ho hd hp) (by simp [hnil])
  | some r =>
    rw [releasesFirst_some ht ho hd hp, (firstPending_split hp).1]
    simp

theorem response_releases_first (ht : recv.type = 0) (ho : recv.arpPkt.op ≠ 0)
    (hd : isIntendedIpDestination cfg recv.arpPkt.dstIp = true) :
    (ReleasesFirst cfg st i now u recv ↔ ∀ pp ∈ (waiting recv.arpPkt.srcIp st.pq).head?,
      ∃ o, getIface cfg pp.ifaceName = some o) ∧
      ∀ ms s h, Path (machine cfg) ms s h → s.store = st → ReleasesFirst cfg st i now u recv := by
  refine ⟨releasesFirst_iff ht ho hd, ?_⟩
  rintro ms s h p rfl
  refine (releasesFirst_iff ht ho hd).mpr fun pp hpp => ?_
  obtain ⟨o, nextHop, hw⟩ :=
    wellFormed_of_mem p (List.mem_of_mem_filter (List.mem_of_mem_head? hpp))
  exact ⟨o, hw.found⟩

def twoWaiting : List Event := typed "send B x" ++ typed "send B y"

theorem response_releases_first_two :
    ReleasesFirst hostA ((machine hostA).final twoWaiting).store (ifaceA, ⟨3⟩) 0 ⟨0, 0⟩
      responseFromB :=
  (response_releases_first (by decide) (by decide) (by decide)).2 _ _ _
    ((machine hostA).path twoWaiting (by decide)) rfl

-- of two packets that wait for one address, the second stays behind
theorem second_packet_stays :
    ¬ ∀ (cfg : Config) (ms : List (Move State Event Out)) (s : State) (h : List Out),
      Path (machine cfg) ms s h → ∀ i ∈ cfg.ifaces, ∀ now u recv, recv.type = 0 →
      recv.arpPkt.op ≠ 0 → isIntendedIpDestination cfg recv.arpPkt.dstIp = true →
      Releases cfg s.store i now u recv := by
  intro hall
  have hr := hall hostA _ _ _ ((machine hostA).path twoWaiting (by decide)) (ifaceA, ⟨3⟩)
    (by decide) 0 ⟨0, 0⟩ responseFromB (by decide) (by decide) (by decide)
  rw [releases_iff (by decide) (by decide) (by decide)] at hr
  exact absurd hr.1 (by decide)

end NetworkEmulator.Station

import NetworkEmulator.Station.Egress
import NetworkEmulator.Station.Forwarding

namespace NetworkEmulator.Station

open Transition

variable {cfg : Config} {ms : List (Move State Event Out)} {mv : Move State Event Out}
  {s : State} {st : Store} {h : List Out} {i : IfaceSocketPair} {rest : List IfaceSocketPair}
  {recv buffer : EtherPkt} {now : Milliseconds} {u : Uninit}

def Unnoticed (mv : Move State Event Out) : Prop :=
  LeavesAlone mv ∧ ∀ f, mv.after.pc ≠ .fault f

theorem handleRequest_ignored (hd : isIntendedIpDestination cfg recv.arpPkt.dstIp = false) :
    handleRequest now u recv cfg.ifaces st = (st, []) := by
  refine handleRequest_none fun o ho heq => ?_
  have hin : isIntendedIpDestination cfg recv.arpPkt.dstIp = true :=
    isIntended_iff.mpr ⟨o, ho, heq.symm⟩
  simp [hd] at hin

theorem handleResponse_ignored {fd : Port}
    (hi : isIntendedIpDestination cfg recv.arpPkt.dstIp = false ∨
      ∀ pp ∈ st.pq, pp.nextHopIpaddr ≠ recv.arpPkt.srcIp) :
    handleResponse cfg st fd now u recv = .ok (st, []) := by
  unfold handleResponse
  rcases hi with hd | hno
  · simp [hd]
  · rw [firstPending_none.mpr hno]
    simp

theorem handlePkt_ignored (hi : Ignored cfg st recv) :
    handlePkt cfg st i now u recv = .ok (st, []) := by
  unfold Ignored at hi
  unfold handlePkt
  split at hi
  · rename_i ht
    rw [if_pos ht]
    split
    · rename_i hop
      rcases hi with hd | ⟨hop', -⟩
      · rw [handleRequest_ignored hd]
      · exact absurd hop hop'
    · exact handleResponse_ignored (hi.imp id And.right)
  · rename_i ht
    rw [if_neg ht, handleIp, hi.1, hi.2]
    rfl

theorem leavesAlone_iff_of_ok {r : Store × List Out}
    (hpc : mv.before.pc = .ifaces (i :: rest) buffer)
    (hs : step cfg mv.before (.recv .error now u) = some (mv.after, mv.out))
    (hk : handlePkt cfg mv.before.store i now u buffer = .ok r) :
    LeavesAlone mv ↔ Ignored cfg mv.before.store buffer := by
  obtain ⟨hafter, hout⟩ := out_of_hears hpc rfl hs hk
  have hstore : mv.after.store = r.1 := congrArg State.store hafter
  have hhandles := handles_of_handlePkt hk
  rw [← hstore] at hhandles
  exact hhandles.leavesAlone_iff hout

theorem failed_read_unnoticed_iff (p : Path (machine cfg) ms s h) (hmv : mv ∈ ms)
    (hpc : mv.before.pc = .ifaces (i :: rest) buffer) (he : mv.event = .recv .error now u) :
    Unnoticed mv ↔ Ignored cfg mv.before.store buffer := by
  obtain ⟨_, -, -, hs⟩ := p.before hmv
  rw [he] at hs
  change step cfg mv.before _ = _ at hs
  constructor
  · rintro ⟨halone, hfault⟩
    cases hk : handlePkt cfg mv.before.store i now u buffer with
    | error f =>
      have hr : Received.error.pkt buffer = some buffer := rfl
      rw [step_hears hpc hr, hk] at hs
      obtain ⟨hafter, -⟩ := Prod.mk.inj (Option.some.inj hs)
      exact absurd (congrArg State.pc hafter).symm (hfault f)
    | ok r => exact (leavesAlone_iff_of_ok hpc hs hk).mp halone
  · intro hi
    obtain ⟨hafter, -⟩ := out_of_hears hpc rfl hs (handlePkt_ignored hi)
    refine ⟨(leavesAlone_iff_of_ok hpc hs (handlePkt_ignored hi)).mpr hi, ?_⟩
    rw [hafter]
    exact fun f => next_ne_fault

def blankRun : List Event := [.sweep 0, .frames ⟨0, 0⟩, .recv .error 0 ⟨0, 0⟩]

def blankMove : Move State Event Out := ((machine hostA).moves blankRun).get ⟨2, by decide⟩

theorem failed_read_unnoticed_iff_blank :
    Unnoticed blankMove ↔
      Ignored hostA blankMove.before.store (EtherPkt.uninit ⟨0, 0⟩ "") :=
  failed_read_unnoticed_iff ((machine hostA).path blankRun (by decide)) (List.get_mem _ _) rfl rfl

def toRouter : EtherPkt :=
  { EtherPkt.uninit ⟨0, 0⟩ "ss" with
    macDst := "r1", type := 1, ipPkt := IpPkt.createPkt "10.0.1.5" "10.0.2.1" " hi" }

def twiceRun : List Event := heard toRouter ++ [.recv .error 0 ⟨0, 0⟩]

def twiceMove : Move State Event Out := ((machine routerR).moves twiceRun).get ⟨3, by decide⟩

-- the packet read on R1 is delivered again when the read on R2 fails
theorem failed_read_delivers_again :
    ¬ ∀ (cfg : Config) (ms : List (Move State Event Out)) (s : State) (h : List Out),
      Path (machine cfg) ms s h → ∀ mv ∈ ms, ∀ now u, mv.event = .recv .error now u →
      LeavesAlone mv := by
  intro hall
  have halone := hall routerR _ _ _ ((machine routerR).path twiceRun (by decide)) twiceMove
    (List.get_mem _ _) 0 ⟨0, 0⟩ rfl
  have hdelivered : .deliver "" toRouter.ipPkt ∈ twiceMove.out := by decide
  exact halone.2.2 _ _ hdelivered

end NetworkEmulator.Station

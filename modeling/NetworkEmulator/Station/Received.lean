import NetworkEmulator.Station.Start

namespace NetworkEmulator.Station

open Transition

variable {cfg : Config} {ms ms' : List (Move State Event Out)} {s s' : State}
  {h out : List Out} {recv : EtherPkt}

theorem handle_mem_settle {pc : Pc} {i i' : IfaceSocketPair} {recv recv' : EtherPkt}
    {now : Milliseconds} {u : Uninit}
    (hh : .handle i' recv' ∈
      (settle s pc [.handle i recv] (handlePkt cfg s.store i now u recv)).2) : recv' = recv := by
  cases hr : handlePkt cfg s.store i now u recv with
  | error f => simp [hr, settle] at hh
  | ok r =>
    rw [hr] at hh
    rcases List.mem_cons.mp hh with heq | hh
    · exact (Out.handle.inj heq).2
    · exact absurd hh (handle_notMem_handles (handles_of_handlePkt hr))

theorem handled_of_step {e : Event} (hs : step cfg s e = some (s', out)) {i : IfaceSocketPair}
    {recv : EtherPkt} (hh : .handle i recv ∈ out) :
    (∃ now u, e = .recv (.frame recv) now u) ∨
      ∃ now u rest, e = .recv .error now u ∧ s.pc = .ifaces rest recv := by
  cases turn_of_step hs with
  | sweep | frames | skip => simp at hh
  | stdin bytes u _ hr =>
    rcases (readStdin_some hr).1 with ⟨-, rfl⟩ | hc
    · simp at hh
    · exact absurd hh (handle_notMem_commands hc)
  | recv i' rest buffer r now u hpc =>
    cases r with
    | eof => simp [readIface] at hh
    | error =>
      obtain rfl := handle_mem_settle hh
      exact Or.inr ⟨now, u, _, rfl, hpc⟩
    | frame pkt =>
      obtain rfl := handle_mem_settle hh
      exact Or.inl ⟨now, u, rfl⟩

theorem next_eq_ifaces {rest rest' : List IfaceSocketPair} {buffer recv : EtherPkt}
    (h : next rest buffer = .ifaces rest' recv) : rest' = rest ∧ recv = buffer ∧ rest ≠ [] := by
  unfold next at h
  split at h
  · cases h
  · rename_i hne
    obtain ⟨rfl, rfl⟩ := Pc.ifaces.inj h
    exact ⟨rfl, rfl, by simpa using hne⟩

theorem settle_pc {pc : Pc} {head : List Out} {r : Except Fault (Store × List Out)}
    {rest : List IfaceSocketPair} {recv : EtherPkt}
    (h : (settle s pc head r).1.pc = .ifaces rest recv) : pc = .ifaces rest recv := by
  cases r with
  | error f => cases h
  | ok r => exact h

theorem pc_of_step {e : Event} (hs : step cfg s e = some (s', out))
    {rest : List IfaceSocketPair} {recv : EtherPkt} (hpc : s'.pc = .ifaces rest recv) :
    (rest = cfg.ifaces ∧ ∃ u, recv = EtherPkt.uninit u "") ∨
      ∃ i buffer, s.pc = .ifaces (i :: rest) buffer ∧ rest ≠ [] ∧
        (recv = buffer ∨ ∃ now u, e = .recv (.frame recv) now u) := by
  cases turn_of_step hs with
  | sweep => cases hpc
  | stdin bytes u _ hr => exact absurd hpc ((readStdin_some hr).2 rest recv)
  | frames u =>
    obtain ⟨rfl, rfl, -⟩ := next_eq_ifaces hpc
    exact Or.inl ⟨rfl, u, rfl⟩
  | skip i rest' buffer hpc' =>
    obtain ⟨rfl, rfl, hne⟩ := next_eq_ifaces hpc
    exact Or.inr ⟨i, recv, hpc', hne, Or.inl rfl⟩
  | recv i rest' buffer r now u hpc' =>
    right
    cases r with
    | eof =>
      obtain ⟨rfl, rfl, hne⟩ := next_eq_ifaces hpc
      exact ⟨i, recv, hpc', hne, Or.inl rfl⟩
    | error =>
      obtain ⟨rfl, rfl, hne⟩ := next_eq_ifaces (settle_pc hpc)
      exact ⟨i, recv, hpc', hne, Or.inl rfl⟩
    | frame pkt =>
      obtain ⟨rfl, rfl, hne⟩ := next_eq_ifaces (settle_pc hpc)
      exact ⟨i, buffer, hpc', hne, Or.inr ⟨now, u, rfl⟩⟩

def Arrived (ms : List (Move State Event Out)) (recv : EtherPkt) : Prop :=
  ∃ mv ∈ ms, ∃ now u, mv.event = .recv (.frame recv) now u

theorem Arrived.mono (hr : Arrived ms recv) (hsub : ms ⊆ ms') : Arrived ms' recv := by
  obtain ⟨mv, hmv, he⟩ := hr
  exact ⟨mv, hsub hmv, he⟩

def ArrivedOrBlank (ms : List (Move State Event Out)) (recv : EtherPkt) : Prop :=
  Arrived ms recv ∨ ∃ u, recv = EtherPkt.uninit u ""

theorem buffer_arrived (p : Path (machine cfg) ms s h) {rest : List IfaceSocketPair}
    (hpc : s.pc = .ifaces rest recv) : ArrivedOrBlank ms recv := by
  induction p generalizing rest recv with
  | nil => cases hpc
  | @snoc ms s s' h o e p hs ih =>
    rcases pc_of_step hs hpc with ⟨-, hblank⟩ | ⟨i, buffer, hpc', -, rfl | ⟨now, u, rfl⟩⟩
    · exact Or.inr hblank
    · exact (ih hpc').imp (fun hr => hr.mono (List.subset_append_left _ _)) id
    · exact Or.inl ⟨_, List.mem_append_right _ List.mem_cons_self, now, u, rfl⟩

-- a failed read handles what an earlier interface of the round has left in recv_ether_pkt, or what
-- its constructor has
theorem handled_arrived (p : Path (machine cfg) ms s h) {mv : Move State Event Out}
    (hmv : mv ∈ ms) {i : IfaceSocketPair} (hh : .handle i recv ∈ mv.out) :
    ArrivedOrBlank ms recv := by
  obtain ⟨ms', hsub, hp, hs⟩ := p.before hmv
  rcases handled_of_step hs hh with ⟨now, u, he⟩ | ⟨now, u, rest, -, hpc⟩
  · exact Or.inl ⟨mv, hmv, now, u, he⟩
  · exact (buffer_arrived hp hpc).imp (fun hr => hr.mono hsub) id

end NetworkEmulator.Station

import NetworkEmulator.Foundation.Run
import Mathlib.Data.Set.Finite.Lattice

namespace Transition

variable {S E O : Type} {M : Machine S E O} {ms : List (Move S E O)} {s : S} {h : List O}
  {ω : Nat → E}

-- the moves take the answers of ω one after the other
def Follows (ω : Nat → E) (ms : List (Move S E O)) : Prop :=
  ms.map Move.event = (List.range ms.length).map ω

theorem Follows.nil : Follows ω ([] : List (Move S E O)) := rfl

theorem Follows.snoc {m : Move S E O} (hf : Follows ω ms) (hm : m.event = ω ms.length) :
    Follows ω (ms ++ [m]) := by
  unfold Follows at hf ⊢
  rw [List.map_append, hf, List.length_append, List.length_singleton, List.range_succ,
    List.map_append, List.map_singleton, List.map_singleton, hm]

-- a machine that asks again after an idle answer and gets nearer to its end with every other one
structure Retries (M : Machine S E O) (Done : S → Prop) (Idle : E → Prop) (left : S → Nat) :
    Prop where
  goes : ∀ s e, ¬ Done s → ∃ s' o, M.step s e = some (s', o)
  nearer : ∀ {ms s h e s' o}, Path M ms s h → M.step s e = some (s', o) → ¬ Idle e →
    Done s' ∨ left s' < left s

def EndsOn (M : Machine S E O) (Done : S → Prop) (ω : Nat → E) : Prop :=
  ∃ ms s h, Path M ms s h ∧ Follows ω ms ∧ Done s

variable {Done : S → Prop} {Idle : E → Prop} {left : S → Nat}

theorem Retries.next (hr : Retries M Done Idle left) (p : Path M ms s h) (hf : Follows ω ms)
    (hd : ¬ Done s) : ∃ s' o, M.step s (ω ms.length) = some (s', o) ∧
      Path M (ms ++ [⟨s, h, ω ms.length, s', o⟩]) s' (h ++ o) ∧
      Follows ω (ms ++ [⟨s, h, ω ms.length, s', o⟩]) := by
  obtain ⟨s', o, hs⟩ := hr.goes s (ω ms.length) hd
  exact ⟨s', o, hs, p.snoc hs, hf.snoc rfl⟩

theorem Retries.reaches (hr : Retries M Done Idle left) (k : Nat) :
    EndsOn M Done ω ∨ ∃ ms s h, Path M ms s h ∧ Follows ω ms ∧ ms.length = k := by
  induction k with
  | zero => exact Or.inr ⟨[], M.init, [], .nil, .nil, rfl⟩
  | succ k ih =>
    rcases ih with hend | ⟨ms, s, h, p, hf, hlen⟩
    · exact Or.inl hend
    · by_cases hd : Done s
      · exact Or.inl ⟨ms, s, h, p, hf, hd⟩
      · obtain ⟨s', o, -, p', hf'⟩ := hr.next p hf hd
        exact Or.inr ⟨_, s', h ++ o, p', hf', by simp [hlen]⟩

-- once the idle answers are over, the induction is on what is left
theorem Retries.ends_from (hr : Retries M Done Idle left) {N : Nat}
    (hN : ∀ t, N ≤ t → ¬ Idle (ω t)) (p : Path M ms s h) (hf : Follows ω ms)
    (hlen : N ≤ ms.length) : EndsOn M Done ω := by
  induction hleft : left s using Nat.strongRecOn generalizing ms s h with
  | ind n ih =>
    by_cases hd : Done s
    · exact ⟨ms, s, h, p, hf, hd⟩
    · obtain ⟨s', o, hs, p', hf'⟩ := hr.next p hf hd
      rcases hr.nearer p hs (hN _ hlen) with hd' | hlt
      · exact ⟨_, s', h ++ o, p', hf', hd'⟩
      · refine ih (left s') (hleft ▸ hlt) p' hf' ?_ rfl
        rw [List.length_append]
        omega

theorem Retries.ends (hr : Retries M Done Idle left) (hfin : {t | Idle (ω t)}.Finite) :
    EndsOn M Done ω := by
  obtain ⟨N, hN⟩ := hfin.bddAbove
  rcases hr.reaches (N + 1) with hend | ⟨ms, s, h, p, hf, hlen⟩
  · exact hend
  · have hidle : ∀ t, N + 1 ≤ t → ¬ Idle (ω t) := by
      intro t ht hmem
      have hle := hN hmem
      omega
    exact hr.ends_from hidle p hf hlen.ge

end Transition

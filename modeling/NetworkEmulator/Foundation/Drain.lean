import NetworkEmulator.Foundation.Run
import Mathlib.Logic.Relation

namespace Transition

variable {S E O : Type} {M : Machine S E O} {R : S → E → List O → Prop} {s s' : S}

-- a step of a kind that is always left to the system
def Free (M : Machine S E O) (R : S → E → List O → Prop) (s s' : S) : Prop :=
  ∃ e o, M.step s e = some (s', o) ∧ R s e o

theorem Path.extend {ms : List (Move S E O)} {h : List O} (p : Path M ms s h)
    (hr : Relation.ReflTransGen (Free M R) s s') :
    ∃ ms' h', Path M (ms ++ ms') s' (h ++ h') ∧
      (∀ mv ∈ ms', R mv.before mv.event mv.out) ∧ ∀ x ∈ h', ∃ mv ∈ ms', x ∈ mv.out := by
  induction hr with
  | refl => exact ⟨[], [], by simpa using p, by simp, by simp⟩
  | @tail t t' _ hstep ih =>
    obtain ⟨ms', h', hp, hms, hh⟩ := ih
    obtain ⟨e, o, hs, hr⟩ := hstep
    refine ⟨ms' ++ [⟨t, h ++ h', e, t', o⟩], h' ++ o, ?_, ?_, ?_⟩
    · rw [← List.append_assoc, ← List.append_assoc]
      exact hp.snoc hs
    · intro mv hmv
      rcases List.mem_append.mp hmv with hmv | hmv
      · exact hms mv hmv
      · rw [List.mem_singleton.mp hmv]
        exact hr
    · intro x hx
      rcases List.mem_append.mp hx with hx | hx
      · obtain ⟨mv, hmv, hout⟩ := hh x hx
        exact ⟨mv, List.mem_append_left _ hmv, hout⟩
      · exact ⟨_, List.mem_append_right _ List.mem_cons_self, hx⟩

theorem exhaust {Inv done : S → Prop} (left : S → Nat)
    (progress : ∀ s, Inv s → ¬ done s →
      ∃ s', Relation.ReflTransGen (Free M R) s s' ∧ Inv s' ∧ left s' < left s)
    (hi : Inv s) : ∃ s', Relation.ReflTransGen (Free M R) s s' ∧ Inv s' ∧ done s' := by
  generalize hn : left s = n
  induction n using Nat.strongRecOn generalizing s with
  | _ n ih =>
    by_cases hd : done s
    · exact ⟨s, .refl, hi, hd⟩
    · obtain ⟨t, hst, ht, hlt⟩ := progress s hi hd
      obtain ⟨s', hts', hi', hd'⟩ := ih (left t) (hn ▸ hlt) ht rfl
      exact ⟨s', hst.trans hts', hi', hd'⟩

end Transition

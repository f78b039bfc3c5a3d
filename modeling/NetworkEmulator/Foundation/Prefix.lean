import Mathlib.Data.List.Basic
import Mathlib.Tactic.Common

namespace Prefix

def mask (w n : Nat) : BitVec w := BitVec.allOnes w <<< (w - n)

structure BitPrefix (w : Nat) where
  bits : BitVec w
  len : Nat
  len_le : len ≤ w
  inside : bits &&& mask w len = bits

variable {w m n k : Nat} {a : BitVec w} {p q : BitPrefix w} {ps : List (BitPrefix w)}

def BitPrefix.Contains (p : BitPrefix w) (a : BitVec w) : Prop := a &&& mask w p.len = p.bits

instance : Decidable (p.Contains a) := inferInstanceAs (Decidable (_ = _))

def StrictSub (q p : BitPrefix w) : Prop := p.len < q.len ∧ p.Contains q.bits

instance : Decidable (StrictSub q p) := inferInstanceAs (Decidable (_ ∧ _))

def IsLongest (ps : List (BitPrefix w)) (a : BitVec w) (k : Nat) : Prop :=
  ∃ p, ps[k]? = some p ∧ p.Contains a ∧
    ∀ j q, ps[j]? = some q → q.Contains a → q.len < p.len ∨ q.len = p.len ∧ k ≤ j

theorem mask_and_mask (h : m ≤ n) : mask w n &&& mask w m = mask w m := by
  refine BitVec.eq_of_getLsbD_eq fun i hi => ?_
  simp only [mask, BitVec.getLsbD_and, BitVec.getLsbD_shiftLeft, BitVec.getLsbD_allOnes]
  by_cases hm : i < w - m
  · simp [hm]
  · have hn : ¬ i < w - n := by omega
    have hlt : i - (w - n) < w := by omega
    simp [hm, hn, hi, hlt]

theorem strictSub_of_contains (hp : p.Contains a) (hq : q.Contains a) (h : p.len < q.len) :
    StrictSub q p := by
  refine ⟨h, ?_⟩
  calc q.bits &&& mask w p.len
      = a &&& mask w q.len &&& mask w p.len := by rw [← hq]
    _ = a &&& mask w p.len := by rw [BitVec.and_assoc, mask_and_mask (Nat.le_of_lt h)]
    _ = p.bits := hp

-- of two prefixes that contain one address the longer is nested in the shorter, so in this order
-- the first that is met is the longest
theorem isLongest_of_first (hord : ps.Pairwise (fun p q => ¬ StrictSub q p))
    (hk : ps[k]? = some p) (hp : p.Contains a)
    (hfirst : ∀ j < k, ∀ q, ps[j]? = some q → ¬ q.Contains a) : IsLongest ps a k := by
  refine ⟨p, hk, hp, fun j q hj hq => ?_⟩
  have hle : k ≤ j := Nat.le_of_not_lt fun hlt => hfirst j hlt q hj hq
  rcases Nat.eq_or_lt_of_le hle with rfl | hlt
  · obtain rfl := Option.some.inj (hk.symm.trans hj)
    exact Or.inr ⟨rfl, Nat.le_refl k⟩
  · obtain ⟨hkl, rfl⟩ := List.getElem?_eq_some_iff.mp hk
    obtain ⟨hjl, rfl⟩ := List.getElem?_eq_some_iff.mp hj
    have hnot := List.pairwise_iff_getElem.mp hord k j hkl hjl hlt
    have hlen : ps[j].len ≤ ps[k].len :=
      Nat.le_of_not_lt fun hlonger => hnot (strictSub_of_contains hp hq hlonger)
    omega

theorem IsLongest.contains (hl : IsLongest ps a k) : ∃ p ∈ ps, p.Contains a := by
  obtain ⟨p, hk, hp, -⟩ := hl
  exact ⟨p, List.mem_of_getElem? hk, hp⟩

end Prefix

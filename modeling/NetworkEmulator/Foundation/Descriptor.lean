import Mathlib.Data.List.Nodup
import Mathlib.Data.List.Range
import Mathlib.Tactic.Common

-- the descriptors below a limit, of which an open takes the lowest that is not open
namespace Descriptor

abbrev Open := List Nat

def free (limit : Nat) (fds : Open) : List Nat := (List.range limit).filter (· ∉ fds)

variable {limit n a b : Nat} {fds : Open} {rest : List Nat}

theorem mem_free : n ∈ free limit fds ↔ n < limit ∧ n ∉ fds := by
  rw [free, List.mem_filter, List.mem_range, decide_eq_true_iff]

theorem free_sorted : (free limit fds).Pairwise (· < ·) :=
  List.Pairwise.filter _ List.pairwise_lt_range

theorem free_nodup : (free limit fds).Nodup := free_sorted.imp Nat.ne_of_lt

theorem free_open : free limit (n :: fds) = (free limit fds).erase n := by
  rw [free_nodup.erase_eq_filter, free, free, List.filter_filter]
  apply List.filter_congr
  intro m _
  by_cases hm : m = n
  · simp [hm]
  · simp [hm]

theorem free_first (hf : free limit fds = a :: rest) : free limit (a :: fds) = rest := by
  rw [free_open, hf, List.erase_cons_head]

-- the lowest one has been closed again and is the next to be taken
theorem free_second (hf : free limit fds = a :: b :: rest) :
    free limit (b :: fds) = a :: rest := by
  have hlt : a < b := by
    have hsorted : (free limit fds).Pairwise (· < ·) := free_sorted
    rw [hf] at hsorted
    exact List.rel_of_pairwise_cons hsorted List.mem_cons_self
  rw [free_open, hf, List.erase_cons_tail (by simpa using Nat.ne_of_lt hlt), List.erase_cons_head]

end Descriptor

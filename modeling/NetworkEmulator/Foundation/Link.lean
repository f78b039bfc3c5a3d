import Mathlib.Data.List.Perm.Basic
import Mathlib.Tactic.Common

-- any number of first-in first-out lines in one list: a message names the line it is on
abbrev Link (C P : Type) := List (C × P)

namespace Link

variable {C P : Type} [DecidableEq C] [DecidableEq P]

def receive (c : C) (x : P) : Link C P → Option (Link C P)
  | [] => none
  | (c', y) :: l =>
    if c' = c then if y = x then some l else none
    else (receive c x l).map ((c', y) :: ·)

theorem receive_perm {c : C} {x : P} {l l' : Link C P} (h : receive c x l = some l') :
    ((c, x) :: l').Perm l := by
  induction l generalizing l' with
  | nil => simp [receive] at h
  | cons y l ih =>
    obtain ⟨c', y⟩ := y
    unfold receive at h
    split_ifs at h with hc hy
    · obtain rfl := Option.some.inj h
      rw [hc, hy]
    · obtain ⟨l₁, hl, rfl⟩ := Option.map_eq_some_iff.mp h
      exact (List.Perm.swap _ _ _).trans ((ih hl).cons _)

theorem receive_countP {c : C} {x : P} {l l' : Link C P} (h : receive c x l = some l')
    (p : C × P → Bool) : l.countP p = l'.countP p + if p (c, x) then 1 else 0 := by
  rw [← (receive_perm h).countP_eq p, List.countP_cons]

theorem receive_subset {c : C} {x : P} {l l' : Link C P} (h : receive c x l = some l') :
    l' ⊆ l :=
  fun _ hy => (receive_perm h).mem_iff.mp (List.mem_cons_of_mem _ hy)

theorem countP_le_one {α : Type} {xs : List α} (hnd : xs.Nodup) {p : α → Bool}
    (huniq : ∀ x ∈ xs, ∀ y ∈ xs, p x = true → p y = true → x = y) : xs.countP p ≤ 1 := by
  induction xs with
  | nil => simp
  | cons x xs ih =>
    obtain ⟨hx, hnd⟩ := List.nodup_cons.mp hnd
    rw [List.countP_cons]
    have hrest := ih hnd fun y hy z hz =>
      huniq y (List.mem_cons_of_mem _ hy) z (List.mem_cons_of_mem _ hz)
    split_ifs with hp
    · have hzero : xs.countP p = 0 := by
        refine List.countP_eq_zero.mpr fun y hy hpy => hx ?_
        have heq := huniq x List.mem_cons_self y (List.mem_cons_of_mem _ hy) hp hpy
        exact heq ▸ hy
      omega
    · omega

end Link

import NetworkEmulator.Foundation.Link
import NetworkEmulator.Foundation.Run

namespace Transition

variable {S E O : Type} {M : Machine S E O} {ms : List (Move S E O)} {s : S} {h : List O}

-- an additive count of what has been put out
structure Meter (O : Type) where
  count : List O → Nat
  count_nil : count [] = 0
  count_append : ∀ h o, count (h ++ o) = count h + count o

def Meter.ofPred (p : O → Bool) : Meter O where
  count h := h.countP p
  count_nil := rfl
  count_append _ _ := List.countP_append

def Meter.add (a b : Meter O) : Meter O where
  count h := a.count h + b.count h
  count_nil := by rw [a.count_nil, b.count_nil]
  count_append h o := by
    rw [a.count_append, b.count_append]
    omega

def Meter.scale (k : Nat) (a : Meter O) : Meter O where
  count h := k * a.count h
  count_nil := by rw [a.count_nil, Nat.mul_zero]
  count_append h o := by rw [a.count_append, Nat.mul_add]

theorem Path.amortised (Inv : S → Prop) (Φ : S → Nat) (cost credit : Meter O) (base : Inv M.init)
    (keep : ∀ {s e s' o}, Inv s → M.step s e = some (s', o) → Inv s')
    (step : ∀ {s e s' o}, Inv s → M.step s e = some (s', o) →
      cost.count o + Φ s' ≤ Φ s + credit.count o)
    (p : Path M ms s h) : cost.count h + Φ s ≤ Φ M.init + credit.count h := by
  have hboth : Inv s ∧ cost.count h + Φ s ≤ Φ M.init + credit.count h := by
    refine p.invariant (fun s h => Inv s ∧ cost.count h + Φ s ≤ Φ M.init + credit.count h) ?_ ?_
    · rw [cost.count_nil, credit.count_nil]
      exact ⟨base, Nat.le_of_eq (Nat.add_comm _ _)⟩
    · rintro s h e s' o ⟨hi, hprev⟩ hs
      have hnow := step hi hs
      rw [cost.count_append, credit.count_append]
      exact ⟨keep hi hs, by omega⟩
  exact hboth.2

end Transition

namespace Link

variable {C P : Type}

def total (w : C × P → Nat) : Link C P → Nat
  | [] => 0
  | x :: l => w x + total w l

@[simp] theorem total_nil (w : C × P → Nat) : total w [] = 0 := rfl

theorem total_cons (w : C × P → Nat) (x : C × P) (l : Link C P) :
    total w (x :: l) = w x + total w l := rfl

theorem total_append (w : C × P → Nat) (l l' : Link C P) :
    total w (l ++ l') = total w l + total w l' := by
  induction l with
  | nil => rw [List.nil_append, total_nil, Nat.zero_add]
  | cons x l ih => rw [List.cons_append, total_cons, total_cons, ih, Nat.add_assoc]

theorem total_mono {w w' : C × P → Nat} {l : Link C P} (hw : ∀ x ∈ l, w x ≤ w' x) :
    total w l ≤ total w' l := by
  induction l with
  | nil => exact Nat.le_refl 0
  | cons x l ih =>
    have hrest := ih fun y hy => hw y (List.mem_cons_of_mem _ hy)
    exact Nat.add_le_add (hw x List.mem_cons_self) hrest

theorem total_le_length {w : C × P → Nat} {l : Link C P} {k : Nat} (hk : ∀ x ∈ l, w x ≤ k) :
    total w l ≤ l.length * k := by
  induction l with
  | nil => exact Nat.zero_le _
  | cons x l ih =>
    have hrest := ih fun y hy => hk y (List.mem_cons_of_mem _ hy)
    have hhead := hk x List.mem_cons_self
    rw [total_cons, List.length_cons, Nat.succ_mul]
    omega

theorem total_eq_zero {w : C × P → Nat} {l : Link C P} (hw : ∀ x ∈ l, w x = 0) :
    total w l = 0 := by
  induction l with
  | nil => rfl
  | cons x l ih =>
    rw [total_cons, hw x List.mem_cons_self, ih fun y hy => hw y (List.mem_cons_of_mem _ hy)]

theorem total_perm (w : C × P → Nat) {l l' : Link C P} (h : l.Perm l') :
    total w l = total w l' := by
  induction h with
  | nil => rfl
  | cons x _ ih => rw [total_cons, total_cons, ih]
  | swap x y l =>
    rw [total_cons, total_cons, total_cons, total_cons]
    exact Nat.add_left_comm _ _ _
  | trans _ _ ih ih' => exact ih.trans ih'

theorem total_le_of_unique {w : C × P → Nat} {l : Link C P} {k : Nat} (hnd : l.Nodup)
    (hk : ∀ x ∈ l, w x ≤ k) (huniq : ∀ x ∈ l, ∀ y ∈ l, w x ≠ 0 → w y ≠ 0 → x = y) :
    total w l ≤ k := by
  induction l with
  | nil => exact Nat.zero_le k
  | cons x l ih =>
    obtain ⟨hx, hnd⟩ := List.nodup_cons.mp hnd
    rw [total_cons]
    by_cases hzero : w x = 0
    · rw [hzero, Nat.zero_add]
      exact ih hnd (fun y hy => hk y (List.mem_cons_of_mem _ hy)) fun y hy z hz =>
        huniq y (List.mem_cons_of_mem _ hy) z (List.mem_cons_of_mem _ hz)
    · have hrest : total w l = 0 := by
        refine total_eq_zero fun y hy => ?_
        by_contra hne
        obtain rfl := huniq x List.mem_cons_self y (List.mem_cons_of_mem _ hy) hzero hne
        exact hx hy
      have hle := hk x List.mem_cons_self
      omega

variable [DecidableEq C] [DecidableEq P]

theorem total_receive (w : C × P → Nat) {c : C} {x : P} {l l' : Link C P}
    (h : receive c x l = some l') : total w l = w (c, x) + total w l' := by
  rw [← total_perm w (receive_perm h), total_cons]

end Link

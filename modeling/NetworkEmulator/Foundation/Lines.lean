import Mathlib.Data.List.Basic
import Mathlib.Tactic.Common

namespace Lines

variable {α : Type} (sep : α) (f : List α → Option (List α))

def unlines (ls : List (List α)) : List α := ls.flatMap (fun l => l ++ [sep])

def placed (k : Nat) : List (List α) → List (Nat × List α)
  | [] => []
  | l :: ls => (k, l) :: placed (k + l.length + 1) ls

-- f is what a reader takes from a chunk; each text is named by the place its chunk has in the input
def ran (k : Nat) : List (List α) → List (Nat × List α)
  | [] => []
  | c :: cs => ((f c).map (fun t => (k, t))).toList ++ ran (k + c.length) cs

variable {sep f} {k : Nat} {c l : List α} {cs ls : List (List α)}

theorem unlines_cons : unlines sep (l :: ls) = l ++ sep :: unlines sep ls := by
  simp [unlines]

theorem le_of_mem_ran {p : Nat × List α} (hp : p ∈ ran f k cs) : k ≤ p.1 := by
  induction cs generalizing k with
  | nil => simp [ran] at hp
  | cons c cs ih =>
    rcases List.mem_append.mp hp with hp | hp
    · obtain ⟨t, -, rfl⟩ := Option.map_eq_some_iff.mp (Option.mem_toList.mp hp)
      exact Nat.le_refl k
    · have hle := ih hp
      omega

theorem ran_some {t : List α} (hc : f c = some t) :
    ran f k (c :: cs) = (k, t) :: ran f (k + c.length) cs := by
  simp [ran, hc]

theorem ran_none (hc : f c = none) : ran f k (c :: cs) = ran f (k + c.length) cs := by
  simp [ran, hc]

theorem ran_lines (hl : ∀ l ∈ ls, f (l ++ [sep]) = some l) :
    ran f k (ls.map (fun l => l ++ [sep])) = placed k ls := by
  induction ls generalizing k with
  | nil => rfl
  | cons l ls ih =>
    obtain ⟨hhead, htail⟩ := List.forall_mem_cons.mp hl
    rw [List.map_cons, ran_some hhead, ih htail, placed, List.length_append, List.length_singleton,
      Nat.add_assoc]

theorem ran_ne_placed_of_sep (hnone : ∀ c, f c = none → 2 ≤ c.length) (hcs : ∀ c ∈ cs, c ≠ [])
    (hin : cs.flatten = sep :: unlines sep ls) : ran f k cs ≠ placed (k + 1) ls := by
  cases cs with
  | nil => simp at hin
  | cons d ds =>
    intro heq
    cases hd : f d with
    | some t =>
      rw [ran_some hd] at heq
      cases ls with
      | nil => cases heq
      | cons l ls =>
        have hk : k = k + 1 := congrArg Prod.fst (List.cons.inj heq).1
        omega
    | none =>
      have hlen := hnone d hd
      rw [ran_none hd] at heq
      cases ls with
      | nil =>
        have htotal := congrArg List.length hin
        simp only [List.flatten_cons, List.length_append, unlines, List.flatMap_nil,
          List.length_singleton] at htotal
        omega
      | cons l ls =>
        have hmem : (k + 1, l) ∈ ran f (k + d.length) ds := by
          rw [heq]
          exact List.mem_cons_self
        have hle := le_of_mem_ran hmem
        omega

theorem chunk_of_ran {t : List α} (hpre : ∀ c t, f c = some t → t <+: c)
    (hnone : ∀ c, f c = none → 2 ≤ c.length) (hcs : ∀ c ∈ cs, c ≠ [])
    (hin : c ++ cs.flatten = l ++ sep :: unlines sep ls) (hc : f c = some t)
    (heq : ran f k (c :: cs) = placed k (l :: ls)) :
    c = l ++ [sep] ∧ t = l ∧ ran f (k + c.length) cs = placed (k + l.length + 1) ls := by
  rw [ran_some hc, placed] at heq
  obtain ⟨hhead, hrest⟩ := List.cons.inj heq
  obtain rfl : t = l := congrArg Prod.snd hhead
  have htc := (hpre c t hc).length_le
  refine ⟨?_, rfl, hrest⟩
  rcases Nat.lt_trichotomy c.length (t.length + 1) with hlt | hlen | hgt
  · exfalso
    have hlen : c.length = t.length := by omega
    obtain ⟨rfl, hsep⟩ := List.append_inj hin hlen
    exact ran_ne_placed_of_sep hnone hcs hsep hrest
  · have hin' : c ++ cs.flatten = (t ++ [sep]) ++ unlines sep ls := by simpa using hin
    exact (List.append_inj hin' (by simpa using hlen)).1
  · exfalso
    cases ls with
    | nil =>
      have htotal := congrArg List.length hin
      simp only [List.length_append, unlines, List.flatMap_nil, List.length_singleton] at htotal
      omega
    | cons l' ls =>
      have hmem : (k + t.length + 1, l') ∈ ran f (k + c.length) cs := by
        rw [hrest]
        exact List.mem_cons_self
      have hle := le_of_mem_ran hmem
      omega

theorem ran_eq_placed_iff (hpre : ∀ c t, f c = some t → t <+: c)
    (hnone : ∀ c, f c = none → 2 ≤ c.length) (hcs : ∀ c ∈ cs, c ≠ [])
    (hin : cs.flatten = unlines sep ls) :
    ran f k cs = placed k ls ↔
      cs = ls.map (fun l => l ++ [sep]) ∧ ∀ l ∈ ls, f (l ++ [sep]) = some l := by
  refine ⟨fun heq => ?_, fun ⟨hchunks, hl⟩ => hchunks ▸ ran_lines hl⟩
  induction ls generalizing cs k with
  | nil =>
    cases cs with
    | nil => simp
    | cons c cs =>
      have hc := hcs c List.mem_cons_self
      simp [unlines, hc] at hin
  | cons l ls ih =>
    cases cs with
    | nil => simp [unlines] at hin
    | cons c cs =>
      obtain ⟨hc, htail⟩ := List.forall_mem_cons.mp hcs
      rw [List.flatten_cons, unlines_cons] at hin
      cases ht : f c with
      | none =>
        exfalso
        rw [ran_none ht, placed] at heq
        have hmem : (k, l) ∈ ran f (k + c.length) cs := by
          rw [heq]
          exact List.mem_cons_self
        have hle := le_of_mem_ran hmem
        have hpos := List.length_pos_of_ne_nil hc
        omega
      | some t =>
        obtain ⟨rfl, rfl, hrest⟩ := chunk_of_ran hpre hnone htail hin ht heq
        have hin' : cs.flatten = unlines sep ls := by simpa using hin
        rw [List.length_append, List.length_singleton, ← Nat.add_assoc] at hrest
        obtain ⟨hmap, hl⟩ := ih htail hin' hrest
        exact ⟨by rw [List.map_cons, hmap], List.forall_mem_cons.mpr ⟨ht, hl⟩⟩

end Lines

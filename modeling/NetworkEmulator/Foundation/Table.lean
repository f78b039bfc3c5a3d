import Mathlib.Data.List.AList
import Mathlib.Tactic.Common

abbrev Table (K V : Type) := AList (fun _ : K => V)

namespace Table

variable {K V : Type} [DecidableEq K]

def insertNew (k : K) (v : V) (t : Table K V) : Table K V :=
  if k ∈ t then t else AList.insert k v t

theorem insertNew_of_mem {k : K} {t : Table K V} (h : k ∈ t) (v : V) : insertNew k v t = t :=
  if_pos h

theorem lookup_insertNew_self (k : K) (v : V) (t : Table K V) :
    AList.lookup k (insertNew k v t) = some ((AList.lookup k t).getD v) := by
  by_cases hk : k ∈ t
  · obtain ⟨w, hw⟩ := Option.isSome_iff_exists.mp (AList.lookup_isSome.mpr hk)
    simp [insertNew, hk, hw]
  · simp [insertNew, hk, AList.lookup_eq_none.mpr hk]

theorem lookup_insertNew_ne {k k' : K} (h : k' ≠ k) (v : V) (t : Table K V) :
    AList.lookup k' (insertNew k v t) = AList.lookup k' t := by
  unfold insertNew
  split_ifs
  · rfl
  · exact AList.lookup_insert_ne h

theorem mem_insertNew {k k' : K} {v : V} {t : Table K V} :
    k' ∈ insertNew k v t ↔ k' = k ∨ k' ∈ t := by
  by_cases hk : k ∈ t
  · simp only [insertNew, hk, if_true]
    exact ⟨Or.inr, fun h => h.elim (fun e => e ▸ hk) id⟩
  · simp [insertNew, hk]

def sweep (keep : V → Bool) (t : Table K V) : Table K V :=
  ⟨t.entries.filter (fun e => keep e.2), t.nodupKeys.sublist List.filter_sublist⟩

theorem lookup_sweep (keep : V → Bool) (k : K) (t : Table K V) :
    AList.lookup k (sweep keep t) = (AList.lookup k t).filter keep := by
  ext v
  have hmem : Sigma.mk k v ∈ (sweep keep t).entries ↔ Sigma.mk k v ∈ t.entries ∧ keep v := by
    simp [sweep, List.mem_filter]
  rw [← Option.mem_def, AList.mem_lookup_iff, hmem, ← AList.mem_lookup_iff]
  simp [Option.mem_def, Option.filter_eq_some_iff]

def mapVals (f : K → V → V) (t : Table K V) : Table K V :=
  ⟨t.entries.map (fun e => ⟨e.1, f e.1 e.2⟩), by
    have hk : (t.entries.map (fun e => (⟨e.1, f e.1 e.2⟩ : Sigma fun _ : K => V))).keys =
        t.entries.keys := by simp [List.keys, Function.comp_def]
    change List.Nodup (List.keys _)
    exact hk ▸ t.keys_nodup⟩

theorem lookup_mapVals (f : K → V → V) (k : K) (t : Table K V) :
    AList.lookup k (mapVals f t) = (AList.lookup k t).map (f k) :=
  List.dlookup_map₂ (f := fun a => f a) k

theorem mem_mapVals {f : K → V → V} {k : K} {t : Table K V} : k ∈ mapVals f t ↔ k ∈ t := by
  rw [← AList.lookup_isSome, ← AList.lookup_isSome, lookup_mapVals, Option.isSome_map]

def update (k : K) (f : V → V) (t : Table K V) : Table K V :=
  mapVals (fun k' v => if k' = k then f v else v) t

theorem lookup_update_self (k : K) (f : V → V) (t : Table K V) :
    AList.lookup k (update k f t) = (AList.lookup k t).map f := by
  simp [update, lookup_mapVals]

theorem lookup_update_ne {k k' : K} (h : k' ≠ k) (f : V → V) (t : Table K V) :
    AList.lookup k' (update k f t) = AList.lookup k' t := by
  simp [update, lookup_mapVals, h]

theorem mem_update {k k' : K} {f : V → V} {t : Table K V} : k' ∈ update k f t ↔ k' ∈ t :=
  mem_mapVals

omit [DecidableEq K] in
theorem mapVals_mapVals (f g : K → V → V) (t : Table K V) :
    mapVals f (mapVals g t) = mapVals (fun k v => f k (g k v)) t := by
  refine AList.ext ?_
  simp [mapVals, Function.comp_def]

omit [DecidableEq K] in
theorem mapVals_congr {f g : K → V → V} {t : Table K V}
    (h : ∀ k v, k ∈ t → f k v = g k v) : mapVals f t = mapVals g t := by
  refine AList.ext (List.map_congr_left fun e he => ?_)
  rw [h e.1 e.2 (List.mem_keys_of_mem he)]

theorem foldl_update (f : V → V) {ks : List K} (hnd : ks.Nodup) (t : Table K V) :
    ks.foldl (fun t k => update k f t) t = mapVals (fun k v => if k ∈ ks then f v else v) t := by
  induction ks generalizing t with
  | nil => exact AList.ext (by simp [mapVals])
  | cons k ks ih =>
    obtain ⟨hk, hks⟩ := List.nodup_cons.mp hnd
    rw [List.foldl_cons, ih hks, update, mapVals_mapVals]
    refine mapVals_congr fun k' v _ => ?_
    by_cases h : k' = k
    · subst h
      simp [hk]
    · simp [h]

theorem foldl_update_keys (f : V → V) (t : Table K V) :
    t.keys.foldl (fun t k => update k f t) t = mapVals (fun _ v => f v) t := by
  rw [foldl_update f t.keys_nodup]
  exact mapVals_congr fun k v hk => if_pos (AList.mem_keys.mpr hk)

-- an iterator erasing as it walks: the entries it has passed and kept, and the ones ahead of it
def eraseLoop {α : Type} (keep : α → Bool) (passed : List α) : List α → List α
  | [] => passed
  | x :: ahead =>
    if keep x then eraseLoop keep (passed ++ [x]) ahead else eraseLoop keep passed ahead

theorem eraseLoop_eq {α : Type} (keep : α → Bool) (passed ahead : List α) :
    eraseLoop keep passed ahead = passed ++ ahead.filter keep := by
  induction ahead generalizing passed with
  | nil => simp [eraseLoop]
  | cons x ahead ih =>
    by_cases h : keep x = true
    · simp [eraseLoop, h, ih]
    · simp [eraseLoop, h, ih]

def eraseExpired (keep : V → Bool) (t : Table K V) : Table K V :=
  ⟨eraseLoop (fun e => keep e.2) [] t.entries, by
    rw [eraseLoop_eq]
    exact t.nodupKeys.sublist List.filter_sublist⟩

omit [DecidableEq K] in
theorem eraseExpired_eq_sweep (keep : V → Bool) (t : Table K V) :
    eraseExpired keep t = sweep keep t := by
  refine AList.ext ?_
  change eraseLoop (fun e => keep e.2) [] t.entries = _
  rw [eraseLoop_eq]
  rfl

end Table

import NetworkEmulator.Routing.Address

namespace NetworkEmulator.Routing

variable {i : Nat} {tok : List Char} {toks : List (List Char)} {arr slots : Slots} {addr : IPAddr}
  {n : Nat} {ns : List Nat}

-- arr[i] = std::stoi(tok)
def store (i : Nat) (tok : List Char) (arr : Slots) : Except Fault Slots := do
  let v ← stoi tok
  if h : i < 4 then .ok (Function.update arr ⟨i, h⟩ (some v)) else .error .overrun

-- each turn of the loop finds a dot, stores what stands before it and erases up to it
def parseLoop (i : Nat) (addr : List Char) (arr : Slots) : Except Fault Slots :=
  match h : addr.idxOf? '.' with
  | some pos => do
    let arr ← store i (addr.take pos) arr
    parseLoop (i + 1) (addr.drop (pos + 1)) arr
  | none => store i addr arr
termination_by addr.length
decreasing_by
  obtain ⟨hlt, -, -⟩ := List.idxOf?_eq_some_iff.mp h
  rw [List.length_drop]
  omega

def dotted (ns : List Nat) : IPAddr := ".".intercalate (ns.map toString)

example : dotted [128, 252, 11, 0] = "128.252.11.0" := by decide

structure Stored (ns : List Nat) (arr slots : Slots) : Prop where
  numbers : ∀ k : Fin 4, ∀ n ∈ ns[k.val]?, (slots k).map BitVec.toInt = some (n : Int)
  rest : ∀ k : Fin 4, ns.length ≤ k → slots k = arr k

theorem splitOn_of_find {pos : Nat} {s : List Char} (h : s.idxOf? '.' = some pos) :
    s.splitOn '.' = s.take pos :: (s.drop (pos + 1)).splitOn '.' := by
  obtain ⟨hlt, hdot, hfirst⟩ := List.idxOf?_eq_some_iff.mp h
  have hno : '.' ∉ s.take pos := by
    intro hmem
    obtain ⟨j, hj, heq⟩ := List.getElem_of_mem hmem
    rw [List.length_take, Nat.lt_min] at hj
    rw [List.getElem_take] at heq
    exact hfirst j hj.1 heq
  have hsplit : s = s.take pos ++ '.' :: s.drop (pos + 1) := by
    rw [← hdot, ← List.drop_eq_getElem_cons hlt, List.take_append_drop]
  conv_lhs => rw [hsplit]
  exact List.splitOn_append_cons_self_of_not_mem hno _

theorem storeFrom_singleton : storeFrom i [tok] arr = store i tok arr := by
  unfold storeFrom store
  rfl

theorem storeFrom_store : storeFrom i (tok :: toks) arr =
    store i tok arr >>= fun arr => storeFrom (i + 1) toks arr := by
  unfold store
  rw [storeFrom]
  cases stoi tok with
  | error f => rfl
  | ok v =>
    by_cases hi : i < 4
    · simp only [bind, Except.bind, hi, dif_pos]
    · simp only [bind, Except.bind, hi, dif_neg, not_false_eq_true]

theorem parseLoop_eq (i : Nat) (s : List Char) (arr : Slots) :
    parseLoop i s arr = storeFrom i (s.splitOn '.') arr := by
  induction i, s, arr using parseLoop.induct with
  | case1 i s arr pos h ih =>
    rw [parseLoop]
    split
    · rename_i pos' h'
      obtain rfl := Option.some.inj (h.symm.trans h')
      rw [splitOn_of_find h, storeFrom_store]
      exact congrArg _ (funext fun arr => ih arr)
    · rename_i h'
      cases h.symm.trans h'
  | case2 i s arr h =>
    rw [parseLoop]
    split
    · rename_i pos h'
      cases h.symm.trans h'
    · rw [List.splitOn_eq_singleton (List.idxOf?_eq_none_iff.mp h), storeFrom_singleton]

theorem parseAddress_eq_parseLoop : parseAddress addr arr = parseLoop 0 addr.toList arr :=
  (parseLoop_eq 0 addr.toList arr).symm

theorem isDigit_toDigits : ∀ c ∈ Nat.toDigits 10 n, c.isDigit = true :=
  fun _ hc => Nat.isDigit_of_mem_toDigits (by decide) (by decide) hc

theorem stoi_toDigits (hn : n < 2 ^ 31) : stoi (Nat.toDigits 10 n) = .ok (BitVec.ofNat 32 n) := by
  have hdec : decimal (Nat.toDigits 10 n) = n := Nat.ofDigitChars_ten_toDigits
  rw [stoi_digits Nat.toDigits_ne_nil isDigit_toDigits (hdec.symm ▸ hn), hdec]

theorem toInt_ofNat (hn : n < 2 ^ 31) : (BitVec.ofNat 32 n).toInt = n := by
  have hmod : n % 2 ^ 32 = n := Nat.mod_eq_of_lt (hn.trans (by decide))
  rw [BitVec.toInt_eq_toNat_of_lt, BitVec.toNat_ofNat, hmod]
  rw [BitVec.toNat_ofNat, hmod]
  omega

theorem splitOn_dotted (hne : ns ≠ []) :
    (dotted ns).toList.splitOn '.' = ns.map (Nat.toDigits 10) := by
  have hmap : (ns.map toString).map String.toList = ns.map (Nat.toDigits 10) := by
    rw [List.map_map]
    exact List.map_congr_left fun n _ => Nat.toList_repr
  have hno : ∀ l ∈ ns.map (Nat.toDigits 10), '.' ∉ l := by
    intro l hl hmem
    obtain ⟨n, -, rfl⟩ := List.mem_map.mp hl
    exact absurd (isDigit_toDigits _ hmem) (by decide)
  rw [dotted, String.toList_intercalate, hmap]
  exact List.splitOn_intercalate '.' hno (by simpa using hne)

theorem storeFrom_digits (hlen : i + ns.length ≤ 4) (hlt : ∀ n ∈ ns, n < 2 ^ 31) :
    ∃ slots, storeFrom i (ns.map (Nat.toDigits 10)) arr = .ok slots := by
  refine storeFrom_isOk ?_ (by rwa [List.length_map])
  intro tok htok
  obtain ⟨n, hn, rfl⟩ := List.mem_map.mp htok
  exact stoi_isOk_iff.mp ⟨_, stoi_toDigits (hlt n hn)⟩

theorem stored_of_digits (hlt : ∀ n ∈ ns, n < 2 ^ 31)
    (h : storeFrom 0 (ns.map (Nat.toDigits 10)) arr = .ok slots) : Stored ns arr slots := by
  constructor
  · intro k n hn
    have hlt := hlt n (List.mem_of_getElem? hn)
    rw [storeFrom_slots h k, if_neg (Nat.not_lt_zero _), Nat.sub_zero, List.getElem?_map, hn]
    simp only [Option.map_some, Option.bind_some, value_eq_some.mpr (stoi_toDigits hlt),
      Option.some_or, toInt_ofNat hlt]
  · intro k hk
    rw [storeFrom_slots h k, if_neg (Nat.not_lt_zero _), Nat.sub_zero, List.getElem?_map,
      List.getElem?_eq_none hk]
    rfl

theorem dotted_parsed (hne : ns ≠ []) (hlen : ns.length ≤ 4) (hlt : ∀ n ∈ ns, n < 2 ^ 31)
    (arr : Slots) :
    ∃ slots, parseLoop 0 (dotted ns).toList arr = .ok slots ∧
      parseAddress (dotted ns) arr = .ok slots ∧ Stored ns arr slots := by
  obtain ⟨slots, hs⟩ : ∃ slots, storeFrom 0 (ns.map (Nat.toDigits 10)) arr = .ok slots :=
    storeFrom_digits (by rwa [Nat.zero_add]) hlt
  have hloop : parseLoop 0 (dotted ns).toList arr = .ok slots := by
    rw [parseLoop_eq, splitOn_dotted hne, hs]
  refine ⟨slots, hloop, ?_, stored_of_digits hlt hs⟩
  rw [parseAddress_eq_parseLoop, hloop]

theorem dotted_parsed_three :
    ∃ slots, parseLoop 0 (dotted [128, 0, 2147483647]).toList (fun _ => none) = .ok slots ∧
      parseAddress (dotted [128, 0, 2147483647]) (fun _ => none) = .ok slots ∧
      Stored [128, 0, 2147483647] (fun _ => none) slots :=
  dotted_parsed (by decide) (by decide) (by decide) _

end NetworkEmulator.Routing

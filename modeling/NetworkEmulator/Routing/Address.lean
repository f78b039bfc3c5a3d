import NetworkEmulator.Routing
import Mathlib.Algebra.Order.Ring.Nat
import Mathlib.Data.List.TakeWhile

namespace NetworkEmulator.Routing

-- what stoi reads in the digits behind the blanks and the sign fits an int
def Fits (negative : Bool) (s : List Char) : Prop :=
  (s.takeWhile Char.isDigit).isEmpty = false ∧
    decimal (s.takeWhile Char.isDigit) ≤ if negative then 2147483648 else 2147483647

def Readable (s : List Char) : Prop :=
  match s.dropWhile isSpace with
  | '-' :: s => Fits true s
  | '+' :: s => Fits false s
  | s => Fits false s

def pieces (addr : IPAddr) : List (List Char) := addr.toList.splitOn '.'

def Quad (addr : IPAddr) : Prop :=
  (pieces addr).length = 4 ∧ ∀ tok ∈ pieces addr, Readable tok

def value (tok : List Char) : Option (BitVec 32) := (stoi tok).toOption

def component (addr : IPAddr) (k : Nat) : Option (BitVec 32) := (pieces addr)[k]?.bind value

def Confined (addr : IPAddr) : Prop :=
  ∃ slots, parseAddress addr (fun _ => none) = .ok slots ∧ ∀ k, (slots k).isSome

variable {i : Nat} {tok : List Char} {toks : List (List Char)} {arr slots : Slots} {addr : IPAddr}

theorem inRange_iff {negative : Bool} {n : Nat} :
    (¬ ((if negative = true then -(n : Int) else n) < -2147483648 ∨
      2147483647 < (if negative = true then -(n : Int) else n))) ↔
        n ≤ if negative = true then 2147483648 else 2147483647 := by
  cases negative with
  | true =>
    simp only [if_true]
    omega
  | false =>
    simp only [Bool.false_eq_true, if_false]
    omega

theorem stoiDigits_isOk_iff {negative : Bool} {s : List Char} :
    (∃ v, stoiDigits negative s = .ok v) ↔ Fits negative s := by
  unfold stoiDigits Fits
  generalize s.takeWhile Char.isDigit = ds
  rw [← inRange_iff]
  simp only
  constructor
  · rintro ⟨v, hv⟩
    split at hv
    · cases hv
    · rename_i hne
      refine ⟨Bool.eq_false_iff.mpr hne, fun hrange => ?_⟩
      rw [if_pos hrange] at hv
      cases hv
  · rintro ⟨hne, hrange⟩
    rw [if_neg (Bool.eq_false_iff.mp hne), if_neg hrange]
    exact ⟨_, rfl⟩

theorem readable_unsigned {s : List Char} (hminus : ∀ t, s.dropWhile isSpace ≠ '-' :: t)
    (hplus : ∀ t, s.dropWhile isSpace ≠ '+' :: t) :
    Readable s ↔ Fits false (s.dropWhile isSpace) := by
  unfold Readable
  split
  · rename_i heq
    exact absurd heq (hminus _)
  · rename_i heq
    exact absurd heq (hplus _)
  · rfl

theorem stoi_isOk_iff {s : List Char} : (∃ v, stoi s = .ok v) ↔ Readable s := by
  unfold stoi
  split
  · rename_i heq
    rw [Readable, heq]
    exact stoiDigits_isOk_iff
  · rename_i heq
    rw [Readable, heq]
    exact stoiDigits_isOk_iff
  · rename_i hminus hplus
    rw [readable_unsigned hminus hplus]
    exact stoiDigits_isOk_iff

theorem isSpace_of_isDigit {c : Char} (hc : c.isDigit = true) : isSpace c = false := by
  refine Bool.eq_false_iff.mpr fun hs => ?_
  simp only [isSpace, List.mem_cons, List.not_mem_nil, or_false, decide_eq_true_eq] at hs
  rcases hs with rfl | rfl | rfl | rfl | rfl | rfl <;> exact absurd hc (by decide)

theorem stoiDigits_digits (hne : tok ≠ []) (hdigits : ∀ c ∈ tok, c.isDigit = true)
    (hlt : decimal tok < 2 ^ 31) : stoiDigits false tok = .ok (BitVec.ofNat 32 (decimal tok)) := by
  have htake : tok.takeWhile Char.isDigit = tok := List.takeWhile_eq_self_iff.mpr hdigits
  have hemp : tok.isEmpty = false := by simpa using hne
  have hrange : ¬ ((decimal tok : Int) < -2147483648 ∨ 2147483647 < (decimal tok : Int)) := by
    omega
  simp only [stoiDigits, htake, hemp, Bool.false_eq_true, if_false, hrange]
  rfl

theorem stoi_digits (hne : tok ≠ []) (hdigits : ∀ c ∈ tok, c.isDigit = true)
    (hlt : decimal tok < 2 ^ 31) : stoi tok = .ok (BitVec.ofNat 32 (decimal tok)) := by
  rw [← stoiDigits_digits hne hdigits hlt]
  cases tok with
  | nil => exact absurd rfl hne
  | cons c cs =>
    have hc := hdigits c List.mem_cons_self
    have hdrop : (c :: cs).dropWhile isSpace = c :: cs := by simp [isSpace_of_isDigit hc]
    unfold stoi
    rw [hdrop]
    split
    · rename_i heq
      obtain ⟨rfl, -⟩ := List.cons.inj heq
      exact absurd hc (by decide)
    · rename_i heq
      obtain ⟨rfl, -⟩ := List.cons.inj heq
      exact absurd hc (by decide)
    · rfl

theorem value_isSome : (value tok).isSome ↔ Readable tok := by
  rw [← stoi_isOk_iff, value]
  cases stoi tok <;> simp [Except.toOption]

theorem value_eq_some {v : BitVec 32} : value tok = some v ↔ stoi tok = .ok v := by
  rw [value]
  cases stoi tok <;> simp [Except.toOption]

theorem storeFrom_cons_ok (h : storeFrom i (tok :: toks) arr = .ok slots) :
    ∃ v, stoi tok = .ok v ∧ ∃ hi : i < 4,
      storeFrom (i + 1) toks (Function.update arr ⟨i, hi⟩ (some v)) = .ok slots := by
  obtain ⟨v, hv, h⟩ := Fault.bind_ok h
  split at h
  · rename_i hi
    exact ⟨v, hv, hi, h⟩
  · cases h

theorem storeFrom_reads (h : storeFrom i toks arr = .ok slots) :
    (∀ tok ∈ toks, Readable tok) ∧ (i ≤ 4 → i + toks.length ≤ 4) := by
  induction toks generalizing i arr with
  | nil => simp
  | cons tok toks ih =>
    obtain ⟨v, hv, hi, h⟩ := storeFrom_cons_ok h
    obtain ⟨hread, hlen⟩ := ih h
    refine ⟨List.forall_mem_cons.mpr ⟨stoi_isOk_iff.mp ⟨v, hv⟩, hread⟩, fun _ => ?_⟩
    have hle := hlen hi
    rw [List.length_cons]
    omega

theorem storeFrom_slots (h : storeFrom i toks arr = .ok slots) (k : Fin 4) :
    slots k = if k < i then arr k else (toks[k - i]?.bind value).or (arr k) := by
  induction toks generalizing i arr with
  | nil =>
    obtain rfl := Except.ok.inj h
    simp
  | cons tok toks ih =>
    obtain ⟨v, hv, hi, h⟩ := storeFrom_cons_ok h
    rw [ih h]
    rcases lt_trichotomy k.val i with hlt | heq | hgt
    · have hne : k ≠ ⟨i, hi⟩ := fun he => by simp [he] at hlt
      rw [if_pos (by omega), if_pos hlt, Function.update_of_ne hne]
    · obtain rfl : k = ⟨i, hi⟩ := Fin.ext heq
      simp [value_eq_some.mpr hv]
    · have hne : k ≠ ⟨i, hi⟩ := fun he => by simp [he] at hgt
      obtain ⟨j, hj⟩ : ∃ j, k.val - i = j + 1 := ⟨k.val - i - 1, by omega⟩
      have hj' : k.val - (i + 1) = j := by omega
      rw [if_neg (by omega), if_neg (by omega), Function.update_of_ne hne, hj, hj',
        List.getElem?_cons_succ]

theorem storeFrom_isOk (hread : ∀ tok ∈ toks, Readable tok) (hlen : i + toks.length ≤ 4) :
    ∃ slots, storeFrom i toks arr = .ok slots := by
  induction toks generalizing i arr with
  | nil => exact ⟨arr, rfl⟩
  | cons tok toks ih =>
    obtain ⟨hhead, htail⟩ := List.forall_mem_cons.mp hread
    obtain ⟨v, hv⟩ := stoi_isOk_iff.mpr hhead
    rw [List.length_cons] at hlen
    have hi : i < 4 := by omega
    have hrest : i + 1 + toks.length ≤ 4 := by omega
    obtain ⟨slots, hs⟩ : ∃ slots, storeFrom (i + 1) toks (Function.update arr ⟨i, hi⟩ (some v)) =
        .ok slots := ih htail hrest
    refine ⟨slots, ?_⟩
    simp only [storeFrom, hv, bind, Except.bind, hi, dif_pos]
    exact hs

theorem parseAddress_slots (h : parseAddress addr (fun _ => none) = .ok slots) (k : Fin 4) :
    slots k = component addr k := by
  have hk := storeFrom_slots h k
  simpa [component, pieces] using hk

theorem confined_iff : Confined addr ↔ Quad addr := by
  constructor
  · rintro ⟨slots, h, hsome⟩
    obtain ⟨hread, hlen⟩ := storeFrom_reads h
    have hle := hlen (by omega)
    refine ⟨?_, hread⟩
    have hlast := hsome 3
    rw [parseAddress_slots h] at hlast
    change (component addr 3).isSome at hlast
    have hthree : 3 < (pieces addr).length := by
      by_contra hno
      rw [component, List.getElem?_eq_none (Nat.le_of_not_lt hno)] at hlast
      cases hlast
    unfold pieces at hthree ⊢
    omega
  · rintro ⟨hlen, hread⟩
    obtain ⟨slots, hs⟩ : ∃ slots, parseAddress addr (fun _ => none) = .ok slots :=
      storeFrom_isOk hread (by unfold pieces at hlen; omega)
    refine ⟨slots, hs, fun k => ?_⟩
    have hk : k.val < (pieces addr).length := by omega
    rw [parseAddress_slots hs, component, List.getElem?_eq_getElem hk, Option.bind_some]
    exact value_isSome.mpr (hread _ (List.getElem_mem hk))

def OctetMatches (d m n : Option (BitVec 32)) : Prop :=
  ∃ x y z, d = some x ∧ m = some y ∧ n = some z ∧ x &&& y = z

def Matches (dst : IPAddr) (r : Rtable) : Prop :=
  ∀ k : Fin 4, OctetMatches (component dst k) (component r.netMask k) (component r.destAddr k)

def Consults (dst : IPAddr) (routes : List Rtable) (r : Rtable) : Prop :=
  ∃ rs₁ rs₂, routes = rs₁ ++ r :: rs₂ ∧ ∀ r' ∈ rs₁, ¬ Matches dst r'

structure Decides (routes : List Rtable) (dst : IPAddr) : Prop where
  parsed : Confined dst
  rows : ∀ r, Consults dst routes r → Confined r.netMask ∧ Confined r.destAddr
  decided : ∃ nextHop, getNextHop routes dst = .ok nextHop

variable {dst : IPAddr} {r : Rtable} {routes : List Rtable} {mask netPrefix : Slots}

theorem octetsMatch_isOk (is : List (Fin 4))
    (hsome : ∀ k, (slots k).isSome ∧ (mask k).isSome ∧ (netPrefix k).isSome) :
    ∃ b, octetsMatch slots mask netPrefix is = .ok b ∧
      (b = true ↔ ∀ k ∈ is, OctetMatches (slots k) (mask k) (netPrefix k)) := by
  induction is with
  | nil => exact ⟨true, rfl, by simp⟩
  | cons k is ih =>
    obtain ⟨hd, hm, hn⟩ := hsome k
    obtain ⟨x, hx⟩ := Option.isSome_iff_exists.mp hd
    obtain ⟨y, hy⟩ := Option.isSome_iff_exists.mp hm
    obtain ⟨z, hz⟩ := Option.isSome_iff_exists.mp hn
    have hhead : OctetMatches (slots k) (mask k) (netPrefix k) ↔ x &&& y = z := by
      simp [OctetMatches, hx, hy, hz, eq_comm]
    simp only [octetsMatch, hx, hy, hz, List.forall_mem_cons]
    rw [← hx, ← hy, ← hz, hhead]
    by_cases h : x &&& y = z
    · obtain ⟨b, hb, hiff⟩ := ih
      exact ⟨b, by simpa [h] using hb, by simpa [h] using hiff⟩
    · exact ⟨false, by simp [h], by simp [h]⟩

theorem rowMatches_isOk (hdst : Confined dst) (hmask : Confined r.netMask)
    (hdest : Confined r.destAddr) (hs : parseAddress dst (fun _ => none) = .ok slots) :
    ∃ b, rowMatches slots r = .ok b ∧ (b = true ↔ Matches dst r) := by
  obtain ⟨slots', hs', hd⟩ := hdst
  obtain ⟨mask, hm, hmsome⟩ := hmask
  obtain ⟨netPrefix, hn, hnsome⟩ := hdest
  obtain rfl := Except.ok.inj (hs.symm.trans hs')
  obtain ⟨b, hb, hiff⟩ := octetsMatch_isOk [0, 1, 2, 3]
    fun k => ⟨hd k, hmsome k, hnsome k⟩
  refine ⟨b, ?_, ?_⟩
  · simpa only [rowMatches, hm, hn, bind, Except.bind] using hb
  · have hall : ∀ k : Fin 4, k ∈ ([0, 1, 2, 3] : List (Fin 4)) := by decide
    simp only [hiff, hall, true_imp_iff, Matches, ← parseAddress_slots hs, ← parseAddress_slots hm,
      ← parseAddress_slots hn]

theorem Consults.cons_of_not (hr₀ : ¬ Matches dst r) {r' : Rtable}
    (hc : Consults dst routes r') : Consults dst (r :: routes) r' := by
  obtain ⟨rs₁, rs₂, rfl, hno⟩ := hc
  exact ⟨r :: rs₁, rs₂, rfl, List.forall_mem_cons.mpr ⟨hr₀, hno⟩⟩

theorem scanRoutes_isOk (hdst : Confined dst) (hs : parseAddress dst (fun _ => none) = .ok slots)
    (hrows : ∀ r, Consults dst routes r → Confined r.netMask ∧ Confined r.destAddr) :
    ∃ nextHop, scanRoutes slots routes = .ok nextHop := by
  induction routes with
  | nil => exact ⟨_, rfl⟩
  | cons r routes ih =>
    obtain ⟨hmask, hdest⟩ := hrows r ⟨[], routes, rfl, by simp⟩
    obtain ⟨b, hb, hiff⟩ := rowMatches_isOk hdst hmask hdest hs
    rw [scanRoutes_cons, hb]
    cases b with
    | true => exact ⟨_, rfl⟩
    | false =>
      have hno : ¬ Matches dst r := fun hm => by simpa using hiff.mpr hm
      exact ih fun r' hr' => hrows r' (hr'.cons_of_not hno)

theorem decides_iff : Decides routes dst ↔
    Quad dst ∧ ∀ r, Consults dst routes r → Quad r.netMask ∧ Quad r.destAddr := by
  simp only [← confined_iff]
  constructor
  · exact fun h => ⟨h.parsed, h.rows⟩
  · rintro ⟨hdst, hrows⟩
    obtain ⟨slots, hs, -⟩ := id hdst
    obtain ⟨nextHop, hscan⟩ := scanRoutes_isOk hdst hs hrows
    refine ⟨hdst, hrows, nextHop, ?_⟩
    simpa only [getNextHop, hs, bind, Except.bind] using hscan

-- the bytes from the most significant one down
def join (o : Fin 4 → BitVec 8) : BitVec 32 :=
  o ⟨0, by decide⟩ ++ o ⟨1, by decide⟩ ++ o ⟨2, by decide⟩ ++ o ⟨3, by decide⟩

theorem join_and (x y : Fin 4 → BitVec 8) : join (fun k => x k &&& y k) = join x &&& join y := by
  have h : (x 0 ++ x 1 ++ x 2 ++ x 3) &&& (y 0 ++ y 1 ++ y 2 ++ y 3) =
      (x 0 &&& y 0) ++ (x 1 &&& y 1) ++ (x 2 &&& y 2) ++ (x 3 &&& y 3) := by
    rw [BitVec.and_append, BitVec.and_append, BitVec.and_append]
  exact h.symm

theorem join_eq_iff {x y : Fin 4 → BitVec 8} : join x = join y ↔ ∀ k, x k = y k := by
  constructor
  · intro h
    have hsplit {v : Nat} {s t : BitVec v} {b c : BitVec 8} (h : s ++ b = t ++ c) :
        s = t ∧ b = c := by
      have hleft := congrArg (BitVec.extractLsb' 8 v) h
      have hright := congrArg (BitVec.extractLsb' 0 8) h
      simp only [BitVec.extractLsb'_append_eq_left, BitVec.extractLsb'_append_eq_right] at *
      exact ⟨hleft, hright⟩
    obtain ⟨h, h3⟩ := hsplit h
    obtain ⟨h, h2⟩ := hsplit h
    obtain ⟨h0, h1⟩ := hsplit h
    intro k
    match k with
    | 0 => exact h0
    | 1 => exact h1
    | 2 => exact h2
    | 3 => exact h3
  · exact fun h => congrArg join (funext h)

theorem setWidth_eq_iff {x y : BitVec 8} : x.setWidth 32 = y.setWidth 32 ↔ x = y := by
  constructor
  · intro h
    have hback := congrArg (BitVec.setWidth 8) h
    rwa [BitVec.setWidth_setWidth_of_le _ (by omega), BitVec.setWidth_setWidth_of_le _ (by omega),
      BitVec.setWidth_eq, BitVec.setWidth_eq] at hback
  · exact congrArg _

theorem join_matches_iff {d m b : Fin 4 → BitVec 8} :
    (∀ k, (d k).setWidth 32 &&& (m k).setWidth 32 = (b k).setWidth 32) ↔
      join d &&& join m = join b := by
  rw [← join_and, join_eq_iff]
  exact forall_congr' fun k => by rw [← BitVec.setWidth_and, setWidth_eq_iff]

end NetworkEmulator.Routing

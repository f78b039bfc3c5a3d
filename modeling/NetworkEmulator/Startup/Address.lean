import NetworkEmulator.Routing.Render
import NetworkEmulator.Station.Console
import Mathlib.Data.Fin.VecNotation

namespace NetworkEmulator.Startup

open Routing Station

-- the members of sockaddr_in that are set
structure InetAddr where
  addr : Fin 4 → BitVec 8
  port : BitVec 16

def inetNtoa (o : Fin 4 → BitVec 8) : List Char :=
  (dotted (List.ofFn fun k => (o k).toNat)).toList

-- up to three digits, with no zero in front
def octet (ds : List Char) : Option (BitVec 8) :=
  if ds ≠ [] ∧ ds.all Char.isDigit ∧ (ds.length = 1 ∨ ds.head? ≠ some '0') ∧ decimal ds < 256 then
    some (BitVec.ofNat 8 (decimal ds))
  else none

def inetPton (s : List Char) : Option (Fin 4 → BitVec 8) :=
  match (s.splitOn '.').map octet with
  | [some a, some b, some c, some d] => some ![a, b, c, d]
  | _ => none

def clip (n : Int) : Int := max (-2147483648) (min n 2147483647)

-- operator>> into an int that old stands in: it stays when the stream is at its end
def extractInt (old : Int) (s : List Char) : Int :=
  match s.dropWhile isSpace with
  | [] => old
  | '-' :: s => clip (-(decimal (s.takeWhile Char.isDigit)))
  | '+' :: s => clip (decimal (s.takeWhile Char.isDigit))
  | s => clip (decimal (s.takeWhile Char.isDigit))

-- in >> sd->ip_addr >> sd->port: after a failed extraction the second one does nothing
def readAddress (old : Int) (content : List Char) : List Char × Int :=
  let (ip, rest) := extract content
  (ip, if ip = [] then old else extractInt old rest)

-- inet_pton is handed a C string, and htons keeps sixteen bits
def sockAddr (ip : List Char) (port : Int) : Option InetAddr :=
  (inetPton (ip.takeWhile (· ≠ '\x00'))).map fun o => ⟨o, BitVec.ofInt 16 port⟩

-- what create_symlink writes into the file
def InetAddr.text (a : InetAddr) : List Char :=
  inetNtoa a.addr ++ ' ' :: Nat.toDigits 10 a.port.toNat

variable {n : Nat} {old : Int} {o : Fin 4 → BitVec 8} {a : InetAddr}

theorem decimal_toDigits : decimal (Nat.toDigits 10 n) = n := Nat.ofDigitChars_ten_toDigits

theorem digitChar_ne_zero : ∀ n < 10, n ≠ 0 → n.digitChar ≠ '0' := by decide

theorem head_toDigits (hn : n ≠ 0) : (Nat.toDigits 10 n).head? ≠ some '0' := by
  induction n using Nat.strong_induction_on with
  | _ n ih =>
    by_cases hlt : n < 10
    · rw [Nat.toDigits_of_lt_base hlt]
      simpa using digitChar_ne_zero n hlt hn
    · rw [Nat.toDigits_of_base_le (by decide) (Nat.not_lt.mp hlt),
        List.head?_append_of_ne_nil _ Nat.toDigits_ne_nil]
      exact ih (n / 10) (by omega) (by omega)

theorem octet_toDigits (b : BitVec 8) : octet (Nat.toDigits 10 b.toNat) = some b := by
  have hdigits : (Nat.toDigits 10 b.toNat).all Char.isDigit = true :=
    List.all_eq_true.mpr isDigit_toDigits
  have hlead : (Nat.toDigits 10 b.toNat).length = 1 ∨
      (Nat.toDigits 10 b.toNat).head? ≠ some '0' := by
    by_cases hzero : b.toNat = 0
    · rw [hzero]
      exact Or.inl rfl
    · exact Or.inr (head_toDigits hzero)
  have hlt : decimal (Nat.toDigits 10 b.toNat) < 256 := decimal_toDigits.symm ▸ b.isLt
  rw [octet, if_pos ⟨Nat.toDigits_ne_nil, hdigits, hlead, hlt⟩, decimal_toDigits,
    BitVec.ofNat_toNat, BitVec.setWidth_eq]

theorem inetPton_inetNtoa (o : Fin 4 → BitVec 8) : inetPton (inetNtoa o) = some o := by
  have hsplit : ((inetNtoa o).splitOn '.').map octet =
      [some (o 0), some (o 1), some (o 2), some (o 3)] := by
    rw [inetNtoa, splitOn_dotted (by simp)]
    simp [octet_toDigits, List.ofFn_succ]
  rw [inetPton, hsplit]
  refine congrArg some (funext fun k => ?_)
  match k with
  | 0 | 1 | 2 | 3 => rfl

theorem inetPton_nil : inetPton [] = none := by decide

theorem inetNtoa_digits (o : Fin 4 → BitVec 8) :
    inetNtoa o = Nat.toDigits 10 (o 0).toNat ++ '.' :: (Nat.toDigits 10 (o 1).toNat ++
      '.' :: (Nat.toDigits 10 (o 2).toNat ++ '.' :: Nat.toDigits 10 (o 3).toNat)) := by
  have hdot : ".".toList = ['.'] := rfl
  simp [inetNtoa, dotted, hdot, Nat.toList_repr, List.ofFn_succ]

theorem inetNtoa_char {c : Char} (hc : c ∈ inetNtoa o) : c.isDigit = true ∨ c = '.' := by
  rw [inetNtoa_digits] at hc
  simp only [List.mem_append, List.mem_cons] at hc
  rcases hc with hc | rfl | hc | rfl | hc | rfl | hc
  · exact Or.inl (isDigit_toDigits c hc)
  · exact Or.inr rfl
  · exact Or.inl (isDigit_toDigits c hc)
  · exact Or.inr rfl
  · exact Or.inl (isDigit_toDigits c hc)
  · exact Or.inr rfl
  · exact Or.inl (isDigit_toDigits c hc)

theorem inetNtoa_word (o : Fin 4 → BitVec 8) :
    inetNtoa o ≠ [] ∧ ∀ c ∈ inetNtoa o, isSpace c = false := by
  constructor
  · rw [inetNtoa_digits]
    simp
  · intro c hc
    rcases inetNtoa_char hc with hdigit | rfl
    · exact isSpace_of_isDigit hdigit
    · decide

theorem inetNtoa_takeWhile (o : Fin 4 → BitVec 8) :
    (inetNtoa o).takeWhile (· ≠ '\x00') = inetNtoa o := by
  refine List.takeWhile_eq_self_iff.mpr fun c hc => decide_eq_true ?_
  rintro rfl
  rcases inetNtoa_char hc with hdigit | hdot
  · exact absurd hdigit (by decide)
  · exact absurd hdot (by decide)

theorem extractInt_toDigits (hn : n < 2 ^ 31) :
    extractInt old (' ' :: Nat.toDigits 10 n) = n := by
  have hall := isDigit_toDigits (n := n)
  have htake : (Nat.toDigits 10 n).takeWhile Char.isDigit = Nat.toDigits 10 n :=
    List.takeWhile_eq_self_iff.mpr hall
  have hclip : clip (n : Int) = n := by
    unfold clip
    omega
  cases hd : Nat.toDigits 10 n with
  | nil => exact absurd hd Nat.toDigits_ne_nil
  | cons c ds =>
    rw [hd] at hall htake
    have hc := hall c List.mem_cons_self
    have hdrop : (' ' :: c :: ds).dropWhile isSpace = c :: ds := by
      have hspace : isSpace ' ' = true := by decide
      simp [hspace, isSpace_of_isDigit hc]
    have hdec : decimal (c :: ds) = n := hd ▸ decimal_toDigits
    unfold extractInt
    rw [hdrop]
    split
    · rename_i heq
      cases heq
    · rename_i heq
      obtain ⟨rfl, -⟩ := List.cons.inj heq
      exact absurd hc (by decide)
    · rename_i heq
      obtain ⟨rfl, -⟩ := List.cons.inj heq
      exact absurd hc (by decide)
    · rw [htake, hdec, hclip]

theorem readAddress_text (old : Int) (a : InetAddr) :
    readAddress old a.text = (inetNtoa a.addr, (a.port.toNat : Int)) := by
  obtain ⟨hne, hword⟩ := inetNtoa_word a.addr
  have hport : a.port.toNat < 2 ^ 31 := a.port.isLt.trans (by decide)
  simp only [readAddress, InetAddr.text, extract_word hne hword, hne, if_false,
    extractInt_toDigits hport]

theorem sockAddr_text (old : Int) (a : InetAddr) :
    sockAddr (readAddress old a.text).1 (readAddress old a.text).2 = some a := by
  rw [readAddress_text, sockAddr, inetNtoa_takeWhile, inetPton_inetNtoa, Option.map_some,
    BitVec.ofInt_natCast, BitVec.ofNat_toNat, BitVec.setWidth_eq]

theorem sockAddr_nil (old : Int) :
    sockAddr (readAddress old []).1 (readAddress old []).2 = none := by
  have hnil : (readAddress old []).1 = [] := rfl
  rw [hnil, sockAddr, List.takeWhile_nil, inetPton_nil, Option.map_none]

end NetworkEmulator.Startup

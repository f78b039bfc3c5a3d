import NetworkEmulator.Ip

namespace NetworkEmulator

inductive Fault where
  | invalidArgument
  | outOfRange
  | overrun
  | indeterminate
  | nullIface
deriving DecidableEq, Repr

theorem Fault.bind_ok {α β : Type} {x : Except Fault α} {f : α → Except Fault β} {b : β}
    (h : x >>= f = .ok b) : ∃ a, x = .ok a ∧ f a = .ok b := by
  cases x with
  | error e => cases h
  | ok a => exact ⟨a, rfl, h⟩

theorem Fault.bind_error {α β : Type} {x : Except Fault α} {f : α → Except Fault β} {e : Fault}
    (h : x >>= f = .error e) : x = .error e ∨ ∃ a, x = .ok a ∧ f a = .error e := by
  cases x with
  | error e' => exact Or.inl (by simpa [bind, Except.bind] using h)
  | ok a => exact Or.inr ⟨a, rfl, h⟩

structure NextHop where
  ipAddr : IPAddr
  iface : String
deriving DecidableEq, Repr

namespace Routing

def isSpace (c : Char) : Bool := c ∈ [' ', '\t', '\n', '\x0b', '\x0c', '\r']

def decimal (ds : List Char) : Nat :=
  ds.foldl (fun n c => 10 * n + (c.toNat - '0'.toNat)) 0

def stoiDigits (negative : Bool) (s : List Char) : Except Fault (BitVec 32) :=
  let ds := s.takeWhile Char.isDigit
  let n : Int := if negative then -(decimal ds : Int) else decimal ds
  if ds.isEmpty then .error .invalidArgument
  else if n < -2147483648 ∨ 2147483647 < n then .error .outOfRange
  else .ok (BitVec.ofInt 32 n)

def stoi (s : List Char) : Except Fault (BitVec 32) :=
  match s.dropWhile isSpace with
  | '-' :: s => stoiDigits true s
  | '+' :: s => stoiDigits false s
  | s => stoiDigits false s

-- int arr[4]; a slot is none until parse_address stores into it
abbrev Slots := Fin 4 → Option (BitVec 32)

def storeFrom (i : Nat) : List (List Char) → Slots → Except Fault Slots
  | [], arr => .ok arr
  | tok :: toks, arr => do
    let v ← stoi tok
    if h : i < 4 then storeFrom (i + 1) toks (Function.update arr ⟨i, h⟩ (some v))
    else .error .overrun

def parseAddress (addr : IPAddr) (arr : Slots) : Except Fault Slots :=
  storeFrom 0 (addr.toList.splitOn '.') arr

def octetsMatch (dst mask netPrefix : Slots) : List (Fin 4) → Except Fault Bool
  | [] => .ok true
  | i :: is =>
    match dst i, mask i, netPrefix i with
    | some d, some m, some n => if d &&& m ≠ n then .ok false else octetsMatch dst mask netPrefix is
    | _, _, _ => .error .indeterminate

def scanRoutes (dst : Slots) : List Rtable → Except Fault NextHop
  | [] => .ok ⟨"", ""⟩
  | r :: routes => do
    let mask ← parseAddress r.netMask (fun _ => none)
    let netPrefix ← parseAddress r.destAddr (fun _ => none)
    if ← octetsMatch dst mask netPrefix [0, 1, 2, 3] then .ok ⟨r.nextHop, r.ifaceName⟩
    else scanRoutes dst routes

def getNextHop (routes : List Rtable) (hostDst : IPAddr) : Except Fault NextHop := do
  let dst ← parseAddress hostDst (fun _ => none)
  scanRoutes dst routes

example : getNextHop [⟨"128.252.11.0", "128.252.13.35", "255.255.255.0", "R2-cs2"⟩,
    ⟨"128.252.13.32", "0.0.0.0", "255.255.255.224", "R2-cs2"⟩] "128.252.13.40" =
    .ok ⟨"0.0.0.0", "R2-cs2"⟩ := by decide

def rowMatches (dst : Slots) (r : Rtable) : Except Fault Bool := do
  let mask ← parseAddress r.netMask (fun _ => none)
  let netPrefix ← parseAddress r.destAddr (fun _ => none)
  octetsMatch dst mask netPrefix [0, 1, 2, 3]

theorem scanRoutes_cons (dst : Slots) (r : Rtable) (routes : List Rtable) :
    scanRoutes dst (r :: routes) = rowMatches dst r >>= fun b =>
      if b then .ok ⟨r.nextHop, r.ifaceName⟩ else scanRoutes dst routes := by
  unfold rowMatches
  cases hm : parseAddress r.netMask (fun _ => none) with
  | error f => simp [scanRoutes, hm, bind, Except.bind]
  | ok mask =>
    cases hp : parseAddress r.destAddr (fun _ => none) with
    | error f => simp [scanRoutes, hm, hp, bind, Except.bind]
    | ok netPrefix => simp [scanRoutes, hm, hp, bind, Except.bind]

def Selects (dst : Slots) (routes : List Rtable) (r : Rtable) : Prop :=
  ∃ rs₁ rs₂, routes = rs₁ ++ r :: rs₂ ∧ (∀ r' ∈ rs₁, rowMatches dst r' = .ok false) ∧
    rowMatches dst r = .ok true

-- when no row matches, get_next_hop returns a NextHop whose two strings are empty
def Names (dst : Slots) (routes : List Rtable) (nextHop : NextHop) : Prop :=
  (∃ r, Selects dst routes r ∧ nextHop = ⟨r.nextHop, r.ifaceName⟩) ∨
    (∀ r ∈ routes, rowMatches dst r = .ok false) ∧ nextHop = ⟨"", ""⟩

theorem selects_cons {dst : Slots} {r₀ r : Rtable} {routes : List Rtable} :
    Selects dst (r₀ :: routes) r ↔ (rowMatches dst r₀ = .ok true ∧ r = r₀) ∨
      (rowMatches dst r₀ = .ok false ∧ Selects dst routes r) := by
  constructor
  · rintro ⟨rs₁, rs₂, heq, hfalse, htrue⟩
    cases rs₁ with
    | nil =>
      obtain ⟨rfl, -⟩ := List.cons.inj heq
      exact Or.inl ⟨htrue, rfl⟩
    | cons r₁ rs₁ =>
      obtain ⟨rfl, rfl⟩ := List.cons.inj heq
      refine Or.inr ⟨hfalse r₀ List.mem_cons_self, rs₁, rs₂, rfl, ?_, htrue⟩
      exact fun r' hr' => hfalse r' (List.mem_cons_of_mem _ hr')
  · rintro (⟨htrue, rfl⟩ | ⟨hfalse₀, rs₁, rs₂, rfl, hfalse, htrue⟩)
    · exact ⟨[], routes, rfl, by simp, htrue⟩
    · exact ⟨r₀ :: rs₁, rs₂, rfl, List.forall_mem_cons.mpr ⟨hfalse₀, hfalse⟩, htrue⟩

theorem scanRoutes_ok_iff {dst : Slots} {routes : List Rtable} {nextHop : NextHop} :
    scanRoutes dst routes = .ok nextHop ↔ Names dst routes nextHop := by
  induction routes with
  | nil => simp [scanRoutes, Names, Selects, eq_comm]
  | cons r routes ih =>
    rw [scanRoutes_cons]
    simp only [Names, selects_cons, List.forall_mem_cons] at ih ⊢
    cases hr : rowMatches dst r with
    | error f => simp [bind, Except.bind]
    | ok b =>
      cases b with
      | true => simp [bind, Except.bind, eq_comm]
      | false => simpa [bind, Except.bind] using ih

theorem getNextHop_ok_iff {routes : List Rtable} {hostDst : IPAddr} {nextHop : NextHop} :
    getNextHop routes hostDst = .ok nextHop ↔
      ∃ dst, parseAddress hostDst (fun _ => none) = .ok dst ∧ Names dst routes nextHop := by
  unfold getNextHop
  cases parseAddress hostDst (fun _ => none) with
  | error f => simp [bind, Except.bind]
  | ok dst => simp [bind, Except.bind, scanRoutes_ok_iff]

end Routing

end NetworkEmulator

import NetworkEmulator.Foundation.Codec
import NetworkEmulator.Foundation.Retry

namespace NetworkEmulator.Common

open Transition Layout

-- no object has more bytes than a ssize_t can count
structure Object where
  bytes : Bytes
  fits : bytes.length < 2 ^ 63

-- n, which comes as a size_t, in a ssize_t
def Object.size (buf : Object) : Int := (BitVec.ofNat 64 buf.bytes.length).toInt

-- what a call of write finds: room for that many bytes, a signal, or another failure
inductive WriteAnswer where
  | room (bytes : Nat)
  | interrupted
  | failed
deriving DecidableEq

def WriteAnswer.nwritten (nleft : Int) : WriteAnswer → Int
  | .room bytes => min bytes nleft
  | .interrupted | .failed => -1

inductive Writing where
  | running (nleft : Int) (ptr : Nat)
  | returned (result : Int)
  | exited

def Writing.loop (n nleft : Int) (ptr : Nat) : Writing :=
  if nleft > 0 then .running nleft ptr else .returned n

-- each turn of the loop puts out what the descriptor has taken
def myWrite (buf : Object) : Machine Writing WriteAnswer Bytes where
  init := .loop buf.size buf.size 0
  step
    | .running nleft ptr, a =>
      let nwritten := a.nwritten nleft
      if nwritten ≤ 0 then
        if nwritten < 0 ∧ a = .interrupted then some (.loop buf.size nleft ptr, [])
        else some (.exited, [])
      else
        some (.loop buf.size (nleft - nwritten) (ptr + nwritten.toNat),
          [(buf.bytes.drop ptr).take nwritten.toNat])
    | .returned _, _ | .exited, _ => none

def Writing.Ended : Writing → Prop
  | .running _ _ => False
  | .returned _ | .exited => True

def Writing.left : Writing → Nat
  | .running nleft _ => nleft.toNat
  | .returned _ | .exited => 0

def Sent (buf : Object) (sent : Bytes) : Writing → Prop
  | .running nleft ptr => 0 < nleft ∧ ptr + nleft = buf.bytes.length ∧ sent = buf.bytes.take ptr
  | .returned result => result = buf.bytes.length ∧ sent = buf.bytes
  | .exited => sent <+: buf.bytes ∧ sent ≠ buf.bytes

variable {buf : Object} {ms : List (Move Writing WriteAnswer Bytes)} {s s' : Writing}
  {h out : List Bytes} {a : WriteAnswer} {nleft : Int} {ptr k : Nat}

theorem Object.size_eq (buf : Object) : buf.size = buf.bytes.length := by
  have hfits := buf.fits
  have hmod : buf.bytes.length % 2 ^ 64 = buf.bytes.length := Nat.mod_eq_of_lt (by omega)
  rw [Object.size, BitVec.toInt_eq_toNat_of_lt, BitVec.toNat_ofNat, hmod]
  rw [BitVec.toNat_ofNat, hmod]
  omega

inductive Turned (buf : Object) (nleft : Int) (ptr : Nat) :
    WriteAnswer → Writing → List Bytes → Prop
  | again : Turned buf nleft ptr .interrupted (.loop buf.size nleft ptr) []
  | failed {a : WriteAnswer} (ha : a ≠ .interrupted) : Turned buf nleft ptr a .exited []
  | wrote (bytes k : Nat) (hk : 0 < k) (hle : k ≤ nleft) :
      Turned buf nleft ptr (.room bytes) (.loop buf.size (nleft - k) (ptr + k))
        [(buf.bytes.drop ptr).take k]

theorem turned_of_step
    (hs : (myWrite buf).step (.running nleft ptr) a = some (s', out)) :
    Turned buf nleft ptr a s' out := by
  cases a with
  | interrupted =>
    obtain ⟨rfl, rfl⟩ := Prod.mk.inj (Option.some.inj hs)
    exact .again
  | failed =>
    obtain ⟨rfl, rfl⟩ := Prod.mk.inj (Option.some.inj hs)
    exact .failed (by simp)
  | room bytes =>
    by_cases hle : min (bytes : Int) nleft ≤ 0
    · simp only [myWrite, WriteAnswer.nwritten, hle, if_true, reduceCtorEq, and_false,
        if_false] at hs
      obtain ⟨rfl, rfl⟩ := Prod.mk.inj (Option.some.inj hs)
      exact .failed (by simp)
    · simp only [myWrite, WriteAnswer.nwritten, hle, if_false] at hs
      obtain ⟨rfl, rfl⟩ := Prod.mk.inj (Option.some.inj hs)
      obtain ⟨k, hk⟩ : ∃ k : Nat, min (bytes : Int) nleft = k :=
        Int.eq_ofNat_of_zero_le (by omega)
      rw [hk] at hle ⊢
      exact .wrote bytes k (by omega) (by omega)

theorem sent_loop (hle : 0 ≤ nleft) (hsum : ptr + nleft = buf.bytes.length) :
    Sent buf (buf.bytes.take ptr) (.loop buf.size nleft ptr) := by
  unfold Writing.loop
  split
  · rename_i hpos
    exact ⟨hpos, hsum, rfl⟩
  · refine ⟨buf.size_eq, List.take_of_length_le ?_⟩
    omega

theorem sent_turned (hi : Sent buf h.flatten (.running nleft ptr))
    (ht : Turned buf nleft ptr a s' out) : Sent buf (h ++ out).flatten s' := by
  obtain ⟨hpos, hsum, hsent⟩ := hi
  rw [List.flatten_append, hsent]
  cases ht with
  | again =>
    rw [List.flatten_nil, List.append_nil]
    exact sent_loop hpos.le hsum
  | failed =>
    rw [List.flatten_nil, List.append_nil]
    refine ⟨List.take_prefix _ _, fun heq => ?_⟩
    have hlen := congrArg List.length heq
    rw [List.length_take] at hlen
    omega
  | wrote _ k hk hle =>
    rw [List.flatten_singleton, ← List.take_add]
    exact sent_loop (by omega) (by push_cast; omega)

theorem sent (p : Path (myWrite buf) ms s h) : Sent buf h.flatten s := by
  refine p.invariant (fun s h => Sent buf h.flatten s) ?_ ?_
  · exact sent_loop (by rw [buf.size_eq]; omega) (by rw [buf.size_eq]; omega)
  · intro s h a s' out hi hs
    cases s with
    | running nleft ptr => exact sent_turned hi (turned_of_step hs)
    | returned | exited => cases hs

theorem loop_ended_or_lt (hk : 0 < k) :
    (Writing.loop buf.size (nleft - k) (ptr + k)).Ended ∨
      (Writing.loop buf.size (nleft - k) (ptr + k)).left < nleft.toNat := by
  unfold Writing.loop
  split
  · apply Or.inr
    simp only [Writing.left]
    omega
  · exact Or.inl trivial

theorem retries_myWrite (buf : Object) :
    Retries (myWrite buf) Writing.Ended (· = .interrupted) Writing.left := by
  constructor
  · intro s a hd
    cases s with
    | running nleft ptr =>
      simp only [myWrite]
      split
      · split
        · exact ⟨_, _, rfl⟩
        · exact ⟨_, _, rfl⟩
      · exact ⟨_, _, rfl⟩
    | returned | exited => exact absurd trivial hd
  · intro ms s h a s' out p hs ha
    cases s with
    | running nleft ptr =>
      cases turned_of_step hs with
      | again => exact absurd rfl ha
      | failed => exact Or.inl trivial
      | wrote _ k hk hle => exact loop_ended_or_lt hk
    | returned | exited => cases hs

theorem my_write_whole (buf : Object) (ω : Nat → WriteAnswer)
    (hfin : {t | ω t = .interrupted}.Finite) :
    ∃ ms s h, Path (myWrite buf) ms s h ∧ Follows ω ms ∧
      (s = .returned buf.bytes.length ∧ h.flatten = buf.bytes ∨
        s = .exited ∧ h.flatten <+: buf.bytes ∧ h.flatten ≠ buf.bytes) := by
  obtain ⟨ms, s, h, p, hf, hd⟩ := (retries_myWrite buf).ends hfin
  have hsent := sent p
  refine ⟨ms, s, h, p, hf, ?_⟩
  cases s with
  | running => exact absurd hd id
  | returned result => exact Or.inl ⟨congrArg _ hsent.1, hsent.2⟩
  | exited => exact Or.inr ⟨rfl, hsent⟩

def accepted : Object := ⟨[65, 99, 99, 101, 112, 116, 101, 100, 0], by decide⟩

def inTwoParts : Nat → WriteAnswer
  | 0 => .room 4
  | 1 => .interrupted
  | _ + 2 => .room 100

theorem interrupted_once : {t | inTwoParts t = .interrupted}.Finite := by
  refine (Set.finite_singleton 1).subset fun t ht => ?_
  match t, ht with
  | 1, _ => rfl

theorem my_write_whole_parts :
    ∃ ms s h, Path (myWrite accepted) ms s h ∧ Follows inTwoParts ms ∧
      (s = .returned accepted.bytes.length ∧ h.flatten = accepted.bytes ∨
        s = .exited ∧ h.flatten <+: accepted.bytes ∧ h.flatten ≠ accepted.bytes) :=
  my_write_whole accepted inTwoParts interrupted_once

end NetworkEmulator.Common

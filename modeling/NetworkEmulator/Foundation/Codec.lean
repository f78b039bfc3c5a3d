import Mathlib.Algebra.Order.Ring.Nat
import Mathlib.Tactic.Common

namespace Layout

abbrev Bytes := List UInt8

def le : Nat → Nat → Bytes
  | 0, _ => []
  | w + 1, n => UInt8.ofNat n :: le w (n / 256)

def unle : Bytes → Nat
  | [] => 0
  | b :: bs => b.toNat + 256 * unle bs

@[simp] theorem length_le (w n : Nat) : (le w n).length = w := by
  induction w generalizing n with
  | zero => rfl
  | succ w ih => rw [le, List.length_cons, ih]

theorem unle_le {w n : Nat} (h : n < 256 ^ w) : unle (le w n) = n := by
  induction w generalizing n with
  | zero => exact (Nat.lt_one_iff.mp h).symm
  | succ w ih =>
    have hq : n / 256 < 256 ^ w := by
      apply Nat.div_lt_of_lt_mul
      rwa [Nat.mul_comm, ← Nat.pow_succ]
    rw [le, unle, ih hq, UInt8.toNat_ofNat']
    omega

structure Codec (α : Type) where
  size : Nat
  put : α → Bytes
  get : Bytes → Option α
  length_put : ∀ a, (put a).length = size
  get_put : ∀ a, get (put a) = some a

namespace Codec
variable {α β : Type}

def raw (n : Nat) : Codec {bs : Bytes // bs.length = n} where
  size := n
  put a := a.1
  get bs := if h : bs.length = n then some ⟨bs, h⟩ else none
  length_put a := a.2
  get_put a := dif_pos a.2

def uint16 : Codec UInt16 where
  size := 2
  put a := le 2 a.toNat
  get bs := some (UInt16.ofNat (unle bs))
  length_put a := length_le 2 _
  get_put a := by
    rw [unle_le (by simpa using a.toNat_lt), UInt16.ofNat_toNat]

def uint64 : Codec UInt64 where
  size := 8
  put a := le 8 a.toNat
  get bs := some (UInt64.ofNat (unle bs))
  length_put a := length_le 8 _
  get_put a := by
    rw [unle_le (by simpa using a.toNat_lt), UInt64.ofNat_toNat]

def pair (A : Codec α) (B : Codec β) : Codec (α × β) where
  size := A.size + B.size
  put p := A.put p.1 ++ B.put p.2
  get bs := (A.get (bs.take A.size)).bind fun a => (B.get (bs.drop A.size)).map fun b => (a, b)
  length_put p := by rw [List.length_append, A.length_put, B.length_put]
  get_put p := by
    have hA := A.length_put p.1
    rw [← hA, List.take_left, List.drop_left, A.get_put, B.get_put]
    rfl

def via (A : Codec α) (f : β → α) (g : α → Option β) (hg : ∀ b, g (f b) = some b) : Codec β where
  size := A.size
  put b := A.put (f b)
  get bs := (A.get bs).bind g
  length_put b := A.length_put (f b)
  get_put b := by rw [A.get_put, Option.bind_some, hg]

end Codec

end Layout

import Mathlib.Algebra.Order.Group.Nat
import Mathlib.Data.Nat.ModEq
import OpenNeon.Base.Bytes

/-!
# Integers in byte strings

An integer of a fixed width is written with its most significant byte first, or
last.  Reading the bytes back gives the integer reduced to the width.
-/

namespace OpenNeon
namespace Base

def beBytes : Nat -> Nat -> List UInt8
  | 0, _ => []
  | width + 1, x => UInt8.ofNat (x / 256 ^ width) :: beBytes width x

def leBytes (width x : Nat) : List UInt8 :=
  (beBytes width x).reverse

def beValue : List UInt8 -> Nat
  | [] => 0
  | b :: rest => b.toNat * 256 ^ rest.length + beValue rest

@[simp]
theorem length_beBytes (width x : Nat) : (beBytes width x).length = width := by
  induction width with
  | zero => rfl
  | succ width ih => simp [beBytes, ih]

theorem beValue_beBytes (width x : Nat) : beValue (beBytes width x) = x % 256 ^ width := by
  induction width with
  | zero => simp [beBytes, beValue, Nat.mod_one]
  | succ width ih =>
    have hsplit : x % 256 ^ (width + 1) =
        x % 256 ^ width + 256 ^ width * (x / 256 ^ width % 256) := by
      rw [Nat.pow_succ, Nat.mod_mul]
    rw [beBytes, beValue, ih, length_beBytes, UInt8.toNat_ofNat', hsplit,
      Nat.mul_comm, Nat.add_comm]

theorem beValue_beBytes_of_lt {width x : Nat} (h : x < 256 ^ width) :
    beValue (beBytes width x) = x := by
  rw [beValue_beBytes, Nat.mod_eq_of_lt h]

end Base
end OpenNeon

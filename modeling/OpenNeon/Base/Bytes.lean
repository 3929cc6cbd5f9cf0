import Mathlib.Tactic.Ring
import Mathlib.Data.List.Lex
import Mathlib.Data.List.Infix

/-!
# Byte strings

Byte strings are compared byte by byte, from the left.  A string of records of
one size is the concatenation of the records, and a record is found again at a
multiple of the size.
-/

namespace OpenNeon
namespace Base

open List

instance instLinearOrderUInt8 : LinearOrder UInt8 where
  le_refl := UInt8.le_refl
  le_trans _ _ _ := UInt8.le_trans
  lt_iff_le_not_ge a b := by
    rw [UInt8.lt_iff_toNat_lt, UInt8.le_iff_toNat_le, UInt8.le_iff_toNat_le]
    omega
  le_antisymm _ _ := UInt8.le_antisymm
  le_total := UInt8.le_total
  toDecidableLE := inferInstance

section Order

variable {alpha : Type} [LinearOrder alpha]

theorem cons_le_cons_iff_lex {x y : alpha} {a b : List alpha} :
    x :: a ≤ y :: b <-> x < y ∨ x = y ∧ a ≤ b := by
  rw [le_iff_lt_or_eq, cons_lt_cons_iff, le_iff_lt_or_eq, List.cons.injEq]
  tauto

theorem isPrefix_of_between {p a b c : List alpha} (ha : p <+: a) (hc : p <+: c)
    (hab : a ≤ b) (hbc : b ≤ c) : p <+: b := by
  induction p generalizing a b c with
  | nil => exact nil_prefix
  | cons x p ih =>
    rcases ha with ⟨a', rfl⟩
    rcases hc with ⟨c', rfl⟩
    cases b with
    | nil => exact absurd hab (not_le.mpr (nil_lt_cons _ _))
    | cons y b =>
      rw [cons_append, cons_le_cons_iff_lex] at hab hbc
      rcases hab with hxy | ⟨rfl, hab⟩
      · rcases hbc with hyx | ⟨hyx, _⟩
        · exact absurd hyx (lt_asymm hxy)
        · exact absurd hyx.symm (ne_of_lt hxy)
      · rcases hbc with hxx | ⟨_, hbc⟩
        · exact absurd hxx (lt_irrefl x)
        · rw [prefix_cons_inj]
          exact ih (prefix_append p a') (prefix_append p c') hab hbc

end Order

/-!
## Records of one size
-/

section Records

variable {alpha : Type} {size : Nat} {records : List (List alpha)}

section

variable (h : forall r, r ∈ records -> r.length = size)

include h

theorem length_flatten_records : records.flatten.length = records.length * size := by
  induction records with
  | nil => simp
  | cons r rest ih =>
    have hrest := ih (fun x hx => h x (by simp [hx]))
    rw [flatten_cons, length_append, hrest, h r (by simp),
      length_cons, Nat.add_mul, Nat.one_mul, Nat.add_comm]

theorem take_drop_flatten_records {i : Nat} {r : List alpha} (hr : records[i]? = some r) :
    (records.flatten.drop (i * size)).take size = r := by
  induction records generalizing i with
  | nil => simp at hr
  | cons first rest ih =>
    have hfirst := h first (by simp)
    cases i with
    | zero =>
      have heq : first = r := by simpa using hr
      subst heq
      simp [← hfirst]
    | succ i =>
      have hrest : rest[i]? = some r := by simpa using hr
      have hdrop : (first :: rest).flatten.drop ((i + 1) * size) =
          rest.flatten.drop (i * size) := by
        rw [Nat.add_mul, Nat.add_comm, ← hfirst]
        simp
      rw [hdrop]
      exact ih (fun x hx => h x (by simp [hx])) hrest

theorem record_end_le {i : Nat}
    (hi : i < records.length) : i * size + size ≤ records.flatten.length := by
  rw [length_flatten_records h]
  have hle : (i + 1) * size ≤ records.length * size :=
    Nat.mul_le_mul_right size hi
  rwa [Nat.add_mul, Nat.one_mul] at hle

end

end Records

theorem or_eq_add {x y i : Nat} (hx : 2 ^ i ∣ x) (hy : y < 2 ^ i) : x ||| y = x + y := by
  rcases hx with ⟨c, rfl⟩
  exact (Nat.two_pow_add_eq_or_of_lt hy c).symm

end Base
end OpenNeon

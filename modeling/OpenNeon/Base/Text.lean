import Mathlib.Data.List.Basic
import Mathlib.Tactic.Ring

/-!
# Texts

Texts are lists of characters here.  The functions that cut a text at given positions
fail where the position is beyond its end.
-/

namespace OpenNeon
namespace Base
namespace Text

inductive SplitAtPanic where
  | outOfRange
  deriving DecidableEq

def splitAt (text : List Char) (mid : Nat) : Except SplitAtPanic (List Char × List Char) :=
  if text.length < mid then .error .outOfRange else .ok (text.take mid, text.drop mid)

theorem splitAt_append (front back : List Char) :
    splitAt (front ++ back) front.length = .ok (front, back) := by
  rw [splitAt, if_neg (by simp), List.take_left, List.drop_left]

variable {sep : Char} {text : List Char} {parts : List (List Char)}

theorem not_mem_of_mem_splitOn {part : List Char} (h : part ∈ text.splitOn sep) : sep ∉ part := by
  induction text generalizing part with
  | nil =>
    rw [List.splitOn_nil, List.mem_singleton] at h
    rw [h]
    exact List.not_mem_nil
  | cons c text ih =>
    rw [List.splitOn_cons_eq_if_modifyHead] at h
    split at h
    next heq =>
      rcases List.mem_cons.mp h with rfl | h
      · exact List.not_mem_nil
      · exact ih h
    next hne =>
      cases hsplit : text.splitOn sep with
      | nil => exact absurd hsplit (List.splitOn_ne_nil sep text)
      | cons first rest =>
        rw [hsplit, List.modifyHead_cons] at h
        rcases List.mem_cons.mp h with rfl | h
        · rw [List.mem_cons, not_or]
          refine ⟨fun hsep => hne (by rw [hsep]; exact beq_self_eq_true c), ih ?_⟩
          rw [hsplit]
          exact List.mem_cons_self
        · exact ih (by rw [hsplit]; exact List.mem_cons_of_mem first h)

/-- The parts of a text, put together, give the text, and no others do. -/
theorem splitOn_eq_iff :
    text.splitOn sep = parts <->
      parts ≠ [] ∧ (forall part, part ∈ parts -> sep ∉ part) ∧ text = [sep].intercalate parts := by
  constructor
  · rintro rfl
    exact ⟨List.splitOn_ne_nil sep text, fun part => not_mem_of_mem_splitOn,
      (List.intercalate_splitOn sep).symm⟩
  · rintro ⟨hne, hparts, rfl⟩
    exact List.splitOn_intercalate sep hparts hne

/-- The text before and after the first place with a pattern, which is not empty. -/
def splitOnce (pat : List Char) : List Char -> Option (List Char × List Char)
  | [] => none
  | c :: text =>
    match (c :: text).dropPrefix? pat with
    | some back => some ([], back)
    | none => (splitOnce pat text).map (fun cut => (c :: cut.1, cut.2))

section SplitOnce

variable {c : Char} {pat front : List Char}

theorem splitOnce_append (h : c ∉ front) (back : List Char) :
    splitOnce (c :: pat) (front ++ c :: (pat ++ back)) = some (front, back) := by
  induction front with
  | nil =>
    have hpat : (c :: (pat ++ back)).dropPrefix? (c :: pat) = some back :=
      List.dropPrefix?_eq_some_iff.mpr ⟨c :: pat, by simp⟩
    simp [splitOnce, hpat]
  | cons d front ih =>
    rw [List.mem_cons, not_or] at h
    simp [splitOnce, List.dropPrefix?, Ne.symm h.1, ih h.2]

theorem splitOnce_char (h : c ∉ front) (back : List Char) :
    splitOnce [c] (front ++ c :: back) = some (front, back) :=
  splitOnce_append h back

theorem splitOnce_eq_none (h : c ∉ front) : splitOnce (c :: pat) front = none := by
  induction front with
  | nil => rfl
  | cons d front ih =>
    rw [List.mem_cons, not_or] at h
    simp [splitOnce, List.dropPrefix?, Ne.symm h.1, ih h.2]

end SplitOnce

/-!
## Hexadecimal numbers
-/

def toDigit (c : Char) : Option Nat :=
  if '0' ≤ c ∧ c ≤ '9' then some (c.toNat - '0'.toNat)
  else if 'a' ≤ c ∧ c ≤ 'f' then some (c.toNat - 'a'.toNat + 10)
  else if 'A' ≤ c ∧ c ≤ 'F' then some (c.toNat - 'A'.toNat + 10)
  else none

def digitsValue (bits : Nat) : Nat -> List Char -> Option Nat
  | value, [] => some value
  | value, c :: text => do
    let digit ← toDigit c
    if value * 16 + digit < 2 ^ bits then digitsValue bits (value * 16 + digit) text else none

/-- A number of so many bits; it may have a plus sign. -/
def fromStrRadix (bits : Nat) : List Char -> Option Nat
  | [] => none
  | ['+'] => none
  | '+' :: text => digitsValue bits 0 text
  | text => digitsValue bits 0 text

structure Numeral (bits n : Nat) (text : List Char) : Prop where
  ne_nil : text ≠ []
  value : digitsValue bits 0 text = some n

section Hex

variable {bits n value : Nat} {c : Char}

theorem toDigit_of_digitsValue (h : digitsValue bits value text = some n) (hc : c ∈ text) :
    (toDigit c).isSome := by
  induction text generalizing value with
  | nil => cases hc
  | cons d text ih =>
    rw [digitsValue, Option.bind_eq_bind, Option.bind_eq_some_iff] at h
    rcases h with ⟨digit, hdigit, h⟩
    split at h
    · rcases List.mem_cons.mp hc with rfl | hc
      · rw [hdigit]
        rfl
      · exact ih h hc
    · cases h

theorem digitsValue_append (front back : List Char) :
    digitsValue bits value (front ++ back) =
      (digitsValue bits value front).bind (fun value => digitsValue bits value back) := by
  induction front generalizing value with
  | nil => rfl
  | cons c front ih =>
    simp only [List.cons_append, digitsValue, ih]
    cases toDigit c with
    | none => rfl
    | some digit =>
      dsimp
      split <;> rfl

theorem digitsValue_zeros (k : Nat) : digitsValue bits 0 (List.replicate k '0') = some 0 := by
  induction k with
  | zero => rfl
  | succ k ih => simpa [List.replicate_succ, digitsValue, toDigit] using ih

theorem toDigit_digitChar (hlt : n < 16) : toDigit (Nat.digitChar n).toUpper = some n := by
  revert n
  decide

theorem digitsValue_toDigits (hlt : n < 2 ^ bits) :
    digitsValue bits 0 ((Nat.toDigits 16 n).map Char.toUpper) = some n := by
  induction n using Nat.strong_induction_on with
  | _ n ih =>
    rw [Nat.toDigits_eq_if (by decide)]
    split
    next hsmall => simp [digitsValue, toDigit_digitChar hsmall, hlt]
    next hlarge =>
      have hmod : n % 16 < 16 := Nat.mod_lt n (by decide)
      rw [List.map_append, digitsValue_append, ih (n / 16) (by omega) (by omega)]
      simp [digitsValue, toDigit_digitChar hmod, Nat.div_add_mod', hlt]

namespace Numeral

theorem padded (k : Nat) (hlt : n < 2 ^ bits) :
    Numeral bits n (List.replicate k '0' ++ (Nat.toDigits 16 n).map Char.toUpper) := by
  constructor
  · simp [Nat.toDigits_ne_nil]
  · rw [digitsValue_append, digitsValue_zeros]
    exact digitsValue_toDigits hlt

variable (h : Numeral bits n text)
include h

theorem not_mem (hc : toDigit c = none) : c ∉ text := by
  intro hmem
  have hdigit := toDigit_of_digitsValue h.value hmem
  rw [hc] at hdigit
  cases hdigit

theorem fromStrRadix_eq : fromStrRadix bits text = some n := by
  have hplus := h.not_mem (c := '+') (by decide)
  unfold fromStrRadix
  split
  · exact absurd rfl h.ne_nil
  · simp at hplus
  · simp at hplus
  · exact h.value

end Numeral
end Hex

end Text
end Base
end OpenNeon

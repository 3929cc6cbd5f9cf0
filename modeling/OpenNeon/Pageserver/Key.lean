import Mathlib.Data.Prod.Lex
import Mathlib.Data.Nat.Bitwise
import OpenNeon.Base.Bytes
import OpenNeon.Utils.Lsn

/-!
# Keys of the page store

A key is a record of six machine integers, ordered field by field.  The layer
map indexes keys as 128-bit integers.  The conversion keeps only the low bits of
the first two fields, so it is faithful on the keys that fit.
-/

namespace OpenNeon
namespace Pageserver

open Base

inductive Panic where
  | invalidKey
  | unexpectedRetroactiveInsert
  | rebuildRequired
  | subtractWithOverflow
  | expectedDelta
  | expectedImage
  | keySpaceNotIncreasing
  | l0LayerNotFound
  | unwrapOnNone
  -- no panic of the source: a bound on the iterations of a loop was too small
  | outOfFuel
  deriving DecidableEq

structure Key where
  field1 : UInt8
  field2 : UInt32
  field3 : UInt32
  field4 : UInt32
  field5 : UInt8
  field6 : UInt32
  deriving DecidableEq

namespace Key

def fields (k : Key) : Nat ×ₗ Nat ×ₗ Nat ×ₗ Nat ×ₗ Nat ×ₗ Nat :=
  toLex (k.field1.toNat, toLex (k.field2.toNat, toLex (k.field3.toNat,
    toLex (k.field4.toNat, toLex (k.field5.toNat, k.field6.toNat)))))

theorem fields_injective : Function.Injective fields := by
  rintro ⟨a1, a2, a3, a4, a5, a6⟩ ⟨b1, b2, b3, b4, b5, b6⟩ h
  simp only [fields, EmbeddingLike.apply_eq_iff_eq, Prod.mk.injEq,
    UInt8.toNat_inj, UInt32.toNat_inj] at h
  simp [h]

instance : LinearOrder Key :=
  LinearOrder.lift' fields fields_injective

variable {a b k : Key}

theorem lt_iff :
    a < b <->
      a.field1.toNat < b.field1.toNat ∨ a.field1.toNat = b.field1.toNat ∧
      (a.field2.toNat < b.field2.toNat ∨ a.field2.toNat = b.field2.toNat ∧
      (a.field3.toNat < b.field3.toNat ∨ a.field3.toNat = b.field3.toNat ∧
      (a.field4.toNat < b.field4.toNat ∨ a.field4.toNat = b.field4.toNat ∧
      (a.field5.toNat < b.field5.toNat ∨ a.field5.toNat = b.field5.toNat ∧
        a.field6.toNat < b.field6.toNat)))) := by
  change fields a < fields b <-> _
  simp [fields, Prod.Lex.lt_iff]

def MIN : Key := ⟨0, 0, 0, 0, 0, 0⟩

def MAX : Key :=
  ⟨0xFF, 0xFFFFFFFF, 0xFFFFFFFF, 0xFFFFFFFF, 0xFF, 0xFFFFFFFF⟩

/-- The second field is small, or one of the two markers in use. -/
def isI128Representable (k : Key) : Bool :=
  k.field2 ≤ 0xFFFF || k.field2 == 0xFFFFFFFF || k.field2 == 0x22222222

def packI128 (k : Key) : Nat :=
  ((k.field1 &&& 0x7F).toNat <<< 120)
    ||| ((k.field2 &&& 0xFFFF).toNat <<< 104)
    ||| (k.field3.toNat <<< 72)
    ||| (k.field4.toNat <<< 40)
    ||| (k.field5.toNat <<< 32)
    ||| k.field6.toNat

/-- The key as a 128-bit integer; a key that does not fit is refused. -/
def toI128 (k : Key) : Except Panic Int :=
  if k.isI128Representable then .ok k.packI128 else .error .invalidKey

def fromI128 (x : Int) : Key :=
  { field1 := UInt8.ofNat ((x.shiftRight 120).toNat % 2 ^ 7)
    field2 := UInt32.ofNat ((x.shiftRight 104).toNat % 2 ^ 16)
    field3 := UInt32.ofNat (x.shiftRight 72).toNat
    field4 := UInt32.ofNat (x.shiftRight 40).toNat
    field5 := UInt8.ofNat (x.shiftRight 32).toNat
    field6 := UInt32.ofNat x.toNat }

/-!
## Keys that fit

On a key whose first two fields keep all their bits the packing loses nothing:
it is injective, keeps the order, and unpacking inverts it.
-/

/-- The fields that the packing cuts are within the kept bits. -/
def Fits (k : Key) : Prop :=
  k.field1.toNat ≤ 0x7F ∧ k.field2.toNat ≤ 0xFFFF

instance (k : Key) : Decidable k.Fits :=
  inferInstanceAs (Decidable (_ ∧ _))

def weigh (f1 f2 f3 f4 f5 f6 : Nat) : Nat :=
  f1 * 2 ^ 120 + f2 * 2 ^ 104 + f3 * 2 ^ 72 + f4 * 2 ^ 40 + f5 * 2 ^ 32 + f6

theorem packI128_eq (k : Key) :
    k.packI128 =
      weigh (k.field1.toNat % 2 ^ 7) (k.field2.toNat % 2 ^ 16) k.field3.toNat
        k.field4.toNat k.field5.toNat k.field6.toNat := by
  have h1 : (k.field1 &&& 0x7F).toNat = k.field1.toNat % 2 ^ 7 := by
    exact Nat.and_two_pow_sub_one_eq_mod _ 7
  have h2 : (k.field2 &&& 0xFFFF).toNat = k.field2.toNat % 2 ^ 16 := by
    exact Nat.and_two_pow_sub_one_eq_mod _ 16
  have b2 : k.field2.toNat % 2 ^ 16 < 2 ^ 16 := Nat.mod_lt _ (by decide)
  have b3 := k.field3.toNat_lt
  have b4 := k.field4.toNat_lt
  have b5 := k.field5.toNat_lt
  have b6 := k.field6.toNat_lt
  unfold packI128 weigh
  rw [h1, h2]
  simp only [Nat.shiftLeft_eq]
  generalize k.field1.toNat % 2 ^ 7 = f1
  generalize k.field2.toNat % 2 ^ 16 = f2 at b2 ⊢
  have e1 : f1 * 2 ^ 120 ||| f2 * 2 ^ 104 = f1 * 2 ^ 120 + f2 * 2 ^ 104 :=
    or_eq_add (i := 120) (by omega) (by omega)
  have e2 := or_eq_add (i := 104) (x := f1 * 2 ^ 120 + f2 * 2 ^ 104)
    (y := k.field3.toNat * 2 ^ 72) (by omega) (by omega)
  have e3 := or_eq_add (i := 72) (x := f1 * 2 ^ 120 + f2 * 2 ^ 104 + k.field3.toNat * 2 ^ 72)
    (y := k.field4.toNat * 2 ^ 40) (by omega) (by omega)
  rw [e1, e2, e3,
    or_eq_add (i := 40) (y := k.field5.toNat * 2 ^ 32) (by omega) (by omega),
    or_eq_add (i := 32) (y := k.field6.toNat) (by omega) (by omega)]

theorem Fits.packI128_eq (h : k.Fits) :
    k.packI128 =
      weigh k.field1.toNat k.field2.toNat k.field3.toNat k.field4.toNat
        k.field5.toNat k.field6.toNat := by
  rw [Key.packI128_eq, Nat.mod_eq_of_lt (by have := h.1; omega),
    Nat.mod_eq_of_lt (by have := h.2; omega)]

theorem Fits.toI128_eq (h : k.Fits) : k.toI128 = .ok (k.packI128 : Int) := by
  have hfield : k.field2 ≤ 0xFFFF := h.2
  simp [toI128, isI128Representable, hfield]

theorem packI128_lt_iff (ha : a.Fits) (hb : b.Fits) : a.packI128 < b.packI128 <-> a < b := by
  rw [ha.packI128_eq, hb.packI128_eq, Key.lt_iff]
  rcases ha with ⟨ha1, ha2⟩
  rcases hb with ⟨hb1, hb2⟩
  have a3 := a.field3.toNat_lt
  have a4 := a.field4.toNat_lt
  have a5 := a.field5.toNat_lt
  have a6 := a.field6.toNat_lt
  have b3 := b.field3.toNat_lt
  have b4 := b.field4.toNat_lt
  have b5 := b.field5.toNat_lt
  have b6 := b.field6.toNat_lt
  unfold weigh
  omega

theorem packI128_le_iff (ha : a.Fits) (hb : b.Fits) : a.packI128 ≤ b.packI128 <-> a ≤ b := by
  rw [← not_lt, packI128_lt_iff hb ha, not_lt]

theorem packed_mem_iff (hk : k.Fits) (ha : a.Fits) (hb : b.Fits) :
    (k.packI128 : Int) ∈ (⟨(a.packI128 : Int), (b.packI128 : Int)⟩ : Range Int) <->
      k ∈ (⟨a, b⟩ : Range Key) := by
  rw [Range.mem_def, Range.mem_def]
  simp only [Nat.cast_le, Nat.cast_lt]
  rw [packI128_le_iff ha hk, packI128_lt_iff hk hb]

theorem fromI128_packI128 (h : k.Fits) : fromI128 (k.packI128 : Int) = k := by
  have hpack := h.packI128_eq
  rcases k with ⟨f1, f2, f3, f4, f5, f6⟩
  rcases h with ⟨h1, h2⟩
  have b3 := f3.toNat_lt
  have b4 := f4.toNat_lt
  have b5 := f5.toNat_lt
  have b6 := f6.toNat_lt
  rw [hpack]
  simp only [weigh, fromI128, mk.injEq] at h1 h2 ⊢
  simp only [← UInt8.toNat_inj, ← UInt32.toNat_inj, UInt8.toNat_ofNat',
    UInt32.toNat_ofNat', ← Int.shiftRight_eq,
    Int.shiftRight_eq_div_pow]
  omega

theorem fromI128_packI128_cut (k : Key) :
    fromI128 (k.packI128 : Int) =
      { k with field1 := k.field1 &&& 0x7F, field2 := k.field2 &&& 0xFFFF } := by
  have hfits : Fits { k with field1 := k.field1 &&& 0x7F, field2 := k.field2 &&& 0xFFFF } := by
    constructor
    · exact (UInt8.toNat_and _ _).trans_le Nat.and_le_right
    · exact (UInt32.toNat_and _ _).trans_le Nat.and_le_right
  rw [← fromI128_packI128 hfits]
  simp only [packI128, UInt8.and_assoc, UInt32.and_assoc, UInt8.and_self, UInt32.and_self]

theorem fits_fromI128 (x : Int) : (fromI128 x).Fits := by
  constructor
  · show (UInt8.ofNat ((x.shiftRight 120).toNat % 2 ^ 7)).toNat ≤ 0x7F
    rw [UInt8.toNat_ofNat']
    omega
  · show (UInt32.ofNat ((x.shiftRight 104).toNat % 2 ^ 16)).toNat ≤ 0xFFFF
    rw [UInt32.toNat_ofNat']
    omega

/-!
## Addition

The carry of an addition goes from field to field, over all bits of the fields.  It
reaches no cut bit of a key that fits as long as the packed second field takes it.
-/

/-- The key moved up, with carries from field to field; nothing if it leaves the first one. -/
def add (k : Key) (x : UInt32) : Option Key :=
  let k := { k with field6 := k.field6 + x }
  if x ≤ k.field6 then some k
  else
    let k := { k with field5 := k.field5 + 1 }
    if k.field5 ≠ 0 then some k
    else
      let k := { k with field4 := k.field4 + 1 }
      if k.field4 ≠ 0 then some k
      else
        let k := { k with field3 := k.field3 + 1 }
        if k.field3 ≠ 0 then some k
        else
          let k := { k with field2 := k.field2 + 1 }
          if k.field2 ≠ 0 then some k
          else
            let k := { k with field1 := k.field1 + 1 }
            if k.field1 ≠ 0 then some k else none

def next (k : Key) : Option Key :=
  k.add 1

def value (k : Key) : Nat :=
  k.field1.toNat * 2 ^ 136 + k.field2.toNat * 2 ^ 104 + k.field3.toNat * 2 ^ 72 +
    k.field4.toNat * 2 ^ 40 + k.field5.toNat * 2 ^ 32 + k.field6.toNat

theorem add_cases (k : Key) (x : UInt32) :
    (exists k', k.add x = some k' ∧ k'.value = k.value + x.toNat) ∨ k.field1.toNat = 0xFF := by
  have b1 := k.field1.toNat_lt
  have b2 := k.field2.toNat_lt
  have b3 := k.field3.toNat_lt
  have b4 := k.field4.toNat_lt
  have b5 := k.field5.toNat_lt
  have b6 := k.field6.toNat_lt
  have hx := x.toNat_lt
  unfold add
  simp only [ne_eq, ← UInt8.toNat_inj, ← UInt32.toNat_inj, UInt32.le_iff_toNat_le,
    UInt8.toNat_add, UInt32.toNat_add]
  split_ifs
  all_goals
    first
    | refine .inl ⟨_, rfl, ?_⟩
    | refine .inr ?_
    simp only [value, UInt8.toNat_add, UInt32.toNat_add, UInt8.toNat_one, UInt32.toNat_one,
      UInt8.toNat_zero, UInt32.toNat_zero] at *
    omega

theorem packI128_fromI128 {n : Int} (hn : 0 ≤ n) (hlt : n < 2 ^ 127) :
    ((fromI128 n).packI128 : Int) = n := by
  rw [(fits_fromI128 n).packI128_eq]
  simp only [weigh, fromI128, UInt8.toNat_ofNat', UInt32.toNat_ofNat', ← Int.shiftRight_eq,
    Int.shiftRight_eq_div_pow]
  omega

theorem Fits.add (h : k.Fits) {x : UInt32} (hcarry : k.packI128 % 2 ^ 120 + x.toNat < 2 ^ 120) :
    exists k', k.add x = some k' ∧ k'.Fits ∧ k'.packI128 = k.packI128 + x.toNat := by
  rw [h.packI128_eq] at hcarry ⊢
  have b3 := k.field3.toNat_lt
  have b4 := k.field4.toNat_lt
  have b5 := k.field5.toNat_lt
  have b6 := k.field6.toNat_lt
  rcases h with ⟨h1, h2⟩
  unfold weigh at hcarry ⊢
  have hrest : k.field2.toNat * 2 ^ 104 + k.field3.toNat * 2 ^ 72 + k.field4.toNat * 2 ^ 40 +
      k.field5.toNat * 2 ^ 32 + k.field6.toNat + x.toNat < 2 ^ 120 := by
    omega
  clear hcarry
  rcases k.add_cases x with ⟨k', hadd, hvalue⟩ | hmax
  · have c2 := k'.field2.toNat_lt
    have c3 := k'.field3.toNat_lt
    have c4 := k'.field4.toNat_lt
    have c5 := k'.field5.toNat_lt
    have c6 := k'.field6.toNat_lt
    unfold value at hvalue
    have hfield1 : k'.field1.toNat = k.field1.toNat := by
      omega
    have hfits : k'.Fits := by
      constructor <;> omega
    refine ⟨k', hadd, hfits, ?_⟩
    rw [hfits.packI128_eq, weigh, hfield1]
    simp only [hfield1, Nat.add_assoc, Nat.add_left_cancel_iff] at hvalue ⊢
    exact hvalue
  · omega

/-- On the keys that fit, the compact form keeps the order and every addition that stays within
its bits, and unpacking is its inverse. -/
theorem toI128_embeds (ha : a.Fits) (hb : b.Fits) (x : UInt32) :
    exists p q : Int, a.toI128 = .ok p ∧ b.toI128 = .ok q ∧ (a < b <-> p < q) ∧
      fromI128 p = a ∧
      (p % 2 ^ 120 + x.toNat < 2 ^ 120 ->
        exists c, a.add x = some c ∧ c.toI128 = .ok (p + x.toNat)) ∧
      forall n : Int, 0 ≤ n -> n < 2 ^ 127 ->
        (fromI128 n).Fits ∧ (fromI128 n).toI128 = .ok n := by
  refine ⟨a.packI128, b.packI128, ha.toI128_eq, hb.toI128_eq, ?_, fromI128_packI128 ha, ?_, ?_⟩
  · rw [Int.ofNat_lt, packI128_lt_iff ha hb]
  · intro hcarry
    rcases ha.add (x := x) (by exact_mod_cast hcarry) with ⟨c, hadd, hc, hpack⟩
    refine ⟨c, hadd, ?_⟩
    rw [hc.toI128_eq, hpack, Nat.cast_add]
  · intro n hn hlt
    have hfits := fits_fromI128 n
    refine ⟨hfits, ?_⟩
    rw [hfits.toI128_eq, packI128_fromI128 hn hlt]

/-- The addition carries into the fourth field. -/
theorem toI128_embeds_carry :
    exists p c, toI128 ⟨0, 0, 0, 0, 0xFF, 0xFFFFFFFF⟩ = .ok p ∧
      add ⟨0, 0, 0, 0, 0xFF, 0xFFFFFFFF⟩ 1 = some c ∧ c.toI128 = .ok (p + 1) := by
  have hfits : (⟨0, 0, 0, 0, 0xFF, 0xFFFFFFFF⟩ : Key).Fits := by decide
  rcases toI128_embeds hfits hfits 1 with ⟨p, q, hp, -, -, -, hadd, -⟩
  have hvalue : toI128 ⟨0, 0, 0, 0, 0xFF, 0xFFFFFFFF⟩ = .ok 0xFFFFFFFFFF := by decide
  rw [hp] at hvalue
  cases hvalue
  rcases hadd (by decide) with ⟨c, hc, hcompact⟩
  exact ⟨_, c, hp, hc, hcompact⟩

/-!
## Boundaries of layers

A layer boundary is a key that fits or the largest key of all.  The largest key
packs to the same integer as the last key that fits, so a read of any other
fitting key compares with a boundary as its packing does.
-/

/-- The last key that fits; the largest key packs to the same integer. -/
def LAST_FIT : Key :=
  ⟨0x7F, 0xFFFF, 0xFFFFFFFF, 0xFFFFFFFF, 0xFF, 0xFFFFFFFF⟩

def Boundary (k : Key) : Prop :=
  k.Fits ∨ k = MAX

/-- A key whose reads the packed index answers. -/
def Searchable (k : Key) : Prop :=
  k.Fits ∧ k ≠ LAST_FIT

instance (k : Key) : Decidable k.Boundary :=
  inferInstanceAs (Decidable (_ ∨ _))

instance (k : Key) : Decidable k.Searchable :=
  inferInstanceAs (Decidable (_ ∧ _))

theorem packI128_MAX : MAX.packI128 = LAST_FIT.packI128 := by decide

theorem le_LAST_FIT (h : k.Fits) : k ≤ LAST_FIT := by
  have hlast : LAST_FIT.Fits := by decide
  rw [← packI128_le_iff h hlast, h.packI128_eq]
  rcases h with ⟨h1, h2⟩
  have b3 := k.field3.toNat_lt
  have b4 := k.field4.toNat_lt
  have b5 := k.field5.toNat_lt
  have b6 := k.field6.toNat_lt
  change _ ≤ weigh 0x7F 0xFFFF 0xFFFFFFFF 0xFFFFFFFF 0xFF 0xFFFFFFFF
  unfold weigh
  omega

theorem Boundary.toI128_eq (h : b.Boundary) : b.toI128 = .ok (b.packI128 : Int) := by
  cases h with
  | inl hfits => exact hfits.toI128_eq
  | inr hmax =>
    rw [hmax]
    decide

theorem Boundary.packed (h : b.Boundary) :
    exists k : Key, k.Fits ∧ (b.packI128 : Int) = (k.packI128 : Int) := by
  cases h with
  | inl hfits => exact ⟨b, hfits, rfl⟩
  | inr hmax => exact ⟨LAST_FIT, by decide, by rw [hmax, packI128_MAX]⟩

theorem packI128_lt_boundary (hk : k.Searchable) (hb : b.Boundary) :
    k.packI128 < b.packI128 <-> k < b := by
  cases hb with
  | inl hfits => exact packI128_lt_iff hk.1 hfits
  | inr hmax =>
    have hlast : LAST_FIT.Fits := by decide
    have hlt : k < LAST_FIT := lt_of_le_of_ne (le_LAST_FIT hk.1) hk.2
    have hltMax : LAST_FIT < MAX := by decide
    rw [hmax, packI128_MAX, packI128_lt_iff hk.1 hlast]
    exact ⟨fun _ => hlt.trans hltMax, fun _ => hlt⟩

theorem mem_range_iff_packed {r : Range Key} (hk : k.Searchable) (hstart : r.start.Boundary)
    (hstop : r.stop.Boundary) :
    (k.packI128 : Int) ∈ (⟨(r.start.packI128 : Int), (r.stop.packI128 : Int)⟩ : Range Int) <->
      k ∈ r := by
  rw [Range.mem_def, Range.mem_def]
  simp only [Nat.cast_le, Nat.cast_lt]
  rw [packI128_lt_boundary hk hstop, ← not_lt, packI128_lt_boundary hk hstart, not_lt]

end Key
end Pageserver
end OpenNeon

import OpenNeon.Base.Bytes

/-!
# The next transaction id of a checkpoint

A transaction id in the WAL has 32 bits and wraps around.  The checkpoint keeps the next
one with an epoch in the upper half of 64 bits.  It is moved in steps of an interval, so
that few records change the checkpoint.
-/

namespace OpenNeon
namespace PostgresFfi

open Base

def FIRST_NORMAL_TRANSACTION_ID : UInt32 := 3

def XID_CHECKPOINT_INTERVAL : UInt32 := 1024

structure CheckPoint where
  nextXid : UInt64
  deriving DecidableEq

namespace CheckPoint

/-- Where an id moves the counter to: after the id, not at a special id, and then forward
to the next multiple of the interval. -/
def alignXid (xid : UInt32) : UInt32 :=
  let newXid := max (xid + 1) FIRST_NORMAL_TRANSACTION_ID
  (newXid + (XID_CHECKPOINT_INTERVAL - 1)) &&& ~~~(XID_CHECKPOINT_INTERVAL - 1)

/-- An id that is ahead of the counter, with its epoch. -/
def withEpoch (fullXid : UInt64) (newXid : UInt32) : UInt64 :=
  let epoch := fullXid >>> 32
  -- wrap-around
  let epoch := if newXid < fullXid.toUInt32 then epoch + 1 else epoch
  (epoch <<< 32) ||| newXid.toUInt64

variable (c : CheckPoint)

section

variable (xid : UInt32)

/-- Also tells whether the checkpoint was changed. -/
def updateNextXid : CheckPoint × Bool :=
  let newXid := alignXid xid
  let fullXid := c.nextXid
  let oldXid := fullXid.toUInt32
  if (newXid - oldXid).toInt32 > 0 then
    let nextXid := withEpoch fullXid newXid
    if nextXid ≠ c.nextXid then ({ c with nextXid := nextXid }, true) else (c, false)
  else (c, false)

/-!
## One update as arithmetic
-/

def low : Nat := c.nextXid.toNat % 2 ^ 32

def epoch : Nat := c.nextXid.toNat / 2 ^ 32

theorem and_interval (a : UInt32) :
    (a &&& ~~~(XID_CHECKPOINT_INTERVAL - 1)).toNat = a.toNat / 1024 * 1024 := by
  have hmask : (~~~(XID_CHECKPOINT_INTERVAL - 1)).toNat = (2 ^ 22 - 1) <<< 10 := by decide
  have hlt := a.toNat_lt
  rw [UInt32.toNat_and, hmask, ← Nat.shiftRight_eq_div_pow a.toNat 10, ← Nat.shiftLeft_eq _ 10]
  refine Nat.eq_of_testBit_eq (fun i => ?_)
  rw [Nat.testBit_and, Nat.testBit_shiftLeft, Nat.testBit_two_pow_sub_one]
  by_cases hi : 10 ≤ i
  · have hshift : 10 + (i - 10) = i := by omega
    by_cases hbit : i < 32
    · simp [hi, show i - 10 < 22 by omega]
    · have hzero : a.toNat.testBit i = false :=
        Nat.testBit_lt_two_pow (hlt.trans_le (Nat.pow_le_pow_right (by decide) (not_lt.mp hbit)))
      simp [hzero, hshift]
  · simp [hi]

theorem alignXid_spec (hxid : 3 ≤ xid.toNat) :
    xid.toNat < 2 ^ 32 - 1024 ∧ xid.toNat < (alignXid xid).toNat ∧
        (alignXid xid).toNat ≤ xid.toNat + 1024 ∨
      2 ^ 32 - 1024 ≤ xid.toNat ∧ xid.toNat < 2 ^ 32 - 1 ∧ (alignXid xid).toNat = 0 ∨
      xid.toNat = 2 ^ 32 - 1 ∧ (alignXid xid).toNat = 1024 := by
  have hmax : (max (xid + 1) FIRST_NORMAL_TRANSACTION_ID).toNat =
      max ((xid.toNat + 1) % 2 ^ 32) 3 := by
    have hadd : (xid + 1).toNat = (xid.toNat + 1) % 2 ^ 32 := UInt32.toNat_add xid 1
    rw [← hadd, max_def]
    change (if (xid + 1).toNat ≤ 3 then _ else _ : UInt32).toNat = _
    split
    · rfl
    · rfl
  have halign : (alignXid xid).toNat =
      (max ((xid.toNat + 1) % 2 ^ 32) 3 + 1023) % 2 ^ 32 / 1024 * 1024 := by
    unfold alignXid
    rw [and_interval, UInt32.toNat_add, hmax]
    rfl
  have hlt := xid.toNat_lt
  rcases Nat.lt_or_ge xid.toNat (2 ^ 32 - 1) with hsucc | hlast
  · omega
  · have heq : xid.toNat = 2 ^ 32 - 1 := by omega
    rw [heq] at halign
    exact .inr (.inr ⟨heq, halign⟩)

theorem toInt_toInt32 (a : UInt32) : a.toInt32.toInt = (a.toNat : Int).bmod (2 ^ 32) :=
  BitVec.toInt_eq_toNat_bmod a.toBitVec

theorem toInt32_pos_iff (a : UInt32) : a.toInt32 > 0 <-> 0 < a.toNat ∧ a.toNat < 2 ^ 31 := by
  have hlt := a.toNat_lt
  rw [gt_iff_lt, Int32.lt_iff_toInt_lt, toInt_toInt32, Int.bmod_def]
  change 0 < _ <-> _
  omega

def advance : Nat :=
  let distance := ((alignXid xid).toNat + 2 ^ 32 - c.low) % 2 ^ 32
  if distance < 2 ^ 31 then distance else 0

theorem advance_cases :
    c.advance xid < 2 ^ 31 ∧ c.advance xid = ((alignXid xid).toNat + 2 ^ 32 - c.low) % 2 ^ 32 ∨
      c.advance xid = 0 ∧ 2 ^ 31 ≤ ((alignXid xid).toNat + 2 ^ 32 - c.low) % 2 ^ 32 := by
  unfold advance
  simp only
  split
  next hlt => exact .inl ⟨hlt, rfl⟩
  next hge => exact .inr ⟨rfl, not_lt.mp hge⟩

theorem toNat_withEpoch (fullXid : UInt64) (newXid : UInt32) :
    (withEpoch fullXid newXid).toNat =
      (fullXid.toNat / 2 ^ 32 * 2 ^ 32 + newXid.toNat +
        if newXid.toNat < fullXid.toNat % 2 ^ 32 then 2 ^ 32 else 0) % 2 ^ 64 := by
  have hnew := newXid.toNat_lt
  have hshift : (fullXid >>> 32).toNat = fullXid.toNat / 2 ^ 32 := by
    rw [UInt64.toNat_shiftRight, Nat.shiftRight_eq_div_pow]
    rfl
  unfold withEpoch
  simp only [UInt64.toNat_or, UInt64.toNat_shiftLeft, UInt32.toNat_toUInt64]
  change (_ <<< 32 % 2 ^ 64) ||| _ = _
  rw [Nat.shiftLeft_eq, or_eq_add (i := 32) (by omega) hnew]
  simp only [UInt32.lt_iff_toNat_lt, UInt64.toNat_toUInt32]
  split
  · rw [UInt64.toNat_add, hshift]
    change (_ / _ + 1) % 2 ^ 64 * _ % _ + _ = _
    omega
  · omega

theorem nextXid_updateNextXid :
    (c.updateNextXid xid).1.nextXid.toNat = (c.nextXid.toNat + c.advance xid) % 2 ^ 64 := by
  have hnext := c.nextXid.toNat_lt
  have hdist : (alignXid xid - c.nextXid.toUInt32).toNat =
      ((alignXid xid).toNat + 2 ^ 32 - c.low) % 2 ^ 32 := by
    have hlt : c.low < 2 ^ 32 := Nat.mod_lt _ (by decide)
    rw [UInt32.toNat_sub]
    change (2 ^ 32 - c.low + _) % _ = _
    omega
  unfold updateNextXid advance
  simp only [toInt32_pos_iff, hdist]
  generalize hd : ((alignXid xid).toNat + 2 ^ 32 - c.low) % 2 ^ 32 = d at *
  by_cases hmove : 0 < d ∧ d < 2 ^ 31
  · rw [if_pos hmove, if_pos hmove.2]
    have hnew : (withEpoch c.nextXid (alignXid xid)).toNat = (c.nextXid.toNat + d) % 2 ^ 64 := by
      have hlt := (alignXid xid).toNat_lt
      rw [toNat_withEpoch]
      unfold low at hd
      split
      · omega
      · omega
    split
    · exact hnew
    next heq => rw [← hnew, not_not.mp heq]
  · rw [if_neg hmove]
    have hzero : (if d < 2 ^ 31 then d else 0) = 0 := by
      split
      · omega
      · rfl
    rw [hzero, Nat.add_zero, Nat.mod_eq_of_lt hnext]

/-!
## Ids near the counter
-/

/-- The id is a normal one, and near enough to the counter for the order of ids that wrap
around: the counter can still pass it by an interval, or is less than half a cycle past it. -/
def InWindow : Prop :=
  FIRST_NORMAL_TRANSACTION_ID ≤ xid ∧
    ((xid - c.nextXid.toUInt32).toNat < 2 ^ 31 - XID_CHECKPOINT_INTERVAL.toNat ∨
      (c.nextXid.toUInt32 - xid).toNat < 2 ^ 31)

end

instance (c : CheckPoint) (xid : UInt32) : Decidable (c.InWindow xid) :=
  inferInstanceAs (Decidable (_ ∧ _))

/-- The id with the epoch that brings it nearest to the counter. -/
def fullXid (xid : UInt32) : Int :=
  c.nextXid.toNat + (xid - c.nextXid.toUInt32).toInt32.toInt

/-- The id is not one of those in the last interval before the wrap-around that take the
counter to zero, nor the last one of all just out of reach, and the epoch can advance. -/
def Advanceable (xid : UInt32) : Prop :=
  (xid.toNat < 2 ^ 32 - 1024 ∨ xid.toNat = 2 ^ 32 - 1 ∧ c.low ≠ 2 ^ 31 + 1024 ∨ c.low ≤ 2 ^ 31) ∧
    c.nextXid.toNat < 2 ^ 64 - 2 ^ 31

instance (c : CheckPoint) (xid : UInt32) : Decidable (c.Advanceable xid) :=
  inferInstanceAs (Decidable (_ ∧ _))

/-- The counter passed the id, forward and to a normal id; its epoch counts wrap-arounds. -/
structure Advanced (c : CheckPoint) (xid : UInt32) (c' : CheckPoint) : Prop where
  le : c.nextXid.toNat ≤ c'.nextXid.toNat
  ahead : c.fullXid xid < c'.nextXid.toNat
  epoch : c'.epoch = c.epoch + if c'.low < c.low then 1 else 0
  normal : FIRST_NORMAL_TRANSACTION_ID.toNat ≤ c'.low

theorem fullXid_eq (xid : UInt32) :
    c.fullXid xid = c.nextXid.toNat +
      Int.bmod ((2 ^ 32 - c.low + xid.toNat) % 2 ^ 32 : Nat) (2 ^ 32) := by
  rw [fullXid, toInt_toInt32]
  rfl

theorem updateNextXid_advanced {c : CheckPoint} {xid : UInt32}
    (hnormal : FIRST_NORMAL_TRANSACTION_ID.toNat ≤ c.low) (hwindow : c.InWindow xid)
    (hadvance : c.Advanceable xid) : Advanced c xid (c.updateNextXid xid).1 := by
  obtain ⟨hxid, hnear⟩ := hwindow
  obtain ⟨hlast, hepoch⟩ := hadvance
  have halign := alignXid_spec xid hxid
  have hfull := fullXid_eq c xid
  change 3 ≤ xid.toNat at hxid
  change 3 ≤ c.low at hnormal
  change (2 ^ 32 - c.low + xid.toNat) % 2 ^ 32 < 2 ^ 31 - 1024 ∨
    (2 ^ 32 - xid.toNat + c.low) % 2 ^ 32 < 2 ^ 31 at hnear
  have hdef : c.low = c.nextXid.toNat % 2 ^ 32 := rfl
  have hdist := advance_cases c xid
  have hsum : (c.updateNextXid xid).1.nextXid.toNat = c.nextXid.toNat + c.advance xid :=
    (nextXid_updateNextXid c xid).trans (Nat.mod_eq_of_lt (by omega))
  -- the counter moves past the id, in cycles of the 32-bit counter
  have hahead : c.fullXid xid < c.nextXid.toNat + c.advance xid ∧
      3 ≤ (c.nextXid.toNat + c.advance xid) % 2 ^ 32 := by
    rw [hfull, Int.bmod_def]
    rcases halign with halign | halign | halign
    · omega
    · omega
    · omega
  refine ⟨by omega, by rw [hsum]; exact_mod_cast hahead.1, ?_, ?_⟩
  · unfold epoch low
    split
    · omega
    · omega
  · change 3 ≤ (c.updateNextXid xid).1.nextXid.toNat % 2 ^ 32
    rw [hsum]
    exact hahead.2

/-- Updates with ids near the counter, none at the wrap-around; the last id passed comes first. -/
inductive Updates (start : CheckPoint) : List Int -> CheckPoint -> Prop where
  | nil : Updates start [] start
  | next {passed : List Int} {c : CheckPoint} {x : UInt32} (h : Updates start passed c)
      (hwindow : c.InWindow x) (hadvance : c.Advanceable x) :
      Updates start (c.fullXid x :: passed) (c.updateNextXid x).1

theorem Updates.normal {start c : CheckPoint} {passed : List Int} (h : Updates start passed c)
    (hstart : FIRST_NORMAL_TRANSACTION_ID.toNat ≤ start.low) :
    FIRST_NORMAL_TRANSACTION_ID.toNat ≤ c.low := by
  induction h with
  | nil => exact hstart
  | next h hwindow hadvance ih => exact (updateNextXid_advanced ih hwindow hadvance).normal

/-- The counter never goes back, is ahead of every id passed so far and never at a special
id, and the next update counts a wrap-around in the epoch. -/
theorem nextXid_ahead_of_passed {start c : CheckPoint} {passed : List Int}
    (h : Updates start passed c) (hstart : FIRST_NORMAL_TRANSACTION_ID.toNat ≤ start.low) :
    start.nextXid.toNat ≤ c.nextXid.toNat ∧ FIRST_NORMAL_TRANSACTION_ID.toNat ≤ c.low ∧
      (forall x, x ∈ passed -> x < c.nextXid.toNat) ∧
      forall xid, c.InWindow xid -> c.Advanceable xid ->
        Advanced c xid (c.updateNextXid xid).1 := by
  have hnormal := h.normal hstart
  refine ⟨?_, hnormal, ?_, fun xid => updateNextXid_advanced hnormal⟩
  · induction h with
    | nil => exact le_refl _
    | next h hwindow hadvance ih =>
      have hprev := h.normal hstart
      exact (ih hprev).trans (updateNextXid_advanced hprev hwindow hadvance).le
  · induction h with
    | nil => nofun
    | next h hwindow hadvance ih =>
      have hprev := h.normal hstart
      have hstep := updateNextXid_advanced hprev hwindow hadvance
      intro x hx
      cases hx with
      | head => exact hstep.ahead
      | tail _ hx => exact (ih hprev x hx).trans_le (Int.ofNat_le.mpr hstep.le)

/-- One update up to the last multiple before the wrap-around, one across it. -/
theorem nextXid_ahead_of_passed_wrapped :
    Updates ⟨0xFFFFF000⟩ [0x100000005, 0xFFFFFBFF] ⟨0x100000400⟩ ∧
      forall x, x ∈ [0x100000005, 0xFFFFFBFF] -> x < (0x100000400 : Int) := by
  have h : Updates ⟨0xFFFFF000⟩ [0x100000005, 0xFFFFFBFF] ⟨0x100000400⟩ :=
    .next (x := 5) (.next (x := 0xFFFFFBFF) .nil (by decide +kernel) (by decide +kernel))
      (by decide +kernel) (by decide +kernel)
  exact ⟨h, (nextXid_ahead_of_passed h (by decide +kernel)).2.2.1⟩

/-- An id of the last interval takes the counter to the invalid id. -/
theorem updateNextXid_invalid :
    FIRST_NORMAL_TRANSACTION_ID.toNat ≤ low ⟨0xFFFFFFF0⟩ ∧ InWindow ⟨0xFFFFFFF0⟩ 0xFFFFFFF5 ∧
      updateNextXid ⟨0xFFFFFFF0⟩ 0xFFFFFFF5 = (⟨0x100000000⟩, true) ∧ low ⟨0x100000000⟩ = 0 := by
  decide +kernel

end CheckPoint
end PostgresFfi
end OpenNeon

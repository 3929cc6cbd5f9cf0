import OpenNeon.Base.Run
import OpenNeon.Pageserver.Key

/-!
# Key spaces

The accumulator collects key ranges that arrive in increasing order.  A range
that starts where the last one ends is merged into it.
-/

namespace OpenNeon
namespace Pageserver

open Base

/-!
## Size of a range
-/

/-- The keys of the range belong to one relation, or to the block before it. -/
def isContiguousRange (range : Range Key) : Bool :=
  range.start.field1 == range.stop.field1 && range.start.field2 == range.stop.field2
    && range.start.field3 == range.stop.field3
    && range.start.field4 == range.stop.field4
    && (range.start.field5 == range.stop.field5
      || (range.start.field6 == 0xFFFFFFFF && range.start.field5 + 1 == range.stop.field5))

def contiguousRangeLen (range : Range Key) : UInt32 :=
  if range.start.field6 == 0xFFFFFFFF then range.stop.field6 + 1
  else range.stop.field6 - range.start.field6

def rawSize (range : Range Key) : UInt32 :=
  if isContiguousRange range then contiguousRangeLen range else 0xFFFFFFFF

/-!
## The accumulator
-/

structure KeySpace where
  ranges : List (Range Key)

structure KeySpaceAccum where
  accum : Option (Range Key)
  ranges : List (Range Key)
  size : UInt64

namespace KeySpaceAccum

def new : KeySpaceAccum :=
  { accum := none, ranges := [], size := 0 }

variable (a : KeySpaceAccum)

def addRange (range : Range Key) : Except Panic KeySpaceAccum :=
  let size := a.size + (rawSize range).toUInt64
  match a.accum with
  | some accum =>
    if range.start = accum.stop then
      .ok { a with size := size, accum := some ⟨accum.start, range.stop⟩ }
    else if range.start > accum.stop then
      .ok { size := size, ranges := a.ranges ++ [accum], accum := some range }
    else .error .keySpaceNotIncreasing
  | none => .ok { a with size := size, accum := some range }

def toKeyspace : KeySpace :=
  { ranges := a.ranges ++ a.accum.toList }

def hits (key : Key) : Nat :=
  a.toKeyspace.ranges.countP (fun r => key ∈ r)

/-- The open range is not empty and ends at or before a key. -/
def EndsBy (key : Key) : Prop :=
  forall r, a.accum = some r -> r.start < r.stop ∧ r.stop ≤ key

theorem endsBy_new (key : Key) : new.EndsBy key := by
  intro r hr
  cases hr

theorem EndsBy.mono {a : KeySpaceAccum} {key key' : Key} (h : a.EndsBy key)
    (hle : key ≤ key') : a.EndsBy key' := by
  intro r hr
  exact ⟨(h r hr).1, (h r hr).2.trans hle⟩

@[simp] theorem hits_new (key : Key) : new.hits key = 0 := rfl

theorem addRange_spec {a : KeySpaceAccum} {range : Range Key}
    (hends : a.EndsBy range.start) (hrange : range.start < range.stop) :
    exists a', a.addRange range = .ok a' ∧ a'.EndsBy range.stop ∧
      forall key, a'.hits key = a.hits key + if key ∈ range then 1 else 0 := by
  cases haccum : a.accum with
  | none =>
    refine ⟨{ a with
        size := a.size + (rawSize range).toUInt64, accum := some range },
      by simp [addRange, haccum], ?_, ?_⟩
    · intro r hr
      cases hr
      exact ⟨hrange, le_refl _⟩
    · intro key
      simp [hits, toKeyspace, haccum]
  | some last =>
    rcases hends last haccum with ⟨hlast, hle⟩
    by_cases heq : range.start = last.stop
    · -- the new range continues the last one
      refine ⟨{ a with
          size := a.size + (rawSize range).toUInt64
          accum := some ⟨last.start, range.stop⟩ },
        by simp [addRange, haccum, heq], ?_, ?_⟩
      · intro r hr
        cases hr
        exact ⟨hlast.trans_le (hle.trans (le_of_lt hrange)), le_refl _⟩
      · intro key
        have hsplit : (if key ∈ (⟨last.start, range.stop⟩ : Range Key) then 1
            else 0) = (if key ∈ last then 1 else 0) +
              (if key ∈ range then 1 else 0) := by
          simp only [Range.mem_def, heq]
          by_cases h1 : key < last.stop
          · have h2 : key < range.stop := h1.trans_le (hle.trans (le_of_lt hrange))
            simp [h1, h2]
          · have h3 : last.start ≤ key :=
              (le_of_lt hlast).trans (not_lt.mp h1)
            simp [h3, not_lt.mp h1]
        simp only [hits, toKeyspace, haccum, List.countP_append,
          Option.toList_some, List.countP_singleton]
        lia
    · have hlt : last.stop < range.start := lt_of_le_of_ne hle (Ne.symm heq)
      refine ⟨{ size := a.size + (rawSize range).toUInt64
                ranges := a.ranges ++ [last]
                accum := some range },
        by simp [addRange, haccum, heq, hlt], ?_, ?_⟩
      · intro r hr
        cases hr
        exact ⟨hrange, le_refl _⟩
      · intro key
        simp only [hits, toKeyspace, haccum, List.countP_append,
          Option.toList_some, List.countP_singleton, decide_eq_true_eq]

end KeySpaceAccum
end Pageserver
end OpenNeon

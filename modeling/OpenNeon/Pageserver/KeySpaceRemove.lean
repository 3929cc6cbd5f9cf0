import OpenNeon.Pageserver.KeySpace
import Mathlib.Data.List.TakeWhile

/-!
# Removing one key space from another

A key space is a sorted list of disjoint ranges.  The ranges of another one are removed
from it one by one: while some range overlaps, the last such range is cut, split or
dropped, and what it loses is collected.
-/

namespace OpenNeon
namespace Pageserver

open Base List

/-!
## Sorted lists of ranges
-/

section Ranges

variable {alpha : Type} [LinearOrder alpha] {l pre post : List (Range alpha)} {r o : Range alpha}
  {k : alpha}

def NonEmpty (l : List (Range alpha)) : Prop :=
  forall r, r ∈ l -> r.start < r.stop

structure SortedRanges (l : List (Range alpha)) : Prop where
  nonempty : NonEmpty l
  sorted : l.Pairwise (fun a b => a.stop ≤ b.start)

theorem sortedRanges_nil : SortedRanges ([] : List (Range alpha)) :=
  ⟨forall_mem_nil _, List.Pairwise.nil⟩

theorem sortedRanges_singleton (h : r.start < r.stop) : SortedRanges [r] :=
  ⟨forall_mem_singleton.mpr h, pairwise_singleton _ _⟩

def Holds (l : List (Range alpha)) (k : alpha) : Prop :=
  exists r, r ∈ l ∧ k ∈ r

@[simp] theorem holds_nil : Not (Holds [] k) := by
  simp [Holds]

@[simp] theorem holds_cons : Holds (r :: l) k <-> k ∈ r ∨ Holds l k := by
  simp [Holds]

@[simp] theorem holds_append : Holds (pre ++ post) k <-> Holds pre k ∨ Holds post k := by
  simp [Holds, or_and_right, exists_or]

def Overlap (o r : Range alpha) : Prop :=
  o.start < r.stop ∧ r.start < o.stop

instance decidableOverlap (o r : Range alpha) : Decidable (Overlap o r) :=
  inferInstanceAs (Decidable (_ ∧ _))

theorem not_mem_of_not_overlap (h : Not (Overlap o r)) (hk : k ∈ o) : k ∉ r :=
  fun hr => h ⟨hk.1.trans_lt hr.2, hr.1.trans_lt hk.2⟩

/-- What is left of a range without the values of another. -/
def remains (o r : Range alpha) : List (Range alpha) :=
  (if o.start < r.start then [⟨o.start, r.start⟩] else []) ++
    if r.stop < o.stop then [⟨r.stop, o.stop⟩] else []

theorem remains_cases {x : Range alpha} (h : x ∈ remains o r) :
    o.start < r.start ∧ x = ⟨o.start, r.start⟩ ∨ r.stop < o.stop ∧ x = ⟨r.stop, o.stop⟩ := by
  unfold remains at h
  split at h <;> split at h <;> simp_all

theorem holds_remains (h : Overlap o r) : Holds (remains o r) k <-> k ∈ o ∧ k ∉ r := by
  constructor
  · rintro ⟨x, hx, hk⟩
    rcases remains_cases hx with ⟨hlt, rfl⟩ | ⟨hlt, rfl⟩
    · exact ⟨⟨hk.1, hk.2.trans h.2⟩, fun hr => not_lt.mpr hr.1 hk.2⟩
    · exact ⟨⟨h.1.le.trans hk.1, hk.2⟩, fun hr => not_lt.mpr hk.1 hr.2⟩
  · rintro ⟨ho, hr⟩
    unfold remains
    rcases lt_or_ge k r.start with hlt | hge
    · simp [ho.1.trans_lt hlt, Range.mem_def, ho.1, hlt]
    · have hafter : r.stop ≤ k := not_lt.mp (fun hlt => hr ⟨hge, hlt⟩)
      simp [hafter.trans_lt ho.2, Range.mem_def, hafter, ho.2]

theorem SortedRanges.replace (h : SortedRanges (pre ++ o :: post)) {l : List (Range alpha)}
    (hl : SortedRanges l) (hlow : forall x, x ∈ l -> o.start ≤ x.start)
    (hhigh : forall x, x ∈ l -> forall y, y ∈ post -> x.stop ≤ y.start) :
    SortedRanges (pre ++ (l ++ post)) := by
  obtain ⟨hpre, hrest, hcross⟩ := pairwise_append.mp h.sorted
  constructor
  · intro x hx
    simp only [mem_append] at hx
    rcases hx with hx | hx | hx
    · exact h.nonempty x (by simp [hx])
    · exact hl.nonempty x hx
    · exact h.nonempty x (by simp [hx])
  · refine pairwise_append.mpr
      ⟨hpre, pairwise_append.mpr ⟨hl.sorted, (pairwise_cons.mp hrest).2, hhigh⟩, ?_⟩
    intro a ha b hb
    rcases mem_append.mp hb with hb | hb
    · exact (hcross a ha o mem_cons_self).trans (hlow b hb)
    · exact hcross a ha b (mem_cons_of_mem _ hb)

theorem SortedRanges.cut (h : SortedRanges (pre ++ o :: post)) (hr : r.start < r.stop)
    (hover : Overlap o r) : SortedRanges (pre ++ (remains o r ++ post)) := by
  have hafter := (pairwise_cons.mp (pairwise_append.mp h.sorted).2.1).1
  refine h.replace ⟨fun x hx => ?_, ?_⟩ (fun x hx => ?_) (fun x hx y hy => ?_)
  · rcases remains_cases hx with ⟨hlt, rfl⟩ | ⟨hlt, rfl⟩ <;> exact hlt
  · unfold remains
    split <;> split <;> simp [hr.le]
  · rcases remains_cases hx with ⟨-, rfl⟩ | ⟨-, rfl⟩
    · exact le_refl _
    · exact hover.1.le
  · rcases remains_cases hx with ⟨-, rfl⟩ | ⟨-, rfl⟩
    · exact hover.2.le.trans (hafter y hy)
    · exact hafter y hy

def startingBefore (l : List (Range alpha)) (bound : alpha) : List (Range alpha) :=
  l.takeWhile (fun r => decide (r.start < bound))

theorem SortedRanges.startingBefore (h : SortedRanges l) (bound : alpha) :
    exists high, l = startingBefore l bound ++ high ∧
      (forall r, r ∈ startingBefore l bound -> r.start < bound) ∧
      forall r, r ∈ high -> bound ≤ r.start := by
  unfold Pageserver.startingBefore
  induction l with
  | nil => exact ⟨[], by simp⟩
  | cons a l ih =>
    obtain ⟨hafter, hsorted⟩ := pairwise_cons.mp h.sorted
    obtain ⟨hne, hnes⟩ := forall_mem_cons.mp h.nonempty
    by_cases ha : a.start < bound
    · obtain ⟨high, heq, hlow, hhigh⟩ := ih ⟨hnes, hsorted⟩
      rw [takeWhile_cons_of_pos (by simpa using ha)]
      exact ⟨high, congrArg (a :: ·) heq, forall_mem_cons.mpr ⟨ha, hlow⟩, hhigh⟩
    · rw [takeWhile_cons_of_neg (by simpa using ha)]
      refine ⟨a :: l, rfl, by simp, forall_mem_cons.mpr ⟨not_lt.mp ha, fun r hr => ?_⟩⟩
      exact (not_lt.mp ha).trans (hne.le.trans (hafter r hr))

end Ranges

/-!
## Collecting ranges in any order
-/

structure KeySpaceRandomAccum where
  ranges : List (Range Key)

namespace KeySpaceRandomAccum

def new : KeySpaceRandomAccum := { ranges := [] }

variable (a : KeySpaceRandomAccum)

def addRange (range : Range Key) : KeySpaceRandomAccum :=
  { a with ranges := a.ranges ++ [range] }

/-- One turn of the loop over the sorted ranges: the finished ones and the current one. -/
def join (acc : List (Range Key) × Range Key) (r : Range Key) :
    Except Panic (List (Range Key) × Range Key) :=
  if r.start < acc.2.start then .error .keySpaceNotIncreasing
  else if acc.2.stop < r.start then .ok (acc.1 ++ [acc.2], r)
  else if acc.2.stop < r.stop then .ok (acc.1, ⟨acc.2.start, r.stop⟩)
  else .ok acc

def byStart (x y : Range Key) : Bool :=
  decide (x.start ≤ y.start)

def toKeyspace : Except Panic KeySpace :=
  let sorted := a.ranges.mergeSort byStart
  match sorted with
  | [] => .ok { ranges := [] }
  | first :: _ => do
    let (ranges, last) <- sorted.foldlM join ([], first)
    .ok { ranges := ranges ++ [last] }

theorem join_spec {acc : List (Range Key) × Range Key} {r : Range Key}
    (hsorted : SortedRanges (acc.1 ++ [acc.2])) (hr : r.start < r.stop)
    (hle : acc.2.start ≤ r.start) :
    exists acc', join acc r = .ok acc' ∧ SortedRanges (acc'.1 ++ [acc'.2]) ∧
      acc'.2.start ≤ r.start ∧
      forall k, Holds (acc'.1 ++ [acc'.2]) k <-> Holds (acc.1 ++ [acc.2]) k ∨ k ∈ r := by
  obtain ⟨ranges, last⟩ := acc
  have hlast := hsorted.nonempty last (by simp)
  unfold join
  rw [if_neg (not_lt.mpr hle)]
  split
  next hgap =>
    have hpair : SortedRanges [last, r] := ⟨by simp [NonEmpty, hlast, hr], by simpa using hgap.le⟩
    have hjoined := hsorted.replace hpair (by simpa using hle) (by simp)
    exact ⟨_, rfl, by simpa using hjoined, le_refl _, by simp [or_assoc]⟩
  next htouch =>
    split
    next hlonger =>
      have hone := sortedRanges_singleton (r := ⟨last.start, r.stop⟩) (hlast.trans hlonger)
      have hjoined := hsorted.replace hone (by simp) (by simp)
      refine ⟨_, rfl, by simpa using hjoined, hle, fun k => ?_⟩
      simp only [holds_append, holds_cons, Range.mem_def]
      grind
    · refine ⟨_, rfl, hsorted, hle, fun k => ?_⟩
      simp only [holds_append, holds_cons, Range.mem_def]
      grind

theorem joins_spec {rs : List (Range Key)} (acc : List (Range Key) × Range Key) (hrs : NonEmpty rs)
    (horder : rs.Pairwise (fun a b => a.start ≤ b.start))
    (hsorted : SortedRanges (acc.1 ++ [acc.2])) (hle : forall r, r ∈ rs -> acc.2.start ≤ r.start) :
    exists acc', rs.foldlM join acc = .ok acc' ∧ SortedRanges (acc'.1 ++ [acc'.2]) ∧
      forall k, Holds (acc'.1 ++ [acc'.2]) k <-> Holds (acc.1 ++ [acc.2]) k ∨ Holds rs k := by
  induction rs generalizing acc with
  | nil => exact ⟨acc, rfl, hsorted, by simp⟩
  | cons r rs ih =>
    obtain ⟨hbefore, horder⟩ := pairwise_cons.mp horder
    obtain ⟨next, hjoin, hsorted, hnext, hkeys⟩ :=
      join_spec hsorted (hrs r mem_cons_self) (hle r mem_cons_self)
    obtain ⟨last, hrun, hsorted, hrest⟩ := ih next (fun x hx => hrs x (mem_cons_of_mem _ hx)) horder
      hsorted (fun x hx => hnext.trans (hbefore x hx))
    refine ⟨last, ?_, hsorted, fun k => ?_⟩
    · rw [foldlM_cons, hjoin]
      exact hrun
    · rw [hrest, hkeys, holds_cons, or_assoc]

theorem toKeyspace_spec (hne : NonEmpty a.ranges) :
    exists s, a.toKeyspace = .ok s ∧ SortedRanges s.ranges ∧
      forall k, Holds s.ranges k <-> Holds a.ranges k := by
  have hperm := mergeSort_perm a.ranges byStart
  have horder : (a.ranges.mergeSort byStart).Pairwise (fun x y => x.start ≤ y.start) := by
    refine (pairwise_mergeSort (fun x y z hxy hyz => ?_) (fun x y => ?_) a.ranges).imp
      of_decide_eq_true
    · exact decide_eq_true ((of_decide_eq_true hxy).trans (of_decide_eq_true hyz))
    · simpa [byStart] using le_total _ _
  have hkeys : forall k, Holds (a.ranges.mergeSort byStart) k <-> Holds a.ranges k :=
    fun k => exists_congr fun r => and_congr_left' hperm.mem_iff
  unfold toKeyspace
  generalize a.ranges.mergeSort byStart = sorted at *
  cases sorted with
  | nil => exact ⟨_, rfl, sortedRanges_nil, hkeys⟩
  | cons first rest =>
    have hall : NonEmpty (first :: rest) := fun r hr => hne r (hperm.mem_iff.mp hr)
    have hfirst : forall r, r ∈ first :: rest -> first.start ≤ r.start := by
      exact forall_mem_cons.mpr ⟨le_refl _, fun r hr => (pairwise_cons.mp horder).1 r hr⟩
    obtain ⟨acc, hrun, hsorted, hspec⟩ := joins_spec ([], first) hall horder
      (sortedRanges_singleton (hall first mem_cons_self)) hfirst
    refine ⟨⟨acc.1 ++ [acc.2]⟩, ?_, hsorted, fun k => ?_⟩
    · simp only [hrun]
      rfl
    · rw [hspec, ← hkeys]
      simp

end KeySpaceRandomAccum

/-!
## Removing
-/

namespace KeySpace

def start (s : KeySpace) : Option Key :=
  s.ranges.head?.map Range.start

def stop (s : KeySpace) : Option Key :=
  s.ranges.getLast?.map Range.stop

/-- The last overlapping range, by how many ranges start before the end of the given one. -/
def overlapsAt (s : KeySpace) (range : Range Key) : Option Nat :=
  match (startingBefore s.ranges range.stop).length with
  | 0 => none
  | index + 1 =>
    match s.ranges[index]? with
    | none => none
    | some r => if range.start < r.stop then some index else none

/-- One turn: the range that overlaps loses its higher, lower or middle part, or all of it. -/
def removeAt (s : KeySpace) (range : Range Key) (overlapAt : Nat) (overlapped : Range Key) :
    KeySpace × Range Key :=
  if overlapped.start < range.start ∧ overlapped.stop ≤ range.stop then
    ({ ranges := s.ranges.set overlapAt ⟨overlapped.start, range.start⟩ },
      ⟨range.start, overlapped.stop⟩)
  else if range.start ≤ overlapped.start ∧ range.stop < overlapped.stop then
    ({ ranges := s.ranges.set overlapAt ⟨range.stop, overlapped.stop⟩ },
      ⟨overlapped.start, range.stop⟩)
  else if overlapped.start < range.start ∧ range.stop < overlapped.stop then
    ({ ranges := (s.ranges.set overlapAt ⟨overlapped.start, range.start⟩).insertIdx
        (overlapAt + 1) ⟨range.stop, overlapped.stop⟩ }, range)
  else
    ({ ranges := s.ranges.eraseIdx overlapAt }, overlapped)

/-- The inner loop; nothing if it has not ended after the given turns. -/
def removeLoop (range : Range Key) : Nat -> KeySpace -> KeySpaceRandomAccum ->
    Option (KeySpace × KeySpaceRandomAccum)
  | 0, _, _ => none
  | turns + 1, s, removedAccum =>
    match s.overlapsAt range with
    | none => some (s, removedAccum)
    | some overlapAt =>
      match s.ranges[overlapAt]? with
      | none => none
      | some overlapped =>
        let (s, removed) := s.removeAt range overlapAt overlapped
        removeLoop range turns s (removedAccum.addRange removed)

/-- The loop over the ranges to remove; none takes more turns than there are ranges. -/
def removeRanges : List (Range Key) -> KeySpace -> KeySpaceRandomAccum ->
    Option (KeySpace × KeySpaceRandomAccum)
  | [], s, removedAccum => some (s, removedAccum)
  | range :: others, s, removedAccum =>
    match removeLoop range (s.ranges.length + 1) s removedAccum with
    | none => none
    | some (s, removedAccum) => removeRanges others s removedAccum

/-- The ranges that may overlap keys from the first bound up to the second. -/
def considered (others : List (Range Key)) (selfStart selfEnd : Key) : List (Range Key) :=
  startingBefore (others.dropWhile (fun r => decide (r.stop ≤ selfStart))) selfEnd

/-- The key space without the keys of the other, and the removed keys. -/
def removeOverlappingWith (s other : KeySpace) : Option (KeySpace × Except Panic KeySpace) :=
  match s.start, s.stop with
  | some selfStart, some selfEnd =>
    (removeRanges (considered other.ranges selfStart selfEnd) s .new).map
      (fun (s, removedAccum) => (s, removedAccum.toKeyspace))
  | _, _ => some (s, .ok { ranges := [] })

variable {s : KeySpace} {range : Range Key}

theorem overlapsAt_spec (range : Range Key) (hs : SortedRanges s.ranges) :
    s.overlapsAt range = none ∧ (forall r, r ∈ s.ranges -> Not (Overlap r range)) ∨
      exists pre o post, s.ranges = pre ++ o :: post ∧ s.overlapsAt range = some pre.length ∧
        Overlap o range := by
  obtain ⟨high, hsplit, hlow, hhigh⟩ := hs.startingBefore range.stop
  unfold overlapsAt
  generalize startingBefore s.ranges range.stop = low at *
  rcases eq_nil_or_concat low with rfl | ⟨pre, o, rfl⟩
  · refine .inl ⟨rfl, fun r hr hover => ?_⟩
    exact not_le.mpr hover.1 (hhigh r (by simpa [hsplit] using hr))
  · have heq : s.ranges = pre ++ o :: high := by simp [hsplit]
    have hget : s.ranges[pre.length]? = some o := by simp [heq]
    simp only [concat_eq_append, length_append, length_singleton, hget]
    by_cases hover : range.start < o.stop
    · exact .inr ⟨pre, o, high, heq, if_pos hover, hlow o (by simp), hover⟩
    · refine .inl ⟨if_neg hover, fun r hr h => ?_⟩
      have hsorted := heq ▸ hs.sorted
      simp only [heq, mem_append, mem_cons] at hr
      rcases hr with hr | rfl | hr
      · have hbefore := (pairwise_append.mp hsorted).2.2 r hr o mem_cons_self
        have hne := hs.nonempty o (by simp [heq])
        exact hover (h.2.trans_le (hbefore.trans hne.le))
      · exact hover h.2
      · exact not_le.mpr h.1 (hhigh r hr)

theorem insertIdx_behind {pre post : List (Range Key)} {o r : Range Key} :
    (pre ++ o :: post).insertIdx (pre.length + 1) r = pre ++ o :: r :: post := by
  induction pre with
  | nil => rfl
  | cons a pre ih => exact congrArg (a :: ·) ih

theorem removeAt_eq {pre post : List (Range Key)} {o : Range Key}
    (hs : s.ranges = pre ++ o :: post) :
    s.removeAt range pre.length o =
      (⟨pre ++ (remains o range ++ post)⟩, ⟨max o.start range.start, min o.stop range.stop⟩) := by
  unfold removeAt remains
  rw [hs]
  rcases lt_or_ge o.start range.start with hlow | hlow <;>
    rcases lt_or_ge range.stop o.stop with hhigh | hhigh <;>
    simp [hlow, hhigh, le_of_lt, not_lt.mpr, not_le.mpr, eraseIdx_append_of_length_le,
      insertIdx_behind]

structure Moved (gone : Key -> Prop) (s : KeySpace) (acc : KeySpaceRandomAccum) (s' : KeySpace)
    (acc' : KeySpaceRandomAccum) : Prop where
  sorted : SortedRanges s'.ranges
  nonempty : NonEmpty acc'.ranges
  kept : forall k, Holds s'.ranges k <-> Holds s.ranges k ∧ Not (gone k)
  taken : forall k, Holds acc'.ranges k <-> Holds acc.ranges k ∨ Holds s.ranges k ∧ gone k

variable {acc : KeySpaceRandomAccum}

theorem removeLoop_spec (hrange : range.start < range.stop) {turns : Nat}
    (hs : SortedRanges s.ranges) (hacc : NonEmpty acc.ranges)
    (hturns : s.ranges.countP (fun r => Overlap r range) < turns) :
    exists s' acc', removeLoop range turns s acc = some (s', acc') ∧
      Moved (fun k => k ∈ range) s acc s' acc' := by
  induction turns generalizing s acc with
  | zero => cases hturns
  | succ turns ih =>
    unfold removeLoop
    rcases overlapsAt_spec range hs with ⟨hnone, hout⟩ | ⟨pre, o, post, heq, hat, hover⟩
    · rw [hnone]
      have hmiss : forall k, Holds s.ranges k -> k ∉ range :=
        fun k ⟨r, hr, hk⟩ => not_mem_of_not_overlap (hout r hr) hk
      refine ⟨s, acc, rfl, hs, hacc, fun k => ?_, fun k => ?_⟩
      · exact ⟨fun h => ⟨h, hmiss k h⟩, And.left⟩
      · exact ⟨.inl, fun h => h.elim id (fun h => absurd h.2 (hmiss k h.1))⟩
    · have hget : s.ranges[pre.length]? = some o := by simp [heq]
      have hpieces : (remains o range).countP (fun r => Overlap r range) = 0 := by
        refine countP_eq_zero.mpr (fun x hx => ?_)
        rcases remains_cases hx with ⟨-, rfl⟩ | ⟨-, rfl⟩ <;> simp [Overlap]
      simp only [hat, hget, removeAt_eq heq]
      rw [heq] at hs hturns
      have hremoved : NonEmpty [(⟨max o.start range.start, min o.stop range.stop⟩ : Range Key)] :=
        forall_mem_singleton.mpr
        (max_lt (lt_min (hs.nonempty o (by simp)) hover.1) (lt_min hover.2 hrange))
      obtain ⟨s', acc', hrun, hmoved⟩ := ih (s := ⟨pre ++ (remains o range ++ post)⟩)
        (hs.cut hrange hover) (forall_mem_append.mpr ⟨hacc, hremoved⟩) (by
          simp only [countP_append, countP_cons, hover, decide_true, if_true] at hturns ⊢
          omega)
      refine ⟨s', acc', hrun, hmoved.sorted, hmoved.nonempty, fun k => ?_, fun k => ?_⟩
      · rw [hmoved.kept, heq]
        simp only [holds_append, holds_cons, holds_remains hover]
        tauto
      · rw [hmoved.taken, heq]
        simp only [holds_append, holds_cons, holds_nil, holds_remains hover, Range.mem_def,
          max_le_iff, lt_min_iff]
        tauto

theorem removeRanges_spec {others : List (Range Key)} (hothers : NonEmpty others)
    (hs : SortedRanges s.ranges) (hacc : NonEmpty acc.ranges) :
    exists s' acc', removeRanges others s acc = some (s', acc') ∧
      Moved (Holds others) s acc s' acc' := by
  induction others generalizing s acc with
  | nil => exact ⟨s, acc, rfl, hs, hacc, by simp, by simp⟩
  | cons range others ih =>
    obtain ⟨hrange, hothers⟩ := forall_mem_cons.mp hothers
    obtain ⟨s1, acc1, hloop, hmoved⟩ :=
      removeLoop_spec hrange hs hacc (Nat.lt_succ_of_le countP_le_length)
    obtain ⟨s2, acc2, hrun, hrest⟩ := ih hothers hmoved.sorted hmoved.nonempty
    refine ⟨s2, acc2, ?_, hrest.sorted, hrest.nonempty, fun k => ?_, fun k => ?_⟩
    · rwa [removeRanges, hloop]
    · rw [hrest.kept, hmoved.kept, holds_cons]
      tauto
    · rw [hrest.taken, hmoved.taken, hmoved.kept, holds_cons]
      tauto

theorem bounds_of_holds (hs : SortedRanges s.ranges) {first last k : Key}
    (hfirst : s.start = some first)
    (hlast : s.stop = some last) (hk : Holds s.ranges k) : first ≤ k ∧ k < last := by
  obtain ⟨r, hr, hk⟩ := hk
  obtain ⟨a, ha, rfl⟩ := Option.map_eq_some_iff.mp hfirst
  obtain ⟨b, hb, rfl⟩ := Option.map_eq_some_iff.mp hlast
  obtain ⟨rest, hhead⟩ := head?_eq_some_iff.mp ha
  obtain ⟨init, htail⟩ := getLast?_eq_some_iff.mp hb
  constructor
  · have hafter := (pairwise_cons.mp (hhead ▸ hs.sorted)).1
    rcases mem_cons.mp (hhead ▸ hr) with rfl | hr
    · exact hk.1
    · exact (hs.nonempty a (by simp [hhead])).le.trans ((hafter r hr).trans hk.1)
  · have hbefore := (pairwise_append.mp (htail ▸ hs.sorted)).2.2
    rcases mem_append.mp (htail ▸ hr) with hr | hr
    · exact hk.2.trans_le ((hbefore r hr b (by simp)).trans (hs.nonempty b (by simp [htail])).le)
    · exact mem_singleton.mp hr ▸ hk.2

theorem holds_considered {other : List (Range Key)} (ho : SortedRanges other) {first last k : Key}
    (hk : first ≤ k ∧ k < last) :
    Holds (considered other first last) k <-> Holds other k := by
  have hsplit := takeWhile_append_dropWhile (p := fun r => decide (r.stop ≤ first)) (l := other)
  have hsub := dropWhile_sublist (fun r => decide (r.stop ≤ first)) (l := other)
  obtain ⟨high, heq, -, hhigh⟩ := SortedRanges.startingBefore
    ⟨fun r hr => ho.nonempty r (hsub.subset hr), ho.sorted.sublist hsub⟩ last
  have hskip : Not (Holds (other.takeWhile (fun r => decide (r.stop ≤ first))) k) := by
    rintro ⟨r, hr, hin⟩
    have hstop : r.stop ≤ first := by simpa using mem_takeWhile_imp hr
    exact not_le.mpr hin.2 (hstop.trans hk.1)
  have hend : Not (Holds high k) := fun ⟨r, hr, hin⟩ => not_lt.mpr ((hhigh r hr).trans hin.1) hk.2
  have hdropped := (holds_append (k := k)).symm.trans (iff_of_eq (congrArg (Holds · k) heq.symm))
  have hall := (holds_append (k := k)).symm.trans (iff_of_eq (congrArg (Holds · k) hsplit))
  rw [← hall, or_iff_right hskip, ← hdropped, or_iff_left hend]
  rfl

/-- What is removed and what remains share no key, and together are what there was. -/
theorem removeOverlappingWith_spec (s other : KeySpace) (hs : SortedRanges s.ranges)
    (hother : SortedRanges other.ranges) :
    exists rest removed, s.removeOverlappingWith other = some (rest, .ok removed) ∧
      SortedRanges rest.ranges ∧ SortedRanges removed.ranges ∧
      (forall key, Holds rest.ranges key <-> Holds s.ranges key ∧ Not (Holds other.ranges key)) ∧
      (forall key, Holds removed.ranges key <-> Holds s.ranges key ∧ Holds other.ranges key) ∧
      forall key, Not (Holds rest.ranges key ∧ Holds removed.ranges key) := by
  unfold removeOverlappingWith
  split
  next first last hfirst hlast =>
    have hin := fun key (hk : Holds s.ranges key) =>
      holds_considered hother (bounds_of_holds hs hfirst hlast hk)
    have hsub : considered other.ranges first last ⊆ other.ranges :=
      ((takeWhile_sublist _).trans (dropWhile_sublist _)).subset
    have hnew : NonEmpty KeySpaceRandomAccum.new.ranges := forall_mem_nil _
    obtain ⟨rest, acc, hrun, hmoved⟩ := removeRanges_spec
      (fun r hr => hother.nonempty r (hsub hr)) hs hnew
    obtain ⟨removed, hremoved, hsorted, hkeys⟩ := acc.toKeyspace_spec hmoved.nonempty
    have hkept : forall key,
        Holds rest.ranges key <-> Holds s.ranges key ∧ Not (Holds other.ranges key) :=
      fun key => (hmoved.kept key).trans (and_congr_right fun hk => not_congr (hin key hk))
    have htaken : forall key,
        Holds removed.ranges key <-> Holds s.ranges key ∧ Holds other.ranges key := by
      intro key
      rw [hkeys, hmoved.taken, and_congr_right (hin key)]
      simp [KeySpaceRandomAccum.new]
    refine ⟨rest, removed, ?_, hmoved.sorted, hsorted, hkept, htaken, fun key h => ?_⟩
    · simp only [hrun, hremoved, Option.map_some]
    · exact ((hkept key).mp h.1).2 ((htaken key).mp h.2).2
  next hnone =>
    have hempty : s.ranges = [] := by
      cases h : s.ranges with
      | nil => rfl
      | cons a l => simp [start, stop, h, getLast?_cons] at hnone
    exact ⟨s, ⟨[]⟩, rfl, hs, sortedRanges_nil, by simp [hempty], by simp [hempty], by simp⟩

theorem removeOverlappingWith_spec_split :
    exists rest removed,
      removeOverlappingWith ⟨[⟨⟨0, 0, 0, 0, 0, 1⟩, ⟨0, 0, 0, 0, 0, 9⟩⟩]⟩
        ⟨[⟨⟨0, 0, 0, 0, 0, 3⟩, ⟨0, 0, 0, 0, 0, 4⟩⟩]⟩ = some (rest, .ok removed) ∧
      forall key, Not (Holds rest.ranges key ∧ Holds removed.ranges key) := by
  obtain ⟨rest, removed, hrun, -, -, -, -, hdisjoint⟩ := removeOverlappingWith_spec
    ⟨[⟨⟨0, 0, 0, 0, 0, 1⟩, ⟨0, 0, 0, 0, 0, 9⟩⟩]⟩ ⟨[⟨⟨0, 0, 0, 0, 0, 3⟩, ⟨0, 0, 0, 0, 0, 4⟩⟩]⟩
    (sortedRanges_singleton (by decide)) (sortedRanges_singleton (by decide))
  exact ⟨rest, removed, hrun, hdisjoint⟩

end KeySpace

end Pageserver
end OpenNeon

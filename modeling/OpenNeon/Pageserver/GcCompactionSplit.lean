import OpenNeon.Pageserver.GcCompaction

/-!
# Splitting a gc-compaction job

A job is split along the partitioning of the keys.  Partitions are taken together until the
layers they overlap are large enough, and a part is stretched to the end of a layer.  What
follows the last layer is added to the part before it.
-/

namespace OpenNeon
namespace Pageserver

open Checks LayerMap List

structure GcCompactJob extends GcCompactionJob where
  dryRun : Bool
  doMetadataCompaction : Bool

structure KeyPartitioning where
  dense : List KeySpace
  sparse : List KeySpace

structure Splitting where
  compactJobs : List GcCompactJob
  currentStart : Option Key

def truncateTo (target source : Range Key) : Option (Range Key) :=
  let start := max source.start target.start
  let stop := min source.stop target.stop
  if start < stop then some ⟨start, stop⟩ else none

/-- Ranges are sorted as pairs of a start and an end. -/
abbrev rangeLe : Range Key -> Range Key -> Prop :=
  Order.Preimage (fun r => toLex (r.start, r.stop)) (· ≤ ·)

def GC_COMPACT_MAX_SIZE_MB : Nat := 4 * 1024

def KeyPartitioning.ranges (p : KeyPartitioning) : List (Range Key) :=
  (p.dense ++ p.sparse).flatMap KeySpace.ranges

namespace GcCompactJob

section

variable (job : GcCompactJob) (compactBelowLsn : Lsn) (maxJobSizeMb : Nat)
  (allLayers : List PersistentLayerDesc)

/-- The end of a part, which takes in at least one whole layer. -/
def partEnd (overlappingLayers : List PersistentLayerDesc) (isLast : Bool) (stop : Key) : Key :=
  let extendedEnd := (overlappingLayers.map (fun layer => layer.keyRange.stop)).min?
  let stop := extendedEnd.elim stop (max · stop)
  if isLast then max stop job.compactKeyRange.stop else stop

/-- One partition; the last one ends a part in any case. -/
def splitStep (isLast : Bool) (s : Splitting) (range : Range Key) : Splitting :=
  let start := s.currentStart.getD range.start
  let overlappingLayers := allLayers.filter (fun layer =>
    overlapsWith layer.keyRange ⟨start, range.stop⟩ ∧ layer.lsnRange.start ≤ compactBelowLsn)
  let totalSize := (overlappingLayers.map PersistentLayerDesc.fileSize).sum
  let stop := job.partEnd overlappingLayers isLast range.stop
  if range.stop ≤ start then { s with currentStart := some start }
  else if totalSize > maxJobSizeMb * 1024 * 1024 ∨ isLast = true then
    match s.compactJobs.getLast?, totalSize with
    | some last, 0 =>
      ⟨s.compactJobs.dropLast ++
        [{ last with compactKeyRange := ⟨last.compactKeyRange.start, stop⟩ }], some stop⟩
    | _, _ =>
      ⟨s.compactJobs ++
        [{ dryRun := job.dryRun
           compactKeyRange := ⟨start, stop⟩
           compactLsnRange := ⟨job.compactLsnRange.start, compactBelowLsn⟩
           doMetadataCompaction := false }], some stop⟩
  else { s with currentStart := some start }

def splitLoop : List (Range Key) -> Splitting -> Splitting
  | [], s => s
  | range :: rest, s =>
    splitLoop rest (job.splitStep compactBelowLsn maxJobSizeMb allLayers rest.isEmpty s range)

end

def splitKeyRanges (job : GcCompactJob) (p : KeyPartitioning) : List (Range Key) :=
  (p.ranges.filterMap (truncateTo job.compactKeyRange)).insertionSort rangeLe

def compactBelowLsn (job : GcCompactJob) (watermark : Lsn) : Lsn :=
  if job.compactLsnRange.stop ≠ MAX_LSN then job.compactLsnRange.stop else watermark

/-- The parts of a job.  There are none before there is a cutoff. -/
def gcCompactionSplitJobs (job : GcCompactJob) (p : KeyPartitioning) (watermark : Lsn)
    (maxJobSizeMb : Option Nat) (allLayers : List PersistentLayerDesc) : List GcCompactJob :=
  if job.compactBelowLsn watermark = 0 then []
  else (job.splitLoop (job.compactBelowLsn watermark)
    (maxJobSizeMb.getD GC_COMPACT_MAX_SIZE_MB) allLayers (job.splitKeyRanges p)
    ⟨[], none⟩).compactJobs

end GcCompactJob

/-!
## What the parts are
-/

/-- Jobs from one key to another, each from where the one before it ends. -/
inductive Consecutive (first : Key) : List GcCompactJob -> Key -> Prop where
  | nil : Consecutive first [] first
  | snoc {jobs : List GcCompactJob} {job : GcCompactJob} :
      Consecutive first jobs job.compactKeyRange.start ->
      job.compactKeyRange.start < job.compactKeyRange.stop ->
      Consecutive first (jobs ++ [job]) job.compactKeyRange.stop

/-- A partitioned key inside the compaction range. -/
def KeyPartitioning.Holds (p : KeyPartitioning) (job : GcCompactJob) (key : Key) : Prop :=
  key ∈ job.compactKeyRange ∧ exists r, r ∈ p.ranges ∧ key ∈ r

/-- The ranges are disjoint. -/
def KeyPartitioning.Apart (p : KeyPartitioning) : Prop :=
  p.ranges.Pairwise (fun a b => a.stop ≤ b.start ∨ b.stop ≤ a.start)

/-- The jobs follow each other from the first key on, and each key is in one of them. -/
structure SplitsRange (p : KeyPartitioning) (job : GcCompactJob) (jobs : List GcCompactJob) :
    Prop where
  consecutive : exists first stop, Consecutive first jobs stop ∧
    (jobs ≠ [] -> IsLeast {key | p.Holds job key} first)
  once : forall key, p.Holds job key -> jobs.countP (fun j => key ∈ j.compactKeyRange) = 1

variable {first start stop key : Key} {jobs : List GcCompactJob} {job : GcCompactJob}
  {compactBelowLsn watermark : Lsn} {maxJobSizeMb : Nat} {allLayers : List PersistentLayerDesc}
  {s : Splitting} {range : Range Key} {ranges : List (Range Key)} {p : KeyPartitioning}

theorem Consecutive.countP (h : Consecutive first jobs stop) :
    first ≤ stop ∧ jobs.countP (fun j => key ∈ j.compactKeyRange) =
      if first ≤ key ∧ key < stop then 1 else 0 := by
  induction h with
  | nil => simp
  | snoc _ hlt ih =>
    refine ⟨ih.1.trans hlt.le, ?_⟩
    rw [countP_append, ih.2, countP_singleton]
    simp only [Range.mem_def, decide_eq_true_eq]
    grind

theorem Consecutive.dropLast {last : GcCompactJob} (h : Consecutive first jobs stop)
    (hlast : jobs.getLast? = some last) :
    Consecutive first jobs.dropLast last.compactKeyRange.start ∧
      last.compactKeyRange.start < stop := by
  cases h with
  | nil => cases hlast
  | snoc holder hlt =>
    cases getLast?_concat.symm.trans hlast
    exact ⟨by rwa [dropLast_concat], hlt⟩

theorem le_partEnd (job : GcCompactJob) (layers : List PersistentLayerDesc) (isLast : Bool)
    (stop : Key) : stop ≤ job.partEnd layers isLast stop := by
  unfold GcCompactJob.partEnd
  cases (layers.map (fun layer => layer.keyRange.stop)).min? <;> cases isLast <;> simp

theorem splitStep_consecutive (isLast : Bool) (h : Consecutive first s.compactJobs start)
    (hstart : s.currentStart.getD range.start = start) :
    let next := job.splitStep compactBelowLsn maxJobSizeMb allLayers isLast s range
    exists stop, next.currentStart = some stop ∧ Consecutive first next.compactJobs stop ∧
      (isLast = true -> range.stop ≤ stop) := by
  simp only [GcCompactJob.splitStep, hstart]
  split
  next hdone => exact ⟨start, rfl, h, fun _ => hdone⟩
  next hopen =>
    split
    next =>
      have hle := fun layers => le_partEnd job layers isLast range.stop
      have hlt := fun layers => (not_le.mp hopen).trans_le (hle layers)
      split
      next last hjobs _ =>
        obtain ⟨holder, hlast⟩ := h.dropLast hjobs
        exact ⟨_, rfl, .snoc holder (hlast.trans (hlt _)), fun _ => hle _⟩
      next => exact ⟨_, rfl, .snoc h (hlt _), fun _ => hle _⟩
    next hsmall => exact ⟨start, rfl, h, fun hlast => absurd (.inr hlast) hsmall⟩

theorem splitLoop_consecutive (h : Consecutive first s.compactJobs start)
    (hstart : forall r, ranges.head? = some r -> s.currentStart.getD r.start = start)
    (hsorted : ranges.Pairwise (fun a b => a.stop ≤ b.stop)) :
    exists stop,
      Consecutive first (job.splitLoop compactBelowLsn maxJobSizeMb allLayers ranges s).compactJobs
        stop ∧ forall r, r ∈ ranges -> r.stop ≤ stop := by
  induction ranges generalizing s start with
  | nil => exact ⟨start, h, by simp⟩
  | cons range rest ih =>
    obtain ⟨next, hnext, hjobs, hlast⟩ := splitStep_consecutive rest.isEmpty h (hstart range rfl)
    cases rest with
    | nil => exact ⟨next, hjobs, by simpa using hlast rfl⟩
    | cons second rest =>
      obtain ⟨stop, hstop, hall⟩ := ih hjobs (fun r _ => by rw [hnext]; rfl) hsorted.of_cons
      have hle := rel_of_pairwise_cons hsorted (.head _)
      exact ⟨stop, hstop, forall_mem_cons.mpr ⟨hle.trans (hall second (.head _)), hall⟩⟩

theorem truncateTo_eq_some {target source : Range Key} :
    truncateTo target source = some range <->
      range = ⟨max source.start target.start, min source.stop target.stop⟩ ∧
        range.start < range.stop := by
  simp only [truncateTo, Option.ite_none_right_eq_some, Option.some.injEq]
  grind

theorem mem_splitKeyRanges : range ∈ job.splitKeyRanges p <->
    exists source, source ∈ p.ranges ∧ truncateTo job.compactKeyRange source = some range := by
  simp [GcCompactJob.splitKeyRanges]

theorem holds_iff : p.Holds job key <-> exists r, r ∈ job.splitKeyRanges p ∧ key ∈ r := by
  simp only [mem_splitKeyRanges, truncateTo_eq_some, KeyPartitioning.Holds, Range.mem_def]
  grind

theorem splitKeyRanges_sorted (hp : p.Apart) :
    (job.splitKeyRanges p).Pairwise (fun a b => a.start ≤ b.start ∧ a.stop ≤ b.stop) := by
  have hapart : (job.splitKeyRanges p).Pairwise  (fun a b => a.start < a.stop ∧ b.start < b.stop ∧
        (a.stop ≤ b.start ∨ b.stop ≤ a.start)) := by
    refine ((perm_insertionSort _ _).pairwise_iff (by grind)).mpr (hp.filterMap _ ?_)
    intro a b hab x hx y hy
    obtain ⟨rfl, hx⟩ := truncateTo_eq_some.mp hx
    obtain ⟨rfl, hy⟩ := truncateTo_eq_some.mp hy
    grind
  refine ((pairwise_insertionSort rangeLe _).and hapart).imp ?_
  rintro a b ⟨hle, hab⟩
  have hlex := Prod.Lex.toLex_le_toLex.mp hle
  grind

/-- With a cutoff, the parts of a job are consecutive and each partitioned key is in one. -/
theorem gcCompactionSplitJobs_splits (hp : p.Apart) (hcutoff : job.compactBelowLsn watermark ≠ 0)
    (maxJobSizeMb : Option Nat) (allLayers : List PersistentLayerDesc) :
    SplitsRange p job (job.gcCompactionSplitJobs p watermark maxJobSizeMb allLayers) := by
  unfold GcCompactJob.gcCompactionSplitJobs
  rw [if_neg hcutoff]
  cases hranges : job.splitKeyRanges p with
  | nil =>
    have hnone : forall key, Not (p.Holds job key) := by simp [holds_iff, hranges]
    exact ⟨⟨job.compactKeyRange.start, _, .nil, fun h => absurd rfl h⟩,
      fun key hkey => absurd hkey (hnone key)⟩
  | cons head rest =>
    have hsorted := hranges ▸ splitKeyRanges_sorted hp
    have hnone : Consecutive head.start (Splitting.mk [] none).compactJobs head.start := .nil
    obtain ⟨stop, hjobs, hall⟩ := splitLoop_consecutive hnone (by simp) (hsorted.imp And.right)
    have hfirst : forall r, r ∈ head :: rest -> head.start ≤ r.start :=
      forall_mem_cons.mpr
        ⟨le_refl _, fun r hr => (rel_of_pairwise_cons hsorted hr).1⟩
    refine ⟨⟨head.start, stop, hjobs, fun _ => ⟨?_, ?_⟩⟩, ?_⟩
    · have hhead : head ∈ job.splitKeyRanges p := hranges ▸ .head _
      obtain ⟨_, -, htruncate⟩ := mem_splitKeyRanges.mp hhead
      exact holds_iff.mpr ⟨head, hhead, le_refl _, (truncateTo_eq_some.mp htruncate).2⟩
    · intro key hkey
      obtain ⟨r, hr, hin⟩ := holds_iff.mp hkey
      exact (hfirst r (hranges ▸ hr)).trans hin.1
    · intro key hkey
      obtain ⟨r, hr, hin⟩ := holds_iff.mp hkey
      rw [hranges] at hr
      rw [hjobs.countP.2, if_pos ⟨(hfirst r hr).trans hin.1, hin.2.trans_le (hall r hr)⟩]

def threeRanges : KeyPartitioning :=
  ⟨[⟨[⟨sampleKey 0, sampleKey 4⟩, ⟨sampleKey 4, sampleKey 8⟩]⟩],
    [⟨[⟨sampleKey 12, sampleKey 15⟩]⟩]⟩

def upperDelta : PersistentLayerDesc :=
  { sampleDelta with
    keyRange := ⟨sampleKey 10, sampleKey 20⟩
    keyRange_nonempty := by decide }

def wholeJob : GcCompactJob :=
  ⟨⟨⟨sampleKey 0, sampleKey 20⟩, ⟨0, MAX_LSN⟩⟩, false, true⟩

theorem threeRanges_apart : threeRanges.Apart := by
  unfold KeyPartitioning.Apart
  decide

/-- The first job is stretched over the second range, and the second one to the last key. -/
theorem gcCompactionSplitJobs_splits_threeRanges :
    let jobs := wholeJob.gcCompactionSplitJobs threeRanges 100 (some 0) [sampleDelta, upperDelta]
    jobs.map (fun j => j.compactKeyRange) =
        [⟨sampleKey 0, sampleKey 10⟩, ⟨sampleKey 10, sampleKey 20⟩] ∧
      SplitsRange threeRanges wholeJob jobs :=
  ⟨by decide, gcCompactionSplitJobs_splits threeRanges_apart (by decide) _ _⟩

/-- Before there is a cutoff no key is in a job. -/
theorem gcCompactionSplitJobs_without_cutoff :
    threeRanges.Apart ∧ Not (SplitsRange threeRanges wholeJob
      (wholeJob.gcCompactionSplitJobs threeRanges 0 none [])) := by
  refine ⟨threeRanges_apart, fun h => ?_⟩
  exact absurd (h.once (sampleKey 3) ⟨by decide, _, .head _, by decide⟩) (by decide)

end Pageserver
end OpenNeon

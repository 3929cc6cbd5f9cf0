import OpenNeon.Pageserver.Checks
import OpenNeon.Pageserver.ReadPath

/-!
# The base images of gc-compaction

Gc-compaction replays the records of the layers it selects on a base image of each key.  In a
job above some LSN the base is read at the least start of the layers, as if it were a branch
point.  A layer may start at the LSN of its first record, which is then in the base as well.
-/

namespace OpenNeon
namespace Pageserver

open Checks LayerMap

structure GcCompactionJob where
  compactKeyRange : Range Key
  compactLsnRange : Range Lsn

structure GcCompactionJobDescription where
  selectedLayers : List PersistentLayerDesc
  gcCutoff : Lsn
  /-- The branch points and leases below the cutoff, in order. -/
  retainLsnsBelowHorizon : List Lsn
  minLayerLsn : Lsn
  maxLayerLsn : Lsn
  compactionKeyRange : Range Key

namespace GcCompactionJob

variable (job : GcCompactionJob)

/-- Nothing is compacted before there is a cutoff. -/
def gcCutoff (realGcCutoff : Lsn) : Option Lsn :=
  if job.compactLsnRange.stop = MAX_LSN then
    if realGcCutoff = 0 then none else some realGcCutoff
  else some (min job.compactLsnRange.stop realGcCutoff)

def maxLayerLsn (layers : List PersistentLayerDesc) (gcCutoff : Lsn) : Option Lsn :=
  ((layers.filter (fun desc => desc.lsnRange.start ≤ gcCutoff)).map
    (fun desc => desc.lsnRange.stop)).max?

def minLayerLsn (layers : List PersistentLayerDesc) : Option Lsn :=
  ((layers.filter (fun desc => job.compactLsnRange.start = 0 ∨
    job.compactLsnRange.start < desc.lsnRange.stop)).map (fun desc => desc.lsnRange.start)).min?

def describe (layers : List PersistentLayerDesc) (realGcCutoff : Lsn) (retainLsns : List Lsn) :
    Option GcCompactionJobDescription := do
  let gcCutoff <- job.gcCutoff realGcCutoff
  let maxLayerLsn <- maxLayerLsn layers gcCutoff
  let minLayerLsn <- job.minLayerLsn layers
  let selectedLayers := layers.filter (fun desc => desc.lsnRange.stop ≤ maxLayerLsn ∧
    minLayerLsn ≤ desc.lsnRange.start ∧ overlapsWith desc.keyRange job.compactKeyRange)
  guard (selectedLayers ≠ [])
  return { selectedLayers := selectedLayers
           gcCutoff := gcCutoff
           retainLsnsBelowHorizon := (retainLsns.filter (· < gcCutoff)).insertionSort (· ≤ ·)
           minLayerLsn := minLayerLsn
           maxLayerLsn := maxLayerLsn
           compactionKeyRange := job.compactKeyRange }

/-- Whether there is data below the layers, and the LSN at which it is read. -/
def lowestRetainLsn (ancestorLsn : Option Lsn) (desc : GcCompactionJobDescription) : Bool × Lsn :=
  if job.compactLsnRange.start ≠ 0 then (true, desc.minLayerLsn)
  else
    match ancestorLsn with
    | some lsn => (true, lsn)
    | none => (false, desc.retainLsnsBelowHorizon.head?.getD desc.gcCutoff)

end GcCompactionJob

/-!
## Base and history
-/

variable {m : LayerMap} {layers : List PersistentLayerDesc} {contents : Contents} {key : Key}
  {historyLsnPoint lsn realGcCutoff : Lsn} {job : GcCompactionJob} {retainLsns : List Lsn}
  {desc : GcCompactionJobDescription}

/-- The page has the effect of the records replayed and of those up to its newest image. -/
def HasEffect (m : LayerMap) (layers : List PersistentLayerDesc) (contents : Contents)
    (key : Key) (historyLsnPoint lsn : Lsn) : Prop :=
  (exists visits v, m.descend key (historyLsnPoint + 1) (historyLsnPoint + 1) = .ok visits ∧
    v ∈ visits ∧ v.Reads contents key lsn) ∨
  (exists layer, contents layer key lsn) ∧
    exists image, ImageBelow layers key (historyLsnPoint + 1) image ∧ lsn ≤ image.lsnRange.start

/-- The record is in the history of the key that is replayed on the base. -/
def GcCompactionJobDescription.Accumulates (desc : GcCompactionJobDescription)
    (contents : Contents) (key : Key) (lsn : Lsn) : Prop :=
  exists d, d ∈ desc.selectedLayers ∧ contents (.persistentLayer d) key lsn

/-- Base and history have no record in common, and together all that the cutoff covers. -/
structure ReplaysOnce (m : LayerMap) (layers : List PersistentLayerDesc) (contents : Contents)
    (desc : GcCompactionJobDescription) (historyLsnPoint : Lsn) (key : Key) : Prop where
  notTwice : forall lsn, desc.Accumulates contents key lsn ->
    Not (HasEffect m layers contents key historyLsnPoint lsn)
  replayed : forall layer lsn, contents layer key lsn -> lsn ≤ desc.gcCutoff ->
    HasEffect m layers contents key historyLsnPoint lsn ∨ desc.Accumulates contents key lsn

theorem hasEffect_iff (hread : Readable m layers key) (hcomplete : Complete m layers contents) :
    HasEffect m layers contents key historyLsnPoint lsn <->
      (exists layer, contents layer key lsn) ∧ lsn ≤ historyLsnPoint := by
  obtain ⟨visits, hdescend, -, hreads⟩ :=
    readsNeeded_of_goodSteps hcomplete (fun _ => hread.goodSearch) historyLsnPoint.succ_pos
  constructor
  · rintro (⟨_, v, hrun, hv, hread⟩ | ⟨hrecord, image, himage, hle⟩)
    · cases (hdescend _ (le_refl _)).symm.trans hrun
      obtain ⟨hrecord, hlt, -⟩ := (hreads lsn).mp ⟨v, hv, hread⟩
      exact ⟨hrecord, Nat.le_of_lt_succ hlt⟩
    · exact ⟨hrecord, hle.trans (Nat.le_of_lt_succ himage.2.2.2)⟩
  · rintro ⟨hrecord, hle⟩
    by_cases himage : exists image, ImageBelow layers key (historyLsnPoint + 1) image ∧
        lsn ≤ image.lsnRange.start
    · exact .inr ⟨hrecord, himage⟩
    · have habove : forall d, ImageBelow layers key (historyLsnPoint + 1) d ->
          d.lsnRange.start < lsn := fun d hd => not_le.mp (fun hle => himage ⟨d, hd, hle⟩)
      obtain ⟨v, hv, hread⟩ := (hreads lsn).mpr ⟨hrecord, Nat.lt_succ_of_le hle, habove⟩
      exact .inl ⟨visits, v, hdescend _ (le_refl _), hv, hread⟩

theorem mem_selectedLayers (h : job.describe layers realGcCutoff retainLsns = some desc)
    (d : PersistentLayerDesc) :
    (d ∈ desc.selectedLayers -> desc.minLayerLsn ≤ d.lsnRange.start) ∧
      forall key, d ∈ layers -> desc.minLayerLsn ≤ d.lsnRange.start ->
        d.lsnRange.start ≤ desc.gcCutoff -> key ∈ d.keyRange -> key ∈ job.compactKeyRange ->
        d ∈ desc.selectedLayers := by
  unfold GcCompactionJob.describe at h
  simp only [Option.bind_eq_bind, Option.bind_eq_some_iff] at h
  obtain ⟨cutoff, -, top, htop, bottom, -, _, -, h⟩ := h
  cases h
  simp only [List.mem_filter, decide_eq_true_eq]
  refine ⟨fun hd => hd.2.2.1, fun key hd hmin hcut hkey hjob => ⟨hd, ?_, hmin, ?_⟩⟩
  · refine (List.max?_eq_some_iff.mp htop).2 _ (List.mem_map_of_mem (List.mem_filter.mpr ⟨hd, ?_⟩))
    exact decide_eq_true hcut
  · simp [overlapsWith, hkey.1.trans_lt hjob.2, hjob.1.trans_lt hkey.2]

/-- Every record up to the cutoff is replayed once exactly if no selected layer has one at
the least start, and none above it is only in a layer from below. -/
theorem replaysOnce_iff (hread : Readable m layers key) (hcomplete : Complete m layers contents)
    (hdesc : job.describe layers realGcCutoff retainLsns = some desc)
    (hstart : job.compactLsnRange.start ≠ 0) (hkey : key ∈ job.compactKeyRange)
    (ancestorLsn : Option Lsn) :
    ReplaysOnce m layers contents desc (job.lowestRetainLsn ancestorLsn desc).2 key <->
      (forall d, d ∈ desc.selectedLayers ->
        Not (contents (.persistentLayer d) key desc.minLayerLsn)) ∧
      forall layer lsn, contents layer key lsn -> desc.minLayerLsn < lsn ->
        lsn ≤ desc.gcCutoff -> exists d, contents (.persistentLayer d) key lsn ∧
          desc.minLayerLsn ≤ d.lsnRange.start := by
  have hpoint : (job.lowestRetainLsn ancestorLsn desc).2 = desc.minLayerLsn := by
    simp [GcCompactionJob.lowestRetainLsn, hstart]
  rw [hpoint]
  constructor
  · intro h
    refine ⟨fun d hd hrecord => ?_, fun layer lsn hrecord hlt hle => ?_⟩
    · exact h.notTwice _ ⟨d, hd, hrecord⟩
        ((hasEffect_iff hread hcomplete).mpr ⟨⟨_, hrecord⟩, le_refl _⟩)
    · rcases h.replayed layer lsn hrecord hle with heffect | ⟨d, hd, hrecord⟩
      · exact absurd hlt ((hasEffect_iff hread hcomplete).mp heffect).2.not_gt
      · exact ⟨d, hrecord, (mem_selectedLayers hdesc d).1 hd⟩
  · rintro ⟨hboundary, habove⟩
    refine ⟨fun lsn haccumulates heffect => ?_, fun layer lsn hrecord hle => ?_⟩
    · obtain ⟨d, hd, hrecord⟩ := haccumulates
      have hmin := (mem_selectedLayers hdesc d).1 hd
      have hlsn := (hcomplete.inside _ _ _ hrecord).2.1
      have heq := le_antisymm ((hasEffect_iff hread hcomplete).mp heffect).2 (hmin.trans hlsn)
      exact hboundary d hd (heq ▸ hrecord)
    · rcases le_or_gt lsn desc.minLayerLsn with hbelow | hlt
      · exact .inl ((hasEffect_iff hread hcomplete).mpr ⟨⟨layer, hrecord⟩, hbelow⟩)
      · obtain ⟨d, hd, hmin⟩ := habove layer lsn hrecord hlt hle
        obtain ⟨⟨hmem, -, hrange⟩, hlsn⟩ := hcomplete.inside _ _ _ hd
        exact .inr ⟨d, (mem_selectedLayers hdesc d).2 key hmem hmin (hlsn.1.trans hle) hrange hkey,
          hd⟩

/-!
A key with many versions, which L0 compaction has split at the LSN of one of them.
-/

def splitLayer (start stop : Lsn) (h : start < stop) : PersistentLayerDesc :=
  { keyRange := ⟨sampleKey 5, sampleKey 6⟩
    lsnRange := ⟨start, stop⟩
    isDelta := true
    fileSize := 8192
    keyRange_nonempty := by decide
    lsnRange_nonempty := h
    image_lsnRange := Bool.noConfusion }

def splitLayers : List PersistentLayerDesc :=
  [splitLayer 10 20 (by decide), splitLayer 20 30 (by decide)]

def splitOps : List Op :=
  splitLayers.map .insertHistoric ++ [.flushUpdates]

def splitContents (lsns : List Lsn) : Contents :=
  contentsOf (ofOps splitOps) splitLayers (fun _ lsn => lsn ∈ lsns)

def aboveSplit : GcCompactionJob :=
  ⟨⟨sampleKey 0, sampleKey 10⟩, ⟨20, 25⟩⟩

def aboveSplitDescription : GcCompactionJobDescription :=
  ⟨[splitLayer 20 30 (by decide)], 25, [], 20, 30, ⟨sampleKey 0, sampleKey 10⟩⟩

theorem describe_aboveSplit : aboveSplit.describe splitLayers 28 [] = some aboveSplitDescription :=
  rfl

theorem readable_splitLayers : Readable (ofOps splitOps) splitLayers (sampleKey 5) := by
  have hmemory : forall i, Not ((ofOps splitOps).HasInMemory i) := by
    rintro i (⟨l, hl, -⟩ | ⟨idx, l, hl, -⟩)
    · cases hl
    · cases hl
  refine ⟨⟨splitOps, rfl⟩, rfl, ?_, .nil, ⟨?_, fun i hi => absurd hi (hmemory i)⟩, by decide,
    fun _ i _ _ _ hi => absurd hi (hmemory i)⟩
  · unfold PackedLayers
    decide
  · decide

theorem splitContents_above (lsns : List Lsn) (h : lsn ∈ lsns)
    (hlsn : lsn ∈ (⟨20, 30⟩ : Range Lsn)) :
    splitContents lsns (.persistentLayer (splitLayer 20 30 (by decide))) (sampleKey 5) lsn :=
  ⟨⟨.tail _ (.head _), rfl, by decide⟩, hlsn, h⟩

theorem replaysOnce_iff_splitLayers :
    ReplaysOnce (ofOps splitOps) splitLayers (splitContents [15, 22]) aboveSplitDescription
      (aboveSplit.lowestRetainLsn none aboveSplitDescription).2 (sampleKey 5) := by
  refine (replaysOnce_iff readable_splitLayers (complete_contentsOf _ _ _) describe_aboveSplit
    (by decide) (by decide) none).mpr ⟨fun d _ hrecord => ?_, fun layer lsn hrecord hlt _ => ?_⟩
  · exact absurd hrecord.2.2 (by decide)
  · rcases List.mem_pair.mp hrecord.2.2 with rfl | rfl
    · exact absurd hlt (by decide)
    · exact ⟨_, splitContents_above _ hrecord.2.2 (by decide), by decide⟩

theorem replays_splitRecord_twice :
    Not (ReplaysOnce (ofOps splitOps) splitLayers (splitContents [15, 20]) aboveSplitDescription
      (aboveSplit.lowestRetainLsn none aboveSplitDescription).2 (sampleKey 5)) := by
  intro h
  have hrecord := splitContents_above [15, 20] (.tail _ (.head _)) (by decide)
  exact h.notTwice 20 ⟨_, List.mem_singleton_self _, hrecord⟩
    ((hasEffect_iff readable_splitLayers (complete_contentsOf _ _ _)).mpr ⟨⟨_, hrecord⟩, le_refl _⟩)

end Pageserver
end OpenNeon

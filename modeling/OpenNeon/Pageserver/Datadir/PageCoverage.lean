import OpenNeon.Pageserver.Datadir.IngestRuns

/-!
# Pages and bases on a shard

Two instances of the coverage of blocks.  If a truncation never raises the size of a
relation, every block below the size of a relation has been written since it came
below it, so its page can be read.  If a visibility map is cleared only below its
size, every version of a block rests on one that needs no earlier version.
-/

namespace OpenNeon
namespace Pageserver
namespace Datadir

open Base WalDecoder
open Prog (Yields exec wp wp_bind)

/-!
## Reading after a commit
-/

def State.Committed (s : State) : Prop :=
  (forall k, s.modification.pendingMetadataPages k = []) ∧ s.modification.pendingDataBatch = none

variable {s : State} {rel : RelTag} {ingest : WalIngest} {blk : BlockNumber} {lsn : Lsn}

theorem State.Committed.versions (h : s.Committed) : s.versions = s.tline.blocks := by
  unfold State.versions State.pendingWrites
  rw [h.2]
  rfl

theorem Version.get_lastRecordLsn (hwf : s.WF) (h : s.Committed) {request : Lsn} {k : MetaKey}
    {v : k.Val} (hget : Version.get s k (.lsnRange s.tline.lastRecordLsn request) = .ok v) :
    s.cur k = some v := by
  rcases bind_eq_ok_iff.mp hget with ⟨_, _, hfound⟩
  have hat : versionAt (s.tline.metadata k) s.tline.lastRecordLsn = some v := by
    split at hfound
    next hsome =>
      cases hfound
      exact hsome
    · cases hfound
  rw [hwf.cur_eq, h.1 k, ← hat]
  exact (versionAt_of_le (hwf.committed_le k)).symm

theorem sizeOf_of_cached (h : s.Coherent)
    (hsnapshot : forall l rel, s.tline.relSizeSnapshotCache l rel = none) {version : Version}
    {n : BlockNumber} (hcached : getCachedRelSize s rel version = some n) :
    s.sizeOf rel = some n := by
  unfold getCachedRelSize at hcached
  dsimp only at hcached
  split at hcached
  next l m hcache =>
    split at hcached
    · cases hcached
      exact h.size rel l _ hcache
    · rw [hsnapshot] at hcached
      cases hcached
  · rw [hsnapshot] at hcached
    cases hcached

theorem yields_getRelSize_reader (hcoherent : s.Coherent)
    (hsnapshot : forall l rel, s.tline.relSizeSnapshotCache l rel = none) (hwf : s.WF)
    (h : s.Committed) (rel : RelTag) (request : Lsn) :
    Yields (getRelSize rel (.lsnRange s.tline.lastRecordLsn request)) s
      (fun n s' => (n = 0 ∨ s.sizeOf rel = some n) ∧ s'.tline.blocks = s.tline.blocks) := by
  have hlookup : Yields (getRelSizeInReldir rel
      (.lsnRange s.tline.lastRecordLsn request) none false) s
      (fun res s' => (forall n, res = some n -> n = 0 ∨ s.sizeOf rel = some n) ∧
        s'.tline.blocks = s.tline.blocks) := by
    refine Yields.read_bind (fun lookup hfound => ?_)
    cases lookup with
    | fetched n =>
      have hsize := Version.get_lastRecordLsn hwf h (lookupRelSize_fetched hfound)
      refine ⟨?_, ?_⟩
      · rintro m ⟨⟩
        exact .inr hsize
      · unfold State.updateCachedRelSize
        dsimp only
        split
        · split
          · split <;> rfl
          · rfl
        · split <;> rfl
    | done res =>
      refine ⟨?_, rfl⟩
      rcases lookupRelSize_done hfound with ⟨n, rfl, hcached | ⟨hzero, _⟩⟩
      · rintro m ⟨⟩
        exact .inr (sizeOf_of_cached hcoherent hsnapshot hcached)
      · rintro m ⟨⟩
        exact .inl hzero
  refine hlookup.bind ?_
  rintro res s1 ⟨hvalue, hblocks⟩
  cases res with
  | none => exact Yields.throw
  | some n => exact Yields.pure ⟨hvalue n rfl, hblocks⟩

/-!
## Errors

A missing page is reported only where pages are read.
-/

/-- The error is not a missing page. -/
def WalIngestError.NoPage : WalIngestError -> Prop
  | .missingPage _ => False
  | _ => True

def NoPage {alpha : Type} (x : Except WalIngestError alpha) : Prop :=
  forall e, x = .error e -> e.NoPage

namespace NoPage

variable {alpha beta : Type} {x : Except WalIngestError alpha}

theorem ok (a : alpha) : NoPage (.ok a) :=
  nofun

theorem error {e : WalIngestError} (h : e.NoPage) :
    NoPage (.error e : Except WalIngestError alpha) := by
  rintro e' ⟨⟩
  exact h

theorem bind {f : alpha -> Except WalIngestError beta} (hx : NoPage x)
    (hf : forall a, NoPage (f a)) : NoPage (x >>= f) := by
  cases x with
  | error e => exact error (hx e rfl)
  | ok a => exact hf a

theorem map {f : alpha -> beta} (hx : NoPage x) : NoPage (x.map f) := by
  cases x with
  | error e => exact error (hx e rfl)
  | ok a => exact ok (f a)

theorem ite {c : Prop} [Decidable c] {y : Except WalIngestError alpha} (hx : NoPage x)
    (hy : NoPage y) : NoPage (if c then x else y) := by
  split
  · exact hx
  · exact hy

theorem toCompact (k : Key) : NoPage (toCompact k) := by
  rw [toCompact_eq]
  exact ite (ok _) (error trivial)

theorem get (s : State) (k : MetaKey) (version : Version) : NoPage (version.get s k) := by
  have htimeline : forall lsn, NoPage (s.tline.get k lsn) := by
    intro lsn
    refine (toCompact _).bind (fun _ => ?_)
    split
    · exact ok _
    · exact error trivial
  cases version with
  | lsnRange effective request => exact htimeline effective
  | modified =>
    refine (toCompact _).bind (fun _ => ?_)
    split
    · exact ok _
    · exact htimeline _

theorem sparseResult {x : Except WalIngestError RelDirExists} (hx : NoPage x) :
    NoPage (State.sparseResult x) := by
  unfold State.sparseResult
  split
  · exact ok _
  · exact hx

theorem getRelExistsInReldir (s : State) (rel : RelTag) (version : Version) :
    NoPage (getRelExistsInReldir s rel version none) := by
  have hold : NoPage (getRelExistsInReldirV1 s rel version none) := (get s _ version).map
  have hsparse : NoPage (getRelExistsInReldirV2 s rel version) :=
    (get s _ version).sparseResult.map
  refine ite (error trivial) (ite (ok _) ((get s _ version).bind (fun d => ite ?_ (ok _))))
  unfold getRelExistsInDirectory
  split
  · exact hold
  · exact hold
  · exact ite hold hsparse

theorem lookupRelSize (s : State) (rel : RelTag) (version : Version) :
    NoPage (lookupRelSize s rel version none false) := by
  have hexists : forall (c : Prop) [Decidable c], NoPage (getRelExistsIf c s rel version none) :=
    fun c _ => ite (getRelExistsInReldir s rel version) (ok _)
  unfold Datadir.lookupRelSize
  refine ite (error trivial) ?_
  split
  · exact ok _
  · refine (hexists _).bind (fun found => ite (ok _) ((hexists _).bind (fun map => ?_)))
    exact ite (ok _) (get s (.relSize rel) version).map

end NoPage

theorem noPage_getRelSize (rel : RelTag) (version : Version) (s : State) :
    wp (getRelSize rel version) (fun _ _ => True) (fun e _ => e.NoPage) s := by
  have hlookup : wp (getRelSizeInReldir rel version none false) (fun _ _ => True)
      (fun e _ => e.NoPage) s := by
    refine wp_bind.mpr (Prog.wp_read.mpr ?_)
    cases hfound : lookupRelSize s rel version none false with
    | error e => exact NoPage.lookupRelSize s rel version e hfound
    | ok lookup =>
      cases lookup with
      | done res => exact trivial
      | fetched n => exact trivial
  refine wp_bind.mpr (Prog.wp_mono hlookup (fun res s' _ => ?_) (fun _ _ h => h))
  cases res with
  | none => exact trivial
  | some n => exact trivial

/-!
## Pages below the size
-/

/-- All relations are watched, and a block is written whenever it comes below the size. -/
def pageRule : CoverRule where
  rels := fun _ => True
  floor := id
  floor_le := Nat.le_refl
  strict := False

/-- The record keeps the pages of its shard: it truncates the main fork of a relation
to at most the size on the shard, and its changes that need an earlier version are of
blocks below the size of a relation that the shard knows. -/
structure KeepsPages (ingest : WalIngest) (s : State) (interpreted : InterpretedWalRecord) :
    Prop extends RecordFor ingest.shard s interpreted where
  truncate : forall trunc, interpreted.metadataRecord = some (.smgr (.truncate trunc)) ->
    trunc.flags &&& SMGR_TRUNCATE_HEAP ≠ 0 ->
    (s.withLsn interpreted.nextRecordLsn).Known (RelFileNode.fork trunc.rnode MAIN_FORKNUM) ->
    forall n, (s.withLsn interpreted.nextRecordLsn).sizeOf
      (RelFileNode.fork trunc.rnode MAIN_FORKNUM) = some n -> trunc.blkno ≤ n
  changes : forall s1, exec (ingestMetadata ingest interpreted) s = (.ok (), s1) ->
    forall w, w ∈ interpreted.batch.writes -> w.willInit = false -> forall rel blk,
    toRelBlock (Key.fromI128 w.key) = some (rel, blk) -> s1.Known rel ∧ s1.Below rel blk

def ActionKeepsPages (ingest : WalIngest) (s : State) : Action -> Prop
  | .ingest interpreted => KeepsPages ingest s interpreted
  | .commit => True

theorem KeepsPages.recordOk {interpreted : InterpretedWalRecord}
    (h : KeepsPages ingest s interpreted) :
    RecordOk pageRule ingest s interpreted :=
  { h with
    metadata := by
      unfold MetadataOk
      split
      · exact False.elim
      · exact False.elim
      next trunc hrec => exact ⟨fun hflag _ => h.truncate trunc hrec hflag, False.elim⟩
      · exact False.elim
      · exact False.elim
      · trivial
    changes := fun s1 hexec _ =>
      ⟨fun w hw hneeds rel blk hblock _ => .inl (h.changes s1 hexec w hw hneeds rel blk hblock),
        False.elim⟩ }

theorem ActionKeepsPages.actionOk {action : Action} (h : ActionKeepsPages ingest s action) :
    ActionOk pageRule ingest s action := by
  cases action with
  | ingest interpreted => exact KeepsPages.recordOk h
  | commit => exact trivial

structure PagesReadable (ingest : WalIngest) (s : State) : Prop where
  written : forall rel blk request n s',
    ingest.shard.isKeyLocal (relBlockToKey rel blk) = true ->
    exec (getRelSize rel (.lsnRange s.tline.lastRecordLsn request)) s = (.ok n, s') ->
    blk < n ->
    exists v, v ∈ s.tline.blocks (blockKey rel blk) ∧ v.2 = true ∧
      s.belowSince rel blk ≤ v.1
  readable : forall rel blk request key s',
    ingest.shard.isKeyLocal (relBlockToKey rel blk) = true ->
    exec (getRelPageAtLsn ingest rel blk
      (.lsnRange s.tline.lastRecordLsn request)) s ≠ (.error (.missingPage key), s')

theorem Covered.written {shard : ShardIdentity} {n : BlockNumber}
    (h : Covered pageRule shard s) (hcommitted : s.Committed)
    (hlocal : shard.isKeyLocal (relBlockToKey rel blk) = true)
    (hvalue : n = 0 ∨ s.sizeOf rel = some n) (hlt : blk < n) :
    exists v, v ∈ s.tline.blocks (blockKey rel blk) ∧ v.2 = true ∧
      s.belowSince rel blk ≤ v.1 := by
  rw [← hcommitted.versions]
  rcases hvalue with rfl | hsize
  · exact absurd hlt UInt32.not_lt_zero
  · exact h.covered rel blk trivial hlocal ⟨n, hsize, hlt⟩

section

variable (h : Covered pageRule ingest.shard s) (hcommitted : s.Committed)
  (hlast : forall key v, v ∈ s.tline.blocks key -> v.1 ≤ s.tline.lastRecordLsn)

include h hcommitted hlast

theorem Covered.noPage_getRelPageAtLsn
    (hlocal : ingest.shard.isKeyLocal (relBlockToKey rel blk) = true) (request : Lsn) :
    wp (getRelPageAtLsn ingest rel blk (.lsnRange s.tline.lastRecordLsn request))
      (fun _ _ => True) (fun e _ => e.NoPage) s := by
  unfold getRelPageAtLsn Prog.refuse
  split
  · exact trivial
  · rw [pure_bind]
    refine wp_bind.mpr (Prog.wp_mono
      ((yields_getRelSize_reader h.coherent h.snapshot h.wf hcommitted rel request).wp
        (noPage_getRelSize rel _ s)) ?_ (fun _ _ he => he))
    rintro n s1 ⟨hvalue, hblocks⟩
    by_cases hbeyond : n ≤ blk
    · rw [if_pos hbeyond]
      exact trivial
    · rw [if_neg hbeyond]
      dsimp only
      rw [toCompact_eq]
      split
      · have hpage : s1.tline.hasPage (blockKey rel blk) s.tline.lastRecordLsn = true := by
          unfold Timeline.hasPage
          rw [hblocks, List.any_eq_true]
          rcases h.written hcommitted hlocal hvalue (UInt32.not_le.mp hbeyond) with
            ⟨v, hv, hinit, _⟩
          exact ⟨v, hv, by simp [hlast _ v hv, hinit]⟩
        show wp (if s1.tline.hasPage (blockKey rel blk) s.tline.lastRecordLsn then _
          else _) _ _ s1
        rw [if_pos hpage]
        exact trivial
      · exact trivial

theorem Covered.pagesReadable : PagesReadable ingest s where
  written := by
    intro rel blk request n s' hlocal hexec hlt
    have hyields := yields_getRelSize_reader h.coherent h.snapshot h.wf hcommitted rel request
    exact h.written hcommitted hlocal (Prog.yields_iff.mp hyields n s' hexec).1 hlt
  readable := by
    intro rel blk request key s' hlocal hexec
    have hread := h.noPage_getRelPageAtLsn hcommitted hlast hlocal request
    exact (Prog.wp_exec hread).2 _ s' hexec

end

/-- In a run whose records keep the pages of the shard, after every commit every block
of the shard below the size of its relation has been written since it came below the
size, and no page of the shard is missing. -/
theorem local_pages_readable_after_commit (ingest : WalIngest) (v2 : Bool)
    (status : RelSizeMigration) (capacity : Nat) (lsn : Lsn) (hpos : 0 < lsn)
    (actions : List Action) (s0 s s' : State)
    (hinit : exec initEmpty (State.new ingest.shard v2 status capacity lsn) = (.ok (), s0))
    (hok : Throughout (ActionKeepsPages ingest) ingest s0 actions)
    (hrun : exec (runActions ingest actions) s0 = (.ok (), s))
    (hcommit : exec commit s = (.ok (), s')) :
    PagesReadable ingest s' := by
  have hstart : Covered pageRule ingest.shard s0 :=
    Prog.yields_iff.mp (covered_initEmpty v2 status capacity hpos) () s0 hinit
  have hcovered : Covered pageRule ingest.shard s :=
    Prog.yields_iff.mp (hstart.runActions (hok.mono (fun _ _ h => h.actionOk))) () s hrun
  have hafter : s' = s.afterCommit := Prog.yields_iff.mp (yields_commit s) () s' hcommit
  subst hafter
  refine hcovered.afterCommit.pagesReadable ⟨fun _ => rfl, rfl⟩ (fun key v hv => ?_)
  exact (hcovered.versions_le key v hv).trans s.lastRecordLsn_afterCommit.2

/-!
### Sample runs
-/

def sampleIngest : WalIngest where
  shard := .unsharded
  latestPageNumber := fun _ => 0
  pageContent := fun _ _ => ZERO_PAGE

def sampleRel : RelTag :=
  ⟨MAIN_FORKNUM, 1663, 5, 16384⟩

def metadataOnly (lsn : Lsn) (rec : MetadataRecord) : InterpretedWalRecord :=
  ⟨some rec, {}, lsn, .no, 0⟩

def imageRecord (rel : RelTag) (lsn : Lsn) (blk : BlockNumber) : InterpretedWalRecord :=
  ⟨none, SerializedValueBatch.put {} (blockKey rel blk) (.image []) lsn, lsn, .no, 0⟩

theorem batchFor_imageRecord (rel : RelTag) (lsn : Lsn) (blk : BlockNumber) :
    BatchFor .unsharded lsn (imageRecord rel lsn blk).batch :=
  (BatchFor.empty .unsharded lsn).append rfl rfl rfl (fun _ => rfl) (fun hdata => nomatch hdata)

theorem recordFor_imageRecord (hlt : s.lsn < lsn) (hlast : s.tline.lastRecordLsn < lsn) :
    RecordFor .unsharded s (imageRecord rel lsn blk) :=
  ⟨hlt, hlast, batchFor_imageRecord rel lsn blk, False.elim⟩

theorem willInit_imageRecord {w : BlockWrite} (hw : w ∈ (imageRecord rel lsn blk).batch.writes) :
    w.willInit = true := by
  rw [imageRecord, SerializedValueBatch.writes_put] at hw
  rcases List.mem_append.mp hw with hw | hw
  · exact nomatch hw
  · rw [List.mem_singleton.mp hw]
    rfl

theorem keepsPages_imageRecord (hlt : s.lsn < lsn) (hlast : s.tline.lastRecordLsn < lsn) :
    KeepsPages sampleIngest s (imageRecord rel lsn blk) :=
  { recordFor_imageRecord hlt hlast with
    truncate := nofun
    changes := by
      intro s1 _ w hw hneeds
      rw [willInit_imageRecord hw] at hneeds
      cases hneeds }

def sampleStart : State :=
  (exec initEmpty (State.new .unsharded false .legacy 0 8)).2

def sampleRun (actions : List Action) : State :=
  (exec (runActions sampleIngest actions) sampleStart).2

theorem local_pages_readable_after_gap :
    (exec (getRelSize sampleRel (.lsnRange 16 MAX_LSN))
        (sampleRun [.ingest (imageRecord sampleRel 16 2), .commit])).1 = .ok 3 ∧
      PagesReadable sampleIngest (sampleRun [.ingest (imageRecord sampleRel 16 2), .commit]) := by
  refine ⟨by decide +kernel, ?_⟩
  refine local_pages_readable_after_commit sampleIngest false .legacy 0 8 (by decide)
    [.ingest (imageRecord sampleRel 16 2)] sampleStart
    (sampleRun [.ingest (imageRecord sampleRel 16 2)]) _
    rfl ⟨keepsPages_imageRecord (by decide +kernel) (by decide +kernel), fun _ _ => trivial⟩ ?_ ?_
  · rfl
  · rfl

/-- A relation with one written block is truncated to five, as it may be if Postgres
extended it with four blocks that it never logged. -/
def truncatedActions : List Action :=
  [.ingest (metadataOnly 16 (.smgr (.create sampleRel))),
    .ingest (imageRecord sampleRel 24 0),
    .ingest (metadataOnly 32 (.smgr (.truncate ⟨5, ⟨1663, 5, 16384⟩, SMGR_TRUNCATE_HEAP⟩)))]

theorem recordFor_metadataOnly {rec : MetadataRecord} (hlt : s.lsn < lsn)
    (hlast : s.tline.lastRecordLsn < lsn) :
    RecordFor .unsharded s (metadataOnly lsn rec) :=
  ⟨hlt, hlast, BatchFor.empty .unsharded lsn, fun _ => rfl⟩

def RunFor (shard : ShardIdentity) (s : State) : Action -> Prop
  | .ingest interpreted => RecordFor shard s interpreted
  | .commit => True

theorem Throughout.cons {ok : State -> Action -> Prop} {action : Action} {rest : List Action}
    (h : ok s action) (hrest : Throughout ok ingest (exec (action.run ingest) s).2 rest) :
    Throughout ok ingest s (action :: rest) := by
  refine ⟨h, fun s' hexec => ?_⟩
  rw [hexec] at hrest
  exact hrest

theorem runFor_truncatedActions :
    Throughout (RunFor .unsharded) sampleIngest sampleStart truncatedActions := by
  refine Throughout.cons (recordFor_metadataOnly (by decide +kernel) (by decide +kernel)) ?_
  refine Throughout.cons (recordFor_imageRecord (by decide +kernel) (by decide +kernel)) ?_
  exact Throughout.cons (recordFor_metadataOnly (by decide +kernel) (by decide +kernel)) trivial

/-- The truncation raises the size on the shard, and the pages below it are missing. -/
theorem truncation_uncovers_page :
    Throughout (RunFor .unsharded) sampleIngest sampleStart truncatedActions ∧
    exists s, exec (runActions sampleIngest (truncatedActions ++ [.commit])) sampleStart =
        (.ok (), s) ∧
      (exec (getRelSize sampleRel (.lsnRange s.tline.lastRecordLsn MAX_LSN)) s).1 = .ok 5 ∧
      ShardIdentity.unsharded.isKeyLocal (relBlockToKey sampleRel 1) = true ∧
      s.tline.blocks (blockKey sampleRel 1) = [] ∧
      (exec (getRelPageAtLsn sampleIngest sampleRel 1
        (.lsnRange s.tline.lastRecordLsn MAX_LSN)) s).1 =
        .error (.missingPage (relBlockToKey sampleRel 1)) := by
  refine ⟨runFor_truncatedActions, sampleRun (truncatedActions ++ [.commit]), ?_, ?_⟩
  · exact Prod.ext (by decide +kernel) rfl
  · decide +kernel

end Datadir
end Pageserver
end OpenNeon

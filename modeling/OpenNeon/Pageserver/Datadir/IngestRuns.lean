import OpenNeon.Pageserver.Datadir.BatchCoverage
import OpenNeon.Pageserver.Datadir.Commit

/-!
# Runs of the ingest

Between records every watched block below the size of its relation is covered.  A
record moves the modification to its own LSN, so that all versions so far are from
before it, and the parts of the record leave the blocks covered; a commit moves the
pending versions into the timeline and changes no view.
-/

namespace OpenNeon
namespace Pageserver
namespace Datadir

open Base WalDecoder

/-!
## Between records
-/

structure Covered (rule : CoverRule) (shard : ShardIdentity) (s : State) : Prop where
  coherent : s.Coherent
  wf : s.WF
  snapshot : forall l rel, s.tline.relSizeSnapshotCache l rel = none
  shard_eq : s.tline.shard = shard
  versions_le : forall key v, v ∈ s.versions key -> v.1 ≤ s.lsn
  since_le : forall rel blk, s.belowSince rel blk ≤ s.lsn
  covered : forall rel blk, rule.rels rel ->
    shard.isKeyLocal (relBlockToKey rel blk) = true -> s.Below rel blk ->
    exists v, v ∈ s.versions (blockKey rel blk) ∧ v.2 = true ∧
      rule.floor (s.belowSince rel blk) ≤ v.1
  based : rule.strict -> Based s.versions

variable {rule : CoverRule} {shard : ShardIdentity} {lsn : Lsn} {s : State}

theorem Mid.covered (h : Mended rule shard lsn s) : Covered rule shard s :=
  { h with
    covered := by
      intro rel blk hrel hlocal hbelow
      rcases h.backed rel blk hrel hlocal hbelow with ⟨v, hv, hinit, _, hfloor⟩ | hfresh
      · exact ⟨v, hv, hinit, hfloor⟩
      · exact ⟨(s.lsn, true), hfresh, rfl, (rule.floor_le _).trans (h.since_le rel blk)⟩ }

theorem Covered.withLsn (h : Covered rule shard s) (hlt : s.lsn < lsn)
    (hlast : s.tline.lastRecordLsn < lsn) : Mid rule shard lsn NoBlocks (s.withLsn lsn) where
  coherent := by
    refine ⟨?_, fun rel l n hcache => (h.coherent.lsn_le rel l n hcache).trans hlt.le,
      h.snapshot lsn⟩
    intro rel l n hcache
    show (s.withLsn lsn).cur (.relSize rel) = some n
    rw [State.cur_withLsn h.wf hlt.le]
    exact h.coherent.size rel l n hcache
  wf := h.wf.withLsn hlt.le
  snapshot := h.snapshot
  lsn_eq := rfl
  last_lt := hlast
  shard_eq := h.shard_eq
  versions_le := fun key v hv => (h.versions_le key v hv).trans hlt.le
  since_le := fun rel blk => (h.since_le rel blk).trans hlt.le
  backed := by
    rintro rel blk hrel hlocal ⟨n, hn, hblk⟩
    refine .inl ?_
    have hsize : s.sizeOf rel = some n := by
      rw [← hn]
      exact (congrFun (State.cur_withLsn h.wf hlt.le) (.relSize rel)).symm
    rcases h.covered rel blk hrel hlocal ⟨n, hsize, hblk⟩ with ⟨v, hv, hinit, hfloor⟩
    exact ⟨v, hv, hinit, Nat.lt_of_le_of_lt (h.versions_le _ v hv) hlt, hfloor⟩
  based := h.based

theorem Covered.afterCommit (h : Covered rule shard s) : Covered rule shard s.afterCommit where
  coherent := by
    refine ⟨?_, h.coherent.lsn_le, h.coherent.snapshot⟩
    intro rel l n hcache
    show s.afterCommit.cur (.relSize rel) = some n
    rw [State.cur_afterCommit h.wf]
    exact h.coherent.size rel l n hcache
  wf := h.wf.afterCommit
  snapshot := h.snapshot
  shard_eq := h.shard_eq
  versions_le := h.versions_le
  since_le := h.since_le
  covered := by
    rintro rel blk hrel hlocal ⟨n, hn, hblk⟩
    have hsize : s.sizeOf rel = some n := by
      rw [← hn]
      exact (congrFun (State.cur_afterCommit h.wf) (.relSize rel)).symm
    exact h.covered rel blk hrel hlocal ⟨n, hsize, hblk⟩
  based := h.based

/-!
## Records and runs
-/

/-- The record comes after everything so far and is made for the shard.  A record
that copies a database has no blocks of its own. -/
structure RecordFor (shard : ShardIdentity) (s : State)
    (interpreted : InterpretedWalRecord) : Prop where
  lsn_lt : s.lsn < interpreted.nextRecordLsn
  last_lt : s.tline.lastRecordLsn < interpreted.nextRecordLsn
  batch : BatchFor shard interpreted.nextRecordLsn interpreted.batch
  copy : CreatesDatabase interpreted.metadataRecord -> interpreted.batch.isEmpty = true

/-- What the rule asks of a record.  Its changes are judged in the state in which
its batch is applied. -/
structure RecordOk (rule : CoverRule) (ingest : WalIngest) (s : State)
    (interpreted : InterpretedWalRecord) : Prop
    extends RecordFor ingest.shard s interpreted where
  metadata : MetadataOk rule ingest.shard (s.withLsn interpreted.nextRecordLsn)
    interpreted.metadataRecord
  changes : forall s1, Prog.exec (ingestMetadata ingest interpreted) s = (.ok (), s1) ->
    s1.lsn = interpreted.nextRecordLsn -> ChangesOk rule s1 interpreted.batch

variable {ingest : WalIngest}

variable {interpreted : InterpretedWalRecord} {actions : List Action}

theorem Covered.ingestMetadata {post : State -> Prop} (h : Covered rule ingest.shard s)
    (hok : RecordOk rule ingest s interpreted) (hpost : forall s1,
      Mid rule ingest.shard interpreted.nextRecordLsn NoBlocks s1 ->
      MetadataOk rule ingest.shard s1 interpreted.metadataRecord ->
      Prog.Yields (ingestMetadataRecord ingest interpreted.metadataRecord) s1 (fun _ => post)) :
    Prog.Yields (ingestMetadata ingest interpreted) s (fun _ => post) := by
  refine (yields_setLsn hok.lsn_lt).bind ?_
  rintro _ s1 rfl
  show Prog.Yields (Prog.refuse _ _ >>= fun _ => _) _ _
  exact Prog.Yields.refuse_bind (fun _ =>
    hpost _ (h.withLsn hok.lsn_lt hok.last_lt) hok.metadata)

theorem Covered.ingestRecord (h : Covered rule ingest.shard s)
    (hok : RecordOk rule ingest s interpreted) :
    Prog.Yields (ingestRecord ingest interpreted) s (fun _ => Covered rule ingest.shard) := by
  by_cases hcopy : CreatesDatabase interpreted.metadataRecord
  · refine (h.ingestMetadata hok (fun s1 h1 _ =>
      mended_ingestMetadataRecord h1 hcopy)).bind (fun _ s2 h2 => ?_)
    exact (mended_ingestBatch_empty h2 (hok.copy hcopy)).mono (fun _ _ h3 => h3.covered)
  · have hmetadata := (h.ingestMetadata hok (fun s1 h1 hok1 =>
      mid_ingestMetadataRecord h1 hok1 hcopy)).and Prog.yields_exec
    refine hmetadata.bind ?_
    rintro _ s2 ⟨h2, hexec⟩
    exact (mended_ingestBatch h2 hok.batch (hok.changes s2 hexec h2.lsn_eq)).mono
      (fun _ _ h3 => h3.covered)

def ActionOk (rule : CoverRule) (ingest : WalIngest) (s : State) : Action -> Prop
  | .ingest interpreted => RecordOk rule ingest s interpreted
  | .commit => True

theorem Covered.action {action : Action} (h : Covered rule ingest.shard s)
    (hok : ActionOk rule ingest s action) :
    Prog.Yields (action.run ingest) s (fun _ => Covered rule ingest.shard) := by
  cases action with
  | ingest interpreted => exact h.ingestRecord hok
  | commit =>
    refine (yields_commit s).mono ?_
    rintro _ s' rfl
    exact h.afterCommit

/-- A condition holds in each state in which an action of the run is taken. -/
def Throughout (ok : State -> Action -> Prop) (ingest : WalIngest) :
    State -> List Action -> Prop
  | _, [] => True
  | s, action :: rest => ok s action ∧
      forall s', Prog.exec (action.run ingest) s = (.ok (), s') ->
        Throughout ok ingest s' rest

theorem Throughout.mono {ok ok' : State -> Action -> Prop} (h : Throughout ok ingest s actions)
    (himp : forall s action, ok s action -> ok' s action) :
    Throughout ok' ingest s actions := by
  induction actions generalizing s with
  | nil => exact trivial
  | cons action rest ih => exact ⟨himp s action h.1, fun s' hexec => ih (h.2 s' hexec)⟩

theorem Covered.runActions (h : Covered rule ingest.shard s)
    (hok : Throughout (ActionOk rule ingest) ingest s actions) :
    Prog.Yields (runActions ingest actions) s (fun _ => Covered rule ingest.shard) := by
  induction actions generalizing s with
  | nil => exact h
  | cons action rest ih =>
    change Prog.Yields (action.run ingest >>= fun _ => Datadir.runActions ingest rest) s _
    refine ((h.action hok.1).and Prog.yields_exec).bind ?_
    rintro _ s' ⟨h', hexec⟩
    exact ih h' (hok.2 s' hexec)

/-!
## New timelines
-/

theorem mid_new (v2 : Bool) (status : RelSizeMigration) (capacity : Nat) (hpos : 0 < lsn) :
    Mid rule shard lsn NoBlocks (State.new shard v2 status capacity lsn) where
  coherent := ⟨nofun, nofun, fun _ => rfl⟩
  wf := ⟨fun _ => List.Pairwise.nil, fun _ => List.Pairwise.nil, nofun, nofun, nofun⟩
  snapshot := fun _ _ => rfl
  lsn_eq := rfl
  last_lt := hpos
  shard_eq := rfl
  versions_le := nofun
  since_le := fun _ _ => Nat.zero_le _
  backed := fun _ _ _ _ hbelow => nomatch hbelow.choose_spec.1
  based := nofun

theorem calm_initEmpty : Prog.Keeps Calm initEmpty := by
  refine (calm_put .dbdir trivial _).bind (fun _ s => ?_)
  exact Prog.Keeps.onlyIf (R := Calm) ((calm_put (.slruDir .clog) trivial _).bind (fun _ =>
    (calm_put (.slruDir .multiXactMembers) trivial _).bind (fun _ =>
      calm_put (.slruDir .multiXactOffsets) trivial _))) s

theorem covered_initEmpty (v2 : Bool) (status : RelSizeMigration)
    (capacity : Nat) (hpos : 0 < lsn) :
    Prog.Yields initEmpty (State.new shard v2 status capacity lsn)
      (fun _ => Covered rule shard) := by
  have hnew : Mid rule shard lsn NoBlocks (State.new shard v2 status capacity lsn) :=
    mid_new v2 status capacity hpos
  exact (mid_of_quiet hnew (Calm.keeps_quiet calm_initEmpty)).mono (fun _ _ h => h.mended.covered)

end Datadir
end Pageserver
end OpenNeon

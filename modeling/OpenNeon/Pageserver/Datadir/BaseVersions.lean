import OpenNeon.Pageserver.Datadir.PageCoverage

/-!
# Every version rests on a base

The oldest version of every block needs no earlier one.  Records of Postgres bring
their base with them or find one; the records that the ingest makes itself are for
visibility maps, and find one where the page is below the size of the map.
-/

namespace OpenNeon
namespace Pageserver
namespace Datadir

open Base WalDecoder

/-- Map forks are watched, any version covers a block, and all versions rest on others. -/
def baseRule : CoverRule where
  rels := fun rel => rel.forknum ≠ MAIN_FORKNUM
  floor := fun _ => 0
  floor_le := Nat.zero_le
  strict := True

def slruUpdates : Option MetadataRecord -> List SlruUpdate
  | some (.xact rec) => xactUpdates rec
  | some (.multiXact (.create xlrec)) => multixactUpdates xlrec
  | _ => []

/-- The record finds the bases it needs.  Its changes and SLRU updates are for pages
with a version that needs no earlier one, and the visibility bits it clears are those
of a map, on pages of the shard.  If a truncation leaves a part of a page of the map,
the page is below the size of the map. -/
structure FindsBases (ingest : WalIngest) (s : State) (interpreted : InterpretedWalRecord) :
    Prop extends RecordFor ingest.shard s interpreted where
  changes : forall s1, Prog.exec (ingestMetadata ingest interpreted) s = (.ok (), s1) ->
    forall w, w ∈ interpreted.batch.writes -> w.willInit = false ->
    exists v, v ∈ s1.versions w.key ∧ v.2 = true ∧ v.1 < interpreted.nextRecordLsn
  slru : ingest.shard.isShardZero = true ->
    forall u, u ∈ slruUpdates interpreted.metadataRecord ->
    exists v, v ∈ s.versions u.key ∧ v.2 = true ∧ v.1 < interpreted.nextRecordLsn
  vm_bits : forall bits, MetadataRecord.vmBits interpreted.metadataRecord = some bits ->
    bits.vmRel.forknum = VISIBILITYMAP_FORKNUM ∧ forall blk,
      bits.newHeapBlkno = some blk ∨ bits.oldHeapBlkno = some blk ->
      ingest.shard.isKeyLocal (relBlockToKey bits.vmRel (HEAPBLK_TO_MAPBLOCK blk)) = true
  vm_tail : forall trunc, interpreted.metadataRecord = some (.smgr (.truncate trunc)) ->
    trunc.flags &&& SMGR_TRUNCATE_VM ≠ 0 -> ClearsVmTail ingest.shard trunc ->
    (s.withLsn interpreted.nextRecordLsn).Below
      (RelFileNode.fork trunc.rnode VISIBILITYMAP_FORKNUM) (vmTruncPage trunc.blkno)

def ActionFindsBases (ingest : WalIngest) (s : State) : Action -> Prop
  | .ingest interpreted => FindsBases ingest s interpreted
  | .commit => True

variable {ingest : WalIngest} {s : State} {interpreted : InterpretedWalRecord}

section

variable (h : FindsBases ingest s interpreted)
include h

theorem FindsBases.slruBased :
    SlruBased ingest.shard (s.withLsn interpreted.nextRecordLsn)
      (slruUpdates interpreted.metadataRecord) := by
  intro hzero u hu
  rcases h.slru hzero u hu with ⟨v, hv, _, hlt⟩
  exact ⟨v, hv, hlt⟩

theorem FindsBases.vmLocal {bits : ClearVmBits}
    (hbits : MetadataRecord.vmBits interpreted.metadataRecord = some bits) :
    VmLocal baseRule ingest.shard bits := by
  rcases h.vm_bits bits hbits with ⟨hfork, hlocal⟩
  refine ⟨?_, hlocal⟩
  show bits.vmRel.forknum ≠ MAIN_FORKNUM
  rw [hfork]
  decide

theorem FindsBases.truncateOk {trunc : XlSmgrTruncate}
    (htrunc : interpreted.metadataRecord = some (.smgr (.truncate trunc))) :
    TruncateOk baseRule ingest.shard (s.withLsn interpreted.nextRecordLsn) trunc where
  main_le := fun _ hmain => absurd rfl hmain
  vm_tail := by
    intro _ hflag hclears
    refine ⟨?_, h.vm_tail trunc htrunc hflag hclears⟩
    show VISIBILITYMAP_FORKNUM ≠ MAIN_FORKNUM
    decide

theorem FindsBases.recordOk :
    RecordOk baseRule ingest s interpreted :=
  { h with
    metadata := by
      unfold MetadataOk
      split
      next bits hrec => exact fun _ => h.vmLocal (by rw [hrec]; rfl)
      next bits hrec => exact fun _ => h.vmLocal (by rw [hrec]; rfl)
      next trunc hrec => exact h.truncateOk hrec
      next rec hrec =>
        have hbased := h.slruBased
        rw [hrec] at hbased
        exact fun _ => hbased
      next xlrec hrec =>
        have hbased := h.slruBased
        rw [hrec] at hbased
        exact fun _ => hbased
      · trivial
    changes := by
      intro s1 hexec hlsn
      constructor
      · intro w hw hneeds rel blk _ _
        rcases h.changes s1 hexec w hw hneeds with ⟨v, hv, hinit, hlt⟩
        exact .inr ⟨v, hv, hinit, by rw [hlsn]; exact hlt, Nat.zero_le _⟩
      · intro _ w hw hneeds
        rcases h.changes s1 hexec w hw hneeds with ⟨v, hv, _, hlt⟩
        exact ⟨v, hv, by rw [hlsn]; exact hlt⟩ }

end

theorem ActionFindsBases.actionOk {action : Action} (h : ActionFindsBases ingest s action) :
    ActionOk baseRule ingest s action := by
  cases action with
  | ingest interpreted => exact FindsBases.recordOk h
  | commit => exact trivial

/-- If records find their bases, every written block starts with a version that needs none. -/
theorem first_versions_are_bases (ingest : WalIngest) (v2 : Bool)
    (status : RelSizeMigration) (capacity : Nat) (lsn : Lsn) (hpos : 0 < lsn)
    (actions : List Action) (s0 s : State)
    (hinit : Prog.exec initEmpty (State.new ingest.shard v2 status capacity lsn) = (.ok (), s0))
    (hok : Throughout (ActionFindsBases ingest) ingest s0 actions)
    (hrun : Prog.exec (runActions ingest actions) s0 = (.ok (), s)) :
    Based s.versions := by
  have hstart : Covered baseRule ingest.shard s0 :=
    Prog.yields_iff.mp (covered_initEmpty v2 status capacity hpos) () s0 hinit
  have hcovered : Covered baseRule ingest.shard s :=
    Prog.yields_iff.mp (hstart.runActions (hok.mono (fun _ _ h => h.actionOk))) () s hrun
  exact hcovered.based trivial

/-!
## Sample runs
-/

def sampleVm : RelTag :=
  ⟨VISIBILITYMAP_FORKNUM, 1663, 5, 16384⟩

theorem findsBases_imageRecord {rel : RelTag} {lsn : Lsn} {blk : BlockNumber}
    (hlt : s.lsn < lsn) (hlast : s.tline.lastRecordLsn < lsn) :
    FindsBases sampleIngest s (imageRecord rel lsn blk) :=
  { recordFor_imageRecord hlt hlast with
    changes := by
      intro s1 _ w hw hneeds
      rw [willInit_imageRecord hw] at hneeds
      cases hneeds
    slru := nofun
    vm_bits := nofun
    vm_tail := nofun }

def clearedBits : ClearVmBits :=
  { newHeapBlkno := some 0, oldHeapBlkno := none, vmRel := sampleVm, flags := 3 }

theorem findsBases_clearedBits {lsn : Lsn} (hlt : s.lsn < lsn)
    (hlast : s.tline.lastRecordLsn < lsn) :
    FindsBases sampleIngest s (metadataOnly lsn (.heapam (.clearVmBits clearedBits))) :=
  { recordFor_metadataOnly hlt hlast with
    changes := fun _ _ _ hw => nomatch hw
    slru := nofun
    vm_bits := by
      rintro bits ⟨⟩
      exact ⟨rfl, fun blk _ => ShardIdentity.isKeyLocal_unsharded _⟩
    vm_tail := nofun }

def clearingActions : List Action :=
  [.ingest (imageRecord sampleVm 16 0), .ingest (imageRecord sampleRel 24 0),
    .ingest (metadataOnly 32 (.heapam (.clearVmBits clearedBits))), .commit]

theorem first_versions_are_bases_clearing :
    (sampleRun clearingActions).tline.blocks (blockKey sampleVm 0) = [(32, false), (16, true)] ∧
      Based (sampleRun clearingActions).versions := by
  refine ⟨by decide +kernel, ?_⟩
  refine first_versions_are_bases sampleIngest false .legacy 0 8 (by decide) clearingActions
    sampleStart (sampleRun clearingActions) rfl ?_ (Prod.ext (by decide +kernel) rfl)
  refine Throughout.cons (findsBases_imageRecord (by decide +kernel) (by decide +kernel)) ?_
  refine Throughout.cons (findsBases_imageRecord (by decide +kernel) (by decide +kernel)) ?_
  refine Throughout.cons (findsBases_clearedBits (by decide +kernel) (by decide +kernel)) ?_
  exact Throughout.cons trivial trivial

/-- The relation's visibility map is unknown to the shard when it is truncated. -/
def vmTruncatedActions : List Action :=
  [.ingest (imageRecord sampleRel 16 0), .ingest (imageRecord sampleRel 24 1),
    .ingest (metadataOnly 32 (.smgr (.truncate ⟨1, ⟨1663, 5, 16384⟩,
      SMGR_TRUNCATE_HEAP ||| SMGR_TRUNCATE_VM ||| SMGR_TRUNCATE_FSM⟩)))]

/-- The truncation puts a record without a base on the page of the map. -/
theorem truncation_record_without_base :
    Throughout (RunFor .unsharded) sampleIngest sampleStart vmTruncatedActions ∧
    exists s, Prog.exec (runActions sampleIngest (vmTruncatedActions ++ [.commit]))
        sampleStart = (.ok (), s) ∧
      s.tline.blocks (blockKey sampleVm 0) = [(32, false)] := by
  refine ⟨?_, sampleRun (vmTruncatedActions ++ [.commit]), ?_, ?_⟩
  · refine Throughout.cons (recordFor_imageRecord (by decide +kernel) (by decide +kernel)) ?_
    refine Throughout.cons (recordFor_imageRecord (by decide +kernel) (by decide +kernel)) ?_
    exact Throughout.cons (recordFor_metadataOnly (by decide +kernel) (by decide +kernel)) trivial
  · exact Prod.ext (by decide +kernel) rfl
  · decide +kernel

end Datadir
end Pageserver
end OpenNeon

import OpenNeon.Pageserver.Datadir.Relations

/-!
# Ingesting interpreted WAL records

A record first has its metadata record applied, then its batch of block changes.
Relations come into being with their first record and grow with the blocks that a
shard sees; blocks that were skipped and belong to the shard are filled with zero
pages.  Checkpoints, two-phase files and replication origins have keys of their
own, which no other record reads, and are left out.
-/

namespace OpenNeon
namespace Pageserver
namespace Datadir

open Base WalDecoder
open Prog (read onlyIf refuse)

/-!
## Blocks
-/

def blockRange (start stop : BlockNumber) : List BlockNumber :=
  (List.range' start.toNat (stop.toNat - start.toNat)).map UInt32.ofNat

def State.putBlock (key : Int) (val : WalDecoder.Value) (s : State) : State :=
  { s with modification := { s.modification with
      pendingDataBatch :=
        some ((s.modification.pendingDataBatch.getD {}).put key val s.modification.lsn) } }

def putData (key : Key) (val : WalDecoder.Value) : Op Unit := do
  let compact ← liftExcept (toCompact key)
  modify (State.putBlock compact val)

def putPageImage (key : Key) (img : List UInt8) : Op Unit := do
  let s ← get
  refuse (key.isValidKeyOnWritePath = false) (.invalidKey key s.modification.lsn)
  putData key (.image img)

section

variable (rel : RelTag) (blknum : BlockNumber)

/-- Put a record on a block, without regard to the size of the relation. -/
def putRelWalRecord (rec : NeonWalRecord) : Op Unit := do
  refuse (rel.relnode = 0) .invalidRelnode
  putData (relBlockToKey rel blknum) (.walRecord rec)

def putRelPageImage (img : List UInt8) : Op Unit := do
  refuse (rel.relnode = 0) .invalidRelnode
  putPageImage (relBlockToKey rel blknum) img

def putRelPageImageZero : Op Unit :=
  putRelPageImage rel blknum ZERO_PAGE

end

/-!
## Segments of the SLRUs
-/

def assertShardZero : Op Unit := do
  let s ← get
  refuse (s.tline.shard.isShardZero = false) (.panic .shardZero)

section

variable (kind : SlruKind) (segno : UInt32)

def putSlruWalRecord (blknum : BlockNumber) (rec : NeonWalRecord) : Op Unit := do
  let s ← get
  onlyIf (s.tline.shard.isShardZero = true)
    (putData (slruBlockToKey kind segno blknum) (.walRecord rec))

def putSlruPageImage (blknum : BlockNumber) (img : List UInt8) : Op Unit := do
  assertShardZero
  putPageImage (slruBlockToKey kind segno blknum) img

def putSlruSegmentCreation (nblocks : BlockNumber) : Op Unit := do
  assertShardZero
  let dir ← read (fun s => s.get (.slruDir kind))
  refuse (dir.contains segno = true) (.slruAlreadyExists kind segno)
  put (.slruDir kind) (segno :: dir)
  put (.slruSegmentSize kind segno) nblocks

def putSlruExtend (nblocks : BlockNumber) : Op Unit := do
  assertShardZero
  put (.slruSegmentSize kind segno) nblocks

def dropSlruSegment : Op Unit := do
  let dir ← read (fun s => s.get (.slruDir kind))
  put (.slruDir kind) (dir.filter (fun seg => seg != segno))

end

/-!
## Block batches
-/

/-- The size of a relation, which is created if the shard does not know it. -/
def createRelationIfRequired (rel : RelTag) : Op BlockNumber := do
  let s ← get
  match getCachedRelSize s rel .modified with
  | some nblocks => pure nblocks
  | none => do
    if ← read (fun s => getRelExists s rel .modified) then
      getRelSize rel .modified
    else do
      putRelCreation rel 0
      pure 0

def findGaps (rel : RelTag) (blkno previousNblocks : BlockNumber) (shard : ShardIdentity) :
    List Key :=
  ((blockRange previousNblocks blkno).map (relBlockToKey rel)).filter
    (fun key => shard.getShardNumber key == shard.number)

def toRelBlock (key : Key) : Option (RelTag × BlockNumber) :=
  if key.field1 = 0x00 then
    some (⟨key.field5, key.field2, key.field3, key.field4⟩, key.field6)
  else
    none

/-- Account for one value of a batch.  Returns the gaps with its own added. -/
def ingestMeta (shard : ShardIdentity) (gaps : List (List Int × Lsn)) (m : ValueMeta) :
    Op (List (List Int × Lsn)) := do
  let key := Key.fromI128 m.key
  match toRelBlock key with
  | none => throw (.invalidKey key m.lsn)
  | some (rel, blkno) => do
    let newNblocks := blkno + 1
    let oldNblocks ← createRelationIfRequired rel
    onlyIf (oldNblocks < newNblocks) (putRelExtend rel newNblocks)
    let keys ← liftExcept ((findGaps rel blkno oldNblocks shard).mapM toCompact)
    if keys.isEmpty then
      pure gaps
    else
      pure (gaps ++ [(keys, m.lsn)])

def State.addBatch (batch : SerializedValueBatch) (s : State) : State :=
  { s with modification := { s.modification with
      pendingDataBatch :=
        match s.modification.pendingDataBatch with
        | some pending => some (pending.extend batch)
        | none => if batch.hasData then some batch else none } }

def ingestBatch (batch : SerializedValueBatch) (shard : ShardIdentity) : Op Unit := do
  let gaps ← batch.metadata.foldlM (ingestMeta shard) []
  let batch := if gaps.isEmpty then batch else batch.zeroGaps gaps
  modify (State.addBatch batch)

/-!
## Setting the LSN and committing
-/

/-- The directories that always exist. -/
def initEmpty : Op Unit := do
  put .dbdir ⟨[]⟩
  let s ← get
  onlyIf (s.tline.shard.isShardZero = true) (do
    put (.slruDir .clog) []
    put (.slruDir .multiXactMembers) []
    put (.slruDir .multiXactOffsets) [])

def setLsn (lsn : Lsn) : Op Unit := do
  let s ← get
  refuse (lsn < s.modification.lsn) (.setLsn lsn s.modification.lsn)
  onlyIf (s.modification.lsn < lsn) (modify (fun s =>
    { s with modification := { s.modification with
        pendingLsns := s.modification.pendingLsns ++ [s.modification.lsn]
        lsn := lsn } }))

def applyWrites (writes : List BlockWrite) (blocks : Int -> List (Lsn × Bool)) :
    Int -> List (Lsn × Bool) :=
  writes.foldl (fun blocks w =>
    Function.update blocks w.key (putVersion w.lsn w.willInit (blocks w.key))) blocks

def State.pendingWrites (s : State) : List BlockWrite :=
  match s.modification.pendingDataBatch with
  | some batch => batch.writes
  | none => []

def State.committed (s : State) : Timeline :=
  { s.tline with
    metadata := fun k =>
      (s.modification.pendingMetadataPages k).reverse.foldl
        (fun versions v => putVersion v.1 v.2 versions) (s.tline.metadata k)
    blocks := applyWrites s.pendingWrites s.tline.blocks
    lastRecordLsn := (s.modification.pendingLsns ++ [s.modification.lsn]).foldl max
      s.tline.lastRecordLsn
    currentLogicalSize := toI64 (s.tline.currentLogicalSize +
      toI64 (s.modification.pendingNblocks * BLCKSZ)) }

def commit : Op Unit := do
  let s ← get
  if (s.modification.pendingLsns ++ [s.modification.lsn]).all (fun lsn => lsn % 8 == 0) then
    set { s with
      tline := s.committed
      modification := { s.modification with
        pendingLsns := []
        pendingMetadataPages := fun _ => []
        pendingDataBatch := none
        pendingNblocks := 0 } }
  else
    throw (.panic .lsnAligned)

/-!
## Records
-/

/-- What ingest only reads: the shard, the CLOG page of the next transaction when the record
of an LSN is ingested, reconstructed pages. -/
structure WalIngest where
  shard : ShardIdentity
  latestPageNumber : Lsn -> UInt32
  pageContent : State -> Key -> List UInt8

def getRelsize (rel : RelTag) : Op (Option BlockNumber) := do
  if ← read (fun s => getRelExists s rel .modified) then
    let nblocks ← getRelSize rel .modified
    pure (some nblocks)
  else
    pure none

section

variable (shard : ShardIdentity) (rel : RelTag)

def fillGapBlocks (oldNblocks blknum : BlockNumber) : Op Unit :=
  (blockRange oldNblocks blknum).forM (fun gapBlknum =>
    if shard.getShardNumber (relBlockToKey rel gapBlknum) == shard.number then
      putRelPageImageZero rel gapBlknum
    else
      pure ())

def handleRelExtend (blknum : BlockNumber) : Op Unit := do
  let newNblocks := blknum + 1
  let oldNblocks ← createRelationIfRequired rel
  onlyIf (oldNblocks < newNblocks) (do
    putRelExtend rel newNblocks
    fillGapBlocks shard rel oldNblocks blknum)

def putRelWalRecordExtending (blknum : BlockNumber) (rec : NeonWalRecord) : Op Unit := do
  handleRelExtend shard rel blknum
  putRelWalRecord rel blknum rec

end

/-- The map pages within the size, and the records that clear the bits on them. -/
def clearVmRecords (bits : ClearVmBits) (vmSize : BlockNumber) :
    List (BlockNumber × NeonWalRecord) :=
  let within (blk : Option BlockNumber) : Option BlockNumber :=
    (blk.map HEAPBLK_TO_MAPBLOCK).filter (fun page => page < vmSize)
  match within bits.newHeapBlkno, within bits.oldHeapBlkno with
  | none, none => []
  | some newVmBlk, none =>
    [(newVmBlk, .clearVisibilityMapFlags bits.newHeapBlkno none bits.flags)]
  | none, some oldVmBlk =>
    [(oldVmBlk, .clearVisibilityMapFlags none bits.oldHeapBlkno bits.flags)]
  | some newVmBlk, some oldVmBlk =>
    if newVmBlk = oldVmBlk then
      [(newVmBlk, .clearVisibilityMapFlags bits.newHeapBlkno bits.oldHeapBlkno bits.flags)]
    else
      [(newVmBlk, .clearVisibilityMapFlags bits.newHeapBlkno none bits.flags),
        (oldVmBlk, .clearVisibilityMapFlags none bits.oldHeapBlkno bits.flags)]

def ingestClearVmBits (shard : ShardIdentity) (bits : ClearVmBits) : Op Unit := do
  match ← getRelsize bits.vmRel with
  | none => pure ()
  | some vmSize =>
    (clearVmRecords bits vmSize).forM (fun update =>
      putRelWalRecordExtending shard bits.vmRel update.1 update.2)

/-!
### Truncation
-/

def SMGR_TRUNCATE_HEAP : UInt32 := 0x0001
def SMGR_TRUNCATE_VM : UInt32 := 0x0002
def SMGR_TRUNCATE_FSM : UInt32 := 0x0004

def SLOTS_PER_FSM_PAGE : UInt32 := (8192 - 24 - 4) - (8192 / 2 - 1)

def VM_HEAPBLOCKS_PER_BYTE : UInt32 := 8 / 2

/-- The block of the leaf page of the free space map, after the upper pages. -/
def fsmLogicalToPhysical (addr : BlockNumber) : BlockNumber :=
  let level1 := addr / SLOTS_PER_FSM_PAGE
  let level2 := level1 / SLOTS_PER_FSM_PAGE
  (addr + 1) + (level1 + 1) + (level2 + 1) - 1

def RelFileNode.fork (rnode : RelFileNode) (forknum : UInt8) : RelTag :=
  ⟨forknum, rnode.spcnode, rnode.dbnode, rnode.relnode⟩

/-- Lower the shard's size of a map fork, if it knows the fork. -/
def truncateMap (rel : RelTag) (pageNo : BlockNumber) : Op Unit := do
  let nblocks ← getRelsize rel
  onlyIf (pageNo < nblocks.getD 0) (putRelTruncation rel pageNo)

def truncateFsm (shard : ShardIdentity) (trunc : XlSmgrTruncate) : Op Unit := do
  let rel := RelFileNode.fork trunc.rnode FSM_FORKNUM
  let pageNo := fsmLogicalToPhysical (trunc.blkno / SLOTS_PER_FSM_PAGE)
  if trunc.blkno % SLOTS_PER_FSM_PAGE ≠ 0 ∧
      shard.isKeyLocal (relBlockToKey rel pageNo) = true then
    putRelPageImageZero rel pageNo
    truncateMap rel (pageNo + 1)
  else
    truncateMap rel pageNo

/-- The last remaining byte and bit of the visibility map. -/
def vmTruncByte (blkno : BlockNumber) : UInt32 :=
  blkno % HEAPBLOCKS_PER_PAGE / VM_HEAPBLOCKS_PER_BYTE

def vmTruncOffs (blkno : BlockNumber) : UInt32 :=
  blkno % VM_HEAPBLOCKS_PER_BYTE * 2

def vmTruncPage (blkno : BlockNumber) : BlockNumber :=
  blkno / HEAPBLOCKS_PER_PAGE

def truncateVm (shard : ShardIdentity) (trunc : XlSmgrTruncate) : Op Unit := do
  let rel := RelFileNode.fork trunc.rnode VISIBILITYMAP_FORKNUM
  let pageNo := vmTruncPage trunc.blkno
  if (vmTruncByte trunc.blkno ≠ 0 ∨ vmTruncOffs trunc.blkno ≠ 0) ∧
      shard.isKeyLocal (relBlockToKey rel pageNo) = true then
    putRelWalRecord rel pageNo (.truncateVisibilityMap
      (vmTruncByte trunc.blkno).toUInt64 (vmTruncOffs trunc.blkno).toUInt64)
    truncateMap rel (pageNo + 1)
  else
    truncateMap rel pageNo

def ingestXlogSmgrTruncate (shard : ShardIdentity) (trunc : XlSmgrTruncate) : Op Unit := do
  onlyIf (trunc.flags &&& SMGR_TRUNCATE_HEAP ≠ 0)
    (putRelTruncation (RelFileNode.fork trunc.rnode MAIN_FORKNUM) trunc.blkno)
  onlyIf (trunc.flags &&& SMGR_TRUNCATE_FSM ≠ 0) (truncateFsm shard trunc)
  onlyIf (trunc.flags &&& SMGR_TRUNCATE_VM ≠ 0) (truncateVm shard trunc)

/-!
### Databases
-/

def Version.pageLsn (s : State) : Version -> Lsn
  | lsnRange effectiveLsn _ => effectiveLsn
  | modified => max s.tline.lastRecordLsn s.modification.lsn

variable (ingest : WalIngest)

/-- Read a page; beyond the size of the relation it is a zero page. -/
def getRelPageAtLsn (rel : RelTag) (blknum : BlockNumber)
    (version : Version) : Op (List UInt8) := do
  refuse (rel.relnode = 0) .invalidRelnode
  let nblocks ← getRelSize rel version
  if nblocks ≤ blknum then
    pure ZERO_PAGE
  else
    let key := relBlockToKey rel blknum
    let compact ← liftExcept (toCompact key)
    let s ← get
    if s.tline.hasPage compact (version.pageLsn s) then
      pure (ingest.pageContent s key)
    else
      throw (.missingPage key)

def copyBlock (src dst : RelTag) (blknum : BlockNumber) : Op Unit :=
  if ingest.shard.isKeyLocal (relBlockToKey src blknum) then do
    let content ← getRelPageAtLsn ingest src blknum .modified
    putRelPageImage dst blknum content
  else
    pure ()

def copyRelation (dbId tablespaceId : Oid) (src : RelTag) : Op Unit := do
  let nblocks ← getRelSize src .modified
  let dst : RelTag := { src with spcnode := tablespaceId, dbnode := dbId }
  putRelCreation dst nblocks
  (blockRange 0 nblocks).forM (copyBlock ingest src dst)

def ingestXlogDbaseCreate (dbId tablespaceId srcDbId srcTablespaceId : Oid) : Op Unit := do
  let rels ← read (fun s => listRels s srcTablespaceId srcDbId .modified)
  let filemap ← read (fun s => s.get (.relmapFile srcTablespaceId srcDbId))
  putRelmapFile tablespaceId dbId filemap
  rels.forM (copyRelation ingest dbId tablespaceId)

def ingestXlogDbaseDrop (dbId : Oid) (tablespaceIds : List Oid) : Op Unit :=
  tablespaceIds.forM (fun tablespaceId => dropDbdir tablespaceId dbId)

/-!
### Transactions
-/

def CLOG_XACTS_PER_PAGE : UInt32 := 8192 * 4
def SLRU_PAGES_PER_SEGMENT : UInt32 := 32
def MULTIXACT_OFFSETS_PER_PAGE : UInt32 := 8192 / 4
def MULTIXACT_MEMBERS_PER_PAGE : UInt32 := 8192 / 20 * 4

structure SlruUpdate where
  kind : SlruKind
  pageno : UInt32
  update : NeonWalRecord

namespace SlruUpdate

def segno (u : SlruUpdate) : UInt32 :=
  u.pageno / SLRU_PAGES_PER_SEGMENT

def rpageno (u : SlruUpdate) : UInt32 :=
  u.pageno % SLRU_PAGES_PER_SEGMENT

end SlruUpdate

def putSlruUpdates (updates : List SlruUpdate) : Op Unit :=
  updates.forM (fun u => putSlruWalRecord u.kind u.segno u.rpageno u.update)

def clogUpdate (isCommit : Bool) (xactTime : UInt64) (pageno : UInt32)
    (xids : List TransactionId) : SlruUpdate :=
  ⟨.clog, pageno, if isCommit then .clogSetCommitted xids xactTime else .clogSetAborted xids⟩

/-- The records of the subtransactions that are left, after those of a page. -/
def clogUpdatesFrom (isCommit : Bool) (xactTime : UInt64) :
    UInt32 -> List TransactionId -> List TransactionId -> List SlruUpdate
  | pageno, pageXids, [] => [clogUpdate isCommit xactTime pageno pageXids]
  | pageno, pageXids, subxact :: rest =>
    let subxactPageno := subxact / CLOG_XACTS_PER_PAGE
    if subxactPageno = pageno then
      clogUpdatesFrom isCommit xactTime pageno (pageXids ++ [subxact]) rest
    else
      clogUpdate isCommit xactTime pageno pageXids ::
        clogUpdatesFrom isCommit xactTime subxactPageno [subxact] rest

def clogUpdates (isCommit : Bool) (parsed : XlXactParsedRecord) : List SlruUpdate :=
  clogUpdatesFrom isCommit parsed.xactTime (parsed.xid / CLOG_XACTS_PER_PAGE) [parsed.xid]
    parsed.subxacts

def addDrops (drops : DropRelations) (xnode : RelFileNode) : DropRelations :=
  let db := (xnode.spcnode, xnode.dbnode)
  let rels := [MAIN_FORKNUM, FSM_FORKNUM, VISIBILITYMAP_FORKNUM, INIT_FORKNUM].map
    (RelFileNode.fork xnode)
  match drops.lookup db with
  | some _ =>
    drops.map (fun entry => if entry.1 = db then (entry.1, entry.2 ++ rels) else entry)
  | none => drops ++ [(db, rels)]

def dropRelationsOf (parsed : XlXactParsedRecord) : DropRelations :=
  parsed.xnodes.foldl addDrops []

def ingestXactCommon (isCommit : Bool) (common : XactCommon) : Op Unit := do
  putSlruUpdates (clogUpdates isCommit common.parsed)
  putRelDrops (dropRelationsOf common.parsed)

def ingestXactRecord : XactRecord -> Op Unit
  | .prepare _ _ => pure ()
  | .commit common => ingestXactCommon true common
  | .abort common => ingestXactCommon false common
  | .commitPrepared common => ingestXactCommon true common
  | .abortPrepared common => ingestXactCommon false common

/-!
### CLOG and multixacts
-/

def FIRST_NORMAL_TRANSACTION_ID : UInt32 := 3

def transactionIdPrecedes (id1 id2 : TransactionId) : Bool :=
  if id1 < FIRST_NORMAL_TRANSACTION_ID ∨ id2 < FIRST_NORMAL_TRANSACTION_ID then
    id1 < id2
  else
    0x80000000 ≤ id1 - id2

def clogpagePrecedes (page1 page2 : UInt32) : Bool :=
  let xid1 := page1 * CLOG_XACTS_PER_PAGE + (FIRST_NORMAL_TRANSACTION_ID + 1)
  let xid2 := page2 * CLOG_XACTS_PER_PAGE + (FIRST_NORMAL_TRANSACTION_ID + 1)
  transactionIdPrecedes xid1 xid2 && transactionIdPrecedes xid1 (xid2 + CLOG_XACTS_PER_PAGE - 1)

def slruMayDeleteClogsegment (segpage cutoffPage : UInt32) : Bool :=
  clogpagePrecedes segpage cutoffPage &&
    clogpagePrecedes (segpage + SLRU_PAGES_PER_SEGMENT - 1) cutoffPage

def ingestClogTruncate (pageno : UInt32) : Op Unit := do
  let latestPageNumber ← read (fun s => .ok (ingest.latestPageNumber s.modification.lsn))
  if clogpagePrecedes latestPageNumber pageno then
    pure ()
  else if ingest.shard.isShardZero then do
    let segments ← read (fun s => s.get (.slruDir .clog))
    segments.forM (fun segno =>
      if slruMayDeleteClogsegment (segno * SLRU_PAGES_PER_SEGMENT) pageno then
        dropSlruSegment .clog segno
      else
        pure ())
  else
    pure ()

section

variable (kind : SlruKind) (segno : UInt32)

def slruSegmentExists : Op Bool := do
  assertShardZero
  let dir ← read (fun s => s.get (.slruDir kind))
  pure (dir.contains segno)

def createSegmentIfRequired : Op BlockNumber := do
  if ← slruSegmentExists kind segno then
    assertShardZero
    read (fun s => s.get (.slruSegmentSize kind segno))
  else
    putSlruSegmentCreation kind segno 0
    pure 0

def handleSlruExtend (blknum : BlockNumber) : Op Unit := do
  let newNblocks := blknum + 1
  let oldNblocks ← createSegmentIfRequired kind segno
  onlyIf (oldNblocks < newNblocks) (do
    putSlruExtend kind segno newNblocks
    (blockRange oldNblocks blknum).forM (fun gapBlknum =>
      putSlruPageImage kind segno gapBlknum ZERO_PAGE))

end

def putSlruPageImageExtending (shard : ShardIdentity) (kind : SlruKind) (segno : UInt32)
    (blknum : BlockNumber) (img : List UInt8) : Op Unit :=
  if shard.isShardZero then do
    handleSlruExtend kind segno blknum
    putSlruPageImage kind segno blknum img
  else
    pure ()

/-- The records for the member pages from an offset on, and the next offset. -/
def membersUpdates : Nat -> MultiXactOffset -> List MultiXactMember ->
    List SlruUpdate × MultiXactOffset
  | 0, offset, _ => ([], offset)
  | fuel + 1, offset, members =>
    let pageRemain := MULTIXACT_MEMBERS_PER_PAGE - offset % MULTIXACT_MEMBERS_PER_PAGE
    let thisPage := members.take pageRemain.toNat
    if thisPage.isEmpty then
      ([], offset)
    else
      let rest := membersUpdates fuel (offset + UInt32.ofNat thisPage.length)
        (members.drop pageRemain.toNat)
      (⟨.multiXactMembers, offset / MULTIXACT_MEMBERS_PER_PAGE,
          .multixactMembersCreate offset thisPage⟩ :: rest.1, rest.2)

def multixactUpdates (xlrec : XlMultiXactCreate) : List SlruUpdate :=
  ⟨.multiXactOffsets, xlrec.mid / MULTIXACT_OFFSETS_PER_PAGE,
      .multixactOffsetCreate xlrec.mid xlrec.moff⟩ ::
    (membersUpdates (xlrec.members.length + 1) xlrec.moff xlrec.members).1

def ingestMultixactCreate (xlrec : XlMultiXactCreate) : Op Unit := do
  putSlruUpdates (multixactUpdates xlrec)
  refuse ((membersUpdates (xlrec.members.length + 1) xlrec.moff xlrec.members).2 ≠
      xlrec.moff + xlrec.nmembers)
    (.panic .multixactNextOffset)

def mxOffsetToMemberSegment (offset : MultiXactOffset) : UInt32 :=
  offset / MULTIXACT_MEMBERS_PER_PAGE / SLRU_PAGES_PER_SEGMENT

/-- The segments from the first truncated one up to the last, which is kept. -/
def truncatedSegments (xlrec : XlMultiXactTruncate) : List UInt32 :=
  let start := mxOffsetToMemberSegment xlrec.startTruncMemb
  let stop := mxOffsetToMemberSegment xlrec.endTruncMemb
  if start ≤ stop then
    blockRange start stop
  else
    blockRange start (mxOffsetToMemberSegment 0xFFFFFFFF + 1) ++ blockRange 0 stop

def ingestMultixactTruncate (shard : ShardIdentity) (xlrec : XlMultiXactTruncate) : Op Unit :=
  if shard.isShardZero then
    (truncatedSegments xlrec).forM (dropSlruSegment .multiXactMembers)
  else
    pure ()

def ingestMetadataRecord : Option MetadataRecord -> Op Unit
  | some (.heapam (.clearVmBits bits)) => ingestClearVmBits ingest.shard bits
  | some (.neonrmgr (.clearVmBits bits)) => ingestClearVmBits ingest.shard bits
  | some (.smgr (.create rel)) => putRelCreation rel 0
  | some (.smgr (.truncate trunc)) => ingestXlogSmgrTruncate ingest.shard trunc
  | some (.dbase (.create dbId tablespaceId srcDbId srcTablespaceId)) =>
    ingestXlogDbaseCreate ingest dbId tablespaceId srcDbId srcTablespaceId
  | some (.dbase (.drop dbId tablespaceIds)) => ingestXlogDbaseDrop dbId tablespaceIds
  | some (.clog (.zeroPage segno rpageno)) =>
    putSlruPageImageExtending ingest.shard .clog segno rpageno ZERO_PAGE
  | some (.clog (.truncate pageno _ _)) => ingestClogTruncate ingest pageno
  | some (.xact rec) => ingestXactRecord rec
  | some (.multiXact (.zeroPage slruKind segno rpageno)) =>
    putSlruPageImageExtending ingest.shard slruKind segno rpageno ZERO_PAGE
  | some (.multiXact (.create xlrec)) => ingestMultixactCreate xlrec
  | some (.multiXact (.truncate xlrec)) => ingestMultixactTruncate ingest.shard xlrec
  | some (.relmap (.update dbid tsid _ buf)) => putRelmapFile tsid dbid buf
  | some (.xlog _) => pure ()
  | some (.logicalMessage _) => pure ()
  | some (.standby _) => pure ()
  | some (.replorigin _) => pure ()
  | none => pure ()

def State.hasDirtyData (s : State) : Bool :=
  s.modification.pendingDataBatch.any SerializedValueBatch.hasData

def ingestMetadata (interpreted : InterpretedWalRecord) : Op Unit := do
  setLsn interpreted.nextRecordLsn
  let s ← get
  refuse (interpreted.flushUncommitted = .yes ∧ s.hasDirtyData = true) (.panic .dirtyData)
  ingestMetadataRecord ingest interpreted.metadataRecord

def ingestRecord (interpreted : InterpretedWalRecord) : Op Unit := do
  ingestMetadata ingest interpreted
  ingestBatch interpreted.batch ingest.shard

/-!
## Runs
-/

def State.new (shard : ShardIdentity) (relSizeV2Enabled : Bool) (status : RelSizeMigration)
    (snapshotCapacity : Nat) (lsn : Lsn) : State where
  tline :=
    { shard := shard
      metadata := fun _ => []
      blocks := fun _ => []
      lastRecordLsn := 0
      currentLogicalSize := 0
      relSizeLatestCache := fun _ => none
      relSizeSnapshotCache := fun _ _ => none
      relSizeSnapshotCapacity := snapshotCapacity
      relSizeV2Status := status
      relSizeMigratedAt := none
      relSizeV2Enabled := relSizeV2Enabled }
  modification :=
    { lsn := lsn
      pendingLsns := []
      pendingMetadataPages := fun _ => []
      pendingDataBatch := none
      pendingNblocks := 0
      isImportingPgdata := false
      belowSince := fun _ _ => 0 }
  sparseRels := []

inductive Action where
  | ingest (interpreted : InterpretedWalRecord)
  | commit

def Action.run : Action -> Op Unit
  | .ingest interpreted => ingestRecord ingest interpreted
  | .commit => Datadir.commit

def runActions (actions : List Action) : Op Unit :=
  actions.forM (Action.run ingest)

end Datadir
end Pageserver
end OpenNeon

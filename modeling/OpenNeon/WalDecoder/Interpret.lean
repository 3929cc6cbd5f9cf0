import OpenNeon.WalDecoder.Models

/-!
# Interpreting a WAL record for shards

One pass over a decoded record fills the interpreted records of all given shards.
The metadata record is routed first, the block changes after it, block by block.
The decoders of the record's own format know nothing of shards and are parameters.
-/

namespace OpenNeon
namespace WalDecoder

open Base Pageserver

def BLCKSZ : Nat := 8192

def RM_XLOG_ID : UInt8 := 0
def RM_XACT_ID : UInt8 := 1
def RM_SMGR_ID : UInt8 := 2
def RM_CLOG_ID : UInt8 := 3
def RM_DBASE_ID : UInt8 := 4
def RM_TBLSPC_ID : UInt8 := 5
def RM_MULTIXACT_ID : UInt8 := 6
def RM_RELMAP_ID : UInt8 := 7
def RM_STANDBY_ID : UInt8 := 8
def RM_HEAP2_ID : UInt8 := 9
def RM_HEAP_ID : UInt8 := 10
def RM_REPLORIGIN_ID : UInt8 := 19
def RM_LOGICALMSG_ID : UInt8 := 21
def RM_NEON_ID : UInt8 := 134

def XLOG_FPI_FOR_HINT : UInt8 := 0xA0
def XLOG_FPI : UInt8 := 0xB0
def XLR_RMGR_INFO_MASK : UInt8 := 0xF0

/-- The code of a database creation that copies files, in every version. -/
def XLOG_DBASE_CREATE_FILE_COPY : UInt8 := 0x00

def HEAPBLOCKS_PER_PAGE : UInt32 := (8192 - 24) * 8 / 2

def HEAPBLK_TO_MAPBLOCK (x : BlockNumber) : BlockNumber :=
  x / HEAPBLOCKS_PER_PAGE

inductive InterpretPanic where
  | advancePastEnd
  | batchNotEmpty
  | sliceOutOfRange
  | splitOutOfRange
  | indexOutOfRange
  | imageLength
  | invalidKey

inductive InterpretError (err : Type) where
  | decode (e : err)
  | unsupportedKey (lsn : Lsn) (key : Key)
  | panic (p : InterpretPanic)

/-- The decoders of the formats of the resource managers. -/
structure RecordDecoder (err : Type) where
  decodeWalRecord : List UInt8 -> PgMajorVersion -> Except err DecodedWALRecord
  decodeHeapamRecord : List UInt8 -> DecodedWALRecord -> PgMajorVersion ->
    Except err (Option MetadataRecord)
  decodeNeonmgrRecord : List UInt8 -> DecodedWALRecord -> PgMajorVersion ->
    Except err (Option MetadataRecord)
  decodeSmgrRecord : List UInt8 -> DecodedWALRecord -> Except err (Option MetadataRecord)
  decodeDbaseRecord : List UInt8 -> DecodedWALRecord -> PgMajorVersion ->
    Except err (Option MetadataRecord)
  decodeClogRecord : List UInt8 -> DecodedWALRecord -> PgMajorVersion ->
    Except err (Option MetadataRecord)
  decodeXactRecord : List UInt8 -> DecodedWALRecord -> Lsn ->
    Except err (Option MetadataRecord)
  decodeMultixactRecord : List UInt8 -> DecodedWALRecord -> PgMajorVersion ->
    Except err (Option MetadataRecord)
  decodeRelmapRecord : List UInt8 -> DecodedWALRecord ->
    Except err (Option MetadataRecord)
  decodeXlogRecord : List UInt8 -> DecodedWALRecord -> Lsn ->
    Except err (Option MetadataRecord)
  decodeLogicalMessageRecord : List UInt8 -> DecodedWALRecord ->
    Except err (Option MetadataRecord)
  decodeStandbyRecord : List UInt8 -> DecodedWALRecord ->
    Except err (Option MetadataRecord)
  decodeReploriginRecord : List UInt8 -> DecodedWALRecord ->
    Except err (Option MetadataRecord)

/-- The map of the interpreted records, in the order of its iteration. -/
abbrev ShardRecords := List (ShardIdentity × InterpretedWalRecord)

namespace ShardRecords

def insert (m : ShardRecords) (shard : ShardIdentity)
    (record : InterpretedWalRecord) : ShardRecords :=
  if m.any (fun p => p.1 == shard) then
    m.map (fun p => if p.1 == shard then (shard, record) else p)
  else
    m ++ [(shard, record)]

def get? (m : ShardRecords) (shard : ShardIdentity) : Option InterpretedWalRecord :=
  (m.find? (fun p => p.1 == shard)).map Prod.snd

end ShardRecords

/-!
## Metadata records
-/

namespace MetadataRecord

section Decode

variable {err : Type}

def decodeMetadata (d : RecordDecoder err) (decoded : DecodedWALRecord)
    (nextRecordLsn : Lsn) (pgVersion : PgMajorVersion) (buf : List UInt8) :
    Except err (Option MetadataRecord) :=
  if decoded.xlRmid = RM_HEAP_ID ∨ decoded.xlRmid = RM_HEAP2_ID then
    d.decodeHeapamRecord buf decoded pgVersion
  else if decoded.xlRmid = RM_NEON_ID then
    d.decodeNeonmgrRecord buf decoded pgVersion
  else if decoded.xlRmid = RM_SMGR_ID then
    d.decodeSmgrRecord buf decoded
  else if decoded.xlRmid = RM_DBASE_ID then
    d.decodeDbaseRecord buf decoded pgVersion
  else if decoded.xlRmid = RM_TBLSPC_ID then
    .ok none
  else if decoded.xlRmid = RM_CLOG_ID then
    d.decodeClogRecord buf decoded pgVersion
  else if decoded.xlRmid = RM_XACT_ID then
    d.decodeXactRecord buf decoded nextRecordLsn
  else if decoded.xlRmid = RM_MULTIXACT_ID then
    d.decodeMultixactRecord buf decoded pgVersion
  else if decoded.xlRmid = RM_RELMAP_ID then
    d.decodeRelmapRecord buf decoded
  else if decoded.xlRmid = RM_XLOG_ID then
    d.decodeXlogRecord buf decoded nextRecordLsn
  else if decoded.xlRmid = RM_LOGICALMSG_ID then
    d.decodeLogicalMessageRecord buf decoded
  else if decoded.xlRmid = RM_STANDBY_ID then
    d.decodeStandbyRecord buf decoded
  else if decoded.xlRmid = RM_REPLORIGIN_ID then
    d.decodeReploriginRecord buf decoded
  else
    .ok none

end Decode

def isLocalVmPage (shard : ShardIdentity) (vmRel : RelTag) (heapBlk : BlockNumber) : Bool :=
  shard.isKeyLocal (relBlockToKey vmRel (HEAPBLK_TO_MAPBLOCK heapBlk))

def localVmBits (shard : ShardIdentity) (bits : ClearVmBits) : Option ClearVmBits :=
  let updatedOld := bits.oldHeapBlkno.filter (isLocalVmPage shard bits.vmRel)
  let updatedNew := bits.newHeapBlkno.filter (isLocalVmPage shard bits.vmRel)
  if updatedOld.isSome || updatedNew.isSome then
    some { bits with oldHeapBlkno := updatedOld, newHeapBlkno := updatedNew }
  else
    none

def withMetadata (record : InterpretedWalRecord) (rec : Option MetadataRecord) :
    InterpretedWalRecord :=
  match rec with
  | none => record
  | some _ => { record with metadataRecord := rec }

/-- Gives each shard its part of the metadata record. -/
def route (rec : Option MetadataRecord) : ShardRecords -> ShardRecords
  | [] => []
  | (shard, record) :: rest =>
    match rec with
    | some (.heapam (.clearVmBits bits)) =>
      (shard, withMetadata record
        ((localVmBits shard bits).map (fun b => .heapam (.clearVmBits b))))
        :: route rec rest
    | some (.neonrmgr (.clearVmBits bits)) =>
      (shard, withMetadata record
        ((localVmBits shard bits).map (fun b => .neonrmgr (.clearVmBits b))))
        :: route rec rest
    | some (.logicalMessage (.put _ _)) =>
      if shard.isShardZero then
        -- no other shard gets this record
        (shard, { record with metadataRecord := rec }) :: rest
      else
        (shard, record) :: route rec rest
    | _ => (shard, { record with metadataRecord := rec }) :: route rec rest

def fromDecodedFiltered {err : Type} (d : RecordDecoder err)
    (decoded : DecodedWALRecord) (shardRecords : ShardRecords) (nextRecordLsn : Lsn)
    (pgVersion : PgMajorVersion) : Except (InterpretError err) ShardRecords :=
  if decoded.record.length < decoded.mainDataOffset then
    .error (.panic .advancePastEnd)
  else
    match decodeMetadata d decoded nextRecordLsn pgVersion
        (decoded.record.drop decoded.mainDataOffset) with
    | .error e => .error (.decode e)
    | .ok rec => .ok (route rec shardRecords)

end MetadataRecord

/-!
## Block changes
-/

def BKPIMAGE_IS_COMPRESSED : UInt8 := 0x02
def BKPIMAGE_COMPRESS_PGLZ : UInt8 := 0x04
def BKPIMAGE_COMPRESS_LZ4 : UInt8 := 0x08
def BKPIMAGE_COMPRESS_ZSTD : UInt8 := 0x10

def bkpimageIsCompressed (bimgInfo : UInt8) : PgMajorVersion -> Bool
  | .PG14 => bimgInfo &&& BKPIMAGE_IS_COMPRESSED != 0
  | _ =>
    bimgInfo &&& (BKPIMAGE_COMPRESS_PGLZ ||| BKPIMAGE_COMPRESS_LZ4 ||| BKPIMAGE_COMPRESS_ZSTD) != 0

def pageIsNew (pg : List UInt8) : Except InterpretPanic Bool :=
  match pg[14]? with
  | none => .error .indexOutOfRange
  | some upperLow =>
    if upperLow != 0 then
      .ok false
    else
      match pg[15]? with
      | none => .error .indexOutOfRange
      | some upperHigh => .ok (upperHigh == 0)

def pageSetLsn (pg : List UInt8) (lsn : Lsn) : List UInt8 :=
  leBytes 4 (lsn / 2 ^ 32) ++ leBytes 4 lsn ++ pg.drop 8

def DecodedBkpBlock.rel (blk : DecodedBkpBlock) : RelTag :=
  { spcnode := blk.rnodeSpcnode
    dbnode := blk.rnodeDbnode
    relnode := blk.rnodeRelnode
    forknum := blk.forknum }

def DecodedBkpBlock.key (blk : DecodedBkpBlock) : Key :=
  relBlockToKey blk.rel blk.blkno

/-- Fills the hole left out of the image; a split beyond the buffer's capacity panics. -/
def fillHole (image : List UInt8) (holeOffset holeLength : Nat) :
    Except InterpretPanic (List UInt8) :=
  if holeLength = 0 then
    .ok image
  else if max BLCKSZ image.length < holeOffset then
    .error .splitOutOfRange
  else
    .ok (image.take holeOffset ++ List.replicate holeLength 0 ++ image.drop holeOffset)

def extractImage (decoded : DecodedWALRecord) (blk : DecodedBkpBlock)
    (nextRecordLsn : Lsn) : Except InterpretPanic (List UInt8) := do
  let imgLen := blk.bimgLen.toNat
  let imgOffs := blk.bimgOffset.toNat
  if decoded.record.length < imgOffs + imgLen then
    throw .sliceOutOfRange
  let image ← fillHole ((decoded.record.drop imgOffs).take imgLen)
    blk.holeOffset.toNat blk.holeLength.toNat
  -- the LSN of a page that is not initialized must not be set
  let isNew ← pageIsNew image
  let image := if isNew then image else pageSetLsn image nextRecordLsn
  if image.length != BLCKSZ then
    throw .imageLength
  pure image

namespace SerializedValueBatch

def blockIsImage (decoded : DecodedWALRecord) (blk : DecodedBkpBlock)
    (pgVersion : PgMajorVersion) : Bool :=
  blk.applyImage && blk.hasImage && decoded.xlRmid == RM_XLOG_ID
    && (decoded.xlInfo == XLOG_FPI || decoded.xlInfo == XLOG_FPI_FOR_HINT)
    && !bkpimageIsCompressed blk.bimgInfo pgVersion
    && blk.bimgLen != 0

def blockValue (decoded : DecodedWALRecord) (nextRecordLsn : Lsn)
    (pgVersion : PgMajorVersion) (blk : DecodedBkpBlock) :
    Except InterpretPanic Value :=
  if blockIsImage decoded blk pgVersion then
    (extractImage decoded blk nextRecordLsn).map Value.image
  else
    .ok (.walRecord (.postgres (blk.willInit || blk.applyImage) decoded.record))

def addSerialized (b : SerializedValueBatch) (key : Int) (lsn : Lsn) (val : Value) :
    SerializedValueBatch :=
  let relativeOff := b.raw.length
  let raw := b.raw ++ val.ser
  { raw := raw
    metadata := b.metadata ++ [.serialized
      { key := key
        lsn := lsn
        batchOffset := relativeOff
        len := raw.length - relativeOff
        willInit := val.willInit }]
    maxLsn := max b.maxLsn lsn
    len := b.len + 1 }

def addObserved (b : SerializedValueBatch) (key : Int) (lsn : Lsn) : SerializedValueBatch :=
  { b with metadata := b.metadata ++ [.observed { key := key, lsn := lsn }] }

/-- The compact form of a key; a key that has none is refused. -/
def compactKey (key : Key) : Except InterpretPanic Int :=
  match key.toCompact with
  | .ok k => .ok k
  | .error _ => .error .invalidKey

def addBlock (decoded : DecodedWALRecord) (nextRecordLsn : Lsn)
    (pgVersion : PgMajorVersion) (blk : DecodedBkpBlock) (shard : ShardIdentity)
    (b : SerializedValueBatch) : Except InterpretPanic SerializedValueBatch := do
  if !shard.isKeyLocal blk.key then
    -- shard zero tracks the sizes of all relations
    if shard.isShardZero then
      let key ← compactKey blk.key
      pure (b.addObserved key nextRecordLsn)
    else
      pure b
  else
    let val ← blockValue decoded nextRecordLsn pgVersion blk
    let key ← compactKey blk.key
    pure (b.addSerialized key nextRecordLsn val)

section

variable {err : Type} (decoded : DecodedWALRecord) (nextRecordLsn : Lsn)
  (pgVersion : PgMajorVersion)

def addBlockRecord (blk : DecodedBkpBlock) (p : ShardIdentity × InterpretedWalRecord) :
    Except (InterpretError err) (ShardIdentity × InterpretedWalRecord) :=
  ((addBlock decoded nextRecordLsn pgVersion blk p.1 p.2.batch).mapError .panic).map
    (fun batch => (p.1, { p.2 with batch := batch }))

def addBlockAll (shardRecords : ShardRecords)
    (blk : DecodedBkpBlock) : Except (InterpretError err) ShardRecords :=
  if !blk.key.isValidKeyOnWritePath then
    .error (.unsupportedKey nextRecordLsn blk.key)
  else
    shardRecords.mapM (addBlockRecord decoded nextRecordLsn pgVersion blk)

end

def fromDecodedFiltered {err : Type} (decoded : DecodedWALRecord)
    (shardRecords : ShardRecords) (nextRecordLsn : Lsn) (pgVersion : PgMajorVersion) :
    Except (InterpretError err) ShardRecords :=
  if shardRecords.any (fun p => !p.2.batch.isEmpty) then
    .error (.panic .batchNotEmpty)
  else
    decoded.blocks.foldlM (addBlockAll decoded nextRecordLsn pgVersion) shardRecords

end SerializedValueBatch

/-- A legacy database creation, which reads the blocks of other relations. -/
def DecodedWALRecord.isDbaseCreateCopy (decoded : DecodedWALRecord) : Bool :=
  decoded.xlRmid == RM_DBASE_ID
    && decoded.xlInfo &&& XLR_RMGR_INFO_MASK == XLOG_DBASE_CREATE_FILE_COPY

namespace InterpretedWalRecord

def fromBytesFiltered {err : Type} (d : RecordDecoder err) (buf : List UInt8)
    (shards : List ShardIdentity) (nextRecordLsn : Lsn) (pgVersion : PgMajorVersion) :
    Except (InterpretError err) ShardRecords :=
  match d.decodeWalRecord buf pgVersion with
  | .error e => .error (.decode e)
  | .ok decoded => do
    let blank : InterpretedWalRecord :=
      { metadataRecord := none
        batch := {}
        nextRecordLsn := nextRecordLsn
        flushUncommitted := if decoded.isDbaseCreateCopy then .yes else .no
        xid := decoded.xlXid }
    let shardRecords := shards.foldl (fun m s => ShardRecords.insert m s blank) []
    let shardRecords ← MetadataRecord.fromDecodedFiltered d decoded shardRecords
      nextRecordLsn pgVersion
    SerializedValueBatch.fromDecodedFiltered decoded shardRecords nextRecordLsn pgVersion

end InterpretedWalRecord

end WalDecoder
end OpenNeon

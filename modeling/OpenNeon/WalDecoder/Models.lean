import OpenNeon.Pageserver.Shard
import OpenNeon.WalDecoder.Value

/-!
# Interpreted WAL records

A decoded record lists the blocks that it changes.  Its interpretation for a shard
has a batch of the changes of the shard's own blocks, already in the storage
format, and at most one metadata record.
-/

namespace OpenNeon
namespace WalDecoder

open Pageserver

abbrev RepOriginId := UInt16

inductive PgMajorVersion where
  | PG14
  | PG15
  | PG16
  | PG17

inductive SlruKind where
  | clog
  | multiXactMembers
  | multiXactOffsets
  deriving DecidableEq

structure RelFileNode where
  spcnode : Oid
  dbnode : Oid
  relnode : Oid

/-!
## Decoded records
-/

structure DecodedBkpBlock where
  rnodeSpcnode : Oid
  rnodeDbnode : Oid
  rnodeRelnode : Oid
  forknum : UInt8
  blkno : BlockNumber
  hasImage : Bool
  applyImage : Bool
  willInit : Bool
  holeOffset : UInt16
  holeLength : UInt16
  bimgOffset : UInt32
  bimgLen : UInt16
  bimgInfo : UInt8

structure DecodedWALRecord where
  xlXid : TransactionId
  xlInfo : UInt8
  xlRmid : UInt8
  record : List UInt8
  blocks : List DecodedBkpBlock
  mainDataOffset : Nat
  originId : RepOriginId

/-!
## Metadata records
-/

/-- The heap blocks whose visibility bits a record clears, and the fork of the bits. -/
structure ClearVmBits where
  newHeapBlkno : Option BlockNumber
  oldHeapBlkno : Option BlockNumber
  vmRel : RelTag
  flags : UInt8

inductive HeapamRecord where
  | clearVmBits (bits : ClearVmBits)

inductive NeonrmgrRecord where
  | clearVmBits (bits : ClearVmBits)

structure XlSmgrTruncate where
  blkno : BlockNumber
  rnode : RelFileNode
  flags : UInt32

inductive SmgrRecord where
  | create (rel : RelTag)
  | truncate (trunc : XlSmgrTruncate)

inductive DbaseRecord where
  | create (dbId tablespaceId srcDbId srcTablespaceId : Oid)
  | drop (dbId : Oid) (tablespaceIds : List Oid)

inductive ClogRecord where
  | zeroPage (segno rpageno : UInt32)
  | truncate (pageno : UInt32) (oldestXid : TransactionId) (oldestXidDb : Oid)

structure XlXactParsedRecord where
  xid : TransactionId
  info : UInt8
  xactTime : UInt64
  xinfo : UInt32
  dbId : Oid
  tsId : Oid
  subxacts : List TransactionId
  xnodes : List RelFileNode
  originLsn : Lsn

structure XactCommon where
  parsed : XlXactParsedRecord
  originId : RepOriginId
  xlXid : TransactionId
  lsn : Lsn

inductive XactRecord where
  | commit (common : XactCommon)
  | abort (common : XactCommon)
  | commitPrepared (common : XactCommon)
  | abortPrepared (common : XactCommon)
  | prepare (xlXid : TransactionId) (data : List UInt8)

structure XlMultiXactCreate where
  mid : MultiXactId
  moff : MultiXactOffset
  nmembers : UInt32
  members : List MultiXactMember

structure XlMultiXactTruncate where
  oldestMultiDb : Oid
  startTruncOff : MultiXactId
  endTruncOff : MultiXactId
  startTruncMemb : MultiXactOffset
  endTruncMemb : MultiXactOffset

inductive MultiXactRecord where
  | zeroPage (slruKind : SlruKind) (segno rpageno : UInt32)
  | create (xlrec : XlMultiXactCreate)
  | truncate (xlrec : XlMultiXactTruncate)

inductive RelmapRecord where
  | update (dbid tsid : Oid) (nbytes : Int) (buf : List UInt8)

inductive XlogRecord where
  | raw (info : UInt8) (lsn : Lsn) (buf : List UInt8)

inductive LogicalMessageRecord where
  | put (path : List UInt8) (buf : List UInt8)

inductive StandbyRecord where
  | runningXacts (oldestRunningXid : TransactionId)

inductive ReploriginRecord where
  | set (remoteLsn : Lsn) (nodeId : RepOriginId)
  | drop (nodeId : RepOriginId)

inductive MetadataRecord where
  | heapam (rec : HeapamRecord)
  | neonrmgr (rec : NeonrmgrRecord)
  | smgr (rec : SmgrRecord)
  | dbase (rec : DbaseRecord)
  | clog (rec : ClogRecord)
  | xact (rec : XactRecord)
  | multiXact (rec : MultiXactRecord)
  | relmap (rec : RelmapRecord)
  | xlog (rec : XlogRecord)
  | logicalMessage (rec : LogicalMessageRecord)
  | standby (rec : StandbyRecord)
  | replorigin (rec : ReploriginRecord)

/-!
## Batches
-/

structure SerializedValueMeta where
  key : Int
  lsn : Lsn
  batchOffset : Nat
  len : Nat
  willInit : Bool

structure ObservedValueMeta where
  key : Int
  lsn : Lsn

inductive ValueMeta where
  | serialized (ser : SerializedValueMeta)
  | observed (obs : ObservedValueMeta)

namespace ValueMeta

def key : ValueMeta -> Int
  | serialized ser => ser.key
  | observed obs => obs.key

def lsn : ValueMeta -> Lsn
  | serialized ser => ser.lsn
  | observed obs => obs.lsn

end ValueMeta

/-- Serialized values and the metadata that finds them. -/
structure SerializedValueBatch where
  raw : List UInt8 := []
  metadata : List ValueMeta := []
  maxLsn : Lsn := 0
  len : Nat := 0

namespace SerializedValueBatch

def hasData (b : SerializedValueBatch) : Bool :=
  !b.raw.isEmpty

def isEmpty (b : SerializedValueBatch) : Bool :=
  !b.hasData && b.metadata.isEmpty

end SerializedValueBatch

inductive FlushUncommittedRecords where
  | yes
  | no
  deriving DecidableEq

structure InterpretedWalRecord where
  metadataRecord : Option MetadataRecord
  batch : SerializedValueBatch
  nextRecordLsn : Lsn
  flushUncommitted : FlushUncommittedRecords
  xid : TransactionId

end WalDecoder
end OpenNeon

import Mathlib.Logic.Function.Basic
import OpenNeon.Base.Prog
import OpenNeon.Pageserver.LayerMap
import OpenNeon.WalDecoder.Models

/-!
# The data directory in the key-value store

Relations are kept as blocks, a size and entries in directories.  A modification
collects the changes of one or more WAL records and writes them at its commit.
The metadata of a modification is visible to it at once; its blocks are not.  The
store keeps every version of a key, the newest first.

The metadata keys are a type of their own, and their values are the decoded ones.
Of a block's version only its LSN and whether it needs no earlier version are kept.
-/

namespace OpenNeon
namespace Pageserver
namespace Datadir

open Base WalDecoder

/-!
## Metadata
-/

inductive RelSizeMigration where
  | legacy
  | migrating
  | migrated
  deriving DecidableEq

inductive RelDirExists where
  | existing
  | removed
  deriving DecidableEq

structure DbDirectory where
  dbdirs : List ((Oid × Oid) × Bool)
  deriving DecidableEq

namespace DbDirectory

section

variable (d : DbDirectory) (db : Oid × Oid)

def get? : Option Bool :=
  d.dbdirs.lookup db

def contains : Bool :=
  (d.get? db).isSome

def remove : DbDirectory :=
  ⟨d.dbdirs.filter (fun entry => entry.1 != db)⟩

def insert (relmap : Bool) : DbDirectory :=
  ⟨(db, relmap) :: (d.remove db).dbdirs⟩

end

end DbDirectory

structure RelDirectory where
  rels : List (Oid × UInt8)

namespace RelDirectory

def empty : RelDirectory := ⟨[]⟩

def contains (d : RelDirectory) (rel : RelTag) : Bool :=
  d.rels.contains (rel.relnode, rel.forknum)

def insert (d : RelDirectory) (rel : RelTag) : RelDirectory :=
  ⟨(rel.relnode, rel.forknum) :: d.rels⟩

def remove (d : RelDirectory) (rel : RelTag) : RelDirectory :=
  ⟨d.rels.filter (fun entry => entry != (rel.relnode, rel.forknum))⟩

end RelDirectory

def slruKindField : SlruKind -> UInt32
  | .clog => 0x00
  | .multiXactMembers => 0x01
  | .multiXactOffsets => 0x02

def slruBlockToKey (kind : SlruKind) (segno : UInt32) (blknum : BlockNumber) : Key :=
  ⟨0x01, slruKindField kind, 1, segno, 0, blknum⟩

def REL_DIR_KEY_PREFIX : UInt8 := 0x65

/-- The keys that only the page server reads. -/
inductive MetaKey where
  | dbdir
  | relmapFile (spcnode dbnode : Oid)
  | relDir (spcnode dbnode : Oid)
  | relTagSparse (rel : RelTag)
  | relSize (rel : RelTag)
  | slruDir (kind : SlruKind)
  | slruSegmentSize (kind : SlruKind) (segno : UInt32)
  deriving DecidableEq

namespace MetaKey

def toKey : MetaKey -> Key
  | dbdir => ⟨0x00, 0, 0, 0, 0, 0⟩
  | relmapFile spcnode dbnode => ⟨0x00, spcnode, dbnode, 0, 0, 0⟩
  | relDir spcnode dbnode => ⟨0x00, spcnode, dbnode, 0, 0, 1⟩
  | relTagSparse rel =>
    ⟨REL_DIR_KEY_PREFIX, rel.spcnode, rel.dbnode, rel.relnode, rel.forknum, 1⟩
  | relSize rel => ⟨0x00, rel.spcnode, rel.dbnode, rel.relnode, rel.forknum, 0xffffffff⟩
  | slruDir kind => ⟨0x01, slruKindField kind, 0, 0, 0, 0⟩
  | slruSegmentSize kind segno => ⟨0x01, slruKindField kind, 1, segno, 0, 0xffffffff⟩

abbrev Val : MetaKey -> Type
  | dbdir => DbDirectory
  | relmapFile _ _ => List UInt8
  | relDir _ _ => RelDirectory
  | relTagSparse _ => RelDirExists
  | relSize _ => BlockNumber
  | slruDir _ => List UInt32
  | slruSegmentSize _ _ => BlockNumber

end MetaKey

/-!
## Versions
-/

section Versions

variable {alpha : Type}

/-- A new version; it replaces the newest one if that has the same LSN. -/
def putVersion (lsn : Lsn) (v : alpha) : List (Lsn × alpha) -> List (Lsn × alpha)
  | [] => [(lsn, v)]
  | (last, w) :: rest =>
    if last = lsn then (lsn, v) :: rest else (lsn, v) :: (last, w) :: rest

def versionAt (versions : List (Lsn × alpha)) (lsn : Lsn) : Option alpha :=
  (versions.find? (fun v => v.1 ≤ lsn)).map Prod.snd

end Versions

/-!
## Timeline and modification
-/

/-- The `i64` that an addition or a multiplication leaves: overflow wraps around. -/
def toI64 (x : Int) : Int :=
  x.bmod (2 ^ 64)

structure Timeline where
  shard : ShardIdentity
  metadata : (k : MetaKey) -> List (Lsn × k.Val)
  blocks : Int -> List (Lsn × Bool)
  lastRecordLsn : Lsn
  currentLogicalSize : Int
  relSizeLatestCache : RelTag -> Option (Lsn × BlockNumber)
  relSizeSnapshotCache : Lsn -> RelTag -> Option BlockNumber
  relSizeSnapshotCapacity : Nat
  relSizeV2Status : RelSizeMigration
  relSizeMigratedAt : Option Lsn
  relSizeV2Enabled : Bool

/-- The changes since the last commit.

The last field is a history variable, which no function reads: the LSN of the
record by which a block last came below the size of its relation. -/
structure DatadirModification where
  lsn : Lsn
  pendingLsns : List Lsn
  pendingMetadataPages : (k : MetaKey) -> List (Lsn × k.Val)
  pendingDataBatch : Option SerializedValueBatch
  pendingNblocks : Int
  isImportingPgdata : Bool
  belowSince : RelTag -> BlockNumber -> Lsn

/-- A timeline with its modification, and the relations ever put into the sparse directory. -/
structure State where
  tline : Timeline
  modification : DatadirModification
  sparseRels : List RelTag

inductive IngestAssertion where
  | invalidKey
  | shardZero
  | dirtyData
  | lsnAligned
  | allowMissing
  | multixactNextOffset
  deriving DecidableEq

inductive WalIngestError where
  | missingKey (key : MetaKey)
  | missingPage (key : Key)
  | invalidRelnode
  | logicalError (message : String)
  | setLsn (lsn current : Lsn)
  | invalidKey (key : Key) (lsn : Lsn)
  | relationAlreadyExists (rel : RelTag)
  | slruAlreadyExists (kind : SlruKind) (segno : UInt32)
  | panic (assertion : IngestAssertion)
  deriving DecidableEq

abbrev Op := Prog State WalIngestError

def toCompact (k : Key) : Except WalIngestError Int :=
  k.toCompact.mapError (fun _ => .panic .invalidKey)

/-- What a reader reads: a committed LSN, or the modification's own view. -/
inductive Version where
  | lsnRange (effectiveLsn requestLsn : Lsn)
  | modified

namespace Timeline

def get (t : Timeline) (k : MetaKey) (lsn : Lsn) : Except WalIngestError k.Val := do
  let _ ← toCompact k.toKey
  match versionAt (t.metadata k) lsn with
  | some v => .ok v
  | none => .error (.missingKey k)

/-- The versions up to the LSN reach down to one that needs no earlier version. -/
def hasPage (t : Timeline) (key : Int) (lsn : Lsn) : Bool :=
  (t.blocks key).any (fun v => v.1 ≤ lsn && v.2)

end Timeline

namespace State

def get (s : State) (k : MetaKey) : Except WalIngestError k.Val := do
  let _ ← toCompact k.toKey
  match s.modification.pendingMetadataPages k with
  | v :: _ => .ok v.2
  | [] => s.tline.get k (max s.tline.lastRecordLsn s.modification.lsn)

/-- A missing key and an empty value are no value. -/
def sparseResult : Except WalIngestError RelDirExists -> Except WalIngestError RelDirExists
  | .error (.missingKey _) => .ok .removed
  | res => res

def addNblocks (delta : Int) (s : State) : State :=
  { s with modification := { s.modification with
      pendingNblocks := toI64 (s.modification.pendingNblocks + delta) } }

def putMetadata (k : MetaKey) (v : k.Val) (s : State) : State :=
  { s with modification := { s.modification with
      pendingMetadataPages := Function.update s.modification.pendingMetadataPages k
        (putVersion s.modification.lsn v (s.modification.pendingMetadataPages k)) } }

end State

def put (k : MetaKey) (v : k.Val) : Op Unit := do
  let _ ← liftExcept (toCompact k.toKey)
  modify (State.putMetadata k v)

namespace Version

def getLsn (s : State) : Version -> Lsn
  | lsnRange effectiveLsn _ => effectiveLsn
  | modified => s.modification.lsn

def isLatest : Version -> Bool
  | lsnRange _ requestLsn => requestLsn == MAX_LSN
  | modified => true

def get (s : State) (k : MetaKey) : Version -> Except WalIngestError k.Val
  | lsnRange effectiveLsn _ => s.tline.get k effectiveLsn
  | modified => s.get k

end Version

/-!
## Caches of relation sizes

The latest cache has one entry a relation, with the LSN from which it holds; the
snapshot cache has the size at one LSN.
-/

def getCachedRelSize (s : State) (tag : RelTag) (version : Version) : Option BlockNumber :=
  let lsn := version.getLsn s
  match s.tline.relSizeLatestCache tag with
  | some (cachedLsn, nblocks) =>
    if cachedLsn ≤ lsn then some nblocks else s.tline.relSizeSnapshotCache lsn tag
  | none => s.tline.relSizeSnapshotCache lsn tag

namespace State

def setCachedRelSize (tag : RelTag) (lsn : Lsn) (nblocks : BlockNumber) (s : State) : State :=
  { s with tline := { s.tline with
      relSizeLatestCache :=
        Function.update s.tline.relSizeLatestCache tag (some (lsn, nblocks)) } }

def removeCachedRelSize (tag : RelTag) (s : State) : State :=
  { s with tline := { s.tline with
      relSizeLatestCache := Function.update s.tline.relSizeLatestCache tag none } }

def updateCachedRelSize (tag : RelTag) (version : Version) (nblocks : BlockNumber)
    (s : State) : State :=
  let lsn := version.getLsn s
  if version.isLatest then
    match s.tline.relSizeLatestCache tag with
    | some (cachedLsn, _) =>
      if cachedLsn ≤ lsn then s.setCachedRelSize tag lsn nblocks else s
    | none => s.setCachedRelSize tag lsn nblocks
  else if s.tline.relSizeSnapshotCapacity ≠ 0 then
    { s with tline := { s.tline with
        relSizeSnapshotCache := fun l t =>
          if l = lsn ∧ t = tag then some nblocks
          else s.tline.relSizeSnapshotCache l t } }
  else
    s

end State

end Datadir
end Pageserver
end OpenNeon

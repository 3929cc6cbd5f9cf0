import Mathlib.Data.List.MinMax
import Mathlib.Data.List.Sort
import OpenNeon.Base.Prog
import OpenNeon.Pageserver.IndexPart

/-!
# Physical garbage collection

The scrubber reads the objects of a bucket of page servers.  It first visits the
timelines of the shards it is to scan: it deletes indices of old generations and notes
which layers of other shards each index refers to.  Then, for every tenant whose shards
of the highest count are all there and agree with the storage controller, it deletes the
layers of the remaining, older shards that no index seen refers to.

The bucket belongs to running page servers, so every remote operation meets the bucket
as it is at that moment and may fail.
-/

namespace OpenNeon
namespace Pageserver
namespace Generation

/-- The order of generations: no generation comes first. -/
def rank : Generation -> Nat
  | .none => 0
  | .valid g => g.toNat + 1

def next : Generation -> Generation
  | .none => .valid 1
  | .valid g => .valid (g + 1)

def previous : Generation -> Generation
  | .none => .none
  | .valid g => if g = 0 then .none else .valid (g - 1)

end Generation
end Pageserver

namespace Scrubber

open Pageserver (Generation ShardIndex LayerName LayerFileMetadata IndexPart)
open Base

abbrev TenantId := Nat
abbrev TimelineId := Nat

structure TenantShardId where
  tenantId : TenantId
  shard : ShardIndex
  deriving DecidableEq

structure TenantShardTimelineId where
  tenantShardId : TenantShardId
  timelineId : TimelineId
  deriving DecidableEq

namespace TenantShardTimelineId

def asTenantTimelineId (id : TenantShardTimelineId) : TenantId × TimelineId :=
  (id.tenantShardId.tenantId, id.timelineId)

end TenantShardTimelineId

/-!
## The bucket
-/

def indexFileName : String :=
  "index_part.json"

/-- The name under which a page server stores an index. -/
def remoteIndexName : Option UInt32 -> String
  | none => indexFileName
  | some g =>
    indexFileName ++ "-" ++ String.ofList (List.leftpad 8 '0' (Nat.toDigits 16 g.toNat))

/-- The key of an object in the directory of a timeline, with what the parsers make of
it.  An index key is any key that starts with the name of the index file; `suffix` is
the number its last part stands for, if it is one. -/
inductive ObjectKey where
  | index (name : String) (suffix : Option UInt32)
  | layer (name : LayerName) (generation : Generation)
  | other (name : String)
  deriving DecidableEq

namespace ObjectKey

def isIndex : ObjectKey -> Bool
  | .index _ _ => true
  | _ => false

/-- The generation of the index at a key; without one only the legacy key is an index. -/
def generation : ObjectKey -> Option Generation
  | .index _ (some g) => some (.valid g)
  | .index name none => if name = indexFileName then some .none else none
  | _ => none

def suffix : ObjectKey -> Option UInt32
  | .index _ suffix => suffix
  | _ => none

def layerAndGeneration : ObjectKey -> Option (LayerName × Generation)
  | .layer name generation => some (name, generation)
  | _ => none

end ObjectKey

structure ListingObject where
  key : ObjectKey
  lastModified : Nat
  deriving DecidableEq

/-- An object with its content, which matters for indices only. -/
structure Blob where
  listing : ListingObject
  content : IndexPart

/-- The objects of a timeline; a key has one object. -/
structure TimelineDirectory where
  id : TenantShardTimelineId
  blobs : List Blob
  distinct : (blobs.map (fun blob => blob.listing.key)).Nodup

abbrev Bucket := List TimelineDirectory

namespace Bucket

def blobs (b : Bucket) (id : TenantShardTimelineId) : List Blob :=
  match b.find? (fun dir => dir.id = id) with
  | some dir => dir.blobs
  | none => []

def timelines (b : Bucket) (id : TenantShardId) : List TenantShardTimelineId :=
  (b.map TimelineDirectory.id).filter (fun ttid => ttid.tenantShardId = id)

def tenantShards (b : Bucket) : List TenantShardId :=
  (b.map (fun dir => dir.id.tenantShardId)).dedup

end Bucket

inductive Download where
  | complete
  | failed
  | unparsable

structure ShardDescription where
  shard : ShardIndex
  isSplitting : Bool

/-- What an operation meets at one moment: the bucket, the time, whether a listing, the
request for the head of an object or a deletion succeeds, and how the download of an
index of a timeline ends. -/
structure Moment where
  bucket : Bucket
  now : Nat
  lists : Bool
  heads : Bool
  deletes : Bool
  download : TenantShardTimelineId -> Download

inductive Fetched where
  | parsed (indexPart : IndexPart)
  | unparsable
  | failed

/-- The object at a key, as it is when it is downloaded. -/
def Moment.fetch (m : Moment) (ttid : TenantShardTimelineId) (key : ObjectKey) : Fetched :=
  match m.download ttid, (m.bucket.blobs ttid).find? (fun blob => blob.listing.key = key) with
  | .complete, some blob => .parsed blob.content
  | .unparsable, some _ => .unparsable
  | _, _ => .failed

/-- The moments of a run, one for each operation, and the answers of the storage
controller, which is asked once about a tenant. -/
structure World where
  moment : Nat -> Moment
  describe : TenantId -> Option (List ShardDescription)

/-!
## The state of the scrubber
-/

inductive GcMode where
  | dryRun
  | indicesOnly
  | full
  deriving DecidableEq

structure GcSummary where
  indicesDeleted : Nat
  remoteStorageErrors : Nat
  controllerApiErrors : Nat
  ancestorLayersDeleted : Nat

namespace GcSummary

def indexDeleted (s : GcSummary) : GcSummary :=
  { s with indicesDeleted := s.indicesDeleted + 1 }

def remoteStorageError (s : GcSummary) : GcSummary :=
  { s with remoteStorageErrors := s.remoteStorageErrors + 1 }

def controllerApiError (s : GcSummary) : GcSummary :=
  { s with controllerApiErrors := s.controllerApiErrors + 1 }

def ancestorLayerDeleted (s : GcSummary) : GcSummary :=
  { s with ancestorLayersDeleted := s.ancestorLayersDeleted + 1 }

end GcSummary

structure Deletion where
  moment : Nat
  id : TenantShardTimelineId
  key : ObjectKey
  deriving DecidableEq

abbrev LayerRef := (TenantId × TimelineId) × ShardIndex × LayerName

/-- What was gathered; a layer stands in `ancestorRefs` as often as it is referred to. -/
structure Scrub where
  moment : Nat
  shardsSeen : List TenantShardId
  ancestorRefs : List LayerRef
  deleted : List Deletion
  summary : GcSummary

namespace Scrub

def start : Scrub :=
  { moment := 0, shardsSeen := [], ancestorRefs := [], deleted := [],
    summary := ⟨0, 0, 0, 0⟩ }

def update (ttid : TenantShardTimelineId) (indexPart : IndexPart) (s : Scrub) : Scrub :=
  { s with
    shardsSeen := s.shardsSeen.insert ttid.tenantShardId
    ancestorRefs := s.ancestorRefs ++
      (indexPart.layerMetadata.filter (fun l => l.2.shard ≠ ttid.tenantShardId.shard)).map
        (fun l => (ttid.asTenantTimelineId, l.2.shard, l.1)) }

def shardIndices (s : Scrub) (tenantId : TenantId) : List ShardIndex :=
  (s.shardsSeen.filter (fun id => id.tenantId = tenantId)).map TenantShardId.shard

end Scrub

inductive GcError where
  | listing

abbrev Gc := Prog Scrub GcError

section

variable (w : World)

def operation : Gc Moment := do
  let s <- get
  set { s with moment := s.moment + 1 }
  pure (w.moment s.moment)

def tally (f : GcSummary -> GcSummary) : Gc Unit :=
  modify (fun s => { s with summary := f s.summary })

def list : Gc Moment := do
  let m <- operation w
  if m.lists then pure m else throw .listing

def delete (ttid : TenantShardTimelineId) (key : ObjectKey)
    (done : GcSummary -> GcSummary) : Gc Unit := do
  modify (fun s => { s with deleted := s.deleted ++ [⟨s.moment, ttid, key⟩] })
  let m <- operation w
  tally (if m.deletes then done else GcSummary.remoteStorageError)

/-!
## Reading the objects of a timeline
-/

inductive BlobDataParseResult where
  | parsed (indexPart : IndexPart) (indexPartGeneration : Generation)
      (s3Layers : List (LayerName × Generation))
  | relic
  | incorrect (s3Layers : List (LayerName × Generation))

structure RemoteTimelineBlobData where
  blobData : BlobDataParseResult
  unusedIndexKeys : List ListingObject

inductive ListTimelineBlobsResult where
  | ready (data : RemoteTimelineBlobData)
  | missingIndexPart (data : RemoteTimelineBlobData)

def ListTimelineBlobsResult.intoData : ListTimelineBlobsResult -> RemoteTimelineBlobData
  | .ready data => data
  | .missingIndexPart data => data

def withSuffix (obj : ListingObject) : Option (ListingObject × UInt32) :=
  obj.key.suffix.map (fun g => (obj, g))

/-- The last index of the highest generation; without any generation, the last one listed. -/
def selectIndexPart (indexPartKeys : List ListingObject) : Option (ListingObject × Generation) :=
  match (indexPartKeys.filterMap withSuffix).reverse.argmax (fun k => k.2.toNat) with
  | some (obj, g) => some (obj, .valid g)
  | none => indexPartKeys.getLast?.map (fun obj => (obj, .none))

def indexPartKeys (blobs : List Blob) : List ListingObject :=
  (blobs.map Blob.listing).filter (fun obj => obj.key.isIndex)

/-- What a listing and the download that follows it amount to. -/
def parseBlobs (blobs : List Blob) (selected : ListingObject) (generation : Generation)
    (fetched : Fetched) : ListTimelineBlobsResult :=
  let s3Layers := (blobs.filterMap (fun blob => blob.listing.key.layerAndGeneration)).dedup
  let unused := (indexPartKeys blobs).filter (fun obj => obj ≠ selected)
  match fetched with
  | .parsed indexPart => .ready ⟨.parsed indexPart generation s3Layers, unused⟩
  | .unparsable => .ready ⟨.incorrect s3Layers, unused⟩
  | .failed => .missingIndexPart ⟨.incorrect s3Layers, unused⟩

def listTimelineBlobsImpl (ttid : TenantShardTimelineId) : Gc ListTimelineBlobsResult := do
  let m <- list w
  let blobs := m.bucket.blobs ttid
  match selectIndexPart (indexPartKeys blobs) with
  -- no index at all, with or without layers
  | none => pure (.ready ⟨.relic, indexPartKeys blobs⟩)
  | some (selected, generation) => do
    let later <- operation w
    pure (parseBlobs blobs selected generation (later.fetch ttid selected.key))

/-- The listing is made once more if the index could not be downloaded. -/
def listTimelineBlobs (ttid : TenantShardTimelineId) : Gc RemoteTimelineBlobData := do
  let res <- listTimelineBlobsImpl w ttid
  match res with
  | .ready data => pure data
  | .missingIndexPart _ => do
    let again <- listTimelineBlobsImpl w ttid
    pure again.intoData

def streamTenants : Gc (List TenantShardId) := do
  let m <- list w
  pure m.bucket.tenantShards

def streamTenantTimelines (id : TenantShardId) : Gc (List TenantShardTimelineId) := do
  let m <- list w
  pure (m.bucket.timelines id)

/-!
## Indices of old generations
-/

def isOldEnough (minAge now : Nat) (obj : ListingObject) : Gc Bool :=
  if now < obj.lastModified then do
    tally GcSummary.remoteStorageError
    pure false
  else
    pure (decide (minAge < now - obj.lastModified))

def maybeDeleteIndex (minAge : Nat) (latestGen : Generation)
    (ttid : TenantShardTimelineId) (mode : GcMode) (obj : ListingObject) : Gc Unit :=
  match obj.key.generation with
  | none => pure ()
  | some candidate =>
    if latestGen.rank <= candidate.rank then pure ()
    else if candidate.next = latestGen then pure ()
    else do
      let m <- operation w
      let old <- isOldEnough minAge m.now obj
      if old = true ∧ mode ≠ .dryRun then
        delete w ttid obj.key GcSummary.indexDeleted
      else pure ()

/-- One timeline of a shard; the comparison with the manifest only warns, or fails to list. -/
def gcTimeline (minAge : Nat) (mode : GcMode) (ttid : TenantShardTimelineId) : Gc Unit := do
  let data <- listTimelineBlobs w ttid
  match data.blobData with
  | .parsed indexPart latestGen _ => do
    let _ <- list w
    modify (Scrub.update ttid indexPart)
    data.unusedIndexKeys.forM (maybeDeleteIndex w minAge latestGen ttid mode)
  | .relic => pure ()
  | .incorrect _ => pure ()

def gcTenantShard (minAge : Nat) (mode : GcMode) (id : TenantShardId) : Gc Unit := do
  let timelines <- streamTenantTimelines w id
  timelines.forM (gcTimeline w minAge mode)

end

/-!
## Layers of ancestor shards
-/

def countOf (shardCount : UInt8) : Nat :=
  if 0 < shardCount then shardCount.toNat else 1

def shardLe (a b : ShardIndex) : Prop :=
  a.shardNumber < b.shardNumber ∨ a.shardNumber = b.shardNumber ∧ a.shardCount <= b.shardCount

instance instDecidableShardLe (a b : ShardIndex) : Decidable (shardLe a b) :=
  inferInstanceAs (Decidable (_ ∨ _))

variable (indices : List ShardIndex)

def latestCount : UInt8 :=
  (indices.map ShardIndex.shardCount).foldl max 0

def latestShards : List ShardIndex :=
  (indices.filter (fun i => i.shardCount = latestCount indices)).insertionSort shardLe

def ancestorShards : List ShardIndex :=
  indices.filter (fun i => i.shardCount ≠ latestCount indices)

section

variable (w : World)

/-- The shards of one tenant whose layers are to be collected. -/
def gcAncestorsOf (tenantId : TenantId) (indices : List ShardIndex) : Gc (List TenantShardId) :=
  if (latestShards indices).length ≠ countOf (latestCount indices) then pure []
  else if ancestorShards indices = [] then pure []
  else
    match w.describe tenantId with
    | none => do
      tally GcSummary.controllerApiError
      pure []
    | some shards =>
      if shards.map ShardDescription.shard ≠ latestShards indices then pure []
      else if shards.any ShardDescription.isSplitting then pure []
      else pure ((ancestorShards indices).map (fun shard => ⟨tenantId, shard⟩))

def intoGcAncestors : Gc (List TenantShardId) := do
  let s <- get
  (s.shardsSeen.map TenantShardId.tenantId).dedup.foldlM (fun found tenantId => do
      let more <- gcAncestorsOf w tenantId (s.shardIndices tenantId)
      pure (found ++ more)) []

variable (minAge : Nat)

/-- The age of an object that is not at hand. -/
def checkIsOldEnough (ttid : TenantShardTimelineId) (key : ObjectKey) : Gc (Option Bool) := do
  let m <- operation w
  match (m.bucket.blobs ttid).find? (fun blob => blob.listing.key = key) with
  | some blob =>
    if m.heads then do
      let old <- isOldEnough minAge m.now blob.listing
      pure (some old)
    else pure none
  | none => pure none

def gcAncestorLayer (mode : GcMode)
    (ttid : TenantShardTimelineId) (layer : LayerName × Generation) : Gc Unit := do
  let s <- get
  if 0 < s.ancestorRefs.count (ttid.asTenantTimelineId, ttid.tenantShardId.shard, layer.1)
  then pure ()
  else do
    let old <- checkIsOldEnough w minAge ttid (.layer layer.1 layer.2)
    if old = some true ∧ mode = .full then
      delete w ttid (.layer layer.1 layer.2) GcSummary.ancestorLayerDeleted
    else pure ()

def gcAncestorTimeline (mode : GcMode) (ttid : TenantShardTimelineId) : Gc Unit := do
  let data <- listTimelineBlobs w ttid
  match data.blobData with
  | .parsed _ _ s3Layers => s3Layers.forM (gcAncestorLayer w minAge mode ttid)
  | .relic => pure ()
  | .incorrect _ => pure ()

def gcAncestor (mode : GcMode) (ancestor : TenantShardId) : Gc Unit := do
  let timelines <- streamTenantTimelines w ancestor
  timelines.forM (gcAncestorTimeline w minAge mode)

def gcAncestors (mode : GcMode) : Gc Unit := do
  let ancestors <- intoGcAncestors w
  ancestors.forM (gcAncestor w minAge mode)

end

/-!
## A whole run
-/

def shardsToScan (w : World) (tenantShardIds : List TenantShardId) : Gc (List TenantShardId) :=
  if tenantShardIds = [] then streamTenants w else pure tenantShardIds

/-- A run.  Layers of ancestor shards are collected only if there is a controller to ask. -/
def pageserverPhysicalGc (w : World) (controller : Bool) (tenantShardIds : List TenantShardId)
    (minAge : Nat) (mode : GcMode) : Gc Unit := do
  let tenants <- shardsToScan w tenantShardIds
  tenants.forM (gcTenantShard w minAge mode)
  if controller then gcAncestors w minAge mode else pure ()

end Scrubber
end OpenNeon

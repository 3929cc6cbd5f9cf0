import OpenNeon.Pageserver.Key

/-!
# The index of a timeline

The index lists the layer files of a timeline with the shard and the generation
that wrote them.  Name, shard and generation together are the path of a layer
file in remote storage.
-/

namespace OpenNeon
namespace Pageserver

structure ImageLayerName where
  keyRange : Range Key
  lsn : Lsn
  deriving DecidableEq

structure DeltaLayerName where
  keyRange : Range Key
  lsnRange : Range Lsn
  deriving DecidableEq

inductive LayerName where
  | image (name : ImageLayerName)
  | delta (name : DeltaLayerName)
  deriving DecidableEq

/-- The attachment that wrote a file; old files have none. -/
inductive Generation where
  | none
  | valid (generation : UInt32)
  deriving DecidableEq

structure ShardIndex where
  shardNumber : UInt8
  shardCount : UInt8
  deriving DecidableEq

structure LayerFileMetadata where
  fileSize : UInt64
  generation : Generation
  shard : ShardIndex
  deriving DecidableEq

structure RemoteLayerPath where
  shard : ShardIndex
  name : LayerName
  generation : Generation
  deriving DecidableEq

def remoteLayerPath (name : LayerName) (metadata : LayerFileMetadata) : RemoteLayerPath :=
  { shard := metadata.shard, name := name, generation := metadata.generation }

def isSameRemoteLayerPath (aname : LayerName) (ameta : LayerFileMetadata)
    (bname : LayerName) (bmeta : LayerFileMetadata) : Bool :=
  aname == bname && ameta.shard == bmeta.shard && ameta.generation == bmeta.generation

theorem isSameRemoteLayerPath_iff {aname bname : LayerName}
    {ameta bmeta : LayerFileMetadata} :
    isSameRemoteLayerPath aname ameta bname bmeta = true <->
      remoteLayerPath aname ameta = remoteLayerPath bname bmeta := by
  simp only [isSameRemoteLayerPath, remoteLayerPath, Bool.and_eq_true,
    beq_iff_eq, RemoteLayerPath.mk.injEq]
  tauto

theorem isSameRemoteLayerPath_comm (aname : LayerName)
    (ameta : LayerFileMetadata) (bname : LayerName) (bmeta : LayerFileMetadata) :
    isSameRemoteLayerPath aname ameta bname bmeta =
      isSameRemoteLayerPath bname bmeta aname ameta := by
  rw [Bool.eq_iff_iff, isSameRemoteLayerPath_iff, isSameRemoteLayerPath_iff]
  exact eq_comm

/-- The layer files of a timeline, and how far they are consistent. -/
structure IndexPart where
  layerMetadata : List (LayerName × LayerFileMetadata)
  diskConsistentLsn : Lsn
  deriving DecidableEq

namespace IndexPart

def references (i : IndexPart) (name : LayerName) (metadata : LayerFileMetadata) : Bool :=
  match i.layerMetadata.lookup name with
  | none => false
  | some indexMetadata => isSameRemoteLayerPath name metadata name indexMetadata

def Lists (i : IndexPart) (path : RemoteLayerPath) : Prop :=
  exists metadata, i.layerMetadata.lookup path.name = some metadata ∧
    remoteLayerPath path.name metadata = path

variable {name : LayerName} {metadata : LayerFileMetadata}

theorem references_iff {i : IndexPart} :
    i.references name metadata = true <->
      i.Lists (remoteLayerPath name metadata) := by
  unfold references Lists
  cases hlookup : i.layerMetadata.lookup name with
  | none => simp [remoteLayerPath, hlookup]
  | some indexMetadata =>
    have hname : (remoteLayerPath name metadata).name = name := rfl
    rw [hname, hlookup]
    simp only [isSameRemoteLayerPath_iff, Option.some.injEq, exists_eq_left']
    exact eq_comm

theorem lists_singleton_iff {lsn : Lsn} {path : RemoteLayerPath} :
    (⟨[(name, metadata)], lsn⟩ : IndexPart).Lists path <->
      path = remoteLayerPath name metadata := by
  unfold Lists
  by_cases hname : path.name = name
  · simp only [hname, List.lookup_cons_self, Option.some.injEq, exists_eq_left']
    exact eq_comm
  · have hne : path ≠ remoteLayerPath name metadata := by
      intro heq
      exact hname (congrArg RemoteLayerPath.name heq)
    have hbeq : (path.name == name) = false := beq_eq_false_iff_ne.mpr hname
    simp [List.lookup_cons, hbeq, hne]

theorem references_eq_false_iff {i : IndexPart} :
    i.references name metadata = false <->
      Not (i.Lists (remoteLayerPath name metadata)) := by
  rw [← references_iff, Bool.not_eq_true]

end IndexPart
end Pageserver
end OpenNeon

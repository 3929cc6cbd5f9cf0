import OpenNeon.Base.Run
import OpenNeon.WalDecoder.Interpret

/-!
# Sharded interpretation is a partition

The interpretation of a record for all shards of a tenant is the interpretation
for an unsharded tenant, cut along the placement of the keys.  The loop over
blocks and shards is first brought into a closed form: the values are computed
once, and each shard's batch is filled from them.
-/

namespace OpenNeon
namespace WalDecoder

open Base Pageserver List

/-!
## Filling a batch
-/

namespace SerializedValueBatch

/-- What a block with a known value adds to the batch of a shard. -/
def fillBlock (lsn : Lsn) (shard : ShardIdentity) (b : SerializedValueBatch)
    (row : DecodedBkpBlock × Value) : SerializedValueBatch :=
  if shard.isKeyLocal row.1.key then
    b.addSerialized row.1.key.packI128 lsn row.2
  else if shard.isShardZero then
    b.addObserved row.1.key.packI128 lsn
  else
    b

def fill (lsn : Lsn) (shard : ShardIdentity) (b : SerializedValueBatch)
    (rows : List (DecodedBkpBlock × Value)) : SerializedValueBatch :=
  rows.foldl (fillBlock lsn shard) b

/-- A change of a block, as it is stored. -/
structure Modification where
  key : Int
  lsn : Lsn
  value : List UInt8
  willInit : Bool

def locate (raw : List UInt8) : ValueMeta -> Option Modification
  | .serialized ser =>
    some ⟨ser.key, ser.lsn, (raw.drop ser.batchOffset).take ser.len, ser.willInit⟩
  | .observed _ => none

def modifications (b : SerializedValueBatch) : List Modification :=
  b.metadata.filterMap (locate b.raw)

def modification (lsn : Lsn) (row : DecodedBkpBlock × Value) : Modification :=
  ⟨row.1.key.packI128, lsn, row.2.ser, row.2.willInit⟩

/-- Every located value lies within the buffer. -/
def InBounds (b : SerializedValueBatch) : Prop :=
  forall ser, ValueMeta.serialized ser ∈ b.metadata ->
    ser.batchOffset + ser.len ≤ b.raw.length

theorem inBounds_empty : InBounds {} := by
  intro ser hmem
  simp at hmem

variable {b : SerializedValueBatch}

theorem InBounds.fillBlock (h : b.InBounds) (lsn : Lsn) (shard : ShardIdentity)
    (row : DecodedBkpBlock × Value) :
    (b.fillBlock lsn shard row).InBounds := by
  unfold SerializedValueBatch.fillBlock
  split
  · intro ser hmem
    simp only [addSerialized, mem_append, mem_singleton, ValueMeta.serialized.injEq] at hmem ⊢
    rcases hmem with hold | rfl
    · have hle := h ser hold
      rw [length_append]
      omega
    · change b.raw.length + ((b.raw ++ row.2.ser).length - b.raw.length) ≤ _
      rw [length_append]
      omega
  · split
    · intro ser hmem
      apply h
      simpa [addObserved] using hmem
    · exact h

theorem locate_append (h : b.InBounds) (tail : List UInt8) :
    b.metadata.filterMap (locate (b.raw ++ tail)) = b.modifications := by
  apply filterMap_congr
  intro entry hmem
  cases entry with
  | observed obs => rfl
  | serialized ser =>
    have hle := h ser hmem
    simp only [locate, Option.some.injEq, Modification.mk.injEq, true_and, and_true]
    rw [drop_append_of_le_length (by omega), take_append_of_le_length]
    rw [length_drop]
    omega

theorem modifications_addSerialized (h : b.InBounds) (lsn : Lsn) (row : DecodedBkpBlock × Value) :
    (b.addSerialized row.1.key.packI128 lsn row.2).modifications =
      b.modifications ++ [modification lsn row] := by
  simp only [modifications, addSerialized, filterMap_append]
  rw [locate_append h]
  simp [locate, modification, modifications]

theorem modifications_fillBlock (h : b.InBounds) (lsn : Lsn) (shard : ShardIdentity)
    (row : DecodedBkpBlock × Value) :
    (b.fillBlock lsn shard row).modifications =
      b.modifications ++
        if shard.isKeyLocal row.1.key then [modification lsn row] else [] := by
  unfold fillBlock
  by_cases hlocal : shard.isKeyLocal row.1.key = true
  · simp only [hlocal, if_true]
    exact modifications_addSerialized h lsn row
  · by_cases hzero : shard.isShardZero = true
    · simp [hlocal, hzero, modifications, addObserved, locate]
    · simp [hlocal, hzero]

theorem modifications_fill (h : b.InBounds) (lsn : Lsn) (shard : ShardIdentity)
    (rows : List (DecodedBkpBlock × Value)) :
    (b.fill lsn shard rows).modifications =
      b.modifications ++
        (rows.filter (fun row => shard.isKeyLocal row.1.key)).map (modification lsn) := by
  induction rows generalizing b with
  | nil => simp [fill]
  | cons row rows ih =>
    have hrest := ih (h.fillBlock lsn shard row)
    rw [fill, foldl_cons]
    rw [fill] at hrest
    rw [hrest, modifications_fillBlock h, append_assoc, filter_cons]
    split <;> simp

theorem keys_fill (lsn : Lsn) (shard : ShardIdentity) (b : SerializedValueBatch)
    (rows : List (DecodedBkpBlock × Value)) :
    (b.fill lsn shard rows).metadata.map ValueMeta.key =
      b.metadata.map ValueMeta.key ++
        (rows.filter (fun row => shard.isKeyLocal row.1.key || shard.isShardZero)).map
          (fun row => (row.1.key.packI128 : Int)) := by
  induction rows generalizing b with
  | nil => simp [fill]
  | cons row rows ih =>
    rw [fill, foldl_cons]
    have hrest := ih (b.fillBlock lsn shard row)
    rw [fill] at hrest
    rw [hrest, filter_cons, fillBlock]
    by_cases hlocal : shard.isKeyLocal row.1.key = true
    · simp [hlocal, addSerialized, ValueMeta.key]
    · by_cases hzero : shard.isShardZero = true
      · simp [hlocal, hzero, addObserved, ValueMeta.key]
      · simp [hlocal, hzero]

end SerializedValueBatch

/-!
## The loop over the blocks in closed form
-/

section Loop

variable {err alpha beta gamma : Type}

/-- A loop in which only some steps need a shared result, and one of them does. -/
theorem mapM_shared {f : alpha -> Except err gamma} (need : alpha -> Bool)
    (res : Except err beta) (use : alpha -> beta -> gamma) (skip : alpha -> gamma)
    (hneed : forall x, need x = true -> f x = res.map (use x))
    (hskip : forall x, need x = false -> f x = .ok (skip x))
    {xs : List alpha} (hex : exists x, x ∈ xs ∧ need x = true) :
    xs.mapM f = res.map (fun v => xs.map (fun x => if need x then use x v else skip x)) := by
  cases res with
  | error e =>
    induction xs with
    | nil => simp at hex
    | cons x xs ih =>
      cases hx : need x with
      | true =>
        rw [mapM_cons, hneed x hx]
        rfl
      | false =>
        rcases hex with ⟨y, hmem, hy⟩
        have hrest : y ∈ xs := by
          rcases mem_cons.mp hmem with rfl | hmem
          · simp [hx] at hy
          · exact hmem
        rw [mapM_cons, hskip x hx, ih ⟨y, hrest, hy⟩]
        rfl
  | ok v =>
    have hok : forall x, f x = .ok (if need x then use x v else skip x) := by
      intro x
      cases hx : need x with
      | true => simpa [hx, Except.map] using hneed x hx
      | false => simpa [hx] using hskip x hx
    rw [funext hok]
    exact mapM_pure

end Loop

namespace SerializedValueBatch

variable {err : Type}

def checkedValue (decoded : DecodedWALRecord) (nextRecordLsn : Lsn)
    (pgVersion : PgMajorVersion) (blk : DecodedBkpBlock) :
    Except (InterpretError err) Value :=
  if !blk.key.isValidKeyOnWritePath then
    .error (.unsupportedKey nextRecordLsn blk.key)
  else
    (blockValue decoded nextRecordLsn pgVersion blk).mapError .panic

def fillAll (lsn : Lsn) (shardRecords : ShardRecords)
    (rows : List (DecodedBkpBlock × Value)) : ShardRecords :=
  shardRecords.map (fun p => (p.1, { p.2 with batch := fill lsn p.1 p.2.batch rows }))

theorem compactKey_of_valid {key : Key} (h : key.isValidKeyOnWritePath = true) :
    compactKey key = .ok (key.packI128 : Int) := by
  have hrep : key.isI128Representable = true := h
  simp [compactKey, Key.toCompact, Key.toI128, hrep]

variable {decoded : DecodedWALRecord} {lsn : Lsn} {pgVersion : PgMajorVersion}
  {blk : DecodedBkpBlock} {shard : ShardIdentity} {shardRecords : ShardRecords}

theorem addBlock_of_local (hvalid : blk.key.isValidKeyOnWritePath = true)
    (hlocal : shard.isKeyLocal blk.key = true) (b : SerializedValueBatch) :
    addBlock decoded lsn pgVersion blk shard b =
      (blockValue decoded lsn pgVersion blk).map (fun v => fillBlock lsn shard b (blk, v)) := by
  unfold addBlock fillBlock
  rw [compactKey_of_valid hvalid]
  cases blockValue decoded lsn pgVersion blk with
  | error e => simp [hlocal, Except.map, bind, Except.bind]
  | ok v => simp [hlocal, Except.map, bind, Except.bind, pure, Except.pure]

theorem addBlock_of_not_local (hvalid : blk.key.isValidKeyOnWritePath = true)
    (hlocal : shard.isKeyLocal blk.key = false) (b : SerializedValueBatch) (v : Value) :
    addBlock decoded lsn pgVersion blk shard b = .ok (fillBlock lsn shard b (blk, v)) := by
  unfold addBlock fillBlock
  rw [compactKey_of_valid hvalid]
  by_cases hzero : shard.isShardZero = true
  · simp [hlocal, hzero, bind, Except.bind, pure, Except.pure]
  · simp [hlocal, hzero, pure, Except.pure]

theorem fillBlock_of_not_local (hlocal : shard.isKeyLocal blk.key = false)
    (b : SerializedValueBatch) (v v' : Value) :
    fillBlock lsn shard b (blk, v) = fillBlock lsn shard b (blk, v') := by
  simp [fillBlock, hlocal]

def Covered (shardRecords : ShardRecords) : Prop :=
  forall key, exists p, p ∈ shardRecords ∧ ShardIdentity.isKeyLocal p.1 key = true

theorem fillAll_append (lsn : Lsn) (shardRecords : ShardRecords)
    (rows rows' : List (DecodedBkpBlock × Value)) :
    fillAll lsn (fillAll lsn shardRecords rows) rows' =
      fillAll lsn shardRecords (rows ++ rows') := by
  simp [fillAll, fill, Function.comp_def]

theorem Covered.fillAll (h : Covered shardRecords) (lsn : Lsn)
    (rows : List (DecodedBkpBlock × Value)) :
    Covered (SerializedValueBatch.fillAll lsn shardRecords rows) := by
  intro key
  rcases h key with ⟨p, hmem, hlocal⟩
  exact ⟨_, mem_map_of_mem hmem, hlocal⟩

theorem addBlockAll_eq (hcover : Covered shardRecords) (blk : DecodedBkpBlock) :
    (addBlockAll decoded lsn pgVersion shardRecords blk :
      Except (InterpretError err) ShardRecords) =
      (checkedValue decoded lsn pgVersion blk).map
        (fun v => fillAll lsn shardRecords [(blk, v)]) := by
  unfold addBlockAll checkedValue
  by_cases hvalid : blk.key.isValidKeyOnWritePath = true
  · simp only [hvalid, Bool.not_true, Bool.false_eq_true, if_false]
    let use : ShardIdentity × InterpretedWalRecord -> Value ->
        ShardIdentity × InterpretedWalRecord :=
      fun p v => (p.1, { p.2 with batch := fillBlock lsn p.1 p.2.batch (blk, v) })
    rw [mapM_shared (fun p => p.1.isKeyLocal blk.key)
      ((blockValue decoded lsn pgVersion blk).mapError .panic) use
      (fun p => use p (.image [])) ?_ ?_ (hcover blk.key)]
    · congr 1
      funext v
      apply map_congr_left
      intro p _
      cases hlocal : p.1.isKeyLocal blk.key with
      | true => rfl
      | false =>
        simp only [Bool.false_eq_true, if_false, use]
        rw [fillBlock_of_not_local hlocal _ (.image []) v]
        rfl
    · intro p hlocal
      rw [addBlockRecord, addBlock_of_local hvalid hlocal]
      cases blockValue decoded lsn pgVersion blk <;> rfl
    · intro p hlocal
      rw [addBlockRecord, addBlock_of_not_local hvalid hlocal _ (.image [])]
      rfl
  · simp [hvalid, Except.map]

theorem foldlM_addBlockAll (hcover : Covered shardRecords) (blocks : List DecodedBkpBlock) :
    (blocks.foldlM (addBlockAll decoded lsn pgVersion) shardRecords :
      Except (InterpretError err) ShardRecords) =
      (blocks.mapM (checkedValue decoded lsn pgVersion)).map
        (fun vals => fillAll lsn shardRecords (blocks.zip vals)) := by
  induction blocks generalizing shardRecords with
  | nil => simp [fillAll, fill, Except.map, pure, Except.pure]
  | cons blk blocks ih =>
    rw [foldlM_cons, mapM_cons, addBlockAll_eq hcover]
    cases (checkedValue decoded lsn pgVersion blk : Except (InterpretError err) Value) with
    | error e => rfl
    | ok v =>
      have hrest := ih (hcover.fillAll lsn [(blk, v)])
      simp only [Except.map, bind, Except.bind] at hrest ⊢
      rw [hrest]
      cases blocks.mapM (checkedValue decoded lsn pgVersion) with
      | error e => rfl
      | ok vals => simp [fillAll_append, pure, Except.pure]

end SerializedValueBatch

/-!
## The map of the shards
-/

namespace ShardRecords

theorem insert_map {shards : List ShardIdentity} {blank : InterpretedWalRecord}
    (s : ShardIdentity) :
    insert (shards.map (fun s => (s, blank))) s blank =
      if s ∈ shards then shards.map (fun s => (s, blank))
      else (shards ++ [s]).map (fun s => (s, blank)) := by
  by_cases hmem : s ∈ shards
  · have hany : (shards.map (fun s => (s, blank))).any (fun p => p.1 == s) = true := by
      simpa using hmem
    rw [insert, if_pos hany, if_pos hmem, map_map]
    apply map_congr_left
    intro x _
    by_cases hx : x = s
    · simp [hx]
    · simp [hx]
  · have hany : (shards.map (fun s => (s, blank))).any (fun p => p.1 == s) = false := by
      simp only [any_map, any_eq_false]
      intro x hx heq
      have : x = s := by simpa using heq
      exact hmem (this ▸ hx)
    simp [insert, hany, hmem]

theorem foldl_insert (shards : List ShardIdentity) :
    exists ids : List ShardIdentity, ids.Nodup ∧ (forall s, s ∈ ids <-> s ∈ shards) ∧
      forall blank : InterpretedWalRecord,
        shards.foldl (fun m s => insert m s blank) [] = ids.map (fun s => (s, blank)) := by
  induction shards using List.reverseRecOn with
  | nil => exact ⟨[], nodup_nil, fun s => Iff.rfl, fun _ => rfl⟩
  | append_singleton shards s ih =>
    rcases ih with ⟨ids, hnodup, hmem, hfold⟩
    simp only [foldl_append, foldl_cons, foldl_nil, hfold, insert_map]
    by_cases hs : s ∈ ids
    · refine ⟨ids, hnodup, fun x => ?_, fun _ => if_pos hs⟩
      rw [mem_append, ← hmem, mem_singleton]
      exact (or_iff_left_of_imp (fun hx => hx ▸ hs)).symm
    · refine ⟨ids ++ [s], hnodup.append (nodup_singleton s) (disjoint_singleton.mpr hs),
        fun x => ?_, fun _ => if_neg hs⟩
      rw [mem_append, mem_append, hmem]

theorem get?_map {ids : List ShardIdentity} (f : ShardIdentity -> InterpretedWalRecord)
    (s : ShardIdentity) :
    get? (ids.map (fun s => (s, f s))) s = if s ∈ ids then some (f s) else none := by
  induction ids with
  | nil => rfl
  | cons x ids ih =>
    by_cases hx : x = s
    · simp [get?, hx]
    · have hne : ¬ s = x := fun h => hx h.symm
      simp only [get?, map_cons, find?_cons, mem_cons, hne, false_or] at ih ⊢
      simp only [beq_eq_false_iff_ne.mpr hx]
      exact ih

end ShardRecords

/-!
## Routing of the metadata record
-/

namespace MetadataRecord

def metadataFor (rec : Option MetadataRecord) (shard : ShardIdentity) : Option MetadataRecord :=
  match rec with
  | some (.heapam (.clearVmBits bits)) =>
    (localVmBits shard bits).map (fun b => .heapam (.clearVmBits b))
  | some (.neonrmgr (.clearVmBits bits)) =>
    (localVmBits shard bits).map (fun b => .neonrmgr (.clearVmBits b))
  | some (.logicalMessage (.put _ _)) => if shard.isShardZero then rec else none
  | _ => rec

theorem withMetadata_of_none {record : InterpretedWalRecord}
    (h : record.metadataRecord = none) (rec : Option MetadataRecord) :
    withMetadata record rec = { record with metadataRecord := rec } := by
  cases rec with
  | none => rw [withMetadata, ← h]
  | some r => rfl

/-- At most one identity of the list is shard zero. -/
def OneZero (shards : List ShardIdentity) : Prop :=
  shards.Pairwise (fun s s' => ¬ (s.isShardZero = true ∧ s'.isShardZero = true))

theorem route_eq {ids : List ShardIdentity} {blank : InterpretedWalRecord}
    (hblank : blank.metadataRecord = none) (hzero : OneZero ids)
    (rec : Option MetadataRecord) :
    route rec (ids.map (fun s => (s, blank))) =
      ids.map (fun s => (s, { blank with metadataRecord := metadataFor rec s })) := by
  induction ids with
  | nil => rfl
  | cons s ids ih =>
    have hrest := ih (pairwise_cons.mp hzero).2
    rw [map_cons, map_cons, route.eq_def]
    dsimp only
    split
    · rw [hrest, withMetadata_of_none hblank]
      rfl
    · rw [hrest, withMetadata_of_none hblank]
      rfl
    · by_cases hs : s.isShardZero = true
      · -- the loop stops here, and the shards after it get nothing
        rw [if_pos hs]
        simp only [metadataFor, hs, if_true, List.cons.injEq, true_and]
        apply map_congr_left
        intro x hx
        have hnot : ¬ x.isShardZero = true := fun hx0 =>
          (pairwise_cons.mp hzero).1 x hx ⟨hs, hx0⟩
        simp [hnot, ← hblank]
      · rw [if_neg hs, hrest]
        simp [metadataFor, hs, ← hblank]
    next hheap hneon hput =>
      have hplain : metadataFor rec s = rec := by
        unfold metadataFor
        split
        · exact absurd rfl (hheap _)
        · exact absurd rfl (hneon _)
        · exact absurd rfl (hput _ _)
        · rfl
      rw [hrest, hplain]

/-- The visibility bits that a metadata record clears. -/
def vmBits : Option MetadataRecord -> Option ClearVmBits
  | some (.heapam (.clearVmBits bits)) => some bits
  | some (.neonrmgr (.clearVmBits bits)) => some bits
  | _ => none

/-- A record moves a tuple from an old heap block to a new one. -/
inductive HeapSide where
  | old
  | new

def HeapSide.heapBlkno : HeapSide -> ClearVmBits -> Option BlockNumber
  | old, bits => bits.oldHeapBlkno
  | new, bits => bits.newHeapBlkno

/-- The cleared heap block on one side of a record, with the fork and the bits. -/
def clearedBy (side : HeapSide) (rec : Option MetadataRecord) :
    Option (RelTag × UInt8 × BlockNumber) :=
  (vmBits rec).bind (fun bits =>
    (side.heapBlkno bits).map (fun blk => (bits.vmRel, bits.flags, blk)))

def vmPageKey (bits : RelTag × UInt8 × BlockNumber) : Key :=
  relBlockToKey bits.1 (HEAPBLK_TO_MAPBLOCK bits.2.2)

theorem vmBits_metadataFor (rec : Option MetadataRecord) (shard : ShardIdentity) :
    vmBits (metadataFor rec shard) = (vmBits rec).bind (localVmBits shard) := by
  unfold metadataFor
  split
  next bits =>
    simp only [vmBits, Option.bind_some]
    cases localVmBits shard bits <;> rfl
  next bits =>
    simp only [vmBits, Option.bind_some]
    cases localVmBits shard bits <;> rfl
  · simp only [vmBits, Option.bind_none]
    split <;> simp_all
  next hheap hneon _ =>
    have hnone : vmBits rec = none := by
      unfold vmBits
      split
      · exact absurd rfl (hheap _)
      · exact absurd rfl (hneon _)
      · rfl
    rw [hnone, Option.bind_none]

theorem heapBlkno_localVmBits (side : HeapSide) (shard : ShardIdentity) (bits : ClearVmBits) :
    (localVmBits shard bits).bind side.heapBlkno =
      (side.heapBlkno bits).filter (isLocalVmPage shard bits.vmRel) := by
  unfold localVmBits
  dsimp only
  split
  · cases side <;> rfl
  next hnot =>
    rw [Bool.or_eq_true, not_or, Option.not_isSome_iff_eq_none,
      Option.not_isSome_iff_eq_none] at hnot
    cases side with
    | old => exact hnot.1.symm
    | new => exact hnot.2.symm

theorem localVmBits_vmRel {shard : ShardIdentity} {bits b : ClearVmBits}
    (h : localVmBits shard bits = some b) :
    b.vmRel = bits.vmRel ∧ b.flags = bits.flags := by
  unfold localVmBits at h
  dsimp only at h
  split at h
  · cases h
    exact ⟨rfl, rfl⟩
  · simp at h

theorem clearedBy_metadataFor (side : HeapSide) (rec : Option MetadataRecord)
    (shard : ShardIdentity) :
    clearedBy side (metadataFor rec shard) =
      (clearedBy side rec).filter (fun bits => shard.isKeyLocal (vmPageKey bits)) := by
  unfold clearedBy
  rw [vmBits_metadataFor]
  cases vmBits rec with
  | none => rfl
  | some bits =>
    have hpart := heapBlkno_localVmBits side shard bits
    rw [Option.bind_some, Option.bind_some, Option.filter_map]
    change _ = ((side.heapBlkno bits).filter (isLocalVmPage shard bits.vmRel)).map _
    rw [← hpart]
    cases hbits : localVmBits shard bits with
    | none => rfl
    | some b =>
      obtain ⟨hrel, hflags⟩ := localVmBits_vmRel hbits
      simp [hrel, hflags]

end MetadataRecord

/-!
## The interpretation in closed form
-/

namespace InterpretedWalRecord

open SerializedValueBatch MetadataRecord

variable {err : Type} {d : RecordDecoder err} {buf : List UInt8} {lsn : Lsn}
  {pgVersion : PgMajorVersion}

/-- The decoded record, its metadata record and the values of its blocks. -/
structure Findings where
  decoded : DecodedWALRecord
  metadata : Option MetadataRecord
  vals : List Value

/-- The part of the interpretation that does not look at the shards. -/
def find (d : RecordDecoder err) (buf : List UInt8) (lsn : Lsn)
    (pgVersion : PgMajorVersion) : Except (InterpretError err) Findings :=
  match d.decodeWalRecord buf pgVersion with
  | .error e => .error (.decode e)
  | .ok decoded =>
    if decoded.record.length < decoded.mainDataOffset then
      .error (.panic .advancePastEnd)
    else
      match decodeMetadata d decoded lsn pgVersion
          (decoded.record.drop decoded.mainDataOffset) with
      | .error e => .error (.decode e)
      | .ok metadata =>
        (decoded.blocks.mapM (checkedValue decoded lsn pgVersion)).map
          (fun vals => ⟨decoded, metadata, vals⟩)

namespace Findings

def rows (f : Findings) : List (DecodedBkpBlock × Value) :=
  f.decoded.blocks.zip f.vals

def recordFor (f : Findings) (lsn : Lsn) (shard : ShardIdentity) : InterpretedWalRecord :=
  { metadataRecord := metadataFor f.metadata shard
    batch := fill lsn shard {} f.rows
    nextRecordLsn := lsn
    flushUncommitted := if f.decoded.isDbaseCreateCopy then .yes else .no
    xid := f.decoded.xlXid }

end Findings

theorem fromBytesFiltered_eq (d : RecordDecoder err) (buf : List UInt8) (lsn : Lsn)
    (pgVersion : PgMajorVersion) {shards : List ShardIdentity}
    (hcover : forall key, exists s, s ∈ shards ∧ s.isKeyLocal key = true)
    (hzero : forall {s s'}, s ∈ shards -> s' ∈ shards -> s.isShardZero = true ->
      s'.isShardZero = true -> s = s') :
    exists ids : List ShardIdentity, (forall s, s ∈ ids <-> s ∈ shards) ∧
      fromBytesFiltered d buf shards lsn pgVersion =
        (find d buf lsn pgVersion).map (fun f => ids.map (fun s => (s, f.recordFor lsn s)))
    := by
  obtain ⟨ids, hnodup, hmem, hfold⟩ := ShardRecords.foldl_insert shards
  refine ⟨ids, hmem, ?_⟩
  have honezero : OneZero ids := by
    apply List.Pairwise.imp_of_mem _ hnodup
    intro s s' hs hs' hne hboth
    exact hne (hzero ((hmem s).mp hs) ((hmem s').mp hs') hboth.1 hboth.2)
  unfold fromBytesFiltered find
  cases d.decodeWalRecord buf pgVersion with
  | error e => rfl
  | ok decoded =>
    simp only [hfold, MetadataRecord.fromDecodedFiltered]
    split
    · rfl
    · cases decodeMetadata d decoded lsn pgVersion (decoded.record.drop decoded.mainDataOffset) with
      | error e => rfl
      | ok metadata =>
        simp only [bind, Except.bind]
        rw [route_eq rfl honezero, SerializedValueBatch.fromDecodedFiltered, if_neg,
          foldlM_addBlockAll]
        · cases (decoded.blocks.mapM (checkedValue decoded lsn pgVersion) :
            Except (InterpretError err) (List Value)) with
          | error e => rfl
          | ok vals => simp [Except.map, fillAll, Findings.recordFor, Findings.rows]
        · intro key
          rcases hcover key with ⟨s, hs, hlocal⟩
          exact ⟨_, mem_map_of_mem ((hmem s).mpr hs), hlocal⟩
        · simp [SerializedValueBatch.isEmpty, hasData]

/-!
## The partition
-/

/-- The records of the shards are the whole record, cut along the placement of keys. -/
structure Partitions (blocks : List DecodedBkpBlock) (metadata : Option MetadataRecord)
    (whole : InterpretedWalRecord) (shards : List ShardIdentity) (records : ShardRecords) :
    Prop where
  /-- The whole record has one change for each block. -/
  whole_keys : whole.batch.modifications.map Modification.key =
    blocks.map (fun blk => (blk.key.packI128 : Int))
  /-- Each key is kept by one shard. -/
  owner : forall key, ∃! s, s ∈ shards ∧ s.isKeyLocal key = true
  /-- No other identity gets a record. -/
  only : forall s, s ∉ shards -> records.get? s = none
  /-- A shard serializes the changes of its own blocks, as the whole record has them. -/
  serialized : forall s, s ∈ shards -> exists record, records.get? s = some record ∧
    record.batch.modifications =
      ((blocks.zip whole.batch.modifications).filter (fun p => s.isKeyLocal p.1.key)).map Prod.snd
  /-- Shard zero mentions every block, the others only their own. -/
  mentioned : forall s record, records.get? s = some record ->
    record.batch.metadata.map ValueMeta.key =
      (blocks.filter (fun blk => s.isKeyLocal blk.key || s.isShardZero)).map
        (fun blk => (blk.key.packI128 : Int))
  /-- The whole record clears the visibility bits that were decoded. -/
  cleared : forall side, clearedBy side whole.metadataRecord = clearedBy side metadata
  /-- Visibility bits are cleared by the shard that keeps their page. -/
  visibility : forall s record, records.get? s = some record ->
    forall side, clearedBy side record.metadataRecord =
      (clearedBy side whole.metadataRecord).filter (fun bits => s.isKeyLocal (vmPageKey bits))

theorem find_eq_ok {f : Findings} (h : find d buf lsn pgVersion = .ok f) :
    d.decodeWalRecord buf pgVersion = .ok f.decoded ∧
      decodeMetadata d f.decoded lsn pgVersion (f.decoded.record.drop f.decoded.mainDataOffset) =
        .ok f.metadata ∧ f.vals.length = f.decoded.blocks.length := by
  unfold find at h
  cases hdecode : d.decodeWalRecord buf pgVersion with
  | error e => simp [hdecode] at h
  | ok decoded =>
    simp only [hdecode] at h
    split at h
    · cases h
    · split at h
      · cases h
      next hmetadata =>
        cases hvals : (decoded.blocks.mapM (checkedValue decoded lsn pgVersion) :
            Except (InterpretError err) (List Value)) with
        | error e =>
          rw [hvals] at h
          cases h
        | ok vals =>
          rw [hvals] at h
          cases h
          exact ⟨rfl, hmetadata, (forall₂_of_mapM hvals).length_eq.symm⟩

namespace Findings

theorem blocks_eq {f : Findings} (hlen : f.vals.length = f.decoded.blocks.length) :
    f.decoded.blocks = f.rows.map Prod.fst :=
  (map_fst_zip (le_of_eq hlen.symm)).symm

theorem modifications_recordFor (f : Findings) (lsn : Lsn) (s : ShardIdentity) :
    (f.recordFor lsn s).batch.modifications =
      (f.rows.filter (fun row => s.isKeyLocal row.1.key)).map (modification lsn) :=
  modifications_fill inBounds_empty lsn s f.rows

theorem modifications_whole (f : Findings) (lsn : Lsn) :
    (f.recordFor lsn .unsharded).batch.modifications = f.rows.map (modification lsn) := by
  rw [modifications_recordFor]
  simp [ShardIdentity.isKeyLocal_unsharded]

theorem partitions {f : Findings} (hlen : f.vals.length = f.decoded.blocks.length)
    {shards ids : List ShardIdentity} (hmem : forall s, s ∈ ids <-> s ∈ shards)
    (howner : forall key, ∃! s, s ∈ shards ∧ s.isKeyLocal key = true) :
    Partitions f.decoded.blocks f.metadata (f.recordFor lsn .unsharded) shards
      (ids.map (fun s => (s, f.recordFor lsn s))) := by
  have hget : forall s record,
      ShardRecords.get? (ids.map (fun s => (s, f.recordFor lsn s))) s = some record ->
      record = f.recordFor lsn s := by
    intro s record h
    rw [ShardRecords.get?_map] at h
    split at h
    · exact (Option.some.inj h).symm
    · cases h
  have hwhole : forall side, clearedBy side (f.recordFor lsn .unsharded).metadataRecord =
      clearedBy side f.metadata := by
    intro side
    refine (clearedBy_metadataFor side f.metadata .unsharded).trans ?_
    cases clearedBy side f.metadata <;> simp [ShardIdentity.isKeyLocal_unsharded]
  constructor
  case whole_keys =>
    rw [modifications_whole, blocks_eq hlen, map_map, map_map]
    rfl
  case owner =>
    exact howner
  case only =>
    intro s hs
    rw [ShardRecords.get?_map, if_neg (fun h => hs ((hmem s).mp h))]
  case serialized =>
    intro s hs
    refine ⟨f.recordFor lsn s, ?_, ?_⟩
    · rw [ShardRecords.get?_map, if_pos ((hmem s).mpr hs)]
    · rw [modifications_recordFor, modifications_whole, blocks_eq hlen, zip_map',
        filter_map, map_map]
      rfl
  case mentioned =>
    intro s record hrecord
    rw [hget s record hrecord, blocks_eq hlen, filter_map, map_map]
    exact keys_fill lsn s {} f.rows
  case cleared =>
    exact hwhole
  case visibility =>
    intro s record hrecord side
    rw [hget s record hrecord, hwhole]
    exact clearedBy_metadataFor side f.metadata s

end Findings

/-- Interpreting a record for all shards of a count fails as interpreting it for an
unsharded tenant does, and else gives a partition of that interpretation. -/
theorem fromBytesFiltered_partition (d : RecordDecoder err) (buf : List UInt8) (lsn : Lsn)
    (pgVersion : PgMajorVersion) {count : UInt8} {stripeSize : UInt32}
    {shards : List ShardIdentity} (hcount : 0 < count) (hstripe : stripeSize ≠ 0)
    (hall : ShardIdentity.AllShards count stripeSize shards) :
    (forall e, fromBytesFiltered d buf [.unsharded] lsn pgVersion = .error e ->
      fromBytesFiltered d buf shards lsn pgVersion = .error e) ∧
    (forall unsharded,
      fromBytesFiltered d buf [.unsharded] lsn pgVersion = .ok unsharded ->
      exists decoded metadata whole records,
        d.decodeWalRecord buf pgVersion = .ok decoded ∧
        decodeMetadata d decoded lsn pgVersion (decoded.record.drop decoded.mainDataOffset) =
          .ok metadata ∧
        unsharded.get? .unsharded = some whole ∧
        fromBytesFiltered d buf shards lsn pgVersion = .ok records ∧
        Partitions decoded.blocks metadata whole shards records) := by
  have howner := ShardIdentity.existsUnique_isKeyLocal hcount hstripe hall
  obtain ⟨ids, hids, hsharded⟩ := fromBytesFiltered_eq d buf lsn pgVersion
    (fun key => (howner key).exists) hall.zero_unique
  obtain ⟨ids', hids', hwhole⟩ := fromBytesFiltered_eq d buf lsn pgVersion
    (fun key => ⟨.unsharded, mem_singleton.mpr rfl, ShardIdentity.isKeyLocal_unsharded key⟩)
    (fun hs hs' _ _ => (mem_singleton.mp hs).trans (mem_singleton.mp hs').symm)
  rw [hsharded, hwhole]
  cases hfind : find d buf lsn pgVersion with
  | error e =>
    constructor
    · intro e' he'
      exact he'
    · intro unsharded h
      cases h
  | ok f =>
    constructor
    · intro e he
      cases he
    · intro unsharded h
      cases h
      obtain ⟨hdecode, hmetadata, hlen⟩ := find_eq_ok hfind
      refine ⟨f.decoded, f.metadata, f.recordFor lsn .unsharded, _, hdecode, hmetadata, ?_, rfl,
        Findings.partitions hlen hids howner⟩
      rw [ShardRecords.get?_map, if_pos ((hids' _).mpr (mem_singleton.mpr rfl))]

def sampleShards : List ShardIdentity :=
  [⟨0, 2, 1, .inr (by decide), by decide⟩, ⟨1, 2, 1, .inr (by decide), by decide⟩]

theorem sampleShards_all : ShardIdentity.AllShards 2 1 sampleShards := by
  rintro ⟨number, count, stripeSize, hvalid, hstripe⟩
  simp only [sampleShards, mem_cons, not_mem_nil, or_false, ShardIdentity.mk.injEq]
  constructor
  · rintro (⟨_, rfl, rfl⟩ | ⟨_, rfl, rfl⟩) <;> exact ⟨rfl, rfl⟩
  · rintro ⟨rfl, rfl⟩
    have hlt : number < 2 := by
      rcases hvalid with ⟨_, hzero⟩ | hlt
      · exact absurd hzero (by decide)
      · exact hlt
    have hcases : number = 0 ∨ number = 1 := by
      rw [UInt8.lt_iff_toNat_lt] at hlt
      rw [← UInt8.toNat_inj, ← UInt8.toNat_inj]
      change number.toNat = 0 ∨ number.toNat = 1
      change number.toNat < 2 at hlt
      omega
    simpa using hcases

def sampleBlock (blkno : BlockNumber) : DecodedBkpBlock :=
  { rnodeSpcnode := 1663, rnodeDbnode := 5, rnodeRelnode := 16384, forknum := 0
    blkno := blkno, hasImage := false, applyImage := false, willInit := true
    holeOffset := 0, holeLength := 0, bimgOffset := 0, bimgLen := 0, bimgInfo := 0 }

/-- A heap update that touches two blocks and clears the bits of both. -/
def sampleDecoder : RecordDecoder Unit :=
  let none : Except Unit (Option MetadataRecord) := .ok none
  { decodeWalRecord := fun buf _ => .ok
      { xlXid := 7, xlInfo := 0x20, xlRmid := RM_HEAP_ID, record := buf
        blocks := [sampleBlock 0, sampleBlock 1], mainDataOffset := 0, originId := 0 }
    decodeHeapamRecord := fun _ _ _ => .ok (some (.heapam (.clearVmBits
      { newHeapBlkno := some 0, oldHeapBlkno := some 1
        vmRel := ⟨VISIBILITYMAP_FORKNUM, 1663, 5, 16384⟩, flags := 3 })))
    decodeNeonmgrRecord := fun _ _ _ => none
    decodeSmgrRecord := fun _ _ => none
    decodeDbaseRecord := fun _ _ _ => none
    decodeClogRecord := fun _ _ _ => none
    decodeXactRecord := fun _ _ _ => none
    decodeMultixactRecord := fun _ _ _ => none
    decodeRelmapRecord := fun _ _ => none
    decodeXlogRecord := fun _ _ _ => none
    decodeLogicalMessageRecord := fun _ _ => none
    decodeStandbyRecord := fun _ _ => none
    decodeReploriginRecord := fun _ _ => none }

theorem fromBytesFiltered_partition_sample :
    exists decoded metadata whole records,
      sampleDecoder.decodeWalRecord [1, 2, 3] .PG16 = .ok decoded ∧
      fromBytesFiltered sampleDecoder [1, 2, 3] sampleShards 64 .PG16 = .ok records ∧
      decoded.blocks.length = 2 ∧
      (forall side, (clearedBy side whole.metadataRecord).isSome = true) ∧
      Partitions decoded.blocks metadata whole sampleShards records := by
  obtain ⟨decoded, metadata, whole, records, hdecode, hmetadata, _, hrecords, hpart⟩ :=
    (fromBytesFiltered_partition sampleDecoder [1, 2, 3] 64 .PG16 (by decide) (by decide)
      sampleShards_all).2 _ rfl
  refine ⟨decoded, metadata, whole, records, hdecode, hrecords, ?_, fun side => ?_, hpart⟩
  · cases hdecode
    rfl
  · rw [hpart.cleared]
    cases hdecode
    cases hmetadata
    cases side <;> rfl

end InterpretedWalRecord

end WalDecoder
end OpenNeon

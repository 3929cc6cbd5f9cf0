import OpenNeon.Pageserver.Datadir.RecordCoverage
import OpenNeon.WalDecoder.Partition

/-!
# The batch of a record keeps blocks covered

The sizes of relations grow with the blocks that a batch mentions.  A block that
comes below the size of its relation on the way is mentioned itself or lies in a
gap, so the batch with its gaps filled has a value for it if it is of this shard.
-/

namespace OpenNeon
namespace Pageserver
namespace Datadir

open Base WalDecoder SerializedValueBatch List
open Prog (Yields)

/-- The batch has the form of one that is made for a shard: it mentions keys of
blocks at the LSN of the record, and the values for keys of the shard. -/
structure BatchFor (shard : ShardIdentity) (lsn : Lsn) (batch : SerializedValueBatch) :
    Prop where
  lsn_eq : forall m, m ∈ batch.metadata -> m.lsn = lsn
  packed : forall m, m ∈ batch.metadata ->
    ((Key.fromI128 m.key).packI128 : Int) = m.key
  written : forall m, m ∈ batch.metadata ->
    shard.isKeyLocal (Key.fromI128 m.key) = true -> m.write?.isSome
  data : batch.hasData = false -> batch.writes = []

variable {shard : ShardIdentity} {lsn : Lsn} {batch : SerializedValueBatch} {rel : RelTag}
  {blk : BlockNumber}

theorem BatchFor.write_lsn (h : BatchFor shard lsn batch) {w : BlockWrite}
    (hw : w ∈ batch.writes) : w.lsn = lsn := by
  rcases mem_filterMap.mp hw with ⟨m, hm, hwrite⟩
  rw [← (ValueMeta.write?_eq_some hwrite).2]
  exact h.lsn_eq m hm

/-!
## Batches of the decoder
-/

namespace BatchFor

variable {shard : ShardIdentity} {lsn : Lsn} {batch : SerializedValueBatch}

theorem empty (shard : ShardIdentity) (lsn : Lsn) : BatchFor shard lsn {} :=
  ⟨nofun, nofun, nofun, fun _ => rfl⟩

theorem packed_packI128 (k : Key) : ((Key.fromI128 k.packI128).packI128 : Int) = k.packI128 := by
  rw [Key.fromI128_packI128_cut]
  simp only [Key.packI128, UInt8.and_assoc, UInt32.and_assoc, UInt8.and_self, UInt32.and_self]

theorem append {batch' : SerializedValueBatch} {m : ValueMeta} {k : Key}
    (h : BatchFor shard lsn batch) (hmetadata : batch'.metadata = batch.metadata ++ [m])
    (hlsn : m.lsn = lsn) (hkey : m.key = k.packI128)
    (hwritten : shard.isKeyLocal (Key.fromI128 k.packI128) = true -> m.write?.isSome)
    (hdata : batch'.hasData = false -> batch'.writes = []) :
    BatchFor shard lsn batch' := by
  have hsplit : forall {p : ValueMeta -> Prop}, (forall m, m ∈ batch.metadata -> p m) ->
      p m -> forall m', m' ∈ batch'.metadata -> p m' := by
    intro p hold hnew
    rw [hmetadata]
    exact forall_mem_concat hold hnew
  refine ⟨hsplit h.lsn_eq hlsn, hsplit h.packed ?_, hsplit h.written ?_, hdata⟩
  · rw [hkey]
    exact packed_packI128 k
  · rw [hkey]
    exact hwritten

theorem fillBlock (h : BatchFor shard lsn batch) (row : DecodedBkpBlock × WalDecoder.Value) :
    BatchFor shard lsn (SerializedValueBatch.fillBlock lsn shard batch row) := by
  have hkey : shard.isKeyLocal (Key.fromI128 row.1.key.packI128) =
      shard.isKeyLocal row.1.key := by
    rw [Key.fromI128_packI128_cut, show row.1.key.field1 &&& 0x7F = 0 from UInt8.zero_and]
    rfl
  unfold SerializedValueBatch.fillBlock
  split
  · refine h.append rfl rfl rfl (fun _ => rfl) (fun hdata => ?_)
    cases hval : row.2 <;>
      simp [hasData, addSerialized, hval, WalDecoder.Value.ser, beBytes] at hdata
  next hremote =>
    split
    · refine h.append rfl rfl rfl (fun hlocal => absurd (hkey ▸ hlocal) hremote) (fun hdata => ?_)
      rw [← h.data hdata]
      simp [writes, addObserved, ValueMeta.write?]
    · exact h

/-- The batch that the decoder makes for a shard has that form. -/
theorem recordFor (f : InterpretedWalRecord.Findings) (lsn : Lsn) (shard : ShardIdentity) :
    BatchFor shard lsn (f.recordFor lsn shard).batch :=
  List.foldlRecOn f.rows _ (empty shard lsn) (fun _ h row _ => h.fillBlock row)

end BatchFor

/-!
## Keys of blocks
-/

theorem toRelBlock_fromI128_blockKey (h : (relBlockToKey rel blk).Fits) :
    toRelBlock (Key.fromI128 (blockKey rel blk)) = some (rel, blk) := by
  unfold blockKey
  rw [Key.fromI128_packI128 h]
  rfl

theorem eq_relBlockToKey {key : Key} (h : toRelBlock key = some (rel, blk)) :
    key = relBlockToKey rel blk := by
  unfold toRelBlock at h
  split at h
  next hfield =>
    cases h
    cases key
    cases hfield
    rfl
  · cases h

theorem mem_findGaps {blkno old : BlockNumber} (hge : old ≤ blk) (hlt : blk < blkno)
    (hlocal : shard.isKeyLocal (relBlockToKey rel blk) = true) :
    relBlockToKey rel blk ∈ findGaps rel blkno old shard := by
  refine mem_filter.mpr ⟨mem_map_of_mem (mem_blockRange.mpr ⟨hge, hlt⟩), ?_⟩
  exact beq_iff_eq.mpr ((ShardIdentity.isKeyLocal_iff shard _).mp hlocal)

theorem mapM_toCompact {keys : List Key} {compact : List Int}
    (h : keys.mapM toCompact = .ok compact) :
    compact = keys.map (fun key => (key.packI128 : Int)) := by
  rw [← List.forall₂_eq_eq_eq, List.forall₂_map_right_iff]
  refine (forall₂_of_mapM h).flip.imp ?_
  intro c key hc
  rw [toCompact_eq] at hc
  split at hc
  · exact (Except.ok.inj hc).symm
  · cases hc

/-!
## Growing relations
-/

/-- A block that came below the size of its relation by the values and gaps so far. -/
structure NewBlock (shard : ShardIdentity) (start : State) (done : List ValueMeta)
    (gaps : List (List Int × Lsn)) (rel : RelTag) (blk : BlockNumber) : Prop where
  new : ¬ (start.Known rel ∧ start.Below rel blk)
  fits : (relBlockToKey rel blk).Fits
  valued : shard.isKeyLocal (relBlockToKey rel blk) = true ->
    (exists m, m ∈ done ∧ m.key = blockKey rel blk) ∨
      exists gap, gap ∈ gaps ∧ blockKey rel blk ∈ gap.1

theorem NewBlock.mono {start : State} {done done' : List ValueMeta}
    {gaps gaps' : List (List Int × Lsn)} (h : NewBlock shard start done gaps rel blk)
    (hdone : done ⊆ done') (hgaps : gaps ⊆ gaps') :
    NewBlock shard start done' gaps' rel blk :=
  { h with
    valued := fun hlocal => (h.valued hlocal).imp (fun ⟨m, hm, hkey⟩ => ⟨m, hdone hm, hkey⟩)
      (fun ⟨gap, hgap, hkey⟩ => ⟨gap, hgaps hgap, hkey⟩) }

structure Grown (shard : ShardIdentity) (start : State) (done : List ValueMeta)
    (gaps : List (List Int × Lsn)) (s : State) : Prop
    extends Ready start.tline.shard start.lsn s where
  versions : s.versions = start.versions
  known : forall rel, start.Known rel -> s.Known rel
  size : forall rel n, start.Known rel -> start.sizeOf rel = some n ->
    exists n', s.sizeOf rel = some n' ∧ n ≤ n'
  below : forall rel blk, s.Below rel blk ->
    start.Below rel blk ∧ s.belowSince rel blk = start.belowSince rel blk ∨
      s.belowSince rel blk = start.lsn ∧ NewBlock shard start done gaps rel blk
  gap_lsn : forall gap, gap ∈ gaps -> gap.2 = start.lsn

namespace Grown

variable {rule : CoverRule} {shard : ShardIdentity} {lsn : Lsn} {start s s' : State}
  {done : List ValueMeta} {gaps : List (List Int × Lsn)}

theorem refl (h : Mid rule shard lsn NoBlocks start) : Grown shard start [] [] start where
  toReady := { h.toReady with lsn_eq := rfl, shard_eq := rfl }
  versions := rfl
  known := fun _ hknown => hknown
  size := fun _ n _ hsize => ⟨n, hsize, UInt32.le_refl n⟩
  below := fun _ _ hbelow => .inl ⟨hbelow, rfl⟩
  gap_lsn := nofun

theorem mono (h : Grown shard start done gaps s) {done' : List ValueMeta}
    {gaps' : List (List Int × Lsn)} (hdone : done ⊆ done') (hgaps : gaps ⊆ gaps')
    (hlsn : forall gap, gap ∈ gaps' -> gap.2 = start.lsn) :
    Grown shard start done' gaps' s :=
  { h with
    below := fun rel blk hbelow => (h.below rel blk hbelow).imp_right
      (fun ⟨hsince, hnew⟩ => ⟨hsince, hnew.mono hdone hgaps⟩)
    gap_lsn := hlsn }

theorem quiet (h : Grown shard start done gaps s) (hquiet : Quiet s s')
    (hknown : forall rel, s.Known rel -> s'.Known rel) :
    Grown shard start done gaps s' where
  toReady := h.toReady.quiet hquiet
  versions := hquiet.versions.trans h.versions
  known := fun rel hrel => hknown rel (h.known rel hrel)
  size := by
    rw [hquiet.sizes]
    exact h.size
  below := by
    unfold State.Below
    rw [hquiet.sizes, hquiet.belowSince]
    exact h.below
  gap_lsn := h.gap_lsn

variable {old n : BlockNumber}

theorem resized (h : Grown shard start done gaps s) (hresized : Resized s s' rel old n)
    (hknown : forall r, s.Known r -> s'.Known r)
    (hsize : forall m, start.Known rel -> start.sizeOf rel = some m -> m ≤ n)
    (hold : forall blk, blk < old -> blk < n -> s.Below rel blk)
    (hnew : forall blk, old ≤ blk -> blk < n -> NewBlock shard start done gaps rel blk) :
    Grown shard start done gaps s' where
  toReady := h.toReady.resized hresized
  versions := hresized.versions.trans h.versions
  known := fun r hr => hknown r (h.known r hr)
  size := by
    intro r m hr hm
    rw [hresized.sizes]
    split
    next heq =>
      subst heq
      exact ⟨n, rfl, hsize m hr hm⟩
    · exact h.size r m hr hm
  below := by
    rintro r blk ⟨m, hm, hlt⟩
    rw [hresized.sizes] at hm
    rw [hresized.belowSince]
    by_cases hr : r = rel
    · subst hr
      rw [if_pos rfl] at hm
      cases hm
      by_cases hge : old ≤ blk
      · rw [if_pos ⟨rfl, hge⟩]
        exact .inr ⟨h.lsn_eq, hnew blk hge hlt⟩
      · rw [if_neg (fun hand => hge hand.2)]
        exact h.below r blk (hold blk (UInt32.not_le.mp hge) hlt)
    · rw [if_neg hr] at hm
      rw [if_neg (fun hand => hr hand.1)]
      exact h.below r blk ⟨m, hm, hlt⟩
  gap_lsn := h.gap_lsn

theorem createRelationIfRequired (h : Grown shard start done gaps s) (rel : RelTag) :
    Yields (createRelationIfRequired rel) s (fun n s' =>
      Grown shard start done gaps s' ∧ s'.sizeOf rel = some n ∧
        forall blk, start.Known rel ∧ start.Below rel blk -> blk < n) := by
  refine (yields_createRelationIfRequired h.coherent rel).mono ?_
  rintro n s1 ⟨hmono, ⟨_, hsize, hquiet⟩ | ⟨hunknown, rfl, hresized⟩⟩
  · refine ⟨h.quiet hquiet hmono, by rw [hquiet.sizes]; exact hsize, ?_⟩
    rintro blk ⟨hstart, n0, hn0, hlt⟩
    rcases h.size rel n0 hstart hn0 with ⟨n', hn', hle⟩
    cases hsize.symm.trans hn'
    exact UInt32.lt_of_lt_of_le hlt hle
  · have hstart : ¬ start.Known rel := fun hknown => hunknown (h.known rel hknown)
    refine ⟨?_, by rw [hresized.sizes, if_pos rfl], fun blk hand => absurd hand.1 hstart⟩
    exact h.resized hresized hmono (fun m hknown => absurd hknown hstart)
      (fun blk hlt => absurd hlt UInt32.not_lt_zero)
      (fun blk _ hlt => absurd hlt UInt32.not_lt_zero)

theorem le_or_eq_of_lt_succ {blkno : BlockNumber} (h : blk < blkno + 1) :
    blk < blkno ∨ blk = blkno := by
  rw [UInt32.lt_iff_toNat_lt, UInt32.toNat_add, UInt32.toNat_one] at h
  rw [UInt32.lt_iff_toNat_lt, ← UInt32.toNat_inj]
  omega

theorem putRelExtend (h : Grown shard start done gaps s) (hsize : s.sizeOf rel = some old)
    (hnew : forall blk, old ≤ blk -> blk < n -> NewBlock shard start done gaps rel blk) :
    Yields (Prog.onlyIf (old < n) (Datadir.putRelExtend rel n)) s
      (fun _ => Grown shard start done gaps) := by
  refine Yields.onlyIf (fun hlt => ?_) (fun _ => h)
  refine (yields_putRelExtend rel n s).mono ?_
  rintro _ s' ⟨old', hold', ⟨_, rfl⟩ | ⟨_, rfl⟩⟩
  · exact h
  · cases hsize.symm.trans hold'
    refine h.resized (resized_withSize s rel old n) (fun r hr => known_withSize hr _ _ _)
      ?_ (fun blk hltOld _ => ⟨old, hsize, hltOld⟩) hnew
    intro n0 hstart hn0
    rcases h.size rel n0 hstart hn0 with ⟨n', hn', hle⟩
    cases hsize.symm.trans hn'
    exact UInt32.le_of_lt (UInt32.lt_of_le_of_lt hle hlt)

theorem ingestMeta {m : ValueMeta} (h : Grown shard start done gaps s) (hlsn : m.lsn = start.lsn)
    (hpacked : ((Key.fromI128 m.key).packI128 : Int) = m.key) :
    Yields (ingestMeta shard gaps m) s
      (fun gaps' s' => Grown shard start (done ++ [m]) gaps' s') := by
  unfold Datadir.ingestMeta
  dsimp only
  split
  · exact Yields.throw
  next rel blkno hrel =>
    have hkey := eq_relBlockToKey hrel
    have hmkey : m.key = blockKey rel blkno := by
      unfold blockKey
      rw [← hkey, hpacked]
    have hfits : forall blk, (relBlockToKey rel blk).Fits := by
      intro blk
      have hfits := Key.fits_fromI128 m.key
      rw [hkey] at hfits
      exact hfits
    refine (h.createRelationIfRequired rel).bind ?_
    rintro old s1 ⟨h1, hsize1, hbelow⟩
    -- the gap of this value is known before the relation is extended
    generalize hkeys : (findGaps rel blkno old shard).map (fun key => (key.packI128 : Int)) = keys
    generalize hgaps : (if keys.isEmpty then gaps else gaps ++ [(keys, m.lsn)]) = gaps'
    have hsub : gaps ⊆ gaps' := by
      rw [← hgaps]
      split
      · exact List.Subset.refl gaps
      · exact subset_append_left _ _
    have hlsn' : forall gap, gap ∈ gaps' -> gap.2 = start.lsn := by
      intro gap hgap
      rw [← hgaps] at hgap
      split at hgap
      · exact h1.gap_lsn gap hgap
      · exact forall_mem_concat h1.gap_lsn hlsn gap hgap
    have hmem : forall key, key ∈ keys -> exists gap, gap ∈ gaps' ∧ key ∈ gap.1 := by
      intro key hin
      rw [← hgaps, if_neg (by simp [ne_nil_of_mem hin])]
      exact ⟨(keys, m.lsn), by simp, hin⟩
    have h1' := h1.mono (subset_append_left done [m]) hsub hlsn'
    refine (h1'.putRelExtend hsize1 ?_).bind (fun _ s2 h2 => ?_)
    · intro blk hge hlt
      refine ⟨fun hand => UInt32.not_lt.mpr hge (hbelow blk hand), hfits blk, ?_⟩
      intro hlocal
      rcases le_or_eq_of_lt_succ hlt with hgap | rfl
      · refine .inr (hmem _ ?_)
        rw [← hkeys]
        exact mem_map_of_mem (mem_findGaps hge hgap hlocal)
      · exact .inl ⟨m, by simp, hmkey⟩
    · have hcompact : Yields (liftExcept ((findGaps rel blkno old shard).mapM toCompact) :
          Op (List Int)) s2 (fun keys' s' => keys' = keys ∧ s' = s2) := by
        cases hmap : (findGaps rel blkno old shard).mapM toCompact with
        | error e => exact Yields.throw
        | ok compact => exact Yields.pure ⟨(mapM_toCompact hmap).trans hkeys, rfl⟩
      refine hcompact.bind ?_
      rintro keys' s3 ⟨rfl, rfl⟩
      rw [← hgaps] at h2
      refine Yields.ite (fun hempty => ?_) (fun hsome => ?_)
      · rw [if_pos hempty] at h2
        exact h2
      · rw [if_neg hsome] at h2
        exact h2

theorem foldlM_ingestMeta (h : Grown shard start [] [] s)
    (hbatch : BatchFor shard start.lsn batch) :
    Yields (batch.metadata.foldlM (Datadir.ingestMeta shard) []) s
      (fun gaps => Grown shard start batch.metadata gaps) := by
  have hfold : Yields (batch.metadata.foldlM (Datadir.ingestMeta shard) []) s
      (fun gaps => Grown shard start ([] ++ batch.metadata) gaps) :=
    Yields.foldlM (fun front m gaps s1 h1 hm =>
      h1.ingestMeta (hbatch.lsn_eq m hm) (hbatch.packed m hm)) h
  exact hfold

end Grown

/-!
## The filled batch
-/

/-- The batch that is added: with zero pages in the gaps, if there are any. -/
def filled (batch : SerializedValueBatch) (gaps : List (List Int × Lsn)) : SerializedValueBatch :=
  if gaps.isEmpty then batch else batch.zeroGaps gaps

section Filled

variable {shard : ShardIdentity} {lsn : Lsn} {batch : SerializedValueBatch}
  {gaps : List (List Int × Lsn)}

theorem mem_writes_filled (hlsn : forall gap, gap ∈ gaps -> gap.2 = lsn) {w : BlockWrite}
    (h : w ∈ (filled batch gaps).writes) :
    w ∈ batch.writes ∨ w.lsn = lsn ∧ w.willInit = true := by
  unfold filled at h
  split at h
  · exact .inl h
  · rcases mem_writes_zeroGaps h with hw | ⟨gap, hgap, key, _, rfl⟩
    · exact .inl hw
    · exact .inr ⟨hlsn gap hgap, rfl⟩

theorem exists_write_filled (hbatch : BatchFor shard lsn batch)
    (hlsn : forall gap, gap ∈ gaps -> gap.2 = lsn) {key : Int}
    (hlocal : shard.isKeyLocal (Key.fromI128 key) = true)
    (h : (exists m, m ∈ batch.metadata ∧ m.key = key) ∨ exists gap, gap ∈ gaps ∧ key ∈ gap.1) :
    exists w, w ∈ (filled batch gaps).writes ∧ w.key = key := by
  have hwritten : forall m, m ∈ batch.metadata -> m.key = key -> m.write?.isSome :=
    fun m hm hkey => hbatch.written m hm (by rw [hkey]; exact hlocal)
  unfold filled
  split
  next hempty =>
    rw [List.isEmpty_iff] at hempty
    subst hempty
    rcases h with ⟨m, hm, hkey⟩ | ⟨gap, hgap, _⟩
    · rcases Option.isSome_iff_exists.mp (hwritten m hm hkey) with ⟨w, hw⟩
      exact ⟨w, mem_filterMap.mpr ⟨m, hm, hw⟩, (ValueMeta.write?_eq_some hw).1.symm.trans hkey⟩
    · exact nomatch hgap
  · have hgiven : (exists m, m ∈ batch.metadata ∧ m.key = key ∧ m.lsn = lsn) ∨
        exists gap, gap ∈ gaps ∧ gap.2 = lsn ∧ key ∈ gap.1 :=
      h.imp (fun ⟨m, hm, hkey⟩ => ⟨m, hm, hkey, hbatch.lsn_eq m hm⟩)
        (fun ⟨gap, hgap, hkey⟩ => ⟨gap, hgap, hlsn gap hgap, hkey⟩)
    rcases exists_write_zeroGaps
      (fun m hm hkey _ => hwritten m hm hkey) hgiven with ⟨w, hw, hkey, _⟩
    exact ⟨w, hw, hkey⟩

theorem writes_filled_of_no_data (hbatch : BatchFor shard lsn batch)
    (h : (filled batch gaps).hasData = false) : (filled batch gaps).writes = [] := by
  unfold filled at h ⊢
  split at h
  next hempty =>
    rw [if_pos hempty]
    exact hbatch.data h
  next hsome =>
    rw [if_neg hsome]
    rcases hasData_zeroGaps h with ⟨hdata, hnone⟩
    refine eq_nil_iff_forall_not_mem.mpr (fun w hw => ?_)
    rcases mem_writes_zeroGaps hw with hw | ⟨gap, hgap, key, hkey, _⟩
    · rw [hbatch.data hdata] at hw
      exact nomatch hw
    · rw [hnone gap hgap] at hkey
      exact nomatch hkey

end Filled

/-- What the rule asks of the values of a batch that need an earlier version: the
block is below the size of a relation that the shard knows, or has a version that
covers it from now on; and where every version has to rest on another, it has one. -/
structure ChangesOk (rule : CoverRule) (s : State) (batch : SerializedValueBatch) :
    Prop where
  below : forall w, w ∈ batch.writes -> w.willInit = false -> forall rel blk,
    toRelBlock (Key.fromI128 w.key) = some (rel, blk) -> rule.rels rel ->
    s.Known rel ∧ s.Below rel blk ∨
      exists v, v ∈ s.versions w.key ∧ v.2 = true ∧ v.1 < s.lsn ∧ rule.floor s.lsn ≤ v.1
  older : rule.strict -> forall w, w ∈ batch.writes -> w.willInit = false ->
    s.Older w.key

namespace Grown

variable {rule : CoverRule} {shard : ShardIdentity} {lsn : Lsn} {start s : State}
  {batch : SerializedValueBatch} {gaps : List (List Int × Lsn)}

section

variable (h : Grown shard start batch.metadata gaps s) (hbatch : BatchFor shard start.lsn batch)

include h hbatch

theorem versions_addBatch :
    (s.addBatch (filled batch gaps)).versions =
      applyWrites (filled batch gaps).writes start.versions := by
  rw [State.versions_addBatch (writes_filled_of_no_data hbatch), h.versions]

theorem write_lsn {w : BlockWrite} (hw : w ∈ (filled batch gaps).writes) : w.lsn = start.lsn := by
  rcases mem_writes_filled h.gap_lsn hw with hw | hw
  · exact hbatch.write_lsn hw
  · exact hw.1

/-- A new block is covered: its values need no earlier version, or the one that does has it. -/
theorem covered_new (hok : ChangesOk rule start batch)
    (hrel : rule.rels rel) (hlocal : shard.isKeyLocal (relBlockToKey rel blk) = true)
    (hsince : s.belowSince rel blk = start.lsn)
    (hnew : NewBlock shard start batch.metadata gaps rel blk) :
    (s.addBatch (filled batch gaps)).Backed rule rel blk ∨
      (s.addBatch (filled batch gaps)).Fresh rel blk := by
  have hversions := h.versions_addBatch hbatch
  by_cases hinit : forall w, w ∈ (filled batch gaps).writes ->
      w.key = blockKey rel blk -> w.willInit = true
  · refine .inr ?_
    show (s.lsn, true) ∈ _
    rw [hversions, h.lsn_eq]
    refine fresh_applyWrites (fun w hw hkey => ⟨h.write_lsn hbatch hw, hinit w hw hkey⟩) (.inr ?_)
    refine exists_write_filled hbatch h.gap_lsn ?_ (hnew.valued hlocal)
    unfold blockKey
    rw [Key.fromI128_packI128 hnew.fits]
    exact hlocal
  · refine .inl ?_
    push Not at hinit
    rcases hinit with ⟨w, hw, hkey, hneeds⟩
    have hneeds := Bool.eq_false_of_not_eq_true hneeds
    have hgiven : w ∈ batch.writes := by
      rcases mem_writes_filled h.gap_lsn hw with hw | ⟨_, hzero⟩
      · exact hw
      · rw [hneeds] at hzero
        cases hzero
    have hblock : toRelBlock (Key.fromI128 w.key) = some (rel, blk) := by
      rw [hkey]
      exact toRelBlock_fromI128_blockKey hnew.fits
    rcases hok.below w hgiven hneeds rel blk hblock hrel with
      hand | ⟨v, hv, hv2, hlt, hfloor⟩
    · exact absurd hand hnew.new
    · refine ⟨v, ?_, hv2, ?_, ?_⟩
      · rw [hversions, ← hkey]
        exact mem_applyWrites_of_ne hv (fun w' hw' => by
          rw [h.write_lsn hbatch hw']
          exact (Nat.ne_of_lt hlt).symm)
      · show v.1 < s.lsn
        rw [h.lsn_eq]
        exact hlt
      · show rule.floor (s.belowSince rel blk) ≤ v.1
        rw [hsince]
        exact hfloor

end

theorem mended_addBatch (h : Grown shard start batch.metadata gaps s)
    (hmid : Mid rule shard lsn NoBlocks start) (hbatch : BatchFor shard start.lsn batch)
    (hok : ChangesOk rule start batch) :
    Mended rule shard lsn (s.addBatch (filled batch gaps)) where
  coherent := { h.coherent with }
  wf := { h.wf with }
  snapshot := h.snapshot
  lsn_eq := h.lsn_eq.trans hmid.lsn_eq
  last_lt := h.last_lt
  shard_eq := h.shard_eq.trans hmid.shard_eq
  versions_le := by
    intro key v hv
    show v.1 ≤ s.lsn
    rw [h.lsn_eq]
    rw [h.versions_addBatch hbatch] at hv
    rcases mem_applyWrites hv with hold | ⟨w, hw, _, rfl⟩
    · exact hmid.versions_le key v hold
    · exact Nat.le_of_eq (h.write_lsn hbatch hw)
  since_le := h.since_le
  backed := by
    intro rel blk hrel hlocal hbelow
    rcases h.below rel blk hbelow with ⟨hstart, hsince⟩ | ⟨hsince, hnew⟩
    · rcases hmid.backed rel blk hrel hlocal hstart with hbacked | hfalse
      · exact .inl (Mid.backed_applyWrites (fun w hw => h.write_lsn hbatch hw) hbacked
          (h.versions_addBatch hbatch) h.lsn_eq hsince)
      · exact hfalse.elim
    · exact h.covered_new hbatch hok hrel hlocal hsince hnew
  based := by
    intro hstrict
    rw [h.versions_addBatch hbatch]
    refine (hmid.based hstrict).applyWrites (fun w hw => ⟨h.write_lsn hbatch hw, ?_⟩)
    rcases mem_writes_filled h.gap_lsn hw with hgiven | hzero
    · cases hneeds : w.willInit with
      | true => exact .inl rfl
      | false => exact .inr (hok.older hstrict w hgiven hneeds)
    · exact .inl hzero.2

end Grown

variable {rule : CoverRule} {s : State}

theorem mended_ingestBatch (h : Mid rule shard lsn NoBlocks s)
    (hbatch : BatchFor shard lsn batch) (hok : ChangesOk rule s batch) :
    Yields (ingestBatch batch shard) s (fun _ => Mended rule shard lsn) := by
  rw [← h.lsn_eq] at hbatch
  refine ((Grown.refl h).foldlM_ingestMeta hbatch).bind (fun gaps s1 h1 => ?_)
  exact Yields.modify (h1.mended_addBatch h hbatch hok)

theorem mended_ingestBatch_empty (h : Mended rule shard lsn s) (hempty : batch.isEmpty = true) :
    Yields (ingestBatch batch shard) s (fun _ => Mended rule shard lsn) := by
  rcases Bool.and_eq_true_iff.mp hempty with ⟨_, hmetadata⟩
  rw [List.isEmpty_iff] at hmetadata
  have hwrites : batch.writes = [] := by
    unfold SerializedValueBatch.writes
    rw [hmetadata]
    rfl
  unfold ingestBatch
  rw [hmetadata]
  refine Yields.modify (mended_of_quiet h ?_)
  refine ⟨⟨?_, rfl, rfl, rfl, rfl, rfl, fun _ hwf => { hwf with }⟩, rfl, rfl, fun _ => .inl rfl⟩
  show (s.addBatch batch).versions = s.versions
  rw [State.versions_addBatch (fun _ => hwrites), hwrites]
  rfl

end Datadir
end Pageserver
end OpenNeon

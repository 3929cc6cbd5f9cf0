import OpenNeon.Base.OrdMap
import OpenNeon.WalDecoder.Interpret

/-!
# Operations on batches of values

The page server adds single values to a batch, appends batches to one another and
fills the gaps that a batch leaves in a relation with zero pages.  For the store
only the writes of a batch matter: the key, the LSN and whether the value needs no
earlier version.
-/

namespace OpenNeon
namespace WalDecoder

open Base Pageserver List

def ZERO_PAGE : List UInt8 := List.replicate BLCKSZ 0

structure BlockWrite where
  key : Int
  lsn : Lsn
  willInit : Bool

namespace ValueMeta

/-- What the value writes; an observed one writes nothing. -/
def write? : ValueMeta -> Option BlockWrite
  | serialized ser => some { ser with }
  | observed _ => none

def shift (start : Nat) : ValueMeta -> ValueMeta
  | serialized ser => serialized { ser with batchOffset := ser.batchOffset + start }
  | observed obs => observed obs

@[simp] theorem write?_shift (start : Nat) (m : ValueMeta) : (m.shift start).write? = m.write? := by
  cases m <;> rfl

/-- The order of a batch's metadata: by key, then by LSN. -/
def order (m : ValueMeta) : Int ×ₗ Lsn :=
  toLex (m.key, m.lsn)

theorem write?_eq_some {m : ValueMeta} {w : BlockWrite} (h : m.write? = some w) :
    m.key = w.key ∧ m.lsn = w.lsn := by
  cases m with
  | serialized ser =>
    cases h
    exact ⟨rfl, rfl⟩
  | observed obs => cases h

end ValueMeta

namespace SerializedValueBatch

def writes (b : SerializedValueBatch) : List BlockWrite :=
  b.metadata.filterMap ValueMeta.write?

def put (b : SerializedValueBatch) (key : Int) (value : Value) (lsn : Lsn) : SerializedValueBatch :=
  { raw := b.raw ++ value.ser
    metadata := b.metadata ++ [.serialized
      { key := key
        lsn := lsn
        batchOffset := b.raw.length
        len := value.ser.length
        willInit := value.willInit }]
    maxLsn := max b.maxLsn lsn
    len := b.len + 1 }

def extend (b other : SerializedValueBatch) : SerializedValueBatch :=
  { raw := b.raw ++ other.raw
    metadata := b.metadata ++ other.metadata.map (ValueMeta.shift b.raw.length)
    maxLsn := max b.maxLsn other.maxLsn
    len := b.len + other.len }

@[simp] theorem writes_put (b : SerializedValueBatch) (key : Int) (value : Value) (lsn : Lsn) :
    (b.put key value lsn).writes = b.writes ++ [⟨key, lsn, value.willInit⟩] := by
  unfold writes put
  rw [filterMap_append]
  rfl

@[simp] theorem writes_extend (b other : SerializedValueBatch) :
    (b.extend other).writes = b.writes ++ other.writes := by
  unfold writes extend
  rw [filterMap_append, filterMap_map]
  congr 2
  funext m
  exact ValueMeta.write?_shift b.raw.length m

/-!
## Zero pages

The metadata goes through an ordered set by key and LSN.  Of the values with one key
and LSN the set takes the last from the batch itself; a zero page is added only
where the set has no value.
-/

abbrev OrderedMetas := OrdMap (Int ×ₗ Lsn) ValueMeta

def orderedMetas (metadata : List ValueMeta) : OrderedMetas :=
  metadata.foldl (fun metas m => metas.insert m.order m) OrdMap.empty

/-- A zero page at the end of the buffer. -/
def zeroMeta (b : SerializedValueBatch) (key : Int) (lsn : Lsn) : ValueMeta :=
  .serialized
    { key := key
      lsn := lsn
      batchOffset := b.raw.length
      len := (Value.image ZERO_PAGE).ser.length
      willInit := true }

def zeroGap (lsn : Lsn) (state : SerializedValueBatch × OrderedMetas) (key : Int) :
    SerializedValueBatch × OrderedMetas :=
  let b := state.1
  let zero := b.zeroMeta key lsn
  ({ b with raw := b.raw ++ (Value.image ZERO_PAGE).ser, len := b.len + 1 },
    match state.2.get? zero.order with
    | some _ => state.2
    | none => state.2.insert zero.order zero)

def fillGap (state : SerializedValueBatch × OrderedMetas) (gap : List Int × Lsn) :
    SerializedValueBatch × OrderedMetas :=
  gap.1.foldl (zeroGap gap.2) ({ state.1 with maxLsn := max state.1.maxLsn gap.2 }, state.2)

/-- Add the zero pages of the gaps, which are given by the keys in them. -/
def zeroGaps (b : SerializedValueBatch) (gaps : List (List Int × Lsn)) : SerializedValueBatch :=
  let filled := gaps.foldl fillGap (b, orderedMetas b.metadata)
  { filled.1 with metadata := filled.2.entries.map Prod.snd }

/-- A value of the batch, or a zero page of a gap. -/
def FromBatch (metadata : List ValueMeta) (gaps : List (List Int × Lsn)) (m : ValueMeta) : Prop :=
  m ∈ metadata ∨
    exists gap, gap ∈ gaps ∧ exists key, key ∈ gap.1 ∧
      m.write? = some ⟨key, gap.2, true⟩

/-- What the ordered set has after some of the metadata and some of the gaps. -/
structure Collected (metadata : List ValueMeta) (gaps : List (List Int × Lsn))
    (metas : OrderedMetas) : Prop where
  order : forall k m, metas.get? k = some m -> m.order = k
  source : forall k m, metas.get? k = some m -> FromBatch metadata gaps m
  values : forall m, m ∈ metadata -> (metas.get? m.order).isSome
  zeros : forall gap, gap ∈ gaps -> forall key, key ∈ gap.1 ->
    (metas.get? (toLex (key, gap.2))).isSome

theorem collected_orderedMetas (metadata : List ValueMeta) :
    Collected metadata [] (orderedMetas metadata) := by
  unfold orderedMetas
  induction metadata using List.reverseRecOn with
  | nil => exact ⟨nofun, nofun, nofun, nofun⟩
  | append_singleton front m ih =>
    rw [foldl_append, foldl_cons, foldl_nil]
    refine ⟨?_, ?_, ?_, nofun⟩
    · intro k m' hget
      rcases OrdMap.get?_of_insert hget with ⟨rfl, rfl⟩ | hget
      · rfl
      · exact ih.order k m' hget
    · intro k m' hget
      rcases OrdMap.get?_of_insert hget with ⟨rfl, rfl⟩ | hget
      · exact .inl (by simp)
      · rcases ih.source k m' hget with hmem | ⟨gap, hgap, _⟩
        · exact .inl (mem_append_left _ hmem)
        · exact nomatch hgap
    · intro m' hmem
      rw [OrdMap.get?_insert]
      split
      · rfl
      · rcases mem_append.mp hmem with hfront | hlast
        · exact ih.values m' hfront
        · rw [mem_singleton] at hlast
          subst hlast
          contradiction

theorem zeroGap_metas (lsn : Lsn) (state : SerializedValueBatch × OrderedMetas) (key : Int) :
    exists zero : ValueMeta, zero.write? = some ⟨key, lsn, true⟩ ∧
      zero.order = toLex (key, lsn) ∧
      forall k, (zeroGap lsn state key).2.get? k =
        if k = zero.order ∧ state.2.get? zero.order = none then some zero
        else state.2.get? k := by
  refine ⟨state.1.zeroMeta key lsn, rfl, rfl, fun k => ?_⟩
  unfold zeroGap
  dsimp only
  split
  next m hsome => simp [hsome]
  next hnone =>
    rw [OrdMap.get?_insert]
    simp [hnone]

variable {metadata : List ValueMeta} {gaps : List (List Int × Lsn)} {lsn : Lsn}
  {state : SerializedValueBatch × OrderedMetas} {b : SerializedValueBatch}

theorem Collected.zeroGap {keys : List Int}
    (h : Collected metadata (gaps ++ [(keys, lsn)]) state.2) (key : Int) :
    Collected metadata (gaps ++ [(keys ++ [key], lsn)])
      (SerializedValueBatch.zeroGap lsn state key).2 := by
  rcases zeroGap_metas lsn state key with ⟨zero, hwrite, horder, hget⟩
  refine ⟨?_, ?_, ?_, ?_⟩
  · intro k m hm
    rw [hget] at hm
    split at hm
    next hk =>
      cases hm
      exact hk.1.symm
    · exact h.order k m hm
  · intro k m hm
    rw [hget] at hm
    split at hm
    · cases hm
      exact .inr ⟨(keys ++ [key], lsn), by simp, key, by simp, hwrite⟩
    · rcases h.source k m hm with hmem | ⟨gap, hgap, j, hj, hw⟩
      · exact .inl hmem
      · refine .inr ?_
        rcases mem_append.mp hgap with hold | hlast
        · exact ⟨gap, by simp [hold], j, hj, hw⟩
        · rw [mem_singleton] at hlast
          subst hlast
          exact ⟨(keys ++ [key], lsn), by simp, j, by simp [hj], hw⟩
  · intro m hm
    rw [hget]
    split
    · rfl
    · exact h.values m hm
  · intro gap hgap j hj
    rw [hget]
    split
    · rfl
    next hne =>
      rcases mem_append.mp hgap with hold | hlast
      · exact h.zeros gap (by simp [hold]) j hj
      · rw [mem_singleton] at hlast
        subst hlast
        rcases mem_append.mp hj with hkeys | hkey
        · exact h.zeros (keys, lsn) (by simp) j hkeys
        · rw [mem_singleton] at hkey
          subst hkey
          rw [horder] at hne
          exact Option.isSome_iff_ne_none.mpr (fun hnone => hne ⟨rfl, hnone⟩)

theorem Collected.foldl_zeroGap (rest : List Int) {done : List Int}
    (h : Collected metadata (gaps ++ [(done, lsn)]) state.2) :
    Collected metadata (gaps ++ [(done ++ rest, lsn)])
      (rest.foldl (SerializedValueBatch.zeroGap lsn) state).2 := by
  induction rest generalizing done state with
  | nil => rwa [append_nil]
  | cons key rest ih =>
    have hstep := ih (h.zeroGap key)
    rwa [append_assoc] at hstep

theorem Collected.addGap {metas : OrderedMetas} (h : Collected metadata gaps metas) (lsn : Lsn) :
    Collected metadata (gaps ++ [([], lsn)]) metas := by
  refine ⟨h.order, ?_, h.values, ?_⟩
  · intro k m hm
    rcases h.source k m hm with hmem | ⟨gap, hgap, hkey⟩
    · exact .inl hmem
    · exact .inr ⟨gap, by simp [hgap], hkey⟩
  · intro gap hgap key hkey
    rcases mem_append.mp hgap with hold | hlast
    · exact h.zeros gap hold key hkey
    · rw [mem_singleton] at hlast
      subst hlast
      exact nomatch hkey

theorem zeroGaps_collected (b : SerializedValueBatch) (gaps : List (List Int × Lsn)) :
    exists metas : OrderedMetas, Collected b.metadata gaps metas ∧
      (b.zeroGaps gaps).metadata = metas.entries.map Prod.snd := by
  refine ⟨_, ?_, rfl⟩
  induction gaps using List.reverseRecOn with
  | nil => exact collected_orderedMetas b.metadata
  | append_singleton front gap ih =>
    rw [foldl_append]
    generalize front.foldl fillGap (b, orderedMetas b.metadata) = state at ih ⊢
    have hadd : Collected b.metadata (front ++ [([], gap.2)])
        ({ state.1 with maxLsn := max state.1.maxLsn gap.2 }, state.2).2 :=
      ih.addGap gap.2
    exact hadd.foldl_zeroGap gap.1

theorem raw_foldl_zeroGap {keys : List Int} (h : (keys.foldl (zeroGap lsn) state).1.raw = []) :
    state.1.raw = [] ∧ keys = [] := by
  induction keys generalizing state with
  | nil => exact ⟨h, rfl⟩
  | cons key rest ih =>
    have hzero : state.1.raw ++ (Value.image ZERO_PAGE).ser = [] := (ih h).1
    exact absurd (append_eq_nil_iff.mp hzero).2 nofun

theorem hasData_zeroGaps (h : (b.zeroGaps gaps).hasData = false) :
    b.hasData = false ∧ forall gap, gap ∈ gaps -> gap.1 = [] := by
  have hraw : (b.zeroGaps gaps).raw = [] := by
    simpa [hasData] using h
  suffices hall : forall (gaps : List (List Int × Lsn))
      (state : SerializedValueBatch × OrderedMetas),
      (gaps.foldl fillGap state).1.raw = [] ->
      state.1.raw = [] ∧ forall gap, gap ∈ gaps -> gap.1 = [] by
    rcases hall gaps _ hraw with ⟨hb, hgaps⟩
    exact ⟨by simpa [hasData] using hb, hgaps⟩
  intro gaps
  induction gaps with
  | nil => exact fun state hempty => ⟨hempty, nofun⟩
  | cons gap rest ih =>
    intro state hempty
    rcases ih _ hempty with ⟨hfilled, hrest⟩
    rcases raw_foldl_zeroGap hfilled with ⟨hstate, hkeys⟩
    refine ⟨hstate, ?_⟩
    exact forall_mem_cons.mpr ⟨hkeys, hrest⟩

theorem mem_writes_zeroGaps {w : BlockWrite} (h : w ∈ (b.zeroGaps gaps).writes) :
    w ∈ b.writes ∨ exists gap, gap ∈ gaps ∧ exists key, key ∈ gap.1 ∧ w = ⟨key, gap.2, true⟩ := by
  rcases zeroGaps_collected b gaps with ⟨metas, hcollected, hmetadata⟩
  unfold writes at h
  rw [hmetadata] at h
  rcases mem_filterMap.mp h with ⟨m, hm, hw⟩
  rcases mem_map.mp hm with ⟨⟨k, m'⟩, hentry, rfl⟩
  rcases hcollected.source k m' (OrdMap.get?_eq_some_iff.mpr hentry) with
    hmem | ⟨gap, hgap, key, hkey, hwrite⟩
  · exact .inl (mem_filterMap.mpr ⟨m', hmem, hw⟩)
  · refine .inr ⟨gap, hgap, key, hkey, ?_⟩
    have hsame : some w = some ⟨key, gap.2, true⟩ := hw.symm.trans hwrite
    exact Option.some.inj hsame

theorem exists_write_zeroGaps {key : Int}
    (hobserved : forall m, m ∈ b.metadata -> m.key = key -> m.lsn = lsn ->
      m.write?.isSome) (hkey : (exists m, m ∈ b.metadata ∧ m.key = key ∧ m.lsn = lsn) ∨
      exists gap, gap ∈ gaps ∧ gap.2 = lsn ∧ key ∈ gap.1) :
    exists w, w ∈ (b.zeroGaps gaps).writes ∧ w.key = key ∧ w.lsn = lsn := by
  rcases zeroGaps_collected b gaps with ⟨metas, hcollected, hmetadata⟩
  have hsome : (metas.get? (toLex (key, lsn))).isSome := by
    rcases hkey with ⟨m, hm, rfl, rfl⟩ | ⟨gap, hgap, rfl, hkey⟩
    · exact hcollected.values m hm
    · exact hcollected.zeros gap hgap key hkey
  rcases Option.isSome_iff_exists.mp hsome with ⟨m, hm⟩
  have horder : (m.key, m.lsn) = (key, lsn) := hcollected.order _ m hm
  obtain ⟨rfl, rfl⟩ := Prod.mk.inj horder
  have hwrites : m.write?.isSome := by
    rcases hcollected.source _ m hm with hmem | ⟨gap, _, j, _, hwrite⟩
    · exact hobserved m hmem rfl rfl
    · rw [hwrite]
      rfl
  rcases Option.isSome_iff_exists.mp hwrites with ⟨w, hw⟩
  have hfields := ValueMeta.write?_eq_some hw
  refine ⟨w, ?_, hfields.1.symm, hfields.2.symm⟩
  unfold writes
  rw [hmetadata]
  exact mem_filterMap.mpr ⟨m, mem_map.mpr ⟨_, OrdMap.get?_eq_some_iff.mp hm, rfl⟩, hw⟩

end SerializedValueBatch

end WalDecoder
end OpenNeon

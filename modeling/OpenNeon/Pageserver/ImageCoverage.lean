import OpenNeon.Pageserver.RangeSearch

/-!
# Image coverage

Whether images cover a range of keys, and which images do.  Both questions walk the
changes of the image coverage at one LSN.
-/

namespace OpenNeon
namespace Pageserver

open Base List

namespace LayerMap

/-- The layer is an image at or above the LSN. -/
def layerCovers (lsnStart : Lsn) : Option PersistentLayerDesc -> Bool
  | some layer => decide (lsnStart ≤ layer.lsnRange.start)
  | none => false

/-- Image layers within the LSN range cover the whole key range. -/
def imageLayerExists (m : LayerMap) (key : Range Key) (lsn : Range Lsn) : Except Panic Bool :=
  if key.isEmpty then
    .ok true
  else do
    match <- m.versionBelow lsn.stop with
    | none => return false
    | some version =>
      let start <- key.start.toI128
      let stop <- key.stop.toI128
      if !layerCovers lsn.start (version.imageCoverage.query start) then
        return false
      return (version.imageCoverage.range ⟨start, stop⟩).all
        (fun change => layerCovers lsn.start change.2)

/-- The loop of `imageCoverage` over the changes, and the final interval. -/
def pushIntervals (stop : Int) : Int -> Option PersistentLayerDesc -> List Change ->
    List (Range Key × Option PersistentLayerDesc)
  | currentKey, currentVal, [] =>
    [(⟨Key.fromI128 currentKey, Key.fromI128 stop⟩, currentVal)]
  | currentKey, currentVal, (changeKey, changeVal) :: rest =>
    (⟨Key.fromI128 currentKey, Key.fromI128 changeKey⟩, currentVal) ::
      pushIntervals stop changeKey changeVal rest

/-- The range in sub-ranges, each with its latest image at the LSN. -/
def imageCoverage (m : LayerMap) (keyRange : Range Key) (lsn : Lsn) :
    Except Panic (List (Range Key × Option PersistentLayerDesc)) := do
  match (<- m.historic.get).getVersion lsn with
  | none => return []
  | some version =>
    let start <- keyRange.start.toI128
    let stop <- keyRange.stop.toI128
    return pushIntervals stop start (version.imageCoverage.query start)
      (version.imageCoverage.range ⟨start, stop⟩)

end LayerMap

/-!
## Keys between boundaries

A key that does not fit lies between boundaries as a key that fits does.
-/

namespace Key

/-- A fitting key that lies between the same fitting keys. -/
def representative (k : Key) : Key :=
  if k.Fits then k
  else ⟨k.field1, 0xFFFF, 0xFFFFFFFF, 0xFFFFFFFF, 0xFF, 0xFFFFFFFF⟩

variable {k : Key}

theorem representative_of_fits (hk : k.Fits) : k.representative = k :=
  if_pos hk

theorem representative_lt_iff {b : Key} (hb : b.Fits) (hk : k.field1.toNat ≤ 0x7F) :
    k.representative < b <-> k < b := by
  unfold representative
  split
  · rfl
  next hnot =>
    have hlarge : 0xFFFF < k.field2.toNat := by
      by_contra hle
      exact hnot ⟨hk, not_lt.mp hle⟩
    have hsmall := hb.2
    have b3 := b.field3.toNat_lt
    have b4 := b.field4.toNat_lt
    have b5 := b.field5.toNat_lt
    have b6 := b.field6.toNat_lt
    rw [lt_iff, lt_iff]
    simp only [UInt32.reduceToNat, UInt8.reduceToNat]
    omega

theorem representative_fits (hk : k.field1.toNat ≤ 0x7F) : k.representative.Fits := by
  unfold representative
  split
  · assumption
  · exact ⟨hk, le_refl _⟩

/-- Such a key has a searchable representative in the same ranges with fitting ends. -/
theorem searchable_representative {r : Range Key} (hstop : r.stop.Fits) (hmem : k ∈ r) :
    k.representative.Searchable ∧
      forall q : Range Key, q.start.Fits -> q.stop.Fits ->
        (k.representative ∈ q <-> k ∈ q) := by
  have hfield : k.field1.toNat ≤ 0x7F := by
    have hlt := lt_iff.mp hmem.2
    have hle := hstop.1
    omega
  refine ⟨⟨representative_fits hfield, ?_⟩, ?_⟩
  · have hlt := (representative_lt_iff hstop hfield).mpr hmem.2
    exact ne_of_lt (lt_of_lt_of_le hlt (le_LAST_FIT hstop))
  · intro q hqstart hqstop
    rw [Range.mem_def, Range.mem_def, representative_lt_iff hqstop hfield, ← not_lt,
      representative_lt_iff hqstart hfield, not_lt]

end Key

namespace LayerMap

variable {m : LayerMap} {layers : List PersistentLayerDesc} {keyRange : Range Key}
  {lsn : Range Lsn} {lsnStart endLsn : Lsn} {key : Key}
  {version : LayerCoverageTuple PersistentLayerDesc}

/-- The image layers end at keys that the packed index tells apart. -/
def FittingImages (layers : List PersistentLayerDesc) : Prop :=
  forall d, d ∈ layers -> d.isDelta = false -> d.keyRange.start.Fits ∧ d.keyRange.stop.Fits

theorem FittingLayers.images (h : FittingLayers layers) : FittingImages layers :=
  fun d hd _ => h d hd

theorem latestBelow_image (hreach : m.Reachable) (hlayers : m.iterHistoricLayers = .ok layers)
    (hpacked : PackedLayers layers) (himages : FittingImages layers) (hend : 0 < endLsn)
    (hstop : keyRange.stop.Fits) (hkey : key ∈ keyRange) :
    LatestBelow layers false key endLsn
      (m.latest true (key.representative.packI128 : Int) endLsn) := by
  obtain ⟨hsearch, hsame⟩ := Key.searchable_representative hstop hkey
  have hlatest : LatestBelow layers false key.representative endLsn
      (m.latest true (key.representative.packI128 : Int) endLsn) :=
    latestBelow_latest hreach hlayers hpacked hsearch hend false
  have hin : forall d, d ∈ layers -> d.isDelta = false ->
      (key.representative ∈ d.keyRange <-> key ∈ d.keyRange) := fun d hd himage =>
    hsame d.keyRange (himages d hd himage).1 (himages d hd himage).2
  constructor
  · intro d hd
    obtain ⟨hmem, himage, hrange, hlt⟩ := hlatest.found d hd
    exact ⟨hmem, himage, (hin d hmem himage).mp hrange, hlt⟩
  · intro d hd d' hd' himage hrange hlt
    exact hlatest.latest d hd d' hd' himage ((hin d' hd' himage).mpr hrange) hlt
  · intro hnone d hd himage hrange
    exact hlatest.missing hnone d hd himage ((hin d hd himage).mpr hrange)

/-!
## A covered range
-/

def HasImage (layers : List PersistentLayerDesc) (lsn : Range Lsn) (key : Key) : Prop :=
  exists image, image ∈ layers ∧ image.isDelta = false ∧ key ∈ image.keyRange ∧
    image.lsnRange.start ∈ lsn

theorem layerCovers_iff_hasImage {result : Option PersistentLayerDesc}
    (h : LatestBelow layers false key lsn.stop result) :
    layerCovers lsn.start result = true <-> HasImage layers lsn key := by
  constructor
  · intro hcovers
    cases result with
    | none => cases hcovers
    | some d =>
      obtain ⟨hmem, himage, hrange, hlt⟩ := h.found d rfl
      exact ⟨d, hmem, himage, hrange, of_decide_eq_true hcovers, hlt⟩
  · rintro ⟨image, hmem, himage, hrange, hlsn⟩
    cases result with
    | none => exact absurd hlsn.2 (h.missing rfl image hmem himage hrange)
    | some d =>
      have hle := h.latest d rfl image hmem himage hrange hlsn.2
      rw [image.image_lsnRange himage, d.image_lsnRange (h.found d rfl).2.1] at hle
      exact decide_eq_true (hlsn.1.trans (Nat.le_of_succ_le_succ hle))

/-- A check of the first value and of every change is a check of every value. -/
theorem layerCovers_valueAt {first : Option PersistentLayerDesc} {changes : List Change}
    (hfirst : layerCovers lsnStart first = true)
    (hchanges : changes.all (fun change => layerCovers lsnStart change.2) = true) (x : Int) :
    layerCovers lsnStart (LayerCoverage.valueAt first changes x) = true := by
  induction changes generalizing first with
  | nil => exact hfirst
  | cons change rest ih =>
    rw [all_cons, Bool.and_eq_true] at hchanges
    unfold LayerCoverage.valueAt
    split
    · exact ih hchanges.1 hchanges.2
    · exact hfirst

theorem latest_eq_query (endLsn : Lsn)
    (hversion : m.historic.historicCoverage.getVersion (endLsn - 1) =
      some version) (x : Int) : m.latest true x endLsn = version.imageCoverage.query x := by
  simp [latest, hversion, LayerCoverageTuple.coverage]

theorem pos_of_imageLayerExists {exist : Bool} (hkey : key ∈ keyRange)
    (h : m.imageLayerExists keyRange lsn = .ok exist) : 0 < lsn.stop := by
  by_contra hzero
  unfold imageLayerExists at h
  rw [Range.isEmpty_eq_false_iff.mpr (hkey.1.trans_lt hkey.2)] at h
  obtain ⟨version?, hversion, _⟩ := bind_eq_ok_iff.mp h
  obtain ⟨_, _, hversion⟩ := bind_eq_ok_iff.mp hversion
  rw [if_pos (Nat.eq_zero_of_not_pos hzero)] at hversion
  cases hversion

/-- The layers may also end at the largest key here, which the index does not tell apart from
the last key that fits. -/
theorem hasImage_of_imageLayerExists (hreach : m.Reachable)
    (hlayers : m.iterHistoricLayers = .ok layers) (hpacked : PackedLayers layers)
    (hstart : keyRange.start.Boundary) (hstop : keyRange.stop.Boundary)
    (hsearch : key.Searchable) (hkey : key ∈ keyRange)
    (h : m.imageLayerExists keyRange lsn = .ok true) : HasImage layers lsn key := by
  have hend := pos_of_imageLayerExists hkey h
  have hlatest := latestBelow_latest hreach hlayers hpacked hsearch hend false
  refine (layerCovers_iff_hasImage hlatest).mp ?_
  have hinside := (Key.mem_range_iff_packed hsearch hstart hstop).mpr hkey
  unfold imageLayerExists at h
  rw [Range.isEmpty_eq_false_iff.mpr (hkey.1.trans_lt hkey.2), versionBelow_eq hlayers hend] at h
  cases hversion : m.historic.historicCoverage.getVersion (lsn.stop - 1) with
  | none =>
    rw [hversion] at h
    cases h
  | some version =>
    simp only [hversion, hstart.toI128_eq, hstop.toI128_eq, bind, Except.bind] at h
    cases hfirst : layerCovers lsn.start
        (version.imageCoverage.query (keyRange.start.packI128 : Int)) with
    | false =>
      rw [hfirst] at h
      cases h
    | true =>
      rw [hfirst] at h
      show layerCovers lsn.start (m.latest true (key.packI128 : Int) lsn.stop) = true
      rw [latest_eq_query _ hversion, LayerCoverage.query_eq_valueAt_range _ hinside]
      exact layerCovers_valueAt hfirst (Except.ok.inj h) _

section

variable (hreach : m.Reachable) (hlayers : m.iterHistoricLayers = .ok layers)
  (hstart : keyRange.start.Fits) (hstop : keyRange.stop.Fits)

include hreach hlayers hstart hstop

theorem covers_iff (lsnStart : Lsn) (hpacked : PackedLayers layers)
    (hne : keyRange.start < keyRange.stop)
    (hversion : m.historic.historicCoverage.getVersion (endLsn - 1) = some version) :
    (layerCovers lsnStart (version.imageCoverage.query (keyRange.start.packI128 : Int)) &&
      (version.imageCoverage.range
        ⟨(keyRange.start.packI128 : Int), (keyRange.stop.packI128 : Int)⟩).all
        (fun change => layerCovers lsnStart change.2)) = true <->
      forall k, k.Fits -> k ∈ keyRange ->
        layerCovers lsnStart (m.latest true (k.packI128 : Int) endLsn) = true := by
  rw [Bool.and_eq_true, all_eq_true]
  constructor
  · rintro ⟨hfirst, hchanges⟩ k hk hmem
    rw [latest_eq_query _ hversion, LayerCoverage.query_eq_valueAt_range version.imageCoverage
      ((Key.packed_mem_iff hk hstart hstop).mpr hmem)]
    exact layerCovers_valueAt hfirst (all_eq_true.mpr hchanges) _
  · intro hall
    refine ⟨latest_eq_query _ hversion _ ▸ hall _ hstart ⟨le_refl _, hne⟩, ?_⟩
    rintro ⟨x, v⟩ he
    obtain ⟨hinside, node, hget, _⟩ := LayerCoverage.mem_range_iff.mp he
    obtain ⟨k, hk, rfl⟩ := nodesAt_getVersion hreach.inv hlayers hpacked hversion true _ _ hget
    have hcovers := hall k hk ((Key.packed_mem_iff hk hstart hstop).mp hinside)
    rwa [latest_eq_query _ hversion, LayerCoverage.query_eq_valueAt_range _ hinside,
      LayerCoverage.valueAt_last _ (LayerCoverage.sorted_range _ _) he (le_refl _)
        (fun _ _ hlt => hlt)] at hcovers

theorem imageLayerExists_iff (hpacked : PackedLayers layers) (himages : FittingImages layers)
    (hend : 0 < lsn.stop) : exists exist, m.imageLayerExists keyRange lsn = .ok exist ∧
      (exist = true <-> forall k, k ∈ keyRange -> HasImage layers lsn k) := by
  have hcovers : forall k, k ∈ keyRange ->
      (layerCovers lsn.start (m.latest true (k.representative.packI128 : Int) lsn.stop) = true <->
        HasImage layers lsn k) := fun k hk => layerCovers_iff_hasImage
    (latestBelow_image hreach hlayers hpacked himages hend hstop hk)
  unfold imageLayerExists
  by_cases hne : keyRange.start < keyRange.stop
  · rw [Range.isEmpty_eq_false_iff.mpr hne, versionBelow_eq hlayers hend]
    cases hversion : m.historic.historicCoverage.getVersion (lsn.stop - 1) with
    | none =>
      refine ⟨false, rfl, iff_of_false Bool.false_ne_true (fun hall => ?_)⟩
      have hfirst := (hcovers _ ⟨le_refl _, hne⟩).mpr (hall _ ⟨le_refl _, hne⟩)
      simp [latest, hversion, layerCovers] at hfirst
    | some version =>
      refine ⟨_, ?_, (covers_iff hreach hlayers hstart hstop lsn.start hpacked hne hversion).trans
        ⟨fun hall k hk => ?_, fun hall k hfits hk => ?_⟩⟩
      · simp only [hstart.toI128_eq, hstop.toI128_eq, bind, Except.bind]
        cases layerCovers lsn.start
          (version.imageCoverage.query (keyRange.start.packI128 : Int)) <;> rfl
      · obtain ⟨hsearch, hsame⟩ := Key.searchable_representative hstop hk
        exact (hcovers k hk).mp (hall _ hsearch.1 ((hsame keyRange hstart hstop).mpr hk))
      · exact Key.representative_of_fits hfits ▸ (hcovers k hk).mpr (hall k hk)
  · refine ⟨true, by simp [Range.isEmpty, hne], iff_of_true rfl (fun k hk => ?_)⟩
    exact absurd (hk.1.trans_lt hk.2) hne

end

/-!
## The sub-ranges of a range
-/

/-- The sub-ranges follow each other from one key to another. -/
inductive Tiles (stop : Key) : Key -> List (Range Key × Option PersistentLayerDesc) -> Prop where
  | last (start : Key) (value : Option PersistentLayerDesc) :
      Tiles stop start [(⟨start, stop⟩, value)]
  | cons {start next : Key} {rest : List (Range Key × Option PersistentLayerDesc)}
      (value : Option PersistentLayerDesc) (hnext : start ≤ next) (hstop : next ≤ stop)
      (hrest : Tiles stop next rest) : Tiles stop start ((⟨start, next⟩, value) :: rest)

theorem pushIntervals_spec {f : Int -> Option PersistentLayerDesc} {start stop : Key}
    {value : Option PersistentLayerDesc} {l : List Change} (hstart : start.Fits)
    (hstop : stop.Fits) (hfits : forall e, e ∈ l ->
      exists k : Key, k.Fits ∧ e.1 = (k.packI128 : Int))
    (h : LayerCoverage.ChangesOf f ⟨(start.packI128 : Int), (stop.packI128 : Int)⟩ value l) :
    Tiles stop start (pushIntervals (stop.packI128 : Int) (start.packI128 : Int) value l) ∧
      forall e, e ∈ pushIntervals (stop.packI128 : Int) (start.packI128 : Int) value l ->
        e.1.start.Fits ∧ e.1.stop.Fits ∧ forall k, k.Fits -> k ∈ e.1 ->
          f (k.packI128 : Int) = e.2 := by
  induction l generalizing start value with
  | nil =>
    simp only [pushIntervals, Key.fromI128_packI128 hstart, Key.fromI128_packI128 hstop]
    exact ⟨.last start value, forall_mem_singleton.mpr ⟨hstart, hstop, fun k hk hmem =>
      h.eq_value ((Key.packed_mem_iff hk hstart hstop).mpr hmem) nofun⟩⟩
  | cons change rest ih =>
    obtain ⟨x, v⟩ := change
    obtain ⟨next, hnext, rfl⟩ : exists k : Key, k.Fits ∧ x = (k.packI128 : Int) :=
      hfits _ mem_cons_self
    have hinside := (Key.packed_mem_iff hnext hstart hstop).mp (h.inside _ mem_cons_self)
    obtain ⟨hpop, hafter⟩ := h.pop
    have hrest := ih hnext (fun e he => hfits e (mem_cons_of_mem _ he)) hpop
    simp only [pushIntervals, Key.fromI128_packI128 hstart, Key.fromI128_packI128 hnext]
    refine ⟨.cons value hinside.1 hinside.2.le hrest.1,
      forall_mem_cons.mpr ⟨⟨hstart, hnext, fun k hk hmem => ?_⟩, hrest.2⟩⟩
    have hlt := ((Key.packed_mem_iff hk hstart hnext).mpr hmem).2
    exact h.eq_value ((Key.packed_mem_iff hk hstart hstop).mpr ⟨hmem.1, hmem.2.trans hinside.2⟩)
      (forall_mem_cons.mpr ⟨hlt, fun e he => hlt.trans (hafter e he)⟩)

theorem stops_pushIntervals (stop currentKey : Int) (currentVal : Option PersistentLayerDesc)
    (l : List Change) : (pushIntervals stop currentKey currentVal l).map (fun e => e.1.stop) =
      (l.map Prod.fst ++ [stop]).map Key.fromI128 := by
  induction l generalizing currentKey currentVal with
  | nil => rfl
  | cons change rest ih => simp [pushIntervals, ih]

theorem pairwise_pushIntervals {f : Int -> Option PersistentLayerDesc} {start : Int} {stop : Key}
    {value : Option PersistentLayerDesc} {l : List Change} (hstop : stop.Fits)
    (hfits : forall e, e ∈ l -> exists k : Key, k.Fits ∧ e.1 = (k.packI128 : Int))
    (h : LayerCoverage.ChangesOf f ⟨start, (stop.packI128 : Int)⟩ value l) :
    ((pushIntervals (stop.packI128 : Int) start value l).map (fun e => e.1.stop)).Pairwise
      (· < ·) := by
  have hsorted : (l.map Prod.fst ++ [(stop.packI128 : Int)]).Pairwise (· < ·) :=
    pairwise_concat (pairwise_map.mpr h.sorted) (forall_mem_map.mpr (fun e he => (h.inside e he).2))
  have hkeys : forall x, x ∈ l.map Prod.fst ++ [(stop.packI128 : Int)] ->
      exists k : Key, k.Fits ∧ x = (k.packI128 : Int) :=
    forall_mem_concat (forall_mem_map.mpr hfits) ⟨stop, hstop, rfl⟩
  rw [stops_pushIntervals, pairwise_map]
  refine hsorted.imp_of_mem (fun hx hy hlt => ?_)
  obtain ⟨k, hk, rfl⟩ := hkeys _ hx
  obtain ⟨k', hk', rfl⟩ := hkeys _ hy
  rw [Key.fromI128_packI128 hk, Key.fromI128_packI128 hk']
  exact (Key.packI128_lt_iff hk hk').mp (Int.ofNat_lt.mp hlt)

theorem lt_start_of_getVersion {d : PersistentLayerDesc} {x : Lsn} (hinv : Inv m)
    (hlayers : m.iterHistoricLayers = .ok layers)
    (h : m.historic.historicCoverage.getVersion x = none) (hd : d ∈ layers) :
    x < d.lsnRange.start := by
  obtain ⟨hempty, hmem⟩ := iterHistoricLayers_mem hlayers
  obtain ⟨lk, hget⟩ := (hmem d).mp hd
  have hcur := BufferedHistoricLayerCoverage.current_of_buffer_empty hempty lk
  have hlsn := (ofDesc_lsn (hinv.keyed lk d (hcur.trans hget))).1
  rw [hinv.historic.built, HistoricLayerCoverage.getVersion_build
    (BufferedHistoricLayerCoverage.startOrder_entries m.historic.layers)] at h
  split_ifs at h with hnil
  have hnot := filter_eq_nil_iff.mp hnil (lk, d) (OrdMap.get?_eq_some_iff.mp hget)
  simpa [hlsn] using hnot

theorem imageCoverage_spec (hreach : m.Reachable) (hlayers : m.iterHistoricLayers = .ok layers)
    (hpacked : PackedLayers layers) (himages : FittingImages layers)
    (hstart : keyRange.start.Fits) (hstop : keyRange.stop.Fits) (x : Lsn) :
    exists coverage, m.imageCoverage keyRange x = .ok coverage ∧
      (Tiles keyRange.stop keyRange.start coverage ∨
        coverage = [] ∧ forall d, d ∈ layers -> x < d.lsnRange.start) ∧
      (coverage.map (fun e => e.1.stop)).Pairwise (· < ·) ∧
      forall e, e ∈ coverage -> forall k, k ∈ e.1 -> LatestBelow layers false k (x + 1) e.2 := by
  unfold imageCoverage
  rw [historic_get hlayers]
  cases hversion : m.historic.historicCoverage.getVersion x with
  | none =>
    refine ⟨[], by simp [bind, Except.bind, hversion, pure, Except.pure], .inr ⟨rfl, ?_⟩,
      List.Pairwise.nil, nofun⟩
    exact fun d hd => lt_start_of_getVersion hreach.inv hlayers hversion hd
  | some version =>
    let r : Range Int := ⟨(keyRange.start.packI128 : Int), (keyRange.stop.packI128 : Int)⟩
    have hchanges : LayerCoverage.ChangesOf version.imageCoverage.query r
        (version.imageCoverage.query r.start) (version.imageCoverage.range r) :=
      ⟨LayerCoverage.sorted_range _ _, fun e he => (LayerCoverage.mem_range_iff.mp he).1,
        fun _ hx => LayerCoverage.query_eq_valueAt_range _ hx⟩
    have hkeys : forall e, e ∈ version.imageCoverage.range r ->
        exists k : Key, k.Fits ∧ e.1 = (k.packI128 : Int) := by
      intro e he
      obtain ⟨_, node, hnode, _⟩ := (LayerCoverage.mem_range_iff (k := e.1) (v := e.2)).mp he
      exact nodesAt_getVersion hreach.inv hlayers hpacked hversion true _ _ hnode
    have hspec := pushIntervals_spec hstart hstop hkeys hchanges
    refine ⟨_, by simp only [bind, Except.bind, hversion, hstart.toI128_eq, hstop.toI128_eq]; rfl,
      .inl hspec.1, pairwise_pushIntervals hstop hkeys hchanges, fun e he k hk => ?_⟩
    obtain ⟨hestart, hestop, hvalue⟩ := hspec.2 e he
    obtain ⟨hsearch, hsame⟩ := Key.searchable_representative hestop hk
    rw [← hvalue _ hsearch.1 ((hsame e.1 hestart hestop).mpr hk),
      ← latest_eq_query (x + 1) hversion]
    exact latestBelow_image hreach hlayers hpacked himages (Nat.succ_pos x) hestop hk

/-- The value of a sub-range is an image of all its keys with the greatest LSN at or below
the given one, or none exactly if no such image has any of them. -/
structure Newest (layers : List PersistentLayerDesc) (lsn : Lsn)
    (e : Range Key × Option PersistentLayerDesc) : Prop where
  image : forall d, e.2 = some d -> d ∈ layers ∧ d.isDelta = false ∧ d.lsnRange.start ≤ lsn ∧
    forall k, k ∈ e.1 -> k ∈ d.keyRange ∧ forall d', d' ∈ layers -> d'.isDelta = false ->
      d'.lsnRange.start ≤ lsn -> k ∈ d'.keyRange -> d'.lsnRange.start ≤ d.lsnRange.start
  missing : e.2 = none <-> forall d, d ∈ layers -> d.isDelta = false -> d.lsnRange.start ≤ lsn ->
    forall k, k ∈ e.1 -> k ∉ d.keyRange

theorem newest_of_latestBelow {x : Lsn} {e : Range Key × Option PersistentLayerDesc}
    (hne : e.1.start < e.1.stop)
    (h : forall k, k ∈ e.1 -> LatestBelow layers false k (x + 1) e.2) : Newest layers x e := by
  have hfirst := h e.1.start ⟨le_refl _, hne⟩
  constructor
  · intro d hd
    obtain ⟨hmem, himage, _, hlt⟩ := hfirst.found d hd
    refine ⟨hmem, himage, Nat.le_of_lt_succ hlt, fun k hk => ⟨((h k hk).found d hd).2.2.1, ?_⟩⟩
    intro d' hd' himage' hle hrange
    have hstop := (h k hk).latest d hd d' hd' himage' hrange (Nat.lt_succ_of_le hle)
    rw [d.image_lsnRange himage, d'.image_lsnRange himage'] at hstop
    exact Nat.le_of_succ_le_succ hstop
  · constructor
    · intro hnone d hd himage hle k hk hrange
      exact (h k hk).missing hnone d hd himage hrange (Nat.lt_succ_of_le hle)
    · intro hall
      cases hvalue : e.2 with
      | none => rfl
      | some d =>
        obtain ⟨hmem, himage, hrange, hlt⟩ := hfirst.found d hvalue
        exact absurd hrange (hall d hmem himage (Nat.le_of_lt_succ hlt) _ ⟨le_refl _, hne⟩)

/-- Image queries are exact, and the sub-ranges tile the range, each with its newest image. -/
theorem image_queries_exact {m : LayerMap} (hreach : m.Reachable)
    {layers : List PersistentLayerDesc} (hlayers : m.iterHistoricLayers = .ok layers)
    (hfits : FittingLayers layers) {keyRange : Range Key} (hstart : keyRange.start.Fits)
    (hstop : keyRange.stop.Fits) :
    (forall lsn : Range Lsn, 0 < lsn.stop -> exists exist,
      m.imageLayerExists keyRange lsn = .ok exist ∧
        (exist = true <-> forall k, k ∈ keyRange -> HasImage layers lsn k)) ∧
      forall lsn, (exists d, d ∈ layers ∧ d.lsnRange.start ≤ lsn) -> exists coverage,
        m.imageCoverage keyRange lsn = .ok coverage ∧
          Tiles keyRange.stop keyRange.start coverage ∧
          forall e, e ∈ coverage -> e.1.start < e.1.stop -> Newest layers lsn e := by
  refine ⟨fun lsn hend =>
    imageLayerExists_iff hreach hlayers hstart hstop hfits.packed hfits.images hend, ?_⟩
  rintro lsn ⟨d, hd, hle⟩
  obtain ⟨coverage, hok, htiles, _, hlatest⟩ :=
    imageCoverage_spec hreach hlayers hfits.packed hfits.images hstart hstop lsn
  refine ⟨coverage, hok, ?_, fun e he hne => newest_of_latestBelow hne (hlatest e he)⟩
  rcases htiles with htiles | ⟨_, hall⟩
  · exact htiles
  · exact absurd hle (not_le.mpr (hall d hd))

/-- A range that starts where an image starts has an empty first sub-range with the image. -/
theorem empty_subrange_has_image :
    stackedMap.Reachable ∧ stackedMap.iterHistoricLayers = .ok [sampleDelta, sampleImage] ∧
      FittingLayers [sampleDelta, sampleImage] ∧
      stackedMap.imageCoverage ⟨sampleKey 0, sampleKey 12⟩ 50 =
        .ok [(⟨sampleKey 0, sampleKey 0⟩, some sampleImage),
          (⟨sampleKey 0, sampleKey 10⟩, some sampleImage),
          (⟨sampleKey 10, sampleKey 12⟩, none)] ∧
      forall k, k ∉ (⟨sampleKey 0, sampleKey 0⟩ : Range Key) :=
  ⟨⟨stackedOps, rfl⟩, rfl, by decide, rfl, fun _ hk => absurd (hk.1.trans_lt hk.2) (lt_irrefl _)⟩

theorem image_queries_exact_stackedMap :
    (exists exist, stackedMap.imageLayerExists ⟨sampleKey 2, sampleKey 12⟩ ⟨0, 50⟩ = .ok exist ∧
      (exist = true <-> forall k, k ∈ (⟨sampleKey 2, sampleKey 12⟩ : Range Key) ->
        HasImage [sampleDelta, sampleImage] ⟨0, 50⟩ k)) ∧
    exists coverage, stackedMap.imageCoverage ⟨sampleKey 2, sampleKey 12⟩ 50 = .ok coverage ∧
      Tiles (sampleKey 12) (sampleKey 2) coverage ∧
      forall e, e ∈ coverage -> e.1.start < e.1.stop ->
        Newest [sampleDelta, sampleImage] 50 e := by
  constructor
  · exact (image_queries_exact ⟨stackedOps, rfl⟩ rfl (by decide) (by decide) (by decide)).1
      ⟨0, 50⟩ (by decide)
  · exact (image_queries_exact ⟨stackedOps, rfl⟩ rfl (by decide) (by decide) (by decide)).2 50
      ⟨sampleDelta, mem_cons_self, by decide⟩

end LayerMap

end Pageserver
end OpenNeon

import OpenNeon.Pageserver.LayerMap

/-!
# The descent of a read

A read of a key below an LSN searches for a layer, reads it down to the returned
floor, and goes on below the floor until it meets an image or finds no layer.
This module shows that the descent makes progress at every step and meets every
record it must.
-/

namespace OpenNeon
namespace Pageserver

open Base BufferedHistoricLayerCoverage ReadableLayerWeak

def ReadableLayerWeak.getLsnRange : ReadableLayerWeak -> Range Lsn
  | .persistentLayer desc => desc.lsnRange
  | .inMemoryLayer desc => desc.lsnRange

def ReadableLayerWeak.isImage : ReadableLayerWeak -> Bool
  | .persistentLayer desc => !desc.isDelta
  | .inMemoryLayer _ => false

namespace LayerMap

/-!
## The latest persistent layers

The two coverage queries of a search give the layer with the largest end LSN
among the deltas, and among the images, that contain the key and start below the
LSN.
-/

/-- A latest layer of one kind among those that a read below an LSN may use. -/
structure LatestBelow (layers : List PersistentLayerDesc) (isDelta : Bool)
    (key : Key) (endLsn : Lsn) (result : Option PersistentLayerDesc) :
    Prop where
  found : forall d, result = some d ->
    d ∈ layers ∧ d.isDelta = isDelta ∧ key ∈ d.keyRange ∧ d.lsnRange.start < endLsn
  latest : forall d, result = some d ->
    forall d', d' ∈ layers -> d'.isDelta = isDelta -> key ∈ d'.keyRange ->
      d'.lsnRange.start < endLsn -> d'.lsnRange.stop ≤ d.lsnRange.stop
  missing : result = none ->
    forall d, d ∈ layers -> d.isDelta = isDelta -> key ∈ d.keyRange ->
      Not (d.lsnRange.start < endLsn)

def PackedLayers (layers : List PersistentLayerDesc) : Prop :=
  forall d, d ∈ layers ->
    d.keyRange.start.Boundary ∧ d.keyRange.stop.Boundary

variable {m : LayerMap} {layers : List PersistentLayerDesc} {key : Key} {endLsn : Lsn}

theorem iterHistoricLayers_mem (h : m.iterHistoricLayers = .ok layers) :
    m.historic.buffer.entries = [] ∧
      forall d, d ∈ layers <->
        exists lk, m.historic.layers.get? lk = some d := by
  unfold iterHistoricLayers iter at h
  split_ifs at h with hempty
  cases h
  refine ⟨List.isEmpty_iff.mp hempty, ?_⟩
  intro d
  simp [OrdMap.get?_eq_some_iff]

variable {d : PersistentLayerDesc}

theorem ofDesc_key {lk : LayerKey} (hstart : d.keyRange.start.Boundary)
    (hstop : d.keyRange.stop.Boundary) (h : LayerKey.ofDesc d = .ok lk) :
    lk.key = ⟨(d.keyRange.start.packI128 : Int), (d.keyRange.stop.packI128 : Int)⟩ := by
  unfold LayerKey.ofDesc at h
  rw [hstart.toI128_eq, hstop.toI128_eq] at h
  cases h
  rfl

def latest (m : LayerMap) (isImage : Bool) (rawKey : Int) (endLsn : Lsn) :
    Option PersistentLayerDesc :=
  (m.historic.historicCoverage.getVersion (endLsn - 1)).bind
    (fun t => (t.coverage isImage).query rawKey)

theorem latestBelow_latest (hreach : m.Reachable) (hlayers : m.iterHistoricLayers = .ok layers)
    (hpacked : PackedLayers layers) (hkey : key.Searchable) (hend : 0 < endLsn)
    (isDelta : Bool) :
    LatestBelow layers isDelta key endLsn (m.latest (!isDelta) (key.packI128 : Int) endLsn) := by
  have hinv := hreach.inv
  rcases iterHistoricLayers_mem hlayers with ⟨hempty, hmem⟩
  have hcur := current_of_buffer_empty hempty
  have hspec := HistoricLayerCoverage.isLatest_build (startOrder_entries m.historic.layers)
    (fun lk v => (OrdMap.get?_eq_some_iff : m.historic.layers.get? lk = _ <-> _))
    (!isDelta) (key.packI128 : Int) (endLsn - 1)
  rw [← hinv.historic.built] at hspec
  -- the candidates of the index are the usable layers of the map
  have hcand : forall lk d, m.historic.layers.get? lk = some d ->
      (lk.Candidate (!isDelta) (key.packI128 : Int) (endLsn - 1) <->
        d.isDelta = isDelta ∧ key ∈ d.keyRange ∧
          d.lsnRange.start < endLsn) ∧ lk.lsn = d.lsnRange := by
    intro lk d hlk
    have hdesc := hinv.keyed lk d ((hcur lk).trans hlk)
    rcases hpacked d ((hmem d).mpr ⟨lk, hlk⟩) with ⟨hstart, hstop⟩
    rcases ofDesc_lsn hdesc with ⟨hlsn, hkind⟩
    refine ⟨?_, hlsn⟩
    unfold LayerKey.Candidate
    rw [hkind, ofDesc_key hstart hstop hdesc, hlsn, Key.mem_range_iff_packed hkey hstart hstop]
    have hle : d.lsnRange.start ≤ endLsn - 1 <-> d.lsnRange.start < endLsn := by
      lia
    rw [hle]
    simp
  constructor
  · intro d hd
    rcases hspec.found d hd with ⟨lk, hlk, hc, _⟩
    exact ⟨(hmem d).mpr ⟨lk, hlk⟩, (hcand lk d hlk).1.mp hc⟩
  · intro d hd d' hd' hkind hkey' hstart
    rcases hspec.found d hd with ⟨lk, hlk, _, hmax⟩
    rcases (hmem d').mp hd' with ⟨lk', hlk'⟩
    have hle := hmax lk' d' hlk' ((hcand lk' d' hlk').1.mpr ⟨hkind, hkey', hstart⟩)
    rwa [(hcand lk d hlk).2, (hcand lk' d' hlk').2] at hle
  · intro hnone d hd hkind hkey' hstart
    rcases (hmem d).mp hd with ⟨lk, hlk⟩
    exact hspec.missing.mp hnone lk d hlk ((hcand lk d hlk).1.mpr ⟨hkind, hkey', hstart⟩)

theorem latest_kind (hinv : Inv m) (hempty : m.historic.buffer.entries = []) {isImage : Bool}
    {rawKey : Int} (h : m.latest isImage rawKey endLsn = some d) :
    d.isDelta = !isImage := by
  have hspec := HistoricLayerCoverage.isLatest_build (startOrder_entries m.historic.layers)
    (fun lk v => (OrdMap.get?_eq_some_iff : m.historic.layers.get? lk = _ <-> _)) isImage rawKey
    (endLsn - 1)
  rw [← hinv.historic.built] at hspec
  rcases hspec.found d h with ⟨lk, hlk, hcand, _⟩
  have hcur := current_of_buffer_empty hempty lk
  have hkind := (ofDesc_lsn (hinv.keyed lk d (hcur.trans hlk))).2
  rw [hcand.1] at hkind
  simp [hkind]

theorem historic_get (hlayers : m.iterHistoricLayers = .ok layers) :
    m.historic.get = .ok m.historic.historicCoverage := by
  unfold BufferedHistoricLayerCoverage.get
  rw [(iterHistoricLayers_mem hlayers).1]
  rfl

theorem versionBelow_eq (hlayers : m.iterHistoricLayers = .ok layers) (hend : 0 < endLsn) :
    m.versionBelow endLsn = .ok (m.historic.historicCoverage.getVersion (endLsn - 1)) := by
  unfold versionBelow
  rw [historic_get hlayers]
  simp only [if_neg (ne_of_gt hend)]
  rfl

theorem selectLayer_of_kinds {delta image : Option PersistentLayerDesc}
    (hdelta : forall d, delta = some d -> d.isDelta = true)
    (himage : forall d, image = some d -> d.isDelta = false) (inmem : Option InMemoryLayerDesc)
    (endLsn : Lsn) :
    selectLayer delta image inmem endLsn = .ok (selectCandidate delta image inmem endLsn) := by
  have hd : delta.all (fun l => l.isDelta) = true := (Option.all_eq_true _ _).mpr hdelta
  have hi : image.all (fun l => !l.isDelta) = true := by
    rw [Option.all_eq_true]
    intro d hd
    rw [himage d hd]
    rfl
  unfold selectLayer
  rw [hd, hi]
  rfl

theorem search_eq_selectCandidate (hinv : Inv m) (hlayers : m.iterHistoricLayers = .ok layers)
    (hkey : key.Fits) (hend : 0 < endLsn) :
    m.search key endLsn =
      .ok (selectCandidate (m.latest false (key.packI128 : Int) endLsn)
        (m.latest true (key.packI128 : Int) endLsn)
        (m.searchInMemoryLayer endLsn) endLsn) := by
  have hempty := (iterHistoricLayers_mem hlayers).1
  unfold search
  rw [versionBelow_eq hlayers hend, hkey.toI128_eq]
  cases hv : m.historic.historicCoverage.getVersion (endLsn - 1) with
  | some t =>
    refine Eq.trans ?_ (selectLayer_of_kinds ?_ ?_ _ _)
    · simp only [latest, hv]
      rfl
    · exact fun d hd => latest_kind hinv hempty hd
    · exact fun d hd => latest_kind hinv hempty hd
  | none =>
    simp only [latest, hv]
    cases m.searchInMemoryLayer endLsn <;> rfl

/-!
## One step of the descent

What a step relies on: the three candidates are the latest of their kind, no
delta of the key overlaps an in-memory layer, and no layer starts at LSN 0.
-/

def HoldsKey (m : LayerMap) (layers : List PersistentLayerDesc) (key : Key) :
    ReadableLayerWeak -> Prop
  | .persistentLayer d => d ∈ layers ∧ d.isDelta = true ∧ key ∈ d.keyRange
  | .inMemoryLayer d => m.HasInMemory d

def ImageBelow (layers : List PersistentLayerDesc) (key : Key) (endLsn : Lsn)
    (d : PersistentLayerDesc) : Prop :=
  d ∈ layers ∧ d.isDelta = false ∧ key ∈ d.keyRange ∧ d.lsnRange.start < endLsn

/-- The in-memory layers and the deltas of a key lie apart in the LSN dimension. -/
def InMemoryApart (m : LayerMap) (layers : List PersistentLayerDesc) (key : Key) : Prop :=
  forall d i, d ∈ layers -> d.isDelta = true -> key ∈ d.keyRange ->
    m.HasInMemory i ->
      d.lsnRange.stop ≤ i.lsnRange.start ∨ i.lsnRange.stop ≤ d.lsnRange.start

def StartsAboveZero (m : LayerMap) (layers : List PersistentLayerDesc) : Prop :=
  (forall d, d ∈ layers -> 0 < d.lsnRange.start) ∧ forall i, m.HasInMemory i -> 0 < i.lsnRange.start

structure Candidates (m : LayerMap) (layers : List PersistentLayerDesc)
    (key : Key) (endLsn : Lsn) (delta image : Option PersistentLayerDesc)
    (inmem : Option InMemoryLayerDesc) : Prop where
  delta : LatestBelow layers true key endLsn delta
  image : LatestBelow layers false key endLsn image
  inmemMissing : inmem = none ->
    forall i, m.HasInMemory i -> Not (i.lsnRange.start < endLsn)
  inmemFound : forall i, inmem = some i ->
    m.HasInMemory i ∧ i.lsnRange.start < endLsn ∧
      forall j, m.HasInMemory j -> j.lsnRange.start < endLsn ->
        j = i ∨ j.lsnRange.stop ≤ i.lsnRange.start
  apart : m.InMemoryApart layers key
  positive : m.StartsAboveZero layers

/-- A step that ends the descent in an image: nothing above the image is left out. -/
def EndsAtImage (m : LayerMap) (layers : List PersistentLayerDesc) (key : Key)
    (endLsn : Lsn) (r : SearchResult) : Prop :=
  (exists d, r.layer = .persistentLayer d ∧ r.lsnFloor = d.lsnRange.start ∧
    ImageBelow layers key endLsn d) ∧
  (forall d, ImageBelow layers key endLsn d -> d.lsnRange.start ≤ r.lsnFloor) ∧
  forall layer lsn, m.HoldsKey layers key layer -> lsn ∈ layer.getLsnRange ->
    lsn < endLsn -> lsn ≤ r.lsnFloor

/-- A step that reads a layer: it reads all there is down to the floor. -/
def ReadsLayer (m : LayerMap) (layers : List PersistentLayerDesc) (key : Key)
    (endLsn : Lsn) (r : SearchResult) : Prop :=
  m.HoldsKey layers key r.layer ∧ 0 < r.lsnFloor ∧
  (forall d, ImageBelow layers key endLsn d -> d.lsnRange.start < r.lsnFloor) ∧
  forall layer lsn, m.HoldsKey layers key layer -> lsn ∈ layer.getLsnRange ->
    r.lsnFloor ≤ lsn -> lsn < endLsn -> lsn ∈ r.layer.getLsnRange

def GoodStep (m : LayerMap) (layers : List PersistentLayerDesc) (key : Key)
    (endLsn : Lsn) (r : SearchResult) : Prop :=
  r.lsnFloor < endLsn ∧
    if r.layer.isImage then EndsAtImage m layers key endLsn r
    else ReadsLayer m layers key endLsn r

/-- A search makes a good step, or nothing is left below its LSN. -/
def GoodSearch (m : LayerMap) (layers : List PersistentLayerDesc) (key : Key) (endLsn : Lsn) :
    Prop :=
  exists result, m.search key endLsn = .ok result ∧
    (forall r, result = some r -> GoodStep m layers key endLsn r) ∧
    (result = none -> forall layer lsn, m.HoldsKey layers key layer ->
      lsn ∈ layer.getLsnRange -> Not (lsn < endLsn))

section Steps

variable {m : LayerMap} {layers : List PersistentLayerDesc} {key : Key}
variable {endLsn : Lsn} {delta image : Option PersistentLayerDesc}
variable {inmem : Option InMemoryLayerDesc}

variable {d img : PersistentLayerDesc} {i : InMemoryLayerDesc}

variable {lsn floor : Lsn}

section

variable (h : Candidates m layers key endLsn delta image inmem)

include h

theorem Candidates.lt_of_delta (hd : m.HoldsKey layers key (.persistentLayer d))
    (hlsn : lsn ∈ d.lsnRange) (hend : lsn < endLsn) :
    exists top, delta = some top ∧ lsn < top.lsnRange.stop := by
  rcases hd with ⟨hmem, hkind, hkey⟩
  have hstart : d.lsnRange.start < endLsn := lt_of_le_of_lt hlsn.1 hend
  cases hdelta : delta with
  | none => exact absurd hstart (h.delta.missing hdelta d hmem hkind hkey)
  | some top =>
    have hle := h.delta.latest top hdelta d hmem hkind hkey hstart
    exact ⟨top, rfl, lt_of_lt_of_le hlsn.2 hle⟩

theorem Candidates.mem_inmem
    (hi : m.HasInMemory i) (hlsn : lsn ∈ i.lsnRange) (hend : lsn < endLsn) :
    exists top, inmem = some top ∧ lsn < top.lsnRange.stop ∧
      (lsn ∈ top.lsnRange ∨ lsn < top.lsnRange.start) := by
  have hstart : i.lsnRange.start < endLsn := lt_of_le_of_lt hlsn.1 hend
  cases hinmem : inmem with
  | none => exact absurd hstart (h.inmemMissing hinmem i hi)
  | some top =>
    refine ⟨top, rfl, ?_⟩
    rcases (h.inmemFound top hinmem).2.2 i hi hstart with heq | hle
    · exact ⟨heq ▸ hlsn.2, Or.inl (heq ▸ hlsn)⟩
    · have hlt := lt_of_lt_of_le hlsn.2 hle
      exact ⟨hlt.trans (hasInMemory_nonempty (h.inmemFound top hinmem).1), Or.inr hlt⟩

theorem Candidates.image_newest (hd : ImageBelow layers key endLsn d) :
    exists top, image = some top ∧ d.lsnRange.start ≤ top.lsnRange.start := by
  rcases hd with ⟨hmem, hkind, hkey, hstart⟩
  cases himage : image with
  | none => exact absurd hstart (h.image.missing himage d hmem hkind hkey)
  | some top =>
    refine ⟨top, rfl, ?_⟩
    have hle := h.image.latest top himage d hmem hkind hkey hstart
    have hd1 := d.image_lsnRange hkind
    have htop1 := top.image_lsnRange (h.image.found top himage).2.1
    lia

theorem Candidates.goodStep_image (himg : image = some img) (hdelta : forall d, delta = some d ->
      d.lsnRange.stop ≤ img.lsnRange.stop ∨ img.lsnRange.start + 1 = endLsn)
    (hinmem : forall i, inmem = some i ->
      i.lsnRange.stop ≤ img.lsnRange.stop ∨ img.lsnRange.start + 1 = endLsn) :
    GoodStep m layers key endLsn
      { layer := .persistentLayer img, lsnFloor := img.lsnRange.start } := by
  rcases h.image.found img himg with ⟨hmem, hkind, hkey, hstart⟩
  have hstop := img.image_lsnRange hkind
  refine ⟨hstart, ?_⟩
  have himage : (persistentLayer img).isImage = true := by
    simp [isImage, hkind]
  rw [if_pos himage]
  refine ⟨⟨img, rfl, rfl, hmem, hkind, hkey, hstart⟩, ?_, ?_⟩
  · intro d hd
    rcases h.image_newest hd with ⟨top, htop, hle⟩
    rw [himg] at htop
    cases htop
    exact hle
  · intro layer lsn hholds hlsn hend
    have hbelow : forall {stop : Lsn}, lsn < stop ->
        stop ≤ img.lsnRange.stop ∨ img.lsnRange.start + 1 = endLsn ->
        lsn ≤ img.lsnRange.start := by lia
    cases layer with
    | persistentLayer d =>
      rcases h.lt_of_delta hholds hlsn hend with ⟨top, htop, hlt⟩
      exact hbelow hlt (hdelta top htop)
    | inMemoryLayer i =>
      rcases h.mem_inmem hholds hlsn hend with ⟨top, htop, hlt, _⟩
      exact hbelow hlt (hinmem top htop)

theorem Candidates.goodStep_delta
    (hd : delta = some d) (hfloor : d.lsnRange.start ≤ floor) (hend : floor < endLsn)
    (himage : forall img, image = some img -> img.lsnRange.start < floor)
    (hinmem : forall i, inmem = some i -> i.lsnRange.stop ≤ floor) :
    GoodStep m layers key endLsn
      { layer := .persistentLayer d, lsnFloor := floor } := by
  rcases h.delta.found d hd with ⟨hmem, hkind, hkey, _⟩
  refine ⟨hend, ?_⟩
  have hnot : (persistentLayer d).isImage = false := by
    simp [isImage, hkind]
  simp only [hnot]
  refine ⟨⟨hmem, hkind, hkey⟩, ?_, ?_, ?_⟩
  · exact lt_of_lt_of_le (h.positive.1 d hmem) hfloor
  · intro img himg
    rcases h.image_newest himg with ⟨top, htop, hle⟩
    exact lt_of_le_of_lt hle (himage top htop)
  · intro layer lsn hholds hlsn hge hlt
    refine ⟨hfloor.trans hge, ?_⟩
    cases layer with
    | persistentLayer x =>
      rcases h.lt_of_delta hholds hlsn hlt with ⟨top, htop, hltTop⟩
      rw [hd] at htop
      cases htop
      exact hltTop
    | inMemoryLayer i =>
      rcases h.mem_inmem hholds hlsn hlt with ⟨top, htop, hltStop, _⟩
      exact absurd (lt_of_lt_of_le hltStop ((hinmem top htop).trans hge)) (lt_irrefl lsn)

theorem Candidates.goodStep_inmem
    (hi : inmem = some i) (hfloor : i.lsnRange.start ≤ floor) (hend : floor < endLsn)
    (himage : forall img, image = some img -> img.lsnRange.start < floor)
    (hdelta : forall d, delta = some d -> d.lsnRange.stop ≤ floor) :
    GoodStep m layers key endLsn
      { layer := .inMemoryLayer i, lsnFloor := floor } := by
  rcases h.inmemFound i hi with ⟨hhas, _, _⟩
  refine ⟨hend, ?_⟩
  refine ⟨hhas, ?_, ?_, ?_⟩
  · exact lt_of_lt_of_le (h.positive.2 i hhas) hfloor
  · intro img himg
    rcases h.image_newest himg with ⟨top, htop, hle⟩
    exact lt_of_le_of_lt hle (himage top htop)
  · intro layer lsn hholds hlsn hge hlt
    cases layer with
    | persistentLayer x =>
      rcases h.lt_of_delta hholds hlsn hlt with ⟨top, htop, hltTop⟩
      have hstop := hdelta top htop
      exact absurd (lt_of_lt_of_le hltTop (hstop.trans hge)) (lt_irrefl lsn)
    | inMemoryLayer x =>
      rcases h.mem_inmem hholds hlsn hlt with ⟨top, htop, _, hin⟩
      rw [hi] at htop
      cases htop
      rcases hin with hin | hin
      · exact hin
      · exact absurd (lt_of_lt_of_le hin (hfloor.trans hge)) (lt_irrefl lsn)

theorem Candidates.apart_of (hd : delta = some d) (hi : inmem = some i) :
    d.lsnRange.stop ≤ i.lsnRange.start ∨ i.lsnRange.stop ≤ d.lsnRange.start := by
  rcases h.delta.found d hd with ⟨hmem, hkind, hkey, _⟩
  exact h.apart d i hmem hkind hkey (h.inmemFound i hi).1

end

theorem Candidates.goodStep_selectDeltaImage
    (h : Candidates m layers key endLsn (some d) (some img) none) :
    GoodStep m layers key endLsn (selectDeltaImage d img endLsn) := by
  rcases h.delta.found d rfl with ⟨_, _, _, hdstart⟩
  rcases h.image.found img rfl with ⟨_, hikind, _, histart⟩
  rcases selectDeltaImage_cases d img endLsn with
    ⟨hchoose, heq⟩ | ⟨hnewer, hexact, heq⟩
  · rw [heq]
    exact h.goodStep_image rfl (by simpa using hchoose) (by simp)
  · rw [heq]
    exact h.goodStep_delta rfl (le_max_left _ _) (by lia) (by simp) (by simp)

theorem Candidates.goodStep_selectImageInMemory {d : Option PersistentLayerDesc}
    (h : Candidates m layers key endLsn d (some img) (some i))
    (hdelta : forall x, d = some x ->
      x.lsnRange.stop ≤ img.lsnRange.stop ∨ img.lsnRange.start + 1 = endLsn) :
    GoodStep m layers key endLsn (selectImageInMemory img i endLsn) := by
  rcases h.image.found img rfl with ⟨_, hikind, _, histart⟩
  rcases h.inmemFound i rfl with ⟨_, hmstart, _⟩
  have histop := img.image_lsnRange hikind
  rcases selectImageInMemory_cases img i endLsn with
    ⟨hchoose, heq⟩ | ⟨hnewer, hexact, heq⟩
  · rw [heq]
    exact h.goodStep_image rfl hdelta (by simpa using hchoose)
  · rw [heq]
    refine h.goodStep_inmem rfl (le_max_left _ _) (by lia) (by simp) ?_
    intro x hx
    have hx := hdelta x hx
    lia

theorem Candidates.goodStep_selectDeltaInMemory
    (h : Candidates m layers key endLsn (some d) none (some i)) :
    GoodStep m layers key endLsn (selectDeltaInMemory d i endLsn) := by
  rcases h.delta.found d rfl with ⟨_, _, _, hdstart⟩
  rcases h.inmemFound i rfl with ⟨hhas, hmstart, _⟩
  have hne := hasInMemory_nonempty hhas
  have hapart := h.apart_of rfl rfl
  rcases selectDeltaInMemory_cases d i endLsn with
    ⟨hchoose, heq⟩ | ⟨hnewer, hexact, heq⟩
  · rw [heq]
    refine h.goodStep_delta rfl (le_refl _) hdstart (by simp) ?_
    intro x hx
    lia
  · rw [heq]
    exact h.goodStep_inmem rfl (le_max_left _ _) (by lia) (by simp) (by simp)

theorem Candidates.goodStep_selectAll
    (h : Candidates m layers key endLsn (some d) (some img) (some i)) :
    GoodStep m layers key endLsn (selectAll d img i endLsn) := by
  rcases h.delta.found d rfl with ⟨_, hdkind, _, hdstart⟩
  rcases h.image.found img rfl with ⟨_, hikind, _, histart⟩
  rcases h.inmemFound i rfl with ⟨hhas, hmstart, _⟩
  have histop := img.image_lsnRange hikind
  have hne := hasInMemory_nonempty hhas
  have hdne := d.lsnRange_nonempty
  have hapart := h.apart_of rfl rfl
  rcases selectDeltaImage_cases d img endLsn with
    ⟨hchoose, heq⟩ | ⟨hnewer, hexact, heq⟩
  · -- the image stands for both persistent layers
    have hsel : selectAll d img i endLsn = selectImageInMemory img i endLsn := by
      have hmax : max img.lsnRange.start (selectImageInMemory img i endLsn).lsnFloor =
          (selectImageInMemory img i endLsn).lsnFloor := by
        rcases selectImageInMemory_cases img i endLsn with h1 | h1
        · rw [h1.2]
          exact max_self _
        · lia
      simp only [selectAll, heq, selectWhole, hikind, Bool.false_eq_true, if_false, hmax]
    rw [hsel]
    exact h.goodStep_selectImageInMemory (by simpa using hchoose)
  · -- the delta stands for both, down to the image
    rcases selectDeltaInMemory_cases d i endLsn with
      ⟨hchoose, heq2⟩ | ⟨hnewer2, hexact2, heq2⟩
    · have hsel : selectAll d img i endLsn =
          { layer := .persistentLayer d
            lsnFloor := max d.lsnRange.start (img.lsnRange.start + 1) } := by
        simp only [selectAll, heq, hdkind, heq2, selectWhole]
        congr 1
        lia
      rw [hsel]
      refine h.goodStep_delta rfl (le_max_left _ _) (by lia) (by simp) ?_
      intro x hx
      lia
    · have hsel : selectAll d img i endLsn =
          { layer := .inMemoryLayer i, lsnFloor := i.lsnRange.start } := by
        simp only [selectAll, heq, hdkind, heq2]
        congr 1
        lia
      rw [hsel]
      refine h.goodStep_inmem rfl (le_refl _) hmstart ?_ ?_
      · intro x hx
        lia
      · intro x hx
        lia

theorem Candidates.goodStep
    (h : Candidates m layers key endLsn delta image inmem) {r : SearchResult}
    (hr : selectCandidate delta image inmem endLsn = some r) :
    GoodStep m layers key endLsn r := by
  cases delta <;> cases image <;> cases inmem <;> cases hr
  case none.none.some i =>
    exact h.goodStep_inmem rfl (le_refl _) (h.inmemFound i rfl).2.1 (by simp) (by simp)
  case none.some.none => exact h.goodStep_image rfl (by simp) (by simp)
  case none.some.some => exact h.goodStep_selectImageInMemory (by simp)
  case some.none.none d =>
    exact h.goodStep_delta rfl (le_refl _) (h.delta.found d rfl).2.2.2 (by simp) (by simp)
  case some.none.some => exact h.goodStep_selectDeltaInMemory
  case some.some.none => exact h.goodStep_selectDeltaImage
  case some.some.some => exact h.goodStep_selectAll

theorem Candidates.nothing_left (h : Candidates m layers key endLsn delta image inmem)
    (hr : selectCandidate delta image inmem endLsn = none) (layer : ReadableLayerWeak) (lsn : Lsn)
    (hholds : m.HoldsKey layers key layer) (hlsn : lsn ∈ layer.getLsnRange) :
    Not (lsn < endLsn) := by
  intro hlt
  cases layer with
  | persistentLayer d =>
    rcases h.lt_of_delta hholds hlsn hlt with ⟨top, rfl, _⟩
    cases image <;> cases inmem <;> cases hr
  | inMemoryLayer i =>
    rcases h.mem_inmem hholds hlsn hlt with ⟨top, rfl, _⟩
    cases delta <;> cases image <;> cases hr

end Steps

/-!
## The whole descent
-/

/-- One layer read by the descent, from its floor up to the LSN of the search. -/
structure Visit where
  layer : ReadableLayerWeak
  lsnFloor : Lsn
  endLsn : Lsn

inductive DescentError where
  | panic (p : Panic)
  | outOfFuel

/-- Search, and go on below the floor until an image is met or no layer is left. -/
def descend (m : LayerMap) (key : Key) :
    Nat -> Lsn -> Except DescentError (List Visit)
  | 0, _ => .error .outOfFuel
  | fuel + 1, endLsn =>
    match m.search key endLsn with
    | .error p => .error (.panic p)
    | .ok none => .ok []
    | .ok (some r) =>
      let visit : Visit :=
        { layer := r.layer, lsnFloor := r.lsnFloor, endLsn := endLsn }
      if r.layer.isImage then .ok [visit]
      else
        match descend m key fuel r.lsnFloor with
        | .error e => .error e
        | .ok rest => .ok (visit :: rest)

theorem descend_head {fuel : Nat} {r : SearchResult} {visits : List Visit}
    (hsearch : m.search key endLsn = .ok (some r)) (hlayer : r.layer.isImage = false)
    (h : m.descend key (fuel + 1) endLsn = .ok visits) :
    exists rest, visits = ⟨r.layer, r.lsnFloor, endLsn⟩ :: rest := by
  simp only [descend, hsearch, hlayer] at h
  cases hrest : m.descend key fuel r.lsnFloor with
  | error e =>
    rw [hrest] at h
    cases h
  | ok rest =>
    rw [hrest] at h
    cases h
    exact ⟨rest, rfl⟩

/-- Each search starts at the floor of the one before, and the LSN goes down. -/
def Descending : Lsn -> List Visit -> Prop
  | _, [] => True
  | endLsn, v :: rest => v.endLsn = endLsn ∧ v.lsnFloor < endLsn ∧ Descending v.lsnFloor rest

/-- The records a layer holds, by key and LSN. -/
abbrev Contents := ReadableLayerWeak -> Key -> Lsn -> Prop

/-- Every layer holds all the records of its key and LSN range. -/
structure Complete (m : LayerMap) (layers : List PersistentLayerDesc)
    (contents : Contents) : Prop where
  inside : forall layer key lsn, contents layer key lsn ->
    m.HoldsKey layers key layer ∧ lsn ∈ layer.getLsnRange
  all : forall layer layer' key lsn, contents layer' key lsn ->
    m.HoldsKey layers key layer -> lsn ∈ layer.getLsnRange ->
      contents layer key lsn

/-- A record that the visit of a layer reads. -/
def Visit.Reads (v : Visit) (contents : Contents) (key : Key) (lsn : Lsn) : Prop :=
  v.layer.isImage = false ∧ v.lsnFloor ≤ lsn ∧ lsn < v.endLsn ∧ contents v.layer key lsn

/-- The records below an LSN that a page needs: those above its newest image. -/
def Needed (layers : List PersistentLayerDesc) (contents : Contents)
    (key : Key) (endLsn lsn : Lsn) : Prop :=
  (exists layer, contents layer key lsn) ∧ lsn < endLsn ∧
    forall d, ImageBelow layers key endLsn d -> d.lsnRange.start < lsn

/-- The descent ends, goes down at every step, and reads exactly what is needed. -/
def ReadsNeeded (m : LayerMap) (layers : List PersistentLayerDesc)
    (contents : Contents) (key : Key) (endLsn : Lsn) : Prop :=
  exists visits,
    (forall fuel, endLsn ≤ fuel -> m.descend key fuel endLsn = .ok visits) ∧
    Descending endLsn visits ∧
    forall lsn, (exists v, v ∈ visits ∧ v.Reads contents key lsn) <->
      Needed layers contents key endLsn lsn

section Descent

variable {m : LayerMap} {layers : List PersistentLayerDesc}
variable {contents : Contents} {key : Key}

variable {endLsn : Lsn}

variable {r : SearchResult}

section

variable (hcomplete : Complete m layers contents)

include hcomplete

/-- A good step splits what is needed into what it reads and what is needed below. -/
theorem needed_step (hlt : r.lsnFloor < endLsn)
    (hreads : ReadsLayer m layers key endLsn r) (lsn : Lsn) :
    Needed layers contents key endLsn lsn <->
      (r.lsnFloor ≤ lsn ∧ lsn < endLsn ∧ contents r.layer key lsn) ∨
        Needed layers contents key r.lsnFloor lsn := by
  rcases hreads with ⟨hholds, hpos, himages, hall⟩
  have hsame : forall d, ImageBelow layers key endLsn d <->
      ImageBelow layers key r.lsnFloor d :=
    fun d => ⟨fun h => ⟨h.1, h.2.1, h.2.2.1, himages d h⟩,
      fun h => ⟨h.1, h.2.1, h.2.2.1, h.2.2.2.trans hlt⟩⟩
  constructor
  · intro h
    rcases h with ⟨⟨layer, hrec⟩, hend, habove⟩
    by_cases hfloor : r.lsnFloor ≤ lsn
    · have hin := hcomplete.inside layer key lsn hrec
      exact Or.inl ⟨hfloor, hend, hcomplete.all r.layer layer key lsn hrec hholds
        (hall layer lsn hin.1 hin.2 hfloor hend)⟩
    · exact Or.inr ⟨⟨layer, hrec⟩, not_le.mp hfloor, fun d hd => habove d ((hsame d).mpr hd)⟩
  · intro h
    rcases h with ⟨hfloor, hend, hrec⟩ | ⟨hex, hlow, habove⟩
    · exact ⟨⟨r.layer, hrec⟩, hend, fun d hd => lt_of_lt_of_le (himages d hd) hfloor⟩
    · exact ⟨hex, hlow.trans hlt, fun d hd => habove d ((hsame d).mp hd)⟩

theorem not_needed_at_image (hends : EndsAtImage m layers key endLsn r) (lsn : Lsn) :
    Not (Needed layers contents key endLsn lsn) := by
  intro h
  rcases h with ⟨⟨layer, hrec⟩, hend, habove⟩
  rcases hends with ⟨⟨d, _, hfloor, hd⟩, _, hbelow⟩
  have hin := hcomplete.inside layer key lsn hrec
  have hle := hbelow layer lsn hin.1 hin.2 hend
  rw [hfloor] at hle
  exact absurd (habove d hd) (not_lt.mpr hle)

/-- If every search makes a good step, the descent reads what is needed. -/
theorem readsNeeded_of_goodSteps
    (hsearch : forall endLsn, 0 < endLsn -> GoodSearch m layers key endLsn) (hend : 0 < endLsn) :
    ReadsNeeded m layers contents key endLsn := by
  -- strong induction on the LSN: the floor of a good step is below it
  induction endLsn using Nat.strong_induction_on with
  | h endLsn ih =>
    rcases hsearch endLsn hend with ⟨result, hres, hgood, hnothing⟩
    cases result with
    | none =>
      refine ⟨[], ?_, trivial, ?_⟩
      · intro fuel hfuel
        cases fuel with
        | zero => lia
        | succ fuel => simp [descend, hres]
      · intro lsn
        refine ⟨by simp, ?_⟩
        rintro ⟨⟨layer, hrec⟩, hlt, _⟩
        have hin := hcomplete.inside layer key lsn hrec
        exact absurd hlt (hnothing rfl layer lsn hin.1 hin.2)
    | some r =>
      rcases hgood r rfl with ⟨hlt, hstep⟩
      cases himage : r.layer.isImage with
      | true =>
        rw [if_pos himage] at hstep
        refine ⟨[⟨r.layer, r.lsnFloor, endLsn⟩], ?_, ⟨rfl, hlt, trivial⟩, ?_⟩
        · intro fuel hfuel
          cases fuel with
          | zero => lia
          | succ fuel => simp [descend, hres, himage]
        · intro lsn
          simpa [Visit.Reads, himage] using not_needed_at_image hcomplete hstep lsn
      | false =>
        simp only [himage] at hstep
        rcases ih r.lsnFloor hlt hstep.2.1 with
          ⟨rest, hrun, hdesc, hneeded⟩
        refine ⟨⟨r.layer, r.lsnFloor, endLsn⟩ :: rest, ?_, ⟨rfl, hlt, hdesc⟩, ?_⟩
        · intro fuel hfuel
          cases fuel with
          | zero => lia
          | succ fuel => simp [descend, hres, himage, hrun fuel (by lia)]
        · intro lsn
          rw [needed_step hcomplete hlt hstep lsn, ← hneeded lsn]
          simp only [List.mem_cons, exists_eq_or_imp]
          simp only [Visit.Reads, himage, true_and]

end

/-- What the reads of a key rely on. -/
structure Readable (m : LayerMap) (layers : List PersistentLayerDesc) (key : Key) : Prop where
  reachable : m.Reachable
  historic : m.iterHistoricLayers = .ok layers
  packed : PackedLayers layers
  ordered : m.InMemoryOrdered
  positive : m.StartsAboveZero layers
  searchable : key.Searchable
  apart : m.InMemoryApart layers key

theorem Readable.goodSearch (h : Readable m layers key) (hend : 0 < endLsn) :
    GoodSearch m layers key endLsn := by
  have hdelta := latestBelow_latest h.reachable h.historic h.packed h.searchable hend true
  have himage := latestBelow_latest h.reachable h.historic h.packed h.searchable hend false
  have hinmem := searchInMemoryLayer_spec h.ordered endLsn
  have hcand : Candidates m layers key endLsn (m.latest false (key.packI128 : Int) endLsn)
      (m.latest true (key.packI128 : Int) endLsn) (m.searchInMemoryLayer endLsn) :=
    ⟨hdelta, himage, fun hnone => by rwa [hnone] at hinmem, fun i hi => by rwa [hi] at hinmem,
      h.apart, h.positive⟩
  refine ⟨_, search_eq_selectCandidate h.reachable.inv h.historic h.searchable.1 hend, ?_, ?_⟩
  · exact fun r hr => hcand.goodStep hr
  · exact hcand.nothing_left

end Descent

/-- The descent of a read meets exactly the records above the newest image. -/
theorem descend_readsNeeded {m : LayerMap} (hreach : m.Reachable)
    {layers : List PersistentLayerDesc}
    (hlayers : m.iterHistoricLayers = .ok layers)
    (hpacked : PackedLayers layers) (hord : m.InMemoryOrdered)
    (hpos : m.StartsAboveZero layers) {contents : Contents}
    (hcomplete : Complete m layers contents) {key : Key}
    (hkey : key.Searchable) (hapart : m.InMemoryApart layers key)
    {endLsn : Lsn} (hend : 0 < endLsn) :
    ReadsNeeded m layers contents key endLsn := by
  have hreadable : Readable m layers key := ⟨hreach, hlayers, hpacked, hord, hpos, hkey, hapart⟩
  exact readsNeeded_of_goodSteps hcomplete (fun _ => hreadable.goodSearch) hend

/-- The layers hold the records of a timeline that fall into their ranges. -/
def contentsOf (m : LayerMap) (layers : List PersistentLayerDesc)
    (records : Key -> Lsn -> Prop) : Contents :=
  fun layer key lsn =>
    m.HoldsKey layers key layer ∧ lsn ∈ layer.getLsnRange ∧ records key lsn

theorem complete_contentsOf (m : LayerMap) (layers : List PersistentLayerDesc)
    (records : Key -> Lsn -> Prop) :
    Complete m layers (contentsOf m layers records) where
  inside := fun _ _ _ h => ⟨h.1, h.2.1⟩
  all := fun _ _ _ _ h hholds hlsn => ⟨hholds, hlsn, h.2.2⟩

/-!
## Two small maps

In the first map a frozen layer follows a delta with an image inside it.  In the
second the open layer overlaps the delta: the search returns a floor above the
LSN it was asked for.
-/

def sampleKey (block : UInt32) : Key :=
  { field1 := 0, field2 := 0, field3 := 0, field4 := 0, field5 := 0
    field6 := block }

def sampleDelta : PersistentLayerDesc :=
  { keyRange := ⟨sampleKey 0, sampleKey 10⟩
    lsnRange := ⟨10, 100⟩
    isDelta := true
    fileSize := 8192
    keyRange_nonempty := by decide
    lsnRange_nonempty := by decide
    image_lsnRange := by decide }

def sampleImage : PersistentLayerDesc :=
  { keyRange := ⟨sampleKey 0, sampleKey 10⟩
    lsnRange := ⟨40, 41⟩
    isDelta := false
    fileSize := 8192
    keyRange_nonempty := by decide
    lsnRange_nonempty := by decide
    image_lsnRange := by decide }

def memoryFrom (start : Lsn) (h : start < MAX_LSN) : InMemoryLayer :=
  { startLsn := start, endLsn := none, lsnRange_nonempty := h }

def ofOps (ops : List Op) : LayerMap :=
  match List.foldlM step default ops with
  | .ok m => m
  | .error _ => default

def stackedOps : List Op :=
  [.insertHistoric sampleDelta, .insertHistoric sampleImage, .flushUpdates,
    .setInMemory (some (memoryFrom 100 (by decide))) []]

def stackedMap : LayerMap := ofOps stackedOps

def overlappingOps : List Op :=
  [.insertHistoric sampleDelta, .flushUpdates, .setInMemory (some (memoryFrom 20 (by decide))) []]

def overlappingMap : LayerMap := ofOps overlappingOps

theorem hasInMemory_open {l : InMemoryLayer} (hopen : m.openLayer = some l)
    (hfrozen : m.frozenLayers = []) {i : InMemoryLayerDesc} (h : m.HasInMemory i) :
    i.lsnRange = l.getLsnRange := by
  rcases h with ⟨x, hx, rfl⟩ | ⟨idx, x, hx, rfl⟩
  · rw [hopen] at hx
    cases hx
    rfl
  · rw [hfrozen] at hx
    cases hx

theorem descend_readsNeeded_stackedMap :
    ReadsNeeded stackedMap [sampleDelta, sampleImage]
      (contentsOf stackedMap [sampleDelta, sampleImage]
        (fun _ lsn => lsn = 15 ∨ lsn = 50 ∨ lsn = 120))
      (sampleKey 5) 130 := by
  have hmem : forall i, stackedMap.HasInMemory i ->
      i.lsnRange = ⟨100, MAX_LSN⟩ :=
    fun i hi => hasInMemory_open (l := memoryFrom 100 (by decide)) rfl rfl hi
  have hlayers : stackedMap.iterHistoricLayers = .ok [sampleDelta, sampleImage] := rfl
  refine descend_readsNeeded ⟨stackedOps, rfl⟩ hlayers ?_ ?_ ⟨?_, ?_⟩
    (complete_contentsOf _ _ _) (by decide) ?_ (by decide)
  · unfold PackedLayers
    decide
  · exact List.pairwise_singleton _ _
  · decide
  · intro i hi
    rw [hmem i hi]
    decide
  · intro d i hd _ _ hi
    simp only [List.mem_cons, List.not_mem_nil, or_false] at hd
    rw [hmem i hi]
    rcases hd with rfl | rfl <;> decide

/-- With an overlap of delta and open layer the LSN of the search goes up. -/
theorem overlappingMap_not_readsNeeded :
    overlappingMap.Reachable ∧
    overlappingMap.iterHistoricLayers = .ok [sampleDelta] ∧
    PackedLayers [sampleDelta] ∧ overlappingMap.InMemoryOrdered ∧
    overlappingMap.StartsAboveZero [sampleDelta] ∧
    (sampleKey 5).Searchable ∧
    Complete overlappingMap [sampleDelta]
      (contentsOf overlappingMap [sampleDelta] (fun _ lsn => lsn = 60)) ∧
    Not (ReadsNeeded overlappingMap [sampleDelta]
      (contentsOf overlappingMap [sampleDelta] (fun _ lsn => lsn = 60))
      (sampleKey 5) 50) := by
  have hmem : forall i, overlappingMap.HasInMemory i ->
      i.lsnRange = ⟨20, MAX_LSN⟩ :=
    fun i hi => hasInMemory_open (l := memoryFrom 20 (by decide)) rfl rfl hi
  refine ⟨⟨overlappingOps, rfl⟩, rfl, ?_, List.pairwise_singleton _ _, ⟨?_, ?_⟩, by decide,
    complete_contentsOf _ _ _, ?_⟩
  · unfold PackedLayers
    decide
  · decide
  · intro i hi
    rw [hmem i hi]
    decide
  · intro h
    rcases h with ⟨visits, hrun, hdesc, _⟩
    have hsearch : overlappingMap.search (sampleKey 5) 50 =
        .ok (some ⟨.inMemoryLayer ⟨.openLayer, ⟨20, MAX_LSN⟩⟩, 100⟩) := rfl
    rcases descend_head hsearch rfl (hrun (49 + 1) (le_refl 50)) with
      ⟨rest, rfl⟩
    exact absurd hdesc.2.1 (by decide)

end LayerMap
end Pageserver
end OpenNeon

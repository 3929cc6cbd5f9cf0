import OpenNeon.Pageserver.KeySpace
import OpenNeon.Pageserver.ReadPath

/-!
# Search of a key range

A range search sweeps the two coverages side by side.  It keeps the delta and the
image that are on top, moves from one change to the next, and gives each stretch
between two changes to the layer that a point search would choose there.
-/

namespace OpenNeon
namespace Pageserver

open Base LayerMap List

/-- A change of one coverage: from this key on, this layer is on top. -/
abbrev Change := Int × Option PersistentLayerDesc

/-!
## Results
-/

structure RangeSearchResult where
  found : List (SearchResult × KeySpaceAccum)

namespace RangeSearchResult

def new : RangeSearchResult :=
  { found := [] }

def entryAddRange (searchResult : SearchResult) (range : Range Key) :
    List (SearchResult × KeySpaceAccum) ->
      Except Panic (List (SearchResult × KeySpaceAccum))
  | [] => do
    let accum <- KeySpaceAccum.new.addRange range
    return [(searchResult, accum)]
  | (key, accum) :: rest =>
    if key = searchResult then do
      let accum' <- accum.addRange range
      return (key, accum') :: rest
    else do
      let rest' <- entryAddRange searchResult range rest
      return (key, accum) :: rest'

def addRange (r : RangeSearchResult) (searchResult : SearchResult)
    (range : Range Key) : Except Panic RangeSearchResult := do
  let found <- entryAddRange searchResult range r.found
  return { found := found }

def mapToInMemoryLayer (inMemoryLayer : Option InMemoryLayerDesc)
    (range : Range Key) : Except Panic RangeSearchResult :=
  match inMemoryLayer with
  | some inmem => do
    let accum <- KeySpaceAccum.new.addRange range
    return { found := [(selectInMemory inmem, accum)] }
  | none => return new

def assigned (r : RangeSearchResult) (key : Key) (searchResult : SearchResult) : Nat :=
  (r.found.map (fun e => if e.1 = searchResult then e.2.hits key else 0)).sum

end RangeSearchResult

/-!
## The collector
-/

inductive NextLayerType where
  | delta (key : Int)
  | image (key : Int)
  | both (key : Int)

def NextLayerType.nextChangeAtKey : NextLayerType -> Key
  | .delta key => Key.fromI128 key
  | .image key => Key.fromI128 key
  | .both key => Key.fromI128 key

structure RangeSearchCollector where
  inMemoryLayer : Option InMemoryLayerDesc
  deltaCoverage : List Change
  imageCoverage : List Change
  keyRange : Range Key
  endLsn : Lsn
  currentDelta : Option PersistentLayerDesc
  currentImage : Option PersistentLayerDesc
  result : RangeSearchResult

namespace RangeSearchCollector

def new (keyRange : Range Key) (endLsn : Lsn) (inMemoryLayer : Option InMemoryLayerDesc)
    (deltaCoverage imageCoverage : List Change) : RangeSearchCollector :=
  { inMemoryLayer := inMemoryLayer
    deltaCoverage := deltaCoverage
    imageCoverage := imageCoverage
    keyRange := keyRange
    endLsn := endLsn
    currentDelta := none
    currentImage := none
    result := RangeSearchResult.new }

section

variable (c : RangeSearchCollector)

/-- Give a range that meets no persistent layer to the in-memory layer. -/
def padRange (keyRange : Range Key) : Except Panic RangeSearchCollector :=
  if keyRange.isEmpty then .ok c
  else
    match c.inMemoryLayer with
    | some inmem => do
      let result <- c.result.addRange (selectInMemory inmem) keyRange
      return { c with result := result }
    | none => .ok c

def addRange (coveredRange : Range Key) : Except Panic RangeSearchCollector := do
  let selected <- selectLayer c.currentDelta c.currentImage
    c.inMemoryLayer c.endLsn
  match selected with
  | some searchResult =>
    let result <- c.result.addRange searchResult coveredRange
    return { c with result := result }
  | none => c.padRange coveredRange

def advance :
    NextLayerType -> Except Panic RangeSearchCollector
  | .delta _ =>
    match c.deltaCoverage with
    | (_, layer) :: rest => .ok { c with deltaCoverage := rest, currentDelta := layer }
    | [] => .error .unwrapOnNone
  | .image _ =>
    match c.imageCoverage with
    | (_, layer) :: rest => .ok { c with imageCoverage := rest, currentImage := layer }
    | [] => .error .unwrapOnNone
  | .both _ =>
    match c.imageCoverage, c.deltaCoverage with
    | (_, imageLayer) :: images, (_, deltaLayer) :: deltas =>
      .ok { c with
        imageCoverage := images, deltaCoverage := deltas
        currentImage := imageLayer, currentDelta := deltaLayer }
    | _, _ => .error .unwrapOnNone

/-- The change at the lesser key, or both if they are aligned. -/
def chooseNextLayerType : Option NextLayerType :=
  match c.deltaCoverage, c.imageCoverage with
  | [], [] => none
  | (nextDeltaAt, _) :: _, [] => some (.delta nextDeltaAt)
  | [], (nextImageAt, _) :: _ => some (.image nextImageAt)
  | (nextDeltaAt, _) :: _, (nextImageAt, _) :: _ =>
    if nextImageAt < nextDeltaAt then some (.image nextImageAt)
    else if nextDeltaAt < nextImageAt then some (.delta nextDeltaAt)
    else some (.both nextDeltaAt)

end

/--
The loop of `collect`.  Every iteration but the last consumes a change, so as
many iterations as there are changes, one more and the check that ends the loop are enough.
-/
def collectLoop : Nat -> RangeSearchCollector -> Key ->
    Except Panic RangeSearchResult
  | 0, _, _ => .error .outOfFuel
  | fuel + 1, c, currentRangeStart =>
    if currentRangeStart < c.keyRange.stop then
      match c.chooseNextLayerType with
      | some t => do
        let currentRangeEnd := t.nextChangeAtKey
        let c1 <- c.addRange ⟨currentRangeStart, currentRangeEnd⟩
        let c2 <- c1.advance t
        collectLoop fuel c2 currentRangeEnd
      | none => do
        let c1 <- c.addRange ⟨currentRangeStart, c.keyRange.stop⟩
        collectLoop fuel c1 c.keyRange.stop
    else .ok c.result

def collect (c : RangeSearchCollector) : Except Panic RangeSearchResult :=
  match c.chooseNextLayerType with
  | none => do
    let c1 <- c.padRange c.keyRange
    return c1.result
  | some t =>
    if c.keyRange.stop ≤ t.nextChangeAtKey then do
      let c1 <- c.padRange c.keyRange
      return c1.result
    else do
      let coverageStart := t.nextChangeAtKey
      let c1 <- c.padRange ⟨c.keyRange.start, coverageStart⟩
      let c2 <- c1.advance t
      collectLoop (c.deltaCoverage.length + c.imageCoverage.length + 2) c2 coverageStart

end RangeSearchCollector

def LayerMap.rangeSearch (m : LayerMap) (keyRange : Range Key) (endLsn : Lsn) :
    Except Panic RangeSearchResult := do
  let inMemoryLayer := m.searchInMemoryLayer endLsn
  match <- m.versionBelow endLsn with
  | none => RangeSearchResult.mapToInMemoryLayer inMemoryLayer keyRange
  | some version =>
    let start <- keyRange.start.toI128
    let stop <- keyRange.stop.toI128
    let deltaChanges := version.deltaCoverage.rangeOverlaps ⟨start, stop⟩
    let imageChanges := version.imageCoverage.rangeOverlaps ⟨start, stop⟩
    (RangeSearchCollector.new keyRange endLsn inMemoryLayer deltaChanges imageChanges).collect

/-!
## Filling the result

The sweep goes up the key range.  What is assigned so far is right for the keys
below the sweep, and every accumulator ends at or before it.
-/

namespace RangeSearchResult

theorem entryAddRange_spec (searchResult : SearchResult) {range : Range Key}
    {found : List (SearchResult × KeySpaceAccum)}
    (hends : forall e, e ∈ found -> e.2.EndsBy range.start)
    (hrange : range.start < range.stop) :
    exists found', entryAddRange searchResult range found = .ok found' ∧
      (forall e, e ∈ found' -> e.2.EndsBy range.stop) ∧
      forall key sr, assigned ⟨found'⟩ key sr = assigned ⟨found⟩ key sr +
        if searchResult = sr ∧ key ∈ range then 1 else 0 := by
  induction found with
  | nil =>
    rcases KeySpaceAccum.addRange_spec (KeySpaceAccum.endsBy_new range.start)
      hrange with ⟨accum, hok, haccum, hhits⟩
    refine ⟨[(searchResult, accum)], by simp [entryAddRange, hok], ?_, ?_⟩
    · intro e he
      rw [mem_singleton.mp he]
      exact haccum
    · intro key sr
      by_cases hsr : searchResult = sr <;> simp [assigned, hhits, hsr]
  | cons head rest ih =>
    rcases head with ⟨sr0, accum0⟩
    have hrest : forall e, e ∈ rest -> e.2.EndsBy range.start :=
      fun e he => hends e (by simp [he])
    by_cases heq : sr0 = searchResult
    · rcases KeySpaceAccum.addRange_spec (hends (sr0, accum0) (by simp)) hrange
        with ⟨accum, hok, haccum, hhits⟩
      refine ⟨(sr0, accum) :: rest, by simp [entryAddRange, heq, hok], ?_, ?_⟩
      · exact forall_mem_cons.mpr ⟨haccum, fun e he => (hrest e he).mono (le_of_lt hrange)⟩
      · intro key sr
        by_cases hsr : searchResult = sr
        · simp [assigned, hhits]
          lia
        · simp [assigned, heq, hsr]
    · rcases ih hrest with ⟨found', hok, hends', hassigned⟩
      refine ⟨(sr0, accum0) :: found', by simp [entryAddRange, heq, hok], ?_, ?_⟩
      · exact forall_mem_cons.mpr ⟨(hends (sr0, accum0) (by simp)).mono (le_of_lt hrange), hends'⟩
      · intro key sr
        have htail := hassigned key sr
        simp only [assigned, map_cons, sum_cons] at htail ⊢
        lia

/-- The result is right for the keys of the range below the sweep. -/
structure UpTo (choice : Key -> Option SearchResult) (keyRange : Range Key)
    (r : RangeSearchResult) (sweep : Key) : Prop where
  ends : forall e, e ∈ r.found -> e.2.EndsBy sweep
  assigned : forall k, k.Fits -> k ∈ keyRange -> forall sr,
    r.assigned k sr = if k < sweep ∧ choice k = some sr then 1 else 0

section UpTo

variable {choice : Key -> Option SearchResult} {keyRange : Range Key}
variable {r : RangeSearchResult} {sweep stop : Key}

theorem upTo_new : UpTo choice keyRange new keyRange.start where
  ends := fun e he => by cases he
  assigned := by
    intro k _ hk sr
    have hnot : Not (k < keyRange.start) := not_lt.mpr hk.1
    simp [RangeSearchResult.assigned, new, hnot]

theorem UpTo.skip (h : UpTo choice keyRange r sweep) (hle : sweep ≤ stop)
    (hnone : forall k, k.Fits -> sweep ≤ k -> k < stop -> choice k = none) :
    UpTo choice keyRange r stop where
  ends := fun e he => (h.ends e he).mono hle
  assigned := by
    intro k hfits hk sr
    rw [h.assigned k hfits hk sr]
    by_cases hlow : k < sweep
    · simp [hlow, hlow.trans_le hle]
    · by_cases hhigh : k < stop
      · simp [hnone k hfits (not_lt.mp hlow) hhigh]
      · simp [hlow, hhigh]

theorem UpTo.addRange (h : UpTo choice keyRange r sweep) (hlt : sweep < stop)
    {searchResult : SearchResult}
    (hchoice : forall k, k.Fits -> sweep ≤ k -> k < stop ->
      choice k = some searchResult) :
    exists r', r.addRange searchResult ⟨sweep, stop⟩ = .ok r' ∧
      UpTo choice keyRange r' stop := by
  rcases @entryAddRange_spec searchResult ⟨sweep, stop⟩ r.found h.ends hlt with
    ⟨found', hok, hends, hassigned⟩
  refine ⟨⟨found'⟩, by simp [RangeSearchResult.addRange, hok], hends, ?_⟩
  intro k hfits hk sr
  rw [hassigned k sr]
  rw [h.assigned k hfits hk sr]
  simp only [Range.mem_def]
  by_cases hlow : k < sweep
  · simp [hlow, hlow.trans hlt]
  · by_cases hhigh : k < stop
    · simp [hhigh, not_lt.mp hlow, hchoice k hfits (not_lt.mp hlow) hhigh]
    · simp [hlow, hhigh]

end UpTo

end RangeSearchResult

/-!
## The sweep

The collector tracks two functions of the key, the delta and the image on top.
At the sweep its current layers are their values, and the remaining changes give
their values further up.
-/

namespace RangeSearchCollector

open LayerCoverage

/-- The current layers and the remaining changes, seen from the sweep. -/
structure Tracks (c : RangeSearchCollector)
    (deltaAt imageAt : Int -> Option PersistentLayerDesc) (sweep : Key) :
    Prop where
  delta : ChangesOf deltaAt ⟨(sweep.packI128 : Int), (c.keyRange.stop.packI128 : Int)⟩
    c.currentDelta c.deltaCoverage
  image : ChangesOf imageAt ⟨(sweep.packI128 : Int), (c.keyRange.stop.packI128 : Int)⟩
    c.currentImage c.imageCoverage
  deltaFits : forall e, e ∈ c.deltaCoverage ->
    exists k : Key, k.Fits ∧ e.1 = (k.packI128 : Int)
  imageFits : forall e, e ∈ c.imageCoverage ->
    exists k : Key, k.Fits ∧ e.1 = (k.packI128 : Int)

def Ahead (c : RangeSearchCollector) (sweep : Key) : Prop :=
  (forall e, e ∈ c.deltaCoverage -> (sweep.packI128 : Int) < e.1) ∧
    forall e, e ∈ c.imageCoverage -> (sweep.packI128 : Int) < e.1

def SameQuery (c c' : RangeSearchCollector) : Prop :=
  c'.keyRange = c.keyRange ∧ c'.inMemoryLayer = c.inMemoryLayer ∧ c'.endLsn = c.endLsn

/-- The choice of a point search among the tracked layers. -/
def choice (c : RangeSearchCollector)
    (deltaAt imageAt : Int -> Option PersistentLayerDesc) (k : Key) :
    Option SearchResult :=
  selectCandidate (deltaAt (k.packI128 : Int)) (imageAt (k.packI128 : Int)) c.inMemoryLayer c.endLsn

section Sweep

variable {c : RangeSearchCollector} {sweep : Key}
variable {deltaAt imageAt : Int -> Option PersistentLayerDesc}

structure Advanced (c : RangeSearchCollector)
    (deltaAt imageAt : Int -> Option PersistentLayerDesc) (sweep : Key)
    (t : NextLayerType) (next : Key) (c' : RangeSearchCollector) : Prop where
  fits : next.Fits
  at_next : t.nextChangeAtKey = next
  sweep_le : sweep.packI128 ≤ next.packI128
  next_lt : next.packI128 < c.keyRange.stop.packI128
  ahead_lt : Ahead c sweep -> sweep.packI128 < next.packI128
  before : forall x : Int, (sweep.packI128 : Int) ≤ x ->
    x < (next.packI128 : Int) ->
      deltaAt x = c.currentDelta ∧ imageAt x = c.currentImage
  advance_eq : forall result : RangeSearchResult,
    ({ c with result := result } : RangeSearchCollector).advance t =
      .ok { c' with result := result }
  tracks : Tracks c' deltaAt imageAt next
  ahead : Ahead c' next
  same : SameQuery c c'
  shorter : c'.deltaCoverage.length + c'.imageCoverage.length <
    c.deltaCoverage.length + c.imageCoverage.length

variable {q : Int} {v : Option PersistentLayerDesc} {stop : Key}

variable {changes rest : List Change}

theorem le_of_head (hlist : changes = (q, v) :: rest) (hlt : forall e, e ∈ rest -> q < e.1) :
    forall e, e ∈ changes -> q ≤ e.1 := by
  subst hlist
  rintro e (_ | ⟨_, he⟩)
  · exact le_refl q
  · exact le_of_lt (hlt e he)

theorem forall_of_tail {p : Change -> Prop} (hlist : changes = (q, v) :: rest)
    (h : forall e, e ∈ changes -> p e) : forall e, e ∈ rest -> p e := by
  subst hlist
  exact forall_mem_of_forall_mem_cons h

section

variable (h : Tracks c deltaAt imageAt sweep)

include h

theorem Tracks.advanced_of {t : NextLayerType} {c' : RangeSearchCollector}
    (hdelta : forall e, e ∈ c.deltaCoverage -> q ≤ e.1)
    (himage : forall e, e ∈ c.imageCoverage -> q ≤ e.1)
    (hq : (exists e, e ∈ c.deltaCoverage ∧ e.1 = q) ∨ (exists e, e ∈ c.imageCoverage ∧ e.1 = q))
    (ht : t.nextChangeAtKey = Key.fromI128 q)
    (hadvance : forall result : RangeSearchResult,
      ({ c with result := result } : RangeSearchCollector).advance t =
        .ok { c' with result := result })
    (htracks : forall next : Key, (next.packI128 : Int) = q -> (sweep.packI128 : Int) ≤ q ->
      Tracks c' deltaAt imageAt next ∧ Ahead c' next) (hsame : SameQuery c c')
    (hshorter : c'.deltaCoverage.length + c'.imageCoverage.length <
      c.deltaCoverage.length + c.imageCoverage.length) :
    exists next, Advanced c deltaAt imageAt sweep t next c' := by
  obtain ⟨hin, next, hfits, rfl⟩ : q ∈ (⟨(sweep.packI128 : Int),
      (c.keyRange.stop.packI128 : Int)⟩ : Range Int) ∧
      exists next : Key, next.Fits ∧ q = (next.packI128 : Int) := by
    rcases hq with ⟨e, he, rfl⟩ | ⟨e, he, rfl⟩
    · exact ⟨h.delta.inside e he, h.deltaFits e he⟩
    · exact ⟨h.image.inside e he, h.imageFits e he⟩
  rcases htracks next rfl hin.1 with ⟨htracks', hahead'⟩
  refine ⟨next, hfits, ht.trans (Key.fromI128_packI128 hfits), Nat.cast_le.mp hin.1,
    Nat.cast_lt.mp hin.2, ?_, ?_, hadvance, htracks', hahead', hsame, hshorter⟩
  · intro hahead
    apply Int.ofNat_lt.mp
    rcases hq with ⟨e, he, heq⟩ | ⟨e, he, heq⟩
    · rw [← heq]
      exact hahead.1 e he
    · rw [← heq]
      exact hahead.2 e he
  · intro x hx hxq
    have hxin : x ∈ (⟨(sweep.packI128 : Int), (c.keyRange.stop.packI128 : Int)⟩ : Range Int) :=
      ⟨hx, hxq.trans hin.2⟩
    exact ⟨h.delta.eq_value hxin (fun e he => hxq.trans_le (hdelta e he)),
      h.image.eq_value hxin (fun e he => hxq.trans_le (himage e he))⟩

theorem Tracks.advance_delta (hlist : c.deltaCoverage = (q, v) :: rest)
    (himage : forall e, e ∈ c.imageCoverage -> q < e.1) :
    exists next c', Advanced c deltaAt imageAt sweep (.delta q) next c' := by
  have hpop := (hlist ▸ h.delta).pop
  refine exists_comm.mp ⟨{ c with deltaCoverage := rest, currentDelta := v }, h.advanced_of
    (le_of_head hlist hpop.2) (fun e he => le_of_lt (himage e he))
    (.inl ⟨(q, v), by simp [hlist], rfl⟩) rfl ?_ ?_ ⟨rfl, rfl, rfl⟩ ?_⟩
  · intro result
    simp [advance, hlist]
  · rintro next rfl hsweep
    exact ⟨⟨hpop.1, h.image.shift hsweep himage, forall_of_tail hlist h.deltaFits, h.imageFits⟩,
      hpop.2, himage⟩
  · simp [hlist]

theorem Tracks.advance_image (hlist : c.imageCoverage = (q, v) :: rest)
    (hdelta : forall e, e ∈ c.deltaCoverage -> q < e.1) :
    exists next c', Advanced c deltaAt imageAt sweep (.image q) next c' := by
  have hpop := (hlist ▸ h.image).pop
  refine exists_comm.mp ⟨{ c with imageCoverage := rest, currentImage := v }, h.advanced_of
    (fun e he => le_of_lt (hdelta e he)) (le_of_head hlist hpop.2)
    (.inr ⟨(q, v), by simp [hlist], rfl⟩) rfl ?_ ?_ ⟨rfl, rfl, rfl⟩ ?_⟩
  · intro result
    simp [advance, hlist]
  · rintro next rfl hsweep
    exact ⟨⟨h.delta.shift hsweep hdelta, hpop.1, h.deltaFits, forall_of_tail hlist h.imageFits⟩,
      hdelta, hpop.2⟩
  · simp [hlist]

theorem Tracks.advance_both {w : Option PersistentLayerDesc} {deltas images : List Change}
    (hdelta : c.deltaCoverage = (q, v) :: deltas) (himage : c.imageCoverage = (q, w) :: images) :
    exists next c', Advanced c deltaAt imageAt sweep (.both q) next c' := by
  have hpopD := (hdelta ▸ h.delta).pop
  have hpopI := (himage ▸ h.image).pop
  refine exists_comm.mp ⟨{ c with
      imageCoverage := images, deltaCoverage := deltas
      currentImage := w, currentDelta := v }, h.advanced_of (le_of_head hdelta hpopD.2)
    (le_of_head himage hpopI.2) (.inl ⟨(q, v), by simp [hdelta], rfl⟩) rfl ?_ ?_
    ⟨rfl, rfl, rfl⟩ ?_⟩
  · intro result
    simp [advance, hdelta, himage]
  · rintro next rfl _
    exact ⟨⟨hpopD.1, hpopI.1, forall_of_tail hdelta h.deltaFits,
      forall_of_tail himage h.imageFits⟩, hpopD.2, hpopI.2⟩
  · simp only [hdelta, himage, length_cons]
    lia

theorem Tracks.advanced {t : NextLayerType} (ht : c.chooseNextLayerType = some t) :
    exists next c', Advanced c deltaAt imageAt sweep t next c' := by
  unfold chooseNextLayerType at ht
  split at ht
  · cases ht
  next hdelta himage =>
    cases ht
    exact h.advance_delta hdelta (by simp [himage])
  next hdelta himage =>
    cases ht
    exact h.advance_image himage (by simp [hdelta])
  next hdelta himage =>
    have hafterD := (hdelta ▸ h.delta).pop.2
    have hafterI := (himage ▸ h.image).pop.2
    split_ifs at ht with himageFirst hdeltaFirst
    · cases ht
      refine h.advance_image himage ?_
      rw [hdelta]
      exact forall_mem_cons.mpr ⟨himageFirst, fun e he => himageFirst.trans (hafterD e he)⟩
    · cases ht
      refine h.advance_delta hdelta ?_
      rw [himage]
      exact forall_mem_cons.mpr ⟨hdeltaFirst, fun e he => hdeltaFirst.trans (hafterI e he)⟩
    · cases ht
      rw [le_antisymm (not_lt.mp hdeltaFirst) (not_lt.mp himageFirst)] at himage
      exact h.advance_both hdelta himage

end

def Kinds (deltaAt imageAt : Int -> Option PersistentLayerDesc) : Prop :=
  (forall x d, deltaAt x = some d -> d.isDelta = true) ∧
    forall x d, imageAt x = some d -> d.isDelta = false

def Constant (c : RangeSearchCollector)
    (deltaAt imageAt : Int -> Option PersistentLayerDesc) (sweep stop : Key) :
    Prop :=
  forall x : Int, (sweep.packI128 : Int) ≤ x -> x < (stop.packI128 : Int) ->
    deltaAt x = c.currentDelta ∧ imageAt x = c.currentImage

theorem Constant.choice_eq (h : Constant c deltaAt imageAt sweep stop) (hsweep : sweep.Fits)
    (hstop : stop.Fits) {k : Key} (hk : k.Fits) (hle : sweep ≤ k) (hlt : k < stop) :
    choice c deltaAt imageAt k =
      selectCandidate c.currentDelta c.currentImage c.inMemoryLayer c.endLsn := by
  have hx := h (k.packI128 : Int) (Nat.cast_le.mpr ((Key.packI128_le_iff hsweep hk).mpr hle))
    (Nat.cast_lt.mpr ((Key.packI128_lt_iff hk hstop).mpr hlt))
  unfold choice
  rw [hx.1, hx.2]

theorem choice_congr (deltaAt imageAt : Int -> Option PersistentLayerDesc)
    {c' : RangeSearchCollector} (h : SameQuery c c') :
    choice c' deltaAt imageAt = choice c deltaAt imageAt := by
  unfold choice
  rw [h.2.1, h.2.2]

theorem selectLayer_eq_ok (hkinds : Kinds deltaAt imageAt)
    (h : Constant c deltaAt imageAt sweep stop) (hsweep : sweep.Fits) (hstop : stop.Fits)
    (hlt : sweep < stop) :
    selectLayer c.currentDelta c.currentImage c.inMemoryLayer c.endLsn =
      .ok (selectCandidate c.currentDelta c.currentImage c.inMemoryLayer c.endLsn) := by
  have hx := h (sweep.packI128 : Int) (le_refl _)
    (Nat.cast_lt.mpr ((Key.packI128_lt_iff hsweep hstop).mpr hlt))
  exact selectLayer_of_kinds (fun d hd => hkinds.1 _ d (hx.1.trans hd))
    (fun d hd => hkinds.2 _ d (hx.2.trans hd)) _ _

theorem padRange_of_none (h : c.inMemoryLayer = none) (range : Range Key) :
    c.padRange range = .ok c := by
  unfold padRange
  rw [h]
  split_ifs <;> rfl

theorem padRange_of_some {i : InMemoryLayerDesc} {range : Range Key}
    {result : RangeSearchResult} (h : c.inMemoryLayer = some i)
    (hne : range.isEmpty = false)
    (hok : c.result.addRange (selectInMemory i) range = .ok result) :
    c.padRange range = .ok { c with result := result } := by
  unfold padRange
  rw [hne, h]
  simp only
  rw [hok]
  rfl

theorem addRange_spec (hkinds : Kinds deltaAt imageAt)
    (hconst : Constant c deltaAt imageAt sweep stop) (hsweep : sweep.Fits) (hstop : stop.Fits)
    (hlt : sweep < stop) (hres : c.result.UpTo (choice c deltaAt imageAt) c.keyRange sweep) :
    exists result, c.addRange ⟨sweep, stop⟩ = .ok { c with result := result } ∧
      result.UpTo (choice c deltaAt imageAt) c.keyRange stop := by
  have hchoice : forall k, k.Fits -> sweep ≤ k -> k < stop ->
      choice c deltaAt imageAt k = selectCandidate c.currentDelta
        c.currentImage c.inMemoryLayer c.endLsn :=
    fun k hk hle hltk => hconst.choice_eq hsweep hstop hk hle hltk
  have hselect := selectLayer_eq_ok hkinds hconst hsweep hstop hlt
  cases hsel : selectCandidate c.currentDelta c.currentImage c.inMemoryLayer c.endLsn with
  | some sr =>
    rw [hsel] at hchoice hselect
    rcases hres.addRange hlt hchoice with ⟨r', hok, hup⟩
    refine ⟨r', ?_, hup⟩
    simp only [addRange, hselect, hok, bind, Except.bind]
    rfl
  | none =>
    rw [hsel] at hchoice hselect
    -- without a choice there is no in-memory layer to pad with
    have hinmem : c.inMemoryLayer = none := by
      cases hi : c.inMemoryLayer with
      | none => rfl
      | some i =>
        rw [hi] at hsel
        cases hd : c.currentDelta <;> cases him : c.currentImage <;>
          simp [selectCandidate, hd, him] at hsel
    refine ⟨c.result, ?_, hres.skip (le_of_lt hlt) hchoice⟩
    unfold addRange
    rw [hselect]
    exact padRange_of_none hinmem ⟨sweep, stop⟩

theorem padRange_spec (hconst : Constant c deltaAt imageAt sweep stop) (hsweep : sweep.Fits)
    (hstop : stop.Fits) (hle : sweep ≤ stop) (hdelta : c.currentDelta = none)
    (himage : c.currentImage = none)
    (hres : c.result.UpTo (choice c deltaAt imageAt) c.keyRange sweep) :
    exists result, c.padRange ⟨sweep, stop⟩ = .ok { c with result := result } ∧
      result.UpTo (choice c deltaAt imageAt) c.keyRange stop := by
  have hchoice : forall k, k.Fits -> sweep ≤ k -> k < stop ->
      choice c deltaAt imageAt k = selectCandidate none none c.inMemoryLayer c.endLsn := by
    intro k hk hlek hltk
    rw [hconst.choice_eq hsweep hstop hk hlek hltk, hdelta, himage]
  by_cases hlt : sweep < stop
  · have hne : (⟨sweep, stop⟩ : Range Key).isEmpty = false :=
      Range.isEmpty_eq_false_iff.mpr hlt
    cases Option.eq_none_or_eq_some c.inMemoryLayer with
    | inl hinmem =>
      rw [hinmem] at hchoice
      exact ⟨c.result, padRange_of_none hinmem _, hres.skip hle hchoice⟩
    | inr hsome =>
      rcases hsome with ⟨i, hinmem⟩
      rw [hinmem] at hchoice
      rcases hres.addRange hlt hchoice with ⟨r', hok, hup⟩
      exact ⟨r', padRange_of_some hinmem hne hok, hup⟩
  · have heq : sweep = stop := le_antisymm hle (not_lt.mp hlt)
    refine ⟨c.result, by simp [padRange, Range.isEmpty, hlt], ?_⟩
    exact heq ▸ hres

theorem Tracks.with_result (h : Tracks c deltaAt imageAt sweep) (result : RangeSearchResult) :
    Tracks { c with result := result } deltaAt imageAt sweep :=
  { h with }

theorem Tracks.constant_of_none (h : Tracks c deltaAt imageAt sweep)
    (hnone : c.chooseNextLayerType = none) :
    Constant c deltaAt imageAt sweep c.keyRange.stop := by
  have hempty : c.deltaCoverage = [] ∧ c.imageCoverage = [] := by
    unfold chooseNextLayerType at hnone
    split at hnone
    next hdelta himage => exact ⟨hdelta, himage⟩
    · cases hnone
    · cases hnone
    · split_ifs at hnone
  intro x hx hxlt
  exact ⟨h.delta.eq_value ⟨hx, hxlt⟩ (by simp [hempty.1]),
    h.image.eq_value ⟨hx, hxlt⟩ (by simp [hempty.2])⟩

theorem collectLoop_stop (fuel : Nat) (c : RangeSearchCollector) :
    collectLoop (fuel + 1) c c.keyRange.stop = .ok c.result := by
  simp [collectLoop]

/-- The loop carries the sweep to the end of the range. -/
def LoopDone (deltaAt imageAt : Int -> Option PersistentLayerDesc) (fuel : Nat) : Prop :=
  forall (c : RangeSearchCollector) (sweep : Key),
    c.deltaCoverage.length + c.imageCoverage.length + 1 < fuel -> Tracks c deltaAt imageAt sweep ->
    Ahead c sweep -> sweep.Fits -> c.keyRange.stop.Fits -> sweep < c.keyRange.stop ->
    c.result.UpTo (choice c deltaAt imageAt) c.keyRange sweep ->
    exists r, collectLoop fuel c sweep = .ok r ∧
      r.UpTo (choice c deltaAt imageAt) c.keyRange c.keyRange.stop

theorem Advanced.collectLoop {t : NextLayerType} {next : Key} {c' : RangeSearchCollector}
    (hadv : Advanced c deltaAt imageAt sweep t next c') {fuel : Nat}
    (hloop : LoopDone deltaAt imageAt fuel)
    (hfuel : c'.deltaCoverage.length + c'.imageCoverage.length + 1 < fuel)
    (hstop : c.keyRange.stop.Fits) {r : RangeSearchResult}
    (hup : r.UpTo (choice c deltaAt imageAt) c.keyRange next) :
    exists r', (({ c with result := r } : RangeSearchCollector).advance t >>= fun c2 =>
        collectLoop fuel c2 next) = .ok r' ∧
      r'.UpTo (choice c deltaAt imageAt) c.keyRange c.keyRange.stop := by
  have hlt := (Key.packI128_lt_iff hadv.fits hstop).mp hadv.next_lt
  rw [hadv.advance_eq r]
  rw [← choice_congr deltaAt imageAt hadv.same, ← hadv.same.1] at hup ⊢
  rw [← hadv.same.1] at hstop hlt
  exact hloop { c' with result := r } next hfuel (hadv.tracks.with_result r) hadv.ahead
    hadv.fits hstop hlt hup

theorem collectLoop_spec (hkinds : Kinds deltaAt imageAt) (fuel : Nat) :
    LoopDone deltaAt imageAt fuel := by
  -- induction on the fuel: every iteration but the last consumes a change
  induction fuel with
  | zero =>
    intro c sweep hfuel
    lia
  | succ fuel ih =>
    intro c sweep hfuel htracks hahead hsweep hstop hlt hres
    cases ht : c.chooseNextLayerType with
    | none =>
      have hconst := htracks.constant_of_none ht
      rcases addRange_spec hkinds hconst hsweep hstop hlt hres with
        ⟨r, hok, hup⟩
      refine ⟨r, ?_, hup⟩
      simp only [RangeSearchCollector.collectLoop, hlt, ht]
      rw [hok, show fuel = fuel - 1 + 1 by lia]
      exact collectLoop_stop (fuel - 1) { c with result := r }
    | some t =>
      rcases htracks.advanced ht with ⟨next, c', hadv⟩
      have hltNext : sweep < next :=
        (Key.packI128_lt_iff hsweep hadv.fits).mp (hadv.ahead_lt hahead)
      rcases addRange_spec hkinds hadv.before hsweep hadv.fits hltNext hres with
        ⟨r, hok, hup⟩
      rcases hadv.collectLoop ih (by have := hadv.shorter; lia) hstop hup with
        ⟨r', hok', hup'⟩
      refine ⟨r', ?_, hup'⟩
      simp only [RangeSearchCollector.collectLoop, hlt, ht, hadv.at_next]
      rw [hok]
      exact hok'

theorem collect_spec (hkinds : Kinds deltaAt imageAt)
    (htracks : Tracks c deltaAt imageAt c.keyRange.start)
    (hstart : c.keyRange.start.Fits) (hstop : c.keyRange.stop.Fits)
    (hne : c.keyRange.start < c.keyRange.stop)
    (hdelta : c.currentDelta = none) (himage : c.currentImage = none)
    (hnew : c.result = RangeSearchResult.new) :
    exists r, c.collect = .ok r ∧
      r.UpTo (choice c deltaAt imageAt) c.keyRange c.keyRange.stop := by
  have hres : c.result.UpTo (choice c deltaAt imageAt) c.keyRange c.keyRange.start := by
    rw [hnew]
    exact RangeSearchResult.upTo_new
  cases ht : c.chooseNextLayerType with
  | none =>
    have hconst := htracks.constant_of_none ht
    rcases padRange_spec hconst hstart hstop (le_of_lt hne) hdelta himage hres with ⟨r, hok, hup⟩
    refine ⟨r, ?_, hup⟩
    have hok' : c.padRange c.keyRange = .ok { c with result := r } := hok
    simp [collect, ht, hok']
  | some t =>
    rcases htracks.advanced ht with ⟨next, c', hadv⟩
    have hltStop : next < c.keyRange.stop :=
      (Key.packI128_lt_iff hadv.fits hstop).mp hadv.next_lt
    have hle : c.keyRange.start ≤ next :=
      (Key.packI128_le_iff hstart hadv.fits).mp hadv.sweep_le
    rcases padRange_spec hadv.before hstart hadv.fits hle hdelta himage hres with
      ⟨r, hok, hup⟩
    rcases hadv.collectLoop (collectLoop_spec hkinds
      (c.deltaCoverage.length + c.imageCoverage.length + 2))
      (by have := hadv.shorter; lia) hstop hup with ⟨r', hok', hup'⟩
    refine ⟨r', ?_, hup'⟩
    simp only [collect, ht, hadv.at_next, if_neg (not_le.mpr hltStop)]
    rw [hok]
    exact hok'

end Sweep

end RangeSearchCollector

/-!
## Agreement with the point search
-/

namespace LayerMap

open RangeSearchCollector

/-- Every layer of the map ends at keys that the packed index tells apart. -/
def FittingLayers (layers : List PersistentLayerDesc) : Prop :=
  forall d, d ∈ layers -> d.keyRange.start.Fits ∧ d.keyRange.stop.Fits

instance decidableFittingLayers (layers : List PersistentLayerDesc) :
    Decidable (FittingLayers layers) :=
  inferInstanceAs (Decidable (forall d, d ∈ layers -> _))

theorem FittingLayers.packed {layers : List PersistentLayerDesc} (h : FittingLayers layers) :
    PackedLayers layers :=
  fun d hd => ⟨Or.inl (h d hd).1, Or.inl (h d hd).2⟩

variable {m : LayerMap} {layers : List PersistentLayerDesc} {keyRange : Range Key}

variable {version : LayerCoverageTuple PersistentLayerDesc} {endLsn : Lsn}

section

variable (hinv : Inv m) (hlayers : m.iterHistoricLayers = .ok layers)
  (hpacked : PackedLayers layers)

include hinv hlayers hpacked

theorem nodesAt_getVersion {lsn : Lsn}
    (hversion : m.historic.historicCoverage.getVersion lsn = some version) (isImage : Bool) :
    (version.coverage isImage).NodesAt
      (fun x => exists k : Key, k.Fits ∧ x = (k.packI128 : Int)) := by
  rcases iterHistoricLayers_mem hlayers with ⟨hempty, hmem⟩
  have hcur := BufferedHistoricLayerCoverage.current_of_buffer_empty hempty
  rw [hinv.historic.built, HistoricLayerCoverage.getVersion_build
    (BufferedHistoricLayerCoverage.startOrder_entries m.historic.layers)]
    at hversion
  split_ifs at hversion
  cases hversion
  apply HistoricLayerCoverage.nodesAt_build
  intro e he
  have hget : m.historic.layers.get? e.1 = some e.2 :=
    OrdMap.get?_eq_some_iff.mpr (mem_filter.mp he).1
  have hd := hpacked e.2 ((hmem e.2).mpr ⟨e.1, hget⟩)
  rw [ofDesc_key hd.1 hd.2 (hinv.keyed e.1 e.2 ((hcur e.1).trans hget))]
  exact ⟨hd.1.packed, hd.2.packed⟩

theorem tracks_new (hversion : m.historic.historicCoverage.getVersion (endLsn - 1) =
      some version) (hstart : keyRange.start.Fits) (hstop : keyRange.stop.Fits)
    (hne : keyRange.start < keyRange.stop) (inMemoryLayer : Option InMemoryLayerDesc) :
    Tracks (RangeSearchCollector.new keyRange endLsn inMemoryLayer
        (version.deltaCoverage.rangeOverlaps
          ⟨(keyRange.start.packI128 : Int), (keyRange.stop.packI128 : Int)⟩)
        (version.imageCoverage.rangeOverlaps
          ⟨(keyRange.start.packI128 : Int), (keyRange.stop.packI128 : Int)⟩))
      (fun x => m.latest false x endLsn) (fun x => m.latest true x endLsn)
      keyRange.start := by
  have hlatest : forall isImage,
      (fun x => m.latest isImage x endLsn) = (version.coverage isImage).query := by
    intro isImage
    simp [latest, hversion]
  have hlt : (keyRange.start.packI128 : Int) < (keyRange.stop.packI128 : Int) :=
    Nat.cast_lt.mpr ((Key.packI128_lt_iff hstart hstop).mpr hne)
  rw [hlatest false, hlatest true]
  constructor
  · exact LayerCoverage.changesOf_rangeOverlaps version.deltaCoverage hlt
  · exact LayerCoverage.changesOf_rangeOverlaps version.imageCoverage hlt
  · intro e he
    exact (nodesAt_getVersion hinv hlayers hpacked hversion false).rangeOverlaps ⟨_, hstart, rfl⟩ he
  · intro e he
    exact (nodesAt_getVersion hinv hlayers hpacked hversion true).rangeOverlaps ⟨_, hstart, rfl⟩ he

end

theorem kinds_latest (hinv : Inv m) (hempty : m.historic.buffer.entries = []) (endLsn : Lsn) :
    Kinds (fun x => m.latest false x endLsn) (fun x => m.latest true x endLsn) :=
  ⟨fun _ _ h => latest_kind hinv hempty h, fun _ _ h => latest_kind hinv hempty h⟩

theorem mapToInMemoryLayer_spec (inMemoryLayer : Option InMemoryLayerDesc)
    (hne : keyRange.start < keyRange.stop) {choice : Key -> Option SearchResult}
    (hchoice : forall k, choice k = inMemoryLayer.map selectInMemory) :
    exists r, RangeSearchResult.mapToInMemoryLayer inMemoryLayer keyRange =
        .ok r ∧ r.UpTo choice keyRange keyRange.stop := by
  have hnew : RangeSearchResult.new.UpTo choice keyRange keyRange.start :=
    RangeSearchResult.upTo_new
  cases inMemoryLayer with
  | none =>
    refine ⟨_, rfl, hnew.skip (le_of_lt hne) ?_⟩
    intro k _ _ _
    exact hchoice k
  | some i =>
    rcases hnew.addRange hne (fun k _ _ _ => hchoice k) with ⟨r, hok, hup⟩
    refine ⟨r, ?_, hup⟩
    rw [← hok]
    unfold RangeSearchResult.mapToInMemoryLayer RangeSearchResult.addRange
    simp [RangeSearchResult.new, RangeSearchResult.entryAddRange]

theorem rangeSearch_spec (hinv : Inv m) (hlayers : m.iterHistoricLayers = .ok layers)
    (hfits : FittingLayers layers) (hstart : keyRange.start.Fits) (hstop : keyRange.stop.Fits)
    (hne : keyRange.start < keyRange.stop) (hend : 0 < endLsn) :
    exists r, m.rangeSearch keyRange endLsn = .ok r ∧
      r.UpTo (fun k => selectCandidate
          (m.latest false (k.packI128 : Int) endLsn)
          (m.latest true (k.packI128 : Int) endLsn)
          (m.searchInMemoryLayer endLsn) endLsn) keyRange keyRange.stop := by
  have hempty := (iterHistoricLayers_mem hlayers).1
  unfold rangeSearch
  rw [versionBelow_eq hlayers hend]
  cases hversion : m.historic.historicCoverage.getVersion (endLsn - 1) with
  | none =>
    apply mapToInMemoryLayer_spec (m.searchInMemoryLayer endLsn) hne
    intro k
    cases hmem : m.searchInMemoryLayer endLsn <;> simp [latest, hversion, selectCandidate]
  | some version =>
    have htracks := tracks_new hinv hlayers hfits.packed hversion hstart hstop hne
      (m.searchInMemoryLayer endLsn)
    rcases collect_spec (kinds_latest hinv hempty endLsn) htracks hstart hstop
      hne rfl rfl rfl with ⟨r, hok, hup⟩
    refine ⟨r, ?_, hup⟩
    simp only [hstart.toI128_eq, hstop.toI128_eq]
    exact hok

/--
A range search gives every key of the range to the layer that a search of the
key returns, once, and to no other layer.
-/
theorem rangeSearch_agrees_search {m : LayerMap} (hreach : m.Reachable)
    {layers : List PersistentLayerDesc}
    (hlayers : m.iterHistoricLayers = .ok layers) (hfits : FittingLayers layers)
    {keyRange : Range Key} (hstart : keyRange.start.Fits)
    (hstop : keyRange.stop.Fits) (hne : keyRange.start < keyRange.stop)
    {endLsn : Lsn} (hend : 0 < endLsn) :
    exists r, m.rangeSearch keyRange endLsn = .ok r ∧
      forall k, k.Fits -> k ∈ keyRange ->
        exists found, m.search k endLsn = .ok found ∧
          forall sr, r.assigned k sr = if found = some sr then 1 else 0 := by
  rcases rangeSearch_spec hreach.inv hlayers hfits hstart hstop hne hend with
    ⟨r, hok, hup⟩
  refine ⟨r, hok, ?_⟩
  intro k hkey hmem
  refine ⟨_, search_eq_selectCandidate hreach.inv hlayers hkey hend, ?_⟩
  intro sr
  rw [hup.assigned k hkey hmem sr]
  simp [hmem.2]

theorem rangeSearch_agrees_search_stackedMap :
    exists r, stackedMap.rangeSearch ⟨sampleKey 2, sampleKey 12⟩ 130 = .ok r ∧
      forall k, k.Fits -> k ∈ (⟨sampleKey 2, sampleKey 12⟩ : Range Key) ->
        exists found, stackedMap.search k 130 = .ok found ∧
          forall sr, r.assigned k sr = if found = some sr then 1 else 0 := by
  have hlayers : stackedMap.iterHistoricLayers = .ok [sampleDelta, sampleImage] := rfl
  exact rangeSearch_agrees_search ⟨stackedOps, rfl⟩ hlayers (by decide) (by decide) (by decide)
    (by decide) (by decide)

end LayerMap

end Pageserver
end OpenNeon

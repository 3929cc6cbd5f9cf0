import OpenNeon.Base.Run
import OpenNeon.Pageserver.CoverageMeaning

/-!
# The layer map

The layers of one timeline: the open in-memory layer, the frozen in-memory
layers from oldest to newest, and the historic layers on disk.  A search picks
the layer that a read of a key below an LSN continues in, and the LSN floor down
to which that layer may be used.
-/

namespace OpenNeon
namespace Pageserver

open Base BufferedHistoricLayerCoverage List

/-!
## Layer descriptions
-/

def MAX_LSN : Lsn := 2 ^ 64 - 1

/-- A layer on disk.  An image holds the pages as of one LSN. -/
structure PersistentLayerDesc where
  keyRange : Range Key
  lsnRange : Range Lsn
  isDelta : Bool
  fileSize : Nat
  keyRange_nonempty : keyRange.start < keyRange.stop
  lsnRange_nonempty : lsnRange.start < lsnRange.stop
  image_lsnRange : isDelta = false -> lsnRange.stop = lsnRange.start + 1
  deriving DecidableEq

/-- A layer in memory; its end is set when it is frozen. -/
structure InMemoryLayer where
  startLsn : Lsn
  endLsn : Option Lsn
  lsnRange_nonempty : startLsn < endLsn.getD MAX_LSN

def InMemoryLayer.getLsnRange (l : InMemoryLayer) : Range Lsn :=
  { start := l.startLsn, stop := l.endLsn.getD MAX_LSN }

inductive InMemoryLayerHandle where
  | openLayer
  | frozen (idx : Nat)
  deriving DecidableEq

structure InMemoryLayerDesc where
  handle : InMemoryLayerHandle
  lsnRange : Range Lsn
  deriving DecidableEq

inductive ReadableLayerWeak where
  | persistentLayer (desc : PersistentLayerDesc)
  | inMemoryLayer (desc : InMemoryLayerDesc)
  deriving DecidableEq

structure SearchResult where
  layer : ReadableLayerWeak
  lsnFloor : Lsn
  deriving DecidableEq

def LayerKey.ofDesc (layer : PersistentLayerDesc) : Except Panic LayerKey := do
  let start <- layer.keyRange.start.toI128
  let stop <- layer.keyRange.stop.toI128
  return { key := ⟨start, stop⟩, lsn := layer.lsnRange,
           isImage := !layer.isDelta }

/-!
## The map and its updates
-/

structure LayerMap where
  openLayer : Option InMemoryLayer
  frozenLayers : List InMemoryLayer
  historic : BufferedHistoricLayerCoverage PersistentLayerDesc
  l0DeltaLayers : List PersistentLayerDesc

namespace LayerMap

def default : LayerMap :=
  { openLayer := none
    frozenLayers := []
    historic := BufferedHistoricLayerCoverage.new
    l0DeltaLayers := [] }

def isL0 (keyRange : Range Key) (isDeltaLayer : Bool) : Bool :=
  isDeltaLayer && keyRange == ⟨Key.MIN, Key.MAX⟩

def sameKey (a b : PersistentLayerDesc) : Bool :=
  a.keyRange == b.keyRange && a.lsnRange == b.lsnRange && a.isDelta == b.isDelta

def insertHistoricNoflush (m : LayerMap) (layerDesc : PersistentLayerDesc) :
    Except Panic LayerMap := do
  let l0DeltaLayers :=
    if isL0 layerDesc.keyRange layerDesc.isDelta then
      m.l0DeltaLayers ++ [layerDesc]
    else m.l0DeltaLayers
  let layerKey <- LayerKey.ofDesc layerDesc
  return { m with
    l0DeltaLayers := l0DeltaLayers
    historic := m.historic.insert layerKey layerDesc }

def removeHistoricNoflush (m : LayerMap) (layerDesc : PersistentLayerDesc) :
    Except Panic LayerMap := do
  let layerKey <- LayerKey.ofDesc layerDesc
  let historic := m.historic.remove layerKey
  if isL0 layerDesc.keyRange layerDesc.isDelta then
    let l0DeltaLayers :=
      m.l0DeltaLayers.filter (fun other => !sameKey other layerDesc)
    if l0DeltaLayers.length + 1 = m.l0DeltaLayers.length then
      return { m with l0DeltaLayers := l0DeltaLayers, historic := historic }
    else throw .l0LayerNotFound
  else return { m with historic := historic }

def flushUpdates (m : LayerMap) : Except Panic LayerMap := do
  let historic <- m.historic.rebuild
  return { m with historic := historic }

def iterHistoricLayers (m : LayerMap) : Except Panic (List PersistentLayerDesc) :=
  m.historic.iter

/-- One call on the map; the in-memory layers are set by its owner. -/
inductive Op where
  | insertHistoric (layerDesc : PersistentLayerDesc)
  | removeHistoric (layerDesc : PersistentLayerDesc)
  | flushUpdates
  | setInMemory (openLayer : Option InMemoryLayer)
      (frozenLayers : List InMemoryLayer)

def step (m : LayerMap) : Op -> Except Panic LayerMap
  | .insertHistoric layerDesc => m.insertHistoricNoflush layerDesc
  | .removeHistoric layerDesc => m.removeHistoricNoflush layerDesc
  | .flushUpdates => m.flushUpdates
  | .setInMemory openLayer frozenLayers =>
    .ok { m with openLayer := openLayer, frozenLayers := frozenLayers }

def Reachable (m : LayerMap) : Prop :=
  exists ops, List.foldlM step default ops = .ok m

/-!
## Search
-/

def isBelow (below : Lsn) (l : InMemoryLayer) : Bool :=
  decide (l.getLsnRange.start < below)

def searchFrozenLayer (below : Lsn) :
    List InMemoryLayer -> Nat -> Option InMemoryLayerDesc
  | [], _ => none
  | l :: rest, idx =>
    match searchFrozenLayer below rest (idx + 1) with
    | some desc => some desc
    | none =>
      if isBelow below l then
        some { handle := .frozen idx, lsnRange := l.getLsnRange }
      else none

def searchInMemoryLayer (m : LayerMap) (below : Lsn) : Option InMemoryLayerDesc :=
  match m.openLayer with
  | some l =>
    if isBelow below l then
      some { handle := .openLayer, lsnRange := l.getLsnRange }
    else searchFrozenLayer below m.frozenLayers 0
  | none => searchFrozenLayer below m.frozenLayers 0

def selectWhole (layer : PersistentLayerDesc) : SearchResult :=
  { layer := .persistentLayer layer, lsnFloor := layer.lsnRange.start }

def selectInMemory (inmem : InMemoryLayerDesc) : SearchResult :=
  { layer := .inMemoryLayer inmem, lsnFloor := inmem.lsnRange.start }

variable (delta image : PersistentLayerDesc)

/-- A delta and an image: the delta is used down to the image below it. -/
def selectDeltaImage (endLsn : Lsn) : SearchResult :=
  let imgLsn := image.lsnRange.start
  let imageIsNewer := decide (delta.lsnRange.stop ≤ image.lsnRange.stop)
  let imageExactMatch := decide (imgLsn + 1 = endLsn)
  if imageIsNewer || imageExactMatch then
    { layer := .persistentLayer image, lsnFloor := imgLsn }
  else
    { layer := .persistentLayer delta
      lsnFloor := max delta.lsnRange.start (image.lsnRange.start + 1) }

def selectImageInMemory (image : PersistentLayerDesc)
    (inmem : InMemoryLayerDesc) (endLsn : Lsn) : SearchResult :=
  let imgLsn := image.lsnRange.start
  let imageIsNewer := decide (inmem.lsnRange.stop ≤ image.lsnRange.stop)
  let imageExactMatch := decide (imgLsn + 1 = endLsn)
  if imageIsNewer || imageExactMatch then
    { layer := .persistentLayer image, lsnFloor := imgLsn }
  else
    { layer := .inMemoryLayer inmem
      lsnFloor := max inmem.lsnRange.start (image.lsnRange.start + 1) }

/-- A delta and an in-memory layer: the in-memory layer is used down to the delta. -/
def selectDeltaInMemory (delta : PersistentLayerDesc)
    (inmem : InMemoryLayerDesc) (endLsn : Lsn) : SearchResult :=
  let deltaEnd := delta.lsnRange.stop
  let deltaIsNewer := decide (inmem.lsnRange.stop ≤ deltaEnd)
  let deltaExactMatch := decide (deltaEnd = endLsn)
  if deltaIsNewer || deltaExactMatch then
    { layer := .persistentLayer delta, lsnFloor := delta.lsnRange.start }
  else
    { layer := .inMemoryLayer inmem
      lsnFloor := max inmem.lsnRange.start delta.lsnRange.stop }

/-- All three: the persistent choice first, then the in-memory layer against it. -/
def selectAll (inmem : InMemoryLayerDesc) (endLsn : Lsn) : SearchResult :=
  let persistentRes := selectDeltaImage delta image endLsn
  let inmemRes :=
    match persistentRes.layer with
    | .persistentLayer l =>
      if l.isDelta then selectDeltaInMemory l inmem endLsn
      else selectImageInMemory l inmem endLsn
    | .inMemoryLayer _ => persistentRes
  { layer := inmemRes.layer
    lsnFloor := max persistentRes.lsnFloor inmemRes.lsnFloor }

section

variable (deltaLayer imageLayer : Option PersistentLayerDesc)
  (inMemoryLayer : Option InMemoryLayerDesc) (endLsn : Lsn)

def selectCandidate : Option SearchResult :=
  match deltaLayer, imageLayer, inMemoryLayer with
  | none, none, none => none
  | none, some image, none => some (selectWhole image)
  | some delta, none, none => some (selectWhole delta)
  | some delta, some image, none => some (selectDeltaImage delta image endLsn)
  | none, none, some inmem => some (selectInMemory inmem)
  | none, some image, some inmem => some (selectImageInMemory image inmem endLsn)
  | some delta, none, some inmem => some (selectDeltaInMemory delta inmem endLsn)
  | some delta, some image, some inmem => some (selectAll delta image inmem endLsn)

def selectLayer : Except Panic (Option SearchResult) :=
  if !deltaLayer.all (fun l => l.isDelta) then .error .expectedDelta
  else if !imageLayer.all (fun l => !l.isDelta) then .error .expectedImage
  else .ok (selectCandidate deltaLayer imageLayer inMemoryLayer endLsn)

end

def versionBelow (m : LayerMap) (endLsn : Lsn) :
    Except Panic (Option (LayerCoverageTuple PersistentLayerDesc)) := do
  let historic <- m.historic.get
  if endLsn = 0 then throw .subtractWithOverflow
  return historic.getVersion (endLsn - 1)

def search (m : LayerMap) (key : Key) (endLsn : Lsn) : Except Panic (Option SearchResult) := do
  let inMemoryLayer := m.searchInMemoryLayer endLsn
  match <- m.versionBelow endLsn with
  | none => return inMemoryLayer.map selectInMemory
  | some version =>
    let rawKey <- key.toI128
    let latestDelta := version.deltaCoverage.query rawKey
    let latestImage := version.imageCoverage.query rawKey
    selectLayer latestDelta latestImage inMemoryLayer endLsn

theorem choice_cases {alpha : Type} {a b c d : Lsn} (x y : alpha) :
    let chosen := if decide (a ≤ b) || decide (c = d) then x else y
    ((a ≤ b ∨ c = d) ∧ chosen = x) ∨ (b < a ∧ c ≠ d ∧ chosen = y) := by
  by_cases hchoose : a ≤ b ∨ c = d
  · exact Or.inl ⟨hchoose, by simp [hchoose]⟩
  · have hne := not_or.mp hchoose
    exact Or.inr ⟨not_le.mp hne.1, hne.2, by simp [hchoose]⟩

theorem selectDeltaImage_cases (endLsn : Lsn) :
    ((delta.lsnRange.stop ≤ image.lsnRange.stop ∨ image.lsnRange.start + 1 = endLsn) ∧
      selectDeltaImage delta image endLsn = selectWhole image) ∨
    (image.lsnRange.stop < delta.lsnRange.stop ∧
      image.lsnRange.start + 1 ≠ endLsn ∧
      selectDeltaImage delta image endLsn =
        { layer := .persistentLayer delta
          lsnFloor := max delta.lsnRange.start (image.lsnRange.start + 1) }) :=
  choice_cases _ _

theorem selectImageInMemory_cases (image : PersistentLayerDesc)
    (inmem : InMemoryLayerDesc) (endLsn : Lsn) :
    ((inmem.lsnRange.stop ≤ image.lsnRange.stop ∨ image.lsnRange.start + 1 = endLsn) ∧
      selectImageInMemory image inmem endLsn = selectWhole image) ∨
    (image.lsnRange.stop < inmem.lsnRange.stop ∧
      image.lsnRange.start + 1 ≠ endLsn ∧
      selectImageInMemory image inmem endLsn =
        { layer := .inMemoryLayer inmem
          lsnFloor := max inmem.lsnRange.start (image.lsnRange.start + 1) }) :=
  choice_cases _ _

theorem selectDeltaInMemory_cases (delta : PersistentLayerDesc)
    (inmem : InMemoryLayerDesc) (endLsn : Lsn) :
    ((inmem.lsnRange.stop ≤ delta.lsnRange.stop ∨ delta.lsnRange.stop = endLsn) ∧
      selectDeltaInMemory delta inmem endLsn = selectWhole delta) ∨
    (delta.lsnRange.stop < inmem.lsnRange.stop ∧
      delta.lsnRange.stop ≠ endLsn ∧
      selectDeltaInMemory delta inmem endLsn =
        { layer := .inMemoryLayer inmem
          lsnFloor := max inmem.lsnRange.start delta.lsnRange.stop }) :=
  choice_cases _ _

/-!
## Reachable maps

Every layer of a reachable map is indexed under the key of its description, so
the coverage queries speak about the layers themselves.
-/

/-- The index is consistent, and every layer is indexed under its own key. -/
structure Inv (m : LayerMap) : Prop where
  historic : m.historic.Inv
  keyed : forall lk d, m.historic.current lk = some d ->
    LayerKey.ofDesc d = .ok lk

theorem ofDesc_lsn {d : PersistentLayerDesc} {lk : LayerKey} (h : LayerKey.ofDesc d = .ok lk) :
    lk.lsn = d.lsnRange ∧ lk.isImage = !d.isDelta := by
  rcases bind_eq_ok_iff.mp h with ⟨start, _, h1⟩
  rcases bind_eq_ok_iff.mp h1 with ⟨stop, _, h2⟩
  cases h2
  exact ⟨rfl, rfl⟩

theorem inv_default : Inv default where
  historic := inv_new
  keyed := by
    intro lk d h
    simp [default, current, BufferedHistoricLayerCoverage.new] at h

variable {m : LayerMap}

theorem inv_of_historic_step {m' : LayerMap} (hinv : Inv m)
    (op : BufferedHistoricLayerCoverage.Op PersistentLayerDesc)
    (hop : forall lk d, op = .insert lk d -> LayerKey.ofDesc d = .ok lk)
    (hstep : m.historic.step op = .ok m'.historic) : Inv m' := by
  have hlsn : forall lk d, op = .insert lk d -> lk.lsn.start < lk.lsn.stop := by
    intro lk d h
    rw [(ofDesc_lsn (hop lk d h)).1]
    exact d.lsnRange_nonempty
  rcases step_spec hinv.historic hlsn with
    ⟨b, hb, hbinv, hcur⟩
  rw [hstep] at hb
  cases hb
  refine ⟨hbinv, ?_⟩
  intro lk d h
  rw [hcur] at h
  cases op with
  | insert layerKey value =>
    by_cases hlk : lk = layerKey
    · rw [hlk] at h ⊢
      simp only [applyOp, Function.update_self, Option.some.injEq] at h
      exact hop layerKey d (by rw [h])
    · simp only [applyOp, Function.update_of_ne hlk] at h
      exact hinv.keyed lk d h
  | remove layerKey =>
    by_cases hlk : lk = layerKey
    · rw [hlk] at h
      simp [applyOp] at h
    · simp only [applyOp, Function.update_of_ne hlk] at h
      exact hinv.keyed lk d h
  | rebuild => exact hinv.keyed lk d h

theorem inv_step {m' : LayerMap} {op : Op} (hinv : Inv m) (hstep : m.step op = .ok m') :
    Inv m' := by
  cases op with
  | insertHistoric d =>
    rcases bind_eq_ok_iff.mp hstep with ⟨lk, hlk, hret⟩
    cases hret
    refine inv_of_historic_step hinv (.insert lk d) ?_ rfl
    intro lk' d' h
    cases h
    exact hlk
  | removeHistoric d =>
    rcases bind_eq_ok_iff.mp hstep with ⟨lk, hlk, hret⟩
    have hhist : m'.historic = m.historic.remove lk := by
      simp only at hret
      split_ifs at hret
      · cases hret
        rfl
      · cases hret
        rfl
    refine inv_of_historic_step hinv (.remove lk) ?_ ?_
    · intro lk' d' h
      cases h
    · rw [hhist]
      rfl
  | flushUpdates =>
    rcases bind_eq_ok_iff.mp hstep with ⟨b, hb, hret⟩
    cases hret
    refine inv_of_historic_step hinv .rebuild ?_ hb
    intro lk' d' h
    cases h
  | setInMemory openLayer frozenLayers =>
    cases hstep
    exact ⟨hinv.historic, hinv.keyed⟩

theorem Reachable.inv (h : m.Reachable) : Inv m := by
  rcases h with ⟨ops, hrun⟩
  exact foldlM_invariant (fun s a s' hs hstep => inv_step hs hstep) inv_default hrun

/-!
## What the candidates of a search are
-/

def HasInMemory (m : LayerMap) (desc : InMemoryLayerDesc) : Prop :=
  (exists l, m.openLayer = some l ∧ desc = { handle := .openLayer, lsnRange := l.getLsnRange }) ∨
  (exists idx l, m.frozenLayers[idx]? = some l ∧
    desc = { handle := .frozen idx, lsnRange := l.getLsnRange })

/-- Frozen layers from oldest to newest, then the open layer, without overlap. -/
def InMemoryOrdered (m : LayerMap) : Prop :=
  (m.frozenLayers ++ m.openLayer.toList).Pairwise
    (fun a b => a.getLsnRange.stop ≤ b.getLsnRange.start)

theorem hasInMemory_nonempty {desc : InMemoryLayerDesc} (h : m.HasInMemory desc) :
    desc.lsnRange.start < desc.lsnRange.stop := by
  rcases h with ⟨l, _, rfl⟩ | ⟨idx, l, _, rfl⟩
  · exact l.lsnRange_nonempty
  · exact l.lsnRange_nonempty

/-- The layers that start at or above the LSN are passed over, from the newest one down. -/
theorem searchFrozenLayer_spec (below : Lsn) (layers : List InMemoryLayer) (idx : Nat) :
    match searchFrozenLayer below layers idx with
    | none => forall l, l ∈ layers -> Not (l.getLsnRange.start < below)
    | some desc => exists older l newer, layers = older ++ l :: newer ∧
        l.getLsnRange.start < below ∧
        desc = { handle := .frozen (idx + older.length), lsnRange := l.getLsnRange } ∧
        forall x, x ∈ newer -> Not (x.getLsnRange.start < below) := by
  induction layers generalizing idx with
  | nil => simp [searchFrozenLayer]
  | cons first rest ih =>
    have hrest := ih (idx + 1)
    unfold searchFrozenLayer
    cases hfound : searchFrozenLayer below rest (idx + 1) with
    | some found =>
      simp only [hfound] at hrest
      rcases hrest with ⟨older, l, newer, rfl, hbelow, rfl, hlater⟩
      exact ⟨first :: older, l, newer, rfl, hbelow, by simp; lia, hlater⟩
    | none =>
      simp only [hfound] at hrest
      by_cases hfirst : first.getLsnRange.start < below
      · simp only [isBelow, hfirst]
        exact ⟨[], first, rest, rfl, hfirst, rfl, hrest⟩
      · simp only [isBelow, hfirst]
        exact forall_mem_cons.mpr ⟨hfirst, hrest⟩

/-- The newest of the in-memory layers that start below an LSN. -/
def NewestBelow (m : LayerMap) (below : Lsn) : Option InMemoryLayerDesc -> Prop
  | none => forall d, m.HasInMemory d -> Not (d.lsnRange.start < below)
  | some desc => m.HasInMemory desc ∧ desc.lsnRange.start < below ∧
      forall d, m.HasInMemory d -> d.lsnRange.start < below ->
        d = desc ∨ d.lsnRange.stop ≤ desc.lsnRange.start

variable {below : Lsn}

theorem newestBelow_frozen (hord : m.InMemoryOrdered)
    (hopen : forall l, m.openLayer = some l -> Not (l.getLsnRange.start < below)) :
    m.NewestBelow below (searchFrozenLayer below m.frozenLayers 0) := by
  have hspec := searchFrozenLayer_spec below m.frozenLayers 0
  cases hfound : searchFrozenLayer below m.frozenLayers 0 with
  | none =>
    simp only [hfound] at hspec
    rintro d (⟨l, hl, rfl⟩ | ⟨i, l, hl, rfl⟩)
    · exact hopen l hl
    · exact hspec l (mem_of_getElem? hl)
  | some desc =>
    simp only [hfound] at hspec
    rcases hspec with ⟨older, l, newer, hsplit, hbelow, rfl, hlater⟩
    have hfrozen := (pairwise_append.mp hord).1
    rw [hsplit] at hfrozen
    refine ⟨Or.inr ⟨older.length, l, by simp [hsplit], by simp⟩, hbelow, ?_⟩
    rintro d (⟨x, hx, rfl⟩ | ⟨j, x, hx, rfl⟩) hdbelow
    · exact absurd hdbelow (hopen x hx)
    · rw [hsplit, getElem?_append] at hx
      split_ifs at hx with hj
      · exact Or.inr ((pairwise_append.mp hfrozen).2.2 x (mem_of_getElem? hx) l (by simp))
      · cases hat : j - older.length with
        | zero =>
          rw [hat] at hx
          cases hx
          have hj : j = 0 + older.length := by lia
          exact Or.inl (by rw [hj])
        | succ k =>
          rw [hat] at hx
          exact absurd hdbelow (hlater x (mem_of_getElem? hx))

theorem searchInMemoryLayer_spec (hord : m.InMemoryOrdered) (below : Lsn) :
    m.NewestBelow below (m.searchInMemoryLayer below) := by
  unfold searchInMemoryLayer
  cases hopen : m.openLayer with
  | none => exact newestBelow_frozen hord (by simp [hopen])
  | some l =>
    by_cases hl : l.getLsnRange.start < below
    · simp only [isBelow, hl]
      refine ⟨Or.inl ⟨l, hopen, rfl⟩, hl, ?_⟩
      rintro d (⟨x, hx, rfl⟩ | ⟨j, x, hx, rfl⟩) _
      · rw [hopen] at hx
        cases hx
        exact Or.inl rfl
      · exact Or.inr ((pairwise_append.mp hord).2.2 x (mem_of_getElem? hx) l (by simp [hopen]))
    · simp only [isBelow, hl]
      exact newestBelow_frozen hord (by simpa [hopen] using hl)

end LayerMap
end Pageserver
end OpenNeon

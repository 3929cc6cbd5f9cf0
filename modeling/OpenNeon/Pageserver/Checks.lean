import Mathlib.Data.Finset.Card
import OpenNeon.Pageserver.IndexPart
import OpenNeon.Pageserver.KeySpaceRemove

/-!
# The check of a layer map

Before it puts the outcome of a compaction in place, the page server checks that
no two delta layers overlap.  The check looks for overlaps only at layers whose LSN
range another layer's boundary splits, and never starts from a layer with a single key.
-/

namespace OpenNeon
namespace Pageserver

open Base List

namespace Checks

inductive CheckPanic where
  | keyOverflow
  | rangeStartAfterEnd
  deriving DecidableEq

def overlapsWith {alpha : Type} [LinearOrder alpha] (a b : Range alpha) : Bool :=
  !(decide (a.stop ≤ b.start) || decide (b.stop ≤ a.start))

/-- A number in upper-case hexadecimal, padded with zeros. -/
def hex (width n : Nat) : String :=
  let digits := (Nat.toDigits 16 n).map Char.toUpper
  String.ofList (List.replicate (width - digits.length) '0' ++ digits)

end Checks

open Checks

def Key.display (k : Key) : String :=
  hex 2 k.field1.toNat ++ hex 8 k.field2.toNat ++ hex 8 k.field3.toNat ++ hex 8 k.field4.toNat ++
    hex 2 k.field5.toNat ++ hex 8 k.field6.toNat

namespace DeltaLayerName

def display (layer : DeltaLayerName) : String :=
  layer.keyRange.start.display ++ "-" ++ layer.keyRange.stop.display ++ "__" ++
    hex 16 layer.lsnRange.start ++ "-" ++ hex 16 layer.lsnRange.stop

def isSingleKey (layer : DeltaLayerName) : Except CheckPanic Bool :=
  match layer.keyRange.start.next with
  | none => .error .keyOverflow
  | some next => .ok (next == layer.keyRange.stop)

def intersects (layer other : DeltaLayerName) : Bool :=
  overlapsWith layer.lsnRange other.lsnRange && overlapsWith layer.keyRange other.keyRange

end DeltaLayerName

/-!
## The check
-/

namespace Checks

def allDeltaLayers (metadata : List LayerName) : List DeltaLayerName :=
  metadata.filterMap (fun name =>
    match name with
    | .delta layer => some layer
    | .image _ => none)

def insertSplitPoints : List DeltaLayerName -> Finset Lsn -> Except CheckPanic (Finset Lsn)
  | [], points => .ok points
  | layer :: rest, points => do
    if ← layer.isSingleKey then insertSplitPoints rest points
    else insertSplitPoints rest (insert layer.lsnRange.stop (insert layer.lsnRange.start points))

/-- The split points in a range; the lookup refuses a range that starts after its end. -/
def splitPointsWithin (points : Finset Lsn) (range : Range Lsn) : Except CheckPanic (Finset Lsn) :=
  if range.stop < range.start then .error .rangeStartAfterEnd
  else .ok (points.filter (fun point => point ∈ range))

/-- The slow path: the first layer at another position that the layer intersects. -/
def findIntersecting (layers : List DeltaLayerName) (idx : Nat) (layer : DeltaLayerName) :
    Option DeltaLayerName :=
  (layers.zipIdx.find? (fun other => other.2 != idx && layer.intersects other.1)).map Prod.fst

def violation (layer other : DeltaLayerName) : String :=
  "layer violates the layer map LSN split assumption: layer " ++ layer.display ++
    " intersects with layer " ++ other.display

def checkLayers (layers : List DeltaLayerName) (points : Finset Lsn) :
    List (DeltaLayerName × Nat) -> Except CheckPanic (Option String)
  | [] => .ok none
  | (layer, idx) :: rest => do
    if ← layer.isSingleKey then checkLayers layers points rest
    else if 1 < (← splitPointsWithin points layer.lsnRange).card then
      match findIntersecting layers idx layer with
      | some other => .ok (some (violation layer other))
      | none => checkLayers layers points rest
    else checkLayers layers points rest

def checkValidLayermap (metadata : List LayerName) : Except CheckPanic (Option String) := do
  let layers := allDeltaLayers metadata
  let points ← insertSplitPoints layers ∅
  checkLayers layers points layers.zipIdx

end Checks

/-!
## What the check finds
-/

namespace DeltaLayerName

def SingleKey (layer : DeltaLayerName) : Prop :=
  layer.keyRange.start.next = some layer.keyRange.stop

def Intersects (a b : DeltaLayerName) : Prop :=
  Overlap a.lsnRange b.lsnRange ∧ Overlap a.keyRange b.keyRange

instance decidableSingleKey (layer : DeltaLayerName) : Decidable layer.SingleKey :=
  inferInstanceAs (Decidable (_ = _))

/-- The check panics when it comes to the layer. -/
def Refused (layer : DeltaLayerName) : Prop :=
  layer.keyRange.start.next = none ∨
    Not layer.SingleKey ∧ layer.lsnRange.stop < layer.lsnRange.start

variable {layer other : DeltaLayerName}

theorem intersects_iff : layer.intersects other = true <-> layer.Intersects other := by
  simp [intersects, Intersects, overlapsWith, Overlap, and_comm]

theorem isSingleKey_ok {single : Bool} (h : layer.isSingleKey = .ok single) :
    single = true <-> layer.SingleKey := by
  unfold isSingleKey at h
  split at h
  next => cases h
  next next hnext =>
    cases h
    simp [SingleKey, hnext]

theorem isSingleKey_eq (h : Not layer.Refused) :
    layer.isSingleKey = .ok (decide layer.SingleKey) := by
  unfold isSingleKey
  split
  next hnext => exact absurd (.inl hnext) h
  next next hnext => simp [SingleKey, hnext, Bool.beq_eq_decide_eq]

end DeltaLayerName

namespace Checks

def IsSplitPoint (layers : List DeltaLayerName) (point : Lsn) : Prop :=
  exists layer, layer ∈ layers ∧ Not layer.SingleKey ∧
    (point = layer.lsnRange.start ∨ point = layer.lsnRange.stop)

def Meet (layers : List DeltaLayerName) (a b : DeltaLayerName) : Prop :=
  exists i j : Nat, i ≠ j ∧ layers[i]? = some a ∧ layers[j]? = some b ∧ a.Intersects b

/-- The layer has several keys, and a split point lies strictly inside its LSN range. -/
def Split (layers : List DeltaLayerName) (a : DeltaLayerName) : Prop :=
  Not a.SingleKey ∧ exists point, IsSplitPoint layers point ∧
    a.lsnRange.start < point ∧ point < a.lsnRange.stop

variable {layers : List DeltaLayerName} {points : Finset Lsn} {layer : DeltaLayerName} {idx : Nat}

theorem isSplitPoint_cons {p : Lsn} :
    IsSplitPoint (layer :: layers) p <->
      Not layer.SingleKey ∧ (p = layer.lsnRange.start ∨ p = layer.lsnRange.stop) ∨
        IsSplitPoint layers p := by
  simp [IsSplitPoint]

theorem mem_insertSplitPoints {points' : Finset Lsn}
    (h : insertSplitPoints layers points = .ok points') (p : Lsn) :
    p ∈ points' <-> p ∈ points ∨ IsSplitPoint layers p := by
  induction layers generalizing points with
  | nil =>
    cases h
    simp [IsSplitPoint]
  | cons layer rest ih =>
    obtain ⟨single, hsingle, h⟩ := bind_eq_ok_iff.mp h
    rw [isSplitPoint_cons, ← DeltaLayerName.isSingleKey_ok hsingle]
    cases single with
    | true => simp [ih h]
    | false =>
      rw [ih h, Finset.mem_insert, Finset.mem_insert]
      tauto

theorem insertSplitPoints_returns (h : forall layer, layer ∈ layers -> Not layer.Refused) :
    exists points', insertSplitPoints layers points = .ok points' := by
  induction layers generalizing points with
  | nil => exact ⟨points, rfl⟩
  | cons layer rest ih =>
    rw [insertSplitPoints, DeltaLayerName.isSingleKey_eq (h layer (.head _))]
    simp only [bind, Except.bind]
    split <;> exact ih (fun l hl => h l (.tail _ hl))

def reported (layers : List DeltaLayerName) (points : Finset Lsn) (entry : DeltaLayerName × Nat) :
    Option String :=
  if Not entry.1.SingleKey ∧ 1 < (points.filter (fun point => point ∈ entry.1.lsnRange)).card then
    (findIntersecting layers entry.2 entry.1).map (violation entry.1)
  else none

theorem checkLayers_cons {rest : List (DeltaLayerName × Nat)} (h : Not layer.Refused) :
    checkLayers layers points ((layer, idx) :: rest) =
      (reported layers points (layer, idx)).elim (checkLayers layers points rest)
        (fun text => .ok (some text)) := by
  rw [checkLayers, DeltaLayerName.isSingleKey_eq h]
  by_cases hkey : layer.SingleKey
  · simp [reported, hkey, bind, Except.bind]
  · have hrange : splitPointsWithin points layer.lsnRange =
        .ok (points.filter (fun point => point ∈ layer.lsnRange)) :=
      if_neg (fun hlt => h (.inr ⟨hkey, hlt⟩))
    simp only [reported, hkey, hrange, bind, Except.bind, decide_false, Bool.false_eq_true,
      if_false, not_false_eq_true, true_and]
    split
    · cases findIntersecting layers idx layer <;> rfl
    · rfl

theorem checkLayers_refused {rest : List (DeltaLayerName × Nat)} {result : Option String}
    (h : layer.Refused) : checkLayers layers points ((layer, idx) :: rest) ≠ .ok result := by
  intro hok
  obtain ⟨single, hsingle, hok⟩ := bind_eq_ok_iff.mp hok
  rcases h with hnext | ⟨hkey, hlt⟩
  · simp [DeltaLayerName.isSingleKey, hnext] at hsingle
  · rw [← DeltaLayerName.isSingleKey_ok hsingle, Bool.not_eq_true] at hkey
    subst hkey
    obtain ⟨within, hwithin, -⟩ := bind_eq_ok_iff.mp hok
    simp [splitPointsWithin, hlt] at hwithin

theorem checkLayers_returns {entries : List (DeltaLayerName × Nat)}
    (h : forall entry, entry ∈ entries -> Not entry.1.Refused) :
    checkLayers layers points entries = .ok (entries.findSome? (reported layers points)) := by
  induction entries with
  | nil => rfl
  | cons entry rest ih =>
    rw [checkLayers_cons (h entry (.head _)), ih (fun e he => h e (.tail _ he)), findSome?_cons]
    cases reported layers points entry <;> rfl

theorem checkLayers_ok {entries : List (DeltaLayerName × Nat)} {result : Option String}
    (h : checkLayers layers points entries = .ok result) :
    result = entries.findSome? (reported layers points) ∧
      (result = none -> forall entry, entry ∈ entries -> Not entry.1.Refused) := by
  induction entries with
  | nil =>
    cases h
    simp
  | cons entry rest ih =>
    have hentry : Not entry.1.Refused := fun hrefused => checkLayers_refused hrefused h
    rw [checkLayers_cons hentry] at h
    rw [findSome?_cons]
    cases hreported : reported layers points entry with
    | some text =>
      rw [hreported] at h
      cases h
      simp
    | none =>
      rw [hreported] at h
      obtain ⟨hresult, hrest⟩ := ih h
      exact ⟨hresult, fun hnone => forall_mem_cons.mpr ⟨hentry, hrest hnone⟩⟩

theorem one_lt_card_within_iff {range : Range Lsn} (hstart : range.start ∈ points) :
    1 < (points.filter (fun point => point ∈ range)).card <->
      exists point, point ∈ points ∧ range.start < point ∧ point < range.stop := by
  simp only [Finset.one_lt_card, Finset.mem_filter]
  constructor
  · rintro ⟨p, ⟨hp, hge, hlt⟩, q, ⟨hq, hge', hlt'⟩, hne⟩
    by_cases heq : p = range.start
    · exact ⟨q, hq, lt_of_le_of_ne hge' (heq ▸ hne), hlt'⟩
    · exact ⟨p, hp, lt_of_le_of_ne hge (Ne.symm heq), hlt⟩
  · rintro ⟨p, hp, hgt, hlt⟩
    exact ⟨range.start, ⟨hstart, le_rfl, hgt.trans hlt⟩, p, ⟨hp, hgt.le, hlt⟩, hgt.ne⟩

theorem findIntersecting_eq_none {j : Nat} {b : DeltaLayerName}
    (h : findIntersecting layers idx layer = none) (hat : layers[j]? = some b) (hne : idx ≠ j) :
    Not (layer.Intersects b) := by
  have hnone := find?_eq_none.mp (Option.map_eq_none_iff.mp h) (b, j)
    (mem_zipIdx_iff_getElem?.mpr hat)
  simpa [hne.symm, DeltaLayerName.intersects_iff] using hnone

theorem meet_of_findIntersecting {other : DeltaLayerName} (hat : layers[idx]? = some layer)
    (h : findIntersecting layers idx layer = some other) : Meet layers layer other := by
  obtain ⟨⟨b, j⟩, hfind, rfl⟩ := Option.map_eq_some_iff.mp h
  have hholds := find?_some hfind
  simp only [Bool.and_eq_true, bne_iff_ne, DeltaLayerName.intersects_iff] at hholds
  exact ⟨idx, j, hholds.1.symm, hat,
    mem_zipIdx_iff_getElem?.mp (mem_of_find?_eq_some hfind), hholds.2⟩

theorem reported_eq (hpoints : forall p, p ∈ points <-> IsSplitPoint layers p)
    (hat : layers[idx]? = some layer) :
    Split layers layer ∧ reported layers points (layer, idx) =
        (findIntersecting layers idx layer).map (violation layer) ∨
      Not (Split layers layer) ∧ reported layers points (layer, idx) = none := by
  have hsplit : Split layers layer <-> Not layer.SingleKey ∧
      1 < (points.filter (fun point => point ∈ layer.lsnRange)).card := by
    refine and_congr_right (fun hkey => ?_)
    rw [one_lt_card_within_iff ((hpoints _).mpr ⟨layer, mem_of_getElem? hat, hkey, .inl rfl⟩)]
    simp only [hpoints]
  rw [hsplit, reported]
  split
  next h => exact .inl ⟨h, rfl⟩
  next h => exact .inr ⟨h, rfl⟩

theorem checkValidLayermap_ok {metadata : List LayerName} {result : Option String}
    (h : checkValidLayermap metadata = .ok result) :
    (result = none -> forall a b, Meet (allDeltaLayers metadata) a b ->
        Not (Split (allDeltaLayers metadata) a)) ∧
      forall text, result = some text -> exists a b, Meet (allDeltaLayers metadata) a b ∧
        Split (allDeltaLayers metadata) a ∧ text = violation a b := by
  obtain ⟨points, hpoints, h⟩ := bind_eq_ok_iff.mp h
  have hmem : forall p, p ∈ points <-> IsSplitPoint (allDeltaLayers metadata) p := by
    simpa using mem_insertSplitPoints hpoints
  rw [(checkLayers_ok h).1]
  constructor
  · rintro hnone a b ⟨i, j, hne, ha, hb, hmeet⟩ hsplit
    have hreported := findSome?_eq_none_iff.mp hnone (a, i) (mem_zipIdx_iff_getElem?.mpr ha)
    rcases reported_eq hmem ha with ⟨_, heq⟩ | ⟨hnot, _⟩
    · rw [heq, Option.map_eq_none_iff] at hreported
      exact findIntersecting_eq_none hreported hb hne hmeet
    · exact hnot hsplit
  · intro text htext
    obtain ⟨⟨a, i⟩, hentry, hreported⟩ := exists_of_findSome?_eq_some htext
    have ha := mem_zipIdx_iff_getElem?.mp hentry
    rcases reported_eq hmem ha with ⟨hsplit, heq⟩ | ⟨_, heq⟩
    · obtain ⟨b, hfind, rfl⟩ := Option.map_eq_some_iff.mp (heq.symm.trans hreported)
      exact ⟨a, b, meet_of_findIntersecting ha hfind, hsplit, rfl⟩
    · cases heq.symm.trans hreported

theorem not_refused_of_none {metadata : List LayerName}
    (h : checkValidLayermap metadata = .ok none) (layer : DeltaLayerName)
    (hmem : layer ∈ allDeltaLayers metadata) : Not layer.Refused := by
  obtain ⟨points, -, h⟩ := bind_eq_ok_iff.mp h
  obtain ⟨idx, hidx⟩ := getElem?_of_mem hmem
  exact (checkLayers_ok h).2 rfl (layer, idx) (mem_zipIdx_iff_getElem?.mpr hidx)

theorem checkValidLayermap_returns {metadata : List LayerName}
    (h : forall layer, layer ∈ allDeltaLayers metadata -> Not layer.Refused) :
    exists result, checkValidLayermap metadata = .ok result := by
  obtain ⟨points, hpoints⟩ := insertSplitPoints_returns h
  exact ⟨_, bind_eq_ok_iff.mpr ⟨points, hpoints, checkLayers_returns (fun entry hentry =>
    h entry.1 (fst_mem_of_mem_zipIdx hentry))⟩⟩

/-- A passed list has no overlap, and an error means that there is one. -/
structure SoundOn (metadata : List LayerName) : Prop where
  none : checkValidLayermap metadata = .ok none ->
    forall a b, Not (Meet (allDeltaLayers metadata) a b)
  error : forall text, checkValidLayermap metadata = .ok (some text) ->
    exists a b, Meet (allDeltaLayers metadata) a b

/-- Sound are the lists with a layer that the check refuses, those where no layers meet, and those
where layers that meet include a split one. -/
theorem soundOn_iff (metadata : List LayerName) :
    SoundOn metadata <->
      (exists layer, layer ∈ allDeltaLayers metadata ∧ layer.Refused) ∨
        (forall a b, Not (Meet (allDeltaLayers metadata) a b)) ∨
        exists a b, Meet (allDeltaLayers metadata) a b ∧ Split (allDeltaLayers metadata) a := by
  constructor
  · intro hsound
    by_cases hrefused : exists layer, layer ∈ allDeltaLayers metadata ∧ layer.Refused
    · exact .inl hrefused
    · obtain ⟨result, h⟩ := checkValidLayermap_returns (by simpa using hrefused)
      cases result with
      | none => exact .inr (.inl (hsound.none h))
      | some text =>
        obtain ⟨a, b, hmeet, hsplit, _⟩ := (checkValidLayermap_ok h).2 text rfl
        exact .inr (.inr ⟨a, b, hmeet, hsplit⟩)
  · intro h
    refine ⟨fun hnone => ?_, fun text herror => ?_⟩
    · rcases h with ⟨layer, hmem, hrefused⟩ | hmeet | ⟨a, b, hmeet, hsplit⟩
      · exact absurd hrefused (not_refused_of_none hnone layer hmem)
      · exact hmeet
      · exact absurd hsplit ((checkValidLayermap_ok hnone).1 rfl a b hmeet)
    · obtain ⟨a, b, hmeet, _⟩ := (checkValidLayermap_ok herror).2 text rfl
      exact ⟨a, b, hmeet⟩

def keyAt (block : UInt32) : Key :=
  ⟨0, 1663, 5, 16384, 0, block⟩

def layersAt (first second : Range Lsn) : List LayerName :=
  [.delta ⟨⟨keyAt 0, keyAt 10⟩, first⟩, .delta ⟨⟨keyAt 5, keyAt 15⟩, second⟩]

theorem soundOn_iff_split : SoundOn (layersAt ⟨10, 20⟩ ⟨15, 25⟩) := by
  refine (soundOn_iff _).mpr (.inr (.inr ⟨_, _, ⟨0, 1, by decide, rfl, rfl, ?_⟩, ?_⟩))
  · exact ⟨by decide, by decide⟩
  · exact ⟨by decide, 15, ⟨_, .tail _ (.head _), by decide, .inl rfl⟩, by decide, by decide⟩

theorem not_soundOn_sameLsnRange : Not (SoundOn (layersAt ⟨10, 20⟩ ⟨10, 20⟩)) := by
  intro h
  have hnone : checkValidLayermap (layersAt ⟨10, 20⟩ ⟨10, 20⟩) = .ok none := by decide
  exact h.none hnone _ _ ⟨0, 1, by decide, rfl, rfl, by decide, by decide⟩

end Checks
end Pageserver
end OpenNeon

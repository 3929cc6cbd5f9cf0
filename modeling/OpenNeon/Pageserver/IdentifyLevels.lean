import Mathlib.Data.List.Perm.Subperm
import OpenNeon.Pageserver.ReadPath

/-!
# Levels of tiered compaction

A level is a range of LSNs whose delta layers lie inside it.  The layers are visited from
the newest end downwards.  The lowest start seen so far is a candidate for the start of the
level, which is accepted when the next delta layer ends at or below it.
-/

namespace OpenNeon
namespace Pageserver

open List

/-- What compaction asks of a layer.  A delta layer covers at least one LSN, which is asserted
where one is written. -/
class CompactionLayer (layer : Type) where
  lsnRange : layer -> Range Lsn
  isDelta : layer -> Bool
  lsn_lt : forall l, isDelta l = true -> (lsnRange l).start < (lsnRange l).stop

open CompactionLayer

instance instCompactionLayerDesc : CompactionLayer PersistentLayerDesc where
  lsnRange l := l.lsnRange
  isDelta l := l.isDelta
  lsn_lt l _ := l.lsnRange_nonempty

variable {layer : Type} [CompactionLayer layer]

structure Level (layer : Type) where
  lsnRange : Range Lsn
  layers : List layer

/-- The caller passed an end that does not partition the LSN space. -/
structure BogusEndLsn (layer : Type) where
  endLsn : Lsn
  crossing : layer

abbrev Crosses (lsn : Lsn) (l : layer) : Prop :=
  (lsnRange l).start < lsn ∧ lsn < (lsnRange l).stop

/-- An image layer may sit exactly at the end. -/
abbrev IsAbove (endLsn : Lsn) (l : layer) : Prop :=
  if isDelta l then endLsn ≤ (lsnRange l).start else endLsn < (lsnRange l).start

structure LevelSearch (layer : Type) where
  candidateStartLsn : Lsn
  candidateLayers : List layer
  currentBestStartLsn : Lsn
  currentBestLayers : List layer

namespace LevelSearch

variable (s : LevelSearch layer) (start : Lsn)

/-- The candidates join the level. -/
def accept : LevelSearch layer :=
  { s with
    candidateLayers := []
    currentBestStartLsn := start
    currentBestLayers := s.currentBestLayers ++ s.candidateLayers }

def push (l : layer) : LevelSearch layer :=
  { s with candidateStartLsn := start, candidateLayers := s.candidateLayers ++ [l] }

/-- Nothing that has been visited crosses the end of this delta layer. -/
def meet (r : Range Lsn) : LevelSearch layer :=
  if r.stop ≤ s.candidateStartLsn then { s.accept r.stop with candidateStartLsn := r.start } else s

/-- The search in decreasing order of the ends; a too large delta layer stops it. -/
def run (lsnMaxSize : Nat) (s : LevelSearch layer) : List layer -> LevelSearch layer
  | [] => s.accept s.candidateStartLsn
  | l :: rest =>
    let r := lsnRange l
    if isDelta l then
      let s := s.meet r
      if lsnMaxSize < r.stop - r.start then s
      else run lsnMaxSize (s.push (min s.candidateStartLsn r.start) l) rest
    else run lsnMaxSize (s.push s.candidateStartLsn l) rest

end LevelSearch

def endLe (a b : layer) : Bool :=
  decide ((lsnRange a).stop ≤ (lsnRange b).stop)

def identifyLevel (allLayers : List layer) (endLsn : Lsn) (lsnMaxSize : Nat) :
    Except (BogusEndLsn layer) (Option (Level layer)) :=
  match allLayers.find? (fun l => Crosses endLsn l) with
  | some l => .error ⟨endLsn, l⟩
  | none =>
    let layers := allLayers.filter (fun l => ¬ IsAbove endLsn l)
    let best := LevelSearch.run lsnMaxSize ⟨endLsn, [], endLsn, []⟩ (layers.mergeSort endLe).reverse
    if layers.isEmpty ∨ best.currentBestStartLsn = endLsn then .ok none
    else .ok (some ⟨⟨best.currentBestStartLsn, endLsn⟩, best.currentBestLayers⟩)

/-!
## The search
-/

variable {endLsn start : Lsn} {lsnMaxSize : Nat}

def Inside (lsnMaxSize : Nat) (start : Lsn) (layers : List layer) : Prop :=
  forall l, l ∈ layers -> isDelta l = true ->
    start ≤ (lsnRange l).start ∧ (lsnRange l).stop - (lsnRange l).start ≤ lsnMaxSize

def Below (start : Lsn) (layers : List layer) : Prop :=
  forall l, l ∈ layers -> isDelta l = true -> (lsnRange l).stop ≤ start

namespace LevelSearch

variable {s : LevelSearch layer} {l : layer} {rest : List layer}

structure Ok (lsnMaxSize : Nat) (endLsn : Lsn) (s : LevelSearch layer) (rest : List layer) :
    Prop where
  sorted : rest.Pairwise (fun a b => (lsnRange b).stop ≤ (lsnRange a).stop)
  candidate_le : s.candidateStartLsn ≤ s.currentBestStartLsn
  best_le : s.currentBestStartLsn ≤ endLsn
  best : Inside lsnMaxSize s.currentBestStartLsn s.currentBestLayers
  candidates : Inside lsnMaxSize s.candidateStartLsn s.candidateLayers
  below : Below s.currentBestStartLsn (s.candidateLayers ++ rest)

theorem Ok.inside_append (h : Ok lsnMaxSize endLsn s rest) (hstart : start ≤ s.candidateStartLsn) :
    Inside lsnMaxSize start (s.currentBestLayers ++ s.candidateLayers) := by
  intro l hmem hdelta
  rcases mem_append.mp hmem with hmem | hmem
  · have hl := h.best l hmem hdelta
    exact ⟨(hstart.trans h.candidate_le).trans hl.1, hl.2⟩
  · have hl := h.candidates l hmem hdelta
    exact ⟨hstart.trans hl.1, hl.2⟩

theorem Ok.meet (h : Ok lsnMaxSize endLsn s (l :: rest)) (hdelta : isDelta l = true) :
    Ok lsnMaxSize endLsn (s.meet (lsnRange l)) (l :: rest) := by
  unfold LevelSearch.meet
  split
  next hle =>
    refine ⟨h.sorted, (lsn_lt l hdelta).le, hle.trans (h.candidate_le.trans h.best_le),
      h.inside_append hle, by simp [Inside, accept], fun m hm _ => ?_⟩
    rcases mem_cons.mp hm with rfl | hm
    · exact le_rfl
    · exact rel_of_pairwise_cons h.sorted hm
  · exact h

theorem Ok.push (h : Ok lsnMaxSize endLsn s (l :: rest)) (hstart : start ≤ s.candidateStartLsn)
    (hl : Inside lsnMaxSize start [l]) : Ok lsnMaxSize endLsn (s.push start l) rest where
  sorted := h.sorted.of_cons
  candidate_le := hstart.trans h.candidate_le
  best_le := h.best_le
  best := h.best
  candidates m hm hdelta := by
    rcases mem_append.mp hm with hm | hm
    · have hm := h.candidates m hm hdelta
      exact ⟨hstart.trans hm.1, hm.2⟩
    · exact hl m hm hdelta
  below := by simpa [LevelSearch.push] using h.below

theorem run_split (h : Ok lsnMaxSize endLsn s rest) :
    exists below, s.currentBestLayers ++ s.candidateLayers ++ rest =
        (run lsnMaxSize s rest).currentBestLayers ++ below ∧
      (run lsnMaxSize s rest).currentBestStartLsn ≤ endLsn ∧
      Inside lsnMaxSize (run lsnMaxSize s rest).currentBestStartLsn
        (run lsnMaxSize s rest).currentBestLayers ∧
      Below (run lsnMaxSize s rest).currentBestStartLsn below := by
  induction rest generalizing s with
  | nil =>
    refine ⟨[], rfl, h.candidate_le.trans h.best_le, h.inside_append le_rfl, ?_⟩
    simp [Below]
  | cons l rest ih =>
    dsimp only [run]
    split
    next hdelta =>
      have hmeet := h.meet hdelta
      have hsame : (s.meet (lsnRange l)).currentBestLayers ++
          (s.meet (lsnRange l)).candidateLayers = s.currentBestLayers ++ s.candidateLayers := by
        unfold meet
        split <;> simp [accept]
      rw [← hsame]
      split
      · exact ⟨_, append_assoc _ _ _, hmeet.best_le, hmeet.best, hmeet.below⟩
      next hfits =>
        have hpush := hmeet.push (min_le_left _ (lsnRange l).start) (fun m hm _ => ?_)
        · simpa [push] using ih hpush
        · rw [mem_singleton.mp hm]
          exact ⟨min_le_right _ _, Nat.not_lt.mp hfits⟩
    next himage =>
      have hpush := h.push le_rfl (fun m hm hdelta => absurd (mem_singleton.mp hm ▸ hdelta) himage)
      simpa [push] using ih hpush

theorem Ok.initial {layers : List layer} (h : Below endLsn layers) :
    Ok lsnMaxSize endLsn ⟨endLsn, [], endLsn, []⟩ (layers.mergeSort endLe).reverse where
  sorted := by
    rw [pairwise_reverse]
    refine (pairwise_mergeSort (fun a b c hab hbc => ?_) (fun a b => ?_) layers).imp
      of_decide_eq_true
    · exact decide_eq_true ((of_decide_eq_true hab).trans (of_decide_eq_true hbc))
    · simp [Nat.le_total]
  candidate_le := le_rfl
  best_le := le_rfl
  best := by simp [Inside]
  candidates := by simp [Inside]
  below := by simpa [Below] using h

end LevelSearch

/-!
## The level
-/

theorem level_of_split {level below allLayers : List layer} {l : layer}
    (hperm : level ++ below ~ allLayers.filter (fun l => ¬ IsAbove endLsn l))
    (hends : Below endLsn (allLayers.filter (fun l => ¬ IsAbove endLsn l))) (hle : start ≤ endLsn)
    (hinside : Inside lsnMaxSize start level) (hbelow : Below start below)
    (hmem : l ∈ allLayers) (hdelta : isDelta l = true) :
    ¬ Crosses start l ∧
      (l ∈ level <-> start ≤ (lsnRange l).start ∧ (lsnRange l).stop ≤ endLsn) ∧
      (l ∈ level -> (lsnRange l).stop - (lsnRange l).start ≤ lsnMaxSize) := by
  have hlt := lsn_lt l hdelta
  by_cases hlevel : l ∈ level
  · have hl := hinside l hlevel hdelta
    have hend := hends l (hperm.subset (mem_append_left _ hlevel)) hdelta
    exact ⟨fun hcross => hcross.1.not_ge hl.1, iff_of_true hlevel ⟨hl.1, hend⟩, fun _ => hl.2⟩
  · have hout : endLsn ≤ (lsnRange l).start ∨ (lsnRange l).stop ≤ start := by
      by_cases habove : IsAbove endLsn l
      · exact .inl (by simpa [IsAbove, hdelta] using habove)
      · have hmem := hperm.mem_iff.mpr (mem_filter.mpr ⟨hmem, decide_eq_true habove⟩)
        exact .inr (hbelow l ((mem_append.mp hmem).resolve_left hlevel) hdelta)
    refine ⟨fun hcross => ?_, iff_of_false hlevel (fun hinside => ?_), fun h => absurd h hlevel⟩
    · rcases hout with hout | hout <;> grind
    · rcases hout with hout | hout <;> grind

theorem identifyLevel_closed (allLayers : List layer) (endLsn : Lsn) (lsnMaxSize : Nat) :
    (forall e, identifyLevel allLayers endLsn lsnMaxSize = .error e ->
      e.crossing ∈ allLayers ∧ Crosses endLsn e.crossing) ∧
    forall level, identifyLevel allLayers endLsn lsnMaxSize = .ok (some level) ->
      level.lsnRange.start < endLsn ∧ level.lsnRange.stop = endLsn ∧ level.layers <+~ allLayers ∧
      forall l, l ∈ allLayers -> isDelta l = true ->
        ¬ Crosses level.lsnRange.start l ∧
        (l ∈ level.layers <->
          level.lsnRange.start ≤ (lsnRange l).start ∧ (lsnRange l).stop ≤ level.lsnRange.stop) ∧
        (l ∈ level.layers -> (lsnRange l).stop - (lsnRange l).start ≤ lsnMaxSize) := by
  unfold identifyLevel
  split
  next l hfind =>
    refine ⟨?_, by rintro _ ⟨⟩⟩
    rintro _ ⟨⟩
    exact ⟨mem_of_find?_eq_some hfind, by simpa using find?_some hfind⟩
  next hfind =>
    have hends : Below endLsn (allLayers.filter (fun l => ¬ IsAbove endLsn l)) := by
      intro l hmem hdelta
      obtain ⟨hmem, habove⟩ := mem_filter.mp hmem
      have hcross := find?_eq_none.mp hfind l hmem
      simp only [IsAbove, Crosses, hdelta, if_true, decide_eq_true_eq] at habove hcross
      exact Nat.not_lt.mp (fun hlt => hcross ⟨Nat.not_le.mp habove, hlt⟩)
    have hstart : LevelSearch.Ok lsnMaxSize endLsn _ _ := LevelSearch.Ok.initial hends
    obtain ⟨below, hsplit, hle, hinside, hbelow⟩ := LevelSearch.run_split hstart
    have hperm := (Perm.of_eq hsplit.symm).trans ((reverse_perm _).trans (mergeSort_perm _ _))
    dsimp only
    split
    · exact ⟨by rintro _ ⟨⟩, by rintro _ ⟨⟩⟩
    next hne =>
      refine ⟨by rintro _ ⟨⟩, ?_⟩
      rintro _ ⟨⟩
      refine ⟨lt_of_le_of_ne hle (fun h => hne (.inr h)), rfl, ?_,
        fun l => level_of_split hperm hends hle hinside hbelow⟩
      exact (sublist_append_left _ _).subperm.trans (hperm.subperm.trans filter_sublist.subperm)

/-- A layer of one tier, with the keys of the other samples. -/
def tierDelta (r : Range Lsn) (h : r.start < r.stop) : PersistentLayerDesc :=
  { LayerMap.sampleDelta with
    lsnRange := r
    lsnRange_nonempty := h
    image_lsnRange := Bool.noConfusion }

/-- Two deltas that cross each other and an image above a delta of the next level. -/
def tiers : List PersistentLayerDesc :=
  [tierDelta ⟨10, 30⟩ (by decide), tierDelta ⟨30, 38⟩ (by decide), LayerMap.sampleImage,
    tierDelta ⟨34, 42⟩ (by decide)]

theorem identifyLevel_closed_tiers :
    exists level, identifyLevel tiers 42 8 = .ok (some level) ∧ level.lsnRange.start = 30 ∧
      level.layers.length = 3 ∧
      forall l, l ∈ tiers -> isDelta l = true -> ¬ Crosses 30 l ∧
        (l ∈ level.layers <-> 30 ≤ (lsnRange l).start ∧ (lsnRange l).stop ≤ 42) := by
  have hlayers : tiers.filter (fun l => ¬ IsAbove 42 l) = tiers := rfl
  have hlevel : identifyLevel tiers 42 8 = .ok (some ⟨⟨30, 42⟩, tiers.tail.reverse⟩) := by
    have hsorted : tiers.mergeSort endLe = tiers := mergeSort_of_pairwise (by decide)
    simp only [identifyLevel, hlayers, hsorted]
    rfl
  obtain ⟨-, -, -, hclosed⟩ := (identifyLevel_closed tiers 42 8).2 _ hlevel
  exact ⟨_, hlevel, rfl, rfl, fun l hmem hdelta =>
    ⟨(hclosed l hmem hdelta).1, (hclosed l hmem hdelta).2.1⟩⟩

end Pageserver
end OpenNeon

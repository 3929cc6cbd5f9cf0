import OpenNeon.Pageserver.ImageCoverage

/-!
# Garbage collection of layers

A run of the collector advances the applied cutoff and removes layers that no read
at or above the cutoff, at a branch point or at a leased LSN can need.  Every layer
is judged against the map as it is before the run removes anything.
-/

namespace OpenNeon
namespace Pageserver

open Base List

/-!
## The collector
-/

structure GcCutoffs where
  space : Lsn
  time : Option Lsn

/-- Branch points, cutoffs, and leased LSNs with the end of their validity. -/
structure GcInfo where
  retainLsns : List Lsn
  cutoffs : GcCutoffs
  leases : OrdMap Lsn Nat

structure GcTimeline where
  layers : LayerMap
  files : List PersistentLayerDesc
  gcInfo : GcInfo
  diskConsistentLsn : Lsn
  standbyHorizon : Lsn
  appliedGcCutoffLsn : Lsn

inductive GcError where
  | timelineCancelled
  | badLsn
  | remote

structure GcIo where
  cancelled : Bool
  stopping : Bool
  scheduleUploads : Option GcError
  uploadQueueStopped : Bool

inductive Verdict where
  | neededByCutoff
  | neededByPitr
  | neededByBranches
  | neededByLeases
  | notUpdated
  | removed
  deriving DecidableEq

structure GcResult where
  layersTotal : Nat := 0
  layersNeededByCutoff : Nat := 0
  layersNeededByPitr : Nat := 0
  layersNeededByBranches : Nat := 0
  layersNeededByLeases : Nat := 0
  layersNotUpdated : Nat := 0
  layersRemoved : Nat := 0

namespace GcResult

def ofVerdicts (verdicts : List Verdict) : GcResult :=
  { layersTotal := verdicts.length
    layersNeededByCutoff := verdicts.count .neededByCutoff
    layersNeededByPitr := verdicts.count .neededByPitr
    layersNeededByBranches := verdicts.count .neededByBranches
    layersNeededByLeases := verdicts.count .neededByLeases
    layersNotUpdated := verdicts.count .notUpdated }

end GcResult

namespace GcTimeline

def MAX_ALLOWED_STANDBY_LAG : Nat := 10 * 2 ^ 30

structure Cutoffs where
  space : Lsn
  time : Lsn
  maxRetainLsn : Option Lsn
  maxLeaseLsn : Option Lsn
  newGcCutoff : Lsn

def startsBy (l : PersistentLayerDesc) (lsn : Option Lsn) : Bool :=
  lsn.any (fun lsn => decide (l.lsnRange.start ≤ lsn))

def verdict (layers : LayerMap) (c : Cutoffs) (l : PersistentLayerDesc) : Except Panic Verdict :=
  if c.space < l.lsnRange.stop then
    .ok .neededByCutoff
  else if c.time < l.lsnRange.stop then
    .ok .neededByPitr
  else if startsBy l c.maxRetainLsn then
    .ok .neededByBranches
  else if startsBy l c.maxLeaseLsn then
    .ok .neededByLeases
  else
    (layers.imageLayerExists l.keyRange ⟨l.lsnRange.stop, c.newGcCutoff⟩).map
      (fun covered => if covered then .removed else .notUpdated)

def tryGetFromKey (files : List PersistentLayerDesc) (desc : PersistentLayerDesc) :
    Option PersistentLayerDesc :=
  files.find? (fun file => LayerMap.sameKey file desc)

def finishGcTimeline (tl : GcTimeline) (gcLayers : List PersistentLayerDesc) :
    Except Panic GcTimeline := do
  let layers <- gcLayers.foldlM LayerMap.removeHistoricNoflush tl.layers
  let layers <- layers.flushUpdates
  return { tl with
    layers := layers
    files := tl.files.filter
      (fun file => !gcLayers.any (fun doomed => LayerMap.sameKey file doomed)) }

def collect (io : GcIo) (tl : GcTimeline) (c : Cutoffs) :
    Except Panic (GcTimeline × Except GcError GcResult) := do
  let layers <- tl.layers.iterHistoricLayers
  let verdicts <- layers.mapM (verdict tl.layers c)
  let layersToRemove :=
    ((layers.zip verdicts).filter (fun p => p.2 == .removed)).map Prod.fst
  let result := GcResult.ofVerdicts verdicts
  if layersToRemove.isEmpty then
    return (tl, .ok result)
  match io.scheduleUploads with
  | some e => return (tl, .error e)
  | none =>
    let gcLayers := layersToRemove.filterMap (tryGetFromKey tl.files)
    if io.uploadQueueStopped then
      return (tl, .error .remote)
    let tl' <- tl.finishGcTimeline gcLayers
    return (tl', .ok { result with layersRemoved := gcLayers.length })

def gcTimeline (io : GcIo) (tl : GcTimeline) (spaceCutoff : Lsn)
    (timeCutoff : Option Lsn) (retainLsns : List Lsn)
    (maxLsnWithValidLease : Option Lsn) (newGcCutoff : Lsn) :
    Except Panic (GcTimeline × Except GcError GcResult) :=
  if newGcCutoff ≤ tl.appliedGcCutoffLsn then
    .ok (tl, .ok {})
  else
    match timeCutoff with
    | none => .ok (tl, .ok {})
    | some timeCutoff =>
      if newGcCutoff < tl.appliedGcCutoffLsn then
        .ok (tl, .error .badLsn)
      else
        collect io { tl with appliedGcCutoffLsn := newGcCutoff }
          { space := spaceCutoff
            time := timeCutoff
            maxRetainLsn := retainLsns.max?
            maxLeaseLsn := maxLsnWithValidLease
            newGcCutoff := newGcCutoff }

/-- The cutoff, held back for a standby unless it lags too far. -/
def holdForStandby (newGcCutoff standbyHorizon : Lsn) : Lsn :=
  if standbyHorizon = 0 then
    newGcCutoff
  else if newGcCutoff < standbyHorizon then
    newGcCutoff
  else if newGcCutoff - standbyHorizon < MAX_ALLOWED_STANDBY_LAG then
    min standbyHorizon newGcCutoff
  else
    newGcCutoff

def gc (tl : GcTimeline) (io : GcIo) : Except Panic (GcTimeline × Except GcError GcResult) :=
  if io.cancelled then
    .ok (tl, .ok {})
  else if io.stopping then
    .ok (tl, .error .timelineCancelled)
  else
    let spaceCutoff := min tl.gcInfo.cutoffs.space tl.diskConsistentLsn
    let timeCutoff := tl.gcInfo.cutoffs.time
    let newGcCutoff :=
      holdForStandby (min spaceCutoff (timeCutoff.getD 0)) tl.standbyHorizon
    gcTimeline io { tl with standbyHorizon := 0 } spaceCutoff timeCutoff
      tl.gcInfo.retainLsns (tl.gcInfo.leases.last?.map Prod.fst) newGcCutoff

end GcTimeline

namespace LayerMap

variable {d : PersistentLayerDesc} {doomed layers : List PersistentLayerDesc} {m m' : LayerMap}

/-!
## Removing layers
-/

theorem mem_iff_current (hlayers : m.iterHistoricLayers = .ok layers) (hinv : Inv m)
    (d : PersistentLayerDesc) :
    d ∈ layers <->
      exists lk, LayerKey.ofDesc d = .ok lk ∧ m.historic.current lk = some d := by
  obtain ⟨hempty, hmem⟩ := iterHistoricLayers_mem hlayers
  have hcur := BufferedHistoricLayerCoverage.current_of_buffer_empty hempty
  rw [hmem]
  constructor
  · rintro ⟨lk, hlk⟩
    rw [← hcur] at hlk
    exact ⟨lk, hinv.keyed lk d hlk, hlk⟩
  · rintro ⟨lk, _, hlk⟩
    rw [hcur] at hlk
    exact ⟨lk, hlk⟩

theorem removeHistoricNoflush_current (hinv : Inv m) (h : m.removeHistoricNoflush d = .ok m') :
    exists lk, LayerKey.ofDesc d = .ok lk ∧
      m'.historic.current = Function.update m.historic.current lk none := by
  obtain ⟨lk, hlk, hret⟩ := bind_eq_ok_iff.mp h
  have hhist : m'.historic = m.historic.remove lk := by
    simp only at hret
    split_ifs at hret
    · cases hret
      rfl
    · cases hret
      rfl
  have hop : forall lk' (v : PersistentLayerDesc),
      BufferedHistoricLayerCoverage.Op.remove lk = .insert lk' v ->
      lk'.lsn.start < lk'.lsn.stop := by
    intro lk' v h
    cases h
  obtain ⟨b, hb, _, hcur⟩ := BufferedHistoricLayerCoverage.step_spec hinv.historic hop
  cases hb
  exact ⟨lk, hlk, by rw [hhist, hcur]; rfl⟩

/-- Removals take away the layers with the keys of the doomed ones, and no other. -/
theorem foldlM_remove_current (hinv : Inv m) (h : doomed.foldlM removeHistoricNoflush m = .ok m') :
    Inv m' ∧
      (forall lk d, m'.historic.current lk = some d -> m.historic.current lk = some d) ∧
      (forall lk, (forall d, d ∈ doomed -> LayerKey.ofDesc d ≠ .ok lk) ->
        m'.historic.current lk = m.historic.current lk) := by
  induction doomed generalizing m with
  | nil =>
    cases h
    exact ⟨hinv, fun _ _ h => h, fun _ _ => rfl⟩
  | cons first rest ih =>
    obtain ⟨m1, hfirst, hrest⟩ := bind_eq_ok_iff.mp h
    have hstep : m.step (.removeHistoric first) = .ok m1 := hfirst
    have hinv1 : Inv m1 := inv_step hinv hstep
    obtain ⟨lk0, hlk0, hcur⟩ := removeHistoricNoflush_current hinv hfirst
    obtain ⟨hinv', hsub, hkept⟩ := ih hinv1 hrest
    refine ⟨hinv', ?_, ?_⟩
    · intro lk d hd
      have h1 := hsub lk d hd
      rw [hcur] at h1
      by_cases hlk : lk = lk0
      · rw [hlk, Function.update_self] at h1
        cases h1
      · rwa [Function.update_of_ne hlk] at h1
    · intro lk hnone
      rw [hkept lk (fun d hd => hnone d (mem_cons_of_mem _ hd)), hcur]
      apply Function.update_of_ne
      rintro rfl
      exact hnone first (mem_cons_self ..) hlk0

theorem removeAll_layers {m1 : LayerMap} (hinv : Inv m)
    (hlayers : m.iterHistoricLayers = .ok layers)
    (hremove : doomed.foldlM removeHistoricNoflush m = .ok m1)
    (hflush : m1.flushUpdates = .ok m') :
    exists layers', m'.iterHistoricLayers = .ok layers' ∧
      (forall d, d ∈ layers' -> d ∈ layers) ∧
      (forall d, d ∈ layers -> d ∉ layers' ->
        exists r, r ∈ doomed ∧ LayerKey.ofDesc r = LayerKey.ofDesc d) := by
  obtain ⟨hinv1, hsub, hkept⟩ := foldlM_remove_current hinv hremove
  obtain ⟨b, hb, hret⟩ := bind_eq_ok_iff.mp hflush
  obtain ⟨b', hb', hbinv, hempty, hcur⟩ :=
    BufferedHistoricLayerCoverage.rebuild_spec hinv1.historic
  rw [hb] at hb'
  cases hb'
  cases hret
  have hiter : LayerMap.iterHistoricLayers { m1 with historic := b } =
      .ok (b.layers.entries.map Prod.snd) := by
    simp [iterHistoricLayers, BufferedHistoricLayerCoverage.iter, hempty]
  refine ⟨_, hiter, ?_, ?_⟩
  · intro d hd
    obtain ⟨lk, hlk⟩ := ((iterHistoricLayers_mem hiter).2 d).mp hd
    rw [hcur] at hlk
    have hold := hsub lk d hlk
    exact (mem_iff_current hlayers hinv d).mpr ⟨lk, hinv.keyed lk d hold, hold⟩
  · intro d hd hgone
    obtain ⟨lk, hlk, hold⟩ := (mem_iff_current hlayers hinv d).mp hd
    by_contra hnone
    apply hgone
    refine ((iterHistoricLayers_mem hiter).2 d).mpr ⟨lk, ?_⟩
    rw [hcur, hkept lk, hold]
    intro r hr hrlk
    exact hnone ⟨r, hr, hrlk.trans hlk.symm⟩

theorem ofDesc_of_sameKey {a b : PersistentLayerDesc} (h : sameKey a b = true) :
    LayerKey.ofDesc a = LayerKey.ofDesc b := by
  simp only [sameKey, Bool.and_eq_true, beq_iff_eq] at h
  obtain ⟨⟨hkey, hlsn⟩, hkind⟩ := h
  simp only [LayerKey.ofDesc, hkey, hlsn, hkind]

theorem eq_of_ofDesc_eq (hlayers : m.iterHistoricLayers = .ok layers) (hinv : Inv m)
    {d' : PersistentLayerDesc} (hd : d ∈ layers) (hd' : d' ∈ layers)
    (h : LayerKey.ofDesc d = LayerKey.ofDesc d') : d = d' := by
  obtain ⟨lk, hlk, hcur⟩ := (mem_iff_current hlayers hinv d).mp hd
  obtain ⟨lk', hlk', hcur'⟩ := (mem_iff_current hlayers hinv d').mp hd'
  rw [h, hlk'] at hlk
  cases hlk
  rw [hcur] at hcur'
  exact Option.some.inj hcur'

end LayerMap

/-!
## What a removal may take away
-/

/-- The LSN of the newest image that covers the key, at or below an LSN. -/
def newestImage (layers : List PersistentLayerDesc) (key : Key) (x : Lsn) : Option Lsn :=
  ((layers.filter (fun d =>
    !d.isDelta && decide (key ∈ d.keyRange) && decide (d.lsnRange.start ≤ x))).map
    (fun d => d.lsnRange.start)).max?

/-- A read of the key at the LSN finds the same image, and every delta above it. -/
structure Keeps (before after : List PersistentLayerDesc) (key : Key) (x : Lsn) :
    Prop where
  image : newestImage after key x = newestImage before key x
  deltas : forall d, d ∈ before -> d.isDelta = true -> key ∈ d.keyRange ->
    forall y, y ∈ d.lsnRange -> y ≤ x ->
    (forall i, newestImage before key x = some i -> i < y) -> d ∈ after

variable {key : Key} {x : Lsn}

variable {layers : List PersistentLayerDesc}

theorem newestImage_eq_some_iff {i : Lsn} :
    newestImage layers key x = some i <->
      (exists d, d ∈ layers ∧ d.isDelta = false ∧ key ∈ d.keyRange ∧
        d.lsnRange.start ≤ x ∧ d.lsnRange.start = i) ∧
      forall d, d ∈ layers -> d.isDelta = false -> key ∈ d.keyRange ->
        d.lsnRange.start ≤ x -> d.lsnRange.start ≤ i := by
  unfold newestImage
  rw [max?_eq_some_iff]
  simp only [mem_map, mem_filter, Bool.and_eq_true, Bool.not_eq_true', decide_eq_true_eq]
  constructor
  · rintro ⟨⟨d, ⟨hmem, ⟨himage, hkey⟩, hle⟩, hi⟩, hmax⟩
    refine ⟨⟨d, hmem, himage, hkey, hle, hi⟩, ?_⟩
    intro d' hmem' himage' hkey' hle'
    exact hmax _ ⟨d', ⟨hmem', ⟨himage', hkey'⟩, hle'⟩, rfl⟩
  · rintro ⟨⟨d, hmem, himage, hkey, hle, hi⟩, hmax⟩
    refine ⟨⟨d, ⟨hmem, ⟨himage, hkey⟩, hle⟩, hi⟩, ?_⟩
    rintro _ ⟨d', ⟨hmem', ⟨himage', hkey'⟩, hle'⟩, rfl⟩
    exact hmax d' hmem' himage' hkey' hle'

theorem newestImage_eq_none_iff :
    newestImage layers key x = none <->
      forall d, d ∈ layers -> d.isDelta = false -> key ∈ d.keyRange ->
        Not (d.lsnRange.start ≤ x) := by
  unfold newestImage
  rw [max?_eq_none_iff, map_eq_nil_iff, filter_eq_nil_iff]
  simp only [Bool.and_eq_true, Bool.not_eq_true', decide_eq_true_eq]
  constructor
  · intro h d hmem himage hkey hle
    exact h d hmem ⟨⟨himage, hkey⟩, hle⟩
  · rintro h d hmem ⟨⟨himage, hkey⟩, hle⟩
    exact h d hmem himage hkey hle

/-- The layer is above the LSN, or an image between them replaces it for the key. -/
def Replaceable (layers : List PersistentLayerDesc) (key : Key) (x : Lsn)
    (d : PersistentLayerDesc) : Prop :=
  x < d.lsnRange.start ∨
    exists image, image ∈ layers ∧ image.isDelta = false ∧ key ∈ image.keyRange ∧
      d.lsnRange.stop ≤ image.lsnRange.start ∧ image.lsnRange.start ≤ x

/-- Judging against the layers before the removal is enough: the newest image stays. -/
theorem keeps_of_replaceable {before after : List PersistentLayerDesc}
    (hsub : forall d, d ∈ after -> d ∈ before)
    (hgone : forall d, d ∈ before -> d ∉ after -> key ∈ d.keyRange ->
      Replaceable before key x d) : Keeps before after key x := by
  constructor
  case image =>
    cases hnew : newestImage before key x with
    | none =>
      rw [newestImage_eq_none_iff] at hnew ⊢
      exact fun d hd => hnew d (hsub d hd)
    | some i =>
      rw [newestImage_eq_some_iff] at hnew ⊢
      obtain ⟨⟨d, hd, himage, hkey, hle, rfl⟩, hmax⟩ := hnew
      refine ⟨⟨d, ?_, himage, hkey, hle, rfl⟩, fun d' hd' => hmax d' (hsub d' hd')⟩
      by_contra hnot
      rcases hgone d hd hnot hkey with hlt | ⟨d', hd', himage', hkey', hstop, hle'⟩
      · exact absurd hle (not_le.mpr hlt)
      · have hnewer := hmax d' hd' himage' hkey' hle'
        have hrange := d.lsnRange_nonempty
        lia
  case deltas =>
    intro d hd _ hkey y hy hyx habove
    by_contra hnot
    rcases hgone d hd hnot hkey with hlt | ⟨image, hd', himage', hkey', hstop, hle'⟩
    · have hstart := hy.1
      lia
    · cases hnew : newestImage before key x with
      | none => exact newestImage_eq_none_iff.mp hnew image hd' himage' hkey' hle'
      | some i =>
        have hmax := (newestImage_eq_some_iff.mp hnew).2 image hd' himage' hkey' hle'
        have hlt := habove i hnew
        have hend := hy.2
        lia

/-!
## Runs of the collector
-/

namespace GcTimeline

open LayerMap

variable {c : Cutoffs} {d : PersistentLayerDesc} {x : Lsn} {layers : List PersistentLayerDesc}
  {io : GcIo} {tl tl' : GcTimeline} {res : Except GcError GcResult}

variable {m : LayerMap}

theorem verdict_eq_removed (h : verdict m c d = .ok .removed) :
    startsBy d c.maxRetainLsn = false ∧ startsBy d c.maxLeaseLsn = false ∧
      m.imageLayerExists d.keyRange ⟨d.lsnRange.stop, c.newGcCutoff⟩ = .ok true := by
  unfold verdict at h
  split at h
  · cases h
  · split at h
    · cases h
    · split at h
      · cases h
      next hretain =>
        split at h
        · cases h
        next hlease =>
          refine ⟨by simpa using hretain, by simpa using hlease, ?_⟩
          cases hexists : m.imageLayerExists d.keyRange ⟨d.lsnRange.stop, c.newGcCutoff⟩ with
          | error e =>
            rw [hexists] at h
            cases h
          | ok covered =>
            rw [hexists] at h
            cases covered with
            | false => cases h
            | true => rfl

theorem lt_start_of_not_startsBy {lsn? : Option Lsn} {lsn : Lsn} (h : startsBy d lsn? = false)
    (hlsn : lsn? = some lsn) (hx : x ≤ lsn) :
    x < d.lsnRange.start := by
  subst hlsn
  have hlt : lsn < d.lsnRange.start := by simpa [startsBy] using h
  exact lt_of_le_of_lt hx hlt

def Cutoffs.Retains (c : Cutoffs) (x : Lsn) : Prop :=
  c.newGcCutoff ≤ x ∨ (exists lsn, c.maxRetainLsn = some lsn ∧ x ≤ lsn) ∨
    exists lsn, c.maxLeaseLsn = some lsn ∧ x ≤ lsn

theorem replaceable_of_verdict (hverdict : verdict m c d = .ok .removed)
    (hexact : forall lsn, m.imageLayerExists d.keyRange lsn = .ok true ->
      HasImage layers lsn key) (hx : c.Retains x) :
    Replaceable layers key x d := by
  obtain ⟨hretain, hlease, hexists⟩ := verdict_eq_removed hverdict
  rcases hx with hx | ⟨lsn, hlsn, hx⟩ | ⟨lsn, hlsn, hx⟩
  · obtain ⟨image, hmem, himage, hrange, hle, hlt⟩ := hexact _ hexists
    exact Or.inr ⟨image, hmem, himage, hrange, hle, (le_of_lt hlt).trans hx⟩
  · exact Or.inl (lt_start_of_not_startsBy hretain hlsn hx)
  · exact Or.inl (lt_start_of_not_startsBy hlease hlsn hx)

section

variable (h : tl.collect io c = .ok (tl', res))

include h

/-- A collection changes nothing, or removes files of layers judged removable. -/
theorem collect_cases :
    tl' = tl ∨
    exists layers verdicts, tl.layers.iterHistoricLayers = .ok layers ∧
      layers.mapM (verdict tl.layers c) = .ok verdicts ∧
      tl.finishGcTimeline
        ((((layers.zip verdicts).filter (fun p => p.2 == .removed)).map Prod.fst).filterMap
          (tryGetFromKey tl.files)) = .ok tl' := by
  obtain ⟨layers, hlayers, h⟩ := bind_eq_ok_iff.mp h
  obtain ⟨verdicts, hverdicts, h⟩ := bind_eq_ok_iff.mp h
  simp only at h
  split at h
  · cases h
    exact Or.inl rfl
  · split at h
    · cases h
      exact Or.inl rfl
    · split at h
      · cases h
        exact Or.inl rfl
      · obtain ⟨_, hfinish, h⟩ := bind_eq_ok_iff.mp h
        cases h
        exact Or.inr ⟨layers, verdicts, hlayers, hverdicts, hfinish⟩

theorem eq_of_collect : tl' = { tl with layers := tl'.layers, files := tl'.files } := by
  rcases collect_cases h with rfl | ⟨_, _, _, _, hfinish⟩
  · rfl
  · obtain ⟨m1, _, hfinish⟩ := bind_eq_ok_iff.mp hfinish
    obtain ⟨m', _, hfinish⟩ := bind_eq_ok_iff.mp hfinish
    cases hfinish
    rfl

theorem collect_appliedGcCutoffLsn : tl'.appliedGcCutoffLsn = tl.appliedGcCutoffLsn := by
  rw [eq_of_collect h]

theorem collect_layers (hreach : tl.layers.Reachable)
    (hlayers : tl.layers.iterHistoricLayers = .ok layers) :
    exists layers', tl'.layers.iterHistoricLayers = .ok layers' ∧
      (forall d, d ∈ layers' -> d ∈ layers) ∧
      (forall d, d ∈ layers -> d ∉ layers' -> verdict tl.layers c d = .ok .removed) := by
  rcases collect_cases h with rfl | ⟨layers1, verdicts, hlayers1, hverdicts, hfinish⟩
  · exact ⟨layers, hlayers, fun _ hd => hd, fun d hd hnot => absurd hd hnot⟩
  · rw [hlayers] at hlayers1
    cases hlayers1
    obtain ⟨m1, hremove, hfinish⟩ := bind_eq_ok_iff.mp hfinish
    obtain ⟨m', hflush, hfinish⟩ := bind_eq_ok_iff.mp hfinish
    cases hfinish
    obtain ⟨layers', hiter, hsub, hgone⟩ :=
      removeAll_layers hreach.inv hlayers hremove hflush
    refine ⟨layers', hiter, hsub, ?_⟩
    intro d hd hnot
    obtain ⟨r, hr, hrd⟩ := hgone d hd hnot
    obtain ⟨l, hl, hfile⟩ := mem_filterMap.mp hr
    obtain ⟨p, hp, rfl⟩ := mem_map.mp hl
    obtain ⟨hzip, hremoved⟩ := mem_filter.mp hp
    -- the removed file stands for the judged layer, which is the lost one
    have hsame : sameKey r p.1 = true :=
      find?_some (p := fun file => sameKey file p.1) hfile
    have hlayer : p.1 = d :=
      eq_of_ofDesc_eq hlayers hreach.inv (of_mem_zip hzip).1 hd
        ((ofDesc_of_sameKey hsame).symm.trans hrd)
    rw [← hlayer, List.forall₂_zip (forall₂_of_mapM hverdicts) hzip, beq_iff_eq.mp hremoved]

end

/-- What stays readable: LSNs from the applied cutoff on, branch points and leases. -/
def Retained (tl tl' : GcTimeline) (x : Lsn) : Prop :=
  tl'.appliedGcCutoffLsn ≤ x ∨ x ∈ tl.gcInfo.retainLsns ∨
    exists validUntil, tl.gcInfo.leases.get? x = some validUntil

/-- The greatest branch point and the greatest lease stand for all of them. -/
theorem retains_of_retained (hcutoff : tl'.appliedGcCutoffLsn = c.newGcCutoff)
    (hretain : c.maxRetainLsn = tl.gcInfo.retainLsns.max?)
    (hlease : c.maxLeaseLsn = tl.gcInfo.leases.last?.map Prod.fst) (hx : Retained tl tl' x) :
    c.Retains x := by
  rcases hx with hx | hx | ⟨validUntil, hx⟩
  · exact Or.inl (hcutoff ▸ hx)
  · refine Or.inr (Or.inl ?_)
    cases hmax : tl.gcInfo.retainLsns.max? with
    | none =>
      rw [max?_eq_none_iff.mp hmax] at hx
      cases hx
    | some lsn => exact ⟨lsn, hretain.trans hmax, (max?_eq_some_iff.mp hmax).2 x hx⟩
  · refine Or.inr (Or.inr ?_)
    cases hlast : tl.gcInfo.leases.last? with
    | none =>
      rw [OrdMap.last?_eq_none_iff.mp hlast x] at hx
      cases hx
    | some entry =>
      refine ⟨entry.1, by rw [hlease, hlast]; rfl, ?_⟩
      exact (OrdMap.last?_eq_some_iff.mp hlast).2 x validUntil hx

theorem gc_cases (h : tl.gc io = .ok (tl', res)) :
    (tl'.layers = tl.layers ∧ tl'.appliedGcCutoffLsn = tl.appliedGcCutoffLsn) ∨
    exists c : Cutoffs, tl.appliedGcCutoffLsn < c.newGcCutoff ∧
      c.maxRetainLsn = tl.gcInfo.retainLsns.max? ∧
      c.maxLeaseLsn = tl.gcInfo.leases.last?.map Prod.fst ∧
      collect io { tl with standbyHorizon := 0, appliedGcCutoffLsn := c.newGcCutoff } c =
        .ok (tl', res) := by
  unfold gc at h
  split at h
  · cases h
    exact Or.inl ⟨rfl, rfl⟩
  · split at h
    · cases h
      exact Or.inl ⟨rfl, rfl⟩
    · dsimp only at h
      unfold gcTimeline at h
      split at h
      · cases h
        exact Or.inl ⟨rfl, rfl⟩
      next hcutoff =>
        split at h
        · cases h
          exact Or.inl ⟨rfl, rfl⟩
        · split at h
          · cases h
            exact Or.inl ⟨rfl, rfl⟩
          · exact Or.inr ⟨_, not_le.mp hcutoff, rfl, rfl, h⟩

theorem gc_appliedGcCutoffLsn (h : tl.gc io = .ok (tl', res)) :
    tl.appliedGcCutoffLsn ≤ tl'.appliedGcCutoffLsn := by
  rcases gc_cases h with ⟨_, hsame⟩ | ⟨c, hlt, _, _, hcollect⟩
  · exact hsame.ge
  · rw [collect_appliedGcCutoffLsn hcollect]
    exact hlt.le

theorem gc_keeps (hreach : tl.layers.Reachable)
    (hlayers : tl.layers.iterHistoricLayers = .ok layers) (hfits : FittingLayers layers)
    (h : tl.gc io = .ok (tl', res)) :
    exists layers', tl'.layers.iterHistoricLayers = .ok layers' ∧
      forall key x, Retained tl tl' x -> Keeps layers layers' key x := by
  rcases gc_cases h with ⟨hsame, _⟩ | ⟨c, _, hretain, hlease, hcollect⟩
  · refine ⟨layers, hsame ▸ hlayers, fun key x _ => ?_⟩
    exact keeps_of_replaceable (fun _ hd => hd) (fun d hd hnot => absurd hd hnot)
  · obtain ⟨layers', hlayers', hsub, hgone⟩ := collect_layers hcollect hreach hlayers
    refine ⟨layers', hlayers', fun key x hx => keeps_of_replaceable hsub ?_⟩
    intro d hd hnot hkey
    have hretains : c.Retains x :=
      retains_of_retained (collect_appliedGcCutoffLsn hcollect) hretain hlease hx
    refine replaceable_of_verdict (hgone d hd hnot) (fun lsn hexists => ?_) hretains
    obtain ⟨exist, hok, hiff⟩ := imageLayerExists_iff hreach hlayers (hfits d hd).1 (hfits d hd).2
      hfits.packed hfits.images (pos_of_imageLayerExists hkey hexists)
    exact hiff.mp (Except.ok.inj (hok.symm.trans hexists)) key hkey

/-!
## Sequences of runs
-/

/-- A run of the collector, or what changes between two runs. -/
inductive Event where
  | gc (io : GcIo)
  | refresh (layers : LayerMap) (files : List PersistentLayerDesc) (gcInfo : GcInfo)
      (diskConsistentLsn standbyHorizon : Lsn)

def next (tl : GcTimeline) : Event -> Except Panic GcTimeline
  | .gc io => (tl.gc io).map Prod.fst
  | .refresh layers files gcInfo diskConsistentLsn standbyHorizon =>
    .ok { tl with
      layers := layers
      files := files
      gcInfo := gcInfo
      diskConsistentLsn := diskConsistentLsn
      standbyHorizon := standbyHorizon }

theorem next_appliedGcCutoffLsn {event : Event} (h : tl.next event = .ok tl') :
    tl.appliedGcCutoffLsn ≤ tl'.appliedGcCutoffLsn := by
  cases event with
  | gc io =>
    cases hgc : tl.gc io with
    | error e =>
      rw [next, hgc] at h
      cases h
    | ok out =>
      rw [next, hgc] at h
      cases h
      exact gc_appliedGcCutoffLsn hgc
  | refresh =>
    cases h
    exact le_rfl

theorem run_appliedGcCutoffLsn {events : List Event} (h : events.foldlM next tl = .ok tl') :
    tl.appliedGcCutoffLsn ≤ tl'.appliedGcCutoffLsn := by
  induction events generalizing tl with
  | nil =>
    cases h
    exact le_rfl
  | cons event events ih =>
    obtain ⟨tl1, hnext, hrest⟩ := bind_eq_ok_iff.mp h
    exact (next_appliedGcCutoffLsn hnext).trans (ih hrest)

/-- Retained LSNs stay readable, and the applied cutoff never decreases. -/
theorem gc_keeps_retained_readable {tl : GcTimeline} (hreach : tl.layers.Reachable)
    {layers : List PersistentLayerDesc}
    (hlayers : tl.layers.iterHistoricLayers = .ok layers) (hfits : FittingLayers layers) :
    (forall io tl' res, tl.gc io = .ok (tl', res) ->
      exists layers', tl'.layers.iterHistoricLayers = .ok layers' ∧
        forall key x, Retained tl tl' x -> Keeps layers layers' key x) ∧
    (forall (events : List Event) (tl' : GcTimeline), events.foldlM next tl = .ok tl' ->
      tl.appliedGcCutoffLsn ≤ tl'.appliedGcCutoffLsn) := by
  refine ⟨?_, ?_⟩
  · intro io tl' res h
    exact gc_keeps hreach hlayers hfits h
  · intro events tl' h
    exact run_appliedGcCutoffLsn h

/-!
A delta below an image is collected once the cutoff has passed the image; with a
branch point inside the delta it stays.
-/

def oldDelta : PersistentLayerDesc :=
  { sampleDelta with
    lsnRange := ⟨10, 40⟩
    lsnRange_nonempty := by decide
    image_lsnRange := by decide }

def sampleLayerOps : List Op :=
  [.insertHistoric oldDelta, .insertHistoric sampleImage, .flushUpdates]

def sampleTimeline (retainLsns : List Lsn) : GcTimeline :=
  { layers := ofOps sampleLayerOps
    files := [oldDelta, sampleImage]
    gcInfo := { retainLsns := retainLsns, cutoffs := ⟨90, some 80⟩, leases := default }
    diskConsistentLsn := 100
    standbyHorizon := 0
    appliedGcCutoffLsn := 20 }

def quietIo : GcIo :=
  { cancelled := false, stopping := false, scheduleUploads := none
    uploadQueueStopped := false }

def afterGc (tl : GcTimeline) : Option (Lsn × List PersistentLayerDesc) :=
  match tl.gc quietIo with
  | .ok (tl', .ok _) =>
    tl'.layers.iterHistoricLayers.toOption.map (fun layers =>
      (tl'.appliedGcCutoffLsn, layers))
  | _ => none

theorem gc_keeps_retained_readable_sampleTimeline :
    afterGc (sampleTimeline []) = some (80, [sampleImage]) ∧
    afterGc (sampleTimeline [15]) = some (80, [oldDelta, sampleImage]) ∧
    exists tl' layers', tl'.layers.iterHistoricLayers = .ok layers' ∧
      (sampleTimeline []).gc quietIo = .ok (tl', .ok
        { layersTotal := 2, layersNotUpdated := 1, layersRemoved := 1 }) ∧
      Keeps [oldDelta, sampleImage] layers' (sampleKey 5) 85 := by
  have hlayers : (sampleTimeline []).layers.iterHistoricLayers = .ok [oldDelta, sampleImage] := rfl
  obtain ⟨hkeeps, _⟩ :=
    gc_keeps_retained_readable ⟨sampleLayerOps, rfl⟩ hlayers (by decide)
  refine ⟨rfl, rfl, ?_⟩
  obtain ⟨layers', hlayers', hread⟩ := hkeeps quietIo _ _ rfl
  exact ⟨_, layers', hlayers', rfl, hread _ 85 (Or.inl (by decide))⟩

end GcTimeline

end Pageserver
end OpenNeon

import OpenNeon.Base.System
import OpenNeon.Pageserver.Gc

/-!
# Leases and branches against concurrent collection

The collector reads the GC information of a timeline once and applies its cutoff
later.  It does not hold the lock `gc_cs`, under which the planned cutoffs are
refreshed and branches are created, and leases are granted under the lock of the GC
information alone.  The steps of this system are the regions between two locks.
-/

namespace OpenNeon
namespace Pageserver

open Base

abbrev TimelineId := Nat

/-!
## Where a lease is taken
-/

def XLOG_BLCKSZ : Nat := 8192

def WAL_SEGMENT_SIZE : Nat := 16 * 1024 * 1024

def XLOG_SIZE_OF_XLOG_SHORT_PHD : Nat := 24

def XLOG_SIZE_OF_XLOG_LONG_PHD : Nat := 40

/-- The next record position: aligned, and after the header on a page boundary. -/
def normalizeLsn (lsn : Lsn) : Lsn :=
  if lsn % XLOG_BLCKSZ = 0 then
    if lsn % WAL_SEGMENT_SIZE = 0 then lsn + XLOG_SIZE_OF_XLOG_LONG_PHD
    else lsn + XLOG_SIZE_OF_XLOG_SHORT_PHD
  else
    (lsn + 7) / 8 * 8

/-!
## The GC information of a timeline
-/

namespace GcCutoffs

/-- Without a time cutoff nothing may be collected. -/
def selectMin (c : GcCutoffs) : Lsn :=
  min c.space (c.time.getD 0)

/-- The later of two time cutoffs; one that was not computed is the earliest. -/
def maxTime : Option Lsn -> Option Lsn -> Option Lsn
  | some a, some b => some (max a b)
  | some a, none => some a
  | none, b => b

/-- The planned cutoffs after a refresh that found new ones. -/
def advance (original found : GcCutoffs) : GcCutoffs :=
  { space := max found.space original.space
    time := maxTime found.time original.time }

structure NotBefore (old new : GcCutoffs) : Prop where
  space : old.space ≤ new.space
  time : forall t, old.time = some t -> exists t', new.time = some t' ∧ t ≤ t'

theorem NotBefore.refl (c : GcCutoffs) : NotBefore c c :=
  ⟨le_refl _, fun t ht => ⟨t, ht, le_refl _⟩⟩

theorem NotBefore.trans {a b c : GcCutoffs} (hab : NotBefore a b) (hbc : NotBefore b c) :
    NotBefore a c := by
  constructor
  · exact le_trans hab.space hbc.space
  · intro t ht
    obtain ⟨t', ht', hle⟩ := hab.time t ht
    obtain ⟨t'', ht'', hle'⟩ := hbc.time t' ht'
    exact ⟨t'', ht'', le_trans hle hle'⟩

theorem notBefore_advance (original found : GcCutoffs) :
    NotBefore original (original.advance found) := by
  constructor
  · exact le_max_right _ _
  · intro t ht
    unfold advance
    simp only [ht]
    cases found.time with
    | none => exact ⟨t, rfl, le_refl _⟩
    | some t' => exact ⟨max t' t, rfl, le_max_right _ _⟩

theorem NotBefore.selectMin_le {old new : GcCutoffs} (h : NotBefore old new) :
    old.selectMin ≤ new.selectMin := by
  apply min_le_min h.space
  cases hold : old.time with
  | none => exact Nat.zero_le _
  | some t =>
    obtain ⟨t', hnew, hle⟩ := h.time t hold
    rw [hnew]
    exact hle

end GcCutoffs

inductive MaybeOffloaded where
  | yes
  | no
  deriving DecidableEq

/-- A branch point, with the branch that needs it. -/
structure Child where
  lsn : Lsn
  child : TimelineId
  offloaded : MaybeOffloaded

structure GcPlan where
  spaceCutoff : Lsn
  timeCutoff : Option Lsn
  retainLsns : List Lsn
  maxLsnWithValidLease : Option Lsn

namespace GcPlan

/-- The cutoff of a run, before it is held back for a standby. -/
def cutoff (plan : GcPlan) : Lsn :=
  min plan.spaceCutoff (plan.timeCutoff.getD 0)

def retained (plan : GcPlan) : List Lsn :=
  plan.retainLsns ++ plan.maxLsnWithValidLease.toList

def Retains (plan : GcPlan) (x : Lsn) : Prop :=
  exists y, y ∈ plan.retained ∧ x ≤ y

end GcPlan

/-- How far the run of the collector that holds the timeline's `gc_lock` has come. -/
inductive GcRun where
  | idle
  | planned (plan : GcPlan)
  | held (plan : GcPlan) (newGcCutoff : Lsn)
  | applied (plan : GcPlan) (timeCutoff newGcCutoff : Lsn)

/-- The part of a timeline that leases, branches and the collector use. -/
structure TenantTimeline where
  layers : LayerMap
  files : List PersistentLayerDesc
  ancestor : Option (TimelineId × Lsn)
  lastRecordLsn : Lsn
  diskConsistentLsn : Lsn
  standbyHorizon : Lsn
  appliedGcCutoffLsn : Lsn
  retainLsns : List Child
  cutoffs : GcCutoffs
  leases : OrdMap Lsn Nat
  gcRun : GcRun

/-!
## Leases
-/

structure LeaseCall where
  lsn : Lsn
  length : Nat
  initial : Bool
  now : Nat
  gcBlockedByLsnLeaseDeadline : Bool

inductive LeaseError where
  | belowLatestGcCutoff (requested cutoff : Lsn)
  | belowPlannedGcCutoff (requested planned : Lsn)

namespace TenantTimeline

variable (tl : TenantTimeline)

def minCutoff : Lsn :=
  tl.cutoffs.selectMin

def lsnCoveredByLease (lsn : Lsn) : Bool :=
  (tl.leases.get? lsn).isSome

/-- Grants or extends a lease; the answer is the end of its validity. -/
def makeLsnLease (call : LeaseCall) : Except LeaseError Nat × TenantTimeline :=
  let lsn := normalizeLsn call.lsn
  let validUntil := call.now + call.length
  match tl.leases.get? lsn with
  | some existing =>
    if existing < validUntil then
      (.ok validUntil, { tl with leases := tl.leases.insert lsn validUntil })
    else
      (.ok existing, tl)
  | none =>
    if lsn < tl.appliedGcCutoffLsn then
      (.error (.belowLatestGcCutoff lsn tl.appliedGcCutoffLsn), tl)
    else if (call.initial || !call.gcBlockedByLsnLeaseDeadline) = true ∧
        lsn < tl.minCutoff then
      (.error (.belowPlannedGcCutoff lsn tl.minCutoff), tl)
    else
      (.ok validUntil, { tl with leases := tl.leases.insert lsn validUntil })

/-!
## The collector, region by region
-/

/-- The timeline as one uninterrupted run of the collector sees it. -/
def toGcTimeline : GcTimeline :=
  { layers := tl.layers
    files := tl.files
    gcInfo :=
      { retainLsns := tl.retainLsns.map Child.lsn
        cutoffs := tl.cutoffs
        leases := tl.leases }
    diskConsistentLsn := tl.diskConsistentLsn
    standbyHorizon := tl.standbyHorizon
    appliedGcCutoffLsn := tl.appliedGcCutoffLsn }

def gcPlan : GcPlan :=
  { spaceCutoff := min tl.cutoffs.space tl.diskConsistentLsn
    timeCutoff := tl.cutoffs.time
    retainLsns := tl.retainLsns.map Child.lsn
    maxLsnWithValidLease := tl.leases.last?.map Prod.fst }

def holdCutoff (plan : GcPlan) : TenantTimeline :=
  { tl with
    standbyHorizon := 0
    gcRun := .held plan (GcTimeline.holdForStandby plan.cutoff tl.standbyHorizon) }

def applyCutoff (plan : GcPlan) (newGcCutoff : Lsn) : TenantTimeline :=
  if newGcCutoff ≤ tl.appliedGcCutoffLsn then
    { tl with gcRun := .idle }
  else
    match plan.timeCutoff with
    | none => { tl with gcRun := .idle }
    | some timeCutoff =>
      if newGcCutoff < tl.appliedGcCutoffLsn then
        { tl with gcRun := .idle }
      else
        { tl with
          appliedGcCutoffLsn := newGcCutoff
          gcRun := .applied plan timeCutoff newGcCutoff }

def runCutoffs (plan : GcPlan) (timeCutoff newGcCutoff : Lsn) : GcTimeline.Cutoffs :=
  { space := plan.spaceCutoff
    time := timeCutoff
    maxRetainLsn := plan.retainLsns.max?
    maxLeaseLsn := plan.maxLsnWithValidLease
    newGcCutoff := newGcCutoff }

def collectLayers (io : GcIo) (c : GcTimeline.Cutoffs) : TenantTimeline :=
  match tl.toGcTimeline.collect io c with
  | .ok (collected, _) =>
    { tl with layers := collected.layers, files := collected.files, gcRun := .idle }
  | .error _ => { tl with gcRun := .idle }

inductive Event where
  | observe (lastRecordLsn diskConsistentLsn standbyHorizon : Lsn)
  | lease (call : LeaseCall)
  | gcPlan
  | gcHold
  | gcApply
  | gcCollect (io : GcIo)
  | gcStop

def next : Event -> Option TenantTimeline
  | .observe lastRecordLsn diskConsistentLsn standbyHorizon =>
    some { tl with
      lastRecordLsn := lastRecordLsn
      diskConsistentLsn := diskConsistentLsn
      standbyHorizon := standbyHorizon }
  | .lease call => some (tl.makeLsnLease call).2
  | .gcPlan =>
    match tl.gcRun with
    | .idle => some { tl with gcRun := .planned tl.gcPlan }
    | _ => none
  | .gcHold =>
    match tl.gcRun with
    | .planned plan => some (tl.holdCutoff plan)
    | _ => none
  | .gcApply =>
    match tl.gcRun with
    | .held plan newGcCutoff => some (tl.applyCutoff plan newGcCutoff)
    | _ => none
  | .gcCollect io =>
    match tl.gcRun with
    | .applied plan timeCutoff newGcCutoff =>
      some (tl.collectLayers io (runCutoffs plan timeCutoff newGcCutoff))
    | _ => none
  | .gcStop => some { tl with gcRun := .idle }

/-!
## Under the lock
-/

/-- Removes expired leases and moves the planned cutoffs up. -/
def refresh (found : Option GcCutoffs) (now : Nat) : TenantTimeline :=
  { tl with
    leases := tl.leases.filterKeys
      (fun lsn => (tl.leases.get? lsn).all (fun validUntil => !decide (validUntil < now)))
    cutoffs :=
      match found with
      | some found => tl.cutoffs.advance found
      | none => tl.cutoffs }

def insertChild (child : TimelineId) (lsn : Lsn) (offloaded : MaybeOffloaded) : TenantTimeline :=
  { tl with
    retainLsns := (tl.retainLsns ++ [Child.mk lsn child offloaded]).mergeSort
      (fun a b => decide (a.lsn ≤ b.lsn)) }

def removeChildNotOffloaded (child : TimelineId) : TenantTimeline :=
  { tl with
    retainLsns := tl.retainLsns.eraseP
      (fun c => decide (c.child = child) && decide (c.offloaded = .no)) }

def newBranch (src : TimelineId) (tl : TenantTimeline) (startLsn : Lsn) : TenantTimeline :=
  { layers := .default
    files := []
    ancestor := some (src, startLsn)
    lastRecordLsn := startLsn
    diskConsistentLsn := startLsn
    standbyHorizon := 0
    appliedGcCutoffLsn := tl.appliedGcCutoffLsn
    retainLsns := []
    cutoffs := { space := 0, time := none }
    leases := .empty
    gcRun := .idle }

end TenantTimeline

inductive BranchStage where
  | locked
  | cutoffRead (appliedGcCutoffLsn : Lsn)
  | checked
  | prepared

structure Branching where
  src : TimelineId
  dst : TimelineId
  startLsn : Lsn
  stage : BranchStage

inductive GcCsHolder where
  | refresh
  | branch (b : Branching)

/-- Timelines, branch points of offloaded timelines, and the lock. -/
structure GcTenant where
  timelines : TimelineId -> Option TenantTimeline
  offloaded : TimelineId -> Option (TimelineId × Lsn)
  gcCs : Option GcCsHolder

namespace GcTenant

variable (s : GcTenant)

def set (id : TimelineId) (tl : TenantTimeline) : GcTenant :=
  { s with timelines := Function.update s.timelines id (some tl) }

def hold (holder : Option GcCsHolder) : GcTenant :=
  { s with gcCs := holder }

/-- The branch point of a timeline that exists, offloaded or not. -/
def branchPoint (child : TimelineId) : Option (TimelineId × Lsn) :=
  match s.timelines child with
  | some tl => tl.ancestor
  | none => s.offloaded child

/-- The branch may start where a lease holds, or above both cutoffs. -/
def branchLsnIsValid (tl : TenantTimeline) (appliedGcCutoffLsn startLsn : Lsn) : Bool :=
  tl.lsnCoveredByLease startLsn ||
    (decide (appliedGcCutoffLsn ≤ startLsn) && !decide (startLsn < tl.minCutoff))

/-- Takes the lock; a timeline of that name that exists ends the call. -/
def branchLock (src dst : TimelineId) (startLsn : Option Lsn) : Option GcTenant :=
  match s.gcCs, s.timelines src with
  | none, some tl =>
    match s.timelines dst, s.offloaded dst with
    | none, none =>
      some (s.hold (some (.branch
        { src := src
          dst := dst
          startLsn := startLsn.getD tl.lastRecordLsn
          stage := .locked })))
    | _, _ => some s
  | _, _ => none

/-- The creation is given up, and with it the branch point it had entered. -/
def branchFail (b : Branching) : GcTenant :=
  match b.stage, s.timelines b.src with
  | .prepared, some tl => (s.set b.src (tl.removeChildNotOffloaded b.dst)).hold none
  | _, _ => s.hold none

/-- One region of the creation of a branch, the source timeline being given. -/
def branchStep (b : Branching) (tl : TenantTimeline) : GcTenant :=
  match b.stage with
  | .locked => s.hold (some (.branch { b with stage := .cutoffRead tl.appliedGcCutoffLsn }))
  | .cutoffRead appliedGcCutoffLsn =>
    if branchLsnIsValid tl appliedGcCutoffLsn b.startLsn then
      s.hold (some (.branch { b with stage := .checked }))
    else
      s.branchFail b
  | .checked =>
    (s.set b.src (tl.insertChild b.dst b.startLsn .no)).hold
      (some (.branch { b with stage := .prepared }))
  | .prepared =>
    match s.timelines b.dst with
    | some _ => s.branchFail b
    | none => (s.set b.dst (.newBranch b.src tl b.startLsn)).hold none

inductive Event where
  | timeline (id : TimelineId) (e : TenantTimeline.Event)
  | refreshLock
  | refreshTimeline (id : TimelineId) (found : Option GcCutoffs) (now : Nat)
  | refreshUnlock
  | branchLock (src dst : TimelineId) (startLsn : Option Lsn)
  | branchStep
  | branchFail

def next : Event -> Option GcTenant
  | .timeline id e => ((s.timelines id).bind (fun tl => tl.next e)).map (s.set id)
  | .refreshLock =>
    match s.gcCs with
    | none => some (s.hold (some .refresh))
    | some _ => none
  | .refreshTimeline id found now =>
    match s.gcCs with
    | some .refresh => (s.timelines id).map (fun tl => s.set id (tl.refresh found now))
    | _ => none
  | .refreshUnlock =>
    match s.gcCs with
    | some .refresh => some (s.hold none)
    | _ => none
  | .branchLock src dst startLsn => s.branchLock src dst startLsn
  | .branchStep =>
    match s.gcCs with
    | some (.branch b) => (s.timelines b.src).map (s.branchStep b)
    | _ => none
  | .branchFail =>
    match s.gcCs with
    | some (.branch b) => some (s.branchFail b)
    | _ => none

/-- No run is in flight on a timeline whose leases are not checked against the plan. -/
def Proper : Event -> Prop
  | .timeline id (.lease call) =>
    call.gcBlockedByLsnLeaseDeadline = true ->
      forall tl, s.timelines id = some tl -> tl.gcRun = .idle
  | _ => True

end GcTenant

/-!
## Without interruption

If nothing happens between its regions, a run does what the collector of one timeline
does.
-/

namespace TenantTimeline

theorem gc_eq_gcTimeline (tl : TenantTimeline) {io : GcIo} (hcancelled : io.cancelled = false)
    (hstopping : io.stopping = false) :
    tl.toGcTimeline.gc io =
      GcTimeline.gcTimeline io (tl.holdCutoff tl.gcPlan).toGcTimeline tl.gcPlan.spaceCutoff
        tl.gcPlan.timeCutoff tl.gcPlan.retainLsns tl.gcPlan.maxLsnWithValidLease
        (GcTimeline.holdForStandby tl.gcPlan.cutoff tl.standbyHorizon) := by
  unfold GcTimeline.gc
  rw [hcancelled, hstopping]
  rfl

theorem toGcTimeline_collectLayers {tl : TenantTimeline} {io : GcIo} {c : GcTimeline.Cutoffs}
    {collected : GcTimeline} {res : Except GcError GcResult}
    (h : tl.toGcTimeline.collect io c = .ok (collected, res)) :
    (tl.collectLayers io c).toGcTimeline = collected := by
  unfold collectLayers
  rw [h, GcTimeline.eq_of_collect h]
  rfl

theorem gcTimeline_applyCutoff {tl : TenantTimeline} {io : GcIo} {plan : GcPlan}
    {newGcCutoff : Lsn} {collected : GcTimeline} {res : Except GcError GcResult}
    (h : GcTimeline.gcTimeline io tl.toGcTimeline plan.spaceCutoff plan.timeCutoff
      plan.retainLsns plan.maxLsnWithValidLease newGcCutoff = .ok (collected, res)) :
    (tl.applyCutoff plan newGcCutoff).toGcTimeline = collected ∨
      exists tl', (tl.applyCutoff plan newGcCutoff).next (.gcCollect io) = some tl' ∧
        tl'.toGcTimeline = collected := by
  unfold GcTimeline.gcTimeline at h
  unfold applyCutoff
  have happlied : tl.toGcTimeline.appliedGcCutoffLsn = tl.appliedGcCutoffLsn := rfl
  rw [happlied] at h
  split at h
  next hnothing =>
    cases h
    rw [if_pos hnothing]
    exact Or.inl rfl
  next hmore =>
    rw [if_neg hmore]
    cases htime : plan.timeCutoff with
    | none =>
      rw [htime] at h
      cases h
      exact Or.inl rfl
    | some timeCutoff =>
      rw [htime] at h
      dsimp only at h ⊢
      split at h
      next hback =>
        cases h
        rw [if_pos hback]
        exact Or.inl rfl
      next hforward =>
        rw [if_neg hforward]
        exact Or.inr ⟨_, rfl, toGcTimeline_collectLayers h⟩

theorem uninterrupted_run {tl : TenantTimeline} (hidle : tl.gcRun = .idle) {io : GcIo}
    (hcancelled : io.cancelled = false) (hstopping : io.stopping = false)
    {collected : GcTimeline} {res : Except GcError GcResult}
    (h : tl.toGcTimeline.gc io = .ok (collected, res)) :
    exists tl', [Event.gcPlan, .gcHold, .gcApply].foldlM next tl = some tl' ∧
      (tl'.toGcTimeline = collected ∨
        exists tl'', tl'.next (.gcCollect io) = some tl'' ∧ tl''.toGcTimeline = collected) := by
  rw [gc_eq_gcTimeline tl hcancelled hstopping] at h
  let planned := { tl with gcRun := .planned tl.gcPlan }
  refine ⟨_, ?_, @gcTimeline_applyCutoff (planned.holdCutoff tl.gcPlan) io _ _ _ _ h⟩
  simp only [List.foldlM_cons, next, hidle]
  rfl

end TenantTimeline

end Pageserver
end OpenNeon

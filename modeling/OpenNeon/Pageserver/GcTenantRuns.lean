import OpenNeon.Pageserver.GcTenant

/-!
# Granted leases and branches survive collection

Planned cutoffs never go back, and a lease or branch is only granted above them or
where something that is granted already holds the LSN.  So a run in flight, which
stays within the plan it read, either does not pass the LSN or retains it.
-/

namespace OpenNeon
namespace Pageserver

open Base TenantTimeline List Option

/-!
## What a run in flight protects

A run that has read the GC information protects an LSN when its cutoff does not pass
the LSN or when it retains something at or above it.
-/

theorem GcTimeline.holdForStandby_le (newGcCutoff standbyHorizon : Lsn) :
    holdForStandby newGcCutoff standbyHorizon ≤ newGcCutoff := by
  unfold holdForStandby
  split_ifs
  · exact le_refl _
  · exact le_refl _
  · exact min_le_right _ _
  · exact le_refl _

namespace GcRun

/-- The cutoff of the run in flight and what it retains. -/
def pending : GcRun -> Option (Lsn × GcPlan)
  | .idle => none
  | .planned plan => some (plan.cutoff, plan)
  | .held plan newGcCutoff => some (newGcCutoff, plan)
  | .applied plan _ newGcCutoff => some (newGcCutoff, plan)

def Protects (run : GcRun) (x : Lsn) : Prop :=
  forall cutoff plan, run.pending = some (cutoff, plan) -> cutoff ≤ x ∨ plan.Retains x

def Within (run : GcRun) (planned : Lsn) : Prop :=
  forall cutoff plan, run.pending = some (cutoff, plan) -> cutoff ≤ planned

/-- The run goes on with the same plan and a cutoff that is not higher, or ends. -/
def Continues (run run' : GcRun) : Prop :=
  forall cutoff' plan, run'.pending = some (cutoff', plan) ->
    exists cutoff, run.pending = some (cutoff, plan) ∧ cutoff' ≤ cutoff

theorem Continues.refl (run : GcRun) : Continues run run :=
  fun cutoff _ h => ⟨cutoff, h, le_refl _⟩

theorem continues_idle (run : GcRun) : Continues run .idle :=
  fun _ _ h => nomatch h

variable {run : GcRun}

theorem Within.mono {a b : Lsn} (h : run.Within a) (hle : a ≤ b) : run.Within b :=
  fun cutoff plan hp => le_trans (h cutoff plan hp) hle

variable {run' : GcRun} {planned x : Lsn}

theorem Within.continues (h : run.Within planned) (hc : Continues run run') :
    run'.Within planned := by
  intro cutoff' plan hp
  obtain ⟨cutoff, hrun, hle⟩ := hc cutoff' plan hp
  exact le_trans hle (h cutoff plan hrun)

theorem Protects.continues (h : run.Protects x) (hc : Continues run run') : run'.Protects x := by
  intro cutoff' plan hp
  obtain ⟨cutoff, hrun, hle⟩ := hc cutoff' plan hp
  exact (h cutoff plan hrun).imp_left (le_trans hle)

theorem Within.protects (h : run.Within planned) (hle : planned ≤ x) : run.Protects x :=
  fun cutoff plan hp => Or.inl (le_trans (h cutoff plan hp) hle)

end GcRun

namespace TenantTimeline

/-- The run stays within the planned cutoffs and protects leases and branch points. -/
structure Safe (tl : TenantTimeline) : Prop where
  within : tl.gcRun.Within tl.minCutoff
  leases : forall x, tl.lsnCoveredByLease x = true -> tl.gcRun.Protects x
  children : forall c, c ∈ tl.retainLsns -> tl.gcRun.Protects c.lsn

/-- A branch may be created at the LSN: no run in flight or planned now passes it. -/
structure Covered (tl : TenantTimeline) (x : Lsn) : Prop where
  valid : tl.lsnCoveredByLease x = true ∨ tl.minCutoff ≤ x
  guarded : tl.gcRun.Protects x

variable {tl tl' : TenantTimeline} {x lsn : Lsn} {c : Child} {child : TimelineId}

theorem safe_of_idle (h : tl.gcRun = .idle) : tl.Safe := by
  have hzero : tl.gcRun.Within 0 := by
    rw [h]
    rintro _ _ ⟨⟩
  have hprotects : forall x, tl.gcRun.Protects x := fun x => hzero.protects (Nat.zero_le x)
  exact ⟨hzero.mono (Nat.zero_le _), fun x _ => hprotects x, fun c _ => hprotects c.lsn⟩

theorem Safe.covered (h : tl.Safe) (hvalid : tl.lsnCoveredByLease x = true ∨ tl.minCutoff ≤ x) :
    tl.Covered x := by
  refine ⟨hvalid, ?_⟩
  rcases hvalid with hlease | hle
  · exact h.leases x hlease
  · exact h.within.protects hle

/-!
## Steps without the lock

Such a step leaves the plan, the branch points and the granted leases in place.
-/

structure Keeps (tl tl' : TenantTimeline) : Prop where
  ancestor : tl'.ancestor = tl.ancestor
  retainLsns : tl'.retainLsns = tl.retainLsns
  cutoffs : tl'.cutoffs = tl.cutoffs
  leases : forall x, tl.lsnCoveredByLease x = true -> tl'.lsnCoveredByLease x = true
  safe : tl.Safe -> tl'.Safe
  guarded : forall x, tl.Covered x -> tl'.gcRun.Protects x

theorem Keeps.covered (h : Keeps tl tl') (hx : tl.Covered x) : tl'.Covered x := by
  refine ⟨hx.valid.imp (h.leases x) ?_, h.guarded x hx⟩
  intro hle
  unfold minCutoff
  rw [h.cutoffs]
  exact hle

/-- The step is of the collector's run, or of something else beside it. -/
theorem keeps_of_continues (hancestor : tl'.ancestor = tl.ancestor)
    (hretain : tl'.retainLsns = tl.retainLsns) (hcutoffs : tl'.cutoffs = tl.cutoffs)
    (hleases : tl'.leases = tl.leases) (hrun : tl.gcRun.Continues tl'.gcRun) :
    Keeps tl tl' := by
  have hlease : forall x, tl'.lsnCoveredByLease x = tl.lsnCoveredByLease x := by
    intro x
    unfold lsnCoveredByLease
    rw [hleases]
  refine ⟨hancestor, hretain, hcutoffs, fun x hx => (hlease x).trans hx, ?_, ?_⟩
  · intro hsafe
    constructor
    · unfold minCutoff
      rw [hcutoffs]
      exact hsafe.within.continues hrun
    · intro x hx
      exact (hsafe.leases x ((hlease x).symm.trans hx)).continues hrun
    · intro c hc
      rw [hretain] at hc
      exact (hsafe.children c hc).continues hrun
  · intro x hx
    exact hx.guarded.continues hrun

variable {validUntil : Nat} {plan : GcPlan} {offloaded : MaybeOffloaded}

theorem lsnCoveredByLease_insert :
    lsnCoveredByLease { tl with leases := tl.leases.insert lsn validUntil } x = true <->
      x = lsn ∨ tl.lsnCoveredByLease x = true := by
  unfold lsnCoveredByLease
  rw [OrdMap.get?_insert]
  split <;> simp_all

theorem keeps_insertLease (hlsn : tl.Safe -> tl.gcRun.Protects lsn) :
    Keeps tl { tl with leases := tl.leases.insert lsn validUntil } := by
  refine ⟨rfl, rfl, rfl, ?_, ?_, fun x hx => hx.guarded⟩
  · intro x hx
    exact lsnCoveredByLease_insert.mpr (Or.inr hx)
  · intro hsafe
    refine ⟨hsafe.within, ?_, hsafe.children⟩
    intro x hx
    rcases lsnCoveredByLease_insert.mp hx with heq | hx
    · rw [heq]
      exact hlsn hsafe
    · exact hsafe.leases x hx

theorem keeps_makeLsnLease {call : LeaseCall}
    (hproper : call.gcBlockedByLsnLeaseDeadline = true -> tl.gcRun = .idle) :
    Keeps tl (tl.makeLsnLease call).2 := by
  have hsame : Keeps tl tl :=
    keeps_of_continues rfl rfl rfl rfl (GcRun.Continues.refl _)
  unfold makeLsnLease
  dsimp only
  split
  next existing hget =>
    split
    · apply keeps_insertLease
      intro hsafe
      apply hsafe.leases
      unfold lsnCoveredByLease
      rw [hget]
      rfl
    · exact hsame
  · split
    · exact hsame
    · split
      · exact hsame
      next hplanned =>
        apply keeps_insertLease
        intro hsafe
        cases hblocked : call.gcBlockedByLsnLeaseDeadline with
        | true =>
          intro cutoff plan hp
          rw [hproper hblocked] at hp
          cases hp
        | false =>
          rw [hblocked] at hplanned
          apply hsafe.within.protects
          by_contra hlt
          exact hplanned ⟨by simp, not_le.mp hlt⟩

theorem cutoff_gcPlan_le (tl : TenantTimeline) : tl.gcPlan.cutoff ≤ tl.minCutoff :=
  min_le_min_right _ (min_le_left _ _)

theorem retains_gcPlan_of_lease (hx : tl.lsnCoveredByLease x = true) : tl.gcPlan.Retains x := by
  obtain ⟨validUntil, hget⟩ := isSome_iff_exists.mp hx
  cases hlast : tl.leases.last? with
  | none =>
    rw [OrdMap.last?_eq_none_iff.mp hlast x] at hget
    cases hget
  | some entry =>
    refine ⟨entry.1, ?_, (OrdMap.last?_eq_some_iff.mp hlast).2 x validUntil hget⟩
    simp [GcPlan.retained, gcPlan, hlast]

theorem retains_gcPlan_of_child (hc : c ∈ tl.retainLsns) : tl.gcPlan.Retains c.lsn := by
  refine ⟨c.lsn, ?_, le_refl _⟩
  exact mem_append_left _ (mem_map_of_mem hc)

theorem keeps_planned (tl : TenantTimeline) : Keeps tl { tl with gcRun := .planned tl.gcPlan } := by
  refine ⟨rfl, rfl, rfl, fun x hx => hx, ?_, ?_⟩
  · intro _
    constructor
    · rintro _ _ ⟨⟩
      exact cutoff_gcPlan_le tl
    · rintro x hx _ _ ⟨⟩
      exact Or.inr (retains_gcPlan_of_lease hx)
    · rintro c hc _ _ ⟨⟩
      exact Or.inr (retains_gcPlan_of_child hc)
  · rintro x hx _ _ ⟨⟩
    rcases hx.valid with hlease | hle
    · exact Or.inr (retains_gcPlan_of_lease hlease)
    · exact Or.inl (le_trans (cutoff_gcPlan_le tl) hle)

theorem continues_holdCutoff (hrun : tl.gcRun = .planned plan) :
    tl.gcRun.Continues (tl.holdCutoff plan).gcRun := by
  rintro _ _ ⟨⟩
  exact ⟨plan.cutoff, by rw [hrun]; rfl, GcTimeline.holdForStandby_le _ _⟩

theorem keeps_applyCutoff {newGcCutoff : Lsn} (hrun : tl.gcRun = .held plan newGcCutoff) :
    Keeps tl (tl.applyCutoff plan newGcCutoff) := by
  have hidle : Keeps tl { tl with gcRun := .idle } :=
    keeps_of_continues rfl rfl rfl rfl (GcRun.continues_idle _)
  unfold applyCutoff
  split
  · exact hidle
  · split
    · exact hidle
    · split
      · exact hidle
      · refine keeps_of_continues rfl rfl rfl rfl ?_
        rintro _ _ ⟨⟩
        exact ⟨newGcCutoff, by rw [hrun]; rfl, le_refl _⟩

theorem keeps_collectLayers (tl : TenantTimeline) (io : GcIo) (c : GcTimeline.Cutoffs) :
    Keeps tl (tl.collectLayers io c) := by
  unfold collectLayers
  split <;> exact keeps_of_continues rfl rfl rfl rfl (GcRun.continues_idle _)

theorem keeps_next {e : Event}
    (hproper : forall call, e = .lease call -> call.gcBlockedByLsnLeaseDeadline = true ->
      tl.gcRun = .idle) (h : tl.next e = some tl') : Keeps tl tl' := by
  cases e with
  | observe =>
    cases h
    exact keeps_of_continues rfl rfl rfl rfl (GcRun.Continues.refl _)
  | lease call =>
    cases h
    exact keeps_makeLsnLease (hproper call rfl)
  | gcPlan =>
    dsimp only [next] at h
    split at h
    · cases h
      exact keeps_planned tl
    · cases h
  | gcHold =>
    dsimp only [next] at h
    split at h
    next plan hrun =>
      cases h
      exact keeps_of_continues rfl rfl rfl rfl (continues_holdCutoff hrun)
    · cases h
  | gcApply =>
    dsimp only [next] at h
    split at h
    next plan newGcCutoff hrun =>
      cases h
      exact keeps_applyCutoff hrun
    · cases h
  | gcCollect io =>
    dsimp only [next] at h
    split at h
    · cases h
      exact keeps_collectLayers tl io _
    · cases h
  | gcStop =>
    cases h
    exact keeps_of_continues rfl rfl rfl rfl (GcRun.continues_idle _)

/-!
## Steps under the lock
-/

theorem notBefore_refresh (tl : TenantTimeline) (found : Option GcCutoffs) (now : Nat) :
    tl.cutoffs.NotBefore (tl.refresh found now).cutoffs := by
  cases found with
  | none => exact GcCutoffs.NotBefore.refl _
  | some found => exact GcCutoffs.notBefore_advance _ _

theorem safe_refresh (h : tl.Safe) (found : Option GcCutoffs) (now : Nat) :
    (tl.refresh found now).Safe := by
  constructor
  · exact h.within.mono (notBefore_refresh tl found now).selectMin_le
  · intro x hx
    apply h.leases
    unfold lsnCoveredByLease refresh at hx
    rw [OrdMap.get?_filterKeys] at hx
    split at hx
    · exact hx
    · cases hx
  · exact h.children

theorem mem_insertChild :
    c ∈ (tl.insertChild child lsn offloaded).retainLsns <->
      c ∈ tl.retainLsns ∨ c = ⟨lsn, child, offloaded⟩ := by
  unfold insertChild
  rw [mem_mergeSort, mem_append, mem_singleton]

theorem safe_insertChild (h : tl.Safe) (hlsn : tl.gcRun.Protects lsn) :
    (tl.insertChild child lsn offloaded).Safe := by
  refine ⟨h.within, h.leases, ?_⟩
  intro c hc
  rcases mem_insertChild.mp hc with hc | hc
  · exact h.children c hc
  · rw [hc]
    exact hlsn

theorem safe_removeChild (h : tl.Safe) (child : TimelineId) :
    (tl.removeChildNotOffloaded child).Safe :=
  ⟨h.within, h.leases, fun c hc => h.children c (mem_of_mem_eraseP hc)⟩

theorem mem_removeChild_of_ne (hne : c.child ≠ child) (hc : c ∈ tl.retainLsns) :
    c ∈ (tl.removeChildNotOffloaded child).retainLsns := by
  apply (mem_eraseP_of_neg _).mpr hc
  simp [hne]

end TenantTimeline

/-!
## Runs of the tenant
-/

namespace GcTenant

/-- Every branch is among the branch points of its ancestor. -/
def Listed (s : GcTenant) : Prop :=
  forall child src x, s.branchPoint child = some (src, x) ->
    exists tl, s.timelines src = some tl ∧
      exists c, c ∈ tl.retainLsns ∧ c.child = child ∧ c.lsn = x

/-- The branch does not exist; it is covered once checked, and a branch point once prepared. -/
structure BranchOk (s : GcTenant) (b : Branching) : Prop where
  fresh : s.timelines b.dst = none
  notOffloaded : s.offloaded b.dst = none
  checked : b.stage = .checked ->
    exists tl, s.timelines b.src = some tl ∧ tl.Covered b.startLsn
  prepared : b.stage = .prepared ->
    exists tl, s.timelines b.src = some tl ∧ ⟨b.startLsn, b.dst, .no⟩ ∈ tl.retainLsns

structure Inv (s : GcTenant) : Prop where
  safe : forall id tl, s.timelines id = some tl -> tl.Safe
  listed : s.Listed
  branching : forall b, s.gcCs = some (.branch b) -> s.BranchOk b

/-- No run of the collector, refresh or creation of a branch is in flight. -/
structure Settled (s : GcTenant) : Prop where
  free : s.gcCs = none
  idle : forall id tl, s.timelines id = some tl -> tl.gcRun = .idle
  listed : s.Listed

variable {s s' : GcTenant} {b : Branching} {id : TimelineId} {tl tl' : TenantTimeline}

theorem Settled.inv (h : s.Settled) : s.Inv := by
  refine ⟨fun id tl htl => safe_of_idle (h.idle id tl htl), h.listed, ?_⟩
  intro b hb
  rw [h.free] at hb
  cases hb

section Set

variable {s : GcTenant} {id : TimelineId} {tl tl' : TenantTimeline}

theorem timelines_set_self : (s.set id tl').timelines id = some tl' :=
  Function.update_self _ _ _

theorem timelines_set_of_ne {j : TimelineId} (hne : j ≠ id) :
    (s.set id tl').timelines j = s.timelines j :=
  Function.update_of_ne hne _ _

theorem branchPoint_set (htl : s.timelines id = some tl)
    (hancestor : tl'.ancestor = tl.ancestor) (child : TimelineId) :
    (s.set id tl').branchPoint child = s.branchPoint child := by
  unfold branchPoint
  by_cases hchild : child = id
  · rw [hchild, timelines_set_self, htl]
    exact hancestor
  · rw [timelines_set_of_ne hchild]
    rfl

theorem exists_set {P : TenantTimeline -> Prop} {j : TimelineId} (htl : s.timelines id = some tl)
    (hP : P tl -> P tl') (h : exists t, s.timelines j = some t ∧ P t) :
    exists t, (s.set id tl').timelines j = some t ∧ P t := by
  obtain ⟨t, ht, hPt⟩ := h
  by_cases hid : j = id
  · rw [hid, htl] at ht
    cases ht
    exact ⟨tl', by rw [hid, timelines_set_self], hP hPt⟩
  · exact ⟨t, by rw [timelines_set_of_ne hid, ht], hPt⟩

theorem Listed.set (h : s.Listed) (htl : s.timelines id = some tl)
    (hancestor : tl'.ancestor = tl.ancestor)
    (hretain : forall c, c ∈ tl.retainLsns -> (s.branchPoint c.child).isSome = true ->
      c ∈ tl'.retainLsns) : (s.set id tl').Listed := by
  intro child src x hpoint
  rw [branchPoint_set htl hancestor] at hpoint
  refine exists_set htl ?_ (h child src x hpoint)
  rintro ⟨c, hc, rfl, rfl⟩
  exact ⟨c, hretain c hc (by rw [hpoint]; rfl), rfl, rfl⟩

theorem safe_set (h : forall j tl, s.timelines j = some tl -> tl.Safe) (hsafe : tl'.Safe) :
    forall j tl, (s.set id tl').timelines j = some tl -> tl.Safe := by
  intro j tl hj
  by_cases hid : j = id
  · rw [hid, timelines_set_self] at hj
    cases hj
    exact hsafe
  · rw [timelines_set_of_ne hid] at hj
    exact h j tl hj

end Set

theorem BranchOk.set (h : s.BranchOk b) (htl : s.timelines id = some tl)
    (hkeeps : tl.Keeps tl') : (s.set id tl').BranchOk b := by
  have hdst : b.dst ≠ id := by
    intro heq
    rw [← heq, h.fresh] at htl
    cases htl
  refine ⟨?_, h.notOffloaded, ?_, ?_⟩
  · rw [timelines_set_of_ne hdst]
    exact h.fresh
  · exact fun hstage => exists_set htl hkeeps.covered (h.checked hstage)
  · exact fun hstage => exists_set htl (fun hmem => hkeeps.retainLsns ▸ hmem) (h.prepared hstage)

def PlansKept (s s' : GcTenant) : Prop :=
  forall id tl, s.timelines id = some tl ->
    exists tl', s'.timelines id = some tl' ∧ tl.cutoffs.NotBefore tl'.cutoffs

theorem PlansKept.refl (s : GcTenant) : PlansKept s s :=
  fun _ tl htl => ⟨tl, htl, GcCutoffs.NotBefore.refl _⟩

theorem PlansKept.trans {s'' : GcTenant} (h : PlansKept s s') (h' : PlansKept s' s'') :
    PlansKept s s'' := by
  intro id tl htl
  obtain ⟨tl', htl', hle⟩ := h id tl htl
  obtain ⟨tl'', htl'', hle'⟩ := h' id tl' htl'
  exact ⟨tl'', htl'', hle.trans hle'⟩

theorem plansKept_set
    (h : forall tl, s.timelines id = some tl -> tl.cutoffs.NotBefore tl'.cutoffs) :
    PlansKept s (s.set id tl') := by
  intro j tl htl
  by_cases hid : j = id
  · rw [hid] at htl
    exact ⟨tl', by rw [hid, timelines_set_self], h tl htl⟩
  · exact ⟨tl, by rw [timelines_set_of_ne hid, htl], GcCutoffs.NotBefore.refl _⟩

theorem plansKept_set_of_eq (htl : s.timelines id = some tl)
    (h : tl.cutoffs.NotBefore tl'.cutoffs) :
    PlansKept s (s.set id tl') := by
  apply plansKept_set
  intro old hold
  rw [htl] at hold
  cases hold
  exact h

structure Steps (s s' : GcTenant) : Prop where
  inv : s'.Inv
  plans : PlansKept s s'

theorem Inv.timeline (h : s.Inv) (htl : s.timelines id = some tl) (hkeeps : tl.Keeps tl') :
    Steps s (s.set id tl') := by
  refine ⟨⟨?_, ?_, ?_⟩, plansKept_set_of_eq htl (hkeeps.cutoffs ▸ GcCutoffs.NotBefore.refl _)⟩
  · exact safe_set h.safe (hkeeps.safe (h.safe id tl htl))
  · exact h.listed.set htl hkeeps.ancestor (fun c hc _ => hkeeps.retainLsns ▸ hc)
  · intro b hb
    exact (h.branching b hb).set htl hkeeps

theorem Inv.refresh (h : s.Inv) (hlock : s.gcCs = some .refresh)
    (htl : s.timelines id = some tl) (found : Option GcCutoffs) (now : Nat) :
    Steps s (s.set id (tl.refresh found now)) := by
  refine ⟨⟨?_, ?_, ?_⟩, plansKept_set_of_eq htl (notBefore_refresh tl found now)⟩
  · exact safe_set h.safe (safe_refresh (h.safe id tl htl) found now)
  · exact h.listed.set htl rfl (fun c hc _ => hc)
  · intro b hb
    have hb : s.gcCs = some (.branch b) := hb
    rw [hlock] at hb
    cases hb

theorem Inv.hold {holder : Option GcCsHolder} (h : s.Inv)
    (hbranch : forall b, holder = some (.branch b) -> s.BranchOk b) : Steps s (s.hold holder) := by
  refine ⟨⟨h.safe, h.listed, fun b hb => ?_⟩, PlansKept.refl s⟩
  obtain ⟨hfresh, hoff, hchecked, hprepared⟩ := hbranch b hb
  exact ⟨hfresh, hoff, hchecked, hprepared⟩

theorem inv_released (hsafe : forall id tl, s.timelines id = some tl -> tl.Safe)
    (hlisted : s.Listed) :
    (s.hold none).Inv :=
  ⟨hsafe, hlisted, fun _ hb => nomatch hb⟩

theorem Inv.branchLock {src dst : TimelineId} {startLsn : Option Lsn} (h : s.Inv)
    (hnext : s.branchLock src dst startLsn = some s') : Steps s s' := by
  unfold GcTenant.branchLock at hnext
  split at hnext
  · split at hnext
    next hdst hoff =>
      cases hnext
      apply h.hold
      intro b hb
      cases hb
      exact ⟨hdst, hoff, nofun, nofun⟩
    · cases hnext
      exact ⟨h, PlansKept.refl s⟩
  · cases hnext

theorem Inv.branchFail (h : s.Inv) (hb : s.BranchOk b) : Steps s (s.branchFail b) := by
  unfold GcTenant.branchFail
  split
  next tl _ htl =>
    refine ⟨inv_released ?_ ?_, plansKept_set_of_eq htl (GcCutoffs.NotBefore.refl _)⟩
    · exact safe_set h.safe (safe_removeChild (h.safe _ tl htl) b.dst)
    · refine h.listed.set htl rfl ?_
      intro c hc hpoint
      refine mem_removeChild_of_ne ?_ hc
      intro heq
      rw [heq] at hpoint
      unfold branchPoint at hpoint
      rw [hb.fresh, hb.notOffloaded] at hpoint
      cases hpoint
  · exact h.hold nofun

theorem covered_of_branchLsnIsValid {appliedGcCutoffLsn startLsn : Lsn} (hsafe : tl.Safe)
    (h : branchLsnIsValid tl appliedGcCutoffLsn startLsn = true) :
    tl.Covered startLsn := by
  apply hsafe.covered
  rcases Bool.or_eq_true_iff.mp h with hlease | hcutoffs
  · exact Or.inl hlease
  · refine Or.inr (not_lt.mp ?_)
    simpa using (Bool.and_eq_true_iff.mp hcutoffs).2

theorem listed_newBranch (h : s.Listed) (hb : s.BranchOk b) (hstage : b.stage = .prepared) :
    (s.set b.dst (.newBranch b.src tl b.startLsn)).Listed := by
  have hother : forall src, (exists srcTl, s.timelines src = some srcTl) -> src ≠ b.dst := by
    rintro src ⟨srcTl, hsrc⟩ heq
    rw [heq, hb.fresh] at hsrc
    cases hsrc
  intro child src x hpoint
  by_cases hchild : child = b.dst
  · unfold branchPoint at hpoint
    rw [hchild, timelines_set_self] at hpoint
    cases hpoint
    obtain ⟨srcTl, hsrc, hmem⟩ := hb.prepared hstage
    refine ⟨srcTl, ?_, _, hmem, hchild.symm, rfl⟩
    rw [timelines_set_of_ne (hother _ ⟨srcTl, hsrc⟩), hsrc]
  · have hpoint : s.branchPoint child = some (src, x) := by
      unfold branchPoint at hpoint ⊢
      rwa [timelines_set_of_ne hchild] at hpoint
    obtain ⟨srcTl, hsrc, hmem⟩ := h child src x hpoint
    refine ⟨srcTl, ?_, hmem⟩
    rw [timelines_set_of_ne (hother _ ⟨srcTl, hsrc⟩), hsrc]

theorem Inv.branchStep (h : s.Inv) (hb : s.BranchOk b) (htl : s.timelines b.src = some tl) :
    Steps s (s.branchStep b tl) := by
  unfold GcTenant.branchStep
  split
  · apply h.hold
    rintro _ ⟨⟩
    exact ⟨hb.fresh, hb.notOffloaded, nofun, nofun⟩
  · split
    next hvalid =>
      apply h.hold
      rintro _ ⟨⟩
      refine ⟨hb.fresh, hb.notOffloaded, fun _ => ⟨tl, htl, ?_⟩, nofun⟩
      exact covered_of_branchLsnIsValid (h.safe _ tl htl) hvalid
    · exact h.branchFail hb
  next hstage =>
    obtain ⟨srcTl, hsrc, hcovered⟩ := hb.checked hstage
    rw [htl] at hsrc
    cases hsrc
    have hdst : b.dst ≠ b.src := by
      intro heq
      rw [← heq, hb.fresh] at htl
      cases htl
    refine ⟨⟨?_, ?_, ?_⟩, plansKept_set_of_eq htl (GcCutoffs.NotBefore.refl _)⟩
    · exact safe_set h.safe (safe_insertChild (h.safe _ tl htl) hcovered.guarded)
    · exact h.listed.set htl rfl (fun c hc _ => mem_insertChild.mpr (Or.inl hc))
    · rintro _ ⟨⟩
      refine ⟨?_, hb.notOffloaded, nofun, fun _ => ?_⟩
      · exact (timelines_set_of_ne hdst).trans hb.fresh
      · exact ⟨_, timelines_set_self, mem_insertChild.mpr (Or.inr rfl)⟩
  next hstage =>
    split
    · exact h.branchFail hb
    · refine ⟨inv_released ?_ ?_, plansKept_set ?_⟩
      · exact safe_set h.safe (safe_of_idle rfl)
      · exact listed_newBranch h.listed hb hstage
      · intro old hold
        rw [hb.fresh] at hold
        cases hold

variable {e : Event} {start : GcTenant} {x : Lsn}

theorem keeps_of_next {e : TenantTimeline.Event} (hproper : s.Proper (.timeline id e))
    (hnext : s.next (.timeline id e) = some s') :
    exists tl tl', s.timelines id = some tl ∧ tl.Keeps tl' ∧ s' = s.set id tl' := by
  obtain ⟨tl', hbind, rfl⟩ := map_eq_some_iff.mp hnext
  obtain ⟨tl, htl, hstep⟩ := bind_eq_some_iff.mp hbind
  refine ⟨tl, tl', htl, keeps_next ?_ hstep, rfl⟩
  rintro call rfl hblocked
  exact hproper hblocked tl htl

theorem Inv.next (h : s.Inv) (hproper : s.Proper e) (hnext : s.next e = some s') : Steps s s' := by
  cases e with
  | timeline id e =>
    obtain ⟨tl, tl', htl, hkeeps, rfl⟩ := keeps_of_next hproper hnext
    exact h.timeline htl hkeeps
  | refreshLock =>
    dsimp only [GcTenant.next] at hnext
    split at hnext
    · cases hnext
      exact h.hold nofun
    · cases hnext
  | refreshTimeline id found now =>
    dsimp only [GcTenant.next] at hnext
    split at hnext
    next hlock =>
      obtain ⟨tl, htl, rfl⟩ := map_eq_some_iff.mp hnext
      exact h.refresh hlock htl found now
    · cases hnext
  | refreshUnlock =>
    dsimp only [GcTenant.next] at hnext
    split at hnext
    · cases hnext
      exact h.hold nofun
    · cases hnext
  | branchLock src dst startLsn => exact h.branchLock hnext
  | branchStep =>
    dsimp only [GcTenant.next] at hnext
    split at hnext
    next b hlock =>
      obtain ⟨tl, htl, rfl⟩ := map_eq_some_iff.mp hnext
      exact h.branchStep (h.branching b hlock) htl
    · cases hnext
  | branchFail =>
    dsimp only [GcTenant.next] at hnext
    split at hnext
    next b hlock =>
      cases hnext
      exact h.branchFail (h.branching b hlock)
    · cases hnext

theorem inv_reached (hstart : start.Settled) (h : Reached next Proper start s) : s.Inv :=
  h.invariant hstart.inv (fun _ _ _ hinv hproper hnext => (hinv.next hproper hnext).inv)

/-!
## Granted leases and branches
-/

/-- A lease at the LSN is in the lease map, or a branch was created there. -/
def Granted (s : GcTenant) (id : TimelineId) (tl : TenantTimeline) (x : Lsn) : Prop :=
  tl.lsnCoveredByLease x = true ∨ exists child, s.branchPoint child = some (id, x)

theorem Inv.protects (h : s.Inv) (htl : s.timelines id = some tl) (hx : s.Granted id tl x) :
    tl.gcRun.Protects x := by
  rcases hx with hlease | ⟨child, hpoint⟩
  · exact (h.safe id tl htl).leases x hlease
  · obtain ⟨srcTl, hsrc, c, hc, _, hlsn⟩ := h.listed child id x hpoint
    rw [htl] at hsrc
    cases hsrc
    rw [← hlsn]
    exact (h.safe id tl htl).children c hc

/-- A run that is about to apply its cutoff does not pass a granted lease or branch
point without retaining it or a larger one, and planned cutoffs never decrease. -/
theorem gc_respects_leases_and_branches {start s : GcTenant} (hstart : start.Settled)
    (h : Reached next Proper start s) :
    (forall id tl plan newGcCutoff, s.timelines id = some tl ->
      tl.gcRun = .held plan newGcCutoff -> forall x, s.Granted id tl x ->
        newGcCutoff ≤ x ∨ exists y, y ∈ plan.retained ∧ x ≤ y) ∧
    forall s', Reached next Proper s s' -> PlansKept s s' := by
  constructor
  · intro id tl plan newGcCutoff htl hrun x hx
    apply (inv_reached hstart h).protects htl hx
    rw [hrun]
    rfl
  · intro s' h'
    have hsteps : Steps s s' := by
      refine h'.invariant ⟨inv_reached hstart h, PlansKept.refl s⟩ ?_
      intro a e b hsteps hproper hnext
      have hstep := hsteps.inv.next hproper hnext
      exact ⟨hstep.inv, hsteps.plans.trans hstep.plans⟩
    exact hsteps.plans

/-!
The layers that such a run then removes are not needed to read at a granted LSN.
-/

theorem retains_runCutoffs {plan : GcPlan} {timeCutoff newGcCutoff : Lsn}
    (h : newGcCutoff ≤ x ∨ plan.Retains x) :
    (runCutoffs plan timeCutoff newGcCutoff).Retains x := by
  rcases h with hle | ⟨y, hy, hle⟩
  · exact Or.inl hle
  · rcases mem_append.mp hy with hy | hy
    · obtain ⟨top, htop⟩ := isSome_max?_of_mem hy |> isSome_iff_exists.mp
      exact Or.inr (Or.inl ⟨top, htop, hle.trans ((max?_eq_some_iff.mp htop).2 y hy)⟩)
    · exact Or.inr (Or.inr ⟨y, mem_toList.mp hy, hle⟩)

theorem collect_keeps_granted (hstart : start.Settled) (h : Reached next Proper start s)
    (htl : s.timelines id = some tl) (hreach : tl.layers.Reachable)
    {layers : List PersistentLayerDesc} (hlayers : tl.layers.iterHistoricLayers = .ok layers)
    (hpacked : LayerMap.PackedLayers layers) {io : GcIo}
    (hnext : tl.next (.gcCollect io) = some tl') :
    exists layers', tl'.layers.iterHistoricLayers = .ok layers' ∧
      forall key x, key.Searchable -> s.Granted id tl x ->
        Pageserver.Keeps layers layers' key x := by
  dsimp only [TenantTimeline.next] at hnext
  split at hnext
  next plan timeCutoff newGcCutoff hrun =>
    cases hnext
    unfold collectLayers
    split
    next collected res hcollect =>
      obtain ⟨layers', hlayers', hsub, hgone⟩ :=
        GcTimeline.collect_layers hcollect hreach hlayers
      refine ⟨layers', hlayers', fun key x hsearch hx => keeps_of_replaceable hsub ?_⟩
      intro d hd hnot hkey
      refine GcTimeline.replaceable_of_verdict (hgone d hd hnot)
        (fun _ => LayerMap.hasImage_of_imageLayerExists hreach hlayers hpacked
          (hpacked d hd).1 (hpacked d hd).2 hsearch hkey) (retains_runCutoffs ?_)
      apply (inv_reached hstart h).protects htl hx
      rw [hrun]
      rfl
    · refine ⟨layers, hlayers, fun key x _ _ => ?_⟩
      exact keeps_of_replaceable (fun _ hd => hd) (fun d hd hnot => absurd hd hnot)
  · cases hnext

/-!
A run has read its plan when a lease is granted and a branch is created at the leased
LSN.
-/

def sampleTenant : GcTenant :=
  { timelines := fun id =>
      if id = 1 then
        some
          { layers := .default
            files := []
            ancestor := none
            lastRecordLsn := 120
            diskConsistentLsn := 120
            standbyHorizon := 0
            appliedGcCutoffLsn := 20
            retainLsns := []
            cutoffs := { space := 100, time := some 80 }
            leases := .empty
            gcRun := .idle }
      else
        none
    offloaded := fun _ => none
    gcCs := none }

theorem settled_sampleTenant : sampleTenant.Settled := by
  have hone : forall id tl, sampleTenant.timelines id = some tl ->
      tl.gcRun = .idle ∧ tl.ancestor = none := by
    intro id tl htl
    unfold sampleTenant at htl
    dsimp only at htl
    split at htl
    · cases htl
      exact ⟨rfl, rfl⟩
    · cases htl
  refine ⟨rfl, fun id tl htl => (hone id tl htl).1, ?_⟩
  intro child src x hpoint
  unfold branchPoint at hpoint
  split at hpoint
  next tl htl =>
    rw [(hone child tl htl).2] at hpoint
    cases hpoint
  · cases hpoint

def sampleEvents : List Event :=
  [.timeline 1 .gcPlan, .timeline 1 (.lease ⟨88, 3600, true, 0, false⟩),
    .branchLock 1 2 (some 88), .branchStep, .branchStep, .branchStep, .branchStep,
    .timeline 1 .gcHold]

theorem gc_respects_leases_and_branches_sampleTenant :
    exists (s : GcTenant) (tl : TenantTimeline) (plan : GcPlan),
      sampleEvents.foldlM next sampleTenant = some s ∧
      s.timelines 1 = some tl ∧ tl.gcRun = .held plan 80 ∧
      tl.lsnCoveredByLease 88 = true ∧ s.branchPoint 2 = some (1, 88) ∧
      (80 ≤ 88 ∨ exists y, y ∈ plan.retained ∧ 88 ≤ y) := by
  have hok : forall (s : GcTenant) e, e ∈ sampleEvents -> s.Proper e := by
    intro s e he
    simp only [sampleEvents, mem_cons, not_mem_nil, or_false] at he
    rcases he with rfl | rfl | rfl | rfl | rfl | rfl | rfl | rfl <;>
      first | exact trivial | exact fun hblocked => nomatch hblocked
  refine ⟨_, _, _, rfl, rfl, rfl, rfl, rfl, ?_⟩
  exact (gc_respects_leases_and_branches settled_sampleTenant
    (.of_foldlM hok rfl)).1 1 _ _ 80 rfl rfl 88 (Or.inl rfl)

open GcTimeline LayerMap

/-- A layer as it is flushed, which spans all keys. -/
def flushedDelta : PersistentLayerDesc :=
  { oldDelta with
    keyRange := ⟨Key.MIN, Key.MAX⟩
    lsnRange := ⟨90, 120⟩
    keyRange_nonempty := by decide
    lsnRange_nonempty := by decide
    image_lsnRange := by decide }

def layeredOps : List Op :=
  .insertHistoric flushedDelta :: sampleLayerOps

/-- Without a lease the delta below the image would be removed. -/
def layeredTenant : GcTenant :=
  { sampleTenant with
    timelines := fun _ => (sampleTenant.timelines 1).map (fun tl =>
      { tl with layers := ofOps layeredOps, files := [oldDelta, sampleImage, flushedDelta] }) }

def leasedRun : List Event :=
  [.timeline 1 (.lease ⟨88, 3600, true, 0, false⟩), .timeline 1 .gcPlan, .timeline 1 .gcHold,
    .timeline 1 .gcApply]

theorem collect_keeps_granted_leasedRun :
    exists (s : GcTenant) (tl tl' : TenantTimeline),
      leasedRun.foldlM next layeredTenant = some s ∧ s.timelines 1 = some tl ∧
      tl.next (.gcCollect quietIo) = some tl' ∧
      exists layers', tl'.layers.iterHistoricLayers = .ok layers' ∧ layers'.length = 3 ∧
        Keeps [oldDelta, sampleImage, flushedDelta] layers' (sampleKey 5) 88 := by
  have hsettled : layeredTenant.Settled := by
    refine ⟨rfl, fun _ _ h => ?_, fun _ _ _ h => ?_⟩
    · cases h
      rfl
    · cases h
  have hok : forall (s : GcTenant) e, e ∈ leasedRun -> s.Proper e := by
    simp [leasedRun, Proper]
  have hpacked : PackedLayers [oldDelta, sampleImage, flushedDelta] := by
    unfold PackedLayers
    decide
  refine ⟨_, _, _, rfl, rfl, rfl, ?_⟩
  rcases @collect_keeps_granted _ 1 _ _ _ hsettled (.of_foldlM hok rfl) rfl
    ⟨layeredOps, rfl⟩ _ rfl hpacked quietIo rfl with ⟨layers', hlayers', hkeeps⟩
  refine ⟨layers', hlayers', ?_, hkeeps _ 88 (by decide) (Or.inl rfl)⟩
  cases hlayers'
  rfl

end GcTenant

end Pageserver
end OpenNeon

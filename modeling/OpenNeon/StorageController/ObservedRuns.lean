import OpenNeon.StorageController.ObservedSoundness

/-!
# What is observed over runs of reconcilers

The state that will be observed once all pending results are processed is what pageservers
hold whenever no reconciler runs.  A reconciler keeps this if what was unknown in its copy
is still unknown in that state when it starts.
-/

namespace OpenNeon
namespace StorageController

open Base List OrdMap

/-!
## Reports
-/

section

variable {nodeId : NodeId} {held : Option LocationConfig}

theorem soundAt_unknown : SoundAt (some { conf := none }) held :=
  trivial

theorem soundAt_reportObserved {observed : ObservedState} {nodes : OrdMap NodeId Node}
    {result : ReconcileResult}
    (hdeltas : forall delta, delta ∈ result.observedDeltas -> delta.nodeId = nodeId ->
      SoundAt delta.location held) (hstart : SoundAt (observed.get? nodeId) held ∨
      nodes.get? nodeId ≠ none ∧
        exists delta, delta ∈ result.observedDeltas ∧ delta.nodeId = nodeId) :
    SoundAt ((reportObserved nodes result observed).get? nodeId) held := by
  rcases get?_reportObserved nodes result observed nodeId with
    ⟨hquiet, hsame⟩ | ⟨_, delta, hmem, hnode, hlocation | hunknown⟩
  · rw [hsame]
    refine hstart.resolve_right ?_
    rintro ⟨hnode, delta, hmem, hdelta⟩
    exact hquiet.elim hnode (fun hother => hother delta hmem hdelta)
  · rw [hlocation]
    exact hdeltas delta hmem hnode
  · rw [hunknown]
    exact soundAt_unknown

end

namespace Reconciler

variable {self : Reconciler} {nodeId : NodeId}

theorem differs_of_observedDelta {delta : ObservedStateDelta} (h : delta ∈ self.observedDeltas) :
    delta.location = self.observed.get? delta.nodeId ∧
      self.observed.get? delta.nodeId ≠ self.originalObserved.get? delta.nodeId := by
  rcases mem_append.mp h with h | h
  · rcases mem_map.mp h with ⟨⟨m, location⟩, hmem, rfl⟩
    rcases mem_filter.mp hmem with ⟨hentry, htest⟩
    have hget : self.observed.get? m = some location := get?_eq_some_iff.mpr hentry
    refine ⟨hget.symm, ?_⟩
    show self.observed.get? m ≠ self.originalObserved.get? m
    rw [hget]
    intro hsame
    rw [← hsame] at htest
    exact absurd rfl (of_decide_eq_true htest)
  · rcases mem_map.mp h with ⟨m, hmem, rfl⟩
    rcases mem_filter.mp hmem with ⟨hentry, htest⟩
    have hget : self.observed.get? m = none := of_decide_eq_true htest
    refine ⟨hget.symm, ?_⟩
    show self.observed.get? m ≠ self.originalObserved.get? m
    rw [hget]
    intro hsame
    rcases mem_map.mp hentry with ⟨⟨k, location⟩, hlocation, rfl⟩
    exact get?_eq_none_iff.mp hsame.symm location hlocation

theorem exists_observedDelta (h : self.observed.get? nodeId ≠ self.originalObserved.get? nodeId) :
    exists delta, delta ∈ self.observedDeltas ∧ delta.nodeId = nodeId := by
  cases hget : self.observed.get? nodeId with
  | some location =>
    refine ⟨.upsert nodeId location, mem_append_left _ ?_, rfl⟩
    refine mem_map.mpr ⟨(nodeId, location), mem_filter.mpr ⟨get?_eq_some_iff.mp hget, ?_⟩, rfl⟩
    split
    next previous hprevious =>
      refine decide_eq_true (fun hconf => h ?_)
      rw [hget, hprevious]
      cases previous
      cases hconf
      rfl
    · rfl
  | none =>
    rw [hget] at h
    rcases Option.ne_none_iff_exists'.mp h.symm with ⟨location, hlocation⟩
    refine ⟨.delete nodeId, mem_append_right _ ?_, rfl⟩
    refine mem_map_of_mem (mem_filter.mpr ⟨?_, decide_eq_true hget⟩)
    exact mem_map.mpr ⟨(nodeId, location), get?_eq_some_iff.mp hlocation, rfl⟩

theorem Tracks.truthful {start : Reconciler} {held0 : OrdMap NodeId LocationConfig}
    {o : Outside} {nodes : OrdMap NodeId Node} {observed : ObservedState} {sequence : Sequence}
    {ok : Bool} (h : Tracks start held0 o self) (htruthful : observed.Truthful held0)
    (hnodes : forall m, m ∈ start.targets -> nodes.get? m ≠ none)
    (hunknown : forall m, start.originalObserved.get? m = some { conf := none } ->
      observed.get? m = some { conf := none }) :
    (reportObserved nodes (self.result sequence ok) observed).Truthful o.held := by
  intro m
  have horiginal : self.originalObserved = start.originalObserved := by
    rw [h.same]
  refine soundAt_reportObserved (fun delta hmem hnode => ?_) ?_
  · rcases differs_of_observedDelta hmem with ⟨hlocation, hdiffers⟩
    rw [hnode, horiginal] at hdiffers
    rw [hlocation, hnode]
    rcases h.each m with ⟨hsame, _⟩ | ⟨hsound, _⟩
    · exact absurd hsame hdiffers
    · exact hsound
  · rcases h.each m with ⟨_, hheld⟩ | ⟨_, hdiffers, hmem⟩
    · rw [hheld]
      exact .inl (htruthful m)
    · by_cases hsame : self.observed.get? m = start.originalObserved.get? m
      · rw [hunknown m (hdiffers hsame)]
        exact .inl soundAt_unknown
      · rw [← horiginal] at hsame
        exact .inr ⟨hnodes m hmem, exists_observedDelta hsame⟩

end Reconciler

/-!
## The invariant
-/

namespace Outside

/-- No generation is above the database's. -/
def reachedBy (o : Outside) : Good :=
  fun _ generation => exists latest, o.generation = some latest ∧ generation ≤ latest

theorem issuer_reachedBy : Issuer reachedBy where
  frame o o' hgeneration _ nodeId generation h := by
    unfold reachedBy
    rw [hgeneration]
    exact h
  grows o m nodeId generation h := by
    rcases h with ⟨latest, hlatest, hle⟩
    unfold reachedBy increment
    rw [hlatest]
    exact ⟨latest + 1, rfl, hle.trans (Nat.le_succ _)⟩
  issues o nodeId generation h := by
    unfold increment at h
    unfold reachedBy increment
    cases hlatest : o.generation with
    | none =>
      rw [hlatest] at h
      cases h
    | some latest =>
      rw [hlatest] at h
      cases h
      exact ⟨latest + 1, rfl, Nat.le_refl _⟩

end Outside

namespace ShardSystem

open Outside

variable {s s' : ShardSystem}

/-- What will be observed when all pending results are processed. -/
def predicted (s : ShardSystem) : ObservedState :=
  s.results.foldl (fun observed result => reportObserved s.nodes result observed) s.shard.observed

def NoUnknown (observed : ObservedState) : Prop :=
  forall nodeId, observed.get? nodeId ≠ some { conf := none }

/-- A reconciler of a shard that can begin any time. -/
structure Sane (nodes : OrdMap NodeId Node) (r : Reconciler) : Prop where
  proper : r.Proper
  spawned : r.observed = r.originalObserved
  exist : forall m, m ∈ r.targets -> nodes.get? m ≠ none

/-- The next reconciler's copy has no unknown locations or is current; later ones have none. -/
def CopiesKnown (s : ShardSystem) : Prop :=
  match s.waiting with
  | [] => True
  | spawned :: rest =>
    (NoUnknown spawned.reconciler.originalObserved ∨
      s.running = none ∧ s.predicted = spawned.reconciler.originalObserved) ∧
    forall other, other ∈ rest -> NoUnknown other.reconciler.originalObserved

structure Honest (s : ShardSystem) : Prop where
  intent : s.shard.intent.allPageservers.Nodup
  waiting : forall spawned, spawned ∈ s.waiting -> Sane s.nodes spawned.reconciler
  copies : s.CopiesKnown
  idle : s.running = none -> s.predicted.Truthful s.outside.held
  running : forall task, s.running = some task ->
    task.wp truth
      (fun result o => (reportObserved s.nodes result s.predicted).Truthful o.held) s.outside

/-!
## Steps
-/

theorem Honest.configure (hs : s.Honest) {intent : IntentState} {policy : PlacementPolicy}
    {config : TenantConfig} (hnext : s.configure intent policy config = some s') :
    s'.Honest := by
  unfold ShardSystem.configure at hnext
  split at hnext
  next hnodup =>
    cases hnext
    exact ⟨hnodup, hs.waiting, hs.copies, hs.idle, hs.running⟩
  · cases hnext

theorem CopiesKnown.of_running (h : s.CopiesKnown) {task} (hrunning : s.running = some task)
    (hwaiting : s'.waiting = s.waiting) : s'.CopiesKnown := by
  unfold CopiesKnown at h ⊢
  rw [hwaiting]
  split at h
  · trivial
  · refine ⟨.inl (h.1.resolve_right ?_), h.2⟩
    rintro ⟨hnone, _⟩
    cases hrunning.symm.trans hnone

theorem Honest.replyTo (hs : s.Honest) {fate : Fate} (hnext : s.replyTo fate = some s') :
    s'.Honest := by
  unfold ShardSystem.replyTo at hnext
  split at hnext
  next r k hrunning =>
    cases hnext
    refine ⟨hs.intent, hs.waiting, hs.copies.of_running hrunning rfl,
      (fun hnone => nomatch hnone), fun task htask => ?_⟩
    cases htask
    exact (hs.running _ hrunning).2 _ _ ⟨fate, rfl⟩
  · cases hnext

theorem Honest.finish (hs : s.Honest) (hnext : s.finish = some s') : s'.Honest := by
  unfold ShardSystem.finish at hnext
  split at hnext
  next result hrunning =>
    cases hnext
    refine ⟨hs.intent, hs.waiting, hs.copies.of_running hrunning rfl, fun _ => ?_,
      (fun task htask => nomatch htask)⟩
    unfold predicted
    rw [foldl_append]
    exact hs.running _ hrunning
  · cases hnext

theorem Honest.processResult (hs : s.Honest) (hnext : s.processResult = some s') : s'.Honest := by
  unfold ShardSystem.processResult at hnext
  split at hnext
  next result rest hresults =>
    cases hnext
    have hsame := Service.applyResult_references s.nodes result s.shard
    have hpredicted : predicted
        { s with shard := Service.applyResult s.nodes result s.shard, results := rest } =
          s.predicted := by
      unfold predicted
      rw [hresults, foldl_cons]
      rw [hsame.2.1]
    have hcopies := hs.copies
    have hrunning := hs.running
    have hidle := hs.idle
    unfold CopiesKnown at hcopies
    rw [← hpredicted] at hcopies hrunning hidle
    exact ⟨hsame.1.symm ▸ hs.intent, hs.waiting, hcopies, hidle, hrunning⟩
  · cases hnext

theorem Honest.start (hbound : forall spawned, spawned ∈ s.waiting ->
      exists S, spawned.reconciler.Knows S s.outside.reachedBy)
    (hs : s.Honest) {cancelled : Bool} (hnext : s.start cancelled = some s') : s'.Honest := by
  unfold ShardSystem.start at hnext
  split at hnext
  next spawned rest hrunning hwaiting =>
    have hcopies := hs.copies
    unfold CopiesKnown at hcopies
    rw [hwaiting] at hcopies
    obtain ⟨hspawned, hsane⟩ := forall_mem_cons.mp (hwaiting ▸ hs.waiting)
    have hrest : forall running : Option ReconcilerTask,
        CopiesKnown { s with waiting := rest, running := running } := by
      intro running
      unfold CopiesKnown
      dsimp only
      split
      · trivial
      · exact ⟨.inl (hcopies.2 _ mem_cons_self),
          fun other hother => hcopies.2 other (mem_cons_of_mem _ hother)⟩
    split at hnext
    · cases hnext
      exact ⟨hs.intent, hsane, hrest s.running, hs.idle, hs.running⟩
    · cases hnext
      refine ⟨hs.intent, hsane, hrest _, (fun hnone => nomatch hnone), fun task htask => ?_⟩
      cases htask
      rcases hbound spawned (hwaiting ▸ mem_cons_self) with ⟨S, hknows⟩
      have htask := Reconciler.tracks_task (o := s.outside) spawned.sequence spawned.mustNotify
        hspawned.proper hspawned.spawned (by
          intro m conf generation hconf hgeneration
          rw [← hspawned.spawned] at hconf
          exact hknows.observed m conf (Reconciler.observedConf_iff.mpr hconf) generation
            hgeneration)
      refine Task.wp_mono htask ?_
      rintro result o ⟨self, ok, htracks, rfl⟩
      refine htracks.truthful (hs.idle hrunning) hspawned.exist (fun m hm => ?_)
      rcases hcopies.1 with hknown | ⟨_, hsame⟩
      · exact absurd hm (hknown m)
      · show s.predicted.get? m = some { conf := none }
        rw [hsame]
        exact hm
  · cases hnext

/-- A reconciler is spawned while nothing is left of others, or no location is unknown. -/
def SpawnsKnowing (s : ShardSystem) : Event -> Prop
  | .spawn _ _ =>
    (s.waiting = [] ∧ s.running = none ∧ s.results = []) ∨ NoUnknown s.shard.observed
  | _ => True

variable {shard : TenantShard} {m : NodeId} {nodes : OrdMap NodeId Node} {e : Event}

theorem mem_extraneous (h : m ∈ extraneous shard) :
    shard.observed.get? m ≠ none ∧ m ∉ shard.intent.allPageservers := by
  rcases mem_filter.mp h with ⟨hentry, htest⟩
  refine ⟨fun hnone => ?_, of_decide_eq_true htest⟩
  rcases mem_map.mp hentry with ⟨⟨k, location⟩, hlocation, rfl⟩
  exact get?_eq_none_iff.mp hnone location hlocation

theorem lookupNodes_ok {nodeIds : List NodeId} {found : List Node}
    (h : TenantShard.lookupNodes nodes nodeIds = .ok found) (hmem : m ∈ nodeIds) :
    nodes.get? m ≠ none := by
  induction nodeIds generalizing found with
  | nil => cases hmem
  | cons nodeId rest ih =>
    unfold TenantShard.lookupNodes at h
    split at h
    · cases h
    next node hnode =>
      split at h
      · cases h
      next others hothers =>
        rcases mem_cons.mp hmem with rfl | hmem
        · rw [hnode]
          exact Option.some_ne_none _
        · exact ih hothers hmem

theorem spawnReconciler_nodes {shard' : TenantShard} (h : shard.spawnReconciler nodes = .ok shard')
    (hmem : m ∈ shard.intent.allPageservers ∨ m ∈ extraneous shard) : nodes.get? m ≠ none := by
  unfold TenantShard.spawnReconciler at h
  split at h
  · cases h
  next found hdetach =>
    split at h
    · cases h
    next target htarget =>
      rcases hmem with hmem | hmem
      · unfold TenantShard.TargetState.fromIntent at htarget
        split at htarget
        · cases htarget
        · cases htarget
        next attached secondary hattached hsecondary =>
          rcases mem_append.mp hmem with hmem | hmem
          · exact lookupNodes_ok hattached hmem
          · exact lookupNodes_ok hsecondary hmem
      · exact lookupNodes_ok hdetach hmem

theorem sane_ofShard {shard' : TenantShard} {detach : List NodeId} (first : NodeId)
    (hintent : shard.intent.allPageservers.Nodup)
    (hspawn : shard.spawnReconciler nodes = .ok shard')
    (hdetach : detach.isPerm (extraneous shard) = true) :
    Sane nodes (Reconciler.ofShard nodes detach first shard) := by
  have hperm : forall m, m ∈ detach -> m ∈ extraneous shard :=
    fun m hm => (isPerm_iff.mp hdetach).mem_iff.mp hm
  refine ⟨⟨fun dest hdest hmem => ?_, fun m hm => (mem_extraneous (hperm m hm)).1⟩, rfl,
    fun m hm => ?_⟩
  · have hmem' : dest ∈ shard.intent.attached.toList := by
      rw [show shard.intent.attached = some dest from hdest]
      exact mem_singleton_self dest
    exact (nodup_append.mp hintent).2.2 dest hmem' dest hmem rfl
  · rcases mem_append.mp hm with hm | hm
    · exact spawnReconciler_nodes hspawn (.inl hm)
    · exact spawnReconciler_nodes hspawn (.inr (hperm m hm))

theorem Honest.spawn (hs : s.Honest) {detach : List NodeId} {first : NodeId}
    (hok : s.SpawnsKnowing (.spawn detach first)) (hnext : s.spawn detach first = some s') :
    s'.Honest := by
  unfold ShardSystem.spawn at hnext
  split at hnext
  next shard _ hspawn =>
    have hframe := TenantShard.spawnReconciler_references hspawn
    split at hnext
    next hdetach =>
      cases hnext
      have hpredicted : forall waiting : List Spawned,
          predicted { s with shard := shard, waiting := waiting } = s.predicted := by
        intro waiting
        unfold predicted
        rw [hframe.2.1]
      have hsane := sane_ofShard first hs.intent hspawn hdetach
      have hcopies := hs.copies
      refine ⟨hframe.1.symm ▸ hs.intent, forall_mem_concat hs.waiting hsane, ?_, ?_, ?_⟩
      · unfold CopiesKnown at hcopies ⊢
        rw [hpredicted]
        cases hwaiting : s.waiting with
        | nil =>
          refine ⟨?_, fun other hother => nomatch hother⟩
          rcases hok with ⟨_, hrunning, hresults⟩ | hknown
          · refine .inr ⟨hrunning, ?_⟩
            unfold predicted
            rw [hresults]
            rfl
          · exact .inl hknown
        | cons spawned rest =>
          rw [hwaiting] at hcopies
          refine ⟨hcopies.1, fun other hother => ?_⟩
          rcases mem_append.mp hother with hother | hother
          · exact hcopies.2 other hother
          · cases mem_singleton.mp hother
            rcases hok with ⟨hnone, _⟩ | hknown
            · cases hwaiting.symm.trans hnone
            · exact hknown
      · rw [hpredicted]
        exact hs.idle
      · rw [hpredicted]
        exact hs.running
    · cases hnext
  · cases hnext

/-!
## Runs
-/

/-- Pageservers neither restart nor change their availability. -/
def Undisturbed : Event -> Prop
  | .setNodes _ => False
  | .reattach _ => False
  | .reattached _ _ _ => False
  | _ => True

instance : DecidablePred Undisturbed
  | .setNodes _ => .isFalse id
  | .reattach _ => .isFalse id
  | .reattached _ _ _ => .isFalse id
  | .configure _ _ _ => .isTrue trivial
  | .spawn _ _ => .isTrue trivial
  | .start _ => .isTrue trivial
  | .reply _ => .isTrue trivial
  | .finish => .isTrue trivial
  | .processResult => .isTrue trivial

/-- A shard with no reconcilers of which only what is so is observed. -/
structure Quiet (s : ShardSystem) : Prop where
  truthful : s.shard.observed.Truthful s.outside.held
  intent : s.shard.intent.allPageservers.Nodup
  outside : s.outside.Sound reachedBy
  observed : forall nodeId conf, s.shard.observed.get? nodeId = some { conf := some conf } ->
    conf.Vouched s.outside.reachedBy nodeId
  generation : forall nodeId generation, s.shard.generation = some generation ->
    s.outside.reachedBy nodeId generation
  waiting : s.waiting = []
  running : s.running = none
  results : s.results = []
  reattaching : s.reattaching = []

theorem Quiet.vouches (h : s.Quiet) : Vouches True reachedBy s where
  outside := h.outside
  observed := h.observed
  generation _ := h.generation
  waiting := by simp [h.waiting]
  running := by simp [h.running]
  results := by simp [h.results]
  reattaching := by simp [h.reattaching]

theorem Quiet.honest (h : s.Quiet) : s.Honest where
  intent := h.intent
  waiting := by simp [h.waiting]
  copies := by
    unfold CopiesKnown
    rw [h.waiting]
    trivial
  idle _ := by
    unfold predicted
    rw [h.results]
    exact h.truthful
  running := by simp [h.running]

theorem vouches_reachedBy_next (hs : Vouches True reachedBy s) (hnext : s.next e = some s') :
    Vouches True reachedBy s' := by
  refine hs.next issuer_reachedBy (fun _ o n m g h => h) (fun detach first _ => ?_) hnext
  refine ⟨fun _ => True, ⟨fun nodeId conf hconf => ?_, fun nodeId generation _ hg => ?_⟩,
    fun _ _ _ _ _ _ _ => trivial, fun _ _ => trivial⟩
  · exact hs.observed nodeId conf (Reconciler.observedConf_iff.mp hconf)
  · exact hs.generation trivial nodeId generation hg

theorem Honest.next (hvouches : Vouches True reachedBy s) (hs : s.Honest)
    (hundisturbed : Undisturbed e) (hok : s.SpawnsKnowing e) (hnext : s.next e = some s') :
    s'.Honest := by
  cases e with
  | configure intent policy config => exact hs.configure hnext
  | spawn detach first => exact hs.spawn hok hnext
  | start cancelled =>
    refine hs.start (fun spawned hmem => ?_) hnext
    rcases hvouches.waiting spawned hmem with ⟨S, hknows, _⟩
    exact ⟨S, hknows⟩
  | reply fate => exact hs.replyTo hnext
  | finish => exact hs.finish hnext
  | processResult => exact hs.processResult hnext
  | _ => exact hundisturbed.elim

theorem honest_reached {start : ShardSystem} (hstart : start.Quiet)
    (h : Reached next (fun s e => Undisturbed e ∧ s.SpawnsKnowing e) start s) :
    Vouches True reachedBy s ∧ s.Honest := by
  induction h with
  | start => exact ⟨hstart.vouches, hstart.honest⟩
  | step e _ hok hnext ih =>
    exact ⟨vouches_reachedBy_next ih.1 hnext, ih.2.next ih.1 hok.1 hok.2 hnext⟩

/-- In every undisturbed run in which reconcilers are spawned only under this condition,
what is observed when no reconciler runs and all results are processed is so. -/
theorem observed_is_held {start s : ShardSystem} (hstart : start.Quiet)
    (h : Reached next (fun s e => Undisturbed e ∧ s.SpawnsKnowing e) start s)
    (hrunning : s.running = none) (hresults : s.results = []) (nodeId : NodeId) :
    (forall conf, s.shard.observed.get? nodeId = some { conf := some conf } ->
      s.outside.held.get? nodeId = some conf) ∧
    (s.shard.observed.get? nodeId = none -> s.outside.held.get? nodeId = none) := by
  have htruthful := (honest_reached hstart h).2.idle hrunning
  unfold predicted at htruthful
  rw [hresults] at htruthful
  have hsound := htruthful nodeId
  dsimp only [foldl_nil] at hsound
  refine ⟨fun conf hconf => ?_, fun hnone => ?_⟩
  · rw [hconf] at hsound
    exact hsound
  · rw [hnone] at hsound
    exact hsound

/-!
The location on the second node is unknown.  A first reconciler detaches the shard there.
Before its result is processed the second node becomes a secondary location, and a second
reconciler is spawned, to whose copy the location is still unknown.  Its request for the
secondary location takes effect but is reported as failed, so that it has nothing to
report.
-/

theorem quiet_moving : (moving 1 secondUnknown).Quiet where
  truthful := by
    intro nodeId
    show SoundAt (secondUnknown.get? nodeId) ((OrdMap.empty.insert 1 firstConf).get? nodeId)
    unfold secondUnknown firstObserved
    rw [get?_insert, get?_insert, get?_insert]
    by_cases htwo : nodeId = 2
    · rw [if_pos htwo]
      exact soundAt_unknown
    · rw [if_neg htwo]
      split
      · exact rfl
      · exact rfl
  intent := by decide
  outside := by
    refine ⟨fun nodeId generation hmem => ?_, fun nodeId conf hconf generation hg => ?_⟩
    · cases mem_singleton.mp hmem
      exact ⟨1, rfl, Nat.le_refl _⟩
    · rcases moving_held hconf with ⟨rfl, rfl⟩
      cases hg
      exact ⟨1, rfl, Nat.le_refl _⟩
  observed := by
    intro nodeId conf hconf generation hg
    rcases secondUnknown_conf hconf with ⟨_, rfl⟩
    cases hg
    exact ⟨1, rfl, Nat.le_refl _⟩
  generation := by
    intro nodeId generation hg
    cases hg
    exact ⟨1, rfl, Nat.le_refl _⟩
  waiting := rfl
  running := rfl
  results := rfl
  reattaching := rfl

def secondaryIntent : IntentState :=
  { attached := some 1, secondary := [2], preferredAzId := none }

/-- A request that takes effect though an error is reported. -/
def reportedFailed : Fate :=
  { fine with error := some .remote }

def overlapping : List Event :=
  [.spawn [2] 0, .start false, .reply fine, .reply fine, .reply fine, .finish,
    .configure secondaryIntent (.attached 1) sampleConfig, .spawn [] 0, .start false,
    .reply fine, .reply fine, .reply fine, .reply reportedFailed, .finish, .processResult,
    .processResult]

def secondaryUnder (observed : Option ObservedStateLocation) (s : ShardSystem) : Bool :=
  s.running.isNone && s.results.isEmpty && decide (s.shard.observed.get? 2 = observed) &&
    decide ((s.outside.held.get? 2).map LocationConfig.mode = some .secondary)

theorem secondaryUnder_iff {observed : Option ObservedStateLocation} :
    s.secondaryUnder observed = true <->
      s.running = none ∧ s.results = [] ∧ s.shard.observed.get? 2 = observed ∧
        (s.outside.held.get? 2).map LocationConfig.mode = some .secondary := by
  rw [secondaryUnder, Bool.and_eq_true, Bool.and_eq_true, Bool.and_eq_true,
    Option.isNone_iff_eq_none, List.isEmpty_iff, decide_eq_true_iff, decide_eq_true_iff,
    and_assoc, and_assoc]

theorem failed_location_unseen :
    (moving 1 secondUnknown).Quiet ∧
      exists s, Reached next (fun _ e => Undisturbed e) (moving 1 secondUnknown) s ∧
        s.running = none ∧ s.results = [] ∧ s.shard.observed.get? 2 = none ∧
        (s.outside.held.get? 2).map LocationConfig.mode = some .secondary := by
  have hrun : (overlapping.foldlM (fun s e => if decide (Undisturbed e) then next s e else none)
      (moving 1 secondUnknown)).any (secondaryUnder none) = true := by
    decide +kernel
  rcases Reached.of_any (fun _ e => decide (Undisturbed e)) _ (fun _ _ h => of_decide_eq_true h)
    hrun with ⟨s, hs, hend⟩
  rcases secondaryUnder_iff.mp hend with ⟨hrunning, hresults, hobserved, hheld⟩
  exact ⟨quiet_moving, s, hs, hrunning, hresults, hobserved, hheld⟩

/-!
Here the second reconciler is spawned after the first one's result was processed: that
there is no location is known then, and that it is unknown again is reported.
-/

def oneByOne : List Event :=
  [.spawn [2] 0, .start false, .reply fine, .reply fine, .reply fine, .finish, .processResult,
    .configure secondaryIntent (.attached 1) sampleConfig, .spawn [] 0, .start false,
    .reply fine, .reply fine, .reply fine, .reply reportedFailed, .finish, .processResult]

def spawnsAlone (s : ShardSystem) : Event -> Bool
  | .spawn _ _ => s.waiting.isEmpty && s.running.isNone && s.results.isEmpty
  | e => decide (Undisturbed e)

theorem undisturbed_of_spawnsAlone (h : s.spawnsAlone e = true) :
    Undisturbed e ∧ s.SpawnsKnowing e := by
  cases e with
  | spawn detach first =>
    rw [spawnsAlone, Bool.and_eq_true, Bool.and_eq_true, List.isEmpty_iff,
      Option.isNone_iff_eq_none, List.isEmpty_iff] at h
    exact ⟨trivial, .inl ⟨h.1.1, h.1.2, h.2⟩⟩
  | _ => exact ⟨of_decide_eq_true h, trivial⟩

def firstKnown (s : ShardSystem) : Bool :=
  (s.shard.observed.get? 1).any (fun location => location.conf.isSome)

theorem observed_is_held_oneByOne :
    exists s conf, Reached next (fun s e => Undisturbed e ∧ s.SpawnsKnowing e)
        (moving 1 secondUnknown) s ∧
      s.shard.observed.get? 2 = some { conf := none } ∧
      s.shard.observed.get? 1 = some { conf := some conf } ∧
      s.outside.held.get? 1 = some conf := by
  have hrun : (oneByOne.foldlM (fun s e => if spawnsAlone s e then next s e else none)
      (moving 1 secondUnknown)).any
        (fun s => s.secondaryUnder (some { conf := none }) && s.firstKnown) = true := by
    decide +kernel
  rcases Reached.of_any spawnsAlone _ (fun _ _ => undisturbed_of_spawnsAlone) hrun
    with ⟨s, hs, hend⟩
  rw [Bool.and_eq_true] at hend
  rcases secondaryUnder_iff.mp hend.1 with ⟨hrunning, hresults, hobserved, _⟩
  rcases (Option.any_eq_true _ _).mp hend.2 with ⟨⟨conf⟩, hfirst, hknown⟩
  rcases Option.isSome_iff_exists.mp hknown with ⟨c, rfl⟩
  exact ⟨s, c, hs, hobserved, hfirst,
    (observed_is_held quiet_moving hs hrunning hresults 1).1 c hfirst⟩

/-- In no run, also if pageservers restart, is a generation that was sent to a pageserver,
that one holds or that the shard has above the database's. -/
theorem generations_reached {start s : ShardSystem} (hstart : start.Quiet)
    (h : Reached next (fun _ _ => True) start s) :
    s.outside.Sound reachedBy ∧ forall nodeId generation,
      s.shard.generation = some generation -> s.outside.reachedBy nodeId generation := by
  have hs := h.invariant hstart.vouches (fun _ _ _ hs _ => vouches_reachedBy_next hs)
  exact ⟨hs.outside, hs.generation trivial⟩

/-- The first pageserver restarts, then the shard moves to the third one. -/
def restartAndMove : List Event :=
  [.reattach 1, .reattached 0 true false,
    .configure { attached := some 3, secondary := [], preferredAzId := none } (.attached 0)
      sampleConfig,
    .spawn [1, 2] 0, .start false, .reply fine, .reply fine, .reply fine, .reply fine]

theorem generations_reached_restarted :
    exists s, restartAndMove.foldlM next (moving 1 secondUnknown) = some s ∧
      (s.outside.generation = some 3 ∧ s.outside.sent = [(3, 3), (1, 2), (1, 2), (1, 1)]) ∧
      s.outside.Sound reachedBy := by
  have hrun : (restartAndMove.foldlM next (moving 1 secondUnknown)).any (fun s => decide
      (s.outside.generation = some 3 ∧ s.outside.sent = [(3, 3), (1, 2), (1, 2), (1, 1)])) =
        true := by
    decide +kernel
  rcases (Option.any_eq_true _ _).mp hrun with ⟨s, hs, hend⟩
  exact ⟨s, hs, of_decide_eq_true hend,
    (generations_reached quiet_moving (.of_foldlM (fun _ _ _ => trivial) hs)).1⟩

end ShardSystem

end StorageController
end OpenNeon

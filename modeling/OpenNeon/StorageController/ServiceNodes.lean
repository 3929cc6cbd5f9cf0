import OpenNeon.StorageController.TenantShardMoves

/-!
# The nodes of the controller

A step that works on one shard leaves the nodes as they are.  The scheduler and the map of
nodes know the same nodes in every state that is reached.
-/

namespace OpenNeon
namespace StorageController

open Base List OrdMap
open Prog (Maintains wp wp_bind)
open Prog.Maintains (get_bind)

namespace TenantShard

/-!
## Reconcilers are spawned without a change of references
-/

theorem ensureSequenceAhead_references (shard : TenantShard) :
    (ensureSequenceAhead shard).intent = shard.intent ∧
      (ensureSequenceAhead shard).observed = shard.observed ∧
      (ensureSequenceAhead shard).generation = shard.generation := by
  dsimp only [ensureSequenceAhead]
  split <;> exact ⟨rfl, rfl, rfl⟩

variable {shard : TenantShard} {nodes : OrdMap NodeId Node} {e : Fault}

variable {shard' : TenantShard} {granted : Bool}

theorem spawnReconciler_references (h : shard.spawnReconciler nodes = .ok shard') :
    shard'.intent = shard.intent ∧ shard'.observed = shard.observed ∧
      shard'.generation = shard.generation := by
  unfold spawnReconciler at h
  split at h
  · cases h
  · split at h
    · cases h
    · cases h
      exact ensureSequenceAhead_references { shard with reconciler := none }

theorem maybeReconcileShard_references (h : maybeReconcileShard nodes granted shard = .ok shard') :
    shard'.intent = shard.intent ∧ shard'.observed = shard.observed ∧
      shard'.generation = shard.generation := by
  unfold maybeReconcileShard at h
  split at h
  · cases h
  · cases h
    exact ⟨rfl, rfl, rfl⟩
  · cases h
    exact ⟨rfl, rfl, rfl⟩
  · split at h
    · exact spawnReconciler_references h
    · cases h
      exact ensureSequenceAhead_references shard

/-- The errors of a reconciler that cannot be spawned: a node or the generation is missing. -/
def NotSpawned (e : Fault) : Prop :=
  e = .missingGeneration ∨ exists nodeId, e = .missingNode nodeId

theorem dirtyObserved_error {locations : List (NodeId × ObservedStateLocation)}
    (h : dirtyObserved nodes locations = .error e) : NotSpawned e := by
  induction locations with
  | nil => cases h
  | cons head rest ih =>
    unfold dirtyObserved at h
    split at h
    · cases h
      exact .inr ⟨_, rfl⟩
    · split at h
      · cases h
      · exact ih h

theorem lookupNodes_error {nodeIds : List NodeId} (h : lookupNodes nodes nodeIds = .error e) :
    NotSpawned e := by
  induction nodeIds with
  | nil => cases h
  | cons nodeId rest ih =>
    unfold lookupNodes at h
    split at h
    · cases h
      exact .inr ⟨_, rfl⟩
    · split at h
      next e' hrest =>
        cases h
        exact ih hrest
      · cases h

theorem dirty_error (h : shard.dirty nodes = .error e) : NotSpawned e := by
  unfold dirty at h
  split at h
  next e' hnodes =>
    cases h
    dsimp only [dirtyNodes] at hnodes
    split at hnodes
    · cases hnodes
    · exact .inl (Except.error.inj hnodes).symm
    · cases hnodes
  · cases h

theorem getReconcileNeeded_error (h : shard.getReconcileNeeded nodes = .error e) :
    NotSpawned e := by
  unfold getReconcileNeeded at h
  split at h
  next e' hdirty =>
    cases h
    exact dirtyObserved_error hdirty
  · split at h
    next e' hdirty =>
      cases h
      exact dirty_error hdirty
    · repeat' split at h
      all_goals cases h

theorem TargetState.fromIntent_error {i : IntentState}
    (h : TargetState.fromIntent nodes i = .error e) : NotSpawned e := by
  unfold TargetState.fromIntent at h
  split at h
  next hlookup =>
    cases h
    exact lookupNodes_error hlookup
  next hlookup =>
    cases h
    exact lookupNodes_error hlookup
  · cases h

theorem spawnReconciler_error (h : shard.spawnReconciler nodes = .error e) : NotSpawned e := by
  unfold spawnReconciler at h
  split at h
  next e' hdetach =>
    cases h
    exact lookupNodes_error hdetach
  · split at h
    next e' htarget =>
      cases h
      exact TargetState.fromIntent_error htarget
    · cases h

theorem maybeReconcileShard_error (h : maybeReconcileShard nodes granted shard = .error e) :
    NotSpawned e := by
  unfold maybeReconcileShard at h
  split at h
  next e' hneeded =>
    cases h
    exact getReconcileNeeded_error hneeded
  · cases h
  · cases h
  · split at h
    · exact spawnReconciler_error h
    · cases h

variable {ok : NodeId -> Prop} {start : Placing}

theorem moved_reconcileShard (nodes : OrdMap NodeId Node) (granted : Bool) :
    Maintains (Moved ok start) (Ends False (fun _ => False))
      (Service.reconcileShard nodes granted) := by
  intro p hp
  refine Prog.wp_tryModify.mpr ?_
  cases hreconcile : maybeReconcileShard nodes granted p.shard with
  | error e =>
    rcases maybeReconcileShard_error hreconcile with rfl | ⟨_, rfl⟩
    · trivial
    · trivial
  | ok shard => exact hp.withShard (maybeReconcileShard_references hreconcile).1

theorem moves_reconcileShard (nodes : OrdMap NodeId Node) (granted : Bool) :
    Moves start (Service.reconcileShard nodes granted) :=
  fun p hp => Prog.wp_mono (moved_reconcileShard nodes granted p hp) (fun _ _ hq => hq)
    (fun _ _ => Ends.imp False.elim False.elim)

end TenantShard

/-!
## Steps on one shard
-/

namespace Service

open TenantShard

/-- The nodes of the scheduler and of the map are the given ones. -/
structure HasNodes (scheduler : Scheduler) (nodes : OrdMap NodeId Node) (s : Service) :
    Prop where
  same : scheduler.SameNodes s.scheduler
  nodes : s.nodes = nodes

variable {tid : TenantShardId} {r : Region} {post : Unit -> Region -> Prop}
  {fail : Fault -> Region -> Prop} {shard : TenantShard} {nodeId : NodeId} {e : Event}
  {s s' : Service}

variable {m : Prog Placing Fault Unit} {granted : TenantShardId -> Bool}

theorem wp_onShard :
    wp (onShard tid m) post fail r <->
      match r.service.tenants.get? tid with
      | none => post () r
      | some shard =>
        wp m (fun _ p => post () (Region.withShard tid p r))
          (fun e p => fail e (Region.withShard tid p r)) (r.placing shard) := by
  unfold onShard
  rw [wp_bind, Prog.wp_get]
  cases r.service.tenants.get? tid with
  | none => exact Iff.rfl
  | some shard => exact Prog.wp_zoom _ _ m

variable {scheduler : Scheduler} {nodes : OrdMap NodeId Node}

theorem hasNodes_onShard (h : Stays (fun p : Placing => scheduler.SameNodes p.scheduler) m) :
    Stays (fun r : Region => HasNodes scheduler nodes r.service) (onShard tid m) := by
  intro r hr
  refine wp_onShard.mpr ?_
  split
  · exact hr
  next shard hshard =>
    exact Prog.wp_mono (h (r.placing shard) hr.same) (fun _ _ hp => ⟨hp, hr.nodes⟩)
      (fun _ _ => Ends.imp id (fun hp => ⟨hp, hr.nodes⟩))

/-!
## Dropping a node
-/

theorem mem_derefNode {m : NodeId} (h : m ∈ (shard.derefNode nodeId).intent.allPageservers) :
    m ∈ shard.intent.allPageservers ∧ m ≠ nodeId := by
  unfold IntentState.allPageservers derefNode at h
  rcases mem_append.mp h with h | h
  · split at h
    · cases h
    next hne =>
      have hattached := Option.mem_toList.mp h
      refine ⟨mem_append_left _ h, ?_⟩
      rintro rfl
      exact hne hattached
  · rcases mem_filter.mp h with ⟨hmem, htest⟩
    exact ⟨mem_append_right _ hmem, of_decide_eq_true htest⟩

theorem stays_modifyShard (f : TenantShard -> TenantShard) :
    Stays (fun p : Placing => scheduler.SameNodes p.scheduler) (modifyShard f) :=
  Maintains.modify (fun _ hp => hp)

theorem stays_moveAway (nodes : OrdMap NodeId Node) (nodeId : NodeId) (granted : Bool) :
    Stays (fun p : Placing => scheduler.SameNodes p.scheduler) (moveAway nodes nodeId granted) :=
  (stays_modifyShard _).bind (fun _ => (stays_of_moves (fun _ => moves_schedule)).bind
    (fun _ => stays_of_moves (fun _ => moves_reconcileShard nodes granted)))

theorem stays_deleteNodeShard
    (nodes : OrdMap NodeId Node) (nodeId : NodeId) (force granted : Bool) :
    Stays (fun p : Placing => scheduler.SameNodes p.scheduler)
      (deleteNodeShard nodes nodeId force granted) := by
  refine get_bind (fun p hp => ?_)
  refine Maintains.onlyIf ?_ p hp
  split
  · exact (stays_moveAway nodes nodeId granted).bind (fun _ => (stays_modifyShard _).onlyIf)
  · exact stays_modifyShard _

theorem stays_deleteOldShard (nodes : OrdMap NodeId Node) (nodeId : NodeId) (granted : Bool) :
    Stays (fun p : Placing => scheduler.SameNodes p.scheduler)
      (deleteOldShard nodes nodeId granted) := by
  refine get_bind (fun p hp => ?_)
  dsimp only
  split
  · exact (stays_moveAway nodes nodeId granted).bind (fun _ => stays_modifyShard _) p hp
  · exact (stays_modifyShard _).bind (fun _ => stays_modifyShard _) p hp

/-!
## All steps
-/

/-- The steps that work on one shard and leave the nodes as they are. -/
def Event.OnOneShard : Event -> Prop
  | .processResult _ _ => False
  | .nodeRegister _ _ => False
  | .nodeStateConfigure _ _ _ => False
  | .nodeDrop _ => False
  | .nodeDeleteOld _ _ _ => False
  | .deleteNodeFinish _ => False
  | _ => True

/-- The steps on one shard in which the scheduler is told of every change. -/
def Event.MovesShard : Event -> Prop
  | .deleteNodeRound _ _ _ _ _ => False
  | e => e.OnOneShard

/-- What holds whenever the lock is released, if shards are only moved. -/
structure KeptByMoves (underflow : Prop) (Inv : Region -> Prop) : Prop where
  moved : forall {r tid shard p}, Inv r -> r.service.tenants.get? tid = some shard ->
    InStep (r.placing shard) p -> Inv (Region.withShard tid p r)
  unbalanced : forall {r tid shard}, Inv r -> r.service.tenants.get? tid = some shard ->
    Unbalanced (r.placing shard) -> underflow

section

variable {underflow : Prop} {Inv : Region -> Prop} (h : KeptByMoves underflow Inv)
include h

theorem KeptByMoves.onShard (hr : Inv r) (hm : forall shard, Moves (r.placing shard) m) :
    wp (onShard tid m) (fun _ => Inv) (Ends underflow Inv) r := by
  refine wp_onShard.mpr ?_
  split
  · exact hr
  next shard hshard =>
    exact Prog.wp_mono (hm shard _ (Moved.refl _)) (fun _ _ hp => h.moved hr hshard hp)
      (fun _ _ => Ends.imp (h.unbalanced hr hshard) (h.moved hr hshard))

theorem KeptByMoves.region (hkind : e.MovesShard) :
    Maintains Inv (Ends underflow Inv) e.region := by
  intro r hr
  cases e with
  | processResult | nodeRegister | nodeStateConfigure | nodeDrop | nodeDeleteOld
  | deleteNodeFinish | deleteNodeRound => cases hkind
  | schedule tid picks => exact h.onShard hr (fun _ => moves_schedule)
  | tenantPolicy tid policy scheduling =>
    exact h.onShard hr (fun _ => moves_modifyShard (fun _ => rfl))
  | rescheduleToSecondary tid promoteTo =>
    exact h.onShard hr (fun _ => moves_rescheduleToSecondary promoteTo)
  | applyOptimization tid optimization =>
    exact h.onShard hr (fun _ => moves_applyOptimization optimization)
  | tenantShardMigrate tid nodeId =>
    simp only [Event.region, wp_bind, Prog.wp_get, Prog.onlyIf]
    split
    · exact h.onShard hr (fun _ => moves_migrate nodeId)
    · exact hr
  | tenantShardMigrateSecondary tid nodeId =>
    simp only [Event.region, wp_bind, Prog.wp_get, Prog.onlyIf]
    split
    · exact h.onShard hr (fun _ => moves_migrateSecondary nodeId)
    · exact hr
  | setPreferredAz tid az => exact h.onShard hr (fun _ => moves_setPreferredAz az)
  | reconcile tid granted =>
    exact wp_bind.mpr (h.onShard hr (fun _ => moves_reconcileShard _ granted))
  | leaveOffline nodeId tid picks =>
    exact wp_bind.mpr (h.onShard hr (fun _ => moves_leaveOffline nodeId _))

end

theorem kept_hasNodes : KeptByMoves True
    (fun r : Region => HasNodes scheduler nodes r.service) where
  moved hr _ hp := ⟨hr.same.trans hp.same, hr.nodes⟩
  unbalanced _ _ _ := trivial

theorem hasNodes_region (hkind : e.OnOneShard) :
    Stays (fun r : Region => HasNodes scheduler nodes r.service) e.region := by
  cases e with
  | deleteNodeRound nodeId tid force granted picks =>
    exact get_bind
      (fun r hr => hasNodes_onShard (stays_deleteNodeShard _ nodeId force granted) r hr)
  | _ => exact kept_hasNodes.region hkind

theorem next_of_wp (hnext : s.next e = some s')
    (h : wp e.region post fail { service := s, picks := e.picks }) :
    exists picks, post () { service := s', picks := picks } ∨
      exists x, fail (.schedule x) { service := s', picks := picks } := by
  unfold Service.next Event.outcome at hnext
  unfold wp at h
  rcases hexec : Prog.exec e.region { service := s, picks := e.picks } with ⟨result, r⟩
  rw [hexec] at h hnext
  refine ⟨r.picks, ?_⟩
  cases result with
  | ok a =>
    cases hnext
    exact .inl h
  | error f =>
    cases f with
    | schedule x =>
      cases hnext
      exact .inr ⟨x, h⟩
    | _ => cases hnext

theorem hasNodes_next (hkind : e.OnOneShard) (hnext : s.next e = some s') :
    HasNodes s.scheduler s.nodes s' := by
  have hstart : HasNodes s.scheduler s.nodes s := ⟨Scheduler.SameNodes.refl _, rfl⟩
  have hregion : wp e.region _ _ { service := s, picks := e.picks } :=
    hasNodes_region hkind _ hstart
  rcases next_of_wp hnext hregion with ⟨_, hok | ⟨_, hfail⟩⟩
  · exact hok
  · exact hfail

/-!
## The scheduler and the map of nodes
-/

/-- The scheduler and the map of nodes know the same nodes. -/
def Synced (s : Service) : Prop :=
  forall nodeId, s.scheduler.Knows nodeId <-> (s.nodes.get? nodeId).isSome = true

theorem knows_nodeUpsert (scheduler : Scheduler) (nodeId : NodeId) (node : Node) (m : NodeId) :
    (scheduler.nodeUpsert nodeId node).Knows m <-> m = nodeId ∨ scheduler.Knows m := by
  have hinsert : forall entry : SchedulerNode,
      (((scheduler.nodes.insert nodeId entry).get? m).isSome = true) <->
        m = nodeId ∨ scheduler.Knows m := by
    intro entry
    rw [get?_insert]
    unfold Scheduler.Knows
    split
    next heq => simp [heq]
    next hne => simp [hne]
  unfold Scheduler.nodeUpsert
  split
  · exact hinsert _
  · exact hinsert _

theorem knows_nodeRemove (scheduler : Scheduler) (nodeId m : NodeId) :
    (scheduler.nodeRemove nodeId).Knows m <-> m ≠ nodeId ∧ scheduler.Knows m := by
  unfold Scheduler.nodeRemove Scheduler.Knows
  rw [get?_erase]
  split
  next heq => simp [heq]
  next hne => simp [hne]

theorem Synced.upsert (hs : s.Synced) (nodeId : NodeId) (node : Node) :
    Synced
      { s with
        nodes := s.nodes.insert nodeId node
        scheduler := s.scheduler.nodeUpsert nodeId node } := by
  intro m
  rw [knows_nodeUpsert, get?_insert, hs m]
  split
  next heq => simp [heq]
  next hne => simp [hne]

theorem Synced.remove (hs : s.Synced) (nodeId : NodeId)
    (tenants : OrdMap TenantShardId TenantShard) :
    Synced
      { nodes := s.nodes.erase nodeId
        tenants := tenants
        scheduler := s.scheduler.nodeRemove nodeId } := by
  intro m
  rw [knows_nodeRemove, get?_erase, hs m]
  split
  next heq => simp [heq]
  next hne => simp [hne]

theorem HasNodes.synced (hs : s.Synced) (h : HasNodes s.scheduler s.nodes s') : s'.Synced := by
  intro nodeId
  rw [h.same.knows_iff, h.nodes]
  exact hs nodeId

def paused (nodeId : NodeId) (node : Node) (s : Service) : Service :=
  { s with nodes := s.nodes.insert nodeId { node with scheduling := .pause } }

def deleteOldShards (nodes : OrdMap NodeId Node) (nodeId : NodeId)
    (granted : TenantShardId -> Bool) (tids : List TenantShardId) : Prog Region Fault Unit :=
  tids.forM (fun tid => onShard tid (deleteOldShard nodes nodeId (granted tid)))

theorem wp_nodeDeleteOld :
    wp (nodeDeleteOld nodeId granted) post fail r <->
      match r.service.nodes.get? nodeId with
      | none => post () r
      | some node =>
        wp (deleteOldShards (paused nodeId node r.service).nodes nodeId granted
            (r.service.tenants.entries.map Prod.fst))
          (fun _ r' => post () { r' with service := removeNode nodeId r'.service }) fail
          { r with service := paused nodeId node r.service } := by
  unfold nodeDeleteOld
  rw [wp_bind, Prog.wp_get, Prog.wp_option_forM]
  cases r.service.nodes.get? nodeId with
  | none => exact Iff.rfl
  | some node => exact wp_bind.trans wp_bind

theorem paused_nodes {node : Node} (h : s.nodes.get? nodeId = some node) (m : NodeId) :
    ((paused nodeId node s).nodes.get? m).isSome = true <-> (s.nodes.get? m).isSome = true := by
  unfold paused
  rw [get?_insert]
  split
  next heq =>
    rw [heq, h]
    exact Iff.rfl
  · exact Iff.rfl

theorem synced_nodeDeleteOld {picks : List NodeId} (hs : s.Synced)
    (hnext : s.next (.nodeDeleteOld nodeId granted picks) = some s') :
    s'.Synced := by
  have hwp : wp (nodeDeleteOld nodeId granted) (fun _ r => r.service.Synced)
      (Ends True (fun r => r.service.Synced)) { service := s, picks := picks } := by
    refine wp_nodeDeleteOld.mpr ?_
    split
    · exact hs
    next node hnode =>
      have hpaused : (paused nodeId node s).Synced :=
        fun m => (hs m).trans (paused_nodes hnode m).symm
      have hloop : Stays (fun r : Region => HasNodes s.scheduler (paused nodeId node s).nodes
          r.service)
          (deleteOldShards (paused nodeId node s).nodes nodeId granted
            (s.tenants.entries.map Prod.fst)) :=
        Maintains.forM (fun tid _ =>
          hasNodes_onShard (stays_deleteOldShard _ nodeId (granted tid)))
      have hstart : HasNodes s.scheduler (paused nodeId node s).nodes (paused nodeId node s) :=
        ⟨Scheduler.SameNodes.refl _, rfl⟩
      have hsynced : forall r : Region, HasNodes s.scheduler (paused nodeId node s).nodes
          r.service -> r.service.Synced :=
        fun r hr => HasNodes.synced hpaused hr
      exact Prog.wp_mono (hloop _ hstart)
        (fun _ r hr => (hsynced r hr).remove nodeId r.service.tenants)
        (fun _ r => Ends.imp id (hsynced r))
  rcases next_of_wp hnext hwp with ⟨_, hok | ⟨_, hfail⟩⟩
  · exact hok
  · exact hfail

theorem synced_next (hs : s.Synced) (hnext : s.next e = some s') : s'.Synced := by
  by_cases hkind : e.OnOneShard
  · exact (hasNodes_next hkind hnext).synced hs
  · cases e with
    | schedule | tenantPolicy | rescheduleToSecondary | applyOptimization | tenantShardMigrate
    | tenantShardMigrateSecondary | setPreferredAz | reconcile | leaveOffline
    | deleteNodeRound => exact absurd trivial hkind
    | processResult tid result =>
      cases hnext
      show Synced (Service.processResult tid result s)
      unfold Service.processResult
      split
      · exact hs
      · exact hs
    | nodeRegister nodeId az =>
      cases hnext
      show Synced (Service.nodeRegister nodeId az s)
      dsimp only [Service.nodeRegister]
      split
      · exact hs.upsert nodeId _
      · split
        · exact hs.upsert nodeId _
        · exact hs
    | nodeStateConfigure nodeId availability scheduling =>
      cases hnext
      show Synced (Service.nodeStateConfigure nodeId availability scheduling s)
      dsimp only [Service.nodeStateConfigure]
      split
      · exact hs
      · exact hs.upsert nodeId _
    | nodeDrop nodeId =>
      cases hnext
      exact hs.remove nodeId _
    | nodeDeleteOld nodeId granted picks => exact synced_nodeDeleteOld hs hnext
    | deleteNodeFinish nodeId =>
      cases hnext
      exact hs.remove nodeId _

theorem synced_reached {ok : Service -> Event -> Prop} {start : Service}
    (hstart : start.Synced) (h : Reached next ok start s) : s.Synced :=
  h.invariant hstart (fun _ _ _ hs _ hnext => synced_next hs hnext)

end Service

end StorageController
end OpenNeon

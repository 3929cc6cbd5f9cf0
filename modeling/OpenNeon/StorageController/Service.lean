import OpenNeon.Base.System
import OpenNeon.StorageController.TenantShard

/-!
# Operations of the storage controller

The controller's memory is changed under one lock.  A step is a region in which the lock
is held, or a part of one: an operation that handles several shards under the lock, or
that spawns a reconciler after it has changed an intent, may be several steps.  Only
where the parts belong together is the region one step: in both kinds of node deletion
that work on all shards at once, and in the round of the node deletion that works on one
shard after the other.  A node deletion that is cancelled or fails takes no further
steps.
-/

namespace OpenNeon
namespace StorageController

open Base

abbrev TenantShardId := Nat

structure Service where
  nodes : OrdMap NodeId Node
  tenants : OrdMap TenantShardId TenantShard
  scheduler : Scheduler

structure ReconcileResult where
  sequence : Sequence
  ok : Bool
  generation : Option Generation
  observedDeltas : List ObservedStateDelta
  pendingComputeNotification : Bool

/-- The state of a region: the memory, and the answers of the scheduler to come. -/
structure Region where
  service : Service
  picks : List NodeId

namespace Region

def placing (r : Region) (shard : TenantShard) : Placing :=
  { shard := shard, scheduler := r.service.scheduler, picks := r.picks }

def withShard (tid : TenantShardId) (p : Placing) (r : Region) : Region :=
  { service :=
      { r.service with
        tenants := r.service.tenants.insert tid p.shard
        scheduler := p.scheduler }
    picks := p.picks }

end Region

namespace Service

def onShard (tid : TenantShardId) (m : Prog Placing Fault Unit) : Prog Region Fault Unit := do
  let r <- get
  (r.service.tenants.get? tid).forM (fun shard =>
    Prog.zoom (fun r => r.placing shard) (Region.withShard tid) m)

def modifyService (f : Service -> Service) : Prog Region Fault Unit :=
  modify (fun r => { r with service := f r.service })

/-!
## Reconciler results
-/

variable (nodes : OrdMap NodeId Node)

/-- Nothing if the node is gone, and that nothing is known if it is not available. -/
def filterDelta (delta : ObservedStateDelta) :
    Option ObservedStateDelta :=
  (nodes.get? delta.nodeId).map (fun node =>
    if node.isAvailable then delta else .upsert delta.nodeId { conf := none })

/-- A reconciler that failed may not have detached what it reports as detached. -/
def failedDelta : ObservedStateDelta -> ObservedStateDelta
  | .delete nodeId => .upsert nodeId { conf := none }
  | .upsert nodeId location => .upsert nodeId location

def reconcileComplete (shard : TenantShard) (sequence : Sequence) : TenantShard :=
  match shard.reconciler with
  | some handle => if handle ≤ sequence then { shard with reconciler := none } else shard
  | none => shard

def applyResult (result : ReconcileResult)
    (shard : TenantShard) : TenantShard :=
  let deltas := result.observedDeltas.filterMap (filterDelta nodes)
  let shard := reconcileComplete
    { shard with
      generation := max shard.generation result.generation
      pendingComputeNotification := result.pendingComputeNotification }
    result.sequence
  if result.ok then
    { shard with
      observed := shard.observed.applyObservedDeltas deltas
      waiter := max shard.waiter result.sequence }
  else
    { shard with
      observed := shard.observed.applyObservedDeltas (deltas.map failedDelta)
      errorWaiter := max shard.errorWaiter result.sequence }

def processResult (tid : TenantShardId) (result : ReconcileResult) (s : Service) : Service :=
  match s.tenants.get? tid with
  | none => s
  | some shard => { s with tenants := s.tenants.insert tid (applyResult s.nodes result shard) }

/-!
## Nodes
-/

variable (nodeId : NodeId)

/-- A node that is registered; it replaces an entry with the same addresses. -/
def nodeRegister (az : AvailabilityZone) (s : Service) : Service :=
  let node : Node := { availability := .offline, scheduling := .active, availabilityZoneId := az }
  match s.nodes.get? nodeId with
  | none =>
    { s with
      nodes := s.nodes.insert nodeId node
      scheduler := s.scheduler.nodeUpsert nodeId node }
  | some registered =>
    if registered.availabilityZoneId = az then
      { s with
        nodes := s.nodes.insert nodeId node
        scheduler := s.scheduler.nodeUpsert nodeId node }
    else s

def nodeStateConfigure (availability : Option NodeAvailability)
    (scheduling : Option NodeSchedulingPolicy) (s : Service) : Service :=
  match s.nodes.get? nodeId with
  | none => s
  | some node =>
    let node : Node :=
      { node with
        availability := availability.getD node.availability
        scheduling := scheduling.getD node.scheduling }
    { s with
      nodes := s.nodes.insert nodeId node
      scheduler := s.scheduler.nodeUpsert nodeId node }

/-- Shards are moved from a node that went offline only if there is where to move them. -/
def mayRescheduleOffline (s : Service) : Bool :=
  decide (s.nodes.entries.length ≠ 1) &&
    s.nodes.entries.any (fun e => decide (e.2.maySchedule = .yes))

/-- What a node that went offline means for one shard. -/
def leaveOfflineShard (tid : TenantShardId) : Prog Region Fault Unit := do
  let r <- get
  onShard tid (TenantShard.leaveOffline nodeId r.service.mayRescheduleOffline)

/-!
## Deleting a node
-/

def reconcileShard (granted : Bool) : Prog Placing Fault Unit :=
  Prog.tryModify (fun p =>
    match TenantShard.maybeReconcileShard nodes granted p.shard with
    | .error e => .error e
    | .ok shard => .ok { p with shard := shard })

/-- Drops all that is known of a node, without moving what was on it. -/
def nodeDrop (s : Service) : Service :=
  { nodes := s.nodes.erase nodeId
    tenants := s.tenants.map (fun shard => (shard.derefNode nodeId).forgetObserved nodeId)
    scheduler := s.scheduler.nodeRemove nodeId }

/-- The round of a node deletion for a shard whose intent names the node. -/
def moveAway (granted : Bool) :
    Prog Placing Fault Unit := do
  TenantShard.modifyShard (fun shard => shard.derefNode nodeId)
  TenantShard.schedule
  reconcileShard nodes granted

def deleteOldShard (granted : Bool) :
    Prog Placing Fault Unit := do
  let shard := (<- get).shard
  if shard.derefsIntent nodeId = true then
    moveAway nodes nodeId granted
  else
    TenantShard.modifyShard (fun shard => shard.derefNode nodeId)
  TenantShard.modifyShard (fun shard => shard.forgetObserved nodeId)

def removeNode (s : Service) : Service :=
  { s with
    nodes := s.nodes.erase nodeId
    scheduler := s.scheduler.nodeRemove nodeId }

/-- The older deletion, under one lock; the scheduler is not told that the node is paused. -/
def nodeDeleteOld (granted : TenantShardId -> Bool) : Prog Region Fault Unit := do
  let s := (<- get).service
  (s.nodes.get? nodeId).forM (fun node => do
    let nodes := s.nodes.insert nodeId { node with scheduling := .pause }
    modifyService (fun s => { s with nodes := nodes })
    (s.tenants.entries.map Prod.fst).forM (fun tid =>
      onShard tid (deleteOldShard nodes nodeId (granted tid)))
    modifyService (removeNode nodeId))

/-- One shard of the node deletion that runs in the background.  Shards that may not be
moved are passed over, and only a forced deletion forgets what was observed. -/
def deleteNodeShard (force granted : Bool) :
    Prog Placing Fault Unit := do
  let shard := (<- get).shard
  Prog.onlyIf (shard.schedulingPolicy.mayMove = true) do
    if shard.derefsIntent nodeId = true then
      moveAway nodes nodeId granted
      Prog.onlyIf (force = true)
        (TenantShard.modifyShard (fun shard => shard.forgetObserved nodeId))
    else
      TenantShard.modifyShard (fun shard => shard.derefNode nodeId)

def deleteNodeRound (tid : TenantShardId) (force granted : Bool) :
    Prog Region Fault Unit := do
  let s := (<- get).service
  onShard tid (deleteNodeShard s.nodes nodeId force granted)

/-!
## Steps
-/

inductive Event where
  | schedule (tid : TenantShardId) (picks : List NodeId)
  | tenantPolicy (tid : TenantShardId) (policy : PlacementPolicy)
      (scheduling : ShardSchedulingPolicy)
  | rescheduleToSecondary (tid : TenantShardId) (promoteTo : Option NodeId)
  | applyOptimization (tid : TenantShardId) (optimization : ScheduleOptimization)
  | tenantShardMigrate (tid : TenantShardId) (nodeId : NodeId)
  | tenantShardMigrateSecondary (tid : TenantShardId) (nodeId : NodeId)
  | setPreferredAz (tid : TenantShardId) (az : Option AvailabilityZone)
  | reconcile (tid : TenantShardId) (granted : Bool)
  | processResult (tid : TenantShardId) (result : ReconcileResult)
  | nodeRegister (nodeId : NodeId) (az : AvailabilityZone)
  | nodeStateConfigure (nodeId : NodeId) (availability : Option NodeAvailability)
      (scheduling : Option NodeSchedulingPolicy)
  | leaveOffline (nodeId : NodeId) (tid : TenantShardId) (picks : List NodeId)
  | nodeDrop (nodeId : NodeId)
  | nodeDeleteOld (nodeId : NodeId) (granted : TenantShardId -> Bool) (picks : List NodeId)
  | deleteNodeRound (nodeId : NodeId) (tid : TenantShardId) (force granted : Bool)
      (picks : List NodeId)
  | deleteNodeFinish (nodeId : NodeId)

namespace Event

def picks : Event -> List NodeId
  | schedule _ picks => picks
  | leaveOffline _ _ picks => picks
  | nodeDeleteOld _ _ picks => picks
  | deleteNodeRound _ _ _ _ picks => picks
  | _ => []

def region : Event -> Prog Region Fault Unit
  | schedule tid _ => onShard tid TenantShard.schedule
  | tenantPolicy tid policy scheduling =>
    onShard tid (TenantShard.modifyShard (fun shard =>
      { shard with policy := policy, schedulingPolicy := scheduling }))
  | rescheduleToSecondary tid promoteTo =>
    onShard tid (TenantShard.rescheduleToSecondary promoteTo)
  | applyOptimization tid optimization => onShard tid (TenantShard.applyOptimization optimization)
  | tenantShardMigrate tid nodeId => do
    let s := (<- get).service
    Prog.onlyIf ((s.nodes.get? nodeId).isSome = true) (onShard tid (TenantShard.migrate nodeId))
  | tenantShardMigrateSecondary tid nodeId => do
    let s := (<- get).service
    Prog.onlyIf ((s.nodes.get? nodeId).isSome = true)
      (onShard tid (TenantShard.migrateSecondary nodeId))
  | setPreferredAz tid az => onShard tid (TenantShard.onIntent (IntentState.setPreferredAz az))
  | reconcile tid granted => do
    let s := (<- get).service
    onShard tid (reconcileShard s.nodes granted)
  | processResult tid result => modifyService (Service.processResult tid result)
  | nodeRegister nodeId az => modifyService (Service.nodeRegister nodeId az)
  | nodeStateConfigure nodeId availability scheduling =>
    modifyService (Service.nodeStateConfigure nodeId availability scheduling)
  | leaveOffline nodeId tid _ => leaveOfflineShard nodeId tid
  | nodeDrop nodeId => modifyService (Service.nodeDrop nodeId)
  | nodeDeleteOld nodeId granted _ => Service.nodeDeleteOld nodeId granted
  | deleteNodeRound nodeId tid force granted _ => Service.deleteNodeRound nodeId tid force granted
  | deleteNodeFinish nodeId => modifyService (removeNode nodeId)

def outcome (e : Event) (s : Service) : Except Fault Unit × Service :=
  let result := Prog.exec e.region { service := s, picks := e.picks }
  (result.1, result.2.service)

end Event

/-- The memory when the lock is released; faults but scheduling errors end the controller. -/
def next (s : Service) (e : Event) : Option Service :=
  match e.outcome s with
  | (.ok _, s') => some s'
  | (.error (.schedule _), s') => some s'
  | (.error _, _) => none

end Service

end StorageController
end OpenNeon

import OpenNeon.StorageController.Scheduler

/-!
# Tenant shards in the controller

The operations on one shard: choosing its locations, applying an optimization that was
planned earlier, dropping what refers to a node, and deciding whether a reconciler is
needed.  They work on the shard and the scheduler under the service's lock, and what an
operation has changed before it fails stays changed.
-/

namespace OpenNeon
namespace StorageController

open Base IntentState

abbrev Sequence := Nat

inductive ShardSchedulingPolicy where
  | active
  | essential
  | pause
  | stop
  deriving DecidableEq

inductive SplitState where
  | idle
  | splitting
  deriving DecidableEq

structure TenantShard where
  shard : ShardIdentity
  intent : IntentState
  observed : ObservedState
  policy : PlacementPolicy
  schedulingPolicy : ShardSchedulingPolicy
  preferredNode : Option NodeId
  config : TenantConfig
  generation : Option Generation
  splitting : SplitState
  sequence : Sequence
  waiter : Sequence
  errorWaiter : Sequence
  -- the sequence of the reconciler in flight
  reconciler : Option Sequence
  pendingComputeNotification : Bool

inductive ScheduleOptimizationAction where
  | replaceSecondary (oldNodeId newNodeId : NodeId)
  | migrateAttachment (oldAttachedNodeId newAttachedNodeId : NodeId)
  | createSecondary (newNodeId : NodeId)
  | removeSecondary (oldSecondary : NodeId)

structure ScheduleOptimization where
  sequence : Sequence
  action : ScheduleOptimizationAction

structure Placing where
  shard : TenantShard
  scheduler : Scheduler
  picks : List NodeId

namespace Placing

def placement (p : Placing) : Placement :=
  { intent := p.shard.intent, scheduler := p.scheduler }

def withPlacement (q : Placement) (p : Placing) : Placing :=
  { p with shard := { p.shard with intent := q.intent }, scheduler := q.scheduler }

end Placing

namespace ShardSchedulingPolicy

def mayMove : ShardSchedulingPolicy -> Bool
  | active => true
  | essential => true
  | pause => false
  | stop => false

end ShardSchedulingPolicy

/-- The node with the lowest score among those that may be used. -/
def scheduleShard (hardExclude : List NodeId) : Prog Placing Fault NodeId := do
  let p <- get
  Prog.refuse (p.scheduler.nodes.entries = []) (.schedule .noPageservers)
  Prog.refuse (p.scheduler.scored hardExclude = []) (.schedule .impossibleConstraint)
  match p.picks with
  | [] => throw .unpicked
  | nodeId :: picks =>
    Prog.refuse (nodeId ∉ p.scheduler.scored hardExclude) .unpicked
    set { p with picks := picks }
    pure nodeId

namespace TenantShard

def onIntent {alpha : Type} (m : Prog Placement Fault alpha) : Prog Placing Fault alpha :=
  Prog.zoom Placing.placement Placing.withPlacement m

def modifyShard (f : TenantShard -> TenantShard) : Prog Placing Fault Unit :=
  modify (fun p => { p with shard := f p.shard })

def nextSequence (shard : TenantShard) : TenantShard :=
  { shard with sequence := shard.sequence + 1 }

def setPreferredNode (nodeId : Option NodeId) (shard : TenantShard) : TenantShard :=
  { shard with preferredNode := nodeId }

/-!
## Scheduling
-/

/-- A secondary location to attach for a while, the least id, outside the preferred zone if
possible. -/
def preferredSecondary (i : IntentState) (s : Scheduler) : Except Fault (Option NodeId) :=
  match s.filterUsableNodes i.secondary with
  | .error e => .error e
  | .ok candidates =>
    let away := candidates.filter (fun c => some c.2 ≠ i.preferredAzId)
    let home := candidates.filter (fun c => some c.2 = i.preferredAzId)
    .ok (((away.map Prod.fst).min?).or ((home.map Prod.fst).min?))

def scheduleAttached : Prog Placing Fault (Bool × NodeId) := do
  let i := (<- get).shard.intent
  match i.attached with
  | some nodeId => pure (false, nodeId)
  | none =>
    match <- Prog.read (fun p => preferredSecondary p.shard.intent p.scheduler) with
    | some promoteSecondary =>
      onIntent (promoteAttached promoteSecondary)
      pure (true, promoteSecondary)
    | none =>
      let nodeId <- scheduleShard i.secondary
      onIntent (setAttached (some nodeId))
      pure (true, nodeId)

def addSecondaries : Nat -> List NodeId -> Prog Placing Fault Unit
  | 0, _ => pure ()
  | rounds + 1, usedPageservers => do
    let nodeId <- scheduleShard usedPageservers
    onIntent (pushSecondary nodeId)
    addSecondaries rounds (usedPageservers ++ [nodeId])

/-- The last of the secondary locations, those outside the preferred zone being last. -/
def secondaryToRemove (i : IntentState) (s : Scheduler) : Option NodeId :=
  (i.secondary.filter (fun n => s.getNodeAz n = i.preferredAzId) ++
    i.secondary.filter (fun n => s.getNodeAz n ≠ i.preferredAzId)).getLast?

def removeSecondaries : Nat -> Prog Placing Fault Unit
  | 0 => pure ()
  | rounds + 1 => do
    let p <- get
    (secondaryToRemove p.shard.intent p.scheduler).forM (fun n => onIntent (removeSecondary n))
    removeSecondaries rounds

/-- Brings the intent in line with the placement policy; returns whether it changed. -/
def followPolicy : Prog Placing Fault Bool := do
  let p <- get
  match p.shard.policy with
  | .attached secondaryCount =>
    let attached <- scheduleAttached
    let rounds := secondaryCount - (<- get).shard.intent.secondary.length
    addSecondaries rounds [attached.2]
    pure (attached.1 || decide (0 < rounds))
  | .secondary =>
    match p.shard.intent.attached with
    | some nodeId => do
      let _ <- onIntent (demoteAttached nodeId)
      pure ()
    | none =>
      Prog.onlyIf (p.shard.intent.secondary = []) do
        let nodeId <- scheduleShard []
        onIntent (pushSecondary nodeId)
    let rounds := (<- get).shard.intent.secondary.length - 1
    removeSecondaries rounds
    pure (p.shard.intent.attached.isSome || p.shard.intent.secondary.isEmpty || decide (0 < rounds))
  | .detached =>
    Prog.onlyIf (p.shard.intent.allPageservers ≠ []) (onIntent clear)
    pure (decide (p.shard.intent.allPageservers ≠ []))

def schedule : Prog Placing Fault Unit := do
  let p <- get
  Prog.onlyIf (p.shard.schedulingPolicy.mayMove = true) do
    let modified <- followPolicy
    Prog.onlyIf (modified = true) (modifyShard nextSequence)

/-- Attaches one of the secondary locations in place of the attached one. -/
def rescheduleToSecondary (promoteTo : Option NodeId) : Prog Placing Fault Unit := do
  let promoteTo <- Prog.read (fun p =>
    match promoteTo with
    | some nodeId => .ok nodeId
    | none =>
      match preferredSecondary p.shard.intent p.scheduler with
      | .error e => .error e
      | .ok none => .error (.schedule .impossibleConstraint)
      | .ok (some nodeId) => .ok nodeId)
  let i := (<- get).shard.intent
  Prog.refuse (promoteTo ∉ i.secondary) .assertion
  i.attached.forM (fun nodeId => do
    let demoted <- onIntent (demoteAttached nodeId)
    Prog.refuse (demoted = false) (.schedule .impossibleConstraint))
  onIntent (promoteAttached promoteTo)
  modifyShard nextSequence

/-!
## Optimizations and migrations
-/

def validateOptimization (shard : TenantShard) : ScheduleOptimizationAction -> Bool
  | .migrateAttachment oldAttachedNodeId newAttachedNodeId =>
    decide (shard.intent.attached = some oldAttachedNodeId) &&
      decide (newAttachedNodeId ∈ shard.intent.secondary)
  | .replaceSecondary _ newNodeId =>
    decide (newNodeId ∉ shard.intent.secondary) && decide (shard.intent.attached ≠ some newNodeId)
  | .createSecondary newNodeId => decide (newNodeId ∉ shard.intent.secondary)
  | .removeSecondary _ => true

def applyAction : ScheduleOptimizationAction -> Prog Placing Fault Unit
  | .migrateAttachment oldAttachedNodeId newAttachedNodeId => do
    let _ <- onIntent (demoteAttached oldAttachedNodeId)
    onIntent (promoteAttached newAttachedNodeId)
    modifyShard (fun shard =>
      if shard.preferredNode = some newAttachedNodeId then setPreferredNode none shard
      else shard)
  | .replaceSecondary oldNodeId newNodeId => do
    onIntent (removeSecondary oldNodeId)
    onIntent (pushSecondary newNodeId)
  | .createSecondary newNodeId => onIntent (pushSecondary newNodeId)
  | .removeSecondary oldSecondary => onIntent (removeSecondary oldSecondary)

/-- An optimization is dropped if the shard has changed since it was planned. -/
def applyOptimization (optimization : ScheduleOptimization) : Prog Placing Fault Unit := do
  let shard := (<- get).shard
  Prog.onlyIf (optimization.sequence = shard.sequence ∧
      validateOptimization shard optimization.action = true)
    (applyAction optimization.action)

def popSecondaries : Nat -> Prog Placing Fault Unit
  | 0 => pure ()
  | rounds + 1 => do
    onIntent popSecondary
    popSecondaries rounds

/-- An immediate migration; the attached node becomes secondary if the policy wants any. -/
def migrateIntent (policy : PlacementPolicy) (oldAttached : Option NodeId) (nodeId : NodeId) :
    Prog Placing Fault Unit :=
  match policy with
  | .attached n => do
    onIntent (removeSecondary nodeId)
    onIntent (setAttached (some nodeId))
    oldAttached.forM (fun oldAttached =>
      Prog.onlyIf (0 < n) do
        let secondaries := (<- get).shard.intent.secondary.length
        popSecondaries (secondaries + 1 - n)
        onIntent (pushSecondary oldAttached))
  | .secondary => do
    onIntent clear
    onIntent (pushSecondary nodeId)
  | .detached => pure ()

/-- An immediate migration; a detached tenant is refused. -/
def migrateImmediate (nodeId : NodeId) : Prog Placing Fault Unit := do
  let shard := (<- get).shard
  Prog.onlyIf (shard.policy ≠ .detached) do
    migrateIntent shard.policy shard.intent.attached nodeId
    modifyShard (fun shard => setPreferredNode none (nextSequence shard))

/-- A node to which the shard is attached already is left as it is. -/
def migrate (nodeId : NodeId) : Prog Placing Fault Unit := do
  let shard := (<- get).shard
  if shard.intent.attached = some nodeId then
    modifyShard (setPreferredNode none)
  else
    migrateImmediate nodeId

def migrateSecondary (nodeId : NodeId) : Prog Placing Fault Unit := do
  let shard := (<- get).shard
  Prog.onlyIf (shard.intent.secondary ≠ [nodeId] ∧ shard.intent.attached ≠ some nodeId) do
    shard.intent.secondary.forM (fun n => onIntent (removeSecondary n))
    onIntent (pushSecondary nodeId)
    modifyShard nextSequence

/-!
## Dropping a node
-/

section

variable (shard : TenantShard) (nodeId : NodeId)

/-- The intent without the node.  The scheduler is not told. -/
def derefNode : TenantShard :=
  { shard with
    intent :=
      { shard.intent with
        attached := if shard.intent.attached = some nodeId then none else shard.intent.attached
        secondary := shard.intent.secondary.filter (fun n => n ≠ nodeId) }
    preferredNode := if shard.preferredNode = some nodeId then none else shard.preferredNode }

def derefsIntent : Bool :=
  decide (shard.intent.attached = some nodeId) || decide (nodeId ∈ shard.intent.secondary)

def forgetObserved : TenantShard :=
  { shard with observed := shard.observed.erase nodeId }

end

/-- A node that went offline: what it holds is unknown and it is not to be attached. -/
def leaveOffline (nodeId : NodeId) (reschedule : Bool) : Prog Placing Fault Unit := do
  modifyShard (fun shard =>
    match shard.observed.get? nodeId with
    | none => shard
    | some _ => { shard with observed := shard.observed.insert nodeId { conf := none } })
  Prog.onlyIf (reschedule = true) do
    let demoted <- onIntent (demoteAttached nodeId)
    Prog.onlyIf (demoted = true) do
      modifyShard nextSequence
      schedule

/-!
## Reconcilers
-/

inductive ReconcileNeeded where
  | no
  | waitExisting
  | yes

/-- Some unknown location is on an available node; all nodes have to exist. -/
def dirtyObserved (nodes : OrdMap NodeId Node) :
    List (NodeId × ObservedStateLocation) -> Except Fault Bool
  | [] => .ok false
  | (nodeId, location) :: rest =>
    match nodes.get? nodeId with
    | none => .error (.missingNode nodeId)
    | some node =>
      if location.conf = none ∧ node.isAvailable = true then .ok true
      else dirtyObserved nodes rest

def dirtyNodes (shard : TenantShard) : Except Fault (List NodeId) :=
  let differs := fun (wanted : LocationConfig) (nodeId : NodeId) =>
    decide (shard.observed.get? nodeId ≠ some { conf := some wanted })
  let secondary := shard.intent.secondary.filter
    (differs (secondaryLocationConf shard.shard shard.config))
  let extraneous := (shard.observed.entries.map Prod.fst).filter
    (fun nodeId => decide (nodeId ∉ shard.intent.allPageservers))
  match shard.intent.attached, shard.generation with
  | none, _ => .ok (secondary ++ extraneous)
  | some _, none => .error .missingGeneration
  | some nodeId, some generation =>
    let wanted := attachedLocationConf generation shard.shard shard.config shard.policy
      shard.intent.secondary.length
    .ok ([nodeId].filter (differs wanted) ++ secondary ++ extraneous)

def dirty (shard : TenantShard) (nodes : OrdMap NodeId Node) : Except Fault Bool :=
  match shard.dirtyNodes with
  | .error e => .error e
  | .ok dirtyNodes =>
    .ok (dirtyNodes.any (fun nodeId => ((nodes.get? nodeId).map Node.isAvailable).getD false))

def getReconcileNeeded (shard : TenantShard) (nodes : OrdMap NodeId Node) :
    Except Fault ReconcileNeeded :=
  match dirtyObserved nodes shard.observed.entries with
  | .error e => .error e
  | .ok dirtyObserved =>
    match shard.dirty nodes with
    | .error e => .error e
    | .ok activeNodesDirty =>
      if !(activeNodesDirty || dirtyObserved || shard.pendingComputeNotification) then .ok .no
      else if shard.splitting ≠ .idle then .ok .no
      else if shard.reconciler = some shard.sequence then .ok .waitExisting
      else if shard.schedulingPolicy = .stop then .ok .no
      else .ok .yes

def ensureSequenceAhead (shard : TenantShard) : TenantShard :=
  let maxSeen := max (shard.reconciler.getD 0) (max shard.waiter shard.errorWaiter)
  if shard.sequence ≤ maxSeen then { shard with sequence := maxSeen + 1 } else shard

def lookupNodes (nodes : OrdMap NodeId Node) : List NodeId -> Except Fault (List Node)
  | [] => .ok []
  | nodeId :: rest =>
    match nodes.get? nodeId with
    | none => .error (.missingNode nodeId)
    | some node =>
      match lookupNodes nodes rest with
      | .error e => .error e
      | .ok found => .ok (node :: found)

def detachTargets (shard : TenantShard) (nodes : OrdMap NodeId Node) : Except Fault (List Node) :=
  lookupNodes nodes ((shard.observed.entries.map Prod.fst).filter
    (fun nodeId => decide (nodeId ∉ shard.intent.allPageservers)))

structure TargetState where
  attached : Option Node
  secondary : List Node

namespace TargetState

def fromIntent (nodes : OrdMap NodeId Node) (i : IntentState) : Except Fault TargetState :=
  match lookupNodes nodes i.attached.toList, lookupNodes nodes i.secondary with
  | .error e, _ => .error e
  | .ok _, .error e => .error e
  | .ok attached, .ok secondary => .ok { attached := attached.head?, secondary := secondary }

end TargetState

/-- The shard with a reconciler in flight; the reconciler works on copies. -/
def spawnReconciler (shard : TenantShard) (nodes : OrdMap NodeId Node) : Except Fault TenantShard :=
  match shard.detachTargets nodes with
  | .error e => .error e
  | .ok _ =>
    match TargetState.fromIntent nodes shard.intent with
    | .error e => .error e
    | .ok _ =>
      -- the handle of the predecessor is taken before the sequence is advanced
      let shard := ensureSequenceAhead { shard with reconciler := none }
      .ok { shard with reconciler := some shard.sequence }

/-- Spawns a reconciler if one is needed and units are granted for it. -/
def maybeReconcileShard (nodes : OrdMap NodeId Node) (granted : Bool) (shard : TenantShard) :
    Except Fault TenantShard :=
  match shard.getReconcileNeeded nodes with
  | .error e => .error e
  | .ok .no => .ok shard
  | .ok .waitExisting => .ok shard
  | .ok .yes => if granted then shard.spawnReconciler nodes else .ok (ensureSequenceAhead shard)

end TenantShard

end StorageController
end OpenNeon

import OpenNeon.Base.Prog
import OpenNeon.StorageController.LocationConfig

/-!
# The scheduler and the intents it counts

The scheduler keeps three counts of each pageserver: how many intended locations are on
it, how many of them are attached, and how many belong to shards whose preferred
availability zone is the node's.  The counts are changed by the operations that change
the intent of a shard.

The scores by which the scheduler prefers one node to another are left open: what each
of its coming answers is stands in the state of a program, and an answer has to be a node
that may be scheduled on and is not excluded.
-/

namespace OpenNeon
namespace StorageController

open Base

abbrev AvailabilityZone := String

inductive MaySchedule where
  | yes
  | no
  deriving DecidableEq

inductive ScheduleError where
  | noPageservers
  | impossibleConstraint
  deriving DecidableEq

/-- Why a program does not return.  All but the errors of scheduling end the controller;
an answer that the scheduler cannot give ends the run that supposed it. -/
inductive Fault where
  | assertion
  | missingNode (nodeId : NodeId)
  | missingGeneration
  | underflow
  | unpicked
  | schedule (e : ScheduleError)
  deriving DecidableEq

structure SchedulerNode where
  shardCount : Nat
  attachedShardCount : Nat
  homeShardCount : Nat
  maySchedule : MaySchedule
  az : AvailabilityZone

inductive RefCountUpdate where
  | promoteSecondary
  | attach
  | detach
  | demoteAttached
  | addSecondary
  | removeSecondary
  | changePreferredAzFrom (oldAz : Option AvailabilityZone)
  deriving DecidableEq

/-!
## The counts of a node
-/

/-- A count cannot be taken below zero. -/
def decrement (count : Nat) : Except Fault Nat :=
  if count = 0 then .error .underflow else .ok (count - 1)

def decrementIf (c : Prop) [Decidable c] (count : Nat) : Except Fault Nat :=
  if c then decrement count else .ok count

def incrementIf (c : Prop) [Decidable c] (count : Nat) : Nat :=
  if c then count + 1 else count

namespace SchedulerNode

def updateRefCounts (node : SchedulerNode) (preferredAz : Option AvailabilityZone) :
    RefCountUpdate -> Except Fault SchedulerNode
  | .promoteSecondary => .ok { node with attachedShardCount := node.attachedShardCount + 1 }
  | .attach =>
    .ok
      { node with
        shardCount := node.shardCount + 1
        attachedShardCount := node.attachedShardCount + 1
        homeShardCount := incrementIf (some node.az = preferredAz) node.homeShardCount }
  | .detach => do
    let shardCount <- decrement node.shardCount
    let attachedShardCount <- decrement node.attachedShardCount
    let homeShardCount <- decrementIf (some node.az = preferredAz) node.homeShardCount
    .ok { node with shardCount, attachedShardCount, homeShardCount }
  | .demoteAttached => do
    let attachedShardCount <- decrement node.attachedShardCount
    .ok { node with attachedShardCount }
  | .addSecondary =>
    .ok
      { node with
        shardCount := node.shardCount + 1
        homeShardCount := incrementIf (some node.az = preferredAz) node.homeShardCount }
  | .removeSecondary => do
    let shardCount <- decrement node.shardCount
    let homeShardCount <- decrementIf (some node.az = preferredAz) node.homeShardCount
    .ok { node with shardCount, homeShardCount }
  | .changePreferredAzFrom oldAz => do
    let homeShardCount <- decrementIf (some node.az = oldAz) node.homeShardCount
    .ok { node with homeShardCount := incrementIf (some node.az = preferredAz) homeShardCount }

end SchedulerNode

/-!
## The scheduler
-/

inductive NodeAvailability where
  | active
  | warmingUp
  | offline
  deriving DecidableEq

inductive NodeSchedulingPolicy where
  | active
  | filling
  | pause
  | pauseForRestart
  | draining
  | deleting

structure Node where
  availability : NodeAvailability
  scheduling : NodeSchedulingPolicy
  availabilityZoneId : AvailabilityZone

namespace Node

def isAvailable (node : Node) : Bool :=
  decide (node.availability = .active)

def maySchedule (node : Node) : MaySchedule :=
  match node.availability with
  | .offline => .no
  | .warmingUp => .no
  | .active =>
    match node.scheduling with
    | .active => .yes
    | .deleting => .no
    | .draining => .no
    | .filling => .yes
    | .pause => .no
    | .pauseForRestart => .no

end Node

structure Scheduler where
  nodes : OrdMap NodeId SchedulerNode

namespace Scheduler

section

variable (s : Scheduler) (nodeId : NodeId)

def updateNodeRefCounts (preferredAz : Option AvailabilityZone) (update : RefCountUpdate) :
    Except Fault Scheduler :=
  match s.nodes.get? nodeId with
  | none => .ok s
  | some node =>
    match node.updateRefCounts preferredAz update with
    | .error e => .error e
    | .ok node => .ok { nodes := s.nodes.insert nodeId node }

def nodeUpsert (node : Node) : Scheduler :=
  match s.nodes.get? nodeId with
  | some entry =>
    { nodes := s.nodes.insert nodeId { entry with maySchedule := node.maySchedule } }
  | none =>
    { nodes := s.nodes.insert nodeId
        { shardCount := 0
          attachedShardCount := 0
          homeShardCount := 0
          maySchedule := node.maySchedule
          az := node.availabilityZoneId } }

def nodeRemove : Scheduler :=
  { nodes := s.nodes.erase nodeId }

def getNodeAz : Option AvailabilityZone :=
  (s.nodes.get? nodeId).map SchedulerNode.az

end

/-- The usable ones of some nodes, all of which are supposed to exist. -/
def filterUsableNodes (s : Scheduler) :
    List NodeId -> Except Fault (List (NodeId × AvailabilityZone))
  | [] => .ok []
  | nodeId :: rest =>
    match s.nodes.get? nodeId with
    | none => .error (.missingNode nodeId)
    | some node =>
      match filterUsableNodes s rest with
      | .error e => .error e
      | .ok usable =>
        if node.maySchedule = .yes then .ok ((nodeId, node.az) :: usable)
        else .ok usable

/-- The nodes that have a score: they may be scheduled on and are not excluded. -/
def scored (s : Scheduler) (hardExclude : List NodeId) : List NodeId :=
  (s.nodes.entries.filter
    (fun e => decide (e.2.maySchedule = .yes ∧ e.1 ∉ hardExclude))).map Prod.fst

end Scheduler

/-!
## The intent of a shard
-/

structure IntentState where
  attached : Option NodeId
  secondary : List NodeId
  preferredAzId : Option AvailabilityZone

/-- The state of the operations on an intent. -/
structure Placement where
  intent : IntentState
  scheduler : Scheduler

namespace IntentState

def allPageservers (i : IntentState) : List NodeId :=
  i.attached.toList ++ i.secondary

def updateNodeRefCounts (nodeId : NodeId) (preferredAz : Option AvailabilityZone)
    (update : RefCountUpdate) : Prog Placement Fault Unit :=
  Prog.tryModify (fun p =>
    match p.scheduler.updateNodeRefCounts nodeId preferredAz update with
    | .error e => .error e
    | .ok scheduler => .ok { p with scheduler := scheduler })

def modifyIntent (f : IntentState -> IntentState) : Prog Placement Fault Unit :=
  modify (fun p => { p with intent := f p.intent })

def takeAttached : Prog Placement Fault Unit := do
  let i := (<- get).intent
  i.attached.forM (fun oldAttached => do
    modifyIntent (fun i => { i with attached := none })
    updateNodeRefCounts oldAttached i.preferredAzId .detach)

def setAttached (newAttached : Option NodeId) : Prog Placement Fault Unit := do
  let i := (<- get).intent
  Prog.onlyIf (i.attached ≠ newAttached) do
    takeAttached
    newAttached.forM (fun newAttached =>
      updateNodeRefCounts newAttached i.preferredAzId .attach)
    modifyIntent (fun i => { i with attached := newAttached })
  newAttached.forM (fun newAttached => Prog.refuse (newAttached ∈ i.secondary) .assertion)

def promoteAttached (promoteSecondary : NodeId) : Prog Placement Fault Unit := do
  let i := (<- get).intent
  modifyIntent (fun i =>
    { i with
      secondary := i.secondary.filter (fun n => n ≠ promoteSecondary)
      attached := some promoteSecondary })
  updateNodeRefCounts promoteSecondary i.preferredAzId .promoteSecondary
  i.attached.forM (fun demoted => updateNodeRefCounts demoted i.preferredAzId .demoteAttached)

def pushSecondary (newSecondary : NodeId) : Prog Placement Fault Unit := do
  let i := (<- get).intent
  Prog.refuse (newSecondary ∈ i.secondary) .assertion
  Prog.refuse (i.attached = some newSecondary) .assertion
  updateNodeRefCounts newSecondary i.preferredAzId .addSecondary
  modifyIntent (fun i => { i with secondary := i.secondary ++ [newSecondary] })

/-- A node that is no secondary location is left alone. -/
def removeSecondary (nodeId : NodeId) : Prog Placement Fault Unit := do
  let i := (<- get).intent
  Prog.onlyIf (nodeId ∈ i.secondary) do
    updateNodeRefCounts nodeId i.preferredAzId .removeSecondary
    modifyIntent (fun i => { i with secondary := i.secondary.erase nodeId })

def clearSecondary : Prog Placement Fault Unit := do
  let i := (<- get).intent
  i.secondary.forM (fun n => updateNodeRefCounts n i.preferredAzId .removeSecondary)
  modifyIntent (fun i => { i with secondary := [] })

def popSecondary : Prog Placement Fault Unit := do
  let i := (<- get).intent
  i.secondary.getLast?.forM (fun n => do
    modifyIntent (fun i => { i with secondary := i.secondary.dropLast })
    updateNodeRefCounts n i.preferredAzId .removeSecondary)

def clear : Prog Placement Fault Unit := do
  takeAttached
  clearSecondary

/-- Moves the attached location to the secondary ones if it is on the node. -/
def demoteAttached (nodeId : NodeId) : Prog Placement Fault Bool := do
  let i := (<- get).intent
  if i.attached = some nodeId then
    modifyIntent (fun i => { i with attached := none, secondary := i.secondary ++ [nodeId] })
    updateNodeRefCounts nodeId i.preferredAzId .demoteAttached
    pure true
  else
    pure false

def setPreferredAz (preferredAz : Option AvailabilityZone) : Prog Placement Fault Unit := do
  let i := (<- get).intent
  Prog.onlyIf (i.preferredAzId ≠ preferredAz) do
    i.attached.forM (fun n =>
      updateNodeRefCounts n preferredAz (.changePreferredAzFrom i.preferredAzId))
    i.secondary.forM (fun n =>
      updateNodeRefCounts n preferredAz (.changePreferredAzFrom i.preferredAzId))
    modifyIntent (fun i => { i with preferredAzId := preferredAz })

end IntentState

end StorageController
end OpenNeon

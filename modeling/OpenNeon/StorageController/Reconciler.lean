import OpenNeon.Base.Task
import OpenNeon.StorageController.Service

/-!
# Reconcilers

A reconciler works on copies of a shard's state from when it was spawned.  It asks
pageservers to change their location of the shard, the database for new generations, and
the compute to use another pageserver, and it may fail at any of these.  What it has
learned is reported as the difference to the copy that it started from.

Waits for LSNs and downloads, and the loop that notifies the compute until it has
understood, change nothing that is kept here; each is one request.
-/

namespace OpenNeon
namespace StorageController

open Base

inductive ReconcileError where
  | remote
  | notify
  | cancel
  | other

/-- Whether an attempt to notify the compute failed, and the error if not passed over. -/
structure Notified where
  failed : Bool
  error : Option ReconcileError

inductive Request where
  | getLocationConfig (nodeId : NodeId)
  | locationConfig (nodeId : NodeId) (conf : LocationConfig)
  | incrementGeneration (nodeId : NodeId)
  | getLsns (nodeId : NodeId)
  | secondaryDownload (nodeId : NodeId)
  | awaitLsn (nodeId : NodeId)
  | computeNotify (nodeId : NodeId)
  | computeNotifyBlocking (nodeId origin : NodeId)
  | checkCancelled

/-- What an answer brings that is no error.  A pageserver has no location of the shard, or
one that it may be changing just now, or one with a known configuration. -/
@[reducible] def Request.Payload : Request -> Type
  | getLocationConfig _ => Option (Option LocationConfig)
  | locationConfig _ _ => Unit
  | incrementGeneration _ => Generation
  | getLsns _ => Unit
  | secondaryDownload _ => Unit
  | awaitLsn _ => Unit
  | computeNotify _ => Notified
  | computeNotifyBlocking _ _ => Notified
  | checkCancelled => Unit

structure Reconciler where
  shard : ShardIdentity
  placementPolicy : PlacementPolicy
  generation : Option Generation
  attached : Option NodeId
  secondary : List NodeId
  detach : List NodeId
  config : TenantConfig
  observed : ObservedState
  originalObserved : ObservedState
  computeNotifyFailure : Bool
  -- copies of the nodes from when the reconciler was spawned
  nodes : OrdMap NodeId Node
  -- where the iteration over the observed locations begins
  first : NodeId

namespace Reconciler

abbrev Step := Proc Request Request.Payload Reconciler ReconcileError

variable (self : Reconciler)

variable (nodeId : NodeId)

def isAvailable : Bool :=
  ((self.nodes.get? nodeId).map Node.isAvailable).getD false

def targets : List NodeId :=
  self.attached.toList ++ self.secondary ++ self.detach

def observe (conf : Option LocationConfig) (self : Reconciler) : Reconciler :=
  { self with observed := self.observed.insert nodeId { conf := conf } }

def unobserve (self : Reconciler) : Reconciler :=
  { self with observed := self.observed.erase nodeId }

def observedConf : Option LocationConfig :=
  (self.observed.get? nodeId).bind (fun location => location.conf)

/-!
## Calls
-/

def ask (r : Request) : Step r.Payload :=
  Proc.ask r

/-- Ask a pageserver for a location; until it has answered nothing is known of it. -/
def locationConfig (conf : LocationConfig) : Step Unit := do
  let self <- get
  if self.isAvailable nodeId = false ∧ conf.mode = .detached then
    pure ()
  else
    modify (observe nodeId none)
    ask (.locationConfig nodeId conf)
    modify (if conf.mode = .detached then unobserve nodeId else observe nodeId (some conf))

def noteNotified (notified : Notified) : Step Unit := do
  modify (fun self =>
    { self with computeNotifyFailure := self.computeNotifyFailure || notified.failed })
  match notified.error with
  | some e => throw e
  | none => pure ()

def computeNotify : Step Unit := do
  let self <- get
  match self.attached with
  | none => pure ()
  | some nodeId => do
    let notified : Notified <- ask (.computeNotify nodeId)
    noteNotified notified

def computeNotifyBlocking (origin : NodeId) : Step Unit := do
  let self <- get
  match self.attached with
  | none => pure ()
  | some nodeId => do
    let notified : Notified <- ask (.computeNotifyBlocking nodeId origin)
    noteNotified notified

/-!
## Live migration
-/

/-- The configurations of a live migration; the settings of the tenant are as they are. -/
def buildLocationConfig (mode : LocationConfigMode)
    (generation : Option Generation) (secondaryConf : Option LocationConfigSecondary) :
    LocationConfig :=
  { mode := mode
    generation := generation
    secondaryConf := secondaryConf
    shardNumber := self.shard.number
    shardCount := self.shard.count.literal
    shardStripeSize := self.shard.stripeSize
    tenantConf := self.config }

def incrementGeneration : Step Unit := do
  let generation : Generation <- ask (.incrementGeneration nodeId)
  modify (fun self => { self with generation := some generation })

/-- Brings a secondary location up to date before it is attached. -/
def warmUp : Step Unit := do
  let self <- get
  if (self.observedConf nodeId).map LocationConfig.mode = some .secondary then
    ask (.secondaryDownload nodeId)
  else
    pure ()

def configureMode (mode : LocationConfigMode) : Step Unit := do
  let self <- get
  locationConfig nodeId (self.buildLocationConfig mode self.generation none)

def downgrade : Step Unit := do
  let self <- get
  locationConfig nodeId (self.buildLocationConfig .secondary none (some { warm := true }))

def liveMigrate (origin dest : NodeId) : Step Unit := do
  -- the origin is told the generation of the reconciler, not the one that it has
  configureMode origin .attachedStale
  ask (.getLsns origin)
  warmUp dest
  incrementGeneration dest
  configureMode dest .attachedMulti
  ask (.awaitLsn dest)
  computeNotifyBlocking origin
  downgrade origin
  configureMode dest .attachedSingle

def origins : List NodeId :=
  (self.observed.entries.map Prod.fst).filter (fun nodeId =>
    decide ((self.observedConf nodeId).map LocationConfig.mode = some .attachedSingle) &&
      decide (nodeId ∈ self.targets) && self.isAvailable nodeId)

def origin : Option NodeId :=
  if self.first ∈ self.origins then some self.first else self.origins.head?

/-- The node to migrate to: the intended one, unless it may be attached already. -/
def destination : Option NodeId :=
  self.attached.filter (fun nodeId =>
    match self.observed.get? nodeId with
    | none => true
    | some location => decide (location.conf.map LocationConfig.mode = some .secondary))

def maybeLiveMigrate : Step Unit := do
  let self <- get
  match self.destination, self.origin with
  | some dest, some origin => liveMigrate origin dest
  | _, _ => pure ()

/-!
## Reconciling
-/

/-- Looks up the location on a node of which nothing is known. -/
def refresh : Step Unit := do
  let found : Option (Option LocationConfig) <- ask (.getLocationConfig nodeId)
  match found with
  | some conf => modify (observe nodeId conf)
  | none => modify (unobserve nodeId)

def refreshUnknown : Step Unit := do
  let self <- get
  if self.observed.get? nodeId = some { conf := none } then refresh nodeId else pure ()

def maybeRefreshObserved : Step Bool := do
  let self <- get
  match self.attached with
  | none => pure false
  | some nodeId => do
    refreshUnknown nodeId
    pure true

def wantedConf (generation : Generation) : LocationConfig :=
  attachedLocationConf generation self.shard self.config self.placementPolicy self.secondary.length

/-- A location in the right mode and generation keeps its generation. -/
def keepsGeneration (wanted : LocationConfig) : Bool :=
  match self.observedConf nodeId with
  | none => false
  | some conf => decide (conf.generation = wanted.generation) && decide (conf.mode = wanted.mode)

/-- Attaches with the wanted configuration, in a new generation if need be. -/
def attach (wanted : LocationConfig) : Step Unit := do
  let self <- get
  if self.keepsGeneration nodeId wanted = true then
    locationConfig nodeId wanted
  else
    let generation : Generation <- ask (.incrementGeneration nodeId)
    modify (fun self => { self with generation := some generation })
    locationConfig nodeId { wanted with generation := some generation }

def reconcileAttached (refreshed : Bool) : Step Unit := do
  let self <- get
  match self.attached, self.generation with
  | none, _ => pure ()
  | some _, none => throw .other
  | some nodeId, some generation =>
    let wanted := self.wantedConf generation
    if self.observedConf nodeId = some wanted then
      if refreshed = true then computeNotify else pure ()
    else do
      attach nodeId wanted
      computeNotify

/-- The secondary locations that are not as they should be, on available nodes. -/
def secondaryChanges : List (NodeId × LocationConfig) :=
  let wanted := secondaryLocationConf self.shard self.config
  (self.secondary.filter (fun nodeId =>
    decide (self.observedConf nodeId ≠ some wanted) && self.isAvailable nodeId)).map
      (fun nodeId => (nodeId, wanted))

/-- Secondary locations on unavailable nodes that are not as they should be are forgotten. -/
def skipSecondaries : Reconciler :=
  let wanted := secondaryLocationConf self.shard self.config
  (self.secondary.filter (fun nodeId =>
    decide (self.observedConf nodeId ≠ some wanted) && !self.isAvailable nodeId)).foldl
      (fun self nodeId => self.observe nodeId none) self

def detachedConf : LocationConfig :=
  { mode := .detached
    generation := none
    secondaryConf := none
    shardNumber := self.shard.number
    shardCount := self.shard.count.literal
    shardStripeSize := self.shard.stripeSize
    tenantConf := self.config }

def detachChanges : List (NodeId × LocationConfig) :=
  self.detach.map (fun nodeId => (nodeId, self.detachedConf))

/-- Makes all changes even if some fail; the first error is the outcome. -/
def applyChanges : Option ReconcileError -> List (NodeId × LocationConfig) -> Step Unit
  | none, [] => pure ()
  | some e, [] => throw e
  | firstErr, (nodeId, conf) :: rest => do
    ask .checkCancelled
    let self <- get
    if self.isAvailable nodeId = true then
      let result <- Proc.attempt (locationConfig nodeId conf)
      match result with
      | .ok _ => applyChanges firstErr rest
      | .error e => applyChanges (firstErr.or (some e)) rest
    else
      modify (observe nodeId none)
      applyChanges firstErr rest

def reconcileOthers : Step Unit := do
  let self <- get
  modify skipSecondaries
  applyChanges none (self.secondaryChanges ++ self.detachChanges)

def reconcile : Step Unit := do
  let refreshed <- maybeRefreshObserved
  maybeLiveMigrate
  reconcileAttached refreshed
  reconcileOthers

/-- A notification that is still owed is sent if all went well. -/
def payNotification (mustNotify : Bool) (result : Except ReconcileError Unit) : Step Unit :=
  match mustNotify, result with
  | false, _ => pure ()
  | true, .ok _ => do
    let _ <- Proc.attempt computeNotify
    pure ()
  | true, .error _ => modify (fun self => { self with computeNotifyFailure := true })

def reconcileAndNotify (mustNotify : Bool) : Step (Except ReconcileError Unit) := do
  let result <- Proc.attempt reconcile
  payNotification mustNotify result
  pure result

/-!
## Results
-/

def observedDeltas : List ObservedStateDelta :=
  let upserts := self.observed.entries.filter (fun e =>
    match self.originalObserved.get? e.1 with
    | some previous => decide (e.2.conf ≠ previous.conf)
    | none => true)
  let deletes := (self.originalObserved.entries.map Prod.fst).filter (fun nodeId =>
    decide (self.observed.get? nodeId = none))
  upserts.map (fun e => .upsert e.1 e.2) ++ deletes.map .delete

def result (sequence : Sequence) (ok : Bool) (self : Reconciler) : ReconcileResult :=
  { sequence := sequence
    ok := ok
    generation := self.generation
    observedDeltas := self.observedDeltas
    pendingComputeNotification := self.computeNotifyFailure }

def isOk (outcome : Except ReconcileError (Except ReconcileError Unit)) : Bool :=
  match outcome with
  | .ok (.ok _) => true
  | _ => false

def task (sequence : Sequence) (mustNotify : Bool) (self : Reconciler) :
    Task Request (fun r => Except ReconcileError r.Payload) ReconcileResult :=
  (Proc.exec (reconcileAndNotify mustNotify) self).bind
    (fun x => .done (x.2.result sequence (isOk x.1)))

def ofShard (nodes : OrdMap NodeId Node) (detach : List NodeId) (first : NodeId)
    (shard : TenantShard) : Reconciler :=
  { shard := shard.shard
    placementPolicy := shard.policy
    generation := shard.generation
    attached := shard.intent.attached
    secondary := shard.intent.secondary
    detach := detach
    config := shard.config
    observed := shard.observed
    originalObserved := shard.observed
    computeNotifyFailure := false
    nodes := nodes
    first := first }

end Reconciler

end StorageController
end OpenNeon

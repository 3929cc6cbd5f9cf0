import OpenNeon.StorageController.Reconciler

/-!
# A shard and its reconcilers

The reconcilers of one shard run one after the other, but a reconciler may be spawned
while others are still to run and before their results are processed.  Around them are
the pageservers, which hold locations of the shard, and the database, which issues
generations.  A pageserver that restarts is given a new generation of the shard if the
last one was issued to it; the database and the memory are updated in two steps.
-/

namespace OpenNeon
namespace StorageController

open Base

namespace LocationConfigMode

def isAttached : LocationConfigMode -> Bool
  | attachedSingle => true
  | attachedMulti => true
  | attachedStale => true
  | secondary => false
  | detached => false

end LocationConfigMode

/-- How a request goes: the error that is reported if any, whether it takes effect though
an error is reported, whether a pageserver is changing the location just now, and whether
the compute could not be notified. -/
structure Fate where
  error : Option ReconcileError
  effect : Bool
  indeterminate : Bool
  notifyFailed : Bool

namespace Fate

def effective (fate : Fate) : Bool :=
  decide (fate.error = none) || fate.effect

def answer {alpha : Type} (fate : Fate) (a : alpha) : Except ReconcileError alpha :=
  match fate.error with
  | some e => .error e
  | none => .ok a

def notified (fate : Fate) : Notified :=
  { failed := fate.notifyFailed || fate.error.isSome, error := fate.error }

end Fate

/-- What is outside the controller's memory: the database's row of the shard, the
locations that the pageservers hold, and what was told to whom.  -/
structure Outside where
  generation : Option Generation
  generationPageserver : Option NodeId
  held : OrdMap NodeId LocationConfig
  -- the generations that were sent to pageservers, in attached modes or on a restart
  sent : List (NodeId × Generation)
  -- the generations that the database has issued
  issued : List (NodeId × Generation)

namespace Outside

section

variable (nodeId : NodeId)

/-- A new generation for a pageserver; none if the shard has no generation yet. -/
def increment (o : Outside) : Option Generation × Outside :=
  match o.generation with
  | none => (none, { o with generationPageserver := some nodeId })
  | some generation =>
    (some (generation + 1),
      { o with
        generation := some (generation + 1)
        generationPageserver := some nodeId
        issued := (nodeId, generation + 1) :: o.issued })

def incrementGeneration (fate : Fate) (o : Outside) : Except ReconcileError Generation × Outside :=
  if fate.effective then
    match o.increment nodeId with
    | (none, o') => (.error .other, o')
    | (some generation, o') => (fate.answer generation, o')
  else (fate.answer 0, o)

def hold (conf : LocationConfig) (o : Outside) : Outside :=
  { o with
    held := if conf.mode = .detached then o.held.erase nodeId else o.held.insert nodeId conf }

def send (conf : LocationConfig) (o : Outside) : Outside :=
  match conf.generation with
  | some generation =>
    if conf.mode.isAttached then { o with sent := (nodeId, generation) :: o.sent } else o
  | none => o

def locationConfig (conf : LocationConfig) (fate : Fate) (o : Outside) : Outside :=
  if fate.effective then (o.send nodeId conf).hold nodeId conf else o.send nodeId conf

def getLocationConfig (fate : Fate) (o : Outside) :
    Except ReconcileError (Option (Option LocationConfig)) :=
  fate.answer (if fate.indeterminate then some none else (o.held.get? nodeId).map some)

end

def reply (o : Outside) (fate : Fate) :
    (r : Request) -> Except ReconcileError r.Payload × Outside
  | .getLocationConfig nodeId => (o.getLocationConfig nodeId fate, o)
  | .locationConfig nodeId conf => (fate.answer (), o.locationConfig nodeId conf fate)
  | .incrementGeneration nodeId => o.incrementGeneration nodeId fate
  | .getLsns _ => (fate.answer (), o)
  | .secondaryDownload _ => (fate.answer (), o)
  | .awaitLsn _ => (fate.answer (), o)
  | .computeNotify _ => (.ok fate.notified, o)
  | .computeNotifyBlocking _ _ => (.ok fate.notified, o)
  | .checkCancelled => (fate.answer (), o)

end Outside

structure Spawned where
  sequence : Sequence
  mustNotify : Bool
  reconciler : Reconciler

abbrev ReconcilerTask :=
  Task Request (fun r => Except ReconcileError r.Payload) ReconcileResult

structure ShardSystem where
  nodes : OrdMap NodeId Node
  shard : TenantShard
  outside : Outside
  waiting : List Spawned
  running : Option ReconcilerTask
  results : List ReconcileResult
  -- restarts of pageservers between the database and the memory
  reattaching : List (NodeId × Option Generation)

namespace ShardSystem

inductive Event where
  | configure (intent : IntentState) (policy : PlacementPolicy) (config : TenantConfig)
  | setNodes (nodes : OrdMap NodeId Node)
  | spawn (detach : List NodeId) (first : NodeId)
  | start (cancelled : Bool)
  | reply (fate : Fate)
  | finish
  | processResult
  | reattach (nodeId : NodeId)
  | reattached (i : Nat) (delivered emptyDisk : Bool)

/-!
## Changes of the shard
-/

/-- An intent names no node twice. -/
def configure (intent : IntentState) (policy : PlacementPolicy) (config : TenantConfig)
    (s : ShardSystem) : Option ShardSystem :=
  if intent.allPageservers.Nodup then
    some
      { s with
        shard :=
          { s.shard with
            intent := intent
            policy := policy
            config := config
            sequence := s.shard.sequence + 1 } }
  else none

/-!
## Reconcilers
-/

/-- The nodes from which a reconciler that is spawned now detaches. -/
def extraneous (shard : TenantShard) : List NodeId :=
  (shard.observed.entries.map Prod.fst).filter
    (fun nodeId => decide (nodeId ∉ shard.intent.allPageservers))

/-- Spawns a reconciler if one is needed; it detaches in any order. -/
def spawn (detach : List NodeId) (first : NodeId) (s : ShardSystem) : Option ShardSystem :=
  match s.shard.getReconcileNeeded s.nodes, s.shard.spawnReconciler s.nodes with
  | .ok .yes, .ok shard =>
    if detach.isPerm (extraneous s.shard) then
      some
        { s with
          shard := shard
          waiting := s.waiting ++
            [{ sequence := shard.sequence
               mustNotify := s.shard.pendingComputeNotification
               reconciler := Reconciler.ofShard s.nodes detach first s.shard }] }
    else none
  | _, _ => none

/-- A reconciler starts when its predecessor has ended, unless it was cancelled before. -/
def start (cancelled : Bool) (s : ShardSystem) : Option ShardSystem :=
  match s.running, s.waiting with
  | none, spawned :: rest =>
    if cancelled then some { s with waiting := rest }
    else
      some
        { s with
          waiting := rest
          running := some (spawned.reconciler.task spawned.sequence spawned.mustNotify) }
  | _, _ => none

def replyTo (fate : Fate) (s : ShardSystem) : Option ShardSystem :=
  match s.running with
  | some (.call r k) =>
    some
      { s with
        outside := (s.outside.reply fate r).2
        running := some (k (s.outside.reply fate r).1) }
  | _ => none

def finish (s : ShardSystem) : Option ShardSystem :=
  match s.running with
  | some (.done result) => some { s with running := none, results := s.results ++ [result] }
  | _ => none

def processResult (s : ShardSystem) : Option ShardSystem :=
  match s.results with
  | result :: rest =>
    some { s with shard := Service.applyResult s.nodes result s.shard, results := rest }
  | [] => none

/-!
## Restarts of pageservers
-/

/-- The database's part of a restart.  It fails if there is no generation to increment. -/
def reattach (nodeId : NodeId) (s : ShardSystem) : ShardSystem :=
  if s.outside.generationPageserver = some nodeId then
    match s.outside.increment nodeId with
    | (none, _) => s
    | (some generation, outside) =>
      { s with
        outside := outside
        reattaching := s.reattaching ++ [(nodeId, some generation)] }
  else { s with reattaching := s.reattaching ++ [(nodeId, none)] }

/-- The observed location of a pageserver that was given a new generation. -/
def stampObserved (nodeId : NodeId) (generation : Generation) (observed : ObservedState) :
    ObservedState :=
  match observed.get? nodeId with
  | none => observed.insert nodeId { conf := none }
  | some location =>
    observed.insert nodeId
      { conf := location.conf.map (fun conf => { conf with generation := some generation }) }

/-- What a pageserver holds after it was told on a restart in which generation it is attached. -/
def restartHeld (nodeId : NodeId) (generation : Option Generation)
    (held : OrdMap NodeId LocationConfig) : OrdMap NodeId LocationConfig :=
  match held.get? nodeId, generation with
  | none, _ => held
  | some conf, some generation =>
    held.insert nodeId { conf with mode := .attachedSingle, generation := some generation }
  | some conf, none => if conf.mode.isAttached then held.erase nodeId else held

/-- The memory's part of a restart, and the response; a lost disk holds nothing. -/
def reattached (i : Nat) (delivered emptyDisk : Bool) (s : ShardSystem) : Option ShardSystem :=
  match s.reattaching[i]? with
  | none => none
  | some (nodeId, generation) =>
    let observed := if emptyDisk then s.shard.observed.erase nodeId else s.shard.observed
    let held := if emptyDisk then s.outside.held.erase nodeId else s.outside.held
    let held := if delivered then restartHeld nodeId generation held else held
    let s := { s with reattaching := s.reattaching.eraseIdx i }
    match generation with
    | none =>
      some
        { s with
          shard := { s.shard with observed := observed }
          outside := { s.outside with held := held } }
    | some generation =>
      some
        { s with
          shard :=
            { s.shard with
              generation := max s.shard.generation (some generation)
              observed := stampObserved nodeId generation observed }
          outside :=
            { s.outside with
              held := held
              sent := (nodeId, generation) :: s.outside.sent } }

def next (s : ShardSystem) : Event -> Option ShardSystem
  | .configure intent policy config => s.configure intent policy config
  | .setNodes nodes => some { s with nodes := nodes }
  | .spawn detach first => s.spawn detach first
  | .start cancelled => s.start cancelled
  | .reply fate => s.replyTo fate
  | .finish => s.finish
  | .processResult => s.processResult
  | .reattach nodeId => some (s.reattach nodeId)
  | .reattached i delivered emptyDisk => s.reattached i delivered emptyDisk

end ShardSystem

end StorageController
end OpenNeon

import Mathlib.Tactic.Ring
import Mathlib.Data.List.Nodup
import Mathlib.Data.List.Sort
import Mathlib.Data.Finset.Card
import Mathlib.Logic.Function.Basic

/-!
# Notifying computes of attached pageservers

The hook collects the locations of a tenant's shards and sends them to the control
plane once all are known.  Only the holder of the tenant's send lock sends; the lock
remembers the last request that was acknowledged.  The lock belongs to the collected
state and is a new one when that state is reset because the number of shards or the
stripe size changed.

The steps of a call are the regions between its locks and its requests; a call returns
with its last region.
-/

namespace OpenNeon
namespace StorageController

abbrev NodeId := Nat

abbrev ShardNumber := Nat

/-- The number of shards as it is written in names: zero stands for one. -/
structure ShardCount where
  literal : Nat
  deriving DecidableEq

namespace ShardCount

def count (c : ShardCount) : Nat :=
  if 0 < c.literal then c.literal else 1

theorem count_pos (c : ShardCount) : 0 < c.count := by
  unfold count
  split
  next hliteral => exact hliteral
  · exact Nat.one_pos

end ShardCount

structure ShardUpdate where
  shardNumber : ShardNumber
  shardCount : ShardCount
  nodeId : NodeId
  stripeSize : Nat
  preferredAz : Option String

abbrev LockId := Nat

structure UnshardedComputeHookTenant where
  nodeId : NodeId
  preferredAz : Option String
  sendLock : LockId

structure ShardedComputeHookTenant where
  stripeSize : Nat
  shardCount : ShardCount
  shards : List (ShardNumber × NodeId)
  preferredAz : Option String
  sendLock : LockId

inductive ComputeHookTenant where
  | unsharded (t : UnshardedComputeHookTenant)
  | sharded (t : ShardedComputeHookTenant)

structure NotifyAttachRequestShard where
  nodeId : NodeId
  shardNumber : ShardNumber
  deriving DecidableEq

structure NotifyAttachRequest where
  preferredAz : Option String
  stripeSize : Option Nat
  shards : List NotifyAttachRequestShard
  deriving DecidableEq

/-- The last request that was acknowledged, and whether it was applied in full. -/
structure ComputeRemoteState where
  request : NotifyAttachRequest
  applied : Bool

/-!
## The collected state
-/

/-- The first entry of the shard gets the node; there is none if the shard is new. -/
def replaceShard (number : ShardNumber) (node : NodeId) :
    List (ShardNumber × NodeId) -> Option (List (ShardNumber × NodeId))
  | [] => none
  | s :: rest =>
    if s.1 = number then some ((s.1, node) :: rest)
    else (replaceShard number node rest).map (fun rest => s :: rest)

def setShard (shards : List (ShardNumber × NodeId)) (number : ShardNumber) (node : NodeId) :
    List (ShardNumber × NodeId) :=
  (replaceShard number node shards).getD
    ((shards ++ [(number, node)]).insertionSort (fun a b => a.1 ≤ b.1))

namespace ComputeHookTenant

def new (u : ShardUpdate) (lock : LockId) : ComputeHookTenant :=
  if 1 < u.shardCount.count then
    .sharded
      { stripeSize := u.stripeSize
        shardCount := u.shardCount
        shards := [(u.shardNumber, u.nodeId)]
        preferredAz := u.preferredAz
        sendLock := lock }
  else
    .unsharded { nodeId := u.nodeId, preferredAz := u.preferredAz, sendLock := lock }

def getSendLock : ComputeHookTenant -> LockId
  | .unsharded t => t.sendLock
  | .sharded t => t.sendLock

def count : ComputeHookTenant -> Nat
  | .unsharded _ => 1
  | .sharded t => t.shardCount.count

theorem count_pos (t : ComputeHookTenant) : 0 < t.count := by
  cases t with
  | unsharded _ => exact Nat.one_pos
  | sharded s => exact s.shardCount.count_pos

/-- The update belongs to the collected state; otherwise it resets the state. -/
def accepts : ComputeHookTenant -> ShardUpdate -> Bool
  | .unsharded _, u => decide (u.shardCount.count = 1)
  | .sharded t, u => decide (t.stripeSize = u.stripeSize) && decide (t.shardCount = u.shardCount)

/-- Enters the location of one shard; the lock is for a state that starts anew. -/
def update (t : ComputeHookTenant) (u : ShardUpdate) (lock : LockId) : ComputeHookTenant :=
  match t with
  | .unsharded s =>
    if u.shardCount.count = 1 then
      .unsharded { s with nodeId := u.nodeId, preferredAz := u.preferredAz }
    else
      new u lock
  | .sharded s =>
    if s.stripeSize = u.stripeSize ∧ s.shardCount = u.shardCount then
      .sharded
        { s with
          shards := setShard s.shards u.shardNumber u.nodeId
          preferredAz := u.preferredAz }
    else
      new u lock

/-- The request that the collected state asks for, if it knows all shards. -/
def request : ComputeHookTenant -> Option NotifyAttachRequest
  | .unsharded t =>
    some
      { preferredAz := t.preferredAz
        stripeSize := none
        shards := [{ nodeId := t.nodeId, shardNumber := 0 }] }
  | .sharded t =>
    if t.shards.length = t.shardCount.count then
      some
        { preferredAz := t.preferredAz
          stripeSize := some t.stripeSize
          shards := t.shards.map (fun s => { nodeId := s.2, shardNumber := s.1 }) }
    else
      none

/-- What the holder of the send lock has to transmit, if anything. -/
def maybeSend (t : ComputeHookTenant) (remote : Option ComputeRemoteState) :
    Option NotifyAttachRequest :=
  match t.request with
  | none => none
  | some request =>
    if remote.map ComputeRemoteState.request = some request ∧
        (remote.map ComputeRemoteState.applied).getD false = true then
      none
    else
      some request

def Locates (t : ComputeHookTenant) (number : ShardNumber) : Prop :=
  match t with
  | .unsharded _ => number = 0
  | .sharded s => exists node, (number, node) ∈ s.shards

end ComputeHookTenant

/-!
## Calls
-/

inductive NotifyError where
  | request
  | busy
  | slowDown
  | unavailable (status : Nat)
  | unexpected (status : Nat)
  | shuttingDown
  | fatal (status : Nat)

namespace NotifyError

def isPermanent : NotifyError -> Bool
  | .fatal _ => true
  | .unexpected _ => true
  | .busy => true
  | _ => false

end NotifyError

def MAX_RETRIES : Nat := 10

/-- What the lock remembers after a call that ended with the result. -/
def remoteAfter (request : NotifyAttachRequest) :
    Except NotifyError Unit -> Option ComputeRemoteState
  | .ok () => some { request := request, applied := true }
  | .error .busy => some { request := request, applied := false }
  | .error _ => none

abbrev CallId := Nat

/-- One attempt to send: not under way, or under way and perhaps already applied. -/
inductive Attempt where
  | idle
  | sent (landed : Bool)

inductive CallPhase where
  | waiting (lock : LockId)
  | locked (lock : LockId)
  | transmitting (request : NotifyAttachRequest) (lock : LockId) (attempts : Nat)
      (attempt : Attempt)

structure SendLock where
  remote : Option ComputeRemoteState
  holder : Option CallId

/-- The hook for one tenant, its calls, the last request applied, and the updates, newest first. -/
structure ComputeHook where
  tenant : Option ComputeHookTenant
  locks : LockId -> SendLock
  nextLock : LockId
  calls : CallId -> Option CallPhase
  returned : Option (Except NotifyError Unit)
  applied : Option NotifyAttachRequest
  updates : List ShardUpdate

namespace ComputeHook

def initial (applied : Option NotifyAttachRequest) : ComputeHook :=
  { tenant := none
    locks := fun _ => { remote := none, holder := none }
    nextLock := 0
    calls := fun _ => none
    returned := none
    applied := applied
    updates := [] }

section

variable (s : ComputeHook)

def setCall (id : CallId) (phase : Option CallPhase) : ComputeHook :=
  { s with calls := Function.update s.calls id phase }

def setLock (lock : LockId) (value : SendLock) : ComputeHook :=
  { s with locks := Function.update s.locks lock value }

def finish (id : CallId) (lock : LockId)
    (remote : Option ComputeRemoteState) (result : Except NotifyError Unit) : ComputeHook :=
  { (s.setCall id none).setLock lock { remote := remote, holder := none } with
    returned := some result }

/-- Goes on with the lock held: the call transmits, or there is nothing to send. -/
def proceed (id : CallId) (lock : LockId) : ComputeHook :=
  let remote := (s.locks lock).remote
  match s.tenant with
  | none => s.finish id lock remote (.ok ())
  | some tenant =>
    match tenant.maybeSend remote with
    | none => s.finish id lock remote (.ok ())
    | some request =>
      (s.setCall id (some (.transmitting request lock 0 .idle))).setLock lock
        { remote := remote, holder := some id }

/-- Enters an update; the lock of a state that starts anew is free and empty. -/
def enter (u : ShardUpdate) : ComputeHook × ComputeHookTenant :=
  let tenant :=
    match s.tenant with
    | none => ComputeHookTenant.new u s.nextLock
    | some tenant => tenant.update u s.nextLock
  ({ s with
      tenant := some tenant
      locks := Function.update s.locks s.nextLock { remote := none, holder := none }
      nextLock := s.nextLock + 1
      updates := u :: s.updates },
    tenant)

def notifyAttachPrepare (id : CallId) (u : ShardUpdate) : ComputeHook :=
  let (s, tenant) := s.enter u
  let lock := tenant.getSendLock
  match (s.locks lock).holder with
  | some _ => s.setCall id (some (.waiting lock))
  | none => s.proceed id lock

end

inductive Reply where
  | success
  | error (e : NotifyError)

/-- The answer to an attempt ends the call or leads to the next attempt. -/
def onReply (s : ComputeHook) (id : CallId) (request : NotifyAttachRequest) (lock : LockId)
    (attempts : Nat) (landed : Bool) : Reply -> Option ComputeHook
  | .success =>
    -- the control plane reports success only for a request that it applied
    if landed then some (s.finish id lock (remoteAfter request (.ok ())) (.ok ())) else none
  | .error e =>
    if e.isPermanent = true ∨ MAX_RETRIES ≤ attempts then
      some (s.finish id lock (remoteAfter request (.error e)) (.error e))
    else
      some (s.setCall id (some (.transmitting request lock (attempts + 1) .idle)))

inductive Event where
  | notify (id : CallId) (u : ShardUpdate)
  | acquire (id : CallId)
  | resume (id : CallId)
  | send (id : CallId)
  | land (id : CallId)
  | reply (id : CallId) (reply : Reply)
  | cancel (id : CallId)

def next (s : ComputeHook) : Event -> Option ComputeHook
  | .notify id u =>
    match s.calls id with
    | none => some (s.notifyAttachPrepare id u)
    | some _ => none
  | .acquire id =>
    match s.calls id with
    | some (.waiting lock) =>
      match (s.locks lock).holder with
      | none =>
        some ((s.setCall id (some (.locked lock))).setLock lock
          { remote := (s.locks lock).remote, holder := some id })
      | some _ => none
    | _ => none
  | .resume id =>
    match s.calls id with
    | some (.locked lock) => some (s.proceed id lock)
    | _ => none
  | .send id =>
    match s.calls id with
    | some (.transmitting request lock attempts .idle) =>
      some (s.setCall id (some (.transmitting request lock attempts (.sent false))))
    | _ => none
  | .land id =>
    match s.calls id with
    | some (.transmitting request lock attempts (.sent false)) =>
      some { s.setCall id (some (.transmitting request lock attempts (.sent true))) with
        applied := some request }
    | _ => none
  | .reply id reply =>
    match s.calls id with
    | some (.transmitting request lock attempts (.sent landed)) =>
      s.onReply id request lock attempts landed reply
    | _ => none
  | .cancel id =>
    match s.calls id with
    | some (.waiting _) =>
      some { s.setCall id none with returned := some (.error .shuttingDown) }
    | some (.transmitting request lock _ .idle) =>
      some (s.finish id lock (remoteAfter request (.error .shuttingDown)) (.error .shuttingDown))
    | _ => none

def Quiet (s : ComputeHook) : Prop :=
  forall id, s.calls id = none

/-- Updates name a shard that exists, and no call is cancelled while it waits. -/
def Proper (s : ComputeHook) : Event -> Prop
  | .notify _ u => u.shardNumber < u.shardCount.count
  | .cancel id => forall lock, s.calls id ≠ some (.waiting lock)
  | _ => True

/-- The collected state starts anew only while no call is in flight. -/
def ResetsQuietly (s : ComputeHook) : Event -> Prop
  | .notify _ u => forall tenant, s.tenant = some tenant -> tenant.accepts u = false -> s.Quiet
  | _ => True

end ComputeHook

/-!
## What a request has to list
-/

def latestNode (updates : List ShardUpdate) (count : Nat) (number : ShardNumber) : Option NodeId :=
  (updates.find? (fun u =>
    decide (u.shardCount.count = count) && decide (u.shardNumber = number))).map
    ShardUpdate.nodeId

namespace NotifyAttachRequest

def entries (r : NotifyAttachRequest) (number : ShardNumber) : List NotifyAttachRequestShard :=
  r.shards.filter (fun s => decide (s.shardNumber = number))

/-- Exactly the shards are listed, each once, with the node of its latest update. -/
structure ListsLatest (r : NotifyAttachRequest) (updates : List ShardUpdate) (count : Nat) :
    Prop where
  each : forall number, number < count -> exists node,
    latestNode updates count number = some node ∧
      r.entries number = [{ nodeId := node, shardNumber := number }]
  others : forall s, s ∈ r.shards -> s.shardNumber < count

/-- The request lists every shard of one shard count, from updates of that count. -/
def OfOneCount (r : NotifyAttachRequest) (updates : List ShardUpdate) : Prop :=
  exists count, 0 < count ∧ (forall number, number < count -> (r.entries number).length = 1) ∧
    forall s, s ∈ r.shards -> s.shardNumber < count ∧
      exists u, u ∈ updates ∧ u.shardCount.count = count ∧ u.shardNumber = s.shardNumber ∧
        u.nodeId = s.nodeId

end NotifyAttachRequest

end StorageController
end OpenNeon

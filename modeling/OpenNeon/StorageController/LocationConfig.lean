import OpenNeon.Base.OrdMap
import OpenNeon.StorageController.ComputeHook

/-!
# Configurations of a shard on pageservers

What the controller asks a pageserver to hold of a tenant shard, and what it believes a
pageserver holds.  The belief is kept as one entry for each pageserver: no entry means
that the pageserver has nothing of the shard, an entry without a configuration means
that it may have something.
-/

namespace OpenNeon
namespace StorageController

open Base

abbrev Generation := Nat

inductive LocationConfigMode where
  | attachedSingle
  | attachedMulti
  | attachedStale
  | secondary
  | detached
  deriving DecidableEq

structure LocationConfigSecondary where
  warm : Bool
  deriving DecidableEq

/-- The settings of a tenant; only the heatmap period is looked at here. -/
structure TenantConfig where
  heatmapPeriod : Option Nat
  settings : Nat
  deriving DecidableEq

structure ShardIdentity where
  number : ShardNumber
  count : ShardCount
  stripeSize : Nat

structure LocationConfig where
  mode : LocationConfigMode
  generation : Option Generation
  secondaryConf : Option LocationConfigSecondary
  shardNumber : ShardNumber
  shardCount : Nat
  shardStripeSize : Nat
  tenantConf : TenantConfig
  deriving DecidableEq

/-- How many locations a tenant wants of each shard. -/
inductive PlacementPolicy where
  | attached (secondaries : Nat)
  | secondary
  | detached
  deriving DecidableEq

namespace PlacementPolicy

def wantSecondaries : PlacementPolicy -> Nat
  | attached secondaries => secondaries
  | secondary => 1
  | detached => 0

end PlacementPolicy

def defaultHeatmapPeriod : Nat := 60

/-- Heatmaps are uploaded while there are secondary locations that use them. -/
def haAwareConfig (config : TenantConfig) (hasSecondaries : Bool) : TenantConfig :=
  if hasSecondaries then
    { config with heatmapPeriod := some (config.heatmapPeriod.getD defaultHeatmapPeriod) }
  else
    { config with heatmapPeriod := none }

def attachedLocationConf (generation : Generation) (shard : ShardIdentity)
    (config : TenantConfig) (policy : PlacementPolicy) (secondaryCount : Nat) :
    LocationConfig :=
  let hasSecondaries :=
    match policy with
    | .detached => false
    | .secondary => false
    | .attached 0 => decide (0 < secondaryCount)
    | .attached _ => true
  { mode := .attachedSingle
    generation := some generation
    secondaryConf := none
    shardNumber := shard.number
    shardCount := shard.count.literal
    shardStripeSize := shard.stripeSize
    tenantConf := haAwareConfig config hasSecondaries }

def secondaryLocationConf (shard : ShardIdentity) (config : TenantConfig) : LocationConfig :=
  { mode := .secondary
    generation := none
    secondaryConf := some { warm := true }
    shardNumber := shard.number
    shardCount := shard.count.literal
    shardStripeSize := shard.stripeSize
    tenantConf := haAwareConfig config true }

/-!
## Observed locations
-/

structure ObservedStateLocation where
  conf : Option LocationConfig
  deriving DecidableEq

abbrev ObservedState := OrdMap NodeId ObservedStateLocation

/-- A change of the observed state that a reconciler reports. -/
inductive ObservedStateDelta where
  | upsert (nodeId : NodeId) (location : ObservedStateLocation)
  | delete (nodeId : NodeId)

namespace ObservedStateDelta

def nodeId : ObservedStateDelta -> NodeId
  | upsert nodeId _ => nodeId
  | delete nodeId => nodeId

end ObservedStateDelta

namespace ObservedState

variable (observed : ObservedState)

/-- The generation in the configuration that is believed to be on a node. -/
def generation (nodeId : NodeId) : Option Generation :=
  (observed.get? nodeId).bind (fun location => location.conf.bind (fun conf => conf.generation))

def applyObservedDelta : ObservedStateDelta -> ObservedState
  | .upsert nodeId location =>
    match observed.generation nodeId, location.conf.bind (fun conf => conf.generation) with
    | some current, some new =>
      -- A report that lags behind what is known leaves nothing certain.
      if new < current then observed.insert nodeId { conf := none }
      else observed.insert nodeId location
    | _, _ => observed.insert nodeId location
  | .delete nodeId => observed.erase nodeId

def applyObservedDeltas (deltas : List ObservedStateDelta) :
    ObservedState :=
  deltas.foldl applyObservedDelta observed

end ObservedState

end StorageController
end OpenNeon

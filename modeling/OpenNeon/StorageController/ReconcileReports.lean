import OpenNeon.StorageController.Service

/-!
# What the result of a reconciler changes

A result that comes in leaves the intent of the shard alone.  Nothing is taken over of what
it says of nodes that are no longer in the map.  A location is unknown if its node is not
available, or if a reconciler that has failed reports it as detached.
-/

namespace OpenNeon
namespace StorageController

open Base List OrdMap

/-!
## The observed state after a report
-/

namespace ObservedStateDelta

def location : ObservedStateDelta -> Option ObservedStateLocation
  | upsert _ location => some location
  | delete _ => none

end ObservedStateDelta

section

variable {nodes : OrdMap NodeId Node} {delta : ObservedStateDelta}

theorem get?_applyObservedDelta (observed : ObservedState) (delta : ObservedStateDelta) :
    exists known, (known = delta.location ∨ known = some { conf := none }) ∧
      forall nodeId, (observed.applyObservedDelta delta).get? nodeId =
        if nodeId = delta.nodeId then known else observed.get? nodeId := by
  cases delta with
  | upsert m location =>
    dsimp only [ObservedState.applyObservedDelta]
    split
    · split
      · exact ⟨_, .inr rfl, fun nodeId => get?_insert ..⟩
      · exact ⟨_, .inl rfl, fun nodeId => get?_insert ..⟩
    · exact ⟨_, .inl rfl, fun nodeId => get?_insert ..⟩
  | delete m => exact ⟨_, .inl rfl, fun nodeId => get?_erase ..⟩

theorem get?_applyObservedDeltas (observed : ObservedState) (deltas : List ObservedStateDelta)
    (nodeId : NodeId) :
    (forall delta, delta ∈ deltas -> delta.nodeId ≠ nodeId) ∧
        (observed.applyObservedDeltas deltas).get? nodeId = observed.get? nodeId ∨
      exists delta, delta ∈ deltas ∧ delta.nodeId = nodeId ∧
        ((observed.applyObservedDeltas deltas).get? nodeId = delta.location ∨
          (observed.applyObservedDeltas deltas).get? nodeId = some { conf := none }) := by
  induction deltas generalizing observed with
  | nil => exact .inl ⟨forall_mem_nil _, rfl⟩
  | cons delta rest ih =>
    rcases get?_applyObservedDelta observed delta with ⟨known, hknown, hget⟩
    rcases ih (observed.applyObservedDelta delta) with ⟨hother, hsame⟩ | ⟨d, hmem, hd⟩
    · have hafter := hsame.trans (hget nodeId)
      by_cases hnode : nodeId = delta.nodeId
      · rw [if_pos hnode] at hafter
        exact .inr ⟨delta, mem_cons_self, hnode.symm, hknown.imp hafter.trans hafter.trans⟩
      · rw [if_neg hnode] at hafter
        exact .inl ⟨forall_mem_cons.mpr ⟨Ne.symm hnode, hother⟩, hafter⟩
    · exact .inr ⟨d, mem_cons_of_mem _ hmem, hd⟩

def reportObserved (nodes : OrdMap NodeId Node) (result : ReconcileResult)
    (observed : ObservedState) : ObservedState :=
  let deltas := result.observedDeltas.filterMap (Service.filterDelta nodes)
  observed.applyObservedDeltas (if result.ok then deltas else deltas.map Service.failedDelta)

theorem reported_cases {filtered : ObservedStateDelta} (ok : Bool)
    (h : Service.filterDelta nodes delta = some filtered) :
    nodes.get? delta.nodeId ≠ none ∧
      (if ok then filtered else Service.failedDelta filtered).nodeId = delta.nodeId ∧
      ((if ok then filtered else Service.failedDelta filtered).location = delta.location ∨
        (if ok then filtered else Service.failedDelta filtered).location =
          some { conf := none }) := by
  rcases Option.map_eq_some_iff.mp h with ⟨node, hnode, rfl⟩
  refine ⟨by simp [hnode], ?_⟩
  cases delta <;> split_ifs <;> first | exact ⟨rfl, .inl rfl⟩ | exact ⟨rfl, .inr rfl⟩

theorem get?_reportObserved (nodes : OrdMap NodeId Node) (result : ReconcileResult)
    (observed : ObservedState) (nodeId : NodeId) :
    (nodes.get? nodeId = none ∨
          forall delta, delta ∈ result.observedDeltas -> delta.nodeId ≠ nodeId) ∧
        (reportObserved nodes result observed).get? nodeId = observed.get? nodeId ∨
      nodes.get? nodeId ≠ none ∧ exists delta, delta ∈ result.observedDeltas ∧
        delta.nodeId = nodeId ∧
        ((reportObserved nodes result observed).get? nodeId = delta.location ∨
          (reportObserved nodes result observed).get? nodeId = some { conf := none }) := by
  let deltas := result.observedDeltas.filterMap (Service.filterDelta nodes)
  have hreported : forall d,
      d ∈ (if result.ok then deltas else deltas.map Service.failedDelta) <->
        exists filtered, filtered ∈ deltas ∧
          (if result.ok then filtered else Service.failedDelta filtered) = d := by
    intro d
    split <;> simp
  rcases get?_applyObservedDeltas observed _ nodeId with ⟨hother, hsame⟩ | ⟨d, hmem, hd, hget⟩
  · refine .inl ⟨or_iff_not_imp_left.mpr (fun hnode delta hmem hdelta => ?_), hsame⟩
    cases hfilter : Service.filterDelta nodes delta with
    | none => exact hnode (hdelta ▸ Option.map_eq_none_iff.mp hfilter)
    | some filtered =>
      have hfiltered := mem_filterMap.mpr ⟨delta, hmem, hfilter⟩
      exact hother _ ((hreported _).mpr ⟨filtered, hfiltered, rfl⟩)
        ((reported_cases _ hfilter).2.1.trans hdelta)
  · rcases (hreported d).mp hmem with ⟨filtered, hfiltered, rfl⟩
    rcases mem_filterMap.mp hfiltered with ⟨delta, hdelta, hfilter⟩
    rcases reported_cases result.ok hfilter with ⟨hnode, hsame, hlocation⟩
    have heq := hsame.symm.trans hd
    refine .inr ⟨heq ▸ hnode, delta, hdelta, heq, ?_⟩
    rcases hget with hget | hget
    · exact hlocation.imp hget.trans hget.trans
    · exact .inr hget

end

namespace Service

theorem reconcileComplete_references (shard : TenantShard) (sequence : Sequence) :
    (reconcileComplete shard sequence).intent = shard.intent ∧
      (reconcileComplete shard sequence).observed = shard.observed ∧
      (reconcileComplete shard sequence).generation = shard.generation := by
  unfold reconcileComplete
  split
  · split <;> exact ⟨rfl, rfl, rfl⟩
  · exact ⟨rfl, rfl, rfl⟩

theorem applyResult_references (nodes : OrdMap NodeId Node) (result : ReconcileResult)
    (shard : TenantShard) :
    (applyResult nodes result shard).intent = shard.intent ∧
      (applyResult nodes result shard).observed = reportObserved nodes result shard.observed ∧
      (applyResult nodes result shard).generation = max shard.generation result.generation := by
  have hsame := fun shard => reconcileComplete_references shard result.sequence
  dsimp only [applyResult, reportObserved]
  split
  · rw [(hsame _).2.1]
    exact ⟨(hsame _).1, rfl, (hsame _).2.2⟩
  · rw [(hsame _).2.1]
    exact ⟨(hsame _).1, rfl, (hsame _).2.2⟩

end Service

end StorageController
end OpenNeon

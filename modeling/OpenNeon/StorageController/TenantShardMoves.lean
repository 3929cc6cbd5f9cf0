import OpenNeon.Base.Run
import OpenNeon.StorageController.Service
import OpenNeon.StorageController.TenantShardPolicy

/-!
# What the operations on a shard do

The operations on a shard leave the scheduler's nodes as they are, apart from the counts,
and keep these in step with the intent.
Promoting a secondary location is the one operation that is right only in some states, and
it is used only in these: nothing is attached, and the location is a secondary one.
-/

namespace OpenNeon
namespace StorageController

open Base IntentState List
open Prog (Maintains wp wp_bind wp_mono wp_then wp_imp)
open Prog.Maintains (get_bind)

section

variable {state alpha : Type} (Inv : state -> Prop) (m : Prog state Fault alpha)

/-- A program that keeps an invariant, also when it fails with an error of scheduling. -/
abbrev Stays : Prop :=
  Maintains Inv (Ends True Inv) m

end

namespace TenantShard

variable {alpha : Type} {start p : Placing} {nodeId : NodeId}

/-- The counts have followed the intent, whatever nodes it names. -/
abbrev InStep (start p : Placing) : Prop :=
  Moved (fun _ => True) start p

/-- The shard is left as it should be, and counts go below zero only if they were wrong. -/
abbrev Moves (start : Placing) (m : Prog Placing Fault alpha) : Prop :=
  Maintains (InStep start) (Ends (Unbalanced start) (InStep start)) m

theorem InStep.became {j : IntentState} {q : Placing} (hp : InStep start p) (h : Became p j q) :
    InStep start q :=
  Moved.became hp h (fun _ _ => .inr trivial)

/-!
## Operations on the intent
-/

theorem moves_turn {m : Prog Placement Fault alpha} {f : IntentState -> IntentState}
    (h : forall p : Placing, (Unbalanced p -> Unbalanced start) ->
      wp m (fun _ => Turned p.placement (f p.shard.intent))
        (fun e _ => forall q, Ends (Unbalanced start) (InStep start) e q) p.placement) :
    Moves start (onIntent m) :=
  fun p hp => wp_imp (wp_turn (h p hp.unbalanced)) (fun _ _ hq => hp.became hq)

theorem moves_setAttached (nodeId : NodeId) :
    Moves start (onIntent (setAttached (some nodeId))) :=
  moves_turn (f := fun i => { i with attached := some nodeId })
    (fun _ hun => wp_setAttached (fun _ _ => trivial) (fun _ hnot _ => hun hnot))

theorem moves_pushSecondary (nodeId : NodeId) : Moves start (onIntent (pushSecondary nodeId)) :=
  moves_turn (f := fun i => { i with secondary := i.secondary ++ [nodeId] })
    (fun _ _ => wp_pushSecondary (fun _ _ => trivial))

theorem moves_removeSecondary (nodeId : NodeId) :
    Moves start (onIntent (removeSecondary nodeId)) :=
  moves_turn (f := fun i => { i with secondary := i.secondary.erase nodeId })
    (fun _ hun => wp_removeSecondary (fun hnot _ => hun hnot) nodeId)

theorem moves_popSecondary : Moves start (onIntent popSecondary) :=
  moves_turn (f := fun i => { i with secondary := i.secondary.dropLast })
    (fun _ hun => wp_popSecondary (fun hnot _ => hun hnot))

theorem moves_clear : Moves start (onIntent clear) :=
  moves_turn (f := fun i => { i with attached := none, secondary := [] })
    (fun _ hun => wp_clear (fun hnot _ => hun hnot))

theorem moves_setPreferredAz (az : Option AvailabilityZone) :
    Moves start (onIntent (setPreferredAz az)) :=
  moves_turn (f := fun i => { i with preferredAzId := az })
    (fun _ hun => wp_setPreferredAz (fun hnot _ => hun hnot))

theorem moves_demoteAttached (nodeId : NodeId) :
    Moves start (onIntent (demoteAttached nodeId)) :=
  fun _ hp => wp_imp (wp_demote (fun hnot _ => hp.unbalanced hnot) nodeId)
    (fun _ _ hq => hp.became hq.2)

theorem moves_promoteAttached (hp : InStep start p) (hfree : p.shard.intent.attached = none)
    (hmem : nodeId ∈ p.shard.intent.secondary) :
    wp (onIntent (promoteAttached nodeId)) (fun _ => InStep start)
      (Ends (Unbalanced start) (InStep start)) p :=
  wp_imp (wp_turn (wp_promoteAttached hfree hmem)) (fun _ _ hq => hp.became hq)

theorem moves_swap {oldAttached promoteTo : NodeId} (hp : InStep start p)
    (hattached : p.shard.intent.attached = some oldAttached)
    (hmem : promoteTo ∈ p.shard.intent.secondary) :
    wp (onIntent (demoteAttached oldAttached)) (fun demoted q => demoted = true ∧
        wp (onIntent (promoteAttached promoteTo)) (fun _ => InStep start)
          (Ends (Unbalanced start) (InStep start)) q)
      (Ends (Unbalanced start) (InStep start)) p := by
  refine wp_imp (wp_demote (fun hnot _ => hp.unbalanced hnot) oldAttached) ?_
  rintro demoted q ⟨hdemoted, hq⟩
  have hmoved := hp.became hq
  have hintent := hq.intent
  rw [IntentState.demoted, if_pos hattached] at hintent
  refine ⟨hdemoted.trans (decide_eq_true hattached), moves_promoteAttached hmoved ?_ ?_⟩
  · rw [hintent]
  · rw [hintent]
    exact mem_append_left _ hmem

theorem moves_modifyShard {f : TenantShard -> TenantShard}
    (hintent : forall shard, (f shard).intent = shard.intent) :
    Moves start (modifyShard f) :=
  Maintains.modify (fun p hp => hp.withShard (hintent p.shard))

theorem moves_nextSequence : Moves start (modifyShard nextSequence) :=
  moves_modifyShard (fun _ => rfl)

/-!
## Operations on the shard
-/

theorem moves_schedule : Moves start schedule := by
  intro p hp
  refine wp_mono wp_schedule (fun _ _ hq => hp.trans hq.2 (fun _ _ => trivial)) ?_
  intro e q hend
  cases e with
  | underflow => exact hp.unbalanced hend
  | schedule e => exact hp.trans hend.2 (fun _ _ => trivial)
  | _ => trivial

theorem moves_rescheduleToSecondary (promoteTo : Option NodeId) :
    Moves start (rescheduleToSecondary promoteTo) := by
  unfold rescheduleToSecondary
  refine Maintains.bind (Maintains.read ?_) (fun nodeId => get_bind (fun p hp => ?_))
  · intro p e hp herror
    split at herror
    · cases herror
    · split at herror
      next e' hsecondary =>
        cases herror
        rcases preferredSecondary_error hsecondary with ⟨m, _, _, rfl⟩
        trivial
      · cases herror
        exact hp
      · cases herror
  · unfold Prog.refuse
    simp only [wp_bind, Prog.wp_ite, Prog.wp_throw, Prog.wp_pure]
    split
    · trivial
    next hmem =>
      have hmem := not_not.mp hmem
      cases hattached : p.shard.intent.attached with
      | none =>
        refine wp_then (moves_promoteAttached hp hattached hmem) ?_
        exact fun _ r hr => moves_nextSequence r hr
      | some oldAttached =>
        refine wp_bind.mpr (wp_imp (moves_swap hp hattached hmem) ?_)
        rintro _ q ⟨rfl, hpromote⟩
        refine wp_then hpromote ?_
        exact fun _ r hr => moves_nextSequence r hr

theorem moves_applyAction {action : ScheduleOptimizationAction} (hp : InStep start p)
    (hvalid : p.shard.validateOptimization action = true) :
    wp (applyAction action) (fun _ => InStep start)
      (Ends (Unbalanced start) (InStep start)) p := by
  cases action with
  | replaceSecondary oldNodeId newNodeId =>
    exact (moves_removeSecondary oldNodeId).bind
      (fun _ => moves_pushSecondary newNodeId) p hp
  | createSecondary newNodeId => exact moves_pushSecondary newNodeId p hp
  | removeSecondary oldSecondary => exact moves_removeSecondary oldSecondary p hp
  | migrateAttachment oldAttachedNodeId newAttachedNodeId =>
    unfold validateOptimization at hvalid
    have hvalid := Bool.and_eq_true_iff.mp hvalid
    have hattached := of_decide_eq_true hvalid.1
    have hmem := of_decide_eq_true hvalid.2
    refine wp_bind.mpr (wp_imp (moves_swap hp hattached hmem) ?_)
    rintro demoted q ⟨_, hpromote⟩
    refine wp_then hpromote ?_
    intro _ r hr
    refine moves_modifyShard (fun shard => ?_) r hr
    split <;> rfl

theorem moves_applyOptimization (optimization : ScheduleOptimization) :
    Moves start (applyOptimization optimization) := by
  refine get_bind (fun p hp => ?_)
  dsimp only [Prog.onlyIf]
  split
  next hvalid => exact moves_applyAction hp hvalid.2
  · exact hp

theorem moves_popSecondaries (rounds : Nat) : Moves start (popSecondaries rounds) := by
  induction rounds with
  | zero => exact Maintains.pure ()
  | succ rounds ih => exact moves_popSecondary.bind (fun _ => ih)

theorem moves_migrateIntent (policy : PlacementPolicy) (oldAttached : Option NodeId)
    (nodeId : NodeId) : Moves start (migrateIntent policy oldAttached nodeId) := by
  unfold migrateIntent
  split
  · refine (moves_removeSecondary nodeId).bind
      (fun _ => (moves_setAttached nodeId).bind (fun _ => ?_))
    refine Maintains.option_forM (fun m _ => Maintains.onlyIf ?_)
    refine get_bind (fun q hq => ?_)
    exact (moves_popSecondaries _).bind (fun _ => moves_pushSecondary m) q hq
  · exact moves_clear.bind (fun _ => moves_pushSecondary nodeId)
  · exact Maintains.pure ()

theorem moves_migrate (nodeId : NodeId) : Moves start (migrate nodeId) := by
  refine get_bind (fun p hp => ?_)
  dsimp only
  split
  · exact moves_modifyShard (f := setPreferredNode none) (fun _ => rfl) p hp
  · refine get_bind (fun q hq => Maintains.onlyIf ?_ q hq) p hp
    exact (moves_migrateIntent _ _ nodeId).bind (fun _ => moves_modifyShard (fun _ => rfl))

theorem moves_migrateSecondary (nodeId : NodeId) :
    Moves start (migrateSecondary nodeId) := by
  refine get_bind (fun p hp => ?_)
  refine Maintains.onlyIf ?_ p hp
  refine Maintains.bind (Maintains.forM (fun n _ => moves_removeSecondary n)) (fun _ => ?_)
  exact (moves_pushSecondary nodeId).bind (fun _ => moves_nextSequence)

theorem moves_leaveOffline (nodeId : NodeId) (reschedule : Bool) :
    Moves start (leaveOffline nodeId reschedule) := by
  unfold leaveOffline
  refine Maintains.bind (moves_modifyShard (fun shard => ?_)) (fun _ => Maintains.onlyIf ?_)
  · split <;> rfl
  · refine (moves_demoteAttached nodeId).bind (fun demoted => Maintains.onlyIf ?_)
    exact moves_nextSequence.bind (fun _ => moves_schedule)

/-- The nodes of the scheduler, and which of them are open, are not changed. -/
theorem stays_of_moves {s : Scheduler} {m : Prog Placing Fault alpha}
    (h : forall start, Moves start m) : Stays (fun p : Placing => s.SameNodes p.scheduler) m :=
  fun p hp => wp_mono (h p p (Moved.refl p)) (fun _ _ hq => hp.trans hq.same)
    (fun _ _ => Ends.imp (fun _ => trivial) (fun hq => hp.trans hq.same))

end TenantShard

end StorageController
end OpenNeon

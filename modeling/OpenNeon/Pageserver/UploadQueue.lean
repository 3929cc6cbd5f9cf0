import OpenNeon.Base.Run
import OpenNeon.Pageserver.IndexPart

/-!
# The upload queue

Layer uploads, index uploads and deletions of one timeline wait in a queue.  An
operation may start before the operations ahead of it if it conflicts with none
of them.  Index uploads that wait one behind the other are coalesced into the
last of them.
-/

namespace OpenNeon
namespace Pageserver

/-!
## Operations
-/

inductive OpType where
  | mayReorder
  | flushDeletion
  deriving DecidableEq

structure ResidentLayer where
  layerName : LayerName
  file : List UInt8
  deriving DecidableEq

structure Delete where
  layers : List (LayerName × LayerFileMetadata)
  deriving DecidableEq

inductive UploadOp where
  | uploadLayer (layer : ResidentLayer) (metadata : LayerFileMetadata)
      (mode : Option OpType)
  | uploadMetadata (uploaded : IndexPart)
  | delete (delete : Delete)
  | barrier
  | shutdown
  deriving DecidableEq

namespace UploadOp

/-- No layer of a deletion is the uploaded file. -/
def deletesOther (d : Delete) (u : ResidentLayer) (umeta : LayerFileMetadata) : Bool :=
  d.layers.all (fun e => !isSameRemoteLayerPath u.layerName umeta e.1 e.2)

/-- Neither the uploaded nor the active index references the file. -/
def unreferenced (i index : IndexPart) (name : LayerName) (metadata : LayerFileMetadata) : Bool :=
  !i.references name metadata && !index.references name metadata

/-- Whether `self` may start before `other`, whose upload would have this index. -/
def canBypass (self other : UploadOp) (index : IndexPart) : Bool :=
  match self, other with
  | .barrier, _ => false
  | _, .barrier => false
  | .shutdown, _ => false
  | _, .shutdown => false
  | .uploadLayer a ameta _, .uploadLayer b bmeta _ =>
    !isSameRemoteLayerPath a.layerName ameta b.layerName bmeta
  | .uploadLayer u umeta _, .delete d => deletesOther d u umeta
  | .delete d, .uploadLayer u umeta _ => deletesOther d u umeta
  | .delete _, .delete _ => true
  | .uploadLayer u umeta _, .uploadMetadata i => unreferenced i index u.layerName umeta
  | .uploadMetadata i, .uploadLayer u umeta _ => unreferenced i index u.layerName umeta
  | .delete d, .uploadMetadata i => d.layers.all (fun e => unreferenced i index e.1 e.2)
  | .uploadMetadata i, .delete d => d.layers.all (fun e => unreferenced i index e.1 e.2)
  | .uploadMetadata _, .uploadMetadata _ => false

def nextActiveIndex (index : IndexPart) : UploadOp -> IndexPart
  | .uploadMetadata uploaded => uploaded
  | _ => index

/-- Whether `self` may start before all of the operations ahead of it. -/
def canBypassAll (self : UploadOp) : IndexPart -> List UploadOp -> Bool
  | _, [] => true
  | index, op :: rest =>
    self.canBypass op index && canBypassAll self (nextActiveIndex index op) rest

def isUploadMetadata : UploadOp -> Bool
  | .uploadMetadata _ => true
  | _ => false

end UploadOp

structure UploadTask where
  taskId : Nat
  op : UploadOp
  coalescedOps : List UploadOp
  deriving DecidableEq

/-!
## The queue
-/

inductive UploadQueuePanic where
  | shutdownWithTasks
  | shutdownNotAtHeadOfQueue
  | shutdownPoppedOffQueue
  | indexUploadsCompletedOutOfOrder

structure UploadQueueSwitches where
  disableReordering : Bool
  disableIndexCoalescing : Bool

/-- Queued and in-progress operations, and the clean index with the task that uploaded it. -/
structure UploadQueueInitialized where
  inprogressLimit : Nat
  taskCounter : Nat
  clean : IndexPart × Option Nat
  inprogressTasks : List UploadTask
  queuedOperations : List UploadOp
  recentlyDeleted : List (LayerName × Generation)
  shutdownReadyClosed : Bool

namespace UploadQueueInitialized

def initializeWithCurrentRemoteIndexPart (indexPart : IndexPart)
    (inprogressLimit : Nat) : UploadQueueInitialized :=
  { inprogressLimit := inprogressLimit
    taskCounter := 0
    clean := (indexPart, none)
    inprogressTasks := []
    queuedOperations := []
    recentlyDeleted := []
    shutdownReadyClosed := false }

section

variable (q : UploadQueueInitialized)

def noPendingWork : Bool :=
  q.inprogressTasks.isEmpty && q.queuedOperations.isEmpty

/-- The operations ahead of a position: those in progress, then those queued. -/
def ahead (pos : Nat) : List UploadOp :=
  q.inprogressTasks.map UploadTask.op ++ q.queuedOperations.take pos

def isReady (pos : Nat) : Bool :=
  match q.queuedOperations[pos]? with
  | some candidate => candidate.canBypassAll q.clean.1 (q.ahead pos)
  | none => false

def removeQueued (pos : Nat) : UploadQueueInitialized :=
  { q with queuedOperations := q.queuedOperations.eraseIdx pos }

end

/-- Replace an index upload taken from a position by the ready ones that follow it. -/
def coalesce (switches : UploadQueueSwitches) (pos : Nat) :
    Nat -> UploadQueueInitialized -> UploadOp -> List UploadOp ->
      UploadOp × List UploadOp × UploadQueueInitialized
  | 0, q, op, coalescedOps => (op, coalescedOps, q)
  | fuel + 1, q, op, coalescedOps =>
    match q.queuedOperations[pos]? with
    | some next =>
      if next.isUploadMetadata && !switches.disableIndexCoalescing &&
          q.isReady pos then
        coalesce switches pos fuel (q.removeQueued pos) next (coalescedOps ++ [op])
      else (op, coalescedOps, q)
    | none => (op, coalescedOps, q)

/-- Take the ready operation at a position, with those coalesced into it. -/
def takeReady (switches : UploadQueueSwitches) (q : UploadQueueInitialized)
    (pos : Nat) (op : UploadOp) :
    UploadOp × List UploadOp × UploadQueueInitialized :=
  if op.isUploadMetadata then
    coalesce switches pos q.queuedOperations.length (q.removeQueued pos) op []
  else (op, [], q.removeQueued pos)

def nextReadyFrom (switches : UploadQueueSwitches)
    (q : UploadQueueInitialized) : Nat -> List UploadOp ->
      Except UploadQueuePanic (Option (UploadOp × List UploadOp) × UploadQueueInitialized)
  | _, [] => .ok (none, q)
  | pos, candidate :: rest =>
    if q.isReady pos then
      if candidate = .shutdown then
        if q.inprogressTasks ≠ [] then .error .shutdownWithTasks
        else if pos ≠ 0 then .error .shutdownNotAtHeadOfQueue
        else .ok (none, { q with shutdownReadyClosed := true })
      else
        match takeReady switches q pos candidate with
        | (op, coalescedOps, q') => .ok (some (op, coalescedOps), q')
    else if candidate = .barrier ∨ candidate = .shutdown then .ok (none, q)
    else if switches.disableReordering then .ok (none, q)
    else nextReadyFrom switches q (pos + 1) rest

def nextReady (switches : UploadQueueSwitches) (q : UploadQueueInitialized) :
    Except UploadQueuePanic (Option (UploadOp × List UploadOp) × UploadQueueInitialized) :=
  if 0 < q.inprogressLimit ∧ q.inprogressLimit ≤ q.inprogressTasks.length then
    .ok (none, q)
  else nextReadyFrom switches q 0 q.queuedOperations

/-!
## Launching and completing tasks
-/

def prepare (q : UploadQueueInitialized) :
    UploadOp -> UploadOp × UploadQueueInitialized
  | .uploadLayer layer metadata _ =>
    if (layer.layerName, metadata.generation) ∈ q.recentlyDeleted then
      (.uploadLayer layer metadata (some .flushDeletion),
        { q with
          recentlyDeleted := q.recentlyDeleted.filter
            (fun e => e ≠ (layer.layerName, metadata.generation)) })
    else (.uploadLayer layer metadata (some .mayReorder), q)
  | .delete d =>
    (.delete d,
      { q with
        recentlyDeleted :=
          d.layers.map (fun e => (e.1, e.2.generation)) ++ q.recentlyDeleted })
  | op => (op, q)

def addTask (q : UploadQueueInitialized) (op : UploadOp)
    (coalescedOps : List UploadOp) : UploadQueueInitialized :=
  { q with
    taskCounter := q.taskCounter + 1
    inprogressTasks := q.inprogressTasks ++
      [{ taskId := q.taskCounter + 1, op := op, coalescedOps := coalescedOps }] }

/-- One round of launching queued tasks; a barrier needs no task. -/
def launchQueuedTask (switches : UploadQueueSwitches) (q : UploadQueueInitialized) :
    Except UploadQueuePanic UploadQueueInitialized :=
  match nextReady switches q with
  | .error e => .error e
  | .ok (none, q') => .ok q'
  | .ok (some (nextOp, coalescedOps), q') =>
    if nextOp = .barrier then .ok q'
    else if nextOp = .shutdown then .error .shutdownPoppedOffQueue
    else
      match q'.prepare nextOp with
      | (op, q'') => .ok (q''.addTask op coalescedOps)

/-- Remove a completed task; a completed index upload gives the clean index. -/
def completeTask (q : UploadQueueInitialized) (task : UploadTask) :
    Except UploadQueuePanic UploadQueueInitialized :=
  let q' := { q with
    inprogressTasks := q.inprogressTasks.filter (fun t => t.taskId ≠ task.taskId) }
  match task.op with
  | .uploadMetadata uploaded =>
    let monotone := match q.clean.2 with
      | some taskId => decide (taskId < task.taskId)
      | none => true
    if monotone then .ok { q' with clean := (uploaded, some task.taskId) }
    else .error .indexUploadsCompletedOutOfOrder
  | _ => .ok q'

/-!
## What the next ready operation is
-/

section NextReady

variable {switches : UploadQueueSwitches} {q q' : UploadQueueInitialized}
variable {pre post : List UploadOp} {op : UploadOp}

/-- The operation comes from behind ones it may bypass; index uploads before it are dropped. -/
structure Taken (q : UploadQueueInitialized) (op : UploadOp)
    (coalescedOps : List UploadOp) (q' : UploadQueueInitialized)
    (pre post : List UploadOp) : Prop where
  queued : q.queuedOperations = pre ++ (coalescedOps ++ op :: post)
  left : q' = { q with queuedOperations := pre ++ post }
  coalesced : forall x, x ∈ coalescedOps -> x.isUploadMetadata = true
  last : coalescedOps ≠ [] -> op.isUploadMetadata = true
  notShutdown : op ≠ .shutdown
  bypasses : op.canBypassAll q.clean.1 (q.inprogressTasks.map UploadTask.op ++ pre) = true

theorem isReady_append (hq : q.queuedOperations = pre ++ op :: post) :
    q.isReady pre.length = op.canBypassAll q.clean.1
      (q.inprogressTasks.map UploadTask.op ++ pre) := by
  simp [isReady, ahead, hq]

theorem removeQueued_append (hq : q.queuedOperations = pre ++ op :: post) :
    q.removeQueued pre.length = { q with queuedOperations := pre ++ post } := by
  simp [removeQueued, hq, List.eraseIdx_append_of_length_le]

theorem ne_shutdown (h : op.isUploadMetadata = true) : op ≠ .shutdown := by
  intro heq
  rw [heq] at h
  cases h

theorem coalesce_taken {fuel : Nat} {coalescedOps done : List UploadOp}
    (horig : q.queuedOperations = pre ++ (done ++ op :: post))
    (hdone : forall x, x ∈ done -> x.isUploadMetadata = true)
    (hop : op.isUploadMetadata = true)
    (hbypass : op.canBypassAll q.clean.1 (q.inprogressTasks.map UploadTask.op ++ pre) = true)
    {op' : UploadOp}
    (h : coalesce switches pre.length fuel
        { q with queuedOperations := pre ++ post } op done =
      (op', coalescedOps, q')) :
    exists post', Taken q op' coalescedOps q' pre post' := by
  induction fuel generalizing op done post with
  | zero =>
    cases h
    exact ⟨post, horig, rfl, hdone, fun _ => hop, ne_shutdown hop, hbypass⟩
  | succ fuel ih =>
    have hstop : (op, done, ({ q with queuedOperations := pre ++ post } :
        UploadQueueInitialized)) = (op', coalescedOps, q') ->
        exists post', Taken q op' coalescedOps q' pre post' := by
      intro heq
      cases heq
      exact ⟨post, horig, rfl, hdone, fun _ => hop, ne_shutdown hop, hbypass⟩
    cases post with
    | nil =>
      simp only [coalesce, List.append_nil, List.getElem?_length] at h
      apply hstop
      simpa using h
    | cons next rest =>
      have hget : (pre ++ next :: rest)[pre.length]? = some next := by
        simp
      simp only [coalesce, hget] at h
      split_ifs at h with hcond
      · simp only [Bool.and_eq_true] at hcond
        rw [removeQueued_append rfl] at h
        rw [isReady_append rfl] at hcond
        exact ih (by simpa using horig) (Base.forall_mem_concat hdone hop) hcond.1.1 hcond.2 h
      · exact hstop h

theorem takeReady_taken {op' : UploadOp} {coalescedOps : List UploadOp}
    (hq : q.queuedOperations = pre ++ op :: post)
    (hready : q.isReady pre.length = true) (hshutdown : op ≠ .shutdown)
    (h : takeReady switches q pre.length op = (op', coalescedOps, q')) :
    exists post', Taken q op' coalescedOps q' pre post' := by
  rw [isReady_append hq] at hready
  unfold takeReady at h
  rw [removeQueued_append hq] at h
  split_ifs at h with hop
  · exact coalesce_taken (by simpa using hq) (by simp) hop hready h
  · cases h
    exact ⟨post, by simpa using hq, rfl, by simp, by simp, hshutdown, hready⟩

theorem canBypassAll_shutdown {index : IndexPart} {ops : List UploadOp}
    (h : UploadOp.shutdown.canBypassAll index ops = true) : ops = [] := by
  cases ops with
  | nil => rfl
  | cons op rest => cases op <;> simp [UploadOp.canBypassAll, UploadOp.canBypass] at h

/-- A search for a ready operation takes one, or leaves the queue as it is. -/
def Searched (q : UploadQueueInitialized)
    (res : Except UploadQueuePanic (Option (UploadOp × List UploadOp) × UploadQueueInitialized)) :
    Prop :=
  exists r q', res = .ok (r, q') ∧
    ((r = none ∧ exists closed, q' = { q with shutdownReadyClosed := closed }) ∨
      exists op coalescedOps pre post, r = some (op, coalescedOps) ∧
        Taken q op coalescedOps q' pre post)

theorem searched_none (q : UploadQueueInitialized) : Searched q (.ok (none, q)) :=
  ⟨none, q, rfl, Or.inl ⟨rfl, q.shutdownReadyClosed, rfl⟩⟩

theorem searched_nextReadyFrom (pre : List UploadOp) {rest : List UploadOp}
    (hq : q.queuedOperations = pre ++ rest) :
    Searched q (nextReadyFrom switches q pre.length rest) := by
  induction rest generalizing pre with
  | nil => exact searched_none q
  | cons candidate rest ih =>
    unfold nextReadyFrom
    by_cases hready : q.isReady pre.length = true
    · rw [if_pos hready]
      by_cases hshutdown : candidate = .shutdown
      · -- nothing is ahead of a shutdown that is ready
        rw [isReady_append hq, hshutdown] at hready
        have hahead := canBypassAll_shutdown hready
        simp only [List.append_eq_nil_iff, List.map_eq_nil_iff] at hahead
        refine ⟨none, { q with shutdownReadyClosed := true }, ?_, Or.inl ⟨rfl, true, rfl⟩⟩
        simp [hshutdown, hahead.1, hahead.2]
      · rw [if_neg hshutdown]
        rcases htake : takeReady switches q pre.length candidate with
          ⟨op, coalescedOps, q'⟩
        rcases takeReady_taken hq hready hshutdown htake with ⟨post', htaken⟩
        exact ⟨some (op, coalescedOps), q', rfl, Or.inr ⟨op, coalescedOps, pre, post', rfl, htaken⟩⟩
    · rw [if_neg hready]
      split_ifs
      · exact searched_none q
      · exact searched_none q
      · have hq' : q.queuedOperations = (pre ++ [candidate]) ++ rest := by
          simpa using hq
        have hrest := ih (pre ++ [candidate]) hq'
        rwa [List.length_append, List.length_singleton] at hrest

theorem searched_nextReady (switches : UploadQueueSwitches) (q : UploadQueueInitialized) :
    Searched q (nextReady switches q) := by
  unfold nextReady
  split_ifs
  · exact searched_none q
  · exact searched_nextReadyFrom [] rfl

end NextReady

end UploadQueueInitialized
end Pageserver
end OpenNeon

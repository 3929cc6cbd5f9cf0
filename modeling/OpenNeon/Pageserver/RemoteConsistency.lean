import Mathlib.Data.List.Induction
import OpenNeon.Pageserver.UploadQueue

/-!
# Consistency of remote storage

Operations that the upload queue starts out of order have the effect of their
order in the queue, and no file that the stored index lists is missing or being
deleted.

The argument has two parts.  Operations that may bypass each other commute, so
what the running and the queued operations will leave in remote storage never
changes.  And an operation never bypasses an index upload in a way that would
take a file from an index that is stored or on its way.
-/

namespace OpenNeon
namespace Pageserver

open Base UploadOp List

/-!
## Remote storage
-/

def Delete.paths (d : Delete) : List RemoteLayerPath :=
  d.layers.map (fun e => remoteLayerPath e.1 e.2)

structure RemoteStorage where
  layers : RemoteLayerPath -> Option (List UInt8)
  index : IndexPart

namespace RemoteStorage

def Has (r : RemoteStorage) (path : RemoteLayerPath) : Prop :=
  (r.layers path).isSome = true

def perform (r : RemoteStorage) : UploadOp -> RemoteStorage
  | .uploadLayer layer metadata _ =>
    { r with
      layers := fun path =>
        if path = remoteLayerPath layer.layerName metadata then some layer.file
        else r.layers path }
  | .uploadMetadata uploaded => { r with index := uploaded }
  | .delete d =>
    { r with
      layers := fun path =>
        if path ∈ d.paths then none else r.layers path }
  | .barrier => r
  | .shutdown => r

def performAll (r : RemoteStorage) (ops : List UploadOp) : RemoteStorage :=
  ops.foldl perform r

end RemoteStorage

open RemoteStorage

def latestIndex (index : IndexPart) (ops : List UploadOp) : IndexPart :=
  ops.foldl nextActiveIndex index

/-!
## Orderly use of the queue
-/

def Allowed (r : RemoteStorage) (index : IndexPart) : UploadOp -> Prop
  | .uploadMetadata i => forall path, i.Lists path -> r.Has path
  | .delete d => forall path, path ∈ d.paths -> Not (index.Lists path)
  | _ => True

def EachAllowed : RemoteStorage -> IndexPart -> List UploadOp -> Prop
  | _, _, [] => True
  | r, index, op :: rest =>
    Allowed r index op ∧ EachAllowed (r.perform op) (nextActiveIndex index op) rest

def NotListedLater (first later : UploadOp) : Prop :=
  forall d i, first = .delete d -> later = .uploadMetadata i ->
    forall path, path ∈ d.paths -> Not (i.Lists path)

/--
An orderly sequence of operations.  Each index lists only files that are remote
already or that are uploaded before it and not deleted since.  Each deletion
names only files that the latest index does not list and that no later index
lists.
-/
structure Orderly (start : RemoteStorage) (ops : List UploadOp) : Prop where
  allowed : EachAllowed start start.index ops
  notListed : ops.Pairwise NotListedLater

/-!
## The system
-/

/-- The queue, what is in remote storage, and all operations enqueued so far. -/
structure RemoteTimeline where
  queue : UploadQueueInitialized
  remote : RemoteStorage
  enqueued : List UploadOp

namespace RemoteTimeline

inductive Action where
  | enqueue (op : UploadOp)
  /-- The in-progress tasks are iterated in another order from now on. -/
  | rehash (tasks : List UploadTask)
  | launch
  /-- A task reaches remote storage but is not done yet, or will be retried. -/
  | attempt (taskId : Nat)
  | complete (taskId : Nat)

def findTask (q : UploadQueueInitialized) (taskId : Nat) : Option UploadTask :=
  q.inprogressTasks.find? (fun t => t.taskId = taskId)

def step (switches : UploadQueueSwitches) (s : RemoteTimeline) :
    Action -> Except UploadQueuePanic RemoteTimeline
  | .enqueue op =>
    .ok { s with
      queue := { s.queue with
        queuedOperations := s.queue.queuedOperations ++ [op] }
      enqueued := s.enqueued ++ [op] }
  | .rehash tasks =>
    if tasks.Perm s.queue.inprogressTasks then
      .ok { s with queue := { s.queue with inprogressTasks := tasks } }
    else .ok s
  | .launch =>
    match s.queue.launchQueuedTask switches with
    | .ok q => .ok { s with queue := q }
    | .error e => .error e
  | .attempt taskId =>
    match findTask s.queue taskId with
    | some task => .ok { s with remote := s.remote.perform task.op }
    | none => .ok s
  | .complete taskId =>
    match findTask s.queue taskId with
    | some task =>
      match s.queue.completeTask task with
      | .ok q => .ok { s with queue := q, remote := s.remote.perform task.op }
      | .error e => .error e
    | none => .ok s

def initial (start : RemoteStorage) (inprogressLimit : Nat) : RemoteTimeline :=
  { queue := .initializeWithCurrentRemoteIndexPart start.index inprogressLimit
    remote := start
    enqueued := [] }

def running (s : RemoteTimeline) : List UploadOp :=
  s.queue.inprogressTasks.map UploadTask.op

def queued (s : RemoteTimeline) : List UploadOp :=
  s.queue.queuedOperations

def BeingDeleted (s : RemoteTimeline) (path : RemoteLayerPath) : Prop :=
  exists d, .delete d ∈ s.running ∧ path ∈ d.paths

end RemoteTimeline

/-!
## Operations that may bypass each other
-/

namespace UploadOp

variable {d : Delete} {i : IndexPart} {a b self : UploadOp}

theorem deletesOther_iff {u : ResidentLayer} {umeta : LayerFileMetadata} :
    deletesOther d u umeta = true <->
      remoteLayerPath u.layerName umeta ∉ d.paths := by
  simp only [deletesOther, Delete.paths, all_eq_true, Bool.not_eq_true',
    mem_map, not_exists, not_and]
  constructor
  · intro h e he heq
    have hsame := isSameRemoteLayerPath_iff.mpr heq.symm
    rw [h e he] at hsame
    cases hsame
  · intro h e he
    rw [Bool.eq_false_iff, ne_eq, isSameRemoteLayerPath_iff]
    exact fun heq => h e he heq.symm

variable {index : IndexPart}

theorem unreferenced_iff {name : LayerName} {metadata : LayerFileMetadata} :
    unreferenced i index name metadata = true <->
      Not (i.Lists (remoteLayerPath name metadata)) ∧
        Not (index.Lists (remoteLayerPath name metadata)) := by
  simp [unreferenced, IndexPart.references_eq_false_iff]

theorem all_unreferenced_iff :
    d.layers.all (fun e => unreferenced i index e.1 e.2) = true <->
      forall path, path ∈ d.paths ->
        Not (i.Lists path) ∧ Not (index.Lists path) := by
  simp only [all_eq_true, unreferenced_iff, Delete.paths, mem_map]
  constructor
  · intro h path hpath
    rcases hpath with ⟨e, he, rfl⟩
    exact h e he
  · intro h e he
    exact h _ ⟨e, he, rfl⟩

theorem canBypass_comm (a b : UploadOp) (index : IndexPart) :
    a.canBypass b index = b.canBypass a index := by
  cases a <;> cases b <;> simp only [canBypass]
  rw [isSameRemoteLayerPath_comm]

def Compatible (a b : UploadOp) : Prop :=
  exists index, a.canBypass b index = true

instance : Std.Symm Compatible :=
  ⟨fun a b h => by
    rcases h with ⟨index, hindex⟩
    exact ⟨index, canBypass_comm a b index ▸ hindex⟩⟩

theorem Compatible.perform (hcompatible : Compatible a b) :
    Commutes RemoteStorage.perform a b := by
  rcases hcompatible with ⟨index, h⟩
  intro r
  cases a <;> cases b <;> simp only [canBypass, Bool.false_eq_true] at h <;>
    simp only [RemoteStorage.perform, RemoteStorage.mk.injEq, and_true]
  case uploadLayer.uploadLayer u umeta _ v vmeta _ =>
    rw [Bool.not_eq_true', Bool.eq_false_iff, ne_eq, isSameRemoteLayerPath_iff] at h
    funext path
    split_ifs with hv hu
    · exact absurd (hu.symm.trans hv) h
    · rfl
    · rfl
    · rfl
  case uploadLayer.delete u umeta _ d =>
    rw [deletesOther_iff] at h
    funext path
    split_ifs with hd hu
    · exact absurd (hu ▸ hd) h
    · rfl
    · rfl
    · rfl
  case delete.uploadLayer d u umeta _ =>
    rw [deletesOther_iff] at h
    funext path
    split_ifs with hu hd
    · exact absurd (hu ▸ hd) h
    · rfl
    · rfl
    · rfl
  case delete.delete d d' =>
    funext path
    split_ifs <;> rfl

theorem Compatible.nextActiveIndex (hcompatible : Compatible a b) :
    Commutes nextActiveIndex a b := by
  rcases hcompatible with ⟨index, h⟩
  intro x
  cases a <;> cases b <;> simp only [canBypass, Bool.false_eq_true] at h <;> rfl

theorem canBypassAll_append {xs ys : List UploadOp} :
    self.canBypassAll index (xs ++ ys) = true <->
      self.canBypassAll index xs = true ∧ self.canBypassAll (latestIndex index xs) ys = true := by
  induction xs generalizing index with
  | nil => simp [canBypassAll, latestIndex]
  | cons x xs ih =>
    simp only [cons_append, canBypassAll, Bool.and_eq_true, ih, and_assoc]
    rfl

theorem compatible_of_mem {op : UploadOp} {ops : List UploadOp}
    (h : self.canBypassAll index ops = true) (hop : op ∈ ops) : Compatible self op := by
  induction ops generalizing index with
  | nil => cases hop
  | cons x xs ih =>
    simp only [canBypassAll, Bool.and_eq_true] at h
    rcases mem_cons.mp hop with rfl | hop
    · exact ⟨index, h.1⟩
    · exact ih h.2 hop

end UploadOp

namespace RemoteStorage

@[simp] theorem performAll_nil (r : RemoteStorage) : r.performAll [] = r := rfl

@[simp] theorem performAll_cons (r : RemoteStorage) (op : UploadOp) (ops : List UploadOp) :
    r.performAll (op :: ops) = (r.perform op).performAll ops := rfl

@[simp] theorem performAll_append (r : RemoteStorage) (xs ys : List UploadOp) :
    r.performAll (xs ++ ys) = (r.performAll xs).performAll ys :=
  foldl_append

theorem perform_idem (r : RemoteStorage) (op : UploadOp) :
    (r.perform op).perform op = r.perform op := by
  cases op <;> simp only [perform, RemoteStorage.mk.injEq, and_true]
  all_goals
    funext path
    split_ifs <;> rfl

variable {r : RemoteStorage} {path : RemoteLayerPath} {op : UploadOp}

theorem Has.perform (h : r.Has path) (hop : forall d, op = .delete d -> path ∉ d.paths) :
    (r.perform op).Has path := by
  cases op with
  | uploadLayer layer metadata mode =>
    simp only [Has, RemoteStorage.perform]
    split_ifs
    · rfl
    · exact h
  | delete d =>
    simp only [Has, RemoteStorage.perform, if_neg (hop d rfl)]
    exact h
  | _ => exact h

theorem Has.of_perform (h : (r.perform op).Has path)
    (hop : forall layer metadata mode, op = .uploadLayer layer metadata mode ->
      path ≠ remoteLayerPath layer.layerName metadata) : r.Has path := by
  cases op with
  | uploadLayer layer metadata mode =>
    simp only [Has, RemoteStorage.perform, if_neg (hop layer metadata mode rfl)] at h
    exact h
  | delete d =>
    simp only [Has, RemoteStorage.perform] at h
    split_ifs at h
    · cases h
    · exact h
  | _ => exact h

end RemoteStorage

@[simp] theorem latestIndex_nil (index : IndexPart) : latestIndex index [] = index := rfl

@[simp] theorem latestIndex_cons (index : IndexPart) (op : UploadOp) (ops : List UploadOp) :
    latestIndex index (op :: ops) = latestIndex (nextActiveIndex index op) ops := rfl

@[simp] theorem latestIndex_append (index : IndexPart) (xs ys : List UploadOp) :
    latestIndex index (xs ++ ys) = latestIndex (latestIndex index xs) ys :=
  foldl_append

/-!
## Bypassing in an orderly sequence
-/

section Bypass

variable {r : RemoteStorage} {index : IndexPart} {op : UploadOp}
variable {xs ys : List UploadOp}

theorem eachAllowed_append :
    EachAllowed r index (xs ++ ys) <->
      EachAllowed r index xs ∧ EachAllowed (r.performAll xs) (latestIndex index xs) ys := by
  induction xs generalizing r index with
  | nil => simp [EachAllowed]
  | cons x xs ih =>
    simp only [cons_append, EachAllowed, ih, and_assoc, performAll_cons, latestIndex_cons]

theorem Orderly.of_append (h : Orderly r (xs ++ ys)) : Orderly r xs :=
  ⟨(eachAllowed_append.mp h.allowed).1, (pairwise_append.mp h.notListed).1⟩

theorem performAll_bypass (h : op.canBypassAll index xs = true) :
    (r.perform op).performAll xs = (r.performAll xs).perform op := by
  apply foldl_commute
  intro x hx
  exact (compatible_of_mem h hx).perform

theorem latestIndex_bypass {start : IndexPart} (h : op.canBypassAll index xs = true) :
    latestIndex (nextActiveIndex start op) xs = nextActiveIndex (latestIndex start xs) op := by
  apply foldl_commute
  intro x hx
  exact (compatible_of_mem h hx).nextActiveIndex

theorem Allowed.bypassed {x : UploadOp} (hx : Allowed r index x) (h : op.canBypass x index = true) :
    Allowed (r.perform op) (nextActiveIndex index op) x := by
  cases x with
  | uploadMetadata i =>
    intro path hlists
    apply Has.perform (hx path hlists)
    intro d hd hpath
    rw [hd] at h
    exact (all_unreferenced_iff.mp h path hpath).1 hlists
  | delete d =>
    intro path hpath
    cases op with
    | uploadMetadata i => exact (all_unreferenced_iff.mp h path hpath).1
    | _ => exact hx path hpath
  | _ => trivial

theorem EachAllowed.bypassed (hxs : EachAllowed r index xs) (h : op.canBypassAll index xs = true) :
    EachAllowed (r.perform op) (nextActiveIndex index op) xs := by
  induction xs generalizing r index with
  | nil => trivial
  | cons x xs ih =>
    simp only [canBypassAll, Bool.and_eq_true] at h
    have hx : Compatible op x := ⟨index, h.1⟩
    have hstate := hx.perform r
    have hindex := hx.nextActiveIndex index
    refine ⟨hxs.1.bypassed h.1, ?_⟩
    rw [hstate, hindex]
    exact ih hxs.2 h.2

variable {i : IndexPart} {path : RemoteLayerPath}

theorem has_of_index_bypasses (h : (uploadMetadata i).canBypassAll index xs = true)
    (hlists : i.Lists path) (hhas : (r.performAll xs).Has path) :
    r.Has path := by
  induction xs generalizing r index with
  | nil => exact hhas
  | cons x xs ih =>
    simp only [canBypassAll, Bool.and_eq_true] at h
    apply Has.of_perform (ih h.2 hhas)
    intro layer metadata mode hx hpath
    rw [hx] at h
    rw [hpath] at hlists
    exact (unreferenced_iff.mp h.1).1 hlists

theorem delete_bypasses_index {d : Delete} (h : (delete d).canBypassAll index xs = true)
    (hi : .uploadMetadata i ∈ xs) (hpath : path ∈ d.paths) :
    Not (i.Lists path) ∧ Not (index.Lists path) := by
  induction xs generalizing index with
  | nil => cases hi
  | cons x xs ih =>
    simp only [canBypassAll, Bool.and_eq_true] at h
    cases x with
    | uploadMetadata j =>
      have hj := all_unreferenced_iff.mp h.1 path hpath
      rcases mem_cons.mp hi with heq | hi
      · cases heq
        exact hj
      · exact ⟨(ih h.2 hi).1, hj.2⟩
    | _ => exact ih h.2 (by simpa using hi)

theorem latestIndex_eq_of_no_index
    (h : forall i, .uploadMetadata i ∉ xs) : latestIndex index xs = index := by
  induction xs generalizing index with
  | nil => rfl
  | cons x xs ih =>
    have hx : nextActiveIndex index x = index := by
      cases x with
      | uploadMetadata i => exact absurd (mem_cons_self) (h i)
      | _ => rfl
    rw [latestIndex_cons, hx]
    exact ih (fun i hi => h i (mem_cons_of_mem x hi))

end Bypass

/-!
## The invariant

What the running and the queued operations will leave is what all operations
leave in order.  The queue is orderly for what the running operations will leave.
The files of the clean index and of a running index upload are in place, and no
index lists a file of a running deletion.
-/

structure Consistent (start : RemoteStorage) (enqueued : List UploadOp)
    (clean : IndexPart) (running queued : List UploadOp)
    (remote : RemoteStorage) : Prop where
  effect : remote.performAll (running ++ queued) = start.performAll enqueued
  latest : latestIndex clean (running ++ queued) = latestIndex start.index enqueued
  allowed : EachAllowed (remote.performAll running) (latestIndex clean running) queued
  notListed : queued.Pairwise NotListedLater
  known : forall d, .delete d ∈ running ++ queued -> .delete d ∈ enqueued
  launched : forall d, .delete d ∈ running -> forall path, path ∈ d.paths ->
    Not (clean.Lists path) ∧ forall i, .uploadMetadata i ∈ running ++ queued -> Not (i.Lists path)
  stored : forall i, i = clean ∨ .uploadMetadata i ∈ running ->
    forall path, i.Lists path -> remote.Has path
  index : remote.index = clean ∨ .uploadMetadata remote.index ∈ running

namespace Consistent

variable {start remote : RemoteStorage} {clean : IndexPart}
variable {enqueued running queued pre post : List UploadOp} {op : UploadOp}

theorem initial (hstart : forall path, start.index.Lists path -> start.Has path) :
    Consistent start [] start.index [] [] start where
  effect := rfl
  latest := rfl
  allowed := trivial
  notListed := List.Pairwise.nil
  known := by simp
  launched := by simp
  stored := by
    intro i hi
    simp only [not_mem_nil, or_false] at hi
    rw [hi]
    exact hstart
  index := Or.inl rfl

section

variable (h : Consistent start enqueued clean running queued remote)

include h

theorem enqueue (horderly : Orderly start (enqueued ++ [op])) :
    Consistent start (enqueued ++ [op]) clean running (queued ++ [op])
      remote := by
  have hop : Allowed (start.performAll enqueued) (latestIndex start.index enqueued) op :=
    (eachAllowed_append.mp horderly.allowed).2.1
  have hlater : forall x, x ∈ enqueued -> NotListedLater x op := by
    intro x hx
    exact (pairwise_append.mp horderly.notListed).2.2 x hx op (by simp)
  constructor
  · rw [← append_assoc, performAll_append, h.effect, performAll_append]
  · rw [← append_assoc, latestIndex_append, h.latest, latestIndex_append]
  · rw [eachAllowed_append, ← performAll_append, ← latestIndex_append, h.effect, h.latest]
    exact ⟨h.allowed, hop, trivial⟩
  · refine pairwise_concat h.notListed (fun x hx d i hd hi => ?_)
    have hknown : x ∈ enqueued := by
      rw [hd] at hx ⊢
      exact h.known d (mem_append_right running hx)
    exact hlater x hknown d i hd hi
  · intro d hd
    simp only [mem_append, ← or_assoc] at hd ⊢
    exact hd.imp_left (fun hd => h.known d (mem_append.mpr hd))
  · intro d hd path hpath
    refine ⟨(h.launched d hd path hpath).1, ?_⟩
    intro i hi
    simp only [mem_append, mem_singleton, ← or_assoc] at hi
    cases hi with
    | inl hi => exact (h.launched d hd path hpath).2 i (mem_append.mpr hi)
    | inr hi =>
      have hknown := h.known d (mem_append_left queued hd)
      exact hlater _ hknown d i rfl hi.symm path hpath
  · exact h.stored
  · exact h.index

/-- Running operations may be replaced by some with the same effect; the clean index was clean or
running. -/
theorem rerun {clean' : IndexPart} {running' : List UploadOp} (hsub : running' ⊆ running)
    (heffect : remote.performAll running' = remote.performAll running)
    (hlatest : latestIndex clean' running' = latestIndex clean running)
    (hclean : clean' = clean ∨ .uploadMetadata clean' ∈ running)
    (hindex : remote.index = clean' ∨ .uploadMetadata remote.index ∈ running') :
    Consistent start enqueued clean' running' queued remote where
  effect := by
    rw [performAll_append, heffect, ← performAll_append, h.effect]
  latest := by
    rw [latestIndex_append, hlatest, ← latestIndex_append, h.latest]
  allowed := by
    rw [heffect, hlatest]
    exact h.allowed
  notListed := h.notListed
  known := fun d hd => h.known d (mem_append.mpr ((mem_append.mp hd).imp_left (@hsub _)))
  launched := by
    intro d hd path hpath
    have hold := h.launched d (hsub hd) path hpath
    refine ⟨?_, fun i hi => hold.2 i (mem_append.mpr ((mem_append.mp hi).imp_left (@hsub _)))⟩
    cases hclean with
    | inl heq =>
      rw [heq]
      exact hold.1
    | inr hi => exact hold.2 _ (mem_append_left queued hi)
  stored := fun i hi => h.stored i (hi.elim (fun heq => heq ▸ hclean) (fun hi => .inr (hsub hi)))
  index := hindex

end

/-- The end of the queue may be replaced by one with the same effect and no new deletions or index
uploads. -/
theorem requeue {ops ops' : List UploadOp}
    (h : Consistent start enqueued clean running (pre ++ ops) remote)
    (heffect : forall r, performAll r ops' = performAll r ops)
    (hlatest : forall i, latestIndex i ops' = latestIndex i ops)
    (hallowed : forall {r i}, EachAllowed r i ops -> EachAllowed r i ops')
    (hnotListed : (pre ++ ops).Pairwise NotListedLater -> (pre ++ ops').Pairwise NotListedLater)
    (hdeletes : forall d, .delete d ∈ ops' -> .delete d ∈ ops)
    (hindexes : forall i, .uploadMetadata i ∈ ops' -> .uploadMetadata i ∈ ops) :
    Consistent start enqueued clean running (pre ++ ops') remote := by
  have hmem : forall x, (x ∈ ops' -> x ∈ ops) -> x ∈ running ++ (pre ++ ops') ->
      x ∈ running ++ (pre ++ ops) := by
    intro x hx
    simp only [mem_append]
    exact Or.imp_right (Or.imp_right hx)
  constructor
  · rw [← h.effect]
    simp only [performAll_append, heffect]
  · rw [← h.latest]
    simp only [latestIndex_append, hlatest]
  · exact eachAllowed_append.mpr ((eachAllowed_append.mp h.allowed).imp_right hallowed)
  · exact hnotListed h.notListed
  · exact fun d hd => h.known d (hmem _ (hdeletes d) hd)
  · intro d hd path hpath
    have hold := h.launched d hd path hpath
    exact ⟨hold.1, fun i hi => hold.2 i (hmem _ (hindexes i) hi)⟩
  · exact h.stored
  · exact h.index

/-- An operation that changes nothing once the rest has been done may be dropped. -/
theorem requeue_tail (h : Consistent start enqueued clean running (pre ++ op :: post) remote)
    (heffect : forall r : RemoteStorage, (r.perform op).performAll post = r.performAll post)
    (hlatest : forall i, latestIndex (nextActiveIndex i op) post = latestIndex i post)
    (hallowed : forall r i, EachAllowed (r.perform op) (nextActiveIndex i op) post ->
      EachAllowed r i post) :
    Consistent start enqueued clean running (pre ++ post) remote :=
  h.requeue (fun r => (heffect r).symm) (fun i => (hlatest i).symm)
    (fun hold => hallowed _ _ hold.2)
    (List.Pairwise.sublist ((sublist_cons_self op post).append_left pre))
    (fun _ => mem_cons_of_mem op) (fun _ => mem_cons_of_mem op)

theorem drop {i j : IndexPart} (h : Consistent start enqueued clean running
      (pre ++ .uploadMetadata i :: .uploadMetadata j :: post) remote) :
    Consistent start enqueued clean running (pre ++ .uploadMetadata j :: post) remote :=
  h.requeue_tail (fun _ => rfl) (fun _ => rfl) (fun _ _ hold => hold)

theorem dropAll {dropped : List UploadOp}
    (hdropped : forall x, x ∈ dropped -> x.isUploadMetadata = true)
    (hlast : dropped ≠ [] -> op.isUploadMetadata = true)
    (h : Consistent start enqueued clean running (pre ++ (dropped ++ op :: post)) remote) :
    Consistent start enqueued clean running (pre ++ op :: post) remote := by
  induction dropped with
  | nil => exact h
  | cons x rest ih =>
    apply ih (fun y hy => hdropped y (by simp [hy])) (fun _ => hlast (by simp))
    have hx := hdropped x (by simp)
    have hop := hlast (by simp)
    cases x <;> simp only [isUploadMetadata, Bool.false_eq_true] at hx
    cases rest with
    | nil =>
      cases op <;> simp only [isUploadMetadata, Bool.false_eq_true] at hop
      exact h.drop
    | cons y rest =>
      have hy := hdropped y (by simp)
      cases y <;> simp only [isUploadMetadata, Bool.false_eq_true] at hy
      exact h.drop

theorem skip (hop : op = .barrier ∨ op = .shutdown)
    (h : Consistent start enqueued clean running (pre ++ op :: post) remote) :
    Consistent start enqueued clean running (pre ++ post) remote := by
  rcases hop with rfl | rfl
  · exact h.requeue_tail (fun _ => rfl) (fun _ => rfl) (fun _ _ hold => hold)
  · exact h.requeue_tail (fun _ => rfl) (fun _ => rfl) (fun _ _ hold => hold)

theorem setMode {layer : ResidentLayer} {metadata : LayerFileMetadata}
    {mode mode' : Option OpType}
    (h : Consistent start enqueued clean running
      (pre ++ .uploadLayer layer metadata mode :: post) remote) :
    Consistent start enqueued clean running
      (pre ++ .uploadLayer layer metadata mode' :: post) remote := by
  refine h.requeue (fun _ => rfl) (fun _ => rfl) (fun hold => ⟨trivial, hold.2⟩) ?_
    (by simp) (by simp)
  intro hold
  simp only [pairwise_append, pairwise_cons, mem_cons] at hold ⊢
  refine ⟨hold.1, ⟨fun x _ d i hd => (nomatch hd), hold.2.1.2⟩, ?_⟩
  intro x hx y hy
  cases hy with
  | inl hy => exact fun d i _ hi => nomatch hy.symm.trans hi
  | inr hy => exact hold.2.2 x hx y (Or.inr hy)

/-- A deletion that starts takes no file from an index that is still needed. -/
theorem launched_delete {d : Delete}
    (h : Consistent start enqueued clean running (pre ++ .delete d :: post) remote)
    (hbypass : (delete d).canBypassAll clean (running ++ pre) = true)
    {path : RemoteLayerPath} (hpath : path ∈ d.paths) :
    Not (clean.Lists path) ∧
      forall i, .uploadMetadata i ∈ running ++ (pre ++ post) ->
        Not (i.Lists path) := by
  have hallowed := (eachAllowed_append.mp h.allowed).2.1 path hpath
  rw [← latestIndex_append] at hallowed
  constructor
  · by_cases hindex : exists i, .uploadMetadata i ∈ running ++ pre
    · rcases hindex with ⟨i, hi⟩
      exact (delete_bypasses_index hbypass hi hpath).2
    · -- without an index ahead the clean index is the latest one
      rw [latestIndex_eq_of_no_index (fun i hi => hindex ⟨i, hi⟩)] at hallowed
      exact hallowed
  · intro i hi
    rw [← append_assoc, mem_append] at hi
    cases hi with
    | inl hi => exact (delete_bypasses_index hbypass hi hpath).1
    | inr hi =>
      have hlater := (pairwise_append.mp h.notListed).2.1
      exact rel_of_pairwise_cons hlater hi d i rfl rfl path hpath

theorem launch (h : Consistent start enqueued clean running (pre ++ op :: post)
      remote) (hbypass : op.canBypassAll clean (running ++ pre) = true) :
    Consistent start enqueued clean (running ++ [op]) (pre ++ post) remote := by
  have hpre := (canBypassAll_append.mp hbypass).2
  have hmem : forall x, x ∈ (running ++ [op]) ++ (pre ++ post) ->
      x ∈ running ++ (pre ++ op :: post) := by
    intro x hx
    simp only [mem_append, mem_cons] at hx ⊢
    tauto
  have hallowed := eachAllowed_append.mp h.allowed
  constructor
  · rw [← h.effect]
    simp only [performAll_append, performAll_cons, performAll_nil, performAll_bypass hpre]
  · rw [← h.latest]
    simp only [latestIndex_append, latestIndex_cons, latestIndex_nil, latestIndex_bypass hpre]
  · simp only [performAll_append, performAll_cons, performAll_nil,
      latestIndex_append, latestIndex_cons, latestIndex_nil]
    rw [eachAllowed_append, performAll_bypass hpre, latestIndex_bypass hpre]
    exact ⟨hallowed.1.bypassed hpre, hallowed.2.2⟩
  · exact h.notListed.sublist ((sublist_cons_self _ _).append_left pre)
  · exact fun d hd => h.known d (hmem _ hd)
  · intro d hd path hpath
    cases mem_append.mp hd with
    | inl hd =>
      have hold := h.launched d hd path hpath
      exact ⟨hold.1, fun i hi => hold.2 i (hmem _ hi)⟩
    | inr hd =>
      rw [← mem_singleton.mp hd] at h hbypass
      have hnew := h.launched_delete hbypass hpath
      refine ⟨hnew.1, ?_⟩
      intro i hi
      apply hnew.2 i
      rw [← mem_singleton.mp hd] at hi
      simpa using hi
  · intro i hi path hlists
    by_cases hold : i = clean ∨ .uploadMetadata i ∈ running
    · exact h.stored i hold path hlists
    · have hop : op = .uploadMetadata i := by
        simp only [mem_append, mem_singleton] at hi
        tauto
      rw [hop] at hallowed hbypass
      have hhas := hallowed.2.1 path hlists
      rw [← performAll_append] at hhas
      exact has_of_index_bypasses hbypass hlists hhas
  · exact h.index.imp_right (fun hi => mem_append_left [op] hi)

theorem perform (h : Consistent start enqueued clean running queued remote)
    (hrunning : running.Pairwise (Commutes RemoteStorage.perform))
    (hop : op ∈ running) :
    Consistent start enqueued clean running queued (remote.perform op) := by
  have hsame : (remote.perform op).performAll running = remote.performAll running := by
    rcases append_of_mem hop with ⟨before, after, rfl⟩
    have hbefore : forall x, x ∈ before -> Commutes RemoteStorage.perform op x :=
      fun x hx => ((pairwise_append.mp hrunning).2.2 x hx op (by simp)).symm
    simp only [performAll_append, performAll_cons]
    have hcommute : (remote.perform op).performAll before =
        (remote.performAll before).perform op := foldl_commute hbefore remote
    rw [hcommute, perform_idem]
  constructor
  · rw [performAll_append, hsame, ← performAll_append, h.effect]
  · exact h.latest
  · rw [hsame]
    exact h.allowed
  · exact h.notListed
  · exact h.known
  · exact h.launched
  · intro i hi path hlists
    apply Has.perform (h.stored i hi path hlists)
    intro d hd hpath
    rw [hd] at hop
    have hgone := h.launched d hop path hpath
    cases hi with
    | inl hi => exact hgone.1 (hi ▸ hlists)
    | inr hi => exact hgone.2 i (mem_append_left queued hi) hlists
  · cases op with
    | uploadMetadata i => exact Or.inr hop
    | _ => exact h.index

theorem retire {before after : List UploadOp}
    (h : Consistent start enqueued clean (before ++ op :: after) queued remote)
    (hdone : remote.perform op = remote)
    (hperform : forall x, x ∈ before -> Commutes RemoteStorage.perform op x)
    (hindex : forall x, x ∈ before -> Commutes nextActiveIndex op x) :
    Consistent start enqueued (nextActiveIndex clean op) (before ++ after) queued remote := by
  have heffect : remote.performAll (before ++ after) =
      remote.performAll (before ++ op :: after) := by
    have hcommute : (remote.perform op).performAll before =
        (remote.performAll before).perform op := foldl_commute hperform remote
    rw [hdone] at hcommute
    simp only [performAll_append, performAll_cons, ← hcommute]
  have hlatest : latestIndex (nextActiveIndex clean op)
      (before ++ after) = latestIndex clean (before ++ op :: after) := by
    have hcommute : latestIndex (nextActiveIndex clean op) before =
        nextActiveIndex (latestIndex clean before) op :=
      foldl_commute hindex clean
    simp only [latestIndex_append, latestIndex_cons, hcommute]
  refine h.rerun ((sublist_cons_self op after).append_left before).subset heffect hlatest ?_ ?_
  · cases op with
    | uploadMetadata i => exact Or.inr (by simp [nextActiveIndex])
    | _ => exact Or.inl rfl
  · cases op with
    | uploadMetadata i =>
      have hi : i = remote.index := congrArg RemoteStorage.index hdone
      exact Or.inl hi.symm
    | _ => simpa [nextActiveIndex] using h.index

end Consistent

/-!
## Steps of the system
-/

namespace RemoteTimeline

/-- The tasks can be told apart, and may all run at the same time. -/
structure TasksInv (q : UploadQueueInitialized) : Prop where
  distinct : q.inprogressTasks.Pairwise (fun a b => a.taskId ≠ b.taskId)
  counted : forall t, t ∈ q.inprogressTasks -> t.taskId ≤ q.taskCounter
  cleanCounted : forall taskId, q.clean.2 = some taskId ->
    taskId ≤ q.taskCounter
  newer : forall t, t ∈ q.inprogressTasks -> t.op.isUploadMetadata = true ->
    forall taskId, q.clean.2 = some taskId -> taskId < t.taskId
  compatible : (q.inprogressTasks.map UploadTask.op).Pairwise Compatible

theorem tasksInv_fresh (indexPart : IndexPart) (inprogressLimit : Nat) :
    TasksInv (.initializeWithCurrentRemoteIndexPart indexPart inprogressLimit) where
  distinct := List.Pairwise.nil
  counted := by
    intro t ht
    cases ht
  cleanCounted := by
    intro taskId h
    cases h
  newer := by
    intro t ht
    cases ht
  compatible := List.Pairwise.nil

variable {q : UploadQueueInitialized} {task : UploadTask}

theorem TasksInv.perm (h : TasksInv q) {tasks : List UploadTask}
    (hperm : tasks.Perm q.inprogressTasks) :
    TasksInv { q with inprogressTasks := tasks } where
  distinct := (hperm.pairwise_iff (fun {_ _} => Ne.symm)).mpr h.distinct
  counted := fun t ht => h.counted t (hperm.mem_iff.mp ht)
  cleanCounted := h.cleanCounted
  newer := fun t ht => h.newer t (hperm.mem_iff.mp ht)
  compatible := by
    have hmap := hperm.map UploadTask.op
    exact (hmap.pairwise_iff (fun {a b} hab => Std.Symm.symm a b hab)).mpr h.compatible

theorem TasksInv.same (h : TasksInv q) (queued : List UploadOp)
    (deleted : List (LayerName × Generation)) (closed : Bool) :
    TasksInv { q with
      queuedOperations := queued, recentlyDeleted := deleted
      shutdownReadyClosed := closed } :=
  { h with }

/-- The operation as it starts: an upload gets its mode. -/
def Prepared (op op' : UploadOp) : Prop :=
  op' = op ∨ exists layer metadata mode mode',
    op = .uploadLayer layer metadata mode ∧ op' = .uploadLayer layer metadata mode'

theorem prepare_cases (q : UploadQueueInitialized) (op : UploadOp) :
    exists op' deleted, Prepared op op' ∧
      q.prepare op = (op', { q with recentlyDeleted := deleted }) := by
  cases op with
  | uploadLayer layer metadata mode =>
    simp only [UploadQueueInitialized.prepare]
    split_ifs
    · exact ⟨_, _, Or.inr ⟨layer, metadata, mode, _, rfl, rfl⟩, rfl⟩
    · exact ⟨_, q.recentlyDeleted, Or.inr ⟨layer, metadata, mode, _, rfl, rfl⟩, rfl⟩
  | delete d => exact ⟨_, _, Or.inl rfl, rfl⟩
  | _ => exact ⟨_, q.recentlyDeleted, Or.inl rfl, rfl⟩

variable {op : UploadOp} {before after : List UploadTask} {start : RemoteStorage}

theorem Prepared.canBypassAll_eq {op' : UploadOp} (h : Prepared op op') (index : IndexPart)
    (ops : List UploadOp) :
    op'.canBypassAll index ops = op.canBypassAll index ops := by
  rcases h with rfl | ⟨layer, metadata, mode, mode', rfl, rfl⟩
  · rfl
  · induction ops generalizing index with
    | nil => rfl
    | cons x xs ih =>
      simp only [canBypassAll, ih]
      cases x <;> rfl

variable (switches : UploadQueueSwitches)

open UploadQueueInitialized in
theorem launchQueuedTask_cases (q : UploadQueueInitialized) :
    exists q', q.launchQueuedTask switches = .ok q' ∧
      ((exists closed, q' = { q with shutdownReadyClosed := closed }) ∨
        (exists coalescedOps pre post, Taken q .barrier coalescedOps q' pre post) ∨
        exists op op' coalescedOps pre post deleted,
          Taken q op coalescedOps { q with queuedOperations := pre ++ post }
            pre post ∧ Prepared op op' ∧
          q' = addTask { q with
              queuedOperations := pre ++ post, recentlyDeleted := deleted }
            op' coalescedOps) := by
  rcases searched_nextReady switches q with ⟨r, q1, hok, hcases⟩
  rcases hcases with ⟨rfl, closed, rfl⟩ | ⟨op, coalescedOps, pre, post, rfl, htaken⟩
  · refine ⟨_, ?_, Or.inl ⟨closed, rfl⟩⟩
    simp only [launchQueuedTask, hok]
  · by_cases hbarrier : op = .barrier
    · rw [hbarrier] at htaken
      refine ⟨q1, ?_, Or.inr (Or.inl ⟨coalescedOps, pre, post, htaken⟩)⟩
      simp only [launchQueuedTask, hok, hbarrier, if_true]
    · rcases prepare_cases q1 op with ⟨op', deleted, hprepared, hprepare⟩
      have hleft := htaken.left
      rw [hleft] at htaken hprepare
      refine ⟨_, ?_, Or.inr (Or.inr ⟨op, op', coalescedOps, pre, post, deleted,
        htaken, hprepared, rfl⟩)⟩
      simp only [launchQueuedTask, hok, if_neg hbarrier, if_neg htaken.notShutdown, hleft, hprepare]

theorem TasksInv.addTask (h : TasksInv q) {coalescedOps pre : List UploadOp}
    (hbypass : op.canBypassAll q.clean.1 (q.inprogressTasks.map UploadTask.op ++ pre) = true) :
    TasksInv (q.addTask op coalescedOps) where
  distinct := pairwise_concat h.distinct
    (fun t ht => Nat.ne_of_lt (Nat.lt_succ_of_le (h.counted t ht)))
  counted := forall_mem_concat (fun t ht => (h.counted t ht).trans (Nat.le_succ _)) (le_refl _)
  cleanCounted := fun taskId hid => (h.cleanCounted taskId hid).trans (Nat.le_succ _)
  newer := forall_mem_concat h.newer
    (fun _ taskId hid => Nat.lt_succ_of_le (h.cleanCounted taskId hid))
  compatible := by
    simp only [UploadQueueInitialized.addTask, map_append]
    refine pairwise_concat h.compatible (fun x hx => ?_)
    have hop := compatible_of_mem hbypass (mem_append_left pre hx)
    exact Std.Symm.symm op x hop

theorem findTask_mem {taskId : Nat} (h : findTask q taskId = some task) :
    task ∈ q.inprogressTasks :=
  mem_of_find?_eq_some h

theorem filter_taskId (h : (before ++ task :: after).Pairwise (fun a b => a.taskId ≠ b.taskId)) :
    (before ++ task :: after).filter (fun t => t.taskId ≠ task.taskId) = before ++ after := by
  rcases pairwise_append.mp h with ⟨_, hafter, hcross⟩
  have hbefore : before.filter (fun t => t.taskId ≠ task.taskId) = before := by
    rw [filter_eq_self]
    intro t ht
    simpa using hcross t ht task (by simp)
  have hrest : after.filter (fun t => t.taskId ≠ task.taskId) = after := by
    rw [filter_eq_self]
    intro t ht
    simpa using (rel_of_pairwise_cons hafter ht).symm
  rw [filter_append, hbefore, filter_cons, hrest]
  simp

theorem TasksInv.index_alone (h : TasksInv q) {t : UploadTask}
    (hsplit : q.inprogressTasks = before ++ task :: after)
    (hindex : task.op.isUploadMetadata = true) (ht : t ∈ before ++ after) :
    t.op.isUploadMetadata = false := by
  have hpair := h.compatible
  rw [hsplit, map_append, map_cons,
    pairwise_middle (fun {a b} (hab : Compatible a b) =>
      Std.Symm.symm a b hab), ← map_append] at hpair
  rcases rel_of_pairwise_cons hpair (mem_map_of_mem ht) with
    ⟨index, hbypass⟩
  cases hop : task.op <;> cases htop : t.op <;> simp [hop, htop, isUploadMetadata, canBypass]
      at hindex hbypass ⊢

theorem completeTask_of_not_index (h : task.op.isUploadMetadata = false) :
    q.completeTask task = .ok { q with
        inprogressTasks := q.inprogressTasks.filter (fun t => t.taskId ≠ task.taskId) } ∧
      forall i, nextActiveIndex i task.op = i := by
  unfold UploadQueueInitialized.completeTask
  cases hop : task.op with
  | uploadMetadata i =>
    rw [hop] at h
    cases h
  | _ => exact ⟨rfl, fun _ => rfl⟩

theorem TasksInv.completeTask (h : TasksInv q) (htask : task ∈ q.inprogressTasks) :
    exists before after updater,
      q.inprogressTasks = before ++ task :: after ∧
      q.completeTask task = .ok { q with
        inprogressTasks := before ++ after
        clean := (nextActiveIndex q.clean.1 task.op, updater) } ∧
      TasksInv { q with
        inprogressTasks := before ++ after
        clean := (nextActiveIndex q.clean.1 task.op, updater) } := by
  rcases append_of_mem htask with ⟨before, after, hsplit⟩
  have hfilter := filter_taskId (hsplit ▸ h.distinct)
  rw [← hsplit] at hfilter
  have hsub : (before ++ after).Sublist q.inprogressTasks := by
    rw [hsplit]
    exact (sublist_cons_self _ _).append_left before
  have hmem : forall t, t ∈ before ++ after -> t ∈ q.inprogressTasks :=
    fun t ht => hsub.subset ht
  have hdistinct := h.distinct.sublist hsub
  have hcompatible := h.compatible.sublist (hsub.map UploadTask.op)
  cases hindex : task.op.isUploadMetadata with
  | false =>
    rcases completeTask_of_not_index (q := q) hindex with ⟨hok, hclean⟩
    refine ⟨before, after, q.clean.2, hsplit, ?_, ?_⟩
    · rw [hok, hfilter, hclean]
    · exact ⟨hdistinct, fun t ht => h.counted t (hmem t ht), h.cleanCounted,
        fun t ht => h.newer t (hmem t ht), hcompatible⟩
  | true =>
    have hnewer := h.newer task htask hindex
    refine ⟨before, after, some task.taskId, hsplit, ?_, hdistinct,
      fun t ht => h.counted t (hmem t ht), ?_, ?_, hcompatible⟩
    · unfold UploadQueueInitialized.completeTask
      cases hop : task.op <;> simp only [hop, isUploadMetadata, Bool.false_eq_true] at hindex
      cases hclean : q.clean.2 with
      | none =>
        simp only [hfilter]
        rfl
      | some taskId =>
        simp only [hfilter, hnewer taskId hclean]
        rfl
    · intro taskId hid
      cases hid
      exact h.counted task htask
    · intro t ht hmeta
      rw [h.index_alone hsplit hindex ht] at hmeta
      cases hmeta

/-- The tasks are in order, and remote storage is consistent if the callers are. -/
structure Inv (start : RemoteStorage) (s : RemoteTimeline) : Prop where
  tasks : TasksInv s.queue
  consistent : Orderly start s.enqueued ->
    Consistent start s.enqueued s.queue.clean.1 s.running s.queued s.remote

theorem inv_initial (hstart : forall path, start.index.Lists path -> start.Has path)
    (inprogressLimit : Nat) : Inv start (initial start inprogressLimit) :=
  ⟨tasksInv_fresh start.index inprogressLimit, fun _ => Consistent.initial hstart⟩

section Step

variable {start : RemoteStorage} {s : RemoteTimeline}

section

variable (h : Inv start s)

include h

theorem Inv.enqueue (op : UploadOp) :
    Inv start { s with
      queue := { s.queue with
        queuedOperations := s.queue.queuedOperations ++ [op] }
      enqueued := s.enqueued ++ [op] } where
  tasks := h.tasks.same _ _ _
  consistent := fun horderly =>
    (h.consistent horderly.of_append).enqueue horderly

theorem Inv.rehash {tasks : List UploadTask} (hperm : tasks.Perm s.queue.inprogressTasks) :
    Inv start { s with queue := { s.queue with inprogressTasks := tasks } } where
  tasks := h.tasks.perm hperm
  consistent := by
    intro horderly
    have hmap := hperm.map UploadTask.op
    have hcompatible := (h.tasks.perm hperm).compatible
    have hcons := h.consistent horderly
    refine hcons.rerun hmap.subset ?_ ?_ (Or.inl rfl)
      (hcons.index.imp_right (fun hi => hmap.mem_iff.mpr hi))
    · exact foldl_perm_of_commutes (hcompatible.imp Compatible.perform) hmap s.remote
    · exact foldl_perm_of_commutes (hcompatible.imp Compatible.nextActiveIndex) hmap s.queue.clean.1

theorem Inv.launch (switches : UploadQueueSwitches) :
    exists q, s.queue.launchQueuedTask switches = .ok q ∧
      Inv start { s with queue := q } := by
  rcases launchQueuedTask_cases switches s.queue with ⟨q, hok, hcases⟩
  refine ⟨q, hok, ?_⟩
  rcases hcases with ⟨closed, rfl⟩ | ⟨coalescedOps, pre, post, htaken⟩ |
    ⟨op, op', coalescedOps, pre, post, deleted, htaken, hprepared, rfl⟩
  · exact ⟨h.tasks.same _ _ _, h.consistent⟩
  · have hleft := htaken.left
    subst hleft
    refine ⟨h.tasks.same _ _ _, ?_⟩
    intro horderly
    have hold := h.consistent horderly
    rw [queued, htaken.queued] at hold
    exact (hold.dropAll htaken.coalesced htaken.last).skip (Or.inl rfl)
  · have hbypass := htaken.bypasses
    rw [← hprepared.canBypassAll_eq] at hbypass
    constructor
    · exact (h.tasks.same (pre ++ post) deleted _).addTask hbypass
    · intro horderly
      have hold := h.consistent horderly
      rw [queued, htaken.queued] at hold
      have hready := hold.dropAll htaken.coalesced htaken.last
      have hready' : Consistent start s.enqueued s.queue.clean.1 s.running
          (pre ++ op' :: post) s.remote := by
        rcases hprepared with rfl | ⟨layer, metadata, mode, mode', rfl, rfl⟩
        · exact hready
        · exact hready.setMode
      have hnew := hready'.launch hbypass
      simpa [running, queued, UploadQueueInitialized.addTask] using hnew

theorem Inv.attempt (htask : task ∈ s.queue.inprogressTasks) :
    Inv start { s with remote := s.remote.perform task.op } where
  tasks := h.tasks
  consistent := fun horderly =>
    (h.consistent horderly).perform
      (h.tasks.compatible.imp Compatible.perform) (mem_map_of_mem htask)

theorem Inv.complete (htask : task ∈ s.queue.inprogressTasks) :
    exists q, s.queue.completeTask task = .ok q ∧
      Inv start { s with queue := q, remote := s.remote.perform task.op } := by
  rcases h.tasks.completeTask htask with
    ⟨before, after, updater, hsplit, hok, htasks⟩
  refine ⟨_, hok, htasks, ?_⟩
  intro horderly
  have hdone := (h.attempt htask).consistent horderly
  have hrunning : s.running = before.map UploadTask.op ++ task.op :: after.map UploadTask.op := by
    rw [running, hsplit, map_append, map_cons]
  have hcompatible : forall x, x ∈ before.map UploadTask.op ->
      Compatible task.op x := by
    intro x hx
    have hpair := h.tasks.compatible
    rw [hsplit, map_append] at hpair
    have hcross := (pairwise_append.mp hpair).2.2 x hx task.op (by simp)
    exact Std.Symm.symm x task.op hcross
  simp only [running, map_append] at hdone ⊢
  change Consistent start s.enqueued s.queue.clean.1 s.running
    s.queue.queuedOperations (s.remote.perform task.op) at hdone
  rw [hrunning] at hdone
  exact hdone.retire (perform_idem s.remote task.op) (fun x hx => (hcompatible x hx).perform)
    (fun x hx => (hcompatible x hx).nextActiveIndex)

end

/-- No step fails an assertion, and every step keeps the invariant. -/
theorem inv_step (switches : UploadQueueSwitches) (h : Inv start s) (a : Action) :
    exists s', step switches s a = .ok s' ∧ Inv start s' := by
  cases a with
  | enqueue op => exact ⟨_, rfl, h.enqueue op⟩
  | rehash tasks =>
    simp only [step]
    split_ifs with hperm
    · exact ⟨_, rfl, h.rehash hperm⟩
    · exact ⟨s, rfl, h⟩
  | launch =>
    rcases h.launch switches with ⟨q, hok, hinv⟩
    refine ⟨_, ?_, hinv⟩
    simp only [step, hok]
  | attempt taskId =>
    simp only [step]
    cases htask : findTask s.queue taskId with
    | none => exact ⟨s, rfl, h⟩
    | some task => exact ⟨_, rfl, h.attempt (findTask_mem htask)⟩
  | complete taskId =>
    cases htask : findTask s.queue taskId with
    | none =>
      refine ⟨s, ?_, h⟩
      simp only [step, htask]
    | some task =>
      rcases h.complete (findTask_mem htask) with ⟨q, hok, hinv⟩
      refine ⟨_, ?_, hinv⟩
      simp only [step, htask, hok]

end Step

/-!
## Runs
-/

theorem inv_run {s s' : RemoteTimeline}
    {actions : List Action} (hs : Inv start s)
    (hrun : actions.foldlM (step switches) s = .ok s') : Inv start s' := by
  refine foldlM_invariant ?_ hs hrun
  intro s1 a s2 hinv hstep
  rcases inv_step switches hinv a with ⟨s3, hok, hinv'⟩
  rw [hok] at hstep
  cases hstep
  exact hinv'

/--
Whatever the schedule, the files that the stored index and a running index
upload list are in remote storage and are not being deleted.  A queue that has
run empty has left what its operations leave in order.
-/
theorem remote_consistent
    {start : RemoteStorage}
    (hstart : forall path, start.index.Lists path -> start.Has path)
    {inprogressLimit : Nat} {actions : List Action} {s : RemoteTimeline}
    (hrun : actions.foldlM (step switches) (initial start inprogressLimit) =
      .ok s) (horderly : Orderly start s.enqueued) :
    (forall i, i = s.remote.index ∨ .uploadMetadata i ∈ s.running ->
      forall path, i.Lists path ->
        s.remote.Has path ∧ Not (s.BeingDeleted path)) ∧
    (s.queue.noPendingWork = true ->
      s.remote = start.performAll s.enqueued) := by
  have hinv := inv_run switches (inv_initial hstart inprogressLimit) hrun
  have hcons := hinv.consistent horderly
  constructor
  · intro i hi path hlists
    have hneeded : i = s.queue.clean.1 ∨ .uploadMetadata i ∈ s.running := by
      cases hi with
      | inl hi =>
        rw [hi]
        exact hcons.index
      | inr hi => exact Or.inr hi
    refine ⟨hcons.stored i hneeded path hlists, ?_⟩
    intro hdeleted
    rcases hdeleted with ⟨d, hd, hpath⟩
    have hgone := hcons.launched d hd path hpath
    cases hneeded with
    | inl hi =>
      rw [hi] at hlists
      exact hgone.1 hlists
    | inr hi => exact hgone.2 i (mem_append_left s.queued hi) hlists
  · intro hdrained
    simp only [UploadQueueInitialized.noPendingWork, Bool.and_eq_true, List.isEmpty_iff] at hdrained
    have heffect := hcons.effect
    simpa [running, queued, hdrained.1, hdrained.2] using heffect

def sampleLayer : ResidentLayer :=
  { layerName := .image ⟨⟨Key.MIN, Key.MAX⟩, 16⟩, file := [1, 2, 3] }

def sampleMetadata : LayerFileMetadata :=
  { fileSize := 3, generation := .valid 1, shard := ⟨0, 0⟩ }

def sampleIndex : IndexPart :=
  ⟨[(sampleLayer.layerName, sampleMetadata)], 16⟩

def emptyStorage : RemoteStorage :=
  { layers := fun _ => none, index := ⟨[], 0⟩ }

def replacingLayer : ResidentLayer :=
  { layerName := .image ⟨⟨Key.MIN, Key.MAX⟩, 24⟩, file := [4] }

/-- A layer is uploaded and listed; then it is not listed any more and deleted. -/
def sampleOps : List UploadOp :=
  [.uploadLayer sampleLayer sampleMetadata none, .uploadMetadata sampleIndex,
    .uploadMetadata ⟨[], 24⟩, .delete ⟨[(sampleLayer.layerName, sampleMetadata)]⟩,
    .uploadLayer replacingLayer sampleMetadata none]

/-- The last upload bypasses all but the first one, and the first index is left out. -/
def sampleActions : List Action :=
  sampleOps.map .enqueue ++ [.launch, .launch, .complete 2, .complete 1, .launch, .launch,
    .complete 4, .complete 3]

def sampleEnd : RemoteTimeline :=
  { queue :=
      { inprogressLimit := 0
        taskCounter := 4
        clean := (⟨[], 24⟩, some 3)
        inprogressTasks := []
        queuedOperations := []
        recentlyDeleted := [(sampleLayer.layerName, .valid 1)]
        shutdownReadyClosed := false }
    remote := emptyStorage.performAll
      [.uploadLayer replacingLayer sampleMetadata none,
        .uploadLayer sampleLayer sampleMetadata none,
        .delete ⟨[(sampleLayer.layerName, sampleMetadata)]⟩, .uploadMetadata ⟨[], 24⟩]
    enqueued := sampleOps }

theorem not_lists_nil (lsn : Lsn) (path : RemoteLayerPath) :
    Not ((IndexPart.mk [] lsn).Lists path) := by
  rintro ⟨metadata, hlookup, _⟩
  cases hlookup

theorem remote_consistent_sampleEnd :
    (forall i, i = sampleEnd.remote.index ∨ .uploadMetadata i ∈ sampleEnd.running ->
      forall path, i.Lists path ->
        sampleEnd.remote.Has path ∧ Not (sampleEnd.BeingDeleted path)) ∧
    (sampleEnd.queue.noPendingWork = true ->
      sampleEnd.remote = emptyStorage.performAll sampleEnd.enqueued) := by
  have hrun : sampleActions.foldlM (step ⟨false, false⟩) (initial emptyStorage 0) =
      .ok sampleEnd := rfl
  have horderly : Orderly emptyStorage sampleEnd.enqueued := by
    refine ⟨⟨trivial, ?_, fun path h => absurd h (not_lists_nil _ path),
      fun path _ => not_lists_nil _ path, trivial, trivial⟩, ?_⟩
    · intro path hlists
      rw [IndexPart.lists_singleton_iff.mp hlists]
      simp [Has, RemoteStorage.perform]
    · simp [sampleEnd, sampleOps, NotListedLater]
  exact remote_consistent ⟨false, false⟩ (fun path h => absurd h (not_lists_nil 0 path)) hrun
    horderly

/-!
## The queue never gets stuck
-/

/-- Nothing is left to do, unless it is queued behind a shutdown. -/
def Drained (q : UploadQueueInitialized) : Prop :=
  q.inprogressTasks = [] ∧ forall op, q.queuedOperations.head? = some op -> op = .shutdown

end RemoteTimeline

end Pageserver
end OpenNeon

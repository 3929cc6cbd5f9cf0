import OpenNeon.Base.System
import OpenNeon.StorageController.ComputeHook

/-!
# Compute notifications are neither lost nor reordered

As long as a tenant has one send lock, only its holder has a request under way, so
what the lock remembers as applied is what the control plane applied last.  A call
that finds the lock taken waits for it and then sends what the hook knows by then.
-/

namespace OpenNeon
namespace StorageController

open Base ComputeHookTenant List Function Option

/-!
## The latest update of a shard
-/

variable {updates : List ShardUpdate}

variable {u : ShardUpdate} {count : Nat} {number : ShardNumber}

theorem latestNode_cons_self :
    latestNode (u :: updates) u.shardCount.count u.shardNumber = some u.nodeId := by
  simp [latestNode]

theorem latestNode_unsharded (hu : u.shardNumber < u.shardCount.count)
    (hcount : u.shardCount.count = 1) : latestNode (u :: updates) 1 0 = some u.nodeId := by
  rw [← hcount, ← Nat.lt_one_iff.mp (hcount ▸ hu)]
  exact latestNode_cons_self

theorem latestNode_cons_of_ne (hne : number ≠ u.shardNumber) :
    latestNode (u :: updates) count number = latestNode updates count number := by
  simp [latestNode, hne.symm]

theorem exists_of_latestNode {node : NodeId} (h : latestNode updates count number = some node) :
    exists u, u ∈ updates ∧ u.shardCount.count = count ∧ u.shardNumber = number ∧
      u.nodeId = node := by
  obtain ⟨u, hu, hnode⟩ := map_eq_some_iff.mp h
  have hmatch := find?_some hu
  rw [Bool.and_eq_true, decide_eq_true_eq, decide_eq_true_eq] at hmatch
  exact ⟨u, mem_of_find?_eq_some hu, hmatch.1, hmatch.2, hnode⟩

/-!
## The locations of the shards
-/

section Shards

variable {number : ShardNumber} {node : NodeId} {shards : List (ShardNumber × NodeId)}

theorem replaceShard_eq_none (h : replaceShard number node shards = none) :
    number ∉ shards.map Prod.fst := by
  induction shards with
  | nil => simp
  | cons s rest ih =>
    unfold replaceShard at h
    split at h
    · cases h
    next hne =>
      rw [map_cons, mem_cons, not_or]
      exact ⟨Ne.symm hne, ih (map_eq_none_iff.mp h)⟩

variable {shards' : List (ShardNumber × NodeId)} {s : ShardNumber × NodeId}
  {numbers : List ShardNumber} {count : Nat}

theorem map_fst_replaceShard (h : replaceShard number node shards = some shards') :
    shards'.map Prod.fst = shards.map Prod.fst := by
  induction shards generalizing shards' with
  | nil => cases h
  | cons s rest ih =>
    unfold replaceShard at h
    split at h
    · cases h
      rfl
    · obtain ⟨rest', hrest, rfl⟩ := map_eq_some_iff.mp h
      rw [map_cons, map_cons, ih hrest]

section

variable (hnodup : (shards.map Prod.fst).Nodup)

include hnodup

theorem mem_replaceShard (h : replaceShard number node shards = some shards') (hs : s ∈ shards') :
    s = (number, node) ∨ (s.1 ≠ number ∧ s ∈ shards) := by
  induction shards generalizing shards' with
  | nil => cases h
  | cons head rest ih =>
    rw [map_cons, nodup_cons] at hnodup
    unfold replaceShard at h
    split at h
    next hhead =>
      cases h
      rcases mem_cons.mp hs with heq | hs
      · exact Or.inl (by rw [heq, hhead])
      · refine Or.inr ⟨fun heq => hnodup.1 ?_, mem_cons_of_mem _ hs⟩
        rw [hhead, ← heq]
        exact mem_map_of_mem hs
    next hne =>
      obtain ⟨rest', hrest, rfl⟩ := map_eq_some_iff.mp h
      rcases mem_cons.mp hs with heq | hs
      · exact Or.inr (by rw [heq]; exact ⟨hne, mem_cons_self⟩)
      · exact (ih hnodup.2 hrest hs).imp_right (fun hs => ⟨hs.1, mem_cons_of_mem _ hs.2⟩)

theorem nodup_setShard : ((setShard shards number node).map Prod.fst).Nodup := by
  unfold setShard
  cases hreplace : replaceShard number node shards with
  | some shards' =>
    rw [getD_some, map_fst_replaceShard hreplace]
    exact hnodup
  | none =>
    rw [getD_none, ((perm_insertionSort _ _).map Prod.fst).nodup_iff, map_append, nodup_append]
    refine ⟨hnodup, by simp, ?_⟩
    intro a ha b hb heq
    rw [map_singleton, mem_singleton] at hb
    have hnumber : a = number := heq.trans hb
    exact replaceShard_eq_none hreplace (hnumber ▸ ha)

theorem mem_setShard (hs : s ∈ setShard shards number node) :
    s = (number, node) ∨ (s.1 ≠ number ∧ s ∈ shards) := by
  unfold setShard at hs
  cases hreplace : replaceShard number node shards with
  | some shards' =>
    rw [hreplace] at hs
    exact mem_replaceShard hnodup hreplace hs
  | none =>
    rw [hreplace, getD_none, mem_insertionSort, mem_append] at hs
    rcases hs with hs | hs
    · refine Or.inr ⟨fun heq => replaceShard_eq_none hreplace ?_, hs⟩
      rw [← heq]
      exact mem_map_of_mem hs
    · exact Or.inl (mem_singleton.mp hs)

end

/-- Distinct numbers below the count are all of them if and only if there are that many. -/
theorem length_eq_iff (hnodup : numbers.Nodup) (hlt : forall n, n ∈ numbers -> n < count) :
    numbers.length = count <-> forall n, n < count -> n ∈ numbers := by
  have hsub : numbers <+~ range count := hnodup.subperm (fun n hn => mem_range.mpr (hlt n hn))
  constructor
  · intro hlength n hn
    have hperm := hsub.perm_of_length_le (by rw [length_range, hlength])
    exact hperm.mem_iff.mpr (mem_range.mpr hn)
  · intro hall
    have hsup : range count <+~ numbers :=
      nodup_range.subperm (fun n hn => hall n (mem_range.mp hn))
    rw [(hsub.antisymm hsup).length_eq, length_range]

theorem filter_shard_eq (hnodup : (shards.map Prod.fst).Nodup) (hmem : (number, node) ∈ shards) :
    (shards.map (fun s => NotifyAttachRequestShard.mk s.2 s.1)).filter
      (fun s => decide (s.shardNumber = number)) = [⟨node, number⟩] := by
  have hkey : forall s, s ∈ shards -> decide (s.1 = number) = (s == (number, node)) := by
    intro s hs
    rw [Bool.eq_iff_iff, decide_eq_true_eq, beq_iff_eq]
    exact ⟨inj_on_of_nodup_map hnodup hs hmem, congrArg Prod.fst⟩
  rw [List.filter_map, comp_def, filter_congr hkey, filter_beq,
    count_eq_one_of_mem (hnodup.of_map _) hmem]
  rfl

end Shards

/-!
## The collected state and its request
-/

namespace ComputeHookTenant

/-- Every location is the one of the latest update, and no shard has two. -/
def Wf (t : ComputeHookTenant) (updates : List ShardUpdate) : Prop :=
  match t with
  | .unsharded s => latestNode updates 1 0 = some s.nodeId
  | .sharded s =>
    (s.shards.map Prod.fst).Nodup ∧
      forall number node, (number, node) ∈ s.shards ->
        number < s.shardCount.count ∧ latestNode updates s.shardCount.count number = some node

variable {t : ComputeHookTenant} {u : ShardUpdate} {updates : List ShardUpdate}
  {lock : LockId}

theorem wf_new (hu : u.shardNumber < u.shardCount.count) : (new u lock).Wf (u :: updates) := by
  unfold new
  split
  · refine ⟨by simp, ?_⟩
    intro number node hmem
    rw [mem_singleton] at hmem
    cases hmem
    exact ⟨hu, latestNode_cons_self⟩
  next hone =>
    have hcount : u.shardCount.count = 1 :=
      le_antisymm (not_lt.mp hone) (Nat.one_le_of_lt hu)
    exact latestNode_unsharded hu hcount

theorem getSendLock_new : (new u lock).getSendLock = lock := by
  unfold new
  split <;> rfl

theorem update_of_accepts (h : t.Wf updates) (hu : u.shardNumber < u.shardCount.count)
    (haccepts : t.accepts u = true) :
    (t.update u lock).Wf (u :: updates) ∧ (t.update u lock).getSendLock = t.getSendLock := by
  cases t with
  | unsharded s =>
    have hcount := decide_eq_true_eq.mp haccepts
    unfold update
    dsimp only
    rw [if_pos hcount]
    exact ⟨latestNode_unsharded hu hcount, rfl⟩
  | sharded s =>
    unfold accepts at haccepts
    rw [Bool.and_eq_true, decide_eq_true_eq, decide_eq_true_eq] at haccepts
    obtain ⟨hnodup, hlatest⟩ := h
    unfold update
    dsimp only
    rw [if_pos haccepts]
    refine ⟨⟨nodup_setShard hnodup, ?_⟩, rfl⟩
    intro number node hmem
    rw [haccepts.2] at hlatest ⊢
    rcases mem_setShard hnodup hmem with heq | ⟨hne, hmem⟩
    · cases heq
      exact ⟨hu, latestNode_cons_self⟩
    · rw [latestNode_cons_of_ne hne]
      exact hlatest number node hmem

theorem update_of_not_accepts (h : t.accepts u = false) : t.update u lock = new u lock := by
  cases t with
  | unsharded s => exact if_neg (decide_eq_false_iff_not.mp h)
  | sharded s =>
    refine if_neg (fun hsame => ?_)
    unfold accepts at h
    simp [hsame.1, hsame.2] at h

variable {r : NotifyAttachRequest}

theorem listsLatest_of_request (h : t.Wf updates) (hr : t.request = some r) :
    r.ListsLatest updates t.count := by
  cases t with
  | unsharded s =>
    cases hr
    constructor
    · intro number hnumber
      have hzero : number = 0 := Nat.lt_one_iff.mp hnumber
      subst hzero
      exact ⟨s.nodeId, h, rfl⟩
    · intro shard hshard
      rw [mem_singleton.mp hshard]
      exact Nat.one_pos
  | sharded s =>
    obtain ⟨hnodup, hlatest⟩ := h
    have hlt : forall n, n ∈ s.shards.map Prod.fst -> n < s.shardCount.count := by
      intro n hn
      obtain ⟨shard, hshard, rfl⟩ := mem_map.mp hn
      exact (hlatest shard.1 shard.2 hshard).1
    unfold request at hr
    dsimp only at hr
    split at hr
    next hlength =>
      cases hr
      constructor
      · intro number hnumber
        have hmem := (length_eq_iff hnodup hlt).mp (by rw [length_map, hlength]) number hnumber
        obtain ⟨shard, hshard, rfl⟩ := mem_map.mp hmem
        exact ⟨shard.2, (hlatest shard.1 shard.2 hshard).2, filter_shard_eq hnodup hshard⟩
      · intro shard hshard
        obtain ⟨entry, hentry, rfl⟩ := mem_map.mp hshard
        exact hlt _ (mem_map_of_mem hentry)
    · cases hr

theorem exists_request (h : t.Wf updates)
    (hall : forall number, number < t.count -> t.Locates number) :
    exists r, t.request = some r := by
  cases t with
  | unsharded s => exact ⟨_, rfl⟩
  | sharded s =>
    obtain ⟨hnodup, hlatest⟩ := h
    have hlength : s.shards.length = s.shardCount.count := by
      rw [← length_map Prod.fst]
      refine (length_eq_iff hnodup (fun n hn => ?_)).mpr (fun n hn => ?_)
      · obtain ⟨shard, hshard, rfl⟩ := mem_map.mp hn
        exact (hlatest shard.1 shard.2 hshard).1
      · obtain ⟨node, hmem⟩ := hall n hn
        exact mem_map_of_mem hmem
    exact ⟨_, if_pos hlength⟩

variable {remote : Option ComputeRemoteState}

theorem remote_of_maybeSend_eq_none (h : t.maybeSend remote = none) (hr : t.request = some r) :
    remote = some ⟨r, true⟩ := by
  unfold maybeSend at h
  rw [hr] at h
  dsimp only at h
  split at h
  next hmatch =>
    cases remote with
    | none => cases hmatch.1
    | some state =>
      obtain ⟨request, applied⟩ := state
      have hrequest : request = r := Option.some.inj hmatch.1
      have happlied : applied = true := hmatch.2
      rw [hrequest, happlied]
  · cases h

theorem request_of_maybeSend (h : t.maybeSend remote = some r) : t.request = some r := by
  unfold maybeSend at h
  split at h
  · cases h
  next hr =>
    split at h
    · cases h
    · rw [hr, h]

end ComputeHookTenant

namespace NotifyAttachRequest

variable {r : NotifyAttachRequest}

theorem ListsLatest.ofOneCount {count : Nat} (h : r.ListsLatest updates count)
    (hcount : 0 < count) : r.OfOneCount updates := by
  refine ⟨count, hcount, ?_, ?_⟩
  · intro number hnumber
    obtain ⟨node, _, hentries⟩ := h.each number hnumber
    rw [hentries]
    rfl
  · intro s hs
    obtain ⟨node, hlatest, hentries⟩ := h.each s.shardNumber (h.others s hs)
    have hmem : s ∈ r.entries s.shardNumber := mem_filter.mpr ⟨hs, by simp⟩
    rw [hentries, mem_singleton] at hmem
    have hnode : s.nodeId = node := by rw [hmem]
    obtain ⟨u, hu, hcount, hnumber, hnode'⟩ := exists_of_latestNode hlatest
    exact ⟨h.others s hs, u, hu, hcount, hnumber, by rw [hnode', hnode]⟩

theorem OfOneCount.mono {updates' : List ShardUpdate} (h : r.OfOneCount updates)
    (hsub : forall u, u ∈ updates -> u ∈ updates') :
    r.OfOneCount updates' := by
  obtain ⟨count, hcount, hall, hfrom⟩ := h
  refine ⟨count, hcount, hall, ?_⟩
  intro s hs
  obtain ⟨hlt, u, hu, hrest⟩ := hfrom s hs
  exact ⟨hlt, u, hsub u hu, hrest⟩

end NotifyAttachRequest

/-!
## Who holds the lock
-/

namespace ComputeHook

section

variable (s : ComputeHook) (t : ComputeHookTenant)

/-- The call is not there, or it waits for the lock of the collected state. -/
def Waits (id : CallId) : Prop :=
  forall phase, s.calls id = some phase -> phase = .waiting t.getSendLock

/-- What the lock remembers as applied was applied last. -/
def Remembers : Prop :=
  forall r, (s.locks t.getSendLock).remote = some ⟨r, true⟩ -> s.applied = some r

/-- The collected state is well formed and its lock is an old one. -/
structure Collected : Prop where
  tenant : s.tenant = some t
  wf : t.Wf s.updates
  old : t.getSendLock < s.nextLock

/-- No call holds the lock; after a success it remembers the collected state's request. -/
structure Free : Prop where
  waits : forall id, s.Waits t id
  holder : (s.locks t.getSendLock).holder = none
  remembers : s.Remembers t
  done : s.returned = some (.ok ()) -> s.Quiet -> forall r, t.request = some r ->
    (s.locks t.getSendLock).remote = some ⟨r, true⟩

/-- A call holds the lock and has not looked at the collected state yet. -/
structure Locked (id : CallId) : Prop where
  call : s.calls id = some (.locked t.getSendLock)
  waits : forall id', id' ≠ id -> s.Waits t id'
  holder : (s.locks t.getSendLock).holder = some id
  remembers : s.Remembers t

/-- A call sends a request, that of the collected state unless another call waits. -/
structure Sending (id : CallId)
    (r : NotifyAttachRequest) (attempts : Nat) (attempt : Attempt) : Prop where
  call : s.calls id = some (.transmitting r t.getSendLock attempts attempt)
  waits : forall id', id' ≠ id -> s.Waits t id'
  holder : (s.locks t.getSendLock).holder = some id
  landed : attempt = .sent true -> s.applied = some r
  current : t.request = some r ∨ exists id' lock, s.calls id' = some (.waiting lock)
  complete : r.OfOneCount s.updates

end

inductive Inv (s : ComputeHook) : Prop where
  | empty (htenant : s.tenant = none) (hquiet : s.Quiet)
  | free {t : ComputeHookTenant} (hcollected : s.Collected t) (h : s.Free t)
  | locked {t : ComputeHookTenant} (id : CallId) (hcollected : s.Collected t)
      (h : s.Locked t id)
  | sending {t : ComputeHookTenant} (id : CallId) {r : NotifyAttachRequest} {attempts : Nat}
      {attempt : Attempt} (hcollected : s.Collected t)
      (h : s.Sending t id r attempts attempt)

section Steps

variable {s : ComputeHook} {id : CallId} {t : ComputeHookTenant} {r : NotifyAttachRequest}
  {lock : LockId} {attempts : Nat} {attempt : Attempt}

variable {phase : Option CallPhase}

theorem calls_setCall_self : (s.setCall id phase).calls id = phase :=
  update_self _ _ _

variable {id' : CallId} {s' : ComputeHook}

theorem calls_setCall_of_ne (hne : id' ≠ id) : (s.setCall id phase).calls id' = s.calls id' :=
  update_of_ne hne _ _

theorem locks_setLock_self {value : SendLock} : (s.setLock lock value).locks lock = value :=
  update_self _ _ _

theorem waits_setCall_of_ne (hne : id' ≠ id) (h : s.Waits t id') :
    (s.setCall id phase).Waits t id' :=
  fun p hp => h p ((calls_setCall_of_ne hne).symm.trans hp)

theorem waits_setCall_none (h : forall id', id' ≠ id -> s.Waits t id') (id' : CallId) :
    (s.setCall id none).Waits t id' := by
  by_cases hid : id' = id
  · rw [hid]
    intro phase hphase
    exact nomatch calls_setCall_self.symm.trans hphase
  · exact waits_setCall_of_ne hid (h id' hid)

theorem waits_setCall_waiting (h : s.Waits t id) (id' : CallId) :
    (s.setCall id' (some (.waiting t.getSendLock))).Waits t id := by
  by_cases hid : id = id'
  · rw [hid]
    intro phase hphase
    exact (Option.some.inj (calls_setCall_self.symm.trans hphase)).symm
  · exact waits_setCall_of_ne hid h

theorem inv_proceed (hcollected : s.Collected t) (hwaits : forall id', id' ≠ id -> s.Waits t id')
    (hremembers : s.Remembers t) : (s.proceed id t.getSendLock).Inv := by
  unfold proceed
  rw [hcollected.tenant]
  dsimp only
  split
  next hsend =>
    refine .free { hcollected with } ?_
    have hlock : (s.finish id t.getSendLock (s.locks t.getSendLock).remote (.ok ())).locks
        t.getSendLock = ⟨(s.locks t.getSendLock).remote, none⟩ := update_self _ _ _
    constructor
    · exact waits_setCall_none hwaits
    · rw [hlock]
    · intro r hr
      rw [hlock] at hr
      exact hremembers r hr
    · intro _ _ r hr
      rw [hlock]
      exact remote_of_maybeSend_eq_none hsend hr
  next r hsend =>
    have hr := request_of_maybeSend hsend
    have hlists := listsLatest_of_request hcollected.wf hr
    have hsending : Sending ((s.setCall id (some (.transmitting r t.getSendLock 0 .idle))).setLock
        t.getSendLock ⟨(s.locks t.getSendLock).remote, some id⟩) t id r 0 .idle := by
      refine ⟨calls_setCall_self, ?_, ?_, (fun hattempt => nomatch hattempt), Or.inl hr,
        hlists.ofOneCount (ComputeHookTenant.count_pos _)⟩
      · exact fun id' hne => waits_setCall_of_ne hne (hwaits id' hne)
      · rw [locks_setLock_self]
    exact .sending id { hcollected with } hsending

theorem Sending.ne_of_waiting (h : s.Sending t id r attempts attempt)
    (hwaiting : s.calls id' = some (.waiting lock)) : id' ≠ id := by
  rintro rfl
  cases h.call.symm.trans hwaiting

theorem Sending.inv_finish (hcollected : s.Collected t)
    (h : s.Sending t id r attempts attempt) (result : Except NotifyError Unit)
    (happlied : result = .ok () -> s.applied = some r) :
    (s.finish id t.getSendLock (remoteAfter r result) result).Inv := by
  have hlock : (s.finish id t.getSendLock (remoteAfter r result) result).locks
      t.getSendLock = ⟨remoteAfter r result, none⟩ := update_self _ _ _
  have hremote : forall r', remoteAfter r result = some ⟨r', true⟩ ->
      result = .ok () ∧ r' = r := by
    intro r' hr'
    cases result with
    | ok u =>
      cases hr'
      exact ⟨rfl, rfl⟩
    | error e => cases e <;> cases hr'
  refine .free { hcollected with } ?_
  constructor
  · exact waits_setCall_none h.waits
  · rw [hlock]
  · intro r' hr'
    rw [hlock] at hr'
    obtain ⟨hok, heq⟩ := hremote r' hr'
    rw [heq]
    exact happlied hok
  · intro hreturned hquiet r' hr'
    have hok : result = .ok () := Option.some.inj hreturned
    rw [hlock, hok]
    rcases h.current with hcurrent | ⟨id', lock', hwaiting⟩
    · rw [hcurrent] at hr'
      cases hr'
      rfl
    · have hnone := hquiet id'
      rw [show (s.finish id t.getSendLock (remoteAfter r result) result).calls id' = s.calls id'
        from calls_setCall_of_ne (h.ne_of_waiting hwaiting), hwaiting] at hnone
      cases hnone

theorem Sending.setCall (h : s.Sending t id r attempts attempt) {attempts' : Nat}
    {attempt' : Attempt} (hlanded : attempt' = .sent true -> s.applied = some r) :
    (s.setCall id (some (.transmitting r t.getSendLock attempts' attempt'))).Sending t id r
      attempts' attempt' := by
  refine ⟨calls_setCall_self, fun id' hne => waits_setCall_of_ne hne (h.waits id' hne),
    h.holder, hlanded, ?_, h.complete⟩
  refine h.current.imp_right ?_
  rintro ⟨id', lock', hwaiting⟩
  exact ⟨id', lock', (calls_setCall_of_ne (h.ne_of_waiting hwaiting)).trans hwaiting⟩

/-!
Which case of the invariant holds can be read off the phase of a call.
-/

theorem Collected.eq_of_tenant {t' : ComputeHookTenant} (h : s.Collected t)
    (h' : s.tenant = some t') : t' = t :=
  Option.some.inj (h'.symm.trans h.tenant)

theorem Inv.collected (h : s.Inv) (ht : s.tenant = some t) : s.Collected t := by
  cases h with
  | empty htenant _ => exact nomatch htenant.symm.trans ht
  | free hcollected _
  | locked _ hcollected _
  | sending _ hcollected _ => exact hcollected.eq_of_tenant ht ▸ hcollected

/-- What a call in this phase has to do with the lock of the collected state. -/
def InPhase (s : ComputeHook) (t : ComputeHookTenant) (id : CallId) : CallPhase -> Prop
  | .waiting lock => lock = t.getSendLock
  | .locked lock => lock = t.getSendLock ∧ s.Locked t id
  | .transmitting r lock attempts attempt =>
    lock = t.getSendLock ∧ s.Sending t id r attempts attempt

theorem Inv.inPhase {phase : CallPhase} (h : s.Inv) (hcall : s.calls id = some phase) :
    exists t, s.Collected t ∧ s.InPhase t id phase := by
  have hwaiting : forall {t}, s.Waits t id -> s.InPhase t id phase := by
    intro t hwaits
    rw [hwaits phase hcall]
    rfl
  cases h with
  | empty _ hquiet => exact nomatch (hquiet id).symm.trans hcall
  | free hcollected h => exact ⟨_, hcollected, hwaiting (h.waits id)⟩
  | locked holder hcollected h
  | sending holder hcollected h =>
    refine ⟨_, hcollected, ?_⟩
    by_cases hid : id = holder
    · subst hid
      cases h.call.symm.trans hcall
      exact ⟨rfl, h⟩
    · exact hwaiting (h.waits id hid)

/-!
## Entering an update
-/

variable {u : ShardUpdate}

theorem locks_enter_of_lt (hlock : lock < s.nextLock) : (s.enter u).1.locks lock = s.locks lock :=
  update_of_ne (Nat.ne_of_lt hlock) _ _

theorem collected_enter (h : s.Collected t) (hu : u.shardNumber < u.shardCount.count)
    (haccepts : t.accepts u = true) : (s.enter u).1.Collected (t.update u s.nextLock) := by
  obtain ⟨hwf, hlock⟩ := update_of_accepts h.wf hu haccepts
  refine ⟨?_, hwf, ?_⟩
  · unfold enter
    rw [h.tenant]
  · rw [hlock]
    exact Nat.lt_succ_of_lt h.old

theorem inv_notify_new {tenant : ComputeHookTenant} (hquiet : s.Quiet)
    (htenant : (s.enter u).2 = tenant) (hwf : tenant.Wf (u :: s.updates))
    (hlock : tenant.getSendLock = s.nextLock) : (s.notifyAttachPrepare id u).Inv := by
  have hnew : (s.enter u).1.locks tenant.getSendLock = ⟨none, none⟩ := by
    rw [hlock]
    exact update_self _ _ _
  unfold notifyAttachPrepare
  dsimp only
  rw [htenant, hnew]
  refine inv_proceed ⟨congrArg some htenant, hwf, ?_⟩ ?_ ?_
  · rw [hlock]
    exact Nat.lt_succ_self _
  · intro id' _ phase hphase
    exact nomatch (hquiet id').symm.trans hphase
  · intro r hr
    rw [hnew] at hr
    cases hr

section

variable (h : s.Inv) (hcall : s.calls id = none) (hu : u.shardNumber < u.shardCount.count)

include h hcall hu

theorem Inv.notify_accepted (ht : s.tenant = some t) (haccepts : t.accepts u = true) :
    (s.notifyAttachPrepare id u).Inv := by
  have hentered : (s.enter u).2 = t.update u s.nextLock := by
    unfold enter
    rw [ht]
  have hlock : (t.update u s.nextLock).getSendLock = t.getSendLock :=
    (update_of_accepts (h.collected ht).wf hu haccepts).2
  have hwaits : forall id', s.Waits t id' ->
      (s.enter u).1.Waits (t.update u s.nextLock) id' := by
    intro id' hid phase hphase
    rw [hlock]
    exact hid phase hphase
  have hnow := collected_enter (h.collected ht) hu haccepts
  have hlocks : (s.enter u).1.locks (t.update u s.nextLock).getSendLock =
      s.locks t.getSendLock := by
    rw [hlock]
    exact locks_enter_of_lt (h.collected ht).old
  have hother : forall {holder phase}, s.calls holder = some phase -> holder ≠ id := by
    intro holder phase hphase heq
    rw [heq, hcall] at hphase
    cases hphase
  unfold notifyAttachPrepare
  dsimp only
  rw [hentered, hlocks]
  cases h with
  | empty htenant _ => exact nomatch htenant.symm.trans ht
  | free hcollected h =>
    cases hcollected.eq_of_tenant ht
    rw [h.holder]
    refine inv_proceed hnow (fun id' _ => hwaits id' (h.waits id')) ?_
    intro r hr
    exact h.remembers r ((congrArg SendLock.remote hlocks).symm.trans hr)
  | locked holder hcollected h =>
    cases hcollected.eq_of_tenant ht
    rw [h.holder]
    refine .locked holder { hnow with } ⟨?_, ?_, ?_, ?_⟩
    · rw [calls_setCall_of_ne (hother h.call), hlock]
      exact h.call
    · intro id' hid
      exact waits_setCall_waiting (hwaits id' (h.waits id' hid)) id
    · exact (congrArg SendLock.holder hlocks).trans h.holder
    · intro r hr
      exact h.remembers r ((congrArg SendLock.remote hlocks).symm.trans hr)
  | sending holder hcollected h =>
    cases hcollected.eq_of_tenant ht
    rw [h.holder]
    have hphase := h.call
    rw [← hlock] at hphase
    refine .sending holder { hnow with }
      ⟨(calls_setCall_of_ne (hother h.call)).trans hphase, ?_, ?_, h.landed, ?_, ?_⟩
    · intro id' hid
      exact waits_setCall_waiting (hwaits id' (h.waits id' hid)) id
    · exact (congrArg SendLock.holder hlocks).trans h.holder
    · exact Or.inr ⟨id, _, calls_setCall_self⟩
    · exact h.complete.mono (fun _ hu => mem_cons_of_mem _ hu)

theorem Inv.notify (hreset : forall t, s.tenant = some t -> t.accepts u = false -> s.Quiet) :
    (s.notifyAttachPrepare id u).Inv := by
  cases ht : s.tenant with
  | none =>
    have hquiet : s.Quiet := by
      cases h with
      | empty _ hquiet => exact hquiet
      | free hcollected _
      | locked _ hcollected _
      | sending _ hcollected _ => exact nomatch ht.symm.trans hcollected.tenant
    refine inv_notify_new hquiet ?_ (wf_new hu) getSendLock_new
    unfold enter
    rw [ht]
  | some t =>
    cases haccepts : t.accepts u with
    | true => exact h.notify_accepted hcall hu ht haccepts
    | false =>
      refine inv_notify_new (hreset t ht haccepts) ?_ (wf_new hu) getSendLock_new
      unfold enter
      rw [ht]
      exact update_of_not_accepts haccepts

end

theorem Inv.acquire (h : s.Inv) (hcall : s.calls id = some (.waiting lock))
    (hfree : (s.locks lock).holder = none) :
    ((s.setCall id (some (.locked lock))).setLock lock ⟨(s.locks lock).remote, some id⟩).Inv := by
  obtain ⟨t, hcollected, rfl⟩ := h.inPhase hcall
  have hfreeCase : s.Free t := by
    cases h with
    | empty htenant _ => exact nomatch htenant.symm.trans hcollected.tenant
    | free hcollected' h => exact hcollected'.eq_of_tenant hcollected.tenant ▸ h
    | locked _ hcollected' h
    | sending _ hcollected' h =>
      cases hcollected'.eq_of_tenant hcollected.tenant
      exact nomatch h.holder.symm.trans hfree
  refine .locked id { hcollected with } ⟨?_, ?_, ?_, ?_⟩
  · exact calls_setCall_self
  · exact fun id' hne => waits_setCall_of_ne hne (hfreeCase.waits id')
  · rw [locks_setLock_self]
  · intro r hr
    rw [locks_setLock_self] at hr
    exact hfreeCase.remembers r hr

theorem Inv.onReply (h : s.Inv) {landed : Bool}
    (hcall : s.calls id = some (.transmitting r lock attempts (.sent landed))) {reply : Reply}
    (hnext : s.onReply id r lock attempts landed reply = some s') : s'.Inv := by
  obtain ⟨t, hcollected, rfl, hsending⟩ := h.inPhase hcall
  cases reply with
  | success =>
    unfold ComputeHook.onReply at hnext
    dsimp only at hnext
    split at hnext
    next hlanded =>
      cases hnext
      refine hsending.inv_finish hcollected (.ok ()) ?_
      intro _
      exact hsending.landed (by rw [hlanded])
    · cases hnext
  | error e =>
    unfold ComputeHook.onReply at hnext
    dsimp only at hnext
    split at hnext
    · cases hnext
      exact hsending.inv_finish hcollected (.error e) (fun herror => nomatch herror)
    · cases hnext
      exact .sending id { hcollected with } (hsending.setCall (fun hattempt => nomatch hattempt))

theorem Inv.next {e : Event} (h : s.Inv) (hproper : s.Proper e) (hreset : s.ResetsQuietly e)
    (hnext : s.next e = some s') : s'.Inv := by
  cases e with
  | notify id u =>
    dsimp only [ComputeHook.next] at hnext
    split at hnext
    next hcall =>
      cases hnext
      exact h.notify hcall hproper hreset
    · cases hnext
  | acquire id =>
    dsimp only [ComputeHook.next] at hnext
    split at hnext
    next lock hcall =>
      split at hnext
      next hfree =>
        cases hnext
        exact h.acquire hcall hfree
      · cases hnext
    · cases hnext
  | resume id =>
    dsimp only [ComputeHook.next] at hnext
    split at hnext
    next lock hcall =>
      cases hnext
      obtain ⟨t, hcollected, rfl, hlocked⟩ := h.inPhase hcall
      exact inv_proceed hcollected hlocked.waits hlocked.remembers
    · cases hnext
  | send id =>
    dsimp only [ComputeHook.next] at hnext
    split at hnext
    next r lock attempts hcall =>
      cases hnext
      obtain ⟨t, hcollected, rfl, hsending⟩ := h.inPhase hcall
      exact .sending id { hcollected with } (hsending.setCall (fun hattempt => nomatch hattempt))
    · cases hnext
  | land id =>
    dsimp only [ComputeHook.next] at hnext
    split at hnext
    next r lock attempts hcall =>
      cases hnext
      obtain ⟨t, hcollected, rfl, hsending⟩ := h.inPhase hcall
      have happlied : Sending { s with applied := some r } t id r attempts (.sent false) :=
        ⟨hsending.call, hsending.waits, hsending.holder, (fun hattempt => nomatch hattempt),
          hsending.current, hsending.complete⟩
      exact .sending id { hcollected with } (happlied.setCall (fun _ => rfl))
    · cases hnext
  | reply id reply =>
    dsimp only [ComputeHook.next] at hnext
    split at hnext
    next r lock attempts landed hcall =>
      exact h.onReply hcall hnext
    · cases hnext
  | cancel id =>
    dsimp only [ComputeHook.next] at hnext
    split at hnext
    next lock hcall =>
      exact absurd hcall (hproper lock)
    next r lock attempts hcall =>
      cases hnext
      obtain ⟨t, hcollected, rfl, hsending⟩ := h.inPhase hcall
      exact hsending.inv_finish hcollected _ (fun herror => nomatch herror)
    · cases hnext

end Steps

/-- Steps of the hook on updates of shards that exist, with no call cancelled while it
waits, in which the collected state starts anew only while no call is in flight. -/
def Ordered (s : ComputeHook) (e : Event) : Prop :=
  s.Proper e ∧ s.ResetsQuietly e

/-- If no call is in flight, the last one succeeded and every shard is located, then the
control plane applied a request last that lists each shard once with its latest node.
Every request that is sent lists all shards of one shard count. -/
theorem notifications_in_order {applied : Option NotifyAttachRequest} {s : ComputeHook}
    (h : Reached next Ordered (initial applied) s) :
    (s.Quiet -> s.returned = some (.ok ()) -> forall t, s.tenant = some t ->
      (forall number, number < t.count -> t.Locates number) ->
      exists r, s.applied = some r ∧ r.ListsLatest s.updates t.count) ∧
    forall id r lock attempts attempt,
      s.calls id = some (.transmitting r lock attempts attempt) -> r.OfOneCount s.updates := by
  have hinv : s.Inv :=
    h.invariant (.empty rfl (fun _ => rfl))
      (fun _ _ _ hinv hok hnext => hinv.next hok.1 hok.2 hnext)
  constructor
  · intro hquiet hreturned t ht hall
    cases hinv with
    | empty htenant _ => exact nomatch htenant.symm.trans ht
    | free hcollected hfree =>
      cases hcollected.eq_of_tenant ht
      obtain ⟨r, hr⟩ := exists_request hcollected.wf hall
      refine ⟨r, hfree.remembers r (hfree.done hreturned hquiet r hr), ?_⟩
      exact listsLatest_of_request hcollected.wf hr
    | locked _ _ hlocked => exact nomatch (hquiet _).symm.trans hlocked.call
    | sending _ _ hsending => exact nomatch (hquiet _).symm.trans hsending.call
  · intro id r lock attempts attempt hcall
    obtain ⟨_, _, _, hsending⟩ := hinv.inPhase hcall
    exact hsending.complete

/-!
While the request for the unsharded tenant is under way, the tenant is split.  The
collected state starts anew with a lock of its own, so its request overtakes the first
one, which is applied last.
-/

def shardUpdate (number count : Nat) (node : NodeId) : ShardUpdate :=
  { shardNumber := number
    shardCount := ⟨count⟩
    nodeId := node
    stripeSize := 2048
    preferredAz := none }

def splitDuringSend : List Event :=
  [.notify 0 (shardUpdate 0 0 1), .send 0, .notify 1 (shardUpdate 0 2 2),
    .notify 2 (shardUpdate 1 2 3), .send 2, .land 2, .reply 2 .success, .land 0,
    .reply 0 .success]

def splitTenant : ComputeHookTenant :=
  .sharded
    { stripeSize := 2048
      shardCount := ⟨2⟩
      shards := [(0, 2), (1, 3)]
      preferredAz := none
      sendLock := 1 }

theorem locates_splitTenant (number : ShardNumber) (h : number < splitTenant.count) :
    splitTenant.Locates number := by
  rcases number with _ | _ | number
  · exact ⟨2, by decide⟩
  · exact ⟨3, by decide⟩
  · exact absurd h (by simp [splitTenant, ComputeHookTenant.count, ShardCount.count])

theorem unsharded_request_applied_last :
    exists s, Reached next Proper (initial none) s ∧ s.Quiet ∧
      s.returned = some (.ok ()) ∧ exists t r, s.tenant = some t ∧
        (forall number, number < t.count -> t.Locates number) ∧ s.applied = some r ∧
        ¬ r.ListsLatest s.updates t.count := by
  have hok : forall (s : ComputeHook) e, e ∈ splitDuringSend -> s.Proper e := by
    intro s e he
    simp only [splitDuringSend, mem_cons, not_mem_nil, or_false] at he
    rcases he with rfl | rfl | rfl | rfl | rfl | rfl | rfl | rfl | rfl <;>
      first | exact trivial | exact Nat.lt_of_sub_ne_zero (by decide)
  refine ⟨_, .of_foldlM hok rfl, ?_, rfl, splitTenant, _, rfl, locates_splitTenant, rfl, ?_⟩
  · intro id
    rcases id with _ | _ | _ | id <;> rfl
  · intro hlists
    obtain ⟨node, _, hentries⟩ := hlists.each 1 (by decide)
    cases hentries

/-!
If the first request is answered before the split, the request of the split tenant is
the last one.
-/

def splitAfterSend : List Event :=
  [.notify 0 (shardUpdate 0 0 1), .send 0, .land 0, .reply 0 .success,
    .notify 1 (shardUpdate 0 2 2), .notify 2 (shardUpdate 1 2 3), .send 2, .land 2,
    .reply 2 .success]

def splitState (n : Nat) : ComputeHook :=
  ((splitAfterSend.take n).foldlM next (initial none)).getD (initial none)

theorem reached_splitState : Reached next Ordered (initial none) (splitState 9) := by
  have hsent : forall (id : CallId) (s : ComputeHook) e,
      e ∈ [Event.send id, .land id, .reply id .success] -> s.Ordered e := by
    intro id s e he
    simp only [mem_cons, not_mem_nil, or_false] at he
    rcases he with rfl | rfl | rfl <;> exact ⟨trivial, trivial⟩
  have hlt : forall number count node, number < (ShardCount.mk count).count ->
      (shardUpdate number count node).shardNumber <
        (shardUpdate number count node).shardCount.count := fun _ _ _ h => h
  have h1 : Reached next Ordered (initial none) (splitState 1) := by
    refine .step (.notify 0 (shardUpdate 0 0 1)) .start ⟨hlt 0 0 1 (by decide), ?_⟩ rfl
    intro t ht
    cases ht
  have h4 : Reached next Ordered (initial none) (splitState 4) :=
    h1.trans (.of_foldlM (hsent 0) rfl)
  have h5 : Reached next Ordered (initial none) (splitState 5) := by
    refine h4.step (.notify 1 (shardUpdate 0 2 2)) ⟨hlt 0 2 2 (by decide), ?_⟩ rfl
    intro t _ _ id
    rcases id with _ | id <;> rfl
  have h6 : Reached next Ordered (initial none) (splitState 6) := by
    refine h5.step (.notify 2 (shardUpdate 1 2 3)) ⟨hlt 1 2 3 (by decide), ?_⟩ rfl
    intro t ht hreset
    cases ht
    cases hreset
  exact h6.trans (.of_foldlM (hsent 2) rfl)

theorem notifications_in_order_split :
    (splitState 9).Quiet ∧ (splitState 9).returned = some (.ok ()) ∧
      (splitState 9).tenant = some splitTenant ∧
      exists r, (splitState 9).applied = some r ∧
        r.ListsLatest (splitState 9).updates splitTenant.count := by
  have hquiet : (splitState 9).Quiet := by
    intro id
    rcases id with _ | _ | _ | id <;> rfl
  exact ⟨hquiet, rfl, rfl, (notifications_in_order reached_splitState).1 hquiet rfl
    splitTenant rfl locates_splitTenant⟩

end ComputeHook

end StorageController
end OpenNeon

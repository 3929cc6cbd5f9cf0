import OpenNeon.StorageController.ReconcileReports
import OpenNeon.StorageController.ServiceNodes

/-!
# The counts of the scheduler over runs

The counts of a node are what all shards have on it, and a part that no shard has.  The
operations on one shard leave the second part alone, so it stays zero.  Dropping a node
from an intent behind the scheduler's back adds to it.  The older node deletion makes up
for this by removing the node before the lock is released, unless a shard cannot be
placed; the deletion in the background releases the lock in between.
-/

namespace OpenNeon
namespace StorageController

open Base List OrdMap
open Prog (Maintains wp wp_bind wp_mono wp_then)

/-!
## Dropping a node from an intent
-/

namespace IntentState

theorem uses_eq_zero {i : IntentState} {nodeId : NodeId} (h : nodeId ∉ i.allPageservers)
    (az : AvailabilityZone) (c : Count) : i.uses nodeId az c = 0 := by
  have hattached : nodeId ∉ i.attached.toList := fun hmem => h (mem_append_left _ hmem)
  cases c with
  | shard => exact count_eq_zero_of_not_mem h
  | attached => exact count_eq_zero_of_not_mem hattached
  | home =>
    dsimp only [uses]
    split
    · exact count_eq_zero_of_not_mem h
    · rfl

end IntentState

namespace TenantShard

theorem uses_derefNode_self (shard : TenantShard) (nodeId : NodeId) (az : AvailabilityZone)
    (c : Count) : (shard.derefNode nodeId).intent.uses nodeId az c = 0 :=
  IntentState.uses_eq_zero (fun hmem => (Service.mem_derefNode hmem).2 rfl) az c

variable {nodeId : NodeId} {shard : TenantShard}

theorem uses_derefNode_ne (shard : TenantShard) {m : NodeId} (h : m ≠ nodeId) :
    (shard.derefNode nodeId).intent.uses m = shard.intent.uses m := by
  refine IntentState.uses_congr rfl ?_ ?_
  · dsimp only [derefNode]
    split
    next hattached =>
      rw [hattached]
      exact (count_eq_zero_of_not_mem (fun hmem => h (mem_singleton.mp hmem))).symm
    · rfl
  · exact count_filter (decide_eq_true h)

theorem nodup_derefNode (h : shard.intent.allPageservers.Nodup) (nodeId : NodeId) :
    (shard.derefNode nodeId).intent.allPageservers.Nodup := by
  refine h.sublist (List.Sublist.append ?_ filter_sublist)
  dsimp only [derefNode]
  split
  · exact nil_sublist _
  · exact List.Sublist.refl _

theorem derefNode_intent (h : nodeId ∉ shard.intent.allPageservers) :
    (shard.derefNode nodeId).intent = shard.intent := by
  have hattached : shard.intent.attached ≠ some nodeId := by
    intro hattached
    exact h (mem_append_left _ (Option.mem_toList.mpr hattached))
  have hsecondary : shard.intent.secondary.filter (fun n => n ≠ nodeId) =
      shard.intent.secondary := by
    refine filter_eq_self.mpr (fun m hmem => decide_eq_true ?_)
    rintro rfl
    exact h (mem_append_right _ hmem)
  dsimp only [derefNode]
  rw [if_neg hattached, hsecondary]

theorem derefsIntent_iff :
    shard.derefsIntent nodeId = true <-> nodeId ∈ shard.intent.allPageservers := by
  unfold derefsIntent IntentState.allPageservers
  rw [Bool.or_eq_true, decide_eq_true_iff, decide_eq_true_iff, mem_append, Option.mem_toList]

variable {others : NodeId -> AvailabilityZone -> Count -> Nat}

/-- What is counted on a node, besides others, once it is dropped from an intent. -/
def dropped (i : IntentState) (nodeId : NodeId) (m : NodeId) (az : AvailabilityZone)
    (c : Count) : Nat :=
  if m = nodeId then i.uses m az c else 0

variable {p : Placing}

theorem Balanced.derefNode (hp : Balanced others p) (nodeId : NodeId) :
    Balanced (fun m az c => others m az c + dropped p.shard.intent nodeId m az c)
      { p with shard := p.shard.derefNode nodeId } := by
  refine ⟨fun m node hget c => ?_, nodup_derefNode hp.distinct nodeId⟩
  have hcount : node.count c = others m node.az c + p.shard.intent.uses m node.az c :=
    hp.counts m node hget c
  show node.count c = others m node.az c + dropped p.shard.intent nodeId m node.az c +
    (p.shard.derefNode nodeId).intent.uses m node.az c
  rw [hcount, dropped]
  split
  next heq => rw [heq, uses_derefNode_self, Nat.add_zero]
  next hne => rw [uses_derefNode_ne _ hne, Nat.add_zero]

theorem wp_deleteOldShard_counts {places : List NodeId} (nodes : OrdMap NodeId Node)
    (nodeId : NodeId) (granted : Bool) (hdistinct : places.Nodup) (hoffers : Offers places p)
    (hp : Balanced others p) (hroom : p.shard.schedulingPolicy.mayMove = true ->
      nodeId ∈ p.shard.intent.allPageservers -> Room places p.shard) :
    wp (Service.deleteOldShard nodes nodeId granted)
      (fun _ => Balanced (fun m az c => others m az c + dropped p.shard.intent nodeId m az c))
      (Ends False (fun _ => False)) p := by
  have hdropped := hp.derefNode nodeId
  refine wp_bind.mpr ?_
  simp only [Prog.wp_get]
  split
  next hnamed =>
    have hroom' : p.shard.schedulingPolicy.mayMove = true ->
        Room places (p.shard.derefNode nodeId) := by
      intro hmay
      have hroom := hroom hmay (derefsIntent_iff.mp hnamed)
      exact ⟨Nat.lt_of_le_of_lt (length_filter_le _ _) hroom.has, hroom.wants⟩
    have hschedule : wp schedule (fun _ => Chosen { p with shard := p.shard.derefNode nodeId })
        (Ends False (fun _ => False)) { p with shard := p.shard.derefNode nodeId } := by
      refine wp_mono (Prog.wp_and wp_schedule (placed_schedule hdistinct hoffers hroom'))
        (fun _ _ hq => hq.1.2) ?_
      intro e q hfail
      cases e with
      | underflow => exact hfail.1 _ hdropped
      | schedule x => exact hfail.2
      | _ => trivial
    refine wp_bind.mpr (wp_bind.mpr ?_)
    refine wp_then hschedule ?_
    exact fun _ q hq => Prog.wp_imp (moved_reconcileShard nodes granted q hq)
      (fun _ _ hr => hr.balanced _ hdropped)
  · exact hdropped

end TenantShard

namespace Service

open TenantShard

/-!
## What all shards have on a node
-/

def intentLocations (s : Service) (nodeId : NodeId) : Nat :=
  s.tenants.total (fun shard => shard.intent.allPageservers.count nodeId)

def attachedLocations (s : Service) (nodeId : NodeId) : Nat :=
  s.tenants.total (fun shard => shard.intent.attached.toList.count nodeId)

def homeLocations (s : Service) (nodeId : NodeId) (az : AvailabilityZone) : Nat :=
  s.tenants.total (fun shard =>
    if some az = shard.intent.preferredAzId then shard.intent.allPageservers.count nodeId else 0)

structure ExactCounts (s : Service) : Prop where
  shard : forall nodeId node, s.scheduler.nodes.get? nodeId = some node ->
    node.shardCount = s.intentLocations nodeId
  attached : forall nodeId node, s.scheduler.nodes.get? nodeId = some node ->
    node.attachedShardCount = s.attachedLocations nodeId
  home : forall nodeId node, s.scheduler.nodes.get? nodeId = some node ->
    node.homeShardCount = s.homeLocations nodeId node.az
  distinct : forall tid shard, s.tenants.get? tid = some shard ->
    shard.intent.allPageservers.Nodup

def bookings (s : Service) (nodeId : NodeId) (az : AvailabilityZone) (c : Count) : Nat :=
  s.tenants.total (fun shard => shard.intent.uses nodeId az c)

/-- The counts are those of the shards, and more that no shard has. -/
structure Accounts (leak : NodeId -> AvailabilityZone -> Count -> Nat) (s : Service) :
    Prop where
  counts : s.scheduler.Counts (fun nodeId az c => leak nodeId az c + s.bookings nodeId az c)
  distinct : forall tid shard, s.tenants.get? tid = some shard ->
    shard.intent.allPageservers.Nodup

variable {s : Service} {nodeId : NodeId} {r : Region} {tid : TenantShardId} {p : Placing}
  {e : Event}

theorem Accounts.count (h : s.Accounts leak) {node : SchedulerNode}
    (hget : s.scheduler.nodes.get? nodeId = some node) (c : Count) :
    node.count c = leak nodeId node.az c + s.bookings nodeId node.az c :=
  h.counts nodeId node hget c

theorem exactCounts_iff : s.ExactCounts <-> s.Accounts (fun _ _ _ => 0) := by
  constructor
  · intro h
    refine ⟨fun nodeId node hget c => ?_, h.distinct⟩
    show node.count c = 0 + s.bookings nodeId node.az c
    rw [Nat.zero_add]
    cases c with
    | shard => exact h.shard nodeId node hget
    | attached => exact h.attached nodeId node hget
    | home => exact h.home nodeId node hget
  · intro h
    have hcount : forall nodeId node, s.scheduler.nodes.get? nodeId = some node ->
        forall c, node.count c = s.bookings nodeId node.az c := by
      intro nodeId node hget c
      rw [h.count hget, Nat.zero_add]
    exact ⟨fun nodeId node hget => hcount nodeId node hget .shard,
      fun nodeId node hget => hcount nodeId node hget .attached,
      fun nodeId node hget => hcount nodeId node hget .home, h.distinct⟩

variable {leak leak' : NodeId -> AvailabilityZone -> Count -> Nat}

/-- What the shards other than one have, and what no shard has. -/
def without (s : Service) (leak : NodeId -> AvailabilityZone -> Count -> Nat)
    (tid : TenantShardId) (nodeId : NodeId) (az : AvailabilityZone) (c : Count) : Nat :=
  leak nodeId az c + (s.tenants.erase tid).total (fun shard => shard.intent.uses nodeId az c)

variable {shard : TenantShard} {tenants : OrdMap TenantShardId TenantShard}
  {granted : TenantShardId -> Bool}

theorem Accounts.placing (hr : r.service.Accounts leak)
    (hshard : r.service.tenants.get? tid = some shard) :
    Balanced (r.service.without leak tid) (r.placing shard) := by
  refine ⟨fun nodeId node hget c => ?_, hr.distinct tid shard hshard⟩
  rw [hr.count hget, bookings, total_of_get? hshard, ← Nat.add_assoc]
  rfl

theorem Accounts.withShard (hr : r.service.Accounts leak)
    (hp : Balanced (r.service.without leak' tid) p) :
    (Region.withShard tid p r).service.Accounts leak' := by
  refine ⟨fun nodeId node hget c => ?_, fun tid' shard hget => ?_⟩
  · have hcount : node.count c = r.service.without leak' tid nodeId node.az c +
        p.shard.intent.uses nodeId node.az c := hp.counts nodeId node hget c
    show node.count c = leak' nodeId node.az c + (r.service.tenants.insert tid p.shard).total
        (fun shard => shard.intent.uses nodeId node.az c)
    rw [hcount, without, total_insert, Nat.add_assoc]
  · rcases get?_of_insert hget with ⟨rfl, rfl⟩ | hget
    · exact hp.distinct
    · exact hr.distinct tid' shard hget

theorem kept_accounts : KeptByMoves False (fun r : Region => r.service.Accounts leak) where
  moved hr hshard hp := hr.withShard (hp.balanced _ (hr.placing hshard))
  unbalanced hr hshard hnot := hnot _ (hr.placing hshard)

/-!
## Steps on nodes
-/

theorem Accounts.congr (hs : s.Accounts leak) (nodes : OrdMap NodeId Node)
    (hbookings : forall nodeId az c,
      tenants.total (fun shard => shard.intent.uses nodeId az c) = s.bookings nodeId az c)
    (hdistinct : forall tid shard, tenants.get? tid = some shard ->
      shard.intent.allPageservers.Nodup) :
    Accounts leak { nodes := nodes, tenants := tenants, scheduler := s.scheduler } := by
  refine ⟨fun nodeId node hget c => ?_, hdistinct⟩
  show node.count c = leak nodeId node.az c +
    tenants.total (fun shard => shard.intent.uses nodeId node.az c)
  rw [hbookings]
  exact hs.count hget c

theorem Accounts.processResult (hs : s.Accounts leak) (tid : TenantShardId)
    (result : ReconcileResult) : (s.processResult tid result).Accounts leak := by
  unfold Service.processResult
  split
  · exact hs
  next shard hshard =>
    have hintent := (applyResult_references s.nodes result shard).1
    refine hs.congr s.nodes (fun nodeId az c => ?_) (fun tid' shard' hget => ?_)
    · rw [total_insert, hintent, bookings, total_of_get? hshard]
    · rcases get?_of_insert hget with ⟨rfl, rfl⟩ | hget
      · rw [hintent]
        exact hs.distinct _ shard hshard
      · exact hs.distinct tid' shard' hget

theorem Accounts.upsert (hs : s.Accounts leak) (nodes : OrdMap NodeId Node) (node : Node)
    (hnew : ¬ s.scheduler.Knows nodeId -> forall az c,
      leak nodeId az c + s.bookings nodeId az c = 0) :
    Accounts leak { s with nodes := nodes, scheduler := s.scheduler.nodeUpsert nodeId node } := by
  refine ⟨fun m found hget c => ?_, hs.distinct⟩
  show found.count c = leak m found.az c + s.bookings m found.az c
  unfold Scheduler.nodeUpsert at hget
  split at hget
  next entry hentry =>
    rcases get?_of_insert hget with ⟨rfl, rfl⟩ | hget
    · have hcount := hs.count hentry c
      cases c <;> exact hcount
    · exact hs.count hget c
  next hnone =>
    rcases get?_of_insert hget with ⟨rfl, rfl⟩ | hget
    · have hunknown : ¬ s.scheduler.Knows m := by
        unfold Scheduler.Knows
        rw [hnone]
        exact Bool.false_ne_true
      rw [hnew hunknown]
      cases c <;> rfl
    · exact hs.count hget c

theorem Accounts.remove (hs : s.Accounts leak) (nodes : OrdMap NodeId Node)
    (hbookings : forall m, m ≠ nodeId -> forall az c,
      leak' m az c + tenants.total (fun shard => shard.intent.uses m az c) =
        leak m az c + s.bookings m az c)
    (hdistinct : forall tid shard, tenants.get? tid = some shard ->
      shard.intent.allPageservers.Nodup) :
    Accounts leak'
      { nodes := nodes, tenants := tenants, scheduler := s.scheduler.nodeRemove nodeId } := by
  refine ⟨fun m found hget c => ?_, hdistinct⟩
  obtain ⟨hne, hget⟩ := get?_of_erase hget
  show found.count c = leak' m found.az c +
    tenants.total (fun shard => shard.intent.uses m found.az c)
  rw [hbookings m hne]
  exact hs.count hget c

theorem Accounts.nodeDrop (hs : s.Accounts leak) (nodeId : NodeId) :
    (s.nodeDrop nodeId).Accounts leak := by
  refine hs.remove _ (fun m hne az c => ?_) (fun tid shard hget => ?_)
  · rw [total_map]
    congr 1
    refine total_congr (fun tid shard hget => ?_)
    exact congrFun (congrFun (uses_derefNode_ne shard hne) az) c
  · rw [get?_map] at hget
    rcases Option.map_eq_some_iff.mp hget with ⟨shard', hshard', rfl⟩
    exact nodup_derefNode (hs.distinct tid shard' hshard') nodeId

/-!
## Node deletions
-/

theorem safe_deleteNodeShard {others : NodeId -> AvailabilityZone -> Count -> Nat}
    (nodes : OrdMap NodeId Node) (nodeId : NodeId) (force granted : Bool)
    (hp : Balanced others p) (hnot : p.shard.schedulingPolicy.mayMove = true ->
      nodeId ∉ p.shard.intent.allPageservers) :
    wp (deleteNodeShard nodes nodeId force granted) (fun _ => Balanced others)
      (Ends False (Balanced others)) p := by
  refine wp_bind.mpr ?_
  simp only [Prog.wp_get, Prog.onlyIf]
  split
  next hmay =>
    split
    next hnamed => exact absurd (derefsIntent_iff.mp hnamed) (hnot hmay)
    · show Books others { intent := (p.shard.derefNode nodeId).intent, scheduler := p.scheduler }
      rw [derefNode_intent (hnot hmay)]
      exact hp
  · exact hp

/-- Only on one node may more be counted than the shards have. -/
def AccountsBut (nodeId : NodeId) (s : Service) : Prop :=
  exists leak, (forall m, m ≠ nodeId -> forall az c, leak m az c = 0) ∧ s.Accounts leak

theorem accountsBut_deleteOldShard (hr : r.service.Accounts leak)
    (hzero : forall m, m ≠ nodeId -> forall az c, leak m az c = 0)
    (hp : Balanced (fun m az c => r.service.without leak tid m az c +
      dropped shard.intent nodeId m az c) p) :
    AccountsBut nodeId (Region.withShard tid p r).service := by
  refine ⟨fun m az c => leak m az c + dropped shard.intent nodeId m az c, ?_, ?_⟩
  · intro m hne az c
    show leak m az c + dropped shard.intent nodeId m az c = 0
    rw [hzero m hne, dropped, if_neg hne]
  · refine hr.withShard ?_
    have hsame : r.service.without
        (fun m az c => leak m az c + dropped shard.intent nodeId m az c) tid =
        fun m az c => r.service.without leak tid m az c + dropped shard.intent nodeId m az c := by
      funext m az c
      exact Nat.add_right_comm _ _ _
    rw [hsame]
    exact hp

theorem wp_deleteOldShards_counts {nodes : OrdMap NodeId Node} {tids : List TenantShardId}
    {places : List NodeId} (htids : tids.Nodup) (hdistinct : places.Nodup)
    (hr : AccountsBut nodeId r.service)
    (hoffers : forall m, m ∈ places -> r.service.scheduler.IsOpen m)
    (hroom : forall tid, tid ∈ tids -> forall shard, r.service.tenants.get? tid = some shard ->
      shard.schedulingPolicy.mayMove = true -> nodeId ∈ shard.intent.allPageservers ->
      Room places shard) :
    wp (deleteOldShards nodes nodeId granted tids)
      (fun _ r' => AccountsBut nodeId r'.service) (Ends False (fun _ => False)) r := by
  induction tids generalizing r with
  | nil => exact hr
  | cons tid rest ih =>
    have hrest : forall tid', tid' ∈ rest -> tid' ≠ tid := by
      rintro tid' hmem rfl
      exact (nodup_cons.mp htids).1 hmem
    refine wp_bind.mpr (wp_onShard.mpr ?_)
    split
    · exact ih (nodup_cons.mp htids).2 hr hoffers
        (fun tid' hmem => hroom tid' (mem_cons_of_mem _ hmem))
    next shard hshard =>
      rcases hr with ⟨leak, hzero, hleak⟩
      have hcounts := wp_deleteOldShard_counts (p := r.placing shard) nodes nodeId
        (granted tid) hdistinct hoffers (hleak.placing hshard)
        (hroom tid mem_cons_self shard hshard)
      have hsame := stays_deleteOldShard nodes nodeId (granted tid) (r.placing shard)
        (Scheduler.SameNodes.refl _)
      refine wp_mono (Prog.wp_and hcounts hsame) ?_ ?_
      · rintro _ p ⟨hp, hnodes⟩
        refine ih (nodup_cons.mp htids).2 (accountsBut_deleteOldShard hleak hzero hp) ?_ ?_
        · exact fun m hmem => hnodes.isOpen (hoffers m hmem)
        · intro tid' hmem shard' hget
          dsimp only [Region.withShard] at hget
          rw [get?_insert, if_neg (hrest tid' hmem)] at hget
          exact hroom tid' (mem_cons_of_mem _ hmem) shard' hget
      · exact fun _ _ hfail => hfail.1.imp id False.elim

/-!
## Runs
-/

/-- The steps that keep the counts: a node is entered only while no shard has anything on
it, a round of the deletion in the background finds no shard to move, and in the older
deletion every shard that has to move can be placed. -/
def KeepsCounts (s : Service) : Event -> Prop
  | .nodeRegister nodeId _ =>
    ¬ s.scheduler.Knows nodeId -> forall tid shard, s.tenants.get? tid = some shard ->
      nodeId ∉ shard.intent.allPageservers
  | .deleteNodeRound nodeId tid _ _ _ =>
    forall shard, s.tenants.get? tid = some shard ->
      shard.schedulingPolicy.mayMove = true -> nodeId ∉ shard.intent.allPageservers
  | .nodeDeleteOld nodeId _ _ =>
    forall tid shard, s.tenants.get? tid = some shard ->
      shard.schedulingPolicy.mayMove = true -> nodeId ∈ shard.intent.allPageservers ->
      Room (s.scheduler.scored []) shard
  | _ => True

section

variable (hs : s.Accounts (fun _ _ _ => 0))
include hs

theorem accounts_nodeDeleteOld {picks : List NodeId}
    (hok : s.KeepsCounts (.nodeDeleteOld nodeId granted picks)) :
    wp (nodeDeleteOld nodeId granted) (fun _ r => r.service.Accounts (fun _ _ _ => 0))
      (Ends False (fun r => r.service.Accounts (fun _ _ _ => 0)))
      { service := s, picks := picks } := by
  refine wp_nodeDeleteOld.mpr ?_
  split
  · exact hs
  next node hnode =>
    have hstart : AccountsBut nodeId (paused nodeId node s) :=
      ⟨fun _ _ _ => 0, fun _ _ _ _ => rfl, hs.congr _ (fun _ _ _ => rfl) hs.distinct⟩
    have hloop : wp (deleteOldShards (paused nodeId node s).nodes nodeId granted
        (s.tenants.entries.map Prod.fst)) (fun _ r => AccountsBut nodeId r.service)
        (Ends False (fun _ => False)) { service := paused nodeId node s, picks := picks } :=
      wp_deleteOldShards_counts s.tenants.nodup_keys (s.scheduler.nodup_scored []) hstart
        (fun m hmem => (Scheduler.mem_scored.mp hmem).1)
        (fun tid _ shard hget => hok tid shard hget)
    refine wp_mono hloop ?_ ?_
    · rintro _ r ⟨leak, hzero, hr⟩
      refine hr.remove _ (fun m hne az c => ?_) hr.distinct
      rw [hzero m hne]
      rfl
    · exact fun _ _ => .imp id False.elim

/-- A step keeps the counts, also with an error of scheduling, and takes none below zero. -/
theorem accounts_region (hsynced : s.Synced)
    (hok : s.KeepsCounts e) :
    wp e.region (fun _ r => r.service.Accounts (fun _ _ _ => 0))
      (Ends False (fun r => r.service.Accounts (fun _ _ _ => 0)))
      { service := s, picks := e.picks } := by
  cases e with
  | schedule | tenantPolicy | rescheduleToSecondary | applyOptimization | tenantShardMigrate
  | tenantShardMigrateSecondary | setPreferredAz | reconcile | leaveOffline =>
    refine kept_accounts.region ?_ _ hs
    trivial
  | processResult tid result => exact hs.processResult tid result
  | nodeRegister nodeId az =>
    have hnew : ¬ s.scheduler.Knows nodeId -> forall az c, 0 + s.bookings nodeId az c = 0 := by
      intro hunknown az c
      rw [Nat.zero_add]
      exact total_eq_zero (fun tid shard hget =>
        IntentState.uses_eq_zero (hok hunknown tid shard hget) az c)
    show Accounts _ (Service.nodeRegister nodeId az s)
    dsimp only [Service.nodeRegister]
    split
    · exact hs.upsert _ _ hnew
    · split
      · exact hs.upsert _ _ hnew
      · exact hs
  | nodeStateConfigure nodeId availability scheduling =>
    show Accounts _ (Service.nodeStateConfigure nodeId availability scheduling s)
    dsimp only [Service.nodeStateConfigure]
    split
    · exact hs
    next node hnode =>
      refine hs.upsert _ _ (fun hunknown => absurd ((hsynced nodeId).mpr ?_) hunknown)
      rw [hnode]
      rfl
  | nodeDrop nodeId => exact hs.nodeDrop nodeId
  | nodeDeleteOld nodeId granted picks => exact accounts_nodeDeleteOld hs hok
  | deleteNodeRound nodeId tid force granted picks =>
    refine wp_bind.mpr (wp_onShard.mpr ?_)
    split
    · exact hs
    next shard hshard =>
      exact wp_mono (safe_deleteNodeShard _ nodeId force granted
        (Accounts.placing hs hshard) (hok shard hshard)) (fun _ _ hp => hs.withShard hp)
        (fun _ _ => .imp id hs.withShard)
  | deleteNodeFinish nodeId => exact hs.remove _ (fun _ _ _ _ => rfl) hs.distinct

theorem accounts_next {s' : Service} (hsynced : s.Synced)
    (hok : s.KeepsCounts e) (hnext : s.next e = some s') :
    s'.Accounts (fun _ _ _ => 0) := by
  rcases next_of_wp hnext (accounts_region hs hsynced hok) with ⟨_, hpost | ⟨_, hfail⟩⟩
  · exact hpost
  · exact hfail

theorem no_underflow (hsynced : s.Synced)
    (hok : s.KeepsCounts e) : (e.outcome s).1 ≠ .error .underflow := by
  intro hunderflow
  have hwp := accounts_region hs hsynced hok
  unfold wp at hwp
  unfold Event.outcome at hunderflow
  rcases hexec : Prog.exec e.region { service := s, picks := e.picks } with ⟨result, r⟩
  rw [hexec] at hwp hunderflow
  dsimp only at hunderflow
  rw [hunderflow] at hwp
  exact hwp

end

/-- In every state reached by such steps the counts are exact, no shard names a node
twice, and no further step of this kind takes a count below zero. -/
theorem counts_exact {start s : Service} (hsynced : start.Synced) (hstart : start.ExactCounts)
    (h : Reached next KeepsCounts start s) :
    s.ExactCounts ∧ forall e, s.KeepsCounts e -> (e.outcome s).1 ≠ .error .underflow := by
  have hs : s.Accounts (fun _ _ _ => 0) := by
    induction h with
    | start => exact exactCounts_iff.mp hstart
    | step e hreached hok hnext ih =>
      exact accounts_next ih (synced_reached hsynced hreached) hok hnext
  exact ⟨exactCounts_iff.mpr hs, fun e hok => no_underflow hs (synced_reached hsynced h) hok⟩

/-!
A controller with two nodes, the first of which is being deleted.  The only shard is
attached to it.
-/

section

variable (scheduling : ShardSchedulingPolicy)

def deletingNode : Service :=
  { nodes := (OrdMap.empty.insert 1 (pageserver .deleting)).insert 2 (pageserver .active)
    tenants := OrdMap.empty.insert 0 (attachedShard scheduling)
    scheduler :=
      { nodes :=
          (OrdMap.empty.insert 1
            { shardCount := 1, attachedShardCount := 1, homeShardCount := 1,
              maySchedule := .no, az := "a" }).insert 2
            { shardCount := 0, attachedShardCount := 0, homeShardCount := 0,
              maySchedule := .yes, az := "a" } } }

theorem synced_deletingNode : (deletingNode scheduling).Synced := by
  intro nodeId
  unfold Scheduler.Knows deletingNode
  simp only [get?_insert]
  split
  · exact Iff.rfl
  · split <;> exact Iff.rfl

end

theorem exactCounts_deletingNode (scheduling : ShardSchedulingPolicy) :
    (deletingNode scheduling).ExactCounts := by
  have hnode : forall nodeId node,
      (deletingNode scheduling).scheduler.nodes.get? nodeId = some node ->
      forall c, node.count c = (deletingNode scheduling).bookings nodeId node.az c := by
    intro nodeId node hget c
    dsimp only [deletingNode] at hget
    simp only [get?_insert] at hget
    split at hget
    next heq =>
      rw [heq]
      cases hget
      cases c <;> rfl
    · split at hget
      next heq =>
        rw [heq]
        cases hget
        cases c <;> rfl
      · cases hget
  refine exactCounts_iff.mpr ⟨fun nodeId node hget c => ?_, fun tid shard hget => ?_⟩
  · show node.count c = 0 + (deletingNode scheduling).bookings nodeId node.az c
    rw [Nat.zero_add]
    exact hnode nodeId node hget c
  · have hmem := get?_eq_some_iff.mp hget
    cases mem_singleton.mp hmem
    exact nodup_singleton 1

/-!
The shard is moved to the second node by a round of the deletion in the background.  The
lock is then released while the first node is still counted as having the shard; if the
deletion is cancelled, it stays so.
-/

def movedAway : Service :=
  ((deletingNode .active).next (.deleteNodeRound 1 0 true true [2])).getD (deletingNode .active)

theorem deletion_leaks_counts :
    (deletingNode .active).Synced ∧ (deletingNode .active).ExactCounts ∧
      exists s, Reached next (fun _ _ => True) (deletingNode .active) s ∧
        s.intentLocations 1 = 0 ∧ exists node, s.scheduler.nodes.get? 1 = some node ∧
          node.shardCount = 1 ∧ node.attachedShardCount = 1 ∧ node.homeShardCount = 1 := by
  have hround : Reached next (fun _ _ => True) (deletingNode .active) movedAway :=
    .step (.deleteNodeRound 1 0 true true [2]) .start trivial rfl
  exact ⟨synced_deletingNode .active, exactCounts_deletingNode .active, movedAway, hround, rfl,
    _, rfl, rfl, rfl, rfl⟩

/-!
In the older deletion the shard is moved and the node removed under one lock.
-/

theorem counts_exact_deleteOld :
    exists s, (deletingNode .active).next (.nodeDeleteOld 1 (fun _ => true) [2]) = some s ∧
      s.ExactCounts ∧ s.intentLocations 2 = 1 := by
  have hok : (deletingNode .active).KeepsCounts (.nodeDeleteOld 1 (fun _ => true) [2]) := by
    intro tid shard hget _ _
    have hmem := get?_eq_some_iff.mp hget
    cases mem_singleton.mp hmem
    exact ⟨by decide, by decide⟩
  refine ⟨_, rfl, ?_, rfl⟩
  exact (counts_exact (synced_deletingNode .active) (exactCounts_deletingNode .active)
    (Reached.start.step _ hok rfl)).1

end Service

end StorageController
end OpenNeon

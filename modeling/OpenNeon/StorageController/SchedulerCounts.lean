import OpenNeon.StorageController.TenantShard

/-!
# What the operations on an intent do

An operation on an intent makes one other intent of it.  It leaves the scheduler's nodes
as they are, apart from the counts.  These are seen as what other shards have on a node
and what the shard at hand has on it: they move along with the intent, and none is taken
below zero, because what is taken away is a location that the shard has.
-/

namespace OpenNeon
namespace StorageController

open Base RefCountUpdate Prog List

inductive Count where
  | shard
  | attached
  | home
  deriving DecidableEq

namespace SchedulerNode

def count (node : SchedulerNode) : Count -> Nat
  | .shard => node.shardCount
  | .attached => node.attachedShardCount
  | .home => node.homeShardCount

end SchedulerNode

/-!
## One update
-/

theorem decrement_cases (count : Nat) :
    count < 1 ∧ decrement count = .error .underflow ∨
      exists n, decrement count = .ok n ∧ n + 1 = count := by
  cases count with
  | zero => exact .inl ⟨Nat.one_pos, rfl⟩
  | succ n => exact .inr ⟨n, rfl, rfl⟩

variable {c : Prop}

theorem decrementIf_cases (c : Prop) [Decidable c] (count : Nat) :
    count < (if c then 1 else 0) ∧ decrementIf c count = .error .underflow ∨
      exists n, decrementIf c count = .ok n ∧ n + (if c then 1 else 0) = count := by
  unfold decrementIf
  split
  · exact decrement_cases count
  · exact .inr ⟨count, rfl, rfl⟩

theorem incrementIf_eq [Decidable c] (count : Nat) :
    incrementIf c count = count + if c then 1 else 0 := by
  unfold incrementIf
  split <;> rfl

namespace RefCountUpdate

def lowers (az : AvailabilityZone) (preferredAz : Option AvailabilityZone) :
    RefCountUpdate -> Count -> Nat
  | detach, .home => if some az = preferredAz then 1 else 0
  | detach, _ => 1
  | demoteAttached, .attached => 1
  | removeSecondary, .shard => 1
  | removeSecondary, .home => if some az = preferredAz then 1 else 0
  | changePreferredAzFrom oldAz, .home => if some az = oldAz then 1 else 0
  | _, _ => 0

def raises (az : AvailabilityZone) (preferredAz : Option AvailabilityZone) :
    RefCountUpdate -> Count -> Nat
  | promoteSecondary, .attached => 1
  | attach, .home => if some az = preferredAz then 1 else 0
  | attach, _ => 1
  | addSecondary, .shard => 1
  | addSecondary, .home => if some az = preferredAz then 1 else 0
  | changePreferredAzFrom _, .home => if some az = preferredAz then 1 else 0
  | _, _ => 0

def movesLocation : RefCountUpdate -> Prop
  | changePreferredAzFrom _ => False
  | _ => True

variable {update : RefCountUpdate}

section

variable (h : update.movesLocation) (az : AvailabilityZone) (preferredAz : Option AvailabilityZone)

include h az preferredAz

theorem lowers_home :
    update.lowers az preferredAz .home =
      if some az = preferredAz then update.lowers az preferredAz .shard else 0 := by
  cases update with
  | changePreferredAzFrom oldAz => cases h
  | _ => simp [lowers]

theorem raises_home :
    update.raises az preferredAz .home =
      if some az = preferredAz then update.raises az preferredAz .shard else 0 := by
  cases update with
  | changePreferredAzFrom oldAz => cases h
  | _ => simp [raises]

end

end RefCountUpdate

namespace SchedulerNode

variable {node : SchedulerNode} {preferredAz : Option AvailabilityZone} {update : RefCountUpdate}

/-- A count would go below zero, or only counts have changed, as the update says. -/
def Updates (node : SchedulerNode) (preferredAz : Option AvailabilityZone)
    (update : RefCountUpdate) (res : Except Fault SchedulerNode) : Prop :=
  (res = .error .underflow ∧ exists c, node.count c < update.lowers node.az preferredAz c) ∨
    exists node', res = .ok node' ∧ node'.az = node.az ∧ node'.maySchedule = node.maySchedule ∧
      forall c, node'.count c + update.lowers node.az preferredAz c =
        node.count c + update.raises node.az preferredAz c

theorem Updates.bind {x : Except Fault Nat} {f : Nat -> Except Fault SchedulerNode} {low : Nat}
    (c : Count) (hlow : low = update.lowers node.az preferredAz c)
    (hx : node.count c < low ∧ x = .error .underflow ∨
      exists n, x = .ok n ∧ n + low = node.count c)
    (hf : forall n, n + low = node.count c -> Updates node preferredAz update (f n)) :
    Updates node preferredAz update (x >>= f) := by
  rcases hx with ⟨hless, rfl⟩ | ⟨n, rfl, hn⟩
  · exact .inl ⟨rfl, c, hlow ▸ hless⟩
  · exact hf n hn

theorem updates_updateRefCounts (node : SchedulerNode) (preferredAz : Option AvailabilityZone)
    (update : RefCountUpdate) :
    Updates node preferredAz update (node.updateRefCounts preferredAz update) := by
  cases update with
  | promoteSecondary | attach | addSecondary =>
    refine .inr ⟨_, rfl, rfl, rfl, fun c => ?_⟩
    cases c <;> simp [count, lowers, raises, incrementIf_eq]
  | demoteAttached =>
    refine .bind .attached rfl (decrement_cases _) (fun n hn => ?_)
    refine .inr ⟨_, rfl, rfl, rfl, fun c => ?_⟩
    cases c with
    | attached => exact hn
    | _ => rfl
  | changePreferredAzFrom oldAz =>
    refine .bind .home rfl (decrementIf_cases _ _) (fun n hn => ?_)
    refine .inr ⟨_, rfl, rfl, rfl, fun c => ?_⟩
    cases c with
    | home =>
      simp only [count, lowers, raises, incrementIf_eq] at hn ⊢
      omega
    | _ => rfl
  | removeSecondary =>
    refine .bind .shard rfl (decrement_cases _) (fun n hn => ?_)
    refine .bind .home rfl (decrementIf_cases _ _) (fun m hm => ?_)
    refine .inr ⟨_, rfl, rfl, rfl, fun c => ?_⟩
    cases c with
    | shard => exact hn
    | attached => rfl
    | home => exact hm
  | detach =>
    refine .bind .shard rfl (decrement_cases _) (fun n hn => ?_)
    refine .bind .attached rfl (decrement_cases _) (fun k hk => ?_)
    refine .bind .home rfl (decrementIf_cases _ _) (fun m hm => ?_)
    refine .inr ⟨_, rfl, rfl, rfl, fun c => ?_⟩
    cases c with
    | shard => exact hn
    | attached => exact hk
    | home => exact hm

end SchedulerNode

namespace Scheduler

def Counts (s : Scheduler) (f : NodeId -> AvailabilityZone -> Count -> Nat) : Prop :=
  forall nodeId node, s.nodes.get? nodeId = some node ->
    forall c, node.count c = f nodeId node.az c

/-- The same nodes, in the same zones and as open to scheduling as before. -/
def SameNodes (s s' : Scheduler) : Prop :=
  forall nodeId, (s'.nodes.get? nodeId).map (fun node => (node.az, node.maySchedule)) =
    (s.nodes.get? nodeId).map (fun node => (node.az, node.maySchedule))

def Knows (s : Scheduler) (nodeId : NodeId) : Prop :=
  (s.nodes.get? nodeId).isSome = true

def IsOpen (s : Scheduler) (nodeId : NodeId) : Prop :=
  exists node, s.nodes.get? nodeId = some node ∧ node.maySchedule = .yes

namespace SameNodes

variable {s s' : Scheduler}

theorem refl (s : Scheduler) : s.SameNodes s :=
  fun _ => rfl

theorem trans {s'' : Scheduler} (h : s.SameNodes s') (h' : s'.SameNodes s'') : s.SameNodes s'' :=
  fun nodeId => (h' nodeId).trans (h nodeId)

theorem knows_iff (h : s.SameNodes s') (nodeId : NodeId) : s'.Knows nodeId <-> s.Knows nodeId := by
  have hisSome := congrArg Option.isSome (h nodeId)
  rw [Option.isSome_map, Option.isSome_map] at hisSome
  unfold Knows
  rw [hisSome]

theorem symm (h : s.SameNodes s') : s'.SameNodes s :=
  fun nodeId => (h nodeId).symm

theorem isOpen (h : s.SameNodes s') {nodeId : NodeId} (hopen : s.IsOpen nodeId) :
    s'.IsOpen nodeId := by
  rcases hopen with ⟨node, hget, hmay⟩
  have hsame := h nodeId
  rw [hget] at hsame
  rcases Option.map_eq_some_iff.mp hsame with ⟨node', hget', hpair⟩
  exact ⟨node', hget', (congrArg Prod.snd hpair).trans hmay⟩

theorem isOpen_iff (h : s.SameNodes s') (nodeId : NodeId) : s'.IsOpen nodeId <-> s.IsOpen nodeId :=
  ⟨h.symm.isOpen, h.isOpen⟩

end SameNodes

variable {s : Scheduler} {nodeId : NodeId}

theorem mem_scored {hardExclude : List NodeId} :
    nodeId ∈ s.scored hardExclude <-> s.IsOpen nodeId ∧ nodeId ∉ hardExclude := by
  constructor
  · intro h
    rcases mem_map.mp h with ⟨⟨k, node⟩, hmem, rfl⟩
    rcases mem_filter.mp hmem with ⟨hentry, htest⟩
    have htest := of_decide_eq_true htest
    exact ⟨⟨node, OrdMap.get?_eq_some_iff.mpr hentry, htest.1⟩, htest.2⟩
  · rintro ⟨⟨node, hget, hmay⟩, hnot⟩
    refine mem_map.mpr ⟨(nodeId, node), mem_filter.mpr ⟨?_, ?_⟩, rfl⟩
    · exact OrdMap.get?_eq_some_iff.mp hget
    · exact decide_eq_true ⟨hmay, hnot⟩

theorem nodup_scored (s : Scheduler) (hardExclude : List NodeId) : (s.scored hardExclude).Nodup :=
  (s.nodes.nodup_keys).sublist (filter_sublist.map _)

end Scheduler

abbrev Tally :=
  NodeId -> AvailabilityZone -> Count -> Nat

section

variable (update : RefCountUpdate) (nodeId : NodeId) (preferredAz : Option AvailabilityZone)

/-- An update takes a count that is high enough to another one. -/
def RefCountUpdate.Takes (az : AvailabilityZone) (c : Count) (n n' : Nat) : Prop :=
  update.lowers az preferredAz c ≤ n ∧
    n' + update.lowers az preferredAz c = n + update.raises az preferredAz c

/-- An update changes what is counted on a node as two functions differ. -/
structure RefCountUpdate.Shifts (f g : Tally) : Prop where
  takes : forall az c, update.Takes preferredAz az c (f nodeId az c) (g nodeId az c)
  frame : forall m, m ≠ nodeId -> g m = f m

theorem Scheduler.updateNodeRefCounts_cases (s : Scheduler) :
    (s.updateNodeRefCounts nodeId preferredAz update = .error .underflow ∧
        (exists az c, 0 < update.lowers az preferredAz c) ∧
        forall f g, update.Shifts nodeId preferredAz f g -> ¬ s.Counts f) ∨
      exists s', s.updateNodeRefCounts nodeId preferredAz update = .ok s' ∧ s.SameNodes s' ∧
        forall f g, update.Shifts nodeId preferredAz f g -> s.Counts f -> s'.Counts g := by
  unfold Scheduler.updateNodeRefCounts
  cases hget : s.nodes.get? nodeId with
  | none =>
    refine .inr ⟨s, rfl, SameNodes.refl s, fun f g hshifts hcounts m node hm c => ?_⟩
    have hne : m ≠ nodeId := by
      rintro rfl
      cases hget.symm.trans hm
    rw [hshifts.frame m hne]
    exact hcounts m node hm c
  | some node =>
    rcases node.updates_updateRefCounts preferredAz update with
      ⟨herror, c, hlow⟩ | ⟨node', hok, haz, hmay, hcount⟩
    · refine .inl ⟨by simp only [herror], ⟨node.az, c, Nat.zero_lt_of_lt hlow⟩, ?_⟩
      intro f g hshifts hcounts
      rw [hcounts nodeId node hget c] at hlow
      exact Nat.not_lt.mpr (hshifts.takes node.az c).1 hlow
    · refine .inr ⟨⟨s.nodes.insert nodeId node'⟩, by simp only [hok], fun m => ?_, ?_⟩
      · rw [OrdMap.get?_insert]
        split
        next heq =>
          rw [heq, hget]
          simp [haz, hmay]
        · rfl
      · intro f g hshifts hcounts m found hm c
        rw [OrdMap.get?_insert] at hm
        split at hm
        next heq =>
          cases hm
          have hnode := hcounts nodeId node hget c
          have hmoved := (hshifts.takes node.az c).2
          have hcount := hcount c
          rw [heq, haz]
          omega
        next hne =>
          rw [hshifts.frame m hne]
          exact hcounts m found hm c

end

/-!
## The locations of an intent
-/

namespace IntentState

def uses (i : IntentState) (nodeId : NodeId) (az : AvailabilityZone) : Count -> Nat
  | .shard => i.allPageservers.count nodeId
  | .attached => i.attached.toList.count nodeId
  | .home => if some az = i.preferredAzId then i.allPageservers.count nodeId else 0

end IntentState

/-- The counts are those of other shards and of the intent, which names no node twice. -/
structure Books (others : NodeId -> AvailabilityZone -> Count -> Nat) (p : Placement) :
    Prop where
  counts : p.scheduler.Counts (fun nodeId az c => others nodeId az c + p.intent.uses nodeId az c)
  distinct : p.intent.allPageservers.Nodup

section

variable {state state' : Type} (underflow : Prop) (Inv : state -> Prop)

/-- How a program may end early: with an error of scheduling in a state that keeps the
invariant, with the end of the controller, or by taking a count below zero if that can
happen. -/
def Ends : Fault -> state -> Prop
  | .underflow, _ => underflow
  | .schedule _, s => Inv s
  | _, _ => True

variable {underflow Inv}

theorem Ends.imp {underflow' : Prop} {Inv' : state' -> Prop} {s : state} {s' : state'} {e : Fault}
    (hunderflow : underflow -> underflow') (hinv : Inv s -> Inv' s') (h : Ends underflow Inv e s) :
    Ends underflow' Inv' e s' := by
  cases e with
  | underflow => exact hunderflow h
  | schedule x => exact hinv h
  | _ => trivial

end

namespace IntentState

variable {i j : IntentState} {nodeId m : NodeId} {update : RefCountUpdate}

theorem uses_congr (haz : j.preferredAzId = i.preferredAzId)
    (hattached : j.attached.toList.count m = i.attached.toList.count m)
    (hsecondary : j.secondary.count m = i.secondary.count m) : j.uses m = i.uses m := by
  funext az c
  cases c <;> simp [uses, allPageservers, haz, hattached, hsecondary]

theorem shifts_of_moves (hmoves : update.movesLocation) (haz : j.preferredAzId = i.preferredAzId)
    (hshard : forall az, update.Takes i.preferredAzId az .shard (i.uses nodeId az .shard)
      (j.uses nodeId az .shard))
    (hattached : forall az, update.Takes i.preferredAzId az .attached (i.uses nodeId az .attached)
      (j.uses nodeId az .attached))
    (hframe : forall m, m ≠ nodeId -> j.uses m = i.uses m) :
    update.Shifts nodeId i.preferredAzId i.uses j.uses := by
  refine ⟨fun az c => ?_, hframe⟩
  cases c with
  | shard => exact hshard az
  | attached => exact hattached az
  | home =>
    have hshard := hshard az
    rw [Takes, lowers_home hmoves, raises_home hmoves]
    simp only [uses, haz] at hshard ⊢
    split
    · exact hshard
    · exact ⟨Nat.le_refl _, rfl⟩

theorem shifts_addSecondary (i : IntentState) (nodeId : NodeId) :
    Shifts .addSecondary nodeId i.preferredAzId i.uses
      { i with secondary := i.secondary ++ [nodeId] }.uses := by
  refine shifts_of_moves trivial rfl (fun az => ?_) (fun az => ⟨Nat.zero_le _, rfl⟩)
    (fun m hm => uses_congr rfl rfl (by simp [Ne.symm hm]))
  simp [Takes, uses, allPageservers, lowers, raises, Nat.add_assoc]

theorem shifts_removeSecondary {secondary : List NodeId}
    (h : i.secondary.count nodeId = secondary.count nodeId + 1)
    (hframe : forall m, m ≠ nodeId -> secondary.count m = i.secondary.count m) :
    Shifts .removeSecondary nodeId i.preferredAzId i.uses { i with secondary }.uses := by
  refine shifts_of_moves trivial rfl (fun az => ?_) (fun az => ⟨Nat.zero_le _, rfl⟩)
    (fun m hm => uses_congr rfl rfl (hframe m hm))
  simp only [Takes, uses, allPageservers, count_append, lowers, raises]
  omega

theorem shifts_attach (i : IntentState) (nodeId : NodeId) :
    Shifts .attach nodeId i.preferredAzId { i with attached := none }.uses
      { i with attached := some nodeId }.uses := by
  refine shifts_of_moves (i := { i with attached := none }) trivial rfl (fun az => ?_)
    (fun az => ?_) (fun m hm => uses_congr rfl (by simp [Ne.symm hm]) rfl)
  · simp [Takes, uses, allPageservers, lowers, raises]
  · simp [Takes, uses, lowers, raises]

theorem shifts_detach (h : i.attached = some nodeId) :
    Shifts .detach nodeId i.preferredAzId i.uses { i with attached := none }.uses := by
  refine shifts_of_moves trivial rfl (fun az => ?_) (fun az => ?_)
    (fun m hm => uses_congr rfl (by simp [h, Ne.symm hm]) rfl)
  · simp [Takes, uses, allPageservers, h, lowers, raises]
  · simp [Takes, uses, h, lowers, raises]

theorem shifts_demoteAttached (h : i.attached = some nodeId) :
    Shifts .demoteAttached nodeId i.preferredAzId i.uses
      { i with attached := none, secondary := i.secondary ++ [nodeId] }.uses := by
  refine shifts_of_moves trivial rfl (fun az => ?_) (fun az => ?_)
    (fun m hm => uses_congr rfl (by simp [h, Ne.symm hm]) (by simp [Ne.symm hm]))
  · simp [Takes, uses, allPageservers, h, lowers, raises]
  · simp [Takes, uses, h, lowers, raises]

theorem shifts_promoteSecondary (hfree : i.attached = none)
    (hcount : i.secondary.count nodeId = 1) :
    Shifts .promoteSecondary nodeId i.preferredAzId i.uses
      { i with
        secondary := i.secondary.filter (fun n => n ≠ nodeId)
        attached := some nodeId }.uses := by
  have hgone : (i.secondary.filter (fun n => n ≠ nodeId)).count nodeId = 0 :=
    count_eq_zero.mpr (by simp)
  refine shifts_of_moves trivial rfl (fun az => ?_) (fun az => ?_) (fun m hm => ?_)
  · simpa [Takes, uses, allPageservers, hfree, hcount, lowers, raises] using hgone
  · simp [Takes, uses, hfree, lowers, raises]
  · refine uses_congr rfl (by simp [hfree, Ne.symm hm]) ?_
    exact count_filter (by simpa using hm)

end IntentState

/-!
## Operations
-/

/-- The scheduler has the nodes it had; its counts follow from one function to another. -/
structure Follows (given : Prop) (f g : Tally) (s s' : Scheduler) : Prop where
  same : s.SameNodes s'
  counts : given -> forall others : Tally, s.Counts (fun m az c => others m az c + f m az c) ->
    s'.Counts (fun m az c => others m az c + g m az c)

theorem Follows.trans {given : Prop} {f g k : Tally} {s s' s'' : Scheduler}
    (h : Follows given f g s s') (h' : Follows given g k s' s'') : Follows given f k s s'' :=
  ⟨h.same.trans h'.same,
    fun hgiven others hcounts => h'.counts hgiven others (h.counts hgiven others hcounts)⟩

/-- The intent is the given one now, and the counts have followed. -/
structure Turned (p : Placement) (j : IntentState) (q : Placement) : Prop
    extends Follows p.intent.allPageservers.Nodup p.intent.uses j.uses p.scheduler
      q.scheduler where
  intent : q.intent = j
  distinct : p.intent.allPageservers.Nodup -> j.allPageservers.Nodup

/-- The counts are not those of the intent and of other shards. -/
def Unbooked (p : Placement) : Prop :=
  forall others, ¬ Books others p

section

variable {p q : Placement} {j : IntentState}

theorem Turned.refl (p : Placement) : Turned p p.intent p :=
  ⟨⟨Scheduler.SameNodes.refl _, fun _ _ h => h⟩, rfl, id⟩

variable (h : Turned p j q)
include h

theorem Turned.books {others : Tally} (hp : Books others p) : Books others q := by
  have hcounts := h.counts hp.distinct others hp.counts
  have hdistinct := h.distinct hp.distinct
  rw [← h.intent] at hcounts hdistinct
  exact ⟨hcounts, hdistinct⟩

theorem Turned.unbooked (hq : Unbooked q) : Unbooked p :=
  fun others hp => hq others (h.books hp)

theorem Turned.trans {k : IntentState} {r : Placement} (h' : Turned q k r) : Turned p k r := by
  have hq : p.intent.allPageservers.Nodup -> q.intent.allPageservers.Nodup :=
    fun hp => h.intent.symm ▸ h.distinct hp
  refine ⟨⟨h.same.trans h'.same, fun hp others hcounts => ?_⟩, h'.intent,
    fun hp => h'.distinct (hq hp)⟩
  refine h'.counts (hq hp) others ?_
  rw [h.intent]
  exact h.counts hp others hcounts

end

namespace IntentState

variable {p : Placement} {post : Unit -> Placement -> Prop} {fail : Fault -> Prop}
  {i : IntentState} {nodeId : NodeId} {update : RefCountUpdate} {done left : List NodeId}
  {newAz : Option AvailabilityZone}

theorem wp_updateNodeRefCounts {given : Prop} {preferredAz : Option AvailabilityZone} {f g : Tally}
    (hshifts : given -> update.Shifts nodeId preferredAz f g)
    (hunderflow : (exists az c, 0 < update.lowers az preferredAz c) -> (given ->
      forall others : Tally, ¬ p.scheduler.Counts (fun m az c => others m az c + f m az c)) ->
      fail .underflow)
    (hpost : forall s, Follows given f g p.scheduler s -> post () { p with scheduler := s }) :
    wp (updateNodeRefCounts nodeId preferredAz update) post (fun e _ => fail e) p := by
  have hothers : given -> forall others : Tally, update.Shifts nodeId preferredAz
      (fun m az c => others m az c + f m az c) (fun m az c => others m az c + g m az c) := by
    intro hgiven others
    have hshifts := hshifts hgiven
    refine ⟨fun az c => ⟨(hshifts.takes az c).1.trans (Nat.le_add_left _ _), ?_⟩, fun m hm => ?_⟩
    · rw [Nat.add_assoc, (hshifts.takes az c).2, Nat.add_assoc]
    · rw [hshifts.frame m hm]
  refine wp_tryModify.mpr ?_
  rcases p.scheduler.updateNodeRefCounts_cases update nodeId preferredAz with
    ⟨herror, hlowers, hnot⟩ | ⟨s, hok, hsame, hcounts⟩
  · rw [herror]
    exact hunderflow hlowers (fun hgiven others => hnot _ _ (hothers hgiven others))
  · rw [hok]
    exact hpost s ⟨hsame, fun hgiven others => hcounts _ _ (hothers hgiven others)⟩

theorem unbooked_of_counts (h : p.intent.allPageservers.Nodup -> forall others : Tally,
    ¬ p.scheduler.Counts (fun m az c => others m az c + p.intent.uses m az c)) : Unbooked p :=
  fun others hp => h hp.distinct others hp.counts

theorem wp_pushSecondary (hassertion : nodeId ∈ p.intent.allPageservers -> fail .assertion) :
    wp (pushSecondary nodeId)
      (fun _ => Turned p { p.intent with secondary := p.intent.secondary ++ [nodeId] })
      (fun e _ => fail e) p := by
  unfold pushSecondary refuse
  simp only [wp_bind, wp_get, wp_ite, wp_throw, wp_pure]
  split
  next hsecondary => exact hassertion (mem_append_right _ hsecondary)
  next hsecondary =>
    split
    next hattached => exact hassertion (mem_append_left _ (by simp [hattached]))
    next hattached =>
      have hnew : nodeId ∉ p.intent.allPageservers := by
        simp [allPageservers, hsecondary, hattached]
      refine wp_updateNodeRefCounts (fun _ => shifts_addSecondary p.intent nodeId) ?_
        (fun s hs => ⟨hs, rfl, fun hdistinct => ?_⟩)
      · rintro ⟨_, c, hc⟩
        cases c <;> cases hc
      · have hall : (p.intent.allPageservers ++ [nodeId]).Nodup :=
          nodup_append_comm.mp (nodup_cons.mpr ⟨hnew, hdistinct⟩)
        rwa [allPageservers, append_assoc] at hall

theorem wp_takeAttached
    (hunderflow : p.intent.attached ≠ none -> Unbooked p -> fail .underflow) :
    wp takeAttached (fun _ => Turned p { p.intent with attached := none })
      (fun e _ => fail e) p := by
  unfold takeAttached
  simp only [wp_bind, wp_get, wp_option_forM]
  split
  next hnone =>
    rw [show { p.intent with attached := none } = p.intent by rw [← hnone]]
    exact Turned.refl p
  next nodeId hattached =>
    refine wp_updateNodeRefCounts (fun _ => shifts_detach hattached) (fun _ hnot => ?_)
      (fun s hs => ⟨hs, rfl, fun hdistinct => hdistinct.sublist (sublist_append_right _ _)⟩)
    exact hunderflow (by simp [hattached]) (unbooked_of_counts hnot)

theorem wp_setAttached (hassertion : nodeId ∈ p.intent.secondary -> fail .assertion)
    (hunderflow : p.intent.attached ≠ none -> Unbooked p -> fail .underflow) :
    wp (setAttached (some nodeId))
      (fun _ => Turned p { p.intent with attached := some nodeId }) (fun e _ => fail e) p := by
  have hcheck : forall q, (nodeId ∉ p.intent.secondary ->
      Turned p { p.intent with attached := some nodeId } q) ->
      wp (refuse (nodeId ∈ p.intent.secondary) .assertion)
        (fun _ => Turned p { p.intent with attached := some nodeId }) (fun e _ => fail e) q := by
    intro q hq
    unfold refuse
    split
    next hmem => exact hassertion hmem
    next hnot => exact hq hnot
  unfold setAttached onlyIf
  simp only [wp_bind, wp_get, wp_ite]
  split
  · refine wp_imp (wp_takeAttached hunderflow) ?_
    rintro _ ⟨_, s⟩ ⟨hs, rfl, hdistinct⟩
    refine wp_bind.mpr (wp_updateNodeRefCounts 
      (fun _ => shifts_attach p.intent nodeId) ?_
      (fun s' (hs' : Follows p.intent.allPageservers.Nodup _ _ _ s') => ?_))
    · rintro ⟨_, c, hc⟩
      cases c <;> cases hc
    · exact hcheck _ (fun hnot =>
        ⟨hs.trans hs', rfl, fun hp => nodup_cons.mpr ⟨hnot, hdistinct hp⟩⟩)
  next hsame =>
    refine hcheck p (fun _ => ?_)
    rw [← not_not.mp hsame]
    exact Turned.refl p

theorem mem_promoteAttached {m : NodeId} (hmem : nodeId ∈ i.secondary)
    (h : m ∈ { i with
      secondary := i.secondary.filter (fun n => n ≠ nodeId)
      attached := some nodeId }.allPageservers) : m ∈ i.allPageservers := by
  rcases mem_cons.mp h with rfl | h
  · exact mem_append_right _ hmem
  · exact mem_append_right _ (mem_filter.mp h).1

/-- What becomes of the intent if the node is not to be attached. -/
def demoted (i : IntentState) (nodeId : NodeId) : IntentState :=
  if i.attached = some nodeId then
    { i with attached := none, secondary := i.secondary ++ [nodeId] }
  else i

theorem mem_demoted {m : NodeId} (h : m ∈ (i.demoted nodeId).allPageservers) :
    m ∈ i.allPageservers := by
  unfold demoted at h
  split at h
  next hattached =>
    rw [allPageservers, hattached]
    have h : m ∈ i.secondary ++ [nodeId] := h
    exact mem_append.mpr (mem_append.mp h).symm
  · exact h

section

variable (hunderflow : Unbooked p -> fail .underflow)
include hunderflow

theorem wp_removeSecondary (nodeId : NodeId) :
    wp (removeSecondary nodeId)
      (fun _ => Turned p { p.intent with secondary := p.intent.secondary.erase nodeId })
      (fun e _ => fail e) p := by
  unfold removeSecondary onlyIf
  simp only [wp_bind, wp_get, wp_ite]
  split
  next hmem =>
    have hcount : p.intent.secondary.count nodeId =
        (p.intent.secondary.erase nodeId).count nodeId + 1 := by
      have hpos := count_pos_iff.mpr hmem
      rw [count_erase_self]
      omega
    refine wp_updateNodeRefCounts
      (fun _ => shifts_removeSecondary hcount (fun m hm => count_erase_of_ne hm))
      (fun _ hnot => hunderflow (unbooked_of_counts hnot)) (fun s hs => ⟨hs, rfl, fun hp => ?_⟩)
    exact hp.sublist ((List.Sublist.refl _).append erase_sublist)
  next hmem =>
    rw [erase_of_not_mem hmem]
    exact Turned.refl p

theorem wp_popSecondary :
    wp popSecondary
      (fun _ => Turned p { p.intent with secondary := p.intent.secondary.dropLast })
      (fun e _ => fail e) p := by
  unfold popSecondary
  simp only [wp_bind, wp_get, wp_option_forM]
  split
  next hnone =>
    have hempty := getLast?_eq_none_iff.mp hnone
    rw [show p.intent.secondary.dropLast = p.intent.secondary by rw [hempty]; rfl]
    exact Turned.refl p
  next nodeId hlast =>
    have hsplit : p.intent.secondary = p.intent.secondary.dropLast ++ [nodeId] := by
      rcases getLast?_eq_some_iff.mp hlast with ⟨front, hfront⟩
      rw [hfront, dropLast_concat]
    have hcount : forall m, p.intent.secondary.count m =
        p.intent.secondary.dropLast.count m + [nodeId].count m := by
      intro m
      conv => lhs; rw [hsplit]
      exact count_append
    refine wp_updateNodeRefCounts (fun _ => shifts_removeSecondary ?_ (fun m hm => ?_))
      (fun _ hnot => hunderflow (unbooked_of_counts hnot)) (fun s hs => ⟨hs, rfl, fun hp => ?_⟩)
    · rw [hcount, count_singleton_self]
    · rw [hcount, count_singleton, if_neg (by simpa using Ne.symm hm), Nat.add_zero]
    · exact hp.sublist ((List.Sublist.refl _).append (dropLast_sublist _))

theorem wp_demoteAttached (nodeId : NodeId) :
    wp (demoteAttached nodeId)
      (fun demoted q => demoted = decide (p.intent.attached = some nodeId) ∧
        Turned p (p.intent.demoted nodeId) q) (fun e _ => fail e) p := by
  unfold demoteAttached demoted
  simp only [wp_bind, wp_get]
  split
  next hattached =>
    simp only [modifyIntent, Prog.wp_modify, wp_bind]
    refine wp_updateNodeRefCounts (fun _ => shifts_demoteAttached hattached)
      (fun _ hnot => hunderflow (unbooked_of_counts hnot))
      (fun s hs => ⟨by simp [hattached], hs, rfl, fun hdistinct => ?_⟩)
    rw [allPageservers, hattached, nodup_append_comm] at hdistinct
    exact hdistinct
  next hattached => exact ⟨by simp [hattached], Turned.refl p⟩

end

theorem wp_promoteAttached (hfree : p.intent.attached = none)
    (hmem : nodeId ∈ p.intent.secondary) :
    wp (promoteAttached nodeId)
      (fun _ => Turned p { p.intent with
        secondary := p.intent.secondary.filter (fun n => n ≠ nodeId)
        attached := some nodeId }) (fun e _ => fail e) p := by
  have hnodup : p.intent.allPageservers.Nodup -> p.intent.secondary.Nodup := by
    intro hall
    rwa [allPageservers, hfree] at hall
  unfold promoteAttached
  simp only [wp_bind, wp_get, hfree, modifyIntent, Prog.wp_modify]
  refine wp_updateNodeRefCounts
    (fun hp => shifts_promoteSecondary hfree (count_eq_one_of_mem (hnodup hp) hmem)) ?_
    (fun s hs => ⟨hs, rfl, fun hp => nodup_cons.mpr ⟨by simp, (hnodup hp).filter _⟩⟩)
  rintro ⟨_, c, hc⟩
  cases c <;> cases hc

theorem wp_updateAll {given : Prop} {preferredAz : Option AvailabilityZone}
    (tally : List NodeId -> List NodeId -> Tally)
    (hshifts : forall done nodeId left,
      update.Shifts nodeId preferredAz (tally done (nodeId :: left))
        (tally (done ++ [nodeId]) left))
    (done left : List NodeId) {all locations : List NodeId} (hall : all = locations ++ left)
    (hunderflow : (given -> forall others : Tally, ¬ p.scheduler.Counts
      (fun m az c => others m az c + tally done all m az c)) -> fail .underflow) :
    wp (locations.forM (fun n => updateNodeRefCounts n preferredAz update))
      (fun _ q => q.intent = p.intent ∧ Follows given (tally done all)
        (tally (done ++ locations) left) p.scheduler q.scheduler) (fun e _ => fail e) p := by
  induction locations generalizing p done all with
  | nil =>
    subst hall
    rw [append_nil]
    exact ⟨rfl, Scheduler.SameNodes.refl _, fun _ _ h => h⟩
  | cons nodeId rest ih =>
    subst hall
    refine wp_bind.mpr (wp_updateNodeRefCounts (fun _ => hshifts done nodeId (rest ++ left))
      (fun _ => hunderflow) (fun s hs => ?_))
    refine wp_imp (ih (done ++ [nodeId]) rfl (fun hnot => hunderflow
      (fun hgiven others hcounts => hnot hgiven others (hs.counts hgiven others hcounts)))) ?_
    rintro _ q ⟨hintent, hq⟩
    rw [append_assoc] at hq
    exact ⟨hintent, hs.trans hq⟩

theorem wp_clearSecondary (hunderflow : Unbooked p -> fail .underflow) :
    wp clearSecondary (fun _ => Turned p { p.intent with secondary := [] })
      (fun e _ => fail e) p := by
  have hshifts : forall (_ : List NodeId) (nodeId : NodeId) (left : List NodeId),
      Shifts .removeSecondary nodeId p.intent.preferredAzId
        { p.intent with secondary := nodeId :: left }.uses
        { p.intent with secondary := left }.uses := fun _ nodeId left =>
    shifts_removeSecondary (i := { p.intent with secondary := nodeId :: left })
      count_cons_self (fun m hm => (count_cons_of_ne (Ne.symm hm)).symm)
  unfold clearSecondary
  simp only [wp_bind, wp_get]
  refine wp_imp (wp_updateAll (fun _ left => { p.intent with secondary := left }.uses) hshifts
    [] [] (append_nil _).symm (fun hnot => hunderflow (unbooked_of_counts hnot))) ?_
  rintro _ q ⟨hintent, hq⟩
  refine ⟨hq, ?_, fun hp => hp.sublist ((List.Sublist.refl _).append (nil_sublist _))⟩
  dsimp only
  rw [hintent]

theorem wp_clear (hunderflow : Unbooked p -> fail .underflow) :
    wp clear (fun _ => Turned p { p.intent with attached := none, secondary := [] })
      (fun e _ => fail e) p := by
  refine wp_bind.mpr (wp_imp (wp_takeAttached (fun _ => hunderflow)) ?_)
  intro _ q hq
  refine wp_imp (wp_clearSecondary (fun hnot => hunderflow (hq.unbooked hnot))) ?_
  intro _ r hr
  have hturned := hq.trans hr
  rwa [hq.intent] at hturned

/-!
### The preferred zone

The zone is changed node by node.  In between, the locations done count for the new zone
and those left for the old one.
-/

/-- What locations add to the count of homes in a zone. -/
def homes (preferredAz : Option AvailabilityZone) (locations : List NodeId) (nodeId : NodeId)
    (az : AvailabilityZone) : Nat :=
  if some az = preferredAz then locations.count nodeId else 0

/-- The uses of an intent while its preferred zone is changed. -/
def usesBetween (i : IntentState) (newAz : Option AvailabilityZone) (done left : List NodeId)
    (nodeId : NodeId) (az : AvailabilityZone) : Count -> Nat
  | .home => homes newAz done nodeId az + homes i.preferredAzId left nodeId az
  | c => i.uses nodeId az c

theorem shifts_changePreferredAz (i : IntentState) (newAz : Option AvailabilityZone)
    (done : List NodeId) (nodeId : NodeId) (left : List NodeId) :
    Shifts (.changePreferredAzFrom i.preferredAzId) nodeId newAz
      (usesBetween i newAz done (nodeId :: left))
      (usesBetween i newAz (done ++ [nodeId]) left) := by
  refine ⟨fun az c => ?_, fun m hm => ?_⟩
  · cases c with
    | home =>
      simp only [Takes, lowers, raises, usesBetween, homes, count_cons_self, count_append,
        count_nil]
      split <;> split <;> omega
    | _ => exact ⟨Nat.zero_le _, rfl⟩
  · funext az c
    cases c with
    | home => simp [usesBetween, homes, Ne.symm hm]
    | _ => rfl

theorem usesBetween_start (i : IntentState) (newAz : Option AvailabilityZone) :
    usesBetween i newAz [] i.allPageservers = i.uses := by
  funext m az c
  cases c with
  | home => simp [usesBetween, homes, uses]
  | _ => rfl

theorem usesBetween_end (i : IntentState) (newAz : Option AvailabilityZone) :
    usesBetween i newAz i.allPageservers [] = { i with preferredAzId := newAz }.uses := by
  funext m az c
  cases c with
  | home => simp [usesBetween, homes, uses, allPageservers]
  | _ => rfl

theorem wp_setPreferredAz (hunderflow : Unbooked p -> fail .underflow) :
    wp (setPreferredAz newAz) (fun _ => Turned p { p.intent with preferredAzId := newAz })
      (fun e _ => fail e) p := by
  unfold setPreferredAz onlyIf
  simp only [wp_bind, wp_get, wp_ite]
  split
  next hnew =>
    have hstart : (p.intent.allPageservers.Nodup -> forall others : Tally, ¬ p.scheduler.Counts
        (fun m az c => others m az c +
          usesBetween p.intent newAz [] p.intent.allPageservers m az c)) -> fail .underflow := by
      rw [usesBetween_start]
      exact fun hnot => hunderflow (unbooked_of_counts hnot)
    refine (wp_forM_toList _ _).mp ?_
    refine wp_imp (wp_updateAll _ (shifts_changePreferredAz p.intent newAz) [] p.intent.secondary
      rfl hstart) ?_
    rintro _ q ⟨hintent, hq⟩
    refine wp_bind.mpr (wp_imp (wp_updateAll _ (shifts_changePreferredAz p.intent newAz)
      p.intent.attached.toList [] (append_nil _).symm (fun hnot => hstart
        (fun hp others hcounts => hnot hp others (hq.counts hp others hcounts)))) ?_)
    rintro _ r ⟨hintent', hr⟩
    have hfollows : Follows p.intent.allPageservers.Nodup
        (usesBetween p.intent newAz [] p.intent.allPageservers)
        (usesBetween p.intent newAz p.intent.allPageservers []) p.scheduler r.scheduler :=
      hq.trans hr
    rw [usesBetween_start, usesBetween_end] at hfollows
    refine ⟨hfollows, ?_, id⟩
    dsimp only
    rw [hintent', hintent]
  next hsame =>
    rw [← not_not.mp hsame]
    exact Turned.refl p

end IntentState
end StorageController
end OpenNeon

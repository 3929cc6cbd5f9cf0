import OpenNeon.StorageController.SchedulerCounts

/-!
# Scheduling and the placement policy

Scheduling gives a shard the locations that its policy asks for, names only nodes that it
named before and nodes that the scheduler has chosen, and keeps the counts in step with
the intent.  A node for a further secondary location is looked for outside the attached
location and those added before it, but not outside the secondary locations that the shard
had: scheduling relies on these being closed whenever more are wanted.
-/

namespace OpenNeon
namespace StorageController

open Base IntentState List
open Prog (Maintains wp wp_bind wp_get wp_imp wp_ite wp_mono wp_option_forM wp_then onlyIf)

/-!
## Choosing a node
-/

section

variable {s : Scheduler} {nodes : List NodeId}

theorem Scheduler.mem_filterUsableNodes {usable : List (NodeId × AvailabilityZone)}
    (h : s.filterUsableNodes nodes = .ok usable) {c : NodeId × AvailabilityZone} :
    c ∈ usable <-> c.1 ∈ nodes ∧
      exists node, s.nodes.get? c.1 = some node ∧ node.maySchedule = .yes ∧ node.az = c.2 := by
  induction nodes generalizing usable with
  | nil =>
    cases h
    simp
  | cons nodeId rest ih =>
    unfold Scheduler.filterUsableNodes at h
    split at h
    · cases h
    next node hget =>
      split at h
      · cases h
      next usable' hrest =>
        have hrest := ih hrest
        split at h <;> cases h <;> grind

theorem Scheduler.filterUsableNodes_error {e : Fault} (h : s.filterUsableNodes nodes = .error e) :
    exists nodeId, nodeId ∈ nodes ∧ s.nodes.get? nodeId = none ∧ e = .missingNode nodeId := by
  induction nodes with
  | nil => cases h
  | cons nodeId rest ih =>
    unfold Scheduler.filterUsableNodes at h
    split at h
    next hnone =>
      cases h
      exact ⟨nodeId, mem_cons_self, hnone, rfl⟩
    · split at h
      next e' hrest =>
        cases h
        rcases ih hrest with ⟨m, hm, hmissing, he⟩
        exact ⟨m, mem_cons_of_mem _ hm, hmissing, he⟩
      · split at h <;> cases h

end

def PlacementPolicy.Fulfilled (i : IntentState) : PlacementPolicy -> Prop
  | .attached n => i.attached ≠ none ∧ n ≤ i.secondary.length
  | .secondary => i.attached = none ∧ i.secondary.length = 1
  | .detached => i.allPageservers = []

abbrev Placing.Distinct (p : Placing) : Prop :=
  p.shard.intent.allPageservers.Nodup

def Service.pageserver (scheduling : NodeSchedulingPolicy) : Node :=
  { availability := .active, scheduling := scheduling, availabilityZoneId := "a" }

/-- A shard that is attached to the first node. -/
def Service.attachedShard (scheduling : ShardSchedulingPolicy) : TenantShard :=
  let identity : ShardIdentity := { number := 0, count := ⟨0⟩, stripeSize := 2048 }
  let config : TenantConfig := { heatmapPeriod := none, settings := 0 }
  { shard := identity
    intent := { attached := some 1, secondary := [], preferredAzId := some "a" }
    observed := OrdMap.empty.insert 1
      { conf := some (attachedLocationConf 1 identity config (.attached 0) 0) }
    policy := .attached 0
    schedulingPolicy := scheduling
    preferredNode := none
    config := config
    generation := some 1
    splitting := .idle
    sequence := 1
    waiter := 0
    errorWaiter := 0
    reconciler := none
    pendingComputeNotification := false }

namespace TenantShard

variable {alpha : Type} {p : Placing} {nodeId : NodeId} {fail : Fault -> Placing -> Prop}

section

variable {i : IntentState} {s : Scheduler}

theorem preferredSecondary_mem {nodeId : NodeId}
    (h : preferredSecondary i s = .ok (some nodeId)) : nodeId ∈ i.secondary := by
  unfold preferredSecondary at h
  split at h
  · cases h
  next candidates hcandidates =>
    have hor := Except.ok.inj h
    have hmem : forall l : List (NodeId × AvailabilityZone),
        (forall c, c ∈ l -> c ∈ candidates) -> (l.map Prod.fst).min? = some nodeId ->
        nodeId ∈ i.secondary := by
      intro l hl hmin
      rcases mem_map.mp (min?_mem hmin) with ⟨c, hc, rfl⟩
      exact ((Scheduler.mem_filterUsableNodes hcandidates).mp (hl c hc)).1
    rcases Option.or_eq_some_iff.mp hor with haway | ⟨_, hhome⟩
    · exact hmem _ (fun c hc => (mem_filter.mp hc).1) haway
    · exact hmem _ (fun c hc => (mem_filter.mp hc).1) hhome

theorem preferredSecondary_error {e : Fault} (h : preferredSecondary i s = .error e) :
    exists nodeId, nodeId ∈ i.secondary ∧ s.nodes.get? nodeId = none ∧
      e = .missingNode nodeId := by
  unfold preferredSecondary at h
  split at h
  next e' herror =>
    cases h
    exact Scheduler.filterUsableNodes_error herror
  · cases h

end

theorem wp_scheduleShard {hardExclude : List NodeId} {post : NodeId -> Placing -> Prop}
    (hpost : forall nodeId picks, p.picks = nodeId :: picks ->
      nodeId ∈ p.scheduler.scored hardExclude -> post nodeId { p with picks := picks })
    (hnone : forall e, p.scheduler.scored hardExclude = [] -> fail (.schedule e) p)
    (hunpicked : (forall nodeId picks, p.picks = nodeId :: picks ->
      nodeId ∉ p.scheduler.scored hardExclude) -> fail .unpicked p) :
    wp (scheduleShard hardExclude) post fail p := by
  unfold scheduleShard Prog.refuse
  simp only [wp_bind, Prog.wp_get]
  split
  next hentries =>
    refine hnone _ ?_
    rw [Scheduler.scored, hentries]
    rfl
  · split
    next hscored => exact hnone _ hscored
    · cases hpicks : p.picks with
      | nil => exact hunpicked (fun _ _ h => by cases hpicks.symm.trans h)
      | cons nodeId picks =>
        dsimp only
        split
        next hmem => exact hunpicked (fun _ _ h => by cases hpicks.symm.trans h; exact hmem)
        next hmem => exact hpost nodeId picks hpicks (not_not.mp hmem)

theorem mem_of_scored_nil {hardExclude : List NodeId} (h : p.scheduler.scored hardExclude = [])
    (hopen : p.scheduler.IsOpen nodeId) : nodeId ∈ hardExclude := by
  by_contra hnot
  have hscored := Scheduler.mem_scored.mpr ⟨hopen, hnot⟩
  rw [h] at hscored
  cases hscored

/-!
## What operations do to a shard
-/

/-- The counts are those of other shards and of the shard's intent. -/
def Balanced (others : NodeId -> AvailabilityZone -> Count -> Nat) (p : Placing) : Prop :=
  Books others p.placement

/-- The scheduler is as it was, counts have followed the intent, and newly named nodes are `ok`. -/
structure Moved (ok : NodeId -> Prop) (p q : Placing) : Prop where
  same : p.scheduler.SameNodes q.scheduler
  balanced : forall others, Balanced others p -> Balanced others q
  distinct : p.Distinct -> q.Distinct
  named : forall m, m ∈ q.shard.intent.allPageservers ->
    m ∈ p.shard.intent.allPageservers ∨ ok m

structure Became (p : Placing) (j : IntentState) (q : Placing) : Prop where
  turned : Turned p.placement j q.placement
  shard : q.shard = { p.shard with intent := j }
  picks : q.picks = p.picks

/-- The counts are not those of the shard's intent and of other shards. -/
abbrev Unbalanced (p : Placing) : Prop :=
  Unbooked p.placement

section

variable {ok : NodeId -> Prop} {start q : Placing} {j : IntentState}

theorem Became.intent (h : Became p j q) : q.shard.intent = j := by
  rw [h.shard]

theorem Moved.refl (p : Placing) : Moved ok p p :=
  ⟨Scheduler.SameNodes.refl _, fun _ h => h, id, fun _ => .inl⟩

variable (hp : Moved ok start p)
include hp

theorem Moved.withPicks (picks : List NodeId) : Moved ok start { p with picks := picks } :=
  ⟨hp.same, hp.balanced, hp.distinct, hp.named⟩

theorem Moved.withShard {shard : TenantShard} (hintent : shard.intent = p.shard.intent) :
    Moved ok start { p with shard := shard } := by
  have hplacement : Placing.placement { p with shard := shard } = p.placement := by
    rw [Placing.placement, hintent]
    rfl
  refine ⟨hp.same, fun others hs => ?_, fun hs => ?_, fun m hm => hp.named m (hintent ▸ hm)⟩
  · rw [Balanced, hplacement]
    exact hp.balanced others hs
  · rw [Placing.Distinct, hintent]
    exact hp.distinct hs

theorem Moved.unbalanced (h : Unbalanced p) : Unbalanced start :=
  fun others hstart => h others (hp.balanced others hstart)

theorem Moved.trans {ok' : NodeId -> Prop} (h : Moved ok' p q) (hok : forall m, ok' m -> ok m) :
    Moved ok start q := by
  refine ⟨hp.same.trans h.same, fun others hs => h.balanced others (hp.balanced others hs),
    fun hs => h.distinct (hp.distinct hs), fun m hmem => ?_⟩
  rcases h.named m hmem with hmem | hm
  · exact hp.named m hmem
  · exact .inr (hok m hm)

theorem Moved.became (h : Became p j q)
    (hnamed : forall m, m ∈ j.allPageservers -> m ∈ p.shard.intent.allPageservers ∨ ok m) :
    Moved ok start q := by
  refine hp.trans ⟨h.turned.same, fun others => h.turned.books, fun hdistinct => ?_,
    fun m hmem => hnamed m (h.intent ▸ hmem)⟩ (fun _ hm => hm)
  rw [Placing.Distinct, h.intent]
  exact h.turned.distinct hdistinct

end

section

variable {m : Prog Placement Fault alpha} {j : IntentState}

theorem wp_onIntent {post : alpha -> Placing -> Prop} :
    wp (onIntent m) post fail p <->
      wp m (fun a q => post a (Placing.withPlacement q p))
        (fun e q => fail e (Placing.withPlacement q p)) p.placement :=
  Prog.wp_zoom _ _ m

theorem wp_turn (h : wp m (fun _ => Turned p.placement j)
    (fun e _ => forall q, fail e q) p.placement) :
    wp (onIntent m) (fun _ => Became p j) fail p := by
  refine wp_onIntent.mpr (wp_mono h (fun _ q hq => ⟨hq, ?_, rfl⟩) (fun _ _ hfail => hfail _))
  show { p.shard with intent := q.intent } = _
  rw [hq.intent]

theorem wp_demote (hunderflow : Unbalanced p -> forall q, fail .underflow q) (nodeId : NodeId) :
    wp (onIntent (demoteAttached nodeId))
      (fun demoted q => demoted = decide (p.shard.intent.attached = some nodeId) ∧
        Became p (p.shard.intent.demoted nodeId) q) fail p := by
  have hdemote : wp (demoteAttached nodeId) _ (fun e _ => forall q, fail e q) p.placement :=
    wp_demoteAttached hunderflow nodeId
  refine wp_onIntent.mpr (wp_mono hdemote (fun _ q hq => ⟨hq.1, hq.2, ?_, rfl⟩)
    (fun _ _ hfail => hfail _))
  show { p.shard with intent := q.intent } = _
  rw [hq.2.intent]
  rfl

end

/-!
## The parts of scheduling
-/

/-- How many nodes the attached location needs, and the secondary locations left. -/
def remaining (p : Placing) : Nat × List NodeId :=
  match p.shard.intent.attached, preferredSecondary p.shard.intent p.scheduler with
  | some _, _ => (0, p.shard.intent.secondary)
  | none, .ok none => (1, p.shard.intent.secondary)
  | none, .ok (some promoted) => (0, p.shard.intent.secondary.filter (fun n => n ≠ promoted))
  | none, .error _ => (0, [])

def missing (p : Placing) : Nat :=
  match p.shard.policy with
  | .attached n => (remaining p).1 + (n - (remaining p).2.length)
  | .secondary => if p.shard.intent.allPageservers = [] then 1 else 0
  | .detached => 0

/-- No secondary location that is left is open when more are wanted. -/
def Clear (p : Placing) : Prop :=
  forall n, p.shard.policy = .attached n -> n ≤ (remaining p).2.length ∨
    forall nodeId, nodeId ∈ (remaining p).2 -> ¬ p.scheduler.IsOpen nodeId

/-- Only nodes that the scheduler has chosen are new to the shard. -/
abbrev Chosen (p q : Placing) : Prop :=
  Moved p.scheduler.IsOpen p q

/-- What the shard is attached to, and what is left of the secondary locations. -/
structure AttachedTo (p : Placing) (nodeId : NodeId) (q : Placing) : Prop where
  moved : Chosen p q
  attached : q.shard.intent.attached = some nodeId
  secondary : q.shard.intent.secondary = (remaining p).2
  had : (remaining p).1 ≠ 1 -> nodeId ∈ p.shard.intent.allPageservers ∧ q.picks = p.picks

theorem wp_scheduleAttached
    (hunplaced : forall e, (remaining p).1 = 1 ->
      p.scheduler.scored p.shard.intent.secondary = [] -> fail (.schedule e) p)
    (hunpicked : (remaining p).1 = 1 -> fail .unpicked p)
    (hmissing : forall m, (remaining p).2 = [] -> m ∈ p.shard.intent.secondary ->
      ¬ p.scheduler.Knows m -> fail (.missingNode m) p) :
    wp scheduleAttached (fun attached => AttachedTo p attached.2) fail p := by
  refine wp_bind.mpr ?_
  simp only [wp_get]
  cases hattached : p.shard.intent.attached with
  | some nodeId =>
    have hleft : remaining p = (0, p.shard.intent.secondary) := by
      simp only [remaining, hattached]
    refine ⟨Moved.refl p, hattached, by rw [hleft], fun _ => ⟨?_, rfl⟩⟩
    simp [allPageservers, hattached]
  | none =>
    refine wp_bind.mpr (Prog.wp_read.mpr ?_)
    cases hsecondary : preferredSecondary p.shard.intent p.scheduler with
    | error e =>
      rcases preferredSecondary_error hsecondary with ⟨m, hmem, hnone, rfl⟩
      refine hmissing m (by simp only [remaining, hattached, hsecondary]) hmem ?_
      simp [Scheduler.Knows, hnone]
    | ok choice =>
      cases choice with
      | none =>
        have hleft : remaining p = (1, p.shard.intent.secondary) := by
          simp only [remaining, hattached, hsecondary]
        simp only [hleft, forall_const] at hunplaced hunpicked
        refine wp_bind.mpr (wp_scheduleShard ?_ hunplaced (fun _ => hunpicked))
        intro nodeId picks _ hscored
        have hscored := Scheduler.mem_scored.mp hscored
        refine wp_then (wp_turn (wp_setAttached (fun hmem => absurd hmem hscored.2)
          (fun hnone => absurd hattached hnone))) (fun _ q hq => ?_)
        refine ⟨((Moved.refl p).withPicks picks).became hq (fun m hmem => ?_), ?_, ?_, ?_⟩
        · rcases mem_cons.mp hmem with rfl | hmem
          · exact .inr hscored.1
          · exact .inl (mem_append_right _ hmem)
        · rw [hq.intent]
        · rw [hq.intent, hleft]
          rfl
        · simp [hleft]
      | some promoted =>
        have hleft : remaining p =
            (0, p.shard.intent.secondary.filter (fun n => n ≠ promoted)) := by
          simp only [remaining, hattached, hsecondary]
        have hmem := preferredSecondary_mem hsecondary
        refine wp_then (wp_turn (wp_promoteAttached hattached hmem)) (fun _ q hq => ?_)
        refine ⟨(Moved.refl p).became hq (fun m hm => .inl (mem_promoteAttached hmem hm)), ?_, ?_,
          fun _ => ⟨mem_append_right _ hmem, hq.picks⟩⟩
        · rw [hq.intent]
        · rw [hq.intent, hleft]
          rfl

section

variable {a : NodeId} {rounds limit : Nat} {kept new : List NodeId} {start : Placing}

theorem mem_pushSecondary {ok : NodeId -> Prop} {i : IntentState} {m : NodeId} (hnode : ok nodeId)
    (h : m ∈ { i with secondary := i.secondary ++ [nodeId] }.allPageservers) :
    m ∈ i.allPageservers ∨ ok m := by
  rw [allPageservers, ← append_assoc] at h
  rcases mem_append.mp h with h | h
  · exact .inl h
  · exact .inr (mem_singleton.mp h ▸ hnode)

/-- The nodes that have been added are not chosen again; those that were kept may be. -/
theorem wp_addSecondaries (hp : Chosen start p) (hattached : p.shard.intent.attached = some a)
    (hsecondary : p.shard.intent.secondary = kept ++ new) (hlimit : new.length + rounds = limit)
    (hassertion : forall m q, m ∈ kept -> start.scheduler.IsOpen m -> 0 < limit ->
      fail .assertion q)
    (hunplaced : forall new e q, Chosen start q -> new.length < limit ->
      (forall m, start.scheduler.IsOpen m -> m ∈ a :: new) -> fail (.schedule e) q)
    (hunpicked : forall q, fail .unpicked q) :
    wp (addSecondaries rounds (a :: new)) (fun _ q => q.shard.intent.attached = some a ∧
      q.shard.intent.secondary.length = kept.length + limit ∧ Chosen start q) fail p := by
  induction rounds generalizing p new with
  | zero =>
    refine ⟨hattached, ?_, hp⟩
    rw [hsecondary, length_append, ← hlimit]
    rfl
  | succ rounds ih =>
    refine wp_bind.mpr (wp_scheduleShard (fun m picks _ hscored => ?_) ?_ (fun _ => hunpicked p))
    · have hm := Scheduler.mem_scored.mp hscored
      have hopen := (hp.same.isOpen_iff m).mp hm.1
      refine wp_then (wp_turn (wp_pushSecondary (fun hmem q => ?_))) (fun _ q hq => ?_)
      · refine hassertion m _ ?_ hopen (by omega)
        have hmem : m ∈ p.shard.intent.allPageservers := hmem
        rw [allPageservers, hattached, hsecondary] at hmem
        have hnot := not_or.mp (mt mem_cons.mpr hm.2)
        simpa [hnot.1, hnot.2] using hmem
      · rw [cons_append]
        refine ih ((hp.withPicks picks).became hq (fun _ => mem_pushSecondary hopen)) ?_ ?_ ?_
        · rw [hq.intent]
          exact hattached
        · rw [hq.intent, ← append_assoc, ← hsecondary]
          rfl
        · rw [length_append, length_singleton]
          omega
    · exact fun e hnil => hunplaced new e p hp (by omega)
        (fun m hm => mem_of_scored_nil hnil (hp.same.isOpen hm))

theorem secondaryToRemove_mem {i : IntentState} (s : Scheduler) (h : 0 < i.secondary.length) :
    exists m, secondaryToRemove i s = some m ∧ m ∈ i.secondary := by
  have hperm : i.secondary.filter (fun n => s.getNodeAz n = i.preferredAzId) ++
      i.secondary.filter (fun n => s.getNodeAz n ≠ i.preferredAzId) ~ i.secondary := by
    simpa using filter_append_perm (fun n => s.getNodeAz n = i.preferredAzId) i.secondary
  cases hlast : secondaryToRemove i s with
  | none =>
    rw [getLast?_eq_none_iff.mp hlast] at hperm
    exact absurd hperm.nil_eq.symm (ne_nil_of_length_pos h)
  | some m => exact ⟨m, rfl, hperm.subset (mem_of_getLast? hlast)⟩

theorem wp_removeSecondaries (hp : Chosen start p)
    (hunderflow : Unbalanced start -> forall q, fail .underflow q)
    (hfree : p.shard.intent.attached = none) (hsome : 0 < p.shard.intent.secondary.length)
    (hrounds : p.shard.intent.secondary.length - 1 = rounds) :
    wp (removeSecondaries rounds) (fun _ q => PlacementPolicy.secondary.Fulfilled q.shard.intent ∧
      Chosen start q) fail p := by
  induction rounds generalizing p with
  | zero => exact ⟨⟨hfree, by omega⟩, hp⟩
  | succ rounds ih =>
    rcases secondaryToRemove_mem p.scheduler hsome with ⟨m, hm, hmem⟩
    refine wp_bind.mpr ?_
    simp only [wp_get, wp_bind, wp_option_forM, hm]
    refine wp_imp (wp_turn (wp_removeSecondary (fun hnot => hunderflow (hp.unbalanced hnot)) m))
      (fun _ q hq => ?_)
    have hlength : q.shard.intent.secondary.length = p.shard.intent.secondary.length - 1 := by
      rw [hq.intent]
      exact length_erase_of_mem hmem
    refine ih (hp.became hq (fun n hn => .inl ?_)) ?_ (by omega) (by omega)
    · exact (erase_sublist.append_left _).subset hn
    · rw [hq.intent]
      exact hfree

end

/-!
## Scheduling
-/

variable {nodes : List NodeId}

/-- Every open node is used, and too few of the used ones are new to the shard. -/
def Exhausted (p : Placing) : Prop :=
  exists used : List NodeId, (forall m, p.scheduler.IsOpen m -> m ∈ used) ∧
    (used.filter (fun m => m ∉ p.shard.intent.allPageservers)).length < missing p ∧
    (used.length ≤ p.shard.intent.secondary.length ∨
      used.length ≤ p.shard.policy.wantSecondaries)

def EndsEarly (p : Placing) : Fault -> Placing -> Prop
  | .assertion, _ => ¬ Clear p
  | .schedule _, q => Exhausted p ∧ Chosen p q
  | .missingNode m, _ => m ∈ p.shard.intent.secondary ∧ ¬ p.scheduler.Knows m
  | .missingGeneration, _ => False
  | .underflow, _ => Unbalanced p
  | .unpicked, _ => True

theorem wp_followPolicy :
    wp followPolicy (fun _ q => p.shard.policy.Fulfilled q.shard.intent ∧ Chosen p q)
      (EndsEarly p) p := by
  refine wp_bind.mpr ?_
  simp only [wp_get]
  cases hpolicy : p.shard.policy with
  | attached n =>
    refine wp_then (wp_scheduleAttached ?_ (fun _ => trivial) (fun _ _ => And.intro)) ?_
    · intro e hone hnil
      refine ⟨⟨_, fun m => mem_of_scored_nil hnil, ?_, .inl le_rfl⟩, Moved.refl p⟩
      rw [filter_eq_nil_iff.mpr (fun m hmem => by simp [allPageservers, hmem])]
      simp only [missing, hpolicy, hone, length_nil]
      omega
    · intro attached q hq
      have hleft := hq.secondary
      refine wp_bind.mpr (wp_bind.mpr (wp_imp (wp_addSecondaries hq.moved
        hq.attached (hleft.trans (append_nil _).symm) (Nat.zero_add _) ?_ ?_
        (fun _ => trivial)) ?_))
      · intro m _ hmem hopen hmore hclear
        rcases hclear n hpolicy with henough | hclosed
        · rw [hleft] at hmore
          omega
        · exact hclosed m hmem hopen
      · intro new _ _ hmoved hless hused
        rw [hleft] at hless
        refine ⟨⟨_, hused, ?_, .inr ?_⟩, hmoved⟩
        · have hcount := length_filter_le (fun m => m ∉ p.shard.intent.allPageservers)
          simp only [missing, hpolicy]
          by_cases hfound : (remaining p).1 = 1
          · have hall := hcount (attached.2 :: new)
            rw [length_cons] at hall
            omega
          · rw [filter_cons_of_neg (by simpa using (hq.had hfound).1)]
            have hnew := hcount new
            omega
        · rw [hpolicy]
          show new.length + 1 ≤ n
          omega
      · rintro - r ⟨hattached, hlength, hmoved⟩
        rw [hleft] at hlength
        exact ⟨⟨by simp [hattached], by omega⟩, hmoved⟩
  | secondary =>
    cases hattached : p.shard.intent.attached with
    | some nodeId =>
      refine wp_then (wp_demote (fun hnot _ => hnot) nodeId) (fun _ q hq => ?_)
      have hintent := hq.2.intent
      rw [demoted, if_pos hattached] at hintent
      refine wp_bind.mpr (wp_then (wp_removeSecondaries
        ((Moved.refl p).became hq.2 (fun _ hm => .inl (mem_demoted hm))) (fun hnot _ => hnot)
        (by rw [hintent]) (by simp [hintent]) rfl) (fun _ _ hr => hr))
    | none =>
      refine wp_bind.mpr ?_
      unfold onlyIf
      split
      next hnil =>
        have hall : p.shard.intent.allPageservers = [] := by simp [allPageservers, hattached, hnil]
        refine wp_bind.mpr (wp_scheduleShard (fun m picks _ hscored => ?_) ?_ (fun _ => trivial))
        · have hopen := (Scheduler.mem_scored.mp hscored).1
          refine wp_imp (wp_turn (wp_pushSecondary (fun hmem _ => ?_))) (fun _ q hq => ?_)
          · cases hall ▸ hmem
          · refine wp_bind.mpr (wp_then (wp_removeSecondaries
              (((Moved.refl p).withPicks picks).became hq (fun _ => mem_pushSecondary hopen))
              (fun hnot _ => hnot) (by rw [hq.intent]; exact hattached) (by simp [hq.intent]) rfl)
              (fun _ _ hr => hr))
        · intro e hempty
          refine ⟨⟨[], fun m => mem_of_scored_nil hempty, ?_, .inl (Nat.zero_le _)⟩, Moved.refl p⟩
          simp [missing, hpolicy, hall]
      next hsome =>
        exact Prog.wp_pure.mpr (wp_bind.mpr (wp_then (wp_removeSecondaries (Moved.refl p)
          (fun hnot _ => hnot) hattached (length_pos_of_ne_nil hsome) rfl) (fun _ _ hr => hr)))
  | detached =>
    simp only [onlyIf, wp_bind, wp_ite]
    split
    · refine wp_imp (wp_turn (wp_clear (fun hnot _ => hnot))) (fun _ q hq => ⟨?_, ?_⟩)
      · rw [PlacementPolicy.Fulfilled, hq.intent]
        rfl
      · exact (Moved.refl p).became hq (fun m hm => absurd hm not_mem_nil)
    next hnil => exact ⟨not_not.mp hnil, Moved.refl p⟩

theorem wp_schedule :
    wp schedule (fun _ q => (p.shard.schedulingPolicy.mayMove = true ->
      p.shard.policy.Fulfilled q.shard.intent) ∧ Chosen p q) (EndsEarly p) p := by
  refine wp_bind.mpr ?_
  simp only [wp_get, onlyIf]
  split
  · refine wp_then wp_followPolicy (fun modified q hq => ?_)
    split
    · exact ⟨fun _ => hq.1, hq.2.withShard rfl⟩
    · exact ⟨fun _ => hq.1, hq.2⟩
  next hmove => exact ⟨fun h => absurd h hmove, Moved.refl p⟩

/-!
Scheduling finds a node wherever more nodes are open than the shard has, and than it wants,
secondary locations.
-/

/-- An early end that is no error of scheduling. -/
def Placed : Fault -> Placing -> Prop
  | .schedule _, _ => False
  | _, _ => True

def Offers (nodes : List NodeId) (p : Placing) : Prop :=
  forall nodeId, nodeId ∈ nodes -> p.scheduler.IsOpen nodeId

/-- There are more open nodes than the shard has, and than it wants, secondary locations. -/
structure Room (nodes : List NodeId) (shard : TenantShard) : Prop where
  has : shard.intent.secondary.length < nodes.length
  wants : shard.policy.wantSecondaries < nodes.length

theorem placed_schedule (hdistinct : nodes.Nodup) (hp : Offers nodes p)
    (hroom : p.shard.schedulingPolicy.mayMove = true -> Room nodes p.shard) :
    wp schedule (fun _ _ => True) Placed p := by
  by_cases hmove : p.shard.schedulingPolicy.mayMove = true
  · refine wp_mono wp_schedule (fun _ _ _ => trivial) (fun e q hend => ?_)
    cases e with
    | schedule e =>
      rcases hend with ⟨⟨used, hused, _, hlength⟩, _⟩
      have hle := (hdistinct.subperm (fun m hm => hused m (hp m hm))).length_le
      have hhas := (hroom hmove).has
      have hwants := (hroom hmove).wants
      exact absurd hlength (by omega)
    | _ => trivial
  · simp [schedule, onlyIf, hmove]

/-!
## When scheduling does what the policy asks for
-/

/-- Whatever nodes the scheduler prefers, no assertion fails; on return the policy is
fulfilled, on distinct nodes of which the new ones are open; and an error is returned only
if there are too few open nodes.  Scheduling panics besides where a secondary location is
on an unknown node or a count would go below zero. -/
def Schedules (p : Placing) : Prop :=
  forall picks, wp schedule
    (fun _ q => p.shard.policy.Fulfilled q.shard.intent ∧ q.Distinct ∧
      forall m, m ∈ q.shard.intent.allPageservers ->
        m ∈ p.shard.intent.allPageservers ∨ p.scheduler.IsOpen m)
    (fun e _ =>
      match e with
      | .assertion => False
      | .schedule _ => (p.scheduler.scored p.shard.intent.allPageservers).length < missing p
      | .missingNode m => m ∈ p.shard.intent.secondary ∧ ¬ p.scheduler.Knows m
      | .missingGeneration => False
      | .underflow => True
      | .unpicked => True)
    { p with picks := picks }

theorem preferredSecondary_none {i : IntentState} {s : Scheduler} {m : NodeId}
    (h : preferredSecondary i s = .ok none) (hmem : m ∈ i.secondary) : ¬ s.IsOpen m := by
  rintro ⟨node, hget, hmay⟩
  unfold preferredSecondary at h
  split at h
  · cases h
  next candidates hcandidates =>
    have hc : (m, node.az) ∈ candidates :=
      (Scheduler.mem_filterUsableNodes hcandidates).mpr ⟨hmem, node, hget, hmay, rfl⟩
    have hor := Option.or_eq_none_iff.mp (Except.ok.inj h)
    simp only [min?_eq_none_iff, map_eq_nil_iff, filter_eq_nil_iff] at hor
    by_cases haz : some node.az = i.preferredAzId
    · exact hor.2 _ hc (decide_eq_true haz)
    · exact hor.1 _ hc (decide_eq_true haz)

theorem not_isOpen_of_remaining {m : NodeId} (h : (remaining p).1 = 1)
    (hmem : m ∈ (remaining p).2) :
    ¬ p.scheduler.IsOpen m := by
  unfold remaining at h hmem
  split at h <;> simp only [*] at hmem
  · cases h
  next hsecondary => exact preferredSecondary_none hsecondary hmem
  · cases h
  · cases h

/-- The scheduler may choose a secondary location that is left, which cannot be added. -/
theorem assertion_of_not_clear (hmove : p.shard.schedulingPolicy.mayMove = true)
    (hdistinct : p.Distinct) (hclear : ¬ Clear p) :
    exists picks, wp schedule (fun _ _ => False) (fun e _ => e = .assertion)
      { p with picks := picks } := by
  simp only [Clear, not_forall, not_or, not_not, Nat.not_le] at hclear
  rcases hclear with ⟨n, hpolicy, hless, m, hmem, hopen⟩
  have hfound := mt not_isOpen_of_remaining (fun h => h hmem hopen)
  refine ⟨[m], wp_bind.mpr ?_⟩
  simp only [wp_get, onlyIf, if_pos hmove]
  refine wp_bind.mpr (wp_bind.mpr ?_)
  simp only [wp_get, hpolicy]
  refine wp_then (wp_scheduleAttached (fun _ h => absurd h hfound) (fun h => absurd h hfound)
    (fun _ h => absurd h (ne_nil_of_mem hmem))) (fun attached q hq => ?_)
  have hmem : m ∈ q.shard.intent.secondary := hq.secondary ▸ hmem
  have hpicks := (hq.had hfound).2
  have hscored : m ∈ q.scheduler.scored [attached.2] := by
    refine Scheduler.mem_scored.mpr ⟨hq.moved.same.isOpen hopen, ?_⟩
    have hnodup := hq.moved.distinct hdistinct
    rw [Placing.Distinct, allPageservers, hq.attached] at hnodup
    rw [mem_singleton]
    rintro rfl
    exact (nodup_cons.mp hnodup).1 hmem
  have hrounds : n - q.shard.intent.secondary.length ≠ 0 := by
    rw [hq.secondary]
    exact Nat.sub_ne_zero_of_lt hless
  refine wp_bind.mpr (wp_bind.mpr ?_)
  rcases Nat.exists_eq_succ_of_ne_zero hrounds with ⟨rounds, hrounds⟩
  simp only [hrounds]
  refine wp_bind.mpr (wp_scheduleShard (fun nodeId picks h _ => ?_) (fun _ h => ?_) (fun h => ?_))
  · cases hpicks.symm.trans h
    refine wp_bind.mpr (wp_onIntent.mpr (wp_bind.mpr ?_))
    simp only [wp_get, Prog.refuse, wp_bind]
    split
    · rfl
    next hnot => exact absurd hmem hnot
  · rw [h] at hscored
    cases hscored
  · exact absurd hscored (h m [] hpicks)

theorem schedules_iff (hmove : p.shard.schedulingPolicy.mayMove = true)
    (hdistinct : p.Distinct) : Schedules p <-> Clear p := by
  constructor
  · intro h
    by_contra hclear
    rcases assertion_of_not_clear hmove hdistinct hclear with ⟨picks, hassertion⟩
    refine Prog.exec_snd (p := fun _ => False) (wp_mono (Prog.wp_and (h picks) hassertion) ?_ ?_)
    · exact fun _ _ hend => hend.2
    · rintro _ _ ⟨hend, rfl⟩
      exact hend
  · intro hclear picks
    refine wp_mono (wp_schedule (p := { p with picks := picks })) ?_ ?_
    · rintro - q ⟨hfulfilled, hq⟩
      exact ⟨hfulfilled hmove, hq.distinct hdistinct, hq.named⟩
    · rintro e q hend
      cases e with
      | assertion => exact hend hclear
      | schedule e =>
        rcases hend with ⟨⟨used, hused, hless, _⟩, _⟩
        refine Nat.lt_of_le_of_lt ?_ hless
        refine ((p.scheduler.nodup_scored _).subperm (fun m hm => ?_)).length_le
        have hm := Scheduler.mem_scored.mp hm
        exact mem_filter.mpr ⟨hused m hm.1, decide_eq_true hm.2⟩
      | underflow | unpicked => trivial
      | _ => exact hend

/-- Attached to the first of two open nodes, with the other one as a secondary location or
free for one. -/
def twoNodes (policy : PlacementPolicy) (secondary : List NodeId) : Placing :=
  let node : SchedulerNode :=
    { shardCount := 1, attachedShardCount := 0, homeShardCount := 0, maySchedule := .yes,
      az := "a" }
  { shard :=
      { Service.attachedShard .active with
        policy := policy
        intent := { attached := some 1, secondary := secondary, preferredAzId := none } }
    scheduler := { nodes := (OrdMap.empty.insert 1 node).insert 2 node }
    picks := [] }

theorem schedules_iff_newSecondary :
    missing (twoNodes (.attached 1) []) = 1 ∧ Schedules (twoNodes (.attached 1) []) := by
  refine ⟨rfl, (schedules_iff rfl (by decide)).mpr ?_⟩
  rintro n ⟨⟩
  exact .inr (forall_mem_nil _)

theorem secondSecondary_assertion :
    (twoNodes (.attached 2) [2]).Distinct ∧
      (twoNodes (.attached 2) [2]).shard.schedulingPolicy = .active ∧
      (twoNodes (.attached 2) [2]).scheduler.scored [1] = [2] ∧
      (Prog.exec schedule { twoNodes (.attached 2) [2] with picks := [2] }).1 =
        .error .assertion := by
  exact ⟨by decide, rfl, rfl, rfl⟩

end TenantShard

end StorageController
end OpenNeon

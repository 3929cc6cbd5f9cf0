import OpenNeon.StorageController.ReconcilerRuns

/-!
# The generations that a reconciler sends

A generation is good for a pageserver if it was issued to it, or in some weaker sense.
If the configurations that a reconciler has observed carry generations that are good for
their pageservers, so do all those that it sends: a generation is either new, or it is
that of the observed location.  The one exception is the request that makes the origin
of a live migration stale, which carries the generation of the reconciler itself.
-/

namespace OpenNeon
namespace StorageController

open Base List
open Proc (Maintains wp wp_bind wp_get wp_modify wp_ask wp_mono)
open Proc.Maintains (get_bind)

/-!
## Parts that change no location
-/

namespace Reconciler

/-- It depends on no requests but those for locations, and not on notifications. -/
structure Unmoved {world : Type}
    (G : Setting world Request (fun r => Except ReconcileError r.Payload))
    (Inv : world -> Reconciler -> Prop) : Prop where
  ask : forall r : Request, (forall m conf, r ≠ .locationConfig m conf) ->
    Maintains G Inv (Reconciler.ask r)
  flag : forall w self flag, Inv w self -> Inv w { self with computeNotifyFailure := flag }

namespace Unmoved

variable {world : Type} {G : Setting world Request (fun r => Except ReconcileError r.Payload)}
  {Inv : world -> Reconciler -> Prop} {w : world} {self : Reconciler}

section

variable (h : Unmoved G Inv)

include h

theorem noteNotified (notified : Notified) : Maintains G Inv (noteNotified notified) := by
  refine Maintains.bind (Maintains.modify fun w self hs => h.flag w self _ hs) (fun _ => ?_)
  cases notified.error with
  | none => exact Maintains.pure ()
  | some e => exact Maintains.throw e

theorem computeNotify : Maintains G Inv computeNotify := by
  refine get_bind (fun w self hs => ?_)
  split
  · exact hs
  next m _ => exact (h.ask (.computeNotify m) nofun).bind h.noteNotified w self hs

theorem computeNotifyBlocking (origin : NodeId) :
    Maintains G Inv (computeNotifyBlocking origin) := by
  refine get_bind (fun w self hs => ?_)
  split
  · exact hs
  next m _ => exact (h.ask (.computeNotifyBlocking m origin) nofun).bind h.noteNotified w self hs

theorem warmUp (nodeId : NodeId) : Maintains G Inv (warmUp nodeId) := by
  refine get_bind (fun w self hs => ?_)
  split
  · exact h.ask (.secondaryDownload nodeId) nofun w self hs
  · exact hs

theorem payNotification (mustNotify : Bool) (result : Except ReconcileError Unit) :
    Maintains G Inv (payNotification mustNotify result) := by
  unfold Reconciler.payNotification
  split
  · exact Maintains.pure ()
  · exact h.computeNotify.attempt.bind (fun _ => Maintains.pure ())
  · exact Maintains.modify (fun w self hs => h.flag w self true hs)

theorem applyChanges {changes : List (NodeId × LocationConfig)} (firstErr : Option ReconcileError)
    (hconfig : forall change, change ∈ changes ->
      Maintains G Inv (locationConfig change.1 change.2))
    (hforget : forall change, change ∈ changes -> forall w self, Inv w self ->
      Inv w (self.observe change.1 none)) :
    Maintains G Inv (applyChanges firstErr changes) := by
  induction changes generalizing firstErr with
  | nil =>
    cases firstErr with
    | none => exact Maintains.pure ()
    | some e => exact Maintains.throw e
  | cons change rest ih =>
    have hrest : forall firstErr, Maintains G Inv (Reconciler.applyChanges firstErr rest) :=
      fun firstErr => ih firstErr (fun c hmem => hconfig c (mem_cons_of_mem _ hmem))
        (fun c hmem => hforget c (mem_cons_of_mem _ hmem))
    rw [Reconciler.applyChanges]
    refine (h.ask .checkCancelled nofun).bind (fun _ => get_bind (fun w self hs => ?_))
    split
    · refine wp_bind.mpr (Proc.wp_attempt.mpr
        (wp_mono (hconfig change mem_cons_self w self hs) ?_ ?_))
      · exact fun _ w self hs => hrest firstErr w self hs
      · exact fun e w self hs => hrest _ w self hs
    · refine wp_bind.mpr (wp_modify.mpr ?_)
      exact hrest firstErr w _ (hforget change mem_cons_self w self hs)

theorem task (sequence : Sequence) (mustNotify : Bool)
    (hrun : wp G reconcile (fun _ => Inv) (fun _ => Inv) w self) :
    (self.task sequence mustNotify).wp G
      (fun result w => exists self ok, Inv w self ∧ result = self.result sequence ok) w := by
  have hpay : forall result, Maintains G Inv (do
      Reconciler.payNotification mustNotify result
      pure result) :=
    fun result => (h.payNotification mustNotify result).bind (fun _ => Maintains.pure result)
  have hnotified : wp G (reconcileAndNotify mustNotify) (fun _ => Inv) (fun _ => Inv) w self := by
    refine wp_bind.mpr (Proc.wp_attempt.mpr (wp_mono hrun ?_ ?_))
    · exact fun a w self hs => hpay (.ok a) w self hs
    · exact fun e w self hs => hpay (.error e) w self hs
  refine Task.wp_bind.mpr (Task.wp_mono hnotified ?_)
  rintro ⟨outcome, self⟩ w hended
  refine ⟨self, isOk outcome, ?_, rfl⟩
  cases outcome <;> exact hended

end

end Unmoved

theorem skipSecondaries_induction {P : Reconciler -> Prop} {self : Reconciler}
    (hforget : forall self m, m ∈ self.secondary -> P self -> P (self.observe m none))
    (h : P self) : P self.skipSecondaries := by
  have hskip : forall (skipped : List NodeId) (r : Reconciler), r.secondary = self.secondary ->
      (forall m, m ∈ skipped -> m ∈ self.secondary) -> P r ->
      P (skipped.foldl (fun r m => r.observe m none) r) := by
    intro skipped
    induction skipped with
    | nil => exact fun r _ _ hr => hr
    | cons m rest ih =>
      intro r hsame hmem hr
      refine ih _ hsame (fun k hk => hmem k (mem_cons_of_mem _ hk)) (hforget r m ?_ hr)
      rw [hsame]
      exact hmem m mem_cons_self
  exact hskip _ self rfl (fun m hm => (mem_filter.mp hm).1) h

end Reconciler

/-!
## Generations
-/

/-- Which generations are good for which pageservers. -/
abbrev Good := NodeId -> Generation -> Prop

namespace LocationConfig

def Vouched (conf : LocationConfig) (good : Good) (nodeId : NodeId) : Prop :=
  forall generation, conf.generation = some generation -> good nodeId generation

variable {conf : LocationConfig} {good : Good} {nodeId : NodeId}

theorem Vouched.mono {good' : Good} (h : conf.Vouched good nodeId) (hgrows : good ≤ good') :
    conf.Vouched good' nodeId :=
  fun generation hgeneration => hgrows nodeId generation (h generation hgeneration)

theorem vouched_of_none (h : conf.generation = none) : conf.Vouched good nodeId := by
  intro generation hgeneration
  rw [h] at hgeneration
  cases hgeneration

end LocationConfig

/-- What an answer says of generations. -/
def Told (good : Good) : (r : Request) -> Except ReconcileError r.Payload -> Prop
  | .getLocationConfig nodeId =>
    fun (a : Except ReconcileError (Option (Option LocationConfig))) =>
      forall conf, a = .ok (some (some conf)) -> conf.Vouched good nodeId
  | .incrementGeneration nodeId =>
    fun (a : Except ReconcileError Generation) =>
      forall generation, a = .ok generation -> good nodeId generation
  | _ => fun _ => True

/-- Only good generations are sent and told, and what is good stays good. -/
def vouching : Setting Good Request (fun r => Except ReconcileError r.Payload) where
  asks good r :=
    match r with
    | .locationConfig nodeId conf => conf.Vouched good nodeId
    | _ => True
  reply good r a good' :=
    (forall nodeId generation, good nodeId generation -> good' nodeId generation) ∧ Told good' r a

namespace Reconciler

/-- Observed generations are good, and the reconciler's own is for some pageservers. -/
structure Knows (S : NodeId -> Prop) (good : Good) (r : Reconciler) : Prop where
  observed : forall nodeId conf, r.observedConf nodeId = some conf -> conf.Vouched good nodeId
  generation : forall nodeId generation, S nodeId -> r.generation = some generation ->
    good nodeId generation

section

variable {S : NodeId -> Prop} {good good' : Good} {self : Reconciler} {nodeId : NodeId}

theorem Knows.mono (h : Knows S good self) (hgrows : good ≤ good') : Knows S good' self :=
  ⟨fun m conf hconf => (h.observed m conf hconf).mono hgrows,
    fun m generation hm hgeneration =>
      hgrows m generation (h.generation m generation hm hgeneration)⟩

theorem observedConf_observe (conf : Option LocationConfig) (m : NodeId) :
    (self.observe nodeId conf).observedConf m =
      if m = nodeId then conf else self.observedConf m := by
  unfold observe observedConf
  rw [OrdMap.get?_insert]
  split <;> rfl

theorem observedConf_unobserve (m : NodeId) :
    (self.unobserve nodeId).observedConf m = if m = nodeId then none else self.observedConf m := by
  unfold unobserve observedConf
  rw [OrdMap.get?_erase]
  split <;> rfl

variable {conf : LocationConfig} {dest : NodeId}

theorem observedConf_iff :
    self.observedConf nodeId = some conf <->
      self.observed.get? nodeId = some { conf := some conf } := by
  unfold observedConf
  constructor
  · intro h
    rcases Option.bind_eq_some_iff.mp h with ⟨location, hlocation, hconf⟩
    rw [hlocation, ← hconf]
  · intro h
    rw [h]
    rfl

theorem Knows.observe {conf : Option LocationConfig} (h : Knows S good self)
    (hconf : forall c, conf = some c -> c.Vouched good nodeId) :
    Knows S good (self.observe nodeId conf) := by
  refine ⟨fun m c hc => ?_, h.generation⟩
  rw [observedConf_observe] at hc
  split at hc
  next heq =>
    rw [heq]
    exact hconf c hc
  · exact h.observed m c hc

theorem Knows.forget (h : Knows S good self) : Knows S good (self.observe nodeId none) :=
  h.observe nofun

theorem Knows.issued {generation : Generation} (h : Knows S good self)
    (hgood : good nodeId generation) :
    Knows (fun m => m = nodeId) good { self with generation := some generation } := by
  refine ⟨h.observed, fun m g hm hg => ?_⟩
  cases hg
  rw [hm]
  exact hgood

theorem Knows.unobserve (h : Knows S good self) : Knows S good (self.unobserve nodeId) := by
  refine ⟨fun m c hc => ?_, h.generation⟩
  rw [observedConf_unobserve] at hc
  split at hc
  · cases hc
  · exact h.observed m c hc

/-!
## Calls
-/

theorem knows_ask (r : Request) (hasks : forall good, vouching.asks good r) :
    Maintains vouching (Knows S) (ask r) :=
  Maintains.ask (fun good _ _ => hasks good) (fun _ _ _ _ hs hreply => hs.mono hreply.1)

theorem wp_knows_locationConfig (h : Knows S good self) (hconf : conf.Vouched good nodeId) :
    wp vouching (locationConfig nodeId conf) (fun _ => Knows S) (fun _ => Knows S) good
      self := by
  unfold locationConfig
  simp only [wp_bind, wp_get]
  split
  · exact h
  · simp only [wp_bind, wp_modify]
    refine wp_ask.mpr ⟨hconf, fun _ good' hreply => ?_,
      fun _ good' hreply => h.forget.mono hreply.1⟩
    have hknown : Knows S good' (self.observe nodeId none) := h.forget.mono hreply.1
    split
    · exact hknown.unobserve
    · refine hknown.observe (fun c hc => ?_)
      cases hc
      exact hconf.mono hreply.1

theorem unmoved_knows : Unmoved vouching (Knows S) where
  ask r hr := knows_ask r (by
    intro good
    cases r with
    | locationConfig m conf => exact absurd rfl (hr m conf)
    | _ => trivial)
  flag _ _ _ hs := ⟨hs.observed, hs.generation⟩

/-!
## Live migration
-/

theorem knows_configureMode (hnode : S nodeId) (mode : LocationConfigMode) :
    Maintains vouching (Knows S) (configureMode nodeId mode) := by
  refine get_bind (fun good self hs => wp_knows_locationConfig hs ?_)
  exact fun generation hgeneration => hs.generation nodeId generation hnode hgeneration

theorem knows_downgrade (nodeId : NodeId) : Maintains vouching (Knows S) (downgrade nodeId) :=
  get_bind (fun _ _ hs =>
    wp_knows_locationConfig hs (LocationConfig.vouched_of_none rfl))

theorem wp_knows_incrementGeneration {post : Unit -> Good -> Reconciler -> Prop}
    {fail : ReconcileError -> Good -> Reconciler -> Prop} (h : Knows S good self)
    (hpost : forall good' self', Knows (fun m => m = nodeId) good' self' -> post () good' self')
    (hfail : forall e good', Knows S good' self -> fail e good' self) :
    wp vouching (incrementGeneration nodeId) post fail good self := by
  unfold incrementGeneration
  rw [wp_bind]
  refine wp_ask.mpr ⟨trivial, fun generation good' hreply => ?_,
    fun e good' hreply => hfail e good' (h.mono hreply.1)⟩
  exact hpost good' _ ((h.mono hreply.1).issued (hreply.2 _ rfl))

/-- The generation is good as before, or it was issued to one pageserver. -/
def Renewed (S : NodeId -> Prop) (good : Good) (self : Reconciler) : Prop :=
  Knows S good self ∨ exists nodeId, Knows (fun m => m = nodeId) good self

theorem Renewed.single {m : NodeId} (h : Renewed (fun n => n = m) good self) :
    Renewed S good self :=
  .inr (h.elim (fun h => ⟨m, h⟩) id)

theorem renewed_liveMigrate {origin : NodeId} (horigin : S origin) (h : Knows S good self) :
    wp vouching (liveMigrate origin dest) (fun _ => Renewed S) (fun _ => Renewed S) good
      self := by
  have hdest : forall mode, Maintains vouching (Knows (fun m => m = dest))
      (configureMode dest mode) := by
    intro mode
    refine knows_configureMode ?_ mode
    exact rfl
  have hafter : Maintains vouching (Knows (fun m => m = dest)) (do
      configureMode dest .attachedMulti
      ask (.awaitLsn dest)
      computeNotifyBlocking origin
      downgrade origin
      configureMode dest .attachedSingle) :=
    (hdest .attachedMulti).bind (fun _ =>
      (unmoved_knows.ask (.awaitLsn dest) nofun).bind (fun _ =>
        (unmoved_knows.computeNotifyBlocking origin).bind (fun _ =>
          (knows_downgrade origin).bind (fun _ => hdest .attachedSingle))))
  have hold : forall (_ : ReconcileError) (good : Good) self, Knows S good self ->
      Renewed S good self := fun _ _ _ h => .inl h
  refine wp_bind.mpr (wp_mono (knows_configureMode horigin .attachedStale good self h) ?_ hold)
  intro _ good self h
  refine wp_bind.mpr (wp_mono (unmoved_knows.ask (.getLsns origin) nofun good self h) ?_ hold)
  intro _ good self h
  refine wp_bind.mpr (wp_mono (unmoved_knows.warmUp dest good self h) ?_ hold)
  intro _ good self h
  refine wp_bind.mpr (wp_knows_incrementGeneration h ?_ (fun e good h => .inl h))
  intro good self h
  exact wp_mono (hafter good self h) (fun _ _ _ h => .inr ⟨dest, h⟩) (fun _ _ _ h => .inr ⟨dest, h⟩)

/-!
## Reconciling
-/

theorem renewed_of_knows {alpha : Type} {m : Step alpha}
    (h : forall S, Maintains vouching (Knows S) m) :
    Maintains vouching (Renewed S) m := by
  intro good self hs
  rcases hs with hs | ⟨nodeId, hs⟩
  · exact wp_mono (h S good self hs) (fun _ _ _ h => .inl h) (fun _ _ _ h => .inl h)
  · exact wp_mono (h _ good self hs) (fun _ _ _ h => .inr ⟨nodeId, h⟩)
      (fun _ _ _ h => .inr ⟨nodeId, h⟩)

theorem unmoved_renewed : Unmoved vouching (Renewed S) where
  ask r hr := renewed_of_knows (fun _ => unmoved_knows.ask r hr)
  flag w self flag hs := hs.imp (unmoved_knows.flag w self flag)
    (fun ⟨m, h⟩ => ⟨m, unmoved_knows.flag w self flag h⟩)

theorem vouched_of_keepsGeneration {wanted : LocationConfig} (h : Knows S good self)
    (hkeeps : self.keepsGeneration nodeId wanted = true) : wanted.Vouched good nodeId := by
  unfold keepsGeneration at hkeeps
  split at hkeeps
  · cases hkeeps
  next conf hconf =>
    rw [Bool.and_eq_true, decide_eq_true_iff] at hkeeps
    intro generation hgeneration
    rw [← hkeeps.1] at hgeneration
    exact h.observed nodeId conf hconf generation hgeneration

theorem renewed_attach (nodeId : NodeId) (wanted : LocationConfig) (h : Knows S good self) :
    wp vouching (attach nodeId wanted) (fun _ => Renewed S) (fun _ => Renewed S) good
      self := by
  refine wp_bind.mpr (wp_get.mpr ?_)
  split
  next hkeeps =>
    exact wp_mono (wp_knows_locationConfig h (vouched_of_keepsGeneration h hkeeps))
      (fun _ _ _ h => .inl h) (fun _ _ _ h => .inl h)
  · refine wp_bind.mpr (wp_ask.mpr ⟨trivial, fun generation good' hreply => ?_,
      fun _ good' hreply => .inl (h.mono hreply.1)⟩)
    have hissued : good' nodeId generation := hreply.2 _ rfl
    refine wp_bind.mpr (wp_modify.mpr ?_)
    refine wp_mono (wp_knows_locationConfig ((h.mono hreply.1).issued hissued) ?_)
      (fun _ _ _ h => .inr ⟨nodeId, h⟩) (fun _ _ _ h => .inr ⟨nodeId, h⟩)
    intro g hg
    cases hg
    exact hissued

theorem renewed_reconcileAttached (refreshed : Bool) :
    Maintains vouching (Renewed S) (reconcileAttached refreshed) := by
  refine get_bind (fun good self hs => ?_)
  have hnotify := fun S => (unmoved_renewed (S := S)).computeNotify
  split
  · exact hs
  · exact hs
  next nodeId generation _ _ =>
    dsimp only
    split
    · split
      · exact hnotify S good self hs
      · exact hs
    · refine wp_bind.mpr ?_
      rcases hs with hs | ⟨m, hs⟩
      · exact wp_mono (renewed_attach nodeId _ hs) (fun _ good self h => hnotify S good self h)
          (fun _ _ _ h => h)
      · exact wp_mono (renewed_attach nodeId _ hs)
          (fun _ good self h => hnotify S good self h.single) (fun _ _ _ h => h.single)

theorem knows_reconcileOthers : Maintains vouching (Knows S) reconcileOthers := by
  refine get_bind (fun good self hs => ?_)
  refine wp_bind.mpr (wp_modify.mpr ?_)
  refine unmoved_knows.applyChanges none (fun change hmem good self hs => ?_)
    (fun _ _ _ _ h => h.forget) good _ (skipSecondaries_induction (fun _ _ _ h => h.forget) hs)
  refine wp_knows_locationConfig hs (LocationConfig.vouched_of_none ?_)
  rcases mem_append.mp hmem with hmem | hmem
  · rcases mem_map.mp hmem with ⟨m, _, rfl⟩
    rfl
  · rcases mem_map.mp hmem with ⟨m, _, rfl⟩
    rfl

/-- The reconciler may come to migrate the shard to the node. -/
def MayMigrate (self : Reconciler) (dest : NodeId) : Prop :=
  self.attached = some dest ∧
    forall conf, self.observedConf dest = some conf -> conf.mode = .secondary

/-- Live migrations start from pageservers for which the reconciler's generation is good. -/
def Covers (S : NodeId -> Prop) (self : Reconciler) : Prop :=
  forall dest, self.MayMigrate dest -> forall m conf, m ≠ dest ->
    self.observedConf m = some conf -> conf.mode = .attachedSingle -> S m

theorem mayMigrate_of_destination (h : self.destination = some dest) : self.MayMigrate dest := by
  rcases Option.filter_eq_some_iff.mp h with ⟨hattached, htest⟩
  refine ⟨hattached, fun conf hconf => ?_⟩
  rcases Option.bind_eq_some_iff.mp hconf with ⟨location, hlocation, hconf⟩
  rw [hlocation] at htest
  have hmode := of_decide_eq_true htest
  rw [hconf] at hmode
  exact Option.some.inj hmode

variable {m : NodeId}

theorem mem_origins (h : self.origin = some m) : m ∈ self.origins := by
  unfold origin at h
  split at h
  next hfirst =>
    cases h
    exact hfirst
  · exact mem_of_head? h

theorem origin_single (h : self.origin = some m) :
    exists conf, self.observedConf m = some conf ∧ conf.mode = .attachedSingle := by
  have htest := (mem_filter.mp (mem_origins h)).2
  rw [Bool.and_eq_true, Bool.and_eq_true, decide_eq_true_iff] at htest
  rcases Option.map_eq_some_iff.mp htest.1.1 with ⟨conf, hconf, hmode⟩
  exact ⟨conf, hconf, hmode⟩

theorem origin_ne (h : self.origin = some m) (hmay : self.MayMigrate dest) : m ≠ dest := by
  rintro rfl
  rcases origin_single h with ⟨conf, hconf, hmode⟩
  have hsecondary := hmay.2 conf hconf
  rw [hmode] at hsecondary
  cases hsecondary

theorem origin_target (h : self.origin = some m) : m ∈ self.targets := by
  have htest := (mem_filter.mp (mem_origins h)).2
  rw [Bool.and_eq_true, Bool.and_eq_true, decide_eq_true_iff, decide_eq_true_iff] at htest
  exact htest.1.2

section

variable (h : Knows S good self) (hcovers : Covers S self)

include h hcovers

theorem renewed_maybeLiveMigrate :
    wp vouching maybeLiveMigrate (fun _ => Renewed S) (fun _ => Renewed S) good self := by
  refine wp_bind.mpr (wp_get.mpr ?_)
  split
  next dest origin hdest horigin =>
    have hmay := mayMigrate_of_destination hdest
    rcases origin_single horigin with ⟨conf, hconf, hmode⟩
    exact renewed_liveMigrate
      (hcovers dest hmay origin conf (origin_ne horigin hmay) hconf hmode) h
  · exact .inl h

theorem wp_knows_maybeRefreshObserved :
    wp vouching maybeRefreshObserved (fun _ good self => Knows S good self ∧ Covers S self)
      (fun _ => Renewed S) good self := by
  refine wp_bind.mpr (wp_get.mpr ?_)
  split
  · exact ⟨h, hcovers⟩
  next dest hdest =>
    refine wp_bind.mpr (wp_bind.mpr (wp_get.mpr ?_))
    split
    next hunknown =>
      have hmay : self.MayMigrate dest := by
        refine ⟨hdest, fun conf hconf => ?_⟩
        unfold observedConf at hconf
        rw [hunknown] at hconf
        cases hconf
      have hothers : forall self' : Reconciler, self'.attached = some dest ->
          (forall m, m ≠ dest -> self'.observedConf m = self.observedConf m) ->
          Covers S self' := by
        intro self' hattached hsame dest' hmay' m conf hne hconf hmode
        have heq : dest' = dest := Option.some.inj (hmay'.1.symm.trans hattached)
        rw [heq] at hne
        rw [hsame m hne] at hconf
        exact hcovers dest hmay m conf hne hconf hmode
      refine wp_bind.mpr (wp_ask.mpr ⟨trivial, fun found good' hreply => ?_,
        fun _ good' hreply => .inl (h.mono hreply.1)⟩)
      have hknows := h.mono hreply.1
      split
      next conf =>
        refine ⟨hknows.observe (fun c hc => ?_), hothers _ hdest (fun m hne => ?_)⟩
        · subst hc
          exact hreply.2 c rfl
        · rw [observedConf_observe, if_neg hne]
      · refine ⟨hknows.unobserve, hothers _ hdest (fun m hne => ?_)⟩
        rw [observedConf_unobserve, if_neg hne]
    · exact ⟨h, hcovers⟩

theorem renewed_reconcile :
    wp vouching reconcile (fun _ => Renewed S) (fun _ => Renewed S) good self := by
  refine wp_bind.mpr (wp_mono (wp_knows_maybeRefreshObserved h hcovers) ?_ (fun _ _ _ h => h))
  rintro refreshed good self ⟨h, hcovers⟩
  refine wp_bind.mpr (wp_mono (renewed_maybeLiveMigrate h hcovers) ?_ (fun _ _ _ h => h))
  exact fun _ => (renewed_reconcileAttached refreshed).bind
    (fun _ => renewed_of_knows (fun _ => knows_reconcileOthers))

end

/-!
## Results
-/

theorem mem_observedDeltas {location : ObservedStateLocation}
    (h : ObservedStateDelta.upsert nodeId location ∈ self.observedDeltas) :
    self.observed.get? nodeId = some location := by
  rcases mem_append.mp h with h | h
  · rcases mem_map.mp h with ⟨e, he, heq⟩
    cases heq
    exact OrdMap.get?_eq_some_iff.mpr (mem_filter.mp he).1
  · rcases mem_map.mp h with ⟨m, _, heq⟩
    cases heq

end

end Reconciler

namespace Service

/-- A result reports good generations only. -/
def ResultVouched (good : Good) (result : ReconcileResult) : Prop :=
  forall nodeId conf,
    ObservedStateDelta.upsert nodeId { conf := some conf } ∈ result.observedDeltas ->
    conf.Vouched good nodeId

end Service

namespace Reconciler

open Service

variable {S : NodeId -> Prop} {good : Good} {self : Reconciler}

/-- The generation at the end is good as at the start, or it was issued to a pageserver. -/
theorem wp_task (sequence : Sequence) (mustNotify : Bool) (h : Knows S good self)
    (hcovers : Covers S self) :
    (self.task sequence mustNotify).wp vouching (fun result good => ResultVouched good result ∧
        ((forall m generation, S m -> result.generation = some generation -> good m generation) ∨
          exists m, forall generation, result.generation = some generation ->
            good m generation)) good := by
  refine Task.wp_mono (unmoved_renewed.task sequence mustNotify (renewed_reconcile h hcovers)) ?_
  rintro _ good' ⟨self', ok, hrenewed, rfl⟩
  have hvouched : forall S', Knows S' good' self' ->
      ResultVouched good' (self'.result sequence ok) := by
    intro S' hknows nodeId conf hmem
    refine hknows.observed nodeId conf ?_
    unfold observedConf
    rw [mem_observedDeltas hmem]
    rfl
  rcases hrenewed with hknows | ⟨m, hknows⟩
  · exact ⟨hvouched S hknows, .inl hknows.generation⟩
  · exact ⟨hvouched _ hknows, .inr ⟨m, fun generation => hknows.generation m generation rfl⟩⟩

end Reconciler

end StorageController
end OpenNeon

import OpenNeon.StorageController.GenerationOwners

/-!
# What is observed is so

A reconciler reports the difference between what it has learned and the copy that it
started from.  The difference says enough where every location that the reconciler has
touched ends differently from the copy.  This fails for one kind of location only: one
that was unknown and is unknown again, because the last request for it failed.  If the
results of earlier reconcilers, processed in between, have made the location known, it
stays so.
-/

namespace OpenNeon
namespace StorageController

open Base List
open Proc (Maintains wp wp_bind wp_get wp_modify wp_ask wp_mono)

def SoundAt : Option ObservedStateLocation -> Option LocationConfig -> Prop
  | none, held => held = none
  | some { conf := none }, _ => True
  | some { conf := some conf }, held => held = some conf

namespace ObservedState

def Truthful (observed : ObservedState) (held : OrdMap NodeId LocationConfig) : Prop :=
  forall nodeId, SoundAt (observed.get? nodeId) (held.get? nodeId)

end ObservedState

/-- The world outside while nothing but the reconciler changes it. -/
def truth : Setting Outside Request (fun r => Except ReconcileError r.Payload) where
  asks _ _ := True
  reply o r a o' := exists fate, o.reply fate r = (a, o')

def NotAttached (location : Option ObservedStateLocation) : Prop :=
  forall conf, location = some { conf := some conf } -> conf.mode = .secondary

def IsSingle (location : Option ObservedStateLocation) : Prop :=
  exists conf, location = some { conf := some conf } ∧ conf.mode = .attachedSingle

namespace Reconciler

def Same (start self : Reconciler) : Prop :=
  self =
    { start with
      observed := self.observed
      generation := self.generation
      computeNotifyFailure := self.computeNotifyFailure }

theorem Same.refl (self : Reconciler) : Same self self :=
  rfl

/-- As it was, or touched: known rightly, and other than the copy unless both are unknown. -/
def Traced (start : Reconciler) (held0 : OrdMap NodeId LocationConfig) (o : Outside)
    (self : Reconciler) (nodeId : NodeId) : Prop :=
  (self.observed.get? nodeId = start.originalObserved.get? nodeId ∧
      o.held.get? nodeId = held0.get? nodeId) ∨
    (SoundAt (self.observed.get? nodeId) (o.held.get? nodeId) ∧
      (self.observed.get? nodeId = start.originalObserved.get? nodeId ->
        start.originalObserved.get? nodeId = some { conf := none }) ∧
      nodeId ∈ start.targets)

structure Tracks (start : Reconciler) (held0 : OrdMap NodeId LocationConfig) (o : Outside)
    (r : Reconciler) : Prop where
  same : Same start r
  each : forall nodeId, Traced start held0 o r nodeId
  bounded : forall nodeId conf generation,
    start.originalObserved.get? nodeId = some { conf := some conf } ->
    conf.generation = some generation ->
    exists latest, o.generation = some latest ∧ generation ≤ latest

/-- And something else is known of the reconciler. -/
abbrev TracksWith (start : Reconciler) (held0 : OrdMap NodeId LocationConfig)
    (E : Reconciler -> Prop) (o : Outside) (r : Reconciler) : Prop :=
  Tracks start held0 o r ∧ E r

section

variable {start self : Reconciler} {held0 : OrdMap NodeId LocationConfig} {o o' : Outside}
  {nodeId : NodeId}

theorem Tracks.frame (h : Tracks start held0 o self) (hheld : o'.held = o.held)
    (hgeneration : forall generation, o.generation = some generation ->
      exists latest, o'.generation = some latest ∧ generation ≤ latest) :
    Tracks start held0 o' self := by
  refine ⟨h.same, fun m => ?_, fun m conf generation hconf hg => ?_⟩
  · have heach := h.each m
    unfold Traced at heach ⊢
    rw [hheld]
    exact heach
  · rcases h.bounded m conf generation hconf hg with ⟨latest, hlatest, hle⟩
    rcases hgeneration latest hlatest with ⟨latest', hlatest', hle'⟩
    exact ⟨latest', hlatest', hle.trans hle'⟩

theorem Tracks.learn {self' : Reconciler} (h : Tracks start held0 o self)
    (hsame : Same start self') (hnode : nodeId ∈ start.targets)
    (hobserved : forall m, m ≠ nodeId -> self'.observed.get? m = self.observed.get? m)
    (hheld : forall m, m ≠ nodeId -> o'.held.get? m = o.held.get? m)
    (hgeneration : o'.generation = o.generation)
    (hsound : SoundAt (self'.observed.get? nodeId) (o'.held.get? nodeId))
    (hdiffers : self'.observed.get? nodeId = start.originalObserved.get? nodeId ->
      start.originalObserved.get? nodeId = some { conf := none }) :
    Tracks start held0 o' self' := by
  refine ⟨hsame, fun m => ?_, ?_⟩
  · by_cases hm : m = nodeId
    · rw [hm]
      exact .inr ⟨hsound, hdiffers, hnode⟩
    · have heach := h.each m
      unfold Traced at heach ⊢
      rw [hobserved m hm, hheld m hm]
      exact heach
  · rw [hgeneration]
    exact h.bounded

theorem get?_observe (conf : Option LocationConfig) (m : NodeId) :
    (self.observe nodeId conf).observed.get? m =
      if m = nodeId then some { conf := conf } else self.observed.get? m :=
  OrdMap.get?_insert _ _ _ _

theorem get?_unobserve (m : NodeId) :
    (self.unobserve nodeId).observed.get? m = if m = nodeId then none else self.observed.get? m :=
  OrdMap.get?_erase _ _ _

theorem Same.learned (h : Same start self) (observed : ObservedState)
    (generation : Option Generation) (flag : Bool) : Same start
      { self with observed, generation, computeNotifyFailure := flag } := by
  unfold Same at h ⊢
  rw [h]

section

variable (h : Tracks start held0 o self)
include h

theorem Tracks.observe {conf : Option LocationConfig}
    (hnode : nodeId ∈ start.targets)
    (hheld : forall m, m ≠ nodeId -> o'.held.get? m = o.held.get? m)
    (hgeneration : o'.generation = o.generation)
    (hsound : SoundAt (some { conf := conf }) (o'.held.get? nodeId))
    (hdiffers : some { conf := conf } = start.originalObserved.get? nodeId ->
      start.originalObserved.get? nodeId = some { conf := none }) :
    Tracks start held0 o' (self.observe nodeId conf) := by
  refine h.learn (h.same.learned _ _ _) hnode (fun m hm => ?_) hheld hgeneration ?_ ?_
  · rw [get?_observe, if_neg hm]
  · rw [get?_observe, if_pos rfl]
    exact hsound
  · rw [get?_observe, if_pos rfl]
    exact hdiffers

theorem Tracks.unobserve (hnode : nodeId ∈ start.targets)
    (hheld : forall m, m ≠ nodeId -> o'.held.get? m = o.held.get? m)
    (hgeneration : o'.generation = o.generation) (hnone : o'.held.get? nodeId = none)
    (hdiffers : none = start.originalObserved.get? nodeId ->
      start.originalObserved.get? nodeId = some { conf := none }) :
    Tracks start held0 o' (self.unobserve nodeId) := by
  refine h.learn (h.same.learned _ _ _) hnode (fun m hm => ?_) hheld hgeneration ?_ ?_
  · rw [get?_unobserve, if_neg hm]
  · rw [get?_unobserve, if_pos rfl]
    exact hnone
  · rw [get?_unobserve, if_pos rfl]
    exact hdiffers

theorem Tracks.forget (hnode : nodeId ∈ start.targets) :
    Tracks start held0 o (self.observe nodeId none) :=
  h.observe hnode (fun _ _ => rfl) rfl trivial Eq.symm

end

/-!
## Requests
-/

theorem held_locationConfig (nodeId : NodeId) (conf : LocationConfig) (fate : Fate) (o : Outside) :
    (forall m, m ≠ nodeId -> (o.locationConfig nodeId conf fate).held.get? m = o.held.get? m) ∧
      (o.locationConfig nodeId conf fate).generation = o.generation ∧
      (fate.effective = true -> (o.locationConfig nodeId conf fate).held.get? nodeId =
        if conf.mode = .detached then none else some conf) := by
  have hframe := Outside.send_frame nodeId conf o
  unfold Outside.locationConfig
  split
  next heffective =>
    refine ⟨fun m hm => ?_, hframe.1, fun _ => ?_⟩
    · unfold Outside.hold
      split
      · rw [OrdMap.get?_erase, if_neg hm, hframe.2.2]
      · rw [OrdMap.get?_insert, if_neg hm, hframe.2.2]
    · unfold Outside.hold
      split
      · rw [OrdMap.get?_erase, if_pos rfl]
      · rw [OrdMap.get?_insert, if_pos rfl]
  next hnot =>
    refine ⟨fun m _ => ?_, hframe.1, fun heffective => absurd heffective hnot⟩
    rw [hframe.2.2]

theorem frame_reply {r : Request} {a : Except ReconcileError r.Payload}
    (hr : forall m conf, r ≠ .locationConfig m conf) (h : truth.reply o r a o') :
    o'.held = o.held ∧ forall generation, o.generation = some generation ->
      exists latest, o'.generation = some latest ∧ generation ≤ latest := by
  have hkept : forall generation, o.generation = some generation ->
      exists latest, o.generation = some latest ∧ generation ≤ latest :=
    fun generation hgeneration => ⟨generation, hgeneration, Nat.le_refl _⟩
  rcases h with ⟨fate, hreply⟩
  cases r with
  | locationConfig m conf => exact absurd rfl (hr m conf)
  | incrementGeneration m =>
    have hincrement : (o.increment m).2.held = o.held ∧
        forall generation, o.generation = some generation ->
          exists latest, (o.increment m).2.generation = some latest ∧ generation ≤ latest := by
      refine ⟨(Outside.increment_frame m o).2, fun generation hgeneration => ?_⟩
      unfold Outside.increment
      rw [hgeneration]
      exact ⟨generation + 1, rfl, Nat.le_succ _⟩
    have ho' : o' = (o.incrementGeneration m fate).2 := (congrArg Prod.snd hreply).symm
    rcases Outside.incrementGeneration_state m fate o with hstate | hstate
    · rwa [ho', hstate]
    · rw [ho', hstate]
      exact ⟨rfl, hkept⟩
  | _ =>
    cases hreply
    exact ⟨rfl, hkept⟩

variable {E : Reconciler -> Prop}

theorem unmoved_tracks
    (hflag : forall self flag, E self -> E { self with computeNotifyFailure := flag }) :
    Unmoved truth (TracksWith start held0 E) where
  ask r hr := by
    refine Maintains.ask (fun _ _ _ => trivial) (fun o self a o' hs hreply => ?_)
    have hframe := frame_reply hr hreply
    exact ⟨hs.1.frame hframe.1 hframe.2, hs.2⟩
  flag _ self _ hs := ⟨⟨hs.1.same.learned _ _ _, hs.1.each, hs.1.bounded⟩, hflag self _ hs.2⟩

/-- A location that the copy does not have with the configuration that is asked for. -/
def Unlike (start : Reconciler) (nodeId : NodeId) (conf : LocationConfig) : Prop :=
  nodeId ∈ start.targets ∧
    if conf.mode = .detached then start.originalObserved.get? nodeId ≠ none
    else start.originalObserved.get? nodeId ≠ some { conf := some conf }

theorem wp_tracks_locationConfig {conf : LocationConfig} (h : Tracks start held0 o self)
    (hunlike : Unlike start nodeId conf) (hextra : E self) (hkeeps : forall self' : Reconciler,
      (forall m, m ≠ nodeId -> self'.observed.get? m = self.observed.get? m) ->
      self'.generation = self.generation -> E self') :
    wp truth (locationConfig nodeId conf) (fun _ => TracksWith start held0 E)
      (fun _ => TracksWith start held0 E) o self := by
  refine wp_bind.mpr (wp_get.mpr ?_)
  split
  · exact ⟨h, hextra⟩
  · refine wp_bind.mpr (wp_modify.mpr (wp_bind.mpr ?_))
    have hforgot := h.forget hunlike.1
    have hextra' : forall conf, E (self.observe nodeId conf) := by
      intro conf
      refine hkeeps _ (fun m hm => ?_) rfl
      rw [get?_observe, if_neg hm]
    refine wp_ask.mpr ⟨trivial, ?_, ?_⟩
    · rintro _ o' ⟨fate, hreply⟩
      have ho' : o' = o.locationConfig nodeId conf fate := (congrArg Prod.snd hreply).symm
      have hanswer : fate.error = none := by
        have hok := congrArg Prod.fst hreply
        unfold Outside.reply Fate.answer at hok
        dsimp only at hok
        split at hok
        · cases hok
        next hnone => exact hnone
      have hheld := held_locationConfig nodeId conf fate o
      have heffective : fate.effective = true := by
        unfold Fate.effective
        rw [hanswer]
        rfl
      rw [ho']
      have hunlike' := hunlike.2
      have hheldNode := hheld.2.2 heffective
      split
      next hdetached =>
        rw [if_pos hdetached] at hunlike' hheldNode
        refine ⟨hforgot.unobserve hunlike.1 hheld.1 hheld.2.1 hheldNode
          (fun hnone => absurd hnone.symm hunlike'), hkeeps _ (fun m hm => ?_) rfl⟩
        rw [get?_unobserve, if_neg hm, get?_observe, if_neg hm]
      next hattached =>
        rw [if_neg hattached] at hunlike' hheldNode
        refine ⟨hforgot.observe hunlike.1 hheld.1 hheld.2.1 hheldNode
          (fun hsome => absurd hsome.symm hunlike'), hkeeps _ (fun m hm => ?_) rfl⟩
        rw [get?_observe, if_neg hm, get?_observe, if_neg hm]
    · rintro e o' ⟨fate, hreply⟩
      have ho' : o' = o.locationConfig nodeId conf fate := (congrArg Prod.snd hreply).symm
      have hheld := held_locationConfig nodeId conf fate o
      rw [ho']
      exact ⟨h.observe hunlike.1 hheld.1 hheld.2.1 trivial Eq.symm, hextra' none⟩

/-!
## Live migration
-/

def ChangesOnly (before : Reconciler) (n m : NodeId) (self : Reconciler) : Prop :=
  forall nodeId, nodeId ≠ n -> nodeId ≠ m ->
    self.observed.get? nodeId = before.observed.get? nodeId

theorem tracks_configure {before : Reconciler} {n m : NodeId} (hnode : nodeId = n ∨ nodeId = m)
    {conf : Reconciler -> LocationConfig}
    (hunlike : forall self, Same start self -> Unlike start nodeId (conf self)) :
    Maintains truth (TracksWith start held0 (ChangesOnly before n m))
      (get >>= fun self => locationConfig nodeId (conf self)) := by
  refine Maintains.get_bind (fun o self hs => ?_)
  refine wp_tracks_locationConfig hs.1 (hunlike self hs.1.same) hs.2 (fun self' hothers _ => ?_)
  intro k hkn hkm
  rw [hothers k, hs.2 k hkn hkm]
  rintro rfl
  rcases hnode with rfl | rfl
  · exact hkn rfl
  · exact hkm rfl

theorem unlike_of_mode {conf : LocationConfig} (mode : LocationConfigMode)
    (hnode : nodeId ∈ start.targets) (hmode : conf.mode = mode) (hmodes : mode ≠ .detached)
    (hother : forall c, start.originalObserved.get? nodeId = some { conf := some c } ->
      c.mode ≠ mode) : Unlike start nodeId conf := by
  refine ⟨hnode, ?_⟩
  rw [hmode, if_neg hmodes]
  intro hsame
  exact hother conf hsame hmode

theorem tracks_liveMigrate {before : Reconciler} {origin dest : NodeId}
    (horigin : origin ∈ start.targets) (hdest : dest ∈ start.targets)
    (hsingle : IsSingle (start.originalObserved.get? origin))
    (hnot : NotAttached (start.originalObserved.get? dest)) :
    Maintains truth (TracksWith start held0 (ChangesOnly before origin dest))
      (liveMigrate origin dest) := by
  have hfrom : forall mode, mode ≠ .attachedSingle -> forall c,
      start.originalObserved.get? origin = some { conf := some c } -> c.mode ≠ mode := by
    intro mode hmode c hc
    rcases hsingle with ⟨c', hc', hmode'⟩
    cases hc'.symm.trans hc
    rw [hmode']
    exact hmode.symm
  have hto : forall mode, mode ≠ .secondary -> forall c,
      start.originalObserved.get? dest = some { conf := some c } -> c.mode ≠ mode := by
    intro mode hmode c hc
    rw [hnot c hc]
    exact hmode.symm
  have hmoved : Unmoved truth (TracksWith start held0 (ChangesOnly before origin dest)) :=
    unmoved_tracks (fun _ _ h => h)
  have hdestMode : forall mode, mode ≠ .detached -> mode ≠ .secondary ->
      Maintains truth (TracksWith start held0 (ChangesOnly before origin dest))
        (configureMode dest mode) :=
    fun mode hdet hne => tracks_configure (.inr rfl)
      (fun self _ => unlike_of_mode mode hdest rfl hdet (hto mode hne))
  have hdowngrade : Maintains truth (TracksWith start held0 (ChangesOnly before origin dest))
      (downgrade origin) :=
    tracks_configure (.inl rfl) (fun self _ =>
      unlike_of_mode .secondary horigin rfl (by decide) (hfrom .secondary (by decide)))
  have hincrement : Maintains truth (TracksWith start held0 (ChangesOnly before origin dest))
      (incrementGeneration dest) := by
    refine (hmoved.ask (.incrementGeneration dest) nofun).bind (fun generation => ?_)
    exact Maintains.modify (fun o self hs =>
      ⟨⟨hs.1.same.learned _ _ _, hs.1.each, hs.1.bounded⟩, hs.2⟩)
  have hstale : Maintains truth (TracksWith start held0 (ChangesOnly before origin dest))
      (configureMode origin .attachedStale) :=
    tracks_configure (.inl rfl) (fun self _ =>
      unlike_of_mode .attachedStale horigin rfl (by decide) (hfrom .attachedStale (by decide)))
  exact hstale.bind (fun _ =>
    (hmoved.ask (.getLsns origin) nofun).bind (fun _ =>
      (hmoved.warmUp dest).bind (fun _ => hincrement.bind (fun _ =>
        (hdestMode .attachedMulti (by decide) (by decide)).bind (fun _ =>
          (hmoved.ask (.awaitLsn dest) nofun).bind (fun _ =>
            (hmoved.computeNotifyBlocking origin).bind (fun _ =>
              hdowngrade.bind (fun _ =>
                hdestMode .attachedSingle (by decide) (by decide)))))))))

/-!
## Reconciling
-/

/-- Locations other than the intended one are as in the copy, unless they were attached. -/
def Others (start self : Reconciler) : Prop :=
  forall m, start.attached ≠ some m ->
    self.observed.get? m = start.originalObserved.get? m ∨ IsSingle (start.originalObserved.get? m)

/-- The intended location is as in the copy, unless it was not attached. -/
def Fit (start self : Reconciler) : Prop :=
  forall dest, start.attached = some dest ->
    self.observed.get? dest = start.originalObserved.get? dest ∨
      NotAttached (start.originalObserved.get? dest)

/-- Only the intended location may have been looked up. -/
def LookedUp (start self : Reconciler) : Prop :=
  forall m, self.observed.get? m = start.originalObserved.get? m ∨
    start.attached = some m ∧ start.originalObserved.get? m = some { conf := none }

section

variable (h : Same start self)
include h

theorem Same.attached : self.attached = start.attached := by
  rw [h]

theorem Same.secondary : self.secondary = start.secondary := by
  rw [h]

theorem Same.detach : self.detach = start.detach := by
  rw [h]

theorem Same.targets : self.targets = start.targets := by
  rw [h]
  rfl

end

theorem mem_targets_attached (h : start.attached = some nodeId) : nodeId ∈ start.targets := by
  unfold Reconciler.targets
  rw [h]
  exact mem_append_left _ (mem_append_left _ (mem_singleton_self _))

theorem notAttached_unknown : NotAttached (some { conf := none }) :=
  fun _ h => nomatch h

theorem LookedUp.fit (h : LookedUp start self) : Fit start self := by
  intro dest _
  rcases h dest with hsame | ⟨_, hunknown⟩
  · exact .inl hsame
  · rw [hunknown]
    exact .inr notAttached_unknown

theorem LookedUp.others (h : LookedUp start self) : Others start self := by
  intro m hm
  rcases h m with hsame | ⟨hattached, _⟩
  · exact .inl hsame
  · exact absurd hattached hm

section

variable (h : Tracks start held0 o self) (hlooked : LookedUp start self)

include h hlooked

theorem wp_tracks_refresh (hattached : start.attached = some nodeId)
    (hunknown : self.observed.get? nodeId = some { conf := none }) :
    wp truth (refresh nodeId) (fun _ => TracksWith start held0 (LookedUp start))
      (fun _ => Tracks start held0) o self := by
  have horiginal : start.originalObserved.get? nodeId = some { conf := none } := by
    rcases hlooked nodeId with hsame | ⟨_, hunknown'⟩
    · exact hsame.symm.trans hunknown
    · exact hunknown'
  have hnode := mem_targets_attached hattached
  have hlearned : forall self' : Reconciler,
      (forall m, m ≠ nodeId -> self'.observed.get? m = self.observed.get? m) ->
      LookedUp start self' := by
    intro self' hothers m
    by_cases hm : m = nodeId
    · rw [hm]
      exact .inr ⟨hattached, horiginal⟩
    · rw [hothers m hm]
      exact hlooked m
  refine wp_bind.mpr (wp_ask.mpr ⟨trivial, ?_, ?_⟩)
  · rintro found o' ⟨fate, hreply⟩
    cases congrArg Prod.snd hreply
    have hfound : o.getLocationConfig nodeId fate = .ok found := congrArg Prod.fst hreply
    have hanswer : found =
        if fate.indeterminate then some none else (o.held.get? nodeId).map some := by
      unfold Outside.getLocationConfig Fate.answer at hfound
      split at hfound
      · cases hfound
      · exact (Except.ok.inj hfound).symm
    split
    next conf =>
      refine ⟨h.observe hnode (fun _ _ => rfl) rfl ?_ (fun _ => horiginal),
        hlearned _ (fun m hm => ?_)⟩
      · cases conf with
        | none => trivial
        | some conf =>
          split at hanswer
          · cases hanswer
          · rcases Option.map_eq_some_iff.mp hanswer.symm with ⟨c, hc, heq⟩
            cases heq
            exact hc
      · rw [get?_observe, if_neg hm]
    · refine ⟨h.unobserve hnode (fun _ _ => rfl) rfl ?_ (fun _ => horiginal),
        hlearned _ (fun m hm => ?_)⟩
      · split at hanswer
        · cases hanswer
        · exact Option.map_eq_none_iff.mp hanswer.symm
      · rw [get?_unobserve, if_neg hm]
  · rintro e o' ⟨fate, hreply⟩
    cases congrArg Prod.snd hreply
    exact h

theorem wp_tracks_maybeRefreshObserved :
    wp truth maybeRefreshObserved (fun _ => TracksWith start held0 (LookedUp start))
      (fun _ => Tracks start held0) o self := by
  refine wp_bind.mpr (wp_get.mpr ?_)
  split
  · exact ⟨h, hlooked⟩
  next dest hdest =>
    refine wp_bind.mpr (wp_bind.mpr (wp_get.mpr ?_))
    split
    next hunknown => exact wp_tracks_refresh h hlooked (h.same.attached ▸ hdest) hunknown
    · exact ⟨h, hlooked⟩

theorem wp_tracks_maybeLiveMigrate :
    wp truth maybeLiveMigrate
      (fun _ o self => Tracks start held0 o self ∧ Others start self ∧ Fit start self)
      (fun _ => Tracks start held0) o self := by
  refine wp_bind.mpr (wp_get.mpr ?_)
  split
  next dest origin hdest horigin =>
    have hmay := mayMigrate_of_destination hdest
    have hattached : start.attached = some dest := h.same.attached ▸ hmay.1
    rcases origin_single horigin with ⟨conf, hconf, hmode⟩
    have hsingle : IsSingle (start.originalObserved.get? origin) := by
      rcases hlooked origin with hsame | ⟨hother, _⟩
      · rw [← hsame]
        exact ⟨conf, observedConf_iff.mp hconf, hmode⟩
      · exact absurd (Option.some.inj (hother.symm.trans hattached)) (origin_ne horigin hmay)
    have hnot : NotAttached (start.originalObserved.get? dest) := by
      rcases hlooked dest with hsame | ⟨_, hunknown⟩
      · rw [← hsame]
        exact fun c hc => hmay.2 c (observedConf_iff.mpr hc)
      · rw [hunknown]
        exact notAttached_unknown
    have hmem : origin ∈ start.targets := h.same.targets ▸ origin_target horigin
    refine wp_mono (tracks_liveMigrate hmem (mem_targets_attached hattached) hsingle hnot o
      self ⟨h, fun _ _ _ => rfl⟩) ?_ (fun _ _ _ hs => hs.1)
    rintro _ o' self' ⟨htracks, hchanges⟩
    refine ⟨htracks, fun m hm => ?_, fun d hd => ?_⟩
    · by_cases horiginal : m = origin
      · rw [horiginal]
        exact .inr hsingle
      · have hmdest : m ≠ dest := by
          rintro rfl
          exact hm hattached
        rw [hchanges m horiginal hmdest]
        exact hlooked.others m hm
    · cases hattached.symm.trans hd
      exact .inr hnot
  · exact ⟨h, hlooked.others, hlooked.fit⟩

end

theorem fresh_of_reply {generation : Generation}
    (h : truth.reply o (.incrementGeneration nodeId) (.ok generation) o') :
    exists latest, o.generation = some latest ∧ latest < generation := by
  rcases h with ⟨fate, hreply⟩
  have hissued := (Outside.incrementGeneration_ok (congrArg Prod.fst hreply)).1
  unfold Outside.increment at hissued
  split at hissued
  · cases hissued
  next latest hlatest =>
    cases hissued
    exact ⟨latest, hlatest, Nat.lt_succ_self _⟩

theorem wp_tracks_attach {wanted : LocationConfig} (h : Tracks start held0 o self)
    (hothers : Others start self) (hfit : Fit start self)
    (hattached : start.attached = some nodeId) (hmode : wanted.mode = .attachedSingle)
    (hwanted : self.observedConf nodeId ≠ some wanted) :
    wp truth (attach nodeId wanted) (fun _ => TracksWith start held0 (Others start))
      (fun _ => TracksWith start held0 (Others start)) o self := by
  have hnode := mem_targets_attached hattached
  have hkeeps : forall before : Reconciler, Others start before -> forall self' : Reconciler,
      (forall m, m ≠ nodeId -> self'.observed.get? m = before.observed.get? m) ->
      self'.generation = before.generation -> Others start self' := by
    intro before hbefore self' hsame _ m hm
    have hne : m ≠ nodeId := by
      rintro rfl
      exact hm hattached
    rw [hsame m hne]
    exact hbefore m hm
  refine wp_bind.mpr (wp_get.mpr ?_)
  split
  · refine wp_tracks_locationConfig h ⟨hnode, ?_⟩ hothers (hkeeps self hothers)
    rw [hmode]
    intro hsame
    rcases hfit nodeId hattached with hcopy | hnot
    · exact hwanted (observedConf_iff.mpr (hcopy.trans hsame))
    · have hsecondary := hnot wanted hsame
      rw [hmode] at hsecondary
      cases hsecondary
  · refine wp_bind.mpr (wp_ask.mpr ⟨trivial, ?_, ?_⟩)
    · intro generation o' hreply
      rcases fresh_of_reply hreply with ⟨latest, hlatest, hlt⟩
      have hframe := frame_reply (fun _ _ heq => by cases heq) hreply
      have htracks := h.frame hframe.1 hframe.2
      refine wp_bind.mpr (wp_modify.mpr ?_)
      have hrenewed : Tracks start held0 o' { self with generation := some generation } :=
        ⟨htracks.same.learned _ _ _, htracks.each, htracks.bounded⟩
      refine wp_tracks_locationConfig hrenewed ⟨hnode, ?_⟩ hothers (hkeeps _ hothers)
      have hconfMode : ({ wanted with generation := some generation } : LocationConfig).mode =
          .attachedSingle := hmode
      rw [hconfMode]
      intro hsame
      rcases h.bounded nodeId _ generation hsame rfl with ⟨latest', hlatest', hle⟩
      cases hlatest.symm.trans hlatest'
      exact absurd hlt (Nat.not_lt.mpr hle)
    · intro e o' hreply
      have hframe := frame_reply (fun _ _ heq => by cases heq) hreply
      exact ⟨h.frame hframe.1 hframe.2, hothers⟩

theorem wp_tracks_reconcileAttached (refreshed : Bool) (h : Tracks start held0 o self)
    (hothers : Others start self) (hfit : Fit start self) :
    wp truth (reconcileAttached refreshed) (fun _ => TracksWith start held0 (Others start))
      (fun _ => TracksWith start held0 (Others start)) o self := by
  have hnotify : Maintains truth (TracksWith start held0 (Others start)) computeNotify :=
    (unmoved_tracks (fun _ _ h => h)).computeNotify
  refine wp_bind.mpr (wp_get.mpr ?_)
  split
  · exact ⟨h, hothers⟩
  · exact ⟨h, hothers⟩
  next nodeId generation hattached _ =>
    dsimp only
    split
    · split
      · exact hnotify o self ⟨h, hothers⟩
      · exact ⟨h, hothers⟩
    next hwanted =>
      refine wp_bind.mpr (wp_mono (wp_tracks_attach h hothers hfit
        (h.same.attached ▸ hattached) rfl hwanted) ?_ (fun _ _ _ hs => hs))
      exact fun _ o self hs => hnotify o self hs

/-- The intended node is no secondary one, and it detaches only where something was observed. -/
structure Proper (start : Reconciler) : Prop where
  distinct : forall dest, start.attached = some dest -> dest ∉ start.secondary
  detach : forall m, m ∈ start.detach -> start.originalObserved.get? m ≠ none

theorem unlike_changes (hproper : Proper start) (h : Tracks start held0 o self)
    (hothers : Others start self) : forall change,
      change ∈ self.secondaryChanges ++ self.detachChanges -> Unlike start change.1 change.2 := by
  intro change hmem
  rcases mem_append.mp hmem with hmem | hmem
  · rcases mem_map.mp hmem with ⟨m, hm, rfl⟩
    rcases mem_filter.mp hm with ⟨hsecondary, htest⟩
    rw [h.same.secondary] at hsecondary
    rw [Bool.and_eq_true, decide_eq_true_iff] at htest
    have hnot : start.attached ≠ some m := fun hattached =>
      hproper.distinct m hattached hsecondary
    refine ⟨mem_append_left _ (mem_append_right _ hsecondary), ?_⟩
    intro hcopy
    rcases hothers m hnot with hsame | ⟨c, hc, hmode⟩
    · exact htest.1 (observedConf_iff.mpr (hsame.trans hcopy))
    · cases hc.symm.trans hcopy
      cases hmode
  · rcases mem_map.mp hmem with ⟨m, hm, rfl⟩
    rw [h.same.detach] at hm
    refine ⟨mem_append_right _ hm, ?_⟩
    exact hproper.detach m hm

theorem wp_tracks_reconcileOthers (hproper : Proper start) (h : Tracks start held0 o self)
    (hothers : Others start self) :
    wp truth reconcileOthers (fun _ => TracksWith start held0 (fun _ => True))
      (fun _ => TracksWith start held0 (fun _ => True)) o self := by
  have hunlike : forall change, change ∈ self.secondaryChanges ++ self.detachChanges ->
      Unlike start change.1 change.2 := unlike_changes hproper h hothers
  refine wp_bind.mpr (wp_get.mpr (wp_bind.mpr (wp_modify.mpr ?_)))
  refine (unmoved_tracks (fun _ _ h => h)).applyChanges none (fun change hmem o self hs => ?_)
    (fun change hmem o self hs => ⟨hs.1.forget (hunlike change hmem).1, trivial⟩) o _
    ⟨skipSecondaries_induction (fun r m hm hr => hr.forget ?_) h, trivial⟩
  · exact wp_tracks_locationConfig hs.1 (hunlike change hmem) trivial (fun _ _ _ => trivial)
  · rw [hr.same.secondary] at hm
    exact mem_append_left _ (mem_append_right _ hm)

theorem wp_tracks_reconcile (hproper : Proper start) (h : Tracks start held0 o self)
    (hlooked : LookedUp start self) :
    wp truth reconcile (fun _ => TracksWith start held0 (fun _ => True))
      (fun _ => TracksWith start held0 (fun _ => True)) o self := by
  refine wp_bind.mpr (wp_mono (wp_tracks_maybeRefreshObserved h hlooked) ?_
    (fun _ _ _ hs => ⟨hs, trivial⟩))
  rintro refreshed o self ⟨h, hlooked⟩
  refine wp_bind.mpr (wp_mono (wp_tracks_maybeLiveMigrate h hlooked) ?_
    (fun _ _ _ hs => ⟨hs, trivial⟩))
  rintro _ o self ⟨h, hothers, hfit⟩
  refine wp_bind.mpr (wp_mono
    (wp_tracks_reconcileAttached refreshed h hothers hfit) ?_ (fun _ _ _ hs => ⟨hs.1, trivial⟩))
  rintro _ o self ⟨h, hothers⟩
  exact wp_tracks_reconcileOthers hproper h hothers

theorem tracks_task (sequence : Sequence) (mustNotify : Bool) (hproper : Proper start)
    (hspawned : start.observed = start.originalObserved)
    (hbounded : forall nodeId conf generation,
      start.originalObserved.get? nodeId = some { conf := some conf } ->
      conf.generation = some generation ->
      exists latest, o.generation = some latest ∧ generation ≤ latest) :
    (start.task sequence mustNotify).wp truth
      (fun result o' => exists self ok, Tracks start o.held o' self ∧
        result = self.result sequence ok) o := by
  have hstart : Tracks start o.held o start := by
    refine ⟨Same.refl start, fun m => .inl ⟨?_, rfl⟩, hbounded⟩
    rw [hspawned]
  have hlooked : LookedUp start start := by
    intro m
    rw [hspawned]
    exact .inl rfl
  refine Task.wp_mono ((unmoved_tracks (fun _ _ h => h)).task sequence mustNotify
    (wp_tracks_reconcile hproper hstart hlooked)) ?_
  rintro _ o' ⟨self, ok, htracks, rfl⟩
  exact ⟨self, ok, htracks.1, rfl⟩

end

end Reconciler

end StorageController
end OpenNeon

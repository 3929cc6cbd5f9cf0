import OpenNeon.StorageController.ReconcileReports
import OpenNeon.StorageController.ServiceNodes
import OpenNeon.StorageController.ReconcilerGenerations

/-!
# Who is sent a generation

The generations that are sent to pageservers, that pageservers hold, that are observed
and that are reported are all good for their pageservers in every state of a run, for
any notion of good that the database's increments provide and that nothing takes away.
One such notion is that the generation was issued to the pageserver.
-/

namespace OpenNeon
namespace StorageController

open Base List OrdMap

namespace Outside

/-- A notion of good generations that increments provide. -/
structure Issuer (good : Outside -> Good) : Prop where
  frame : forall o o' : Outside, o'.generation = o.generation -> o'.issued = o.issued ->
    forall nodeId generation, good o nodeId generation -> good o' nodeId generation
  grows : forall (o : Outside) m nodeId generation, good o nodeId generation ->
    good (o.increment m).2 nodeId generation
  issues : forall (o : Outside) nodeId generation, (o.increment nodeId).1 = some generation ->
    good (o.increment nodeId).2 nodeId generation

/-- What was sent and what is held is good. -/
structure Sound (good : Outside -> Good) (o : Outside) : Prop where
  sent : forall nodeId generation, (nodeId, generation) ∈ o.sent -> good o nodeId generation
  held : forall nodeId conf, o.held.get? nodeId = some conf -> conf.Vouched (good o) nodeId

def Grows (good : Outside -> Good) (o o' : Outside) : Prop :=
  forall nodeId generation, good o nodeId generation -> good o' nodeId generation

variable {good : Outside -> Good} {o o' : Outside} {nodeId : NodeId} {conf : LocationConfig}

theorem Sound.of_frame (h : o.Sound good) (hsent : o'.sent = o.sent)
    (hheld : o'.held = o.held) (hgrows : Grows good o o') : o'.Sound good := by
  refine ⟨fun m generation hmem => ?_, fun m c hc => ?_⟩
  · rw [hsent] at hmem
    exact hgrows m generation (h.sent m generation hmem)
  · rw [hheld] at hc
    exact (h.held m c hc).mono hgrows

theorem increment_frame (m : NodeId) (o : Outside) :
    (o.increment m).2.sent = o.sent ∧ (o.increment m).2.held = o.held := by
  unfold increment
  split <;> exact ⟨rfl, rfl⟩

theorem send_frame (nodeId : NodeId) (conf : LocationConfig) (o : Outside) :
    (o.send nodeId conf).generation = o.generation ∧ (o.send nodeId conf).issued = o.issued ∧
      (o.send nodeId conf).held = o.held := by
  unfold send
  split
  · split <;> exact ⟨rfl, rfl, rfl⟩
  · exact ⟨rfl, rfl, rfl⟩

theorem incrementGeneration_state (nodeId : NodeId) (fate : Fate) (o : Outside) :
    (o.incrementGeneration nodeId fate).2 = (o.increment nodeId).2 ∨
      (o.incrementGeneration nodeId fate).2 = o := by
  unfold Outside.incrementGeneration
  split
  · split
    next heq => exact .inl (by rw [heq])
    next heq => exact .inl (by rw [heq])
  · exact .inr rfl

theorem incrementGeneration_ok {fate : Fate} {generation : Generation}
    (h : (o.incrementGeneration nodeId fate).1 = .ok generation) :
    (o.increment nodeId).1 = some generation ∧
      (o.incrementGeneration nodeId fate).2 = (o.increment nodeId).2 := by
  unfold Outside.incrementGeneration Fate.answer Fate.effective at *
  cases hfate : fate.error with
  | some e => grind
  | none => grind

section

variable (hissuer : Issuer good) (h : o.Sound good)

include hissuer h

section

variable (hconf : conf.Vouched (good o) nodeId)
include hconf

theorem Sound.send : (o.send nodeId conf).Sound good := by
  have hframe := send_frame nodeId conf o
  have hgrows : Grows good o (o.send nodeId conf) := hissuer.frame _ _ hframe.1 hframe.2.1
  refine ⟨fun m generation hmem => hgrows m generation ?_, fun m c hc => ?_⟩
  · unfold Outside.send at hmem
    split at hmem
    next g hg =>
      split at hmem
      · rcases mem_cons.mp hmem with heq | hmem
        · cases heq
          exact hconf generation hg
        · exact h.sent m generation hmem
      · exact h.sent m generation hmem
    · exact h.sent m generation hmem
  · rw [hframe.2.2] at hc
    exact (h.held m c hc).mono hgrows

theorem Sound.hold : (o.hold nodeId conf).Sound good := by
  have hgrows : Grows good o (o.hold nodeId conf) := hissuer.frame _ _ rfl rfl
  refine ⟨fun m generation hmem => hgrows m generation (h.sent m generation hmem),
    fun m c hc => LocationConfig.Vouched.mono ?_ hgrows⟩
  unfold Outside.hold at hc
  split at hc
  · exact h.held m c (get?_of_erase hc).2
  · rcases get?_of_insert hc with ⟨rfl, rfl⟩ | hc
    · exact hconf
    · exact h.held m c hc

theorem Sound.locationConfig (fate : Fate) :
    (o.locationConfig nodeId conf fate).Sound good ∧
      Grows good o (o.locationConfig nodeId conf fate) := by
  have hframe := send_frame nodeId conf o
  have hgrows : Grows good o (o.send nodeId conf) := hissuer.frame _ _ hframe.1 hframe.2.1
  unfold Outside.locationConfig
  split
  · exact ⟨(h.send hissuer hconf).hold hissuer (hconf.mono hgrows),
      fun m generation hgood =>
        hissuer.frame (o.send nodeId conf) ((o.send nodeId conf).hold nodeId conf) rfl rfl m
          generation (hgrows m generation hgood)⟩
  · exact ⟨h.send hissuer hconf, hgrows⟩

end

theorem Sound.incrementGeneration (nodeId : NodeId) (fate : Fate) :
    (o.incrementGeneration nodeId fate).2.Sound good ∧
      Grows good o (o.incrementGeneration nodeId fate).2 ∧
      forall generation, (o.incrementGeneration nodeId fate).1 = .ok generation ->
        good (o.incrementGeneration nodeId fate).2 nodeId generation := by
  have hframe := increment_frame nodeId o
  have hgrows : Grows good o (o.increment nodeId).2 := hissuer.grows o nodeId
  have hsound := h.of_frame hframe.1 hframe.2 hgrows
  have hissued : forall generation, (o.incrementGeneration nodeId fate).1 = .ok generation ->
      good (o.incrementGeneration nodeId fate).2 nodeId generation := by
    intro generation hok
    obtain ⟨hissued, hstate⟩ := incrementGeneration_ok hok
    rw [hstate]
    exact hissuer.issues o nodeId generation hissued
  rcases incrementGeneration_state nodeId fate o with hstate | hstate
  · rw [hstate] at hissued ⊢
    exact ⟨hsound, hgrows, hissued⟩
  · rw [hstate] at hissued ⊢
    exact ⟨h, fun _ _ hgood => hgood, hissued⟩

theorem Sound.reply (fate : Fate) (r : Request) (hasks : vouching.asks (good o) r) :
    (o.reply fate r).2.Sound good ∧
      vouching.reply (good o) r (o.reply fate r).1 (good (o.reply fate r).2) := by
  cases r with
  | getLocationConfig nodeId =>
    refine ⟨h, fun _ _ hgood => hgood, fun conf hfound => ?_⟩
    unfold Outside.reply Outside.getLocationConfig Fate.answer at hfound
    dsimp only at hfound
    split at hfound
    · cases hfound
    · have hsome := Except.ok.inj hfound
      split at hsome
      · cases hsome
      · rcases Option.map_eq_some_iff.mp hsome with ⟨c, hc, heq⟩
        cases heq
        exact h.held nodeId conf hc
  | locationConfig nodeId conf =>
    have hstep := h.locationConfig hissuer hasks fate
    exact ⟨hstep.1, hstep.2, trivial⟩
  | incrementGeneration nodeId => exact h.incrementGeneration hissuer nodeId fate
  | getLsns | secondaryDownload | awaitLsn | computeNotify | computeNotifyBlocking
  | checkCancelled => exact ⟨h, fun _ _ hgood => hgood, trivial⟩

end

end Outside

namespace ShardSystem

open Service Outside

/-!
## The invariant
-/

/-- A reconciler that sends good generations only; if `uniform`, its own is good as well. -/
def Ready (uniform : Prop) (good : Good) (self : Reconciler) : Prop :=
  exists S : NodeId -> Prop, self.Knows S good ∧ self.Covers S ∧
    (uniform -> forall nodeId, S nodeId)

def ResultGood (uniform : Prop) (good : Good) (result : ReconcileResult) : Prop :=
  ResultVouched good result ∧ (uniform -> exists nodeId, forall generation,
    result.generation = some generation -> good nodeId generation)

structure Vouches (uniform : Prop) (good : Outside -> Good) (s : ShardSystem) : Prop where
  outside : s.outside.Sound good
  observed : forall nodeId conf, s.shard.observed.get? nodeId = some { conf := some conf } ->
    conf.Vouched (good s.outside) nodeId
  generation : uniform -> forall nodeId generation, s.shard.generation = some generation ->
    good s.outside nodeId generation
  waiting : forall spawned, spawned ∈ s.waiting ->
    Ready uniform (good s.outside) spawned.reconciler
  running : forall task, s.running = some task ->
    Task.wp vouching task (fun result good => ResultGood uniform good result) (good s.outside)
  results : forall result, result ∈ s.results -> ResultGood uniform (good s.outside) result
  reattaching : forall nodeId generation, (nodeId, some generation) ∈ s.reattaching ->
    good s.outside nodeId generation

variable {uniform : Prop} {good : Outside -> Good} {s s' : ShardSystem}

variable {g g' : Good} {result : ReconcileResult} {observed : ObservedState} {nodeId : NodeId}
  {conf : LocationConfig} {deltas : List ObservedStateDelta} {nodes : OrdMap NodeId Node}
  {shard : TenantShard}

theorem ResultVouched.mono (h : ResultVouched g result) (hgrows : g ≤ g') :
    ResultVouched g' result :=
  fun nodeId conf hmem => (h nodeId conf hmem).mono hgrows

theorem ResultGood.mono (h : ResultGood uniform g result) (hgrows : g ≤ g') :
    ResultGood uniform g' result := by
  refine ⟨ResultVouched.mono h.1 hgrows, fun huniform => ?_⟩
  rcases h.2 huniform with ⟨nodeId, hgood⟩
  exact ⟨nodeId, fun generation hgeneration =>
    hgrows nodeId generation (hgood generation hgeneration)⟩

theorem Ready.mono {self : Reconciler} (h : Ready uniform g self) (hgrows : g ≤ g') :
    Ready uniform g' self := by
  rcases h with ⟨S, hknows, hcovers, hall⟩
  exact ⟨S, hknows.mono hgrows, hcovers, hall⟩

theorem bears_vouching (hgrows : g ≤ g') : Task.Bears vouching g g' := by
  refine ⟨fun r hasks => ?_, fun r a g'' hreply => ?_⟩
  · cases r with
    | locationConfig nodeId conf => exact LocationConfig.Vouched.mono hasks hgrows
    | _ => trivial
  · exact ⟨fun nodeId generation hgood =>
      hreply.1 nodeId generation (hgrows nodeId generation hgood), hreply.2⟩

theorem Vouches.outsideGrows {o : Outside} (hs : Vouches uniform good s) (ho : o.Sound good)
    (hgrows : Grows good s.outside o) : Vouches uniform good { s with outside := o } where
  outside := ho
  observed nodeId conf hconf := (hs.observed nodeId conf hconf).mono hgrows
  generation huniform nodeId generation hgeneration :=
    hgrows nodeId generation (hs.generation huniform nodeId generation hgeneration)
  waiting spawned hmem := (hs.waiting spawned hmem).mono hgrows
  running task htask := Task.wp_of_bears (hs.running task htask) (bears_vouching hgrows)
    (fun _ hgood => hgood.mono hgrows)
  results result hmem := (hs.results result hmem).mono hgrows
  reattaching nodeId generation hmem :=
    hgrows nodeId generation (hs.reattaching nodeId generation hmem)

/-!
## Steps
-/

theorem Vouches.replyTo (hissuer : Issuer good) (hs : Vouches uniform good s) {fate : Fate}
    (hnext : s.replyTo fate = some s') : Vouches uniform good s' := by
  unfold ShardSystem.replyTo at hnext
  split at hnext
  next r k hrunning =>
    cases hnext
    have hwp := hs.running _ hrunning
    have hreply := hs.outside.reply hissuer fate r hwp.1
    have hgrown := hs.outsideGrows hreply.1 hreply.2.1
    refine { hgrown with running := fun task htask => ?_ }
    cases htask
    exact hwp.2 _ _ hreply.2
  · cases hnext

theorem Vouches.start (hs : Vouches uniform good s) {cancelled : Bool}
    (hnext : s.start cancelled = some s') : Vouches uniform good s' := by
  unfold ShardSystem.start at hnext
  split at hnext
  next spawned rest hrunning hwaiting =>
    obtain ⟨hready, hrest⟩ := forall_mem_cons.mp (hwaiting ▸ hs.waiting)
    split at hnext
    · cases hnext
      exact { hs with waiting := hrest }
    · cases hnext
      refine { hs with waiting := hrest, running := fun task htask => ?_ }
      cases htask
      rcases hready with ⟨S, hknows, hcovers, hall⟩
      refine Task.wp_mono (Reconciler.wp_task _ _ hknows hcovers) ?_
      rintro result g ⟨hvouched, hgeneration⟩
      refine ⟨hvouched, fun huniform => ?_⟩
      rcases hgeneration with hgeneration | hgeneration
      · exact ⟨0, fun generation hg => hgeneration 0 generation (hall huniform 0) hg⟩
      · exact hgeneration
  · cases hnext

theorem Vouches.finish (hs : Vouches uniform good s) (hnext : s.finish = some s') :
    Vouches uniform good s' := by
  unfold ShardSystem.finish at hnext
  split at hnext
  next result hrunning =>
    cases hnext
    exact { hs with
      running := fun task htask => nomatch htask
      results := forall_mem_concat hs.results (hs.running _ hrunning) }
  · cases hnext

theorem observed_applyResult
    (h : (applyResult nodes result shard).observed.get? nodeId = some { conf := some conf }) :
    shard.observed.get? nodeId = some { conf := some conf } ∨
      ObservedStateDelta.upsert nodeId { conf := some conf } ∈ result.observedDeltas := by
  rw [(applyResult_references nodes result shard).2.1] at h
  rcases get?_reportObserved nodes result shard.observed nodeId with
    ⟨_, hsame⟩ | ⟨_, delta, hmem, hnode, hlocation | hunknown⟩
  · exact .inl (hsame.symm.trans h)
  · have hsays := hlocation.symm.trans h
    cases delta with
    | upsert m location =>
      obtain rfl : m = nodeId := hnode
      rw [← Option.some.inj hsays]
      exact .inr hmem
    | delete m => cases hsays
  · cases hunknown.symm.trans h

theorem some_of_max {a b : Option Generation} {g : Generation} (h : max a b = some g) :
    a = some g ∨ b = some g := by
  cases a with
  | none => exact .inr (by simpa using h)
  | some a =>
    cases b with
    | none => exact .inl (by simpa using h)
    | some b =>
      have hmax : max a b = g := by simpa using h
      rcases max_choice a b with hchoice | hchoice
      · exact .inl (congrArg some (hchoice.symm.trans hmax))
      · exact .inr (congrArg some (hchoice.symm.trans hmax))

theorem Vouches.processResult (hs : Vouches uniform good s)
    (huniform : uniform -> forall o n m g, good o n g -> good o m g)
    (hnext : s.processResult = some s') : Vouches uniform good s' := by
  unfold ShardSystem.processResult at hnext
  split at hnext
  next result rest hresults =>
    cases hnext
    obtain ⟨hresult, hrest⟩ := forall_mem_cons.mp (hresults ▸ hs.results)
    refine { hs with observed := ?_, generation := ?_, results := hrest }
    · intro nodeId conf hconf
      rcases observed_applyResult hconf with hconf | hmem
      · exact hs.observed nodeId conf hconf
      · exact hresult.1 nodeId conf hmem
    · intro hu nodeId generation hgeneration
      rw [(applyResult_references _ _ _).2.2] at hgeneration
      rcases some_of_max hgeneration with hshard | hreported
      · exact hs.generation hu nodeId generation hshard
      · rcases hresult.2 hu with ⟨m, hgood⟩
        exact huniform hu _ m nodeId generation (hgood generation hreported)
  · cases hnext

theorem Vouches.spawn (hs : Vouches uniform good s) {detach : List NodeId} {first : NodeId}
    (hready : Ready uniform (good s.outside) (Reconciler.ofShard s.nodes detach first s.shard))
    (hnext : s.spawn detach first = some s') : Vouches uniform good s' := by
  unfold ShardSystem.spawn at hnext
  split at hnext
  next shard _ hspawn =>
    have hframe := TenantShard.spawnReconciler_references hspawn
    split at hnext
    · cases hnext
      refine { hs with observed := ?_, generation := ?_, waiting := ?_ }
      · intro nodeId conf hconf
        rw [hframe.2.1] at hconf
        exact hs.observed nodeId conf hconf
      · intro hu nodeId generation hgeneration
        rw [hframe.2.2] at hgeneration
        exact hs.generation hu nodeId generation hgeneration
      · exact forall_mem_concat hs.waiting hready
    · cases hnext
  · cases hnext

theorem Vouches.reattach (hissuer : Issuer good) (hs : Vouches uniform good s)
    (nodeId : NodeId) : Vouches uniform good (s.reattach nodeId) := by
  unfold ShardSystem.reattach
  split
  · have hframe := increment_frame nodeId s.outside
    have hgrows : Grows good s.outside (s.outside.increment nodeId).2 :=
      hissuer.grows s.outside nodeId
    have hgrown := hs.outsideGrows (hs.outside.of_frame hframe.1 hframe.2 hgrows) hgrows
    split
    · exact hs
    next generation o heq =>
      have hissues := hissuer.issues s.outside nodeId generation (by rw [heq])
      rw [heq] at hgrown hissues
      refine { hgrown with reattaching := fun m g hmem => ?_ }
      rcases mem_append.mp hmem with hmem | hmem
      · exact hgrown.reattaching m g hmem
      · cases mem_singleton.mp hmem
        exact hissues
  · refine { hs with reattaching := fun m g hmem => ?_ }
    rcases mem_append.mp hmem with hmem | hmem
    · exact hs.reattaching m g hmem
    · cases mem_singleton.mp hmem

theorem get?_of_ite_erase {alpha : Type} {map : OrdMap NodeId alpha} {m : NodeId} {v : alpha}
    {c : Bool} (h : (if c then map.erase nodeId else map).get? m = some v) :
    map.get? m = some v := by
  split at h
  · exact (get?_of_erase h).2
  · exact h

theorem get?_stampObserved {m : NodeId} {generation : Generation}
    (h : (stampObserved nodeId generation observed).get? m = some { conf := some conf }) :
    observed.get? m = some { conf := some conf } ∨
      m = nodeId ∧ conf.generation = some generation := by
  unfold stampObserved at h
  split at h
  · rcases get?_of_insert h with ⟨_, hnone⟩ | h
    · cases hnone
    · exact .inl h
  · rcases get?_of_insert h with ⟨heq, hlocation⟩ | h
    · have hconf := congrArg ObservedStateLocation.conf hlocation
      rcases Option.map_eq_some_iff.mp hconf with ⟨_, _, rfl⟩
      exact .inr ⟨heq, rfl⟩
    · exact .inl h

theorem get?_restartHeld {held : OrdMap NodeId LocationConfig} {m : NodeId}
    {generation : Option Generation}
    (h : (restartHeld nodeId generation held).get? m = some conf) :
    held.get? m = some conf ∨ m = nodeId ∧ conf.generation = generation := by
  unfold restartHeld at h
  split at h
  · exact .inl h
  · rcases get?_of_insert h with ⟨heq, rfl⟩ | h
    · exact .inr ⟨heq, rfl⟩
    · exact .inl h
  · split at h
    · exact .inl (get?_of_erase h).2
    · exact .inl h

theorem Vouches.restart {o : Outside} {reattaching : List (NodeId × Option Generation)}
    (hissuer : Issuer good) (hs : Vouches uniform good s)
    (hgeneration : o.generation = s.outside.generation) (hissued : o.issued = s.outside.issued)
    (hsent : forall nodeId g, (nodeId, g) ∈ o.sent -> good s.outside nodeId g)
    (hheld : forall nodeId conf, o.held.get? nodeId = some conf ->
      conf.Vouched (good s.outside) nodeId)
    (hobserved : forall nodeId conf, shard.observed.get? nodeId = some { conf := some conf } ->
      conf.Vouched (good s.outside) nodeId)
    (hshard : uniform -> forall nodeId g, shard.generation = some g -> good s.outside nodeId g)
    (hleft : forall nodeId g, (nodeId, some g) ∈ reattaching -> good s.outside nodeId g) :
    Vouches uniform good { s with outside := o, shard := shard, reattaching := reattaching } := by
  have hgrows : Grows good s.outside o := hissuer.frame s.outside o hgeneration hissued
  have hgrown := hs.outsideGrows ⟨fun m g hm => hgrows m g (hsent m g hm),
    fun m conf hconf => (hheld m conf hconf).mono hgrows⟩ hgrows
  exact
    { hgrown with
      observed := fun m conf hconf => (hobserved m conf hconf).mono hgrows
      generation := fun hu m g hg => hgrows m g (hshard hu m g hg)
      reattaching := fun m g hm => hgrows m g (hleft m g hm) }

theorem Vouches.reattached (hissuer : Issuer good) (hs : Vouches uniform good s)
    (huniform : uniform -> forall o n m g, good o n g -> good o m g)
    {i : Nat} {delivered emptyDisk : Bool}
    (hnext : s.reattached i delivered emptyDisk = some s') : Vouches uniform good s' := by
  unfold ShardSystem.reattached at hnext
  split at hnext
  · cases hnext
  next nodeId generation hi =>
    have hmem := mem_of_getElem? hi
    have hleft : forall m g, (m, some g) ∈ s.reattaching.eraseIdx i -> good s.outside m g :=
      fun m g hm => hs.reattaching m g (mem_of_mem_eraseIdx hm)
    have hheld : forall m conf,
        (if delivered then restartHeld nodeId generation
          (if emptyDisk then s.outside.held.erase nodeId else s.outside.held)
        else (if emptyDisk then s.outside.held.erase nodeId else s.outside.held)).get? m =
          some conf -> conf.Vouched (good s.outside) m := by
      intro m conf hconf
      split at hconf
      · rcases get?_restartHeld hconf with hconf | ⟨heq, hgeneration⟩
        · exact hs.outside.held m conf (get?_of_ite_erase hconf)
        · intro g hg
          rw [heq]
          refine hs.reattaching nodeId g ?_
          rw [← hg, hgeneration]
          exact hmem
      · exact hs.outside.held m conf (get?_of_ite_erase hconf)
    dsimp only at hnext
    split at hnext
    · cases hnext
      exact hs.restart hissuer rfl rfl hs.outside.sent hheld
        (fun m conf hconf => hs.observed m conf (get?_of_ite_erase hconf)) hs.generation hleft
    next g =>
      cases hnext
      have hgood := hs.reattaching nodeId g hmem
      refine hs.restart hissuer rfl rfl ?_ hheld ?_ ?_ hleft
      · intro m g' hm
        rcases mem_cons.mp hm with heq | hm
        · cases heq
          exact hgood
        · exact hs.outside.sent m g' hm
      · intro m conf hconf
        rcases get?_stampObserved hconf with hconf | ⟨heq, hgeneration⟩
        · exact hs.observed m conf (get?_of_ite_erase hconf)
        · intro g' hg'
          rw [heq]
          cases hgeneration.symm.trans hg'
          exact hgood
      · intro hu m g' hg'
        rcases some_of_max hg' with hshard | hnew
        · exact hs.generation hu m g' hshard
        · cases hnew
          exact huniform hu _ nodeId m g hgood

theorem Vouches.next (hissuer : Issuer good)
    (huniform : uniform -> forall o n m g, good o n g -> good o m g)
    (hs : Vouches uniform good s) {e : Event}
    (hready : forall detach first, e = .spawn detach first ->
      Ready uniform (good s.outside) (Reconciler.ofShard s.nodes detach first s.shard))
    (hnext : s.next e = some s') : Vouches uniform good s' := by
  cases e with
  | configure intent policy config =>
    change s.configure intent policy config = some s' at hnext
    unfold ShardSystem.configure at hnext
    split at hnext
    · cases hnext
      exact { hs with }
    · cases hnext
  | setNodes nodes =>
    cases hnext
    exact { hs with }
  | spawn detach first => exact hs.spawn (hready detach first rfl) hnext
  | start cancelled => exact hs.start hnext
  | reply fate => exact hs.replyTo hissuer hnext
  | finish => exact hs.finish hnext
  | processResult => exact hs.processResult huniform hnext
  | reattach nodeId =>
    cases hnext
    exact hs.reattach hissuer nodeId
  | reattached i delivered emptyDisk => exact hs.reattached hissuer huniform hnext

end ShardSystem

/-!
## Issued generations
-/

namespace Outside

/-- The generation was issued to the pageserver. -/
def issuedTo (o : Outside) : Good :=
  fun nodeId generation => (nodeId, generation) ∈ o.issued

theorem issuer_issuedTo : Issuer issuedTo where
  frame o o' _ hissued nodeId generation hmem := by
    unfold issuedTo
    rw [hissued]
    exact hmem
  grows o m nodeId generation hmem := by
    unfold issuedTo increment
    split
    · exact hmem
    · exact mem_cons_of_mem _ hmem
  issues o nodeId generation hissued := by
    unfold increment at hissued
    unfold issuedTo increment
    split at hissued
    · cases hissued
    · cases hissued
      exact mem_cons_self

/-- The database has issued each generation once, and none above the present one. -/
structure Ordered (o : Outside) : Prop where
  bounded : forall nodeId generation, (nodeId, generation) ∈ o.issued ->
    exists latest, o.generation = some latest ∧ generation ≤ latest
  owner : forall n m generation, (n, generation) ∈ o.issued -> (m, generation) ∈ o.issued -> n = m

variable {o : Outside}

theorem Ordered.increment (h : o.Ordered) (nodeId : NodeId) : (o.increment nodeId).2.Ordered := by
  unfold Outside.increment
  split
  · exact ⟨h.bounded, h.owner⟩
  next latest hlatest =>
    have hold : forall m generation, (m, generation) ∈ o.issued -> generation ≤ latest := by
      intro m generation hmem
      rcases h.bounded m generation hmem with ⟨bound, hbound, hle⟩
      cases hlatest.symm.trans hbound
      exact hle
    have hnew : forall m, (m, latest + 1) ∉ o.issued :=
      fun m hmem => Nat.not_succ_le_self latest (hold m _ hmem)
    refine ⟨fun m generation hmem => ⟨latest + 1, rfl, ?_⟩, fun n m generation hn hm => ?_⟩
    · rcases mem_cons.mp hmem with heq | hmem
      · cases heq
        exact Nat.le_refl _
      · exact (hold m generation hmem).trans (Nat.le_succ _)
    · rcases mem_cons.mp hn with heq | hn
      · cases heq
        rcases mem_cons.mp hm with heq | hm
        · cases heq
          rfl
        · exact absurd hm (hnew m)
      · rcases mem_cons.mp hm with heq | hm
        · cases heq
          exact absurd hn (hnew n)
        · exact h.owner n m generation hn hm

theorem Ordered.frame {o' : Outside} (h : o.Ordered)
    (hgeneration : o'.generation = o.generation) (hissued : o'.issued = o.issued) :
    o'.Ordered := by
  refine ⟨fun nodeId generation hmem => ?_, fun n m generation hn hm => ?_⟩
  · rw [hissued] at hmem
    rw [hgeneration]
    exact h.bounded nodeId generation hmem
  · rw [hissued] at hn hm
    exact h.owner n m generation hn hm

theorem Ordered.reply (h : o.Ordered) (fate : Fate) (r : Request) : (o.reply fate r).2.Ordered := by
  cases r with
  | locationConfig nodeId conf =>
    have hframe := send_frame nodeId conf o
    show (o.locationConfig nodeId conf fate).Ordered
    unfold Outside.locationConfig
    split
    · exact h.frame hframe.1 hframe.2.1
    · exact h.frame hframe.1 hframe.2.1
  | incrementGeneration nodeId =>
    have hincrement := h.increment nodeId
    change (o.incrementGeneration nodeId fate).2.Ordered
    rcases incrementGeneration_state nodeId fate o with hstate | hstate
    · rwa [hstate]
    · rwa [hstate]
  | _ => exact h

end Outside

namespace ShardSystem

open Service Outside

variable {s s' : ShardSystem}

theorem ordered_next {e : Event} (h : s.outside.Ordered) (hnext : s.next e = some s') :
    s'.outside.Ordered := by
  cases e with
  | reply fate =>
    change s.replyTo fate = some s' at hnext
    unfold ShardSystem.replyTo at hnext
    split at hnext
    · cases hnext
      exact h.reply fate _
    · cases hnext
  | reattach nodeId =>
    cases hnext
    have hincrement := h.increment nodeId
    unfold ShardSystem.reattach
    split
    · split
      · exact h
      next generation o heq =>
        rw [heq] at hincrement
        exact hincrement
    · exact h
  | reattached i delivered emptyDisk =>
    change s.reattached i delivered emptyDisk = some s' at hnext
    unfold ShardSystem.reattached at hnext
    split at hnext
    · cases hnext
    · dsimp only at hnext
      split at hnext
      · cases hnext
        exact h.frame rfl rfl
      · cases hnext
        exact h.frame rfl rfl
  | _ =>
    -- no other step touches the world outside
    simp only [ShardSystem.next, ShardSystem.configure, ShardSystem.spawn, ShardSystem.start,
      ShardSystem.finish, ShardSystem.processResult] at hnext
    repeat' split at hnext
    all_goals cases hnext
    all_goals exact h

/-!
## Runs
-/

/-- A reconciler that may migrate is spawned only if all attached locations have the shard's
generation. -/
def MigratesAligned (s : ShardSystem) : Event -> Prop
  | .spawn _ _ =>
    forall dest, s.shard.intent.attached = some dest ->
      (forall conf, s.shard.observed.get? dest = some { conf := some conf } ->
        conf.mode = .secondary) ->
      forall m conf, m ≠ dest -> s.shard.observed.get? m = some { conf := some conf } ->
        conf.mode = .attachedSingle -> conf.generation = s.shard.generation
  | _ => True

/-- No reconcilers, and known locations carry generations issued to their pageservers. -/
structure Settled (s : ShardSystem) : Prop where
  ordered : s.outside.Ordered
  outside : s.outside.Sound issuedTo
  observed : forall nodeId conf, s.shard.observed.get? nodeId = some { conf := some conf } ->
    conf.Vouched s.outside.issuedTo nodeId
  waiting : s.waiting = []
  running : s.running = none
  results : s.results = []
  reattaching : s.reattaching = []

theorem Settled.vouches (h : s.Settled) : Vouches False issuedTo s where
  outside := h.outside
  observed := h.observed
  generation hfalse := hfalse.elim
  waiting := by simp [h.waiting]
  running := by simp [h.running]
  results := by simp [h.results]
  reattaching := by simp [h.reattaching]

theorem ready_of_aligned (hs : Vouches False issuedTo s) {detach : List NodeId} {first : NodeId}
    (hok : s.MigratesAligned (.spawn detach first)) :
    Ready False s.outside.issuedTo (Reconciler.ofShard s.nodes detach first s.shard) := by
  refine ⟨fun m => exists conf, s.shard.observed.get? m = some { conf := some conf } ∧
    conf.generation = s.shard.generation, ⟨fun nodeId conf hconf => ?_, ?_⟩, ?_, ?_⟩
  · exact hs.observed nodeId conf (Reconciler.observedConf_iff.mp hconf)
  · rintro nodeId generation ⟨conf, hconf, hsame⟩ hgeneration
    exact hs.observed nodeId conf hconf generation (hsame.trans hgeneration)
  · rintro dest ⟨hdest, hsecondary⟩ m conf hne hconf hmode
    refine ⟨conf, Reconciler.observedConf_iff.mp hconf, hok dest hdest (fun c hc => ?_) m conf hne
      (Reconciler.observedConf_iff.mp hconf) hmode⟩
    exact hsecondary c (Reconciler.observedConf_iff.mpr hc)
  · exact fun hfalse => hfalse.elim

theorem vouches_reached {start : ShardSystem} (hstart : start.Settled)
    (h : Reached next MigratesAligned start s) :
    s.outside.Ordered ∧ Vouches False issuedTo s := by
  induction h with
  | start => exact ⟨hstart.ordered, hstart.vouches⟩
  | step e _ hok hnext ih =>
    refine ⟨ordered_next ih.1 hnext, ih.2.next issuer_issuedTo (fun hfalse => hfalse.elim) ?_ hnext⟩
    rintro detach first rfl
    exact ready_of_aligned ih.2 hok

/-- In every run in which reconcilers are spawned only under this condition, no generation
is sent to two pageservers. -/
theorem generations_unshared {start s : ShardSystem} (hstart : start.Settled)
    (h : Reached next MigratesAligned start s) (n m : NodeId) (generation : Generation)
    (hn : (n, generation) ∈ s.outside.sent) (hm : (m, generation) ∈ s.outside.sent) : n = m := by
  have hinv := vouches_reached hstart h
  exact hinv.1.owner n m generation (hinv.2.outside.sent n generation hn)
    (hinv.2.outside.sent m generation hm)

/-!
A shard that is attached to the first node in the first generation.
-/

def sampleIdentity : ShardIdentity :=
  { number := 0, count := ⟨0⟩, stripeSize := 2048 }

def sampleConfig : TenantConfig :=
  { heatmapPeriod := none, settings := 0 }

def firstConf : LocationConfig :=
  attachedLocationConf 1 sampleIdentity sampleConfig (.attached 0) 0

/-- The shard is to be attached to a node of which something may be known. -/
def moving (dest : NodeId) (observed : ObservedState) : ShardSystem :=
  { nodes :=
      ((OrdMap.empty.insert 1 (Service.pageserver .active)).insert 2
        (Service.pageserver .active)).insert 3 (Service.pageserver .active)
    shard :=
      { Service.attachedShard .active with
        intent := { attached := some dest, secondary := [], preferredAzId := none }
        observed := observed }
    outside :=
      { generation := some 1
        generationPageserver := some 1
        held := OrdMap.empty.insert 1 firstConf
        sent := [(1, 1)]
        issued := [(1, 1)] }
    waiting := []
    running := none
    results := []
    reattaching := [] }

def firstObserved : ObservedState :=
  OrdMap.empty.insert 1 { conf := some firstConf }

theorem moving_held {dest nodeId : NodeId} {observed : ObservedState} {conf : LocationConfig}
    (h : (moving dest observed).outside.held.get? nodeId = some conf) :
    nodeId = 1 ∧ conf = firstConf := by
  rcases get?_of_insert h with ⟨hnode, hconf⟩ | hempty
  · exact ⟨hnode, hconf.symm⟩
  · cases hempty

theorem settled_moving (dest : NodeId) {observed : ObservedState}
    (hobserved : forall nodeId conf, observed.get? nodeId = some { conf := some conf } ->
      nodeId = 1 ∧ conf.generation = some 1) : (moving dest observed).Settled where
  ordered := by
    have hissued : forall n g, (n, g) ∈ (moving dest observed).outside.issued -> n = 1 ∧ g = 1 := by
      intro n g hmem
      cases mem_singleton.mp hmem
      exact ⟨rfl, rfl⟩
    refine ⟨fun nodeId generation hmem => ⟨1, rfl, (hissued _ _ hmem).2.le⟩, ?_⟩
    intro n m generation hn hm
    exact (hissued n _ hn).1.trans (hissued m _ hm).1.symm
  outside := by
    refine ⟨fun nodeId generation hmem => hmem, fun nodeId conf hconf generation hg => ?_⟩
    rcases moving_held hconf with ⟨rfl, rfl⟩
    cases hg
    exact mem_singleton_self _
  observed := by
    intro nodeId conf hconf generation hg
    rcases hobserved nodeId conf hconf with ⟨rfl, hgeneration⟩
    cases hgeneration.symm.trans hg
    exact mem_singleton_self _
  waiting := rfl
  running := rfl
  results := rfl
  reattaching := rfl

theorem firstObserved_conf {nodeId : NodeId} {conf : LocationConfig}
    (h : firstObserved.get? nodeId = some { conf := some conf }) :
    nodeId = 1 ∧ conf = firstConf := by
  rcases get?_of_insert h with ⟨hnode, hlocation⟩ | hempty
  · cases hlocation
    exact ⟨hnode, rfl⟩
  · cases hempty

/-!
The location on the second node is unknown and stays so, and attaching the shard there in
the second generation is reported as failed.  The shard is then to be attached to the
third node, and the first node, which is still observed as attached, is made stale in
the second generation.
-/

def secondUnknown : ObservedState :=
  firstObserved.insert 2 { conf := none }

theorem secondUnknown_conf {nodeId : NodeId} {conf : LocationConfig}
    (h : secondUnknown.get? nodeId = some { conf := some conf }) :
    nodeId = 1 ∧ conf = firstConf := by
  rcases get?_of_insert h with ⟨_, hunknown⟩ | hfirst
  · cases hunknown
  · exact firstObserved_conf hfirst

def fine : Fate :=
  { error := none, effect := true, indeterminate := false, notifyFailed := false }

def migrateAgain : List Event :=
  [.spawn [1] 0, .start false, .reply { fine with indeterminate := true }, .reply fine,
    .reply { fine with error := some .remote }, .finish, .processResult,
    .configure { attached := some 3, secondary := [], preferredAzId := none } (.attached 0)
      sampleConfig,
    .spawn [1, 2] 0, .start false, .reply fine]

theorem stale_origin_shares_generation :
    (moving 2 secondUnknown).Settled ∧
      exists s, Reached next (fun _ _ => True) (moving 2 secondUnknown) s ∧
        (2, 2) ∈ s.outside.sent ∧ (1, 2) ∈ s.outside.sent := by
  have hsettled : (moving 2 secondUnknown).Settled := by
    refine settled_moving 2 (fun nodeId conf hconf => ?_)
    rcases secondUnknown_conf hconf with ⟨hnode, rfl⟩
    exact ⟨hnode, rfl⟩
  have hok : forall (_ : ShardSystem) e, e ∈ migrateAgain -> True := fun _ _ _ => trivial
  refine ⟨hsettled, _, .of_foldlM hok rfl, ?_, ?_⟩
  · decide
  · decide

/-!
A live migration to the second node, up to the point where the second node is attached.
-/

def migrateOnce : List Event :=
  [.start false, .reply fine, .reply fine, .reply fine, .reply fine]

theorem generations_unshared_migration :
    exists s, Reached next MigratesAligned (moving 2 firstObserved) s ∧
      (2, 2) ∈ s.outside.sent ∧ forall n, (n, 2) ∈ s.outside.sent -> n = 2 := by
  have hsettled : (moving 2 firstObserved).Settled :=
    settled_moving 2 (fun nodeId conf hconf =>
      ⟨(firstObserved_conf hconf).1, (firstObserved_conf hconf).2 ▸ rfl⟩)
  have hspawn : (moving 2 firstObserved).MigratesAligned (.spawn [1] 0) := by
    intro dest _ _ m conf _ hconf _
    rw [(firstObserved_conf hconf).2]
    rfl
  have hok : forall (s : ShardSystem) e, e ∈ migrateOnce -> s.MigratesAligned e := by
    intro s e he
    simp only [migrateOnce, mem_cons, not_mem_nil, or_false] at he
    rcases he with rfl | rfl | rfl | rfl | rfl <;> trivial
  have hreached : exists s, Reached next MigratesAligned (moving 2 firstObserved) s ∧
      (2, 2) ∈ s.outside.sent :=
    ⟨_, (Reached.start.step (.spawn [1] 0) hspawn rfl).trans (.of_foldlM hok rfl), by decide⟩
  rcases hreached with ⟨s, hs, hsent⟩
  exact ⟨s, hs, hsent, fun n hn => generations_unshared hsettled hs n 2 2 hn hsent⟩

end ShardSystem

end StorageController
end OpenNeon

import Mathlib.Logic.Relation
import OpenNeon.Safekeeper.SafeKeeper
import OpenNeon.Safekeeper.WalStorageSpec

/-!
# What the handlers do

A handler is a sequence of effects, each of which is atomic for a crash.  The
effects say all that a message can do to a safekeeper, with the conditions that
were checked before.  If a file operation fails, the sequence may end within an
effect.
-/

namespace OpenNeon
namespace Safekeeper

open Base Prog TimelineState PhysicalStorage
open Prog (wp_bind wp_mono wp_get)

/-- The WAL is written and truncated and a new history is saved; all else may fail. -/
structure SkIo.Works (io : SkIo) : Prop where
  writes : io.storage.Writes
  truncateSync : io.storage.truncateSync = true
  truncateFiles : io.storage.truncateFiles = true
  persist : io.persist .termHistory = true

inductive Cause where
  | message (msg : ProposerAcceptorMessage)
  | peer (info : SafekeeperTimelineInfo)

namespace Cause

def append? : Cause -> Option AppendRequest
  | .message (.appendRequest m) => some m
  | .message (.noFlushAppendRequest m) => some m
  | _ => none

end Cause

namespace SafeKeeper

section

variable (sk : SafeKeeper)

def term : Term :=
  sk.state.pers.acceptorState.term

def termHistory : TermHistory :=
  sk.state.pers.acceptorState.termHistory

def generation : SafekeeperGeneration :=
  sk.state.pers.mconf.generation

def withPers (s : TimelinePersistentState) : SafeKeeper :=
  { sk with state := TimelineState.new s }

def withStore (w : PhysicalStorage) : SafeKeeper :=
  { sk with walStore := w }

def withCommit (lsn : Lsn) : SafeKeeper :=
  { sk with
    state := { sk.state with inmem := { sk.state.inmem with commitLsn := lsn } } }

def withPeerHorizon (lsn : Lsn) : SafeKeeper :=
  { sk with
    state := { sk.state with inmem := { sk.state.inmem with peerHorizonLsn := lsn } } }

/-- The position that a safekeeper commits for a candidate. -/
def commitFor (candidate : Lsn) : Lsn :=
  min (max candidate sk.state.inmem.commitLsn) sk.flushLsn

end

/-- The same up to what a greeting tells of the server. -/
structure SameButServer (s s' : TimelinePersistentState) : Prop where
  walSegSize : s'.server.walSegSize = s.server.walSegSize
  rest : exists server, s' = { s with server := server }

/-- An elected proposer is accepted. -/
structure Accepts (sk : SafeKeeper) (m : ProposerElected) (last : TermLsn) : Prop where
  generation : sk.generation = m.generation
  term : sk.term = m.term
  lcp : exists lcp, lastCommonPoint m sk = .ok lcp ∧ lcp.lsn = m.startStreamingAt
  commit_le : sk.state.inmem.commitLsn ≤ m.startStreamingAt
  last : m.termHistory.getLast? = some last

/-- A commit position is learned from a proposer of the same term, or from a peer. -/
inductive Candidate (sk : SafeKeeper) : Cause -> Lsn -> Prop where
  | proposer {cause : Cause} {m : AppendRequest} (hcause : cause.append? = some m)
      (hgen : sk.generation = m.generation) (hterm : sk.term = m.term) :
      Candidate sk cause m.commitLsn
  | peer {info : SafekeeperTimelineInfo} (hterm : info.lastLogTerm = sk.getLastLogTerm) :
      Candidate sk (.peer info) info.commitLsn

inductive Effect (cause : Cause) (sk : SafeKeeper) : SafeKeeper -> Prop where
  | closed {w : PhysicalStorage} (hw : PhysicalStorage.Closed sk.walStore w) :
      Effect cause sk (sk.withStore w)
  | flushed {w : PhysicalStorage} (hw : PhysicalStorage.Flushed sk.walStore w) :
      Effect cause sk (sk.withStore w)
  | appended {w : PhysicalStorage} {m : AppendRequest} (hcause : cause.append? = some m)
      (hgen : sk.generation = m.generation) (hterm : sk.term = m.term)
      (hne : m.walData ≠ [])
      (hw : PhysicalStorage.Appended sk.state.pers.timelineStartLsn sk.walStore
        m.beginLsn m.walData w) :
      Effect cause sk (sk.withStore w)
  | server {s : TimelinePersistentState} (hs : SameButServer sk.state.startChange s) :
      Effect cause sk (sk.withPers s)
  | switched {m : ProposerGreeting} (hcause : cause = .message (.greeting m))
      (hgen : sk.generation < m.mconf.generation)
      (hmem : m.mconf.contains sk.nodeId = true) :
      Effect cause sk (sk.withPers { sk.state.startChange with mconf := m.mconf })
  | raised {t : Term} (hlt : sk.term < t)
      (hcause : (exists m, cause = .message (.voteRequest m) ∧ m.term = t ∧
          sk.generation = m.generation ∧
          sk.walStore.flushRecordLsn = sk.walStore.writeRecordLsn) ∨
        exists m, cause = .message (.elected m) ∧ m.term = t ∧
          sk.generation = m.generation) :
      Effect cause sk (sk.withPers { sk.state.startChange with
        acceptorState := { sk.state.pers.acceptorState with term := t } })
  | elected {m : ProposerElected} {last : TermLsn} {w : PhysicalStorage}
      (hcause : cause = .message (.elected m)) (haccepts : Accepts sk m last)
      (hw : PhysicalStorage.Truncated sk.walStore m.startStreamingAt w) :
      Effect cause sk
        { (sk.withStore w).withPers (adoptHistory m sk.state.startChange) with
          termStartLsn := last.lsn }
  | committed {candidate : Lsn} (hcandidate : Candidate sk cause candidate)
      (hle : sk.state.inmem.commitLsn ≤ sk.commitFor candidate) :
      Effect cause sk (sk.withCommit (sk.commitFor candidate))
  | persisted : Effect cause sk (sk.withPers sk.state.startChange)
  | horizon {m : AppendRequest} (hcause : cause.append? = some m) :
      Effect cause sk (sk.withPeerHorizon (max sk.state.inmem.peerHorizonLsn m.truncateLsn))

def Effects (cause : Cause) : SafeKeeper -> SafeKeeper -> Prop :=
  Relation.ReflTransGen (Effect cause)

/-- An effect that was interrupted by the failure of a file operation. -/
inductive Partial (cause : Cause) (sk : SafeKeeper) : SafeKeeper -> Prop where
  | torn {w : PhysicalStorage} {m : AppendRequest} (hcause : cause.append? = some m)
      (hgen : sk.generation = m.generation) (hterm : sk.term = m.term)
      (hclean : sk.walStore.pendingWalTruncation = false)
      (hw : PhysicalStorage.Torn sk.walStore m.beginLsn m.walData w) :
      Partial cause sk (sk.withStore w)
  | reset {m : ProposerElected} {last : TermLsn}
      (hcause : cause = .message (.elected m)) (haccepts : Accepts sk m last)
      (hreach : sk.walStore.Reaches m.startStreamingAt) :
      Partial cause sk (sk.withStore (sk.walStore.resetLsns m.startStreamingAt))
  | truncated {m : ProposerElected} {last : TermLsn} {w : PhysicalStorage}
      (hcause : cause = .message (.elected m)) (haccepts : Accepts sk m last)
      (hw : PhysicalStorage.Truncated sk.walStore m.startStreamingAt w) :
      Partial cause sk (sk.withStore w)

def Fails (io : SkIo) (cause : Cause) (sk sk' : SafeKeeper) : Prop :=
  exists mid, Effects cause sk mid ∧
    (sk' = mid ∨ ¬ io.Works ∧ Partial cause mid sk')

/-- The state in which an assertion fails. -/
inductive Panics (sk : SafeKeeper) : Cause -> SkPanic -> Prop where
  | termHistory {m : ProposerElected} {reason : TermHistory.Panic}
      (hgen : sk.generation = m.generation) (hterm : sk.term = m.term)
      (hreason : TermHistory.findHighestCommonPoint m.termHistory sk.getTermHistory
        sk.flushLsn = .error reason) :
      Panics sk (.message (.elected m)) (.termHistory reason)
  | truncateCommitted {m : ProposerElected} {lcp : TermLsn}
      (hgen : sk.generation = m.generation) (hterm : sk.term = m.term)
      (hlcp : lastCommonPoint m sk = .ok lcp) (hstart : lcp.lsn = m.startStreamingAt)
      (hlt : m.startStreamingAt < sk.state.inmem.commitLsn) :
      Panics sk (.message (.elected m))
        (.truncateCommitted m.startStreamingAt sk.state.inmem.commitLsn)
  | commitLsnMonotonicity {cause : Cause} {candidate : Lsn}
      (hcandidate : Candidate sk cause candidate)
      (hlt : sk.commitFor candidate < sk.state.inmem.commitLsn) :
      Panics sk cause (.commitLsnMonotonicity sk.state.inmem.commitLsn (sk.commitFor candidate))

/-- An error of a handler is a panic only where an assertion fails. -/
def Raises (cause : Cause) (e : SkError) (sk : SafeKeeper) : Prop :=
  forall reason, e = .panic reason -> Panics sk cause reason

/-!
## Rules for programs that do effects
-/

variable {io : SkIo} {cause : Cause} {sk sk' mid : SafeKeeper} {alpha beta : Type}

theorem Effects.single (heffect : Effect cause sk sk') : Effects cause sk sk' :=
  Relation.ReflTransGen.single heffect

theorem Fails.of_effect (heffect : Effect cause sk sk') : Fails io cause sk sk' :=
  ⟨sk', .single heffect, Or.inl rfl⟩

theorem Fails.refl : Fails io cause sk sk :=
  ⟨sk, .refl, Or.inl rfl⟩

theorem Fails.of_effects (heffects : Effects cause sk mid) (hfails : Fails io cause mid sk') :
    Fails io cause sk sk' := by
  rcases hfails with ⟨last, hlast, hend⟩
  exact ⟨last, heffects.trans hlast, hend⟩

/-- The program does effects, ends in a postcondition and panics where it may. -/
def Does (io : SkIo) (cause : Cause) (m : Op alpha) (post : alpha -> SafeKeeper -> Prop)
    (sk : SafeKeeper) : Prop :=
  wp m (fun a sk' => Effects cause sk sk' ∧ post a sk')
    (fun e sk' => Fails io cause sk sk' ∧ Raises cause e sk') sk

variable {post : beta -> SafeKeeper -> Prop} {e : SkError} {site : PersistSite}

theorem Does.bind {m : Op alpha} {f : alpha -> Op beta} {mid : alpha -> SafeKeeper -> Prop}
    (hm : Does io cause m mid sk)
    (hf : forall a sk', mid a sk' -> Does io cause (f a) post sk') :
    Does io cause (m >>= f) post sk := by
  unfold Does
  rw [wp_bind]
  apply wp_mono hm
  · intro a sk' hmid
    apply wp_mono (hf a sk' hmid.2)
    · intro b sk'' hpost
      exact ⟨hmid.1.trans hpost.1, hpost.2⟩
    · intro e sk'' hfail
      exact ⟨hfail.1.of_effects hmid.1, hfail.2⟩
  · intro e sk' hfail
    exact hfail

theorem Does.get {f : SafeKeeper -> Op beta} (hf : Does io cause (f sk) post sk) :
    Does io cause ((MonadState.get : Op SafeKeeper) >>= f) post sk := by
  exact hf

theorem Does.pure {post : alpha -> SafeKeeper -> Prop} {a : alpha} (hpost : post a sk) :
    Does io cause (Pure.pure a) post sk :=
  ⟨Relation.ReflTransGen.refl, hpost⟩

theorem Does.stop {post : alpha -> SafeKeeper -> Prop} (hraises : Raises cause e sk) :
    Does io cause (throw e) post sk :=
  ⟨.refl, hraises⟩

theorem Does.check {c : Prop} [Decidable c] {f : Unit -> Op beta}
    (hraises : c -> Raises cause e sk) (hf : ¬ c -> Does io cause (f ()) post sk) :
    Does io cause (if c then throw e >>= f else f ()) post sk := by
  split
  case isTrue hc =>
    exact Does.stop (hraises hc)
  case isFalse hc =>
    exact hf hc

theorem Does.lift {x : Except SkError alpha}
    (hraises : forall e, x = .error e -> Raises cause e sk) :
    Does io cause ((liftExcept x : Op alpha)) (fun a sk' => x = .ok a ∧ sk' = sk) sk := by
  cases x with
  | ok a => exact ⟨Relation.ReflTransGen.refl, rfl, rfl⟩
  | error e => exact ⟨.refl, hraises e rfl⟩

theorem Does.whenever (mid : SafeKeeper -> Prop) {c : Prop} [Decidable c] {m : Op Unit}
    {f : Unit -> Op beta} (hm : c -> Does io cause m (fun _ => mid) sk) (hskip : ¬ c -> mid sk)
    (hf : forall sk', mid sk' -> Does io cause (f ()) post sk') :
    Does io cause (if c then m >>= f else f ()) post sk := by
  split
  case isTrue hc =>
    exact Does.bind (hm hc) (fun _ sk' hmid => hf sk' hmid)
  case isFalse hc =>
    exact hf sk (hskip hc)

theorem Does.mono {m : Op alpha} {post post' : alpha -> SafeKeeper -> Prop}
    (hm : Does io cause m post sk) (himp : forall a sk', post a sk' -> post' a sk') :
    Does io cause m post' sk :=
  wp_imp hm (fun a sk' hpost => ⟨hpost.1, himp a sk' hpost.2⟩)

theorem Does.modify {f : SafeKeeper -> SafeKeeper} (heffect : Effect cause sk (f sk)) :
    Does io cause (MonadStateOf.modifyGet (fun s => (PUnit.unit, f s)))
      (fun _ sk' => sk' = f sk) sk :=
  ⟨Effects.single heffect, rfl⟩

theorem Does.onStore {m : PhysicalStorage.Op alpha}
    {post : alpha -> PhysicalStorage -> Prop} {fail : StorageError -> PhysicalStorage -> Prop}
    (hm : wp m post fail sk.walStore)
    (hpost : forall a w, post a w -> Effects cause sk (sk.withStore w))
    (hfail : forall e w, fail e w -> Fails io cause sk (sk.withStore w)) :
    Does io cause (onStore m) (fun a sk' => exists w, post a w ∧ sk' = sk.withStore w) sk := by
  unfold Does SafeKeeper.onStore
  rw [wp_zoom, wp_adapt]
  apply wp_mono hm
  · intro a w ha
    exact ⟨hpost a w ha, w, ha, rfl⟩
  · intro e w he
    refine ⟨hfail e w he, ?_⟩
    intro reason hreason
    cases hreason

/-- A change of the persistent state is done as a whole or not at all. -/
theorem finishChange_spec (persisted : Bool) (s : TimelinePersistentState) (t : TimelineState) :
    wp (finishChange persisted s) (fun _ t' => t' = TimelineState.new s)
      (fun _ t' => t' = t ∧ persisted = false) t := by
  simp only [finishChange, wp_bind, wp_get, wp_ite, wp_set, Prog.wp_throw]
  split
  case isTrue heq =>
    unfold TimelineState.new
    rw [heq]
  case isFalse =>
    split
    · rfl
    next hpersist =>
      exact ⟨trivial, by simpa using hpersist⟩

theorem onState_finishChange_spec (persisted : Bool) (s : TimelinePersistentState) :
    wp (onState (finishChange persisted s)) (fun _ sk' => sk' = sk.withPers s)
      (fun e sk' => sk' = sk ∧ e = .state .persist ∧ persisted = false) sk := by
  unfold onState
  rw [wp_zoom, wp_adapt]
  apply wp_mono (finishChange_spec persisted s sk.state)
  · rintro _ t rfl
    rfl
  · rintro e t ⟨rfl, hpersist⟩
    exact ⟨rfl, rfl, hpersist⟩

theorem change_spec {f : TimelinePersistentState -> TimelinePersistentState} :
    wp (change io site f) (fun _ sk' => sk' = sk.withPers (f sk.state.startChange))
      (fun e sk' => sk' = sk ∧ e = .state .persist ∧ io.persist site = false) sk := by
  unfold change
  rw [wp_bind]
  exact onState_finishChange_spec _ _

theorem flush_spec (persisted : Bool) (sk : SafeKeeper) :
    wp (onState (flush persisted)) (fun _ sk' => sk' = sk.withPers sk.state.startChange)
      (fun e sk' => sk' = sk ∧ e = .state .persist ∧ persisted = false) sk := by
  have hflush : onState (flush persisted) =
      (do
        let sk <- get
        onState (finishChange persisted sk.state.startChange)) := rfl
  rw [hflush, wp_bind]
  exact onState_finishChange_spec _ _

theorem Does.persist {m : Op Unit} {persisted : Bool} (hm : wp m (fun _ sk' => sk' = mid)
      (fun e sk' => sk' = sk ∧ e = .state .persist ∧ persisted = false) sk)
    (heffect : Effect cause sk mid) : Does io cause m (fun _ sk' => sk' = mid) sk := by
  apply wp_mono hm
  · rintro _ sk' rfl
    exact ⟨Effects.single heffect, rfl⟩
  · rintro e sk' ⟨rfl, rfl, _⟩
    exact ⟨.refl, nofun⟩

theorem Does.change {f : TimelinePersistentState -> TimelinePersistentState}
    (heffect : Effect cause sk (sk.withPers (f sk.state.startChange))) :
    Does io cause (change io site f)
      (fun _ sk' => sk' = sk.withPers (f sk.state.startChange)) sk :=
  .persist change_spec heffect

/-!
## The handlers
-/

theorem flushWal_does (io : SkIo) (cause : Cause) (sk : SafeKeeper) :
    Does io cause (onStore (flushWal io.storage))
      (fun _ sk' => exists w, PhysicalStorage.Flushed sk.walStore w ∧
        sk' = sk.withStore w) sk := by
  apply Does.onStore flushWal_spec
  · intro _ w hw
    exact Effects.single (.flushed hw)
  · intro _ w hw
    exact .of_effect (.closed hw)

theorem initializeFirstSegment_does (io : SkIo) (cause : Cause) (sk : SafeKeeper) :
    Does io cause (onStore (initializeFirstSegment io.storage)) (fun _ sk' => sk' = sk) sk := by
  apply Does.mono (Does.onStore initializeFirstSegment_spec ?_ ?_)
  · rintro _ sk' ⟨w, rfl, rfl⟩
    rfl
  · rintro _ w rfl
    exact Relation.ReflTransGen.refl
  · rintro _ w rfl
    exact .refl

theorem flushControl_does :
    Does io cause (onState (flush (io.persist site)))
      (fun _ sk' => sk' = sk.withPers sk.state.startChange) sk :=
  .persist (flush_spec _ sk) .persisted

theorem membershipSwitch_does {m : ProposerGreeting}
    (hmem : ¬ (sk.generation < m.mconf.generation ∧ m.mconf.contains sk.nodeId = false)) :
    Does io (.message (.greeting m)) (onState (membershipSwitch (io.persist .mconf) m.mconf))
      (fun _ _ => True) sk := by
  unfold Does onState membershipSwitch
  simp only [wp_bind, wp_get, wp_ite, wp_zoom, wp_adapt]
  split
  case isTrue hgen =>
    have heffect : Effect (.message (.greeting m)) sk
        (sk.withPers { sk.state.startChange with mconf := m.mconf }) := by
      apply Effect.switched rfl hgen
      by_contra hno
      exact hmem ⟨hgen, by simpa using hno⟩
    apply wp_mono (finishChange_spec _ _ sk.state)
    · rintro _ t rfl
      exact ⟨Effects.single heffect, trivial⟩
    · rintro e t ⟨rfl, _⟩
      exact ⟨.refl, fun _ heq => by cases heq⟩
  case isFalse =>
    exact ⟨Relation.ReflTransGen.refl, trivial⟩

theorem checkGreeting_ne_panic {m : ProposerGreeting} {pers : TimelinePersistentState}
    (hcheck : checkGreeting m pers = .error e) :
    forall reason, e ≠ .panic reason := by
  unfold checkGreeting at hcheck
  intro reason heq
  subst heq
  split at hcheck
  · repeat' split at hcheck
    all_goals cases hcheck
  · cases hcheck

theorem handleGreeting_does (io : SkIo) (m : ProposerGreeting) (sk : SafeKeeper) :
    Does io (.message (.greeting m)) (handleGreeting io m) (fun reply sk' => reply = some (.greeting
        { nodeId := sk'.nodeId, mconf := sk'.state.pers.mconf, term := sk'.term })) sk := by
  apply Does.get
  refine Does.bind (Does.lift ?_) ?_
  · intro e hcheck reason heq
    exact absurd heq (checkGreeting_ne_panic hcheck reason)
  intro _ sk _
  refine Does.whenever (fun _ => True) ?_ (fun _ => trivial) (fun sk _ => ?_)
  · intro _
    apply Does.mono (Does.change (.server ⟨rfl, _, rfl⟩))
    exact fun _ _ _ => trivial
  apply Does.get
  refine Does.check (fun _ => ?_) ?_
  · nofun
  intro hmem
  apply Does.bind (membershipSwitch_does hmem)
  intro _ sk _
  apply Does.get
  exact Does.pure rfl

structure VoteReply (m : VoteRequest) (sk : SafeKeeper) (resp : VoteResponse)
    (sk' : SafeKeeper) : Prop where
  generation : resp.generation = m.generation
  same_generation : sk'.generation = m.generation
  term : resp.term = sk'.term
  flushLsn : resp.flushLsn = sk'.flushLsn
  termHistory : resp.termHistory = sk'.getTermHistory
  flushed : sk'.walStore.flushRecordLsn = sk'.walStore.writeRecordLsn
  given : resp.voteGiven = true -> sk.term < m.term ∧ sk'.term = m.term

theorem handleVoteRequest_does (io : SkIo) (m : VoteRequest) (sk : SafeKeeper) :
    Does io (.message (.voteRequest m)) (handleVoteRequest io m)
      (fun reply sk' => exists resp, reply = some (.voteResponse resp) ∧
        VoteReply m sk resp sk') sk := by
  apply Does.get
  refine Does.check (fun _ => ?_) ?_
  · nofun
  intro hgen
  have hsame : sk.generation = m.generation := not_not.mp hgen
  apply Does.bind (flushWal_does io _ sk)
  intro _ sk' hflushed
  rcases hflushed with ⟨w, ⟨flushed, rfl⟩, rfl⟩
  apply Does.get
  split
  case isTrue hlt =>
    refine Does.bind (Does.change (.raised hlt (Or.inl ⟨m, rfl, rfl, hsame, rfl⟩))) ?_
    rintro _ sk'' rfl
    apply Does.get
    apply Does.pure
    exact ⟨_, rfl, hsame, hsame, rfl, rfl, rfl, rfl, fun _ => ⟨hlt, rfl⟩⟩
  case isFalse =>
    apply Does.pure
    exact ⟨_, rfl, hsame, hsame, rfl, rfl, rfl, rfl, nofun⟩

theorem truncateAndAdopt_does {m : ProposerElected} {last : TermLsn}
    (haccepts : Accepts sk m last) :
    Does io (.message (.elected m)) (truncateAndAdopt io m) (fun reply _ => reply = none) sk := by
  unfold Does truncateAndAdopt onStore
  rw [haccepts.last]
  simp only [wp_bind, wp_zoom, wp_adapt]
  apply wp_mono (truncateWal_spec m.startStreamingAt)
  · intro _ w hw
    apply wp_mono change_spec
    · intro _ sk' hsk
      subst hsk
      exact ⟨Effects.single (.elected rfl haccepts hw), rfl⟩
    · intro e sk' hfail
      rcases hfail with ⟨rfl, rfl, hpersist⟩
      refine ⟨⟨sk, Relation.ReflTransGen.refl, Or.inr ⟨?_, .truncated rfl haccepts hw⟩⟩,
        fun _ heq => by cases heq⟩
      intro hworks
      rw [hworks.persist] at hpersist
      cases hpersist
  · intro e w hfail
    refine ⟨?_, fun _ heq => by cases heq⟩
    rcases hfail with rfl | ⟨hio, hreach, rfl⟩
    · exact .refl
    · refine ⟨sk, Relation.ReflTransGen.refl, Or.inr ⟨?_, .reset rfl haccepts hreach⟩⟩
      intro hworks
      exact hio ⟨hworks.truncateSync, hworks.truncateFiles⟩

theorem lastCommonPoint_spec (m : ProposerElected) (sk : SafeKeeper) :
    match lastCommonPoint m sk with
    | .ok lcp =>
      (exists n, TermHistory.Common m.termHistory sk.getTermHistory (n + 1) ∧
        lcp.lsn = TermHistory.commonTermEnd m.termHistory sk.getTermHistory sk.flushLsn n) ∨
      TermHistory.Common m.termHistory sk.getTermHistory 0 ∧ m.termHistory.head? = some lcp
    | .error e => forall reason, e = .panic reason ->
        exists panic, reason = .termHistory panic ∧
          TermHistory.findHighestCommonPoint m.termHistory sk.getTermHistory
            sk.flushLsn = .error panic := by
  have hspec := TermHistory.findHighestCommonPoint_spec m.termHistory sk.getTermHistory sk.flushLsn
  unfold lastCommonPoint
  cases hfind : TermHistory.findHighestCommonPoint m.termHistory sk.getTermHistory sk.flushLsn with
  | error panic =>
    intro reason hreason
    cases hreason
    exact ⟨panic, rfl, rfl⟩
  | ok point =>
    rw [hfind] at hspec
    cases point with
    | some lcp => exact Or.inl hspec
    | none =>
      cases hhead : m.termHistory.head? with
      | some first => exact Or.inr ⟨hspec, rfl⟩
      | none => nofun

theorem lastCommonPoint_getLast? {m : ProposerElected} {lcp : TermLsn}
    (hlcp : lastCommonPoint m sk = .ok lcp) :
    exists last, m.termHistory.getLast? = some last := by
  have hspec := lastCommonPoint_spec m sk
  rw [hlcp] at hspec
  have hne : m.termHistory ≠ [] := by
    intro hnil
    rcases hspec with ⟨n, hcommon, _⟩ | ⟨_, hhead⟩
    · have hle := hcommon.le_left
      rw [hnil] at hle
      cases hle
    · rw [hnil] at hhead
      cases hhead
  exact ⟨_, List.getLast?_eq_some_getLast hne⟩

theorem handleElected_does (io : SkIo) (m : ProposerElected) (sk : SafeKeeper) :
    Does io (.message (.elected m)) (handleElected io m) (fun reply _ => reply = none) sk := by
  apply Does.get
  refine Does.check (fun _ => ?_) ?_
  · nofun
  intro hgen
  apply Does.get
  apply Does.whenever (fun sk' => sk'.generation = m.generation ∧ m.term ≤ sk'.term)
  · intro hlt
    refine Does.mono (Does.change (.raised hlt (Or.inr ⟨m, rfl, rfl, not_not.mp hgen⟩))) ?_
    rintro _ sk' rfl
    exact ⟨not_not.mp hgen, Nat.le_refl _⟩
  · intro hle
    exact ⟨not_not.mp hgen, Nat.le_of_not_lt hle⟩
  intro sk' hmid
  apply Does.get
  split
  · exact Does.pure rfl
  rename_i hle
  have hterm : sk'.term = m.term := Nat.le_antisymm (Nat.le_of_not_lt hle) hmid.2
  apply Does.get
  have hspec := lastCommonPoint_spec m sk'
  refine Does.bind (Does.lift ?_) ?_
  · intro e he reason hreason
    rw [he] at hspec
    rcases hspec reason hreason with ⟨panic, rfl, hfind⟩
    exact .termHistory hmid.1 hterm hfind
  rintro lcp sk' ⟨hlcp, rfl⟩
  refine Does.check (fun _ => ?_) ?_
  · nofun
  intro hstart
  refine Does.check ?_ ?_
  · intro hlt reason hreason
    cases hreason
    exact .truncateCommitted hmid.1 hterm hlcp (not_not.mp hstart) hlt
  intro hcommit
  rcases lastCommonPoint_getLast? hlcp with ⟨last, hlast⟩
  have haccepts : Accepts sk' m last :=
    ⟨hmid.1, hterm, ⟨lcp, hlcp, not_not.mp hstart⟩, Nat.le_of_not_lt hcommit, hlast⟩
  apply Does.whenever (fun sk'' => sk'' = sk')
  · intro _
    exact initializeFirstSegment_does io _ sk'
  · intro _
    exact rfl
  rintro sk'' rfl
  exact truncateAndAdopt_does haccepts

def SameTerm (sk sk' : SafeKeeper) : Prop :=
  sk'.generation = sk.generation ∧ sk'.term = sk.term

theorem updateCommitLsn_does {candidate : Lsn} (hcandidate : Candidate sk cause candidate) :
    Does io cause (updateCommitLsn io candidate) (fun _ sk' => SameTerm sk sk') sk := by
  apply Does.get
  refine Does.check ?_ ?_
  · intro hlt reason hreason
    cases hreason
    exact .commitLsnMonotonicity hcandidate hlt
  intro hle
  have hset : Does io cause (set (sk.withCommit (sk.commitFor candidate)))
      (fun _ sk' => sk' = sk.withCommit (sk.commitFor candidate)) sk :=
    ⟨Effects.single (.committed hcandidate (Nat.le_of_not_lt hle)), rfl⟩
  apply Does.bind hset
  rintro _ sk' rfl
  split
  · apply Does.mono flushControl_does
    rintro _ sk' rfl
    exact ⟨rfl, rfl⟩
  · exact Does.pure ⟨rfl, rfl⟩

theorem writeWal_does {m : AppendRequest} (hcause : cause.append? = some m)
    (hgen : sk.generation = m.generation) (hterm : sk.term = m.term)
    (hdata : m.walData ≠ [])
    (hok : PhysicalStorage.Ok sk.state.pers.timelineStartLsn sk.walStore) :
    Does io cause (onStore (writeWal io.storage m.beginLsn m.walData))
      (fun _ sk' => SameTerm sk sk') sk := by
  apply Does.mono (Does.onStore (writeWal_spec m.walData hok) ?_ ?_)
  · rintro _ sk' ⟨w, _, rfl⟩
    exact ⟨rfl, rfl⟩
  · intro _ w hw
    exact Effects.single (.appended hcause hgen hterm hdata hw)
  · intro _ w hfail
    rcases hfail with hclosed | happended | ⟨hio, hclean, htorn⟩
    · exact .of_effect (.closed hclosed)
    · exact .of_effect (.appended hcause hgen hterm hdata happended)
    · exact ⟨sk, Relation.ReflTransGen.refl, Or.inr
        ⟨fun hworks => hio hworks.writes, .torn hcause hgen hterm hclean htorn⟩⟩

inductive AppendReply (m : AppendRequest) (sk sk' : SafeKeeper) :
    Option AcceptorProposerMessage -> Prop where
  | refused (hlt : m.term < sk.term) (hsame : sk' = sk) :
      AppendReply m sk sk' (some (.appendResponse (AppendResponse.termOnly sk.generation sk.term)))
  | quiet (hterm : sk.term = m.term) (hgen : sk.generation = m.generation) :
      AppendReply m sk sk' none
  | answered (hterm : sk'.term = m.term) (hgen : sk'.generation = m.generation) :
      AppendReply m sk sk' (some (.appendResponse sk'.appendResponse))

theorem handleAppendRequest_does (io : SkIo) (m : AppendRequest) (requireFlush : Bool)
    (sk : SafeKeeper) (hcause : cause.append? = some m)
    (hok : PhysicalStorage.Ok sk.state.pers.timelineStartLsn sk.walStore) :
    Does io cause (handleAppendRequest io m requireFlush)
      (fun reply sk' => AppendReply m sk sk' reply) sk := by
  apply Does.get
  refine Does.check (fun _ => ?_) ?_
  · nofun
  intro hne
  have hgen : sk.generation = m.generation := not_not.mp hne
  refine Does.check (fun _ => ?_) ?_
  · nofun
  intro hge
  split
  case isTrue hlt =>
    exact Does.pure (.refused hlt rfl)
  case isFalse hle =>
    have hterm : sk.term = m.term :=
      Nat.le_antisymm (Nat.le_of_not_lt hle) (Nat.le_of_not_lt hge)
    refine Does.check (fun _ => ?_) ?_
    · nofun
    intro hrewrites
    refine Does.check (fun _ => ?_) ?_
    · nofun
    intro hgap
    apply Does.whenever (SameTerm sk)
    · intro hdata
      exact writeWal_does hcause hgen hterm hdata hok
    · exact fun _ => ⟨rfl, rfl⟩
    rintro sk1 ⟨hgen1, hterm1⟩
    apply Does.whenever (SameTerm sk)
    · intro _
      apply Does.mono (flushWal_does io cause sk1)
      rintro _ sk' ⟨w, _, rfl⟩
      exact ⟨hgen1, hterm1⟩
    · exact fun _ => ⟨hgen1, hterm1⟩
    rintro sk2 ⟨hgen2, hterm2⟩
    apply Does.whenever (SameTerm sk)
    · intro _
      have hcandidate : Candidate sk2 cause m.commitLsn :=
        .proposer hcause (hgen2.trans hgen) (hterm2.trans hterm)
      apply Does.mono (updateCommitLsn_does hcandidate)
      rintro _ sk' ⟨hgen', hterm'⟩
      exact ⟨hgen'.trans hgen2, hterm'.trans hterm2⟩
    · exact fun _ => ⟨hgen2, hterm2⟩
    rintro sk3 ⟨hgen3, hterm3⟩
    apply Does.bind (Does.modify (.horizon hcause))
    rintro _ sk4 rfl
    apply Does.get
    split
    · exact Does.pure (.quiet hterm hgen)
    · exact Does.pure (.answered (hterm3.trans hterm) (hgen3.trans hgen))

theorem handleFlush_does (io : SkIo) (cause : Cause) (sk : SafeKeeper) :
    Does io cause (handleFlush io)
      (fun reply sk' => reply = some (.appendResponse sk'.appendResponse)) sk := by
  apply Does.bind (flushWal_does io cause sk)
  intro _ sk' _
  apply Does.get
  exact Does.pure rfl

def Replies (sk sk' : SafeKeeper) (reply : Option AcceptorProposerMessage) :
    ProposerAcceptorMessage -> Prop
  | .greeting _ => reply = some (.greeting
      { nodeId := sk'.nodeId, mconf := sk'.state.pers.mconf, term := sk'.term })
  | .voteRequest m => exists resp, reply = some (.voteResponse resp) ∧ VoteReply m sk resp sk'
  | .elected _ => reply = none
  | .appendRequest m => AppendReply m sk sk' reply
  | .noFlushAppendRequest m => AppendReply m sk sk' reply
  | .flushWAL => reply = some (.appendResponse sk'.appendResponse)

theorem processMsg_does (io : SkIo) (msg : ProposerAcceptorMessage) (sk : SafeKeeper)
    (hok : PhysicalStorage.Ok sk.state.pers.timelineStartLsn sk.walStore) :
    Does io (.message msg) (processMsg io msg) (fun reply sk' => Replies sk sk' reply msg) sk := by
  cases msg with
  | greeting m => exact handleGreeting_does io m sk
  | voteRequest m => exact handleVoteRequest_does io m sk
  | elected m => exact handleElected_does io m sk
  | appendRequest m => exact handleAppendRequest_does io m true sk rfl hok
  | noFlushAppendRequest m => exact handleAppendRequest_does io m false sk rfl hok
  | flushWAL => exact handleFlush_does io _ sk

theorem recordSafekeeperInfo_does (io : SkIo) (info : SafekeeperTimelineInfo) (sk : SafeKeeper) :
    Does io (.peer info) (recordSafekeeperInfo io info) (fun _ _ => True) sk := by
  unfold recordSafekeeperInfo
  split
  · apply Does.get
    split
    case isTrue hterm =>
      apply Does.mono (updateCommitLsn_does (.peer hterm))
      exact fun _ _ _ => trivial
    case isFalse =>
      exact Does.pure trivial
  · exact Does.pure trivial

end SafeKeeper

end Safekeeper
end OpenNeon

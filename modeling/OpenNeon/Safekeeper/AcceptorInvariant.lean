import OpenNeon.Base.System
import OpenNeon.Safekeeper.Effects

/-!
# The positions of an acceptor

Over all runs of a safekeeper the commit position in memory stays between the
persistent one and the end of the WAL, and the assertion of the commit position's
monotonicity never fails.
-/

namespace OpenNeon
namespace Safekeeper

open Base
open Prog (exec wp_exec)

namespace SafeKeeper

open TimelineState

/-!
## Runs
-/

inductive Event where
  | processMsg (io : SkIo) (msg : ProposerAcceptorMessage)
  | recordSafekeeperInfo (io : SkIo) (info : SafekeeperTimelineInfo)
  /-- The control file is flushed. -/
  | flush (persisted : Bool)
  /-- The safekeeper stops and starts, and finds the end of its WAL. -/
  | restart (endOfWal : Lsn)
  /-- The safekeeper stops in the middle of a message. -/
  | crash (io : SkIo) (msg : ProposerAcceptorMessage) (endOfWal : Lsn)

/-- No effect is interrupted, except by a crash. -/
def Event.Works : Event -> Prop
  | .processMsg io _ => io.Works
  | .recordSafekeeperInfo io _ => io.Works
  | _ => True

def Event.Restarts : Event -> Prop
  | .restart _ => True
  | .crash _ _ _ => True
  | _ => False

def restart (sk : SafeKeeper) (endOfWal : Lsn) : Option SafeKeeper :=
  (load sk.state.pers sk.walStore.disk sk.walStore.diskEnd endOfWal sk.nodeId).toOption

/-- The state after an event; none if the safekeeper does not start. -/
def next : Event -> SafeKeeper -> Option SafeKeeper
  | .processMsg io msg, sk => some (exec (processMsg io msg) sk).2
  | .recordSafekeeperInfo io info, sk => some (exec (recordSafekeeperInfo io info) sk).2
  | .flush persisted, sk => some (exec (onState (flush persisted)) sk).2
  | .restart endOfWal, sk => sk.restart endOfWal
  | .crash io msg endOfWal, sk => (exec (processMsg io msg) sk).2.restart endOfWal

def errorOf {beta : Type} : Except SkError beta -> Option SkError
  | .error e => some e
  | .ok _ => none

def error? : Event -> SafeKeeper -> Option SkError
  | .processMsg io msg, sk => errorOf (exec (processMsg io msg) sk).1
  | .recordSafekeeperInfo io info, sk => errorOf (exec (recordSafekeeperInfo io info) sk).1
  | .flush persisted, sk => errorOf (exec (onState (flush persisted)) sk).1
  | _, _ => none

def run (sk : SafeKeeper) (events : List Event) : Option SafeKeeper :=
  events.foldlM (fun sk e => next e sk) sk

/-!
## The invariant
-/

/-- What the control file alone tells. -/
structure PersOk (s : TimelinePersistentState) : Prop where
  seg_pos : 0 < s.server.walSegSize
  start_le : s.timelineStartLsn ≤ s.commitLsn
  first_zero : s.timelineStartLsn = 0 ->
    forall e, s.acceptorState.termHistory.head? = some e -> e.lsn = 0

structure LsnOk (sk : SafeKeeper) : Prop where
  pers : PersOk sk.state.pers
  store : PhysicalStorage.Ok sk.state.pers.timelineStartLsn sk.walStore
  pers_le : sk.state.pers.commitLsn ≤ sk.state.inmem.commitLsn
  commit_le : sk.state.inmem.commitLsn ≤ sk.flushLsn
  empty : sk.walStore.writeRecordLsn = 0 -> sk.state.pers.timelineStartLsn = 0

structure Advances (sk sk' : SafeKeeper) : Prop where
  pers : sk.state.pers.commitLsn ≤ sk'.state.pers.commitLsn
  inmem : sk.state.inmem.commitLsn ≤ sk'.state.inmem.commitLsn
  term : sk.term ≤ sk'.term

variable {io : SkIo} {cause : Cause} {sk sk' mid : SafeKeeper}

theorem Advances.refl (sk : SafeKeeper) : Advances sk sk :=
  ⟨Nat.le_refl _, Nat.le_refl _, Nat.le_refl _⟩

theorem Advances.trans (hfirst : Advances sk mid) (hrest : Advances mid sk') : Advances sk sk' :=
  ⟨Nat.le_trans hfirst.pers hrest.pers, Nat.le_trans hfirst.inmem hrest.inmem,
    Nat.le_trans hfirst.term hrest.term⟩

/-!
## Effects keep the invariant
-/

variable {w : PhysicalStorage}

theorem LsnOk.withStore (hok : LsnOk sk)
    (hstore : PhysicalStorage.Ok sk.state.pers.timelineStartLsn w)
    (hflush : sk.walStore.flushRecordLsn ≤ max sk.state.pers.timelineStartLsn w.flushRecordLsn)
    (hempty : w.writeRecordLsn = 0 -> sk.walStore.writeRecordLsn = 0) :
    LsnOk (sk.withStore w) ∧ Advances sk (sk.withStore w) := by
  refine ⟨⟨hok.pers, hstore, hok.pers_le, ?_, fun hzero => hok.empty (hempty hzero)⟩,
    Nat.le_refl _, Nat.le_refl _, Nat.le_refl _⟩
  have hcommit := hok.commit_le
  unfold flushLsn PhysicalStorage.flushLsn at *
  show sk.state.inmem.commitLsn ≤ max w.flushRecordLsn sk.state.pers.timelineStartLsn
  lia

theorem LsnOk.withPers {s : TimelinePersistentState} (hok : LsnOk sk)
    (hseg : s.server.walSegSize = sk.state.pers.server.walSegSize)
    (hstart : s.timelineStartLsn = sk.state.pers.timelineStartLsn)
    (hcommit : s.commitLsn = sk.state.inmem.commitLsn)
    (hhistory : s.acceptorState.termHistory = sk.termHistory)
    (hterm : sk.term ≤ s.acceptorState.term) :
    LsnOk (sk.withPers s) ∧ Advances sk (sk.withPers s) := by
  have hpers := hok.pers
  have hle := hok.pers_le
  have hflush := hok.commit_le
  refine ⟨⟨⟨?_, ?_, ?_⟩, ?_, Nat.le_refl _, ?_, ?_⟩, ?_, ?_, hterm⟩
  · show 0 < s.server.walSegSize
    rw [hseg]
    exact hpers.seg_pos
  · show s.timelineStartLsn ≤ s.commitLsn
    have := hpers.start_le
    lia
  · show s.timelineStartLsn = 0 -> forall e, s.acceptorState.termHistory.head? = some e ->
      e.lsn = 0
    rw [hstart, hhistory]
    exact hpers.first_zero
  · show PhysicalStorage.Ok s.timelineStartLsn sk.walStore
    rw [hstart]
    exact hok.store
  · show s.commitLsn ≤ max sk.walStore.flushLsn s.timelineStartLsn
    rw [hstart, hcommit]
    exact hflush
  · show sk.walStore.writeRecordLsn = 0 -> s.timelineStartLsn = 0
    rw [hstart]
    exact hok.empty
  · show sk.state.pers.commitLsn ≤ s.commitLsn
    lia
  · show sk.state.inmem.commitLsn ≤ s.commitLsn
    lia

section

variable {m : ProposerElected}

theorem adoptHistory_timelineStartLsn {s : TimelinePersistentState}
    {first : TermLsn} (hfirst : m.termHistory.head? = some first) :
    (adoptHistory m s).timelineStartLsn =
      if s.timelineStartLsn = 0 then first.lsn else s.timelineStartLsn := by
  simp only [adoptHistory, hfirst]

theorem head?_getTermHistory {e : TermLsn} (hhead : sk.getTermHistory.head? = some e) :
    sk.termHistory.head? = some e ∧ e.lsn ≤ sk.flushLsn := by
  unfold getTermHistory TermHistory.upTo at hhead
  unfold termHistory
  cases hth : sk.state.pers.acceptorState.termHistory with
  | nil =>
    rw [hth] at hhead
    cases hhead
  | cons a rest =>
    rw [hth, List.takeWhile_cons] at hhead
    split at hhead
    next hle =>
      cases hhead
      exact ⟨rfl, of_decide_eq_true hle⟩
    · cases hhead

/-- The accepted history starts where the own one does, or where streaming starts. -/
theorem Accepts.first {last : TermLsn} (haccepts : Accepts sk m last) :
    exists first, m.termHistory.head? = some first ∧
      (first.lsn = m.startStreamingAt ∨
        sk.termHistory.head? = some first ∧ m.startStreamingAt ≤ sk.flushLsn) := by
  rcases haccepts.lcp with ⟨lcp, hlcp, hstart⟩
  have hspec := lastCommonPoint_spec m sk
  rw [hlcp] at hspec
  rcases hspec with ⟨n, hcommon, hend⟩ | ⟨_, hfirst⟩
  · have hhead : m.termHistory.head? = sk.getTermHistory.head? := by
      have htake := congrArg List.head? hcommon.take_eq
      rw [List.head?_take, List.head?_take] at htake
      simpa using htake
    cases hm : m.termHistory.head? with
    | none =>
      have hle := hcommon.le_left
      rw [List.head?_eq_none_iff.mp hm] at hle
      cases hle
    | some first =>
      rw [hm] at hhead
      refine ⟨first, rfl, Or.inr ⟨(head?_getTermHistory hhead.symm).1, ?_⟩⟩
      rw [← hstart, hend]
      exact TermHistory.commonTermEnd_le (fun _ he => TermHistory.lsn_le_of_mem_upTo he)
  · exact ⟨lcp, hfirst, Or.inl hstart⟩

theorem truncated_flushRecordLsn {s : PhysicalStorage} {endPos : Lsn}
    (hw : PhysicalStorage.Truncated s endPos w) : w.flushRecordLsn = endPos := by
  rcases hw with ⟨_, ⟨rfl, _, _, hflush⟩ | rfl⟩
  · exact hflush.symm
  · rfl

theorem LsnOk.elected_empty {first : TermLsn} (hok : LsnOk sk)
    (hzero : sk.walStore.writeRecordLsn = 0)
    (hpoint : first.lsn = m.startStreamingAt ∨
      sk.termHistory.head? = some first ∧ m.startStreamingAt ≤ sk.flushLsn) :
    sk.state.pers.timelineStartLsn = 0 ∧ m.startStreamingAt ≤ first.lsn := by
  have htls := hok.empty hzero
  have hflush := hok.store.flush_le
  refine ⟨htls, ?_⟩
  rcases hpoint with heq | ⟨_, hle⟩
  · exact Nat.le_of_eq heq.symm
  · unfold flushLsn PhysicalStorage.flushLsn at hle
    lia

theorem LsnOk.elected {last : TermLsn} (hok : LsnOk sk) (haccepts : Accepts sk m last)
    (hw : PhysicalStorage.Truncated sk.walStore m.startStreamingAt w) :
    LsnOk { (sk.withStore w).withPers (adoptHistory m sk.state.startChange) with
        termStartLsn := last.lsn } ∧
      Advances sk { (sk.withStore w).withPers (adoptHistory m sk.state.startChange) with
        termStartLsn := last.lsn } := by
  rcases haccepts.first with ⟨first, hfirst, hpoint⟩
  have htls : (adoptHistory m sk.state.startChange).timelineStartLsn =
      if sk.state.pers.timelineStartLsn = 0 then first.lsn
      else sk.state.pers.timelineStartLsn :=
    adoptHistory_timelineStartLsn hfirst
  have hcommit : (adoptHistory m sk.state.startChange).commitLsn =
      max sk.state.inmem.commitLsn (adoptHistory m sk.state.startChange).timelineStartLsn := rfl
  have hhistory : (adoptHistory m sk.state.startChange).acceptorState.termHistory =
      m.termHistory := rfl
  have hflush := truncated_flushRecordLsn hw
  have hle := haccepts.commit_le
  have hpers := hok.pers_le
  have hstart := hok.pers.start_le
  generalize hs : adoptHistory m sk.state.startChange = s at *
  refine ⟨⟨⟨?_, ?_, ?_⟩, ?_, Nat.le_refl _, ?_, ?_⟩, ?_, ?_, ?_⟩
  · rw [← hs]
    exact hok.pers.seg_pos
  · show s.timelineStartLsn ≤ s.commitLsn
    lia
  · show s.timelineStartLsn = 0 -> forall e, s.acceptorState.termHistory.head? = some e ->
      e.lsn = 0
    intro hzero e he
    rw [htls] at hzero
    split at hzero <;> lia
  · show PhysicalStorage.Ok s.timelineStartLsn w
    have hmono : sk.state.pers.timelineStartLsn ≤ s.timelineStartLsn := by
      rw [htls]
      split <;> lia
    refine hw.ok (hok.store.mono hmono) ?_
    intro hzero
    rcases hok.elected_empty hzero hpoint with ⟨htls0, hfirst_ge⟩
    rw [htls, if_pos htls0]
    exact hfirst_ge
  · show s.commitLsn ≤ max w.flushLsn s.timelineStartLsn
    unfold PhysicalStorage.flushLsn
    lia
  · show w.writeRecordLsn = 0 -> s.timelineStartLsn = 0
    intro hzero
    have hstream : m.startStreamingAt = 0 := by
      rcases hw with ⟨_, ⟨rfl, _, _, _⟩ | rfl⟩
      · have := hok.empty hzero
        have := hok.store.flush_le
        lia
      · exact hzero
    have htls0 : sk.state.pers.timelineStartLsn = 0 := by lia
    rw [htls, if_pos htls0]
    rcases hpoint with heq | ⟨hhead, _⟩
    · lia
    · exact hok.pers.first_zero htls0 first hhead
  · show sk.state.pers.commitLsn ≤ s.commitLsn
    lia
  · show sk.state.inmem.commitLsn ≤ s.commitLsn
    lia
  · rw [← hs]
    exact Nat.le_refl _

end

theorem effect_lsnOk (heffect : Effect cause sk sk') (hok : LsnOk sk) :
    LsnOk sk' ∧ Advances sk sk' := by
  cases heffect with
  | closed hw =>
    have hstore := hw.ok hok.store
    rcases hw with ⟨file, rfl⟩
    exact hok.withStore hstore (Nat.le_max_right _ _) (fun hzero => hzero)
  | flushed hw =>
    have hstore := hw.ok hok.store
    rcases hw with ⟨flushed, rfl⟩
    exact hok.withStore hstore hok.store.flush_le (fun hzero => hzero)
  | appended _ _ _ _ hw => exact hok.withStore hw.ok hw.flush_mono hw.record_zero
  | server hs =>
    rcases hs with ⟨hseg, server, rfl⟩
    exact hok.withPers hseg rfl rfl rfl (Nat.le_refl _)
  | switched _ _ _ => exact hok.withPers rfl rfl rfl rfl (Nat.le_refl _)
  | raised hlt _ => exact hok.withPers rfl rfl rfl rfl (Nat.le_of_lt hlt)
  | elected _ haccepts hw => exact hok.elected haccepts hw
  | committed _ hle =>
    exact ⟨⟨hok.pers, hok.store, Nat.le_trans hok.pers_le hle, Nat.min_le_right _ _,
      hok.empty⟩, Nat.le_refl _, hle, Nat.le_refl _⟩
  | persisted => exact hok.withPers rfl rfl rfl rfl (Nat.le_refl _)
  | horizon _ => exact ⟨{ hok with }, Nat.le_refl _, Nat.le_refl _, Nat.le_refl _⟩

theorem effects_lsnOk (heffects : Effects cause sk sk') (hok : LsnOk sk) :
    LsnOk sk' ∧ Advances sk sk' := by
  induction heffects with
  | refl => exact ⟨hok, Advances.refl sk⟩
  | tail _ heffect ih =>
    have hlast := effect_lsnOk heffect ih.1
    exact ⟨hlast.1, ih.2.trans hlast.2⟩

/-!
## Calls and restarts keep the invariant
-/

/-- The error of the assertion on the commit position. -/
def MonotonicityViolated (e : SkError) : Prop :=
  exists old new, e = .panic (.commitLsnMonotonicity old new)

theorem LsnOk.not_violated {e : SkError} (hok : LsnOk sk) (hraises : Raises cause e sk) :
    ¬ MonotonicityViolated e := by
  rintro ⟨old, new, rfl⟩
  have hpanics := hraises _ rfl
  cases hpanics with
  | commitLsnMonotonicity _ hlt =>
    have hle := hok.commit_le
    unfold commitFor at hlt
    lia

variable {alpha : Type} {m : Op alpha} {post : alpha -> SafeKeeper -> Prop}

theorem Does.lsnOk (hdoes : Does io cause m post sk) (hworks : io.Works) (hok : LsnOk sk) :
    LsnOk (exec m sk).2 ∧ Advances sk (exec m sk).2 ∧
      forall e, (exec m sk).1 = .error e -> ¬ MonotonicityViolated e := by
  have hexec := wp_exec hdoes
  rcases hrun : exec m sk with ⟨e | a, sk'⟩
  · rcases hexec.2 e sk' hrun with ⟨⟨mid, heffects, hmid⟩, hraises⟩
    rcases hmid with rfl | ⟨hfail, _⟩
    · have hkeeps := effects_lsnOk heffects hok
      refine ⟨hkeeps.1, hkeeps.2, ?_⟩
      intro e' he
      cases he
      exact hkeeps.1.not_violated hraises
    · exact absurd hworks hfail
  · have hkeeps := effects_lsnOk (hexec.1 a sk' hrun).1 hok
    exact ⟨hkeeps.1, hkeeps.2, nofun⟩

theorem Partial.state_eq (hpart : Partial cause sk sk') : sk'.state = sk.state := by
  cases hpart <;> rfl

theorem Does.persOk (hdoes : Does io cause m post sk) (hok : LsnOk sk) :
    PersOk (exec m sk).2.state.pers ∧
      sk.state.pers.commitLsn ≤ (exec m sk).2.state.pers.commitLsn ∧
      sk.term ≤ (exec m sk).2.term := by
  have hexec := wp_exec hdoes
  rcases hrun : exec m sk with ⟨e | a, sk'⟩
  · rcases hexec.2 e sk' hrun with ⟨⟨mid, heffects, hmid⟩, _⟩
    have hkeeps := effects_lsnOk heffects hok
    have hstate : sk'.state = mid.state := by
      rcases hmid with rfl | ⟨_, hpart⟩
      · rfl
      · exact hpart.state_eq
    unfold term
    simp only [hstate]
    exact ⟨hkeeps.1.pers, hkeeps.2.pers, hkeeps.2.term⟩
  · have hkeeps := effects_lsnOk (hexec.1 a sk' hrun).1 hok
    exact ⟨hkeeps.1.pers, hkeeps.2.pers, hkeeps.2.term⟩

theorem load_lsnOk {pers : TimelinePersistentState} {disk : Lsn -> UInt8}
    {diskEnd endOfWal : Lsn} {nodeId : NodeId} (hpers : PersOk pers)
    (hload : load pers disk diskEnd endOfWal nodeId = .ok sk) :
    LsnOk sk ∧ sk.state = TimelineState.new pers := by
  unfold load at hload
  cases hstore : PhysicalStorage.new pers.commitLsn pers.server.walSegSize disk diskEnd
    endOfWal with
  | error reason =>
    rw [hstore] at hload
    cases hload
  | ok w =>
    rw [hstore] at hload
    change new (TimelineState.new pers) w nodeId = .ok sk at hload
    unfold new at hload
    split at hload
    · cases hload
    cases hload
    rcases PhysicalStorage.new_ok hpers.seg_pos hstore with ⟨hok, hle, heq⟩
    have hstart := hpers.start_le
    refine ⟨⟨hpers, hok.mono (Nat.zero_le _), Nat.le_refl _, ?_, ?_⟩, rfl⟩
    · show pers.commitLsn ≤ max w.flushRecordLsn pers.timelineStartLsn
      lia
    · show w.writeRecordLsn = 0 -> pers.timelineStartLsn = 0
      lia

theorem restart_lsnOk {endOfWal : Lsn} (hpers : PersOk sk.state.pers)
    (hrestart : sk.restart endOfWal = some sk') :
    LsnOk sk' ∧ sk'.state = TimelineState.new sk.state.pers := by
  unfold restart at hrestart
  cases hload : load sk.state.pers sk.walStore.disk sk.walStore.diskEnd endOfWal sk.nodeId with
  | error reason =>
    rw [hload] at hrestart
    cases hrestart
  | ok loaded =>
    rw [hload] at hrestart
    cases hrestart
    exact load_lsnOk hpers hload

theorem new_persOk {ttid : TenantTimelineId} {mconf : Configuration} {server : ServerInfo}
    {startLsn commitLsn : Lsn} {pers : TimelinePersistentState}
    (hnew : TimelinePersistentState.new ttid mconf server startLsn commitLsn = .ok pers) :
    PersOk pers := by
  unfold TimelinePersistentState.new at hnew
  split at hnew
  · cases hnew
  split at hnew
  · cases hnew
  split at hnew
  · cases hnew
  rename_i hseg _ hle
  cases hnew
  refine ⟨Nat.pos_of_ne_zero hseg, Nat.le_of_not_lt hle, ?_⟩
  intro hzero e he
  split at he
  · cases he
    exact hzero
  · cases he

theorem flush_lsnOk (persisted : Bool) (hok : LsnOk sk) :
    LsnOk (exec (onState (flush persisted)) sk).2 ∧
      Advances sk (exec (onState (flush persisted)) sk).2 ∧
      forall e, (exec (onState (flush persisted)) sk).1 = .error e ->
        ¬ MonotonicityViolated e := by
  have hexec := wp_exec (flush_spec persisted sk)
  rcases hrun : exec (onState (flush persisted)) sk with ⟨e | a, sk'⟩
  · rcases hexec.2 e sk' hrun with ⟨rfl, rfl, _⟩
    refine ⟨hok, Advances.refl _, ?_⟩
    rintro e he ⟨old, new, rfl⟩
    cases he
  · cases hexec.1 a sk' hrun
    have hkeeps := hok.withPers (s := sk.state.startChange) rfl rfl rfl rfl (Nat.le_refl _)
    exact ⟨hkeeps.1, hkeeps.2, nofun⟩

/-- What an event keeps: nothing goes back, but for the memory in a restart. -/
structure Keeps (e : Event) (sk : SafeKeeper) : Prop where
  not_violated : forall err, error? e sk = some err -> ¬ MonotonicityViolated err
  next : forall sk', SafeKeeper.next e sk = some sk' ->
    sk.state.pers.commitLsn ≤ sk'.state.pers.commitLsn ∧ sk.term ≤ sk'.term ∧
      (¬ e.Restarts -> sk.state.inmem.commitLsn ≤ sk'.state.inmem.commitLsn) ∧
      (e.Restarts -> sk'.state.inmem.commitLsn = sk'.state.pers.commitLsn)

theorem eq_error_of_errorOf {beta : Type} {r : Except SkError beta} {err : SkError}
    (herr : errorOf r = some err) : r = .error err := by
  cases r with
  | error e =>
    cases herr
    rfl
  | ok a => cases herr

theorem event_lsnOk (e : Event) (hworks : e.Works) (hok : LsnOk sk) :
    Keeps e sk ∧ forall sk', next e sk = some sk' -> LsnOk sk' := by
  have hcall : forall {sk' : SafeKeeper}, ¬ e.Restarts -> next e sk = some sk' ->
      LsnOk sk' ∧ Advances sk sk' ∧
        (forall err, error? e sk = some err -> ¬ MonotonicityViolated err) ->
      Keeps e sk ∧ forall sk', next e sk = some sk' -> LsnOk sk' := by
    rintro _ hno hnext ⟨hok', hadv, herror⟩
    refine ⟨⟨herror, ?_⟩, ?_⟩
    · rintro sk' hnext'
      cases hnext.symm.trans hnext'
      exact ⟨hadv.pers, hadv.term, fun _ => hadv.inmem, fun hyes => absurd hyes hno⟩
    · rintro sk' hnext'
      cases hnext.symm.trans hnext'
      exact hok'
  cases e with
  | processMsg io msg =>
    have hkeeps := (processMsg_does io msg sk hok.store).lsnOk hworks hok
    exact hcall id rfl (hkeeps.imp_right (And.imp_right
      (fun h err herr => h err (eq_error_of_errorOf herr))))
  | recordSafekeeperInfo io info =>
    have hkeeps := (recordSafekeeperInfo_does io info sk).lsnOk hworks hok
    exact hcall id rfl (hkeeps.imp_right (And.imp_right
      (fun h err herr => h err (eq_error_of_errorOf herr))))
  | flush persisted =>
    exact hcall id rfl ((flush_lsnOk persisted hok).imp_right (And.imp_right
      (fun h err herr => h err (eq_error_of_errorOf herr))))
  | restart endOfWal =>
    refine ⟨⟨nofun, ?_⟩, ?_⟩
    · intro sk' hnext
      have hstate := (restart_lsnOk hok.pers hnext).2
      unfold term
      rw [hstate]
      exact ⟨Nat.le_refl _, Nat.le_refl _, fun hno => absurd trivial hno, fun _ => rfl⟩
    · intro sk' hnext
      exact (restart_lsnOk hok.pers hnext).1
  | crash io msg endOfWal =>
    have hpers := (processMsg_does io msg sk hok.store).persOk hok
    refine ⟨⟨nofun, ?_⟩, ?_⟩
    · intro sk' hnext
      have hstate := (restart_lsnOk hpers.1 hnext).2
      unfold term
      rw [hstate]
      exact ⟨hpers.2.1, hpers.2.2, fun hno => absurd trivial hno, fun _ => rfl⟩
    · intro sk' hnext
      exact (restart_lsnOk hpers.1 hnext).1

theorem run_lsnOk {events : List Event} (hworks : forall e, e ∈ events -> e.Works)
    (hok : LsnOk sk) (hrun : run sk events = some sk') : LsnOk sk' :=
  (Reached.of_foldlM (fun _ => hworks) hrun).invariant hok
    (fun _ e sk' hok hworks => (event_lsnOk e hworks hok).2 sk')

/--
In every state that a new timeline's safekeeper reaches, the commit position lies
between the persistent one and the end of the WAL, and every event keeps the
commit positions and the term; a restart takes the commit position back to the
persistent one.
-/
theorem run_commitLsn_bounded {ttid : TenantTimelineId} {mconf : Configuration}
    {server : ServerInfo} {startLsn commitLsn : Lsn} {pers : TimelinePersistentState}
    {disk : Lsn -> UInt8} {diskEnd endOfWal : Lsn} {nodeId : NodeId} {start : SafeKeeper}
    {events : List Event} {sk : SafeKeeper}
    (hnew : TimelinePersistentState.new ttid mconf server startLsn commitLsn = .ok pers)
    (hload : load pers disk diskEnd endOfWal nodeId = .ok start)
    (hworks : forall e, e ∈ events -> e.Works) (hrun : run start events = some sk) :
    sk.state.inmem.commitLsn ≤ sk.flushLsn ∧
      sk.state.pers.commitLsn ≤ sk.state.inmem.commitLsn ∧
      forall e : Event, e.Works -> Keeps e sk := by
  have hstart := (load_lsnOk (new_persOk hnew) hload).1
  have hok := run_lsnOk hworks hstart hrun
  exact ⟨hok.commit_le, hok.pers_le, fun e he => (event_lsnOk e he hok).1⟩

/-!
## Runs that show where the conditions are needed
-/

def sampleIo (recordLens : List Nat) : SkIo :=
  { storage :=
      { fdatasync := true
        writeInSegment := fun _ => true
        initializeFirstSegment := true
        truncateSync := true
        truncateFiles := true
        recordLens := recordLens
        decodeError := false
        availableAfterError := 0 }
    persist := fun _ => true }

/-- The second piece of a write fails. -/
def tornIo : SkIo :=
  { sampleIo [] with
    storage := { (sampleIo []).storage with writeInSegment := fun piece => piece < 1 } }

def samplePers (walSegSize : Nat) : TimelinePersistentState :=
  { tenantId := 1
    timelineId := 1
    mconf := Configuration.empty
    acceptorState := ⟨INITIAL_TERM, [⟨INITIAL_TERM, 16777256⟩]⟩
    server := ⟨160000, 0, walSegSize⟩
    timelineStartLsn := 16777256
    localStartLsn := 16777256
    commitLsn := 16777256
    backupLsn := 16777256
    peerHorizonLsn := 16777256
    remoteConsistentLsn := 0 }

def sampleStart (walSegSize : Nat) : SafeKeeper :=
  { termStartLsn := 0
    state := TimelineState.new (samplePers walSegSize)
    walStore :=
      { walSegSize := walSegSize
        writeLsn := 16777256
        writeRecordLsn := 16777256
        flushedLsn := 16777256
        flushRecordLsn := 16777256
        decoder := WalStreamDecoder.new 16777256
        file := false
        pendingWalTruncation := true
        disk := fun _ => 0
        diskEnd := 16777256 }
    nodeId := 1 }

def sampleElected : ProposerAcceptorMessage :=
  .elected
    { generation := 0
      term := 1
      startStreamingAt := 16777256
      termHistory := [⟨0, 16777256⟩, ⟨1, 16777256⟩] }

def sampleAppend (beginLsn : Lsn) (walData : List UInt8) (commitLsn : Lsn) :
    ProposerAcceptorMessage :=
  .appendRequest
    { generation := 0
      term := 1
      beginLsn := beginLsn
      endLsn := beginLsn + walData.length
      commitLsn := commitLsn
      truncateLsn := 0
      walData := walData }

/-- A record without data, of the log's own resource manager. -/
def sampleRecord (info : UInt8) (crc : List UInt8) : List UInt8 :=
  24 :: List.replicate 15 0 ++ [info, 0, 0, 0] ++ crc

def noopRecord : List UInt8 :=
  sampleRecord 0x20 [0x6f, 0x69, 0x18, 0xae]

def switchRecord : List UInt8 :=
  sampleRecord 0x40 [0x03, 0x22, 0x9b, 0xd2]

def sampleEvents : List Event :=
  [.processMsg (sampleIo []) sampleElected,
    .processMsg (sampleIo [23]) (sampleAppend 16777256 noopRecord 16777280)]

theorem sampleIo_works (recordLens : List Nat) : (sampleIo recordLens).Works :=
  ⟨fun _ => rfl, rfl, rfl, rfl⟩

/--
The commit position of the memory is lost by a restart.  And without the condition
on file operations the assertion fails: after the record of a segment switch, whose
end is the end of the segment of 16 MiB, a write of the zeros that follow it is
interrupted at a smaller segment's end, and the decoder starts anew below the
committed end.
-/
theorem run_commitLsn_decreases :
    (((run (sampleStart 16777216) sampleEvents).map
        (fun sk => sk.state.inmem.commitLsn)) = some 16777280 ∧
      ((run (sampleStart 16777216) (sampleEvents ++ [.restart 16777280])).map
        (fun sk => sk.state.inmem.commitLsn)) = some 16777256) ∧
    ((run (sampleStart 128) [.processMsg (sampleIo []) sampleElected,
          .processMsg (sampleIo [16777175]) (sampleAppend 16777256 switchRecord 33554432),
          .processMsg tornIo (sampleAppend 16777280 (List.replicate 128 0) 0)]).bind
        (error? (.processMsg (sampleIo [23]) (sampleAppend 16777344 noopRecord 33554432)))) =
      some (.panic (.commitLsnMonotonicity 33554432 16777368)) := by
  decide +kernel

theorem run_commitLsn_bounded_sample :
    exists sk, run (sampleStart 16777216) sampleEvents = some sk ∧
      sk.state.inmem.commitLsn ≤ sk.flushLsn ∧
      sk.state.pers.commitLsn ≤ sk.state.inmem.commitLsn ∧
      forall e : Event, e.Works -> Keeps e sk := by
  have hworks : forall e, e ∈ sampleEvents -> e.Works := by
    intro e he
    rcases List.mem_cons.mp he with rfl | he
    · exact sampleIo_works _
    · cases List.mem_singleton.mp he
      exact sampleIo_works _
  have hnew : TimelinePersistentState.new ⟨1, 1⟩ Configuration.empty ⟨160000, 0, 16777216⟩
      16777256 16777256 = .ok (samplePers 16777216) := by
    decide
  have hload : load (samplePers 16777216) (fun _ => 0) 16777256 16777256 1 =
      .ok (sampleStart 16777216) := rfl
  have hsome : (run (sampleStart 16777216) sampleEvents).isSome = true := by
    decide +kernel
  rcases Option.isSome_iff_exists.mp hsome with ⟨sk, hrun⟩
  exact ⟨sk, hrun, run_commitLsn_bounded hnew hload hworks hrun⟩

/-!
## Votes
-/

theorem run_term_le {events : List Event} (hworks : forall e, e ∈ events -> e.Works)
    (hok : LsnOk sk) (hrun : run sk events = some sk') : sk.term ≤ sk'.term := by
  have hinv : LsnOk sk' ∧ sk.term ≤ sk'.term := by
    apply (Reached.of_foldlM (fun _ => hworks) hrun).invariant ⟨hok, Nat.le_refl _⟩
    intro mid e next hmid hwork hnext
    have hevent := event_lsnOk e hwork hmid.1
    exact ⟨hevent.2 next hnext, hmid.2.trans (hevent.1.next next hnext).2.1⟩
  exact hinv.2

def GivesVote (io : SkIo) (m : VoteRequest) (sk : SafeKeeper) : Prop :=
  exists resp, (exec (processMsg io (.voteRequest m)) sk).1 = .ok (some (.voteResponse resp)) ∧
    resp.voteGiven = true

theorem GivesVote.term {m : VoteRequest} (h : GivesVote io m sk) :
    sk.term < m.term ∧ (exec (processMsg io (.voteRequest m)) sk).2.term = m.term := by
  rcases h with ⟨resp, hreply, hgiven⟩
  have hdoes := (wp_exec (handleVoteRequest_does io m sk)).1 _ _ (Prod.ext hreply rfl)
  rcases hdoes.2 with ⟨_, heq, hvote⟩
  cases heq
  exact hvote.given hgiven

theorem append_of_lower_term {m : AppendRequest} {requireFlush : Bool}
    (h : m.term < sk.state.pers.acceptorState.term) :
    (exec (handleAppendRequest io m requireFlush) sk).2 = sk := by
  apply Prog.exec_snd (p := (· = sk))
  simp [handleAppendRequest, Prog.wp_ite, h]

theorem elected_of_lower_term {m : ProposerElected}
    (h : m.term < sk.state.pers.acceptorState.term) : (exec (handleElected io m) sk).2 = sk := by
  apply Prog.exec_snd (p := (· = sk))
  simp [handleElected, Prog.wp_ite, h, Nat.lt_asymm h]

/-- A safekeeper that has voted keeps its promise, also through crashes: it votes in later
terms only, and proposers of earlier terms leave it as it is. -/
theorem vote_is_promise {m : VoteRequest} {events : List Event} (hok : LsnOk sk)
    (hio : io.Works) (hworks : forall e, e ∈ events -> e.Works) (hvote : GivesVote io m sk)
    (hrun : run (exec (processMsg io (.voteRequest m)) sk).2 events = some sk') (io' : SkIo) :
    (forall m', GivesVote io' m' sk' -> m.term < m'.term) ∧
      (forall m', m'.term < m.term -> (exec (processMsg io' (.elected m')) sk').2 = sk') ∧
      forall m', m'.term < m.term -> (exec (processMsg io' (.appendRequest m')) sk').2 = sk' ∧
        (exec (processMsg io' (.noFlushAppendRequest m')) sk').2 = sk' := by
  have hvoted := (processMsg_does io (.voteRequest m) sk hok.store).lsnOk hio hok
  have hle := run_term_le hworks hvoted.1 hrun
  rw [hvote.term.2] at hle
  exact ⟨fun m' hagain => hle.trans_lt hagain.term.1,
    fun m' hlt => elected_of_lower_term (hlt.trans_le hle),
    fun m' hlt => ⟨append_of_lower_term (hlt.trans_le hle),
      append_of_lower_term (hlt.trans_le hle)⟩⟩

theorem vote_is_promise_restart :
    exists sk, run (exec (processMsg (sampleIo []) (.voteRequest ⟨0, 1⟩)) (sampleStart 16777216)).2
        [.restart 16777256] = some sk ∧ sk.term = 1 ∧ ¬ GivesVote (sampleIo []) ⟨0, 1⟩ sk := by
  have hload : load (samplePers 16777216) (fun _ => 0) 16777256 16777256 1 =
      .ok (sampleStart 16777216) := rfl
  have hok := (load_lsnOk ⟨by decide, by decide, by decide⟩ hload).1
  have hvote : GivesVote (sampleIo []) ⟨0, 1⟩ (sampleStart 16777216) := ⟨_, rfl, rfl⟩
  have hworks : forall e, e ∈ [Event.restart 16777256] -> e.Works := by simp [Event.Works]
  have hpromise := vote_is_promise hok (sampleIo_works _) hworks hvote rfl (sampleIo [])
  exact ⟨_, rfl, rfl, fun hagain => Nat.lt_irrefl _ (hpromise.1 _ hagain)⟩

end SafeKeeper

end Safekeeper
end OpenNeon

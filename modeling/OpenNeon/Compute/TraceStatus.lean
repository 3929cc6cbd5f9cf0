import Mathlib.Data.List.FinRange
import OpenNeon.Pagestream.SqlCommenter

/-!
# Trace slots of the backends

The trace of each backend stands in a table that other backends read.  A backend claims a
slot by linear probing on its process id and keeps it; nothing gives the slot back when the
backend exits.
-/

namespace OpenNeon
namespace Compute

open Base Pagestream List

def NEON_TRACESTATE_MAX : Nat := 256

/-- A W3C trace context and the text that goes with it. -/
structure Trace where
  tc : TraceContext
  tracestate : List UInt8

def Trace.stored (trace : Trace) : Trace :=
  { trace with tracestate := trace.tracestate.take (NEON_TRACESTATE_MAX - 1) }

/-- A slot without a trace is not valid; a process id of zero marks a free slot. -/
structure NeonTraceStatus where
  pid : Nat
  trace : Option Trace

abbrev TraceTable (n : Nat) :=
  Fin n -> NeonTraceStatus

namespace TraceTable

variable {n : Nat} [NeZero n] (slots : TraceTable n) (pid : Nat)

def probes (n : Nat) [NeZero n] (pid : Nat) : List (Fin n) :=
  (range n).map (fun probe => Fin.ofNat n (pid % n + probe))

def locateOrClaimMySlot : Option (Fin n) :=
  (probes n pid).find? (fun idx => (slots idx).pid = 0 ∨ (slots idx).pid = pid)

def write (trace : Option Trace) : TraceTable n :=
  match slots.locateOrClaimMySlot pid with
  | none => slots
  | some idx => Function.update slots idx ⟨pid, trace⟩

def neonTraceStatusSet (trace : Trace) : TraceTable n :=
  slots.write pid (some trace.stored)

def neonTraceStatusClear : TraceTable n :=
  slots.write pid none

/-- The search ends at a slot that nobody has claimed. -/
def neonTraceStatusGetByPid : Option Trace :=
  if pid = 0 then none
  else
    match (probes n pid).find? (fun idx =>
        (slots idx).pid = pid ∧ (slots idx).trace.isSome ∨ (slots idx).pid = 0) with
    | none => none
    | some idx => if (slots idx).pid = pid then (slots idx).trace else none

def neonTraceStatusIterate : List NeonTraceStatus :=
  ((finRange n).map slots).filter (fun slot => slot.trace.isSome ∧ 0 < slot.pid)

/-- Probing for the process id of a slot finds that slot. -/
def Probed : Prop :=
  forall idx, (slots idx).pid ≠ 0 -> slots.locateOrClaimMySlot (slots idx).pid = some idx

variable {slots pid} {idx : Fin n}

omit [NeZero n] in
theorem find?_eq_of_imp {p q : Fin n -> Bool} {l : List (Fin n)} (h : l.find? p = some idx)
    (hidx : q idx = true) (himp : forall i, q i = true -> p i = true) :
    l.find? q = some idx := by
  obtain ⟨_, before, after, hl, hnot⟩ := find?_eq_some_iff_append.mp h
  refine find?_eq_some_iff_append.mpr ⟨hidx, before, after, hl, fun i hi => ?_⟩
  simpa using mt (himp i) (by simpa using hnot i hi)

theorem locate_spec (h : slots.locateOrClaimMySlot pid = some idx) :
    (slots idx).pid = 0 ∨ (slots idx).pid = pid :=
  by simpa using find?_some h

theorem Probed.eq_of_pid (h : slots.Probed) {i : Fin n} (hpid : pid ≠ 0)
    (hidx : (slots idx).pid = pid) (hi : (slots i).pid = pid) : i = idx := by
  have hfound := h i (hi ▸ hpid)
  rw [hi, ← hidx, h idx (hidx ▸ hpid)] at hfound
  exact (Option.some.inj hfound).symm

theorem Probed.write (h : slots.Probed) (hpid : pid ≠ 0) (trace : Option Trace) :
    (slots.write pid trace).Probed := by
  unfold TraceTable.write
  split
  · exact h
  next claimed hclaimed =>
    have hspec := locate_spec hclaimed
    intro idx hidx
    by_cases heq : idx = claimed
    · rw [heq, Function.update_self]
      exact find?_eq_of_imp hclaimed (by simp) (by grind [Function.update_apply])
    · rw [Function.update_of_ne heq] at hidx ⊢
      have hfound := h idx hidx
      exact find?_eq_of_imp hfound (by grind) (by grind [Function.update_apply])

theorem getByPid_eq_some_iff (h : slots.Probed) {trace : Trace} :
    slots.neonTraceStatusGetByPid pid = some trace <->
      pid ≠ 0 ∧ exists idx, slots idx = ⟨pid, some trace⟩ := by
  unfold neonTraceStatusGetByPid
  constructor
  · intro hget
    split_ifs at hget with hpid
    split at hget
    · cases hget
    next idx _ =>
      split_ifs at hget with hidx
      exact ⟨hpid, idx, by rw [← hidx, ← hget]⟩
  · rintro ⟨hpid, idx, hidx⟩
    have hfound := h idx (by rwa [hidx])
    rw [hidx] at hfound
    rw [if_neg hpid, find?_eq_of_imp hfound (by simp [hidx]) (by grind)]
    simp [hidx]

theorem Probed.exists_write_iff (h : slots.Probed) {trace : Option Trace} {p : Nat} {t : Trace}
    (hpid : pid ≠ 0) (hp : p ≠ 0) (hslot : trace.isSome -> (slots.locateOrClaimMySlot pid).isSome) :
    (exists idx, slots.write pid trace idx = ⟨p, some t⟩) <->
      if p = pid then trace = some t else exists idx, slots idx = ⟨p, some t⟩ := by
  have howner : forall idx, slots idx = ⟨pid, some t⟩ ->
      slots.locateOrClaimMySlot pid = some idx := by
    intro idx hidx
    have hfound := h idx (by rwa [hidx])
    rwa [hidx] at hfound
  unfold TraceTable.write
  cases hclaimed : slots.locateOrClaimMySlot pid with
  | none => grind
  | some claimed =>
    have hspec := locate_spec hclaimed
    simp only [Function.update_apply]
    constructor
    · rintro ⟨idx, hidx⟩
      grind
    · intro hright
      split at hright
      next heq => exact ⟨claimed, by grind⟩
      next hne =>
        obtain ⟨idx, hidx⟩ := hright
        exact ⟨idx, by grind⟩

end TraceTable

/-!
## Backends
-/

/-- The table, and for each backend that lives what it has set last and not cleared. -/
structure TraceSystem (n : Nat) where
  slots : TraceTable n
  live : Nat -> Option (Option Trace)

inductive BackendEvent where
  | start (pid : Nat)
  | exit (pid : Nat)
  | set (pid : Nat) (trace : Trace)
  | clear (pid : Nat)

namespace TraceSystem

variable {n : Nat} [NeZero n] (s : TraceSystem n)

def initial : TraceSystem n :=
  ⟨fun _ => ⟨0, none⟩, fun _ => none⟩

def next : BackendEvent -> Option (TraceSystem n)
  | .start pid =>
    if pid = 0 ∨ (s.live pid).isSome then none
    else some { s with live := Function.update s.live pid (some none) }
  | .exit pid =>
    if (s.live pid).isSome then some { s with live := Function.update s.live pid none } else none
  | .set pid trace =>
    if (s.live pid).isSome then
      some ⟨s.slots.neonTraceStatusSet pid trace,
        Function.update s.live pid (some (some trace.stored))⟩
    else none
  | .clear pid =>
    if (s.live pid).isSome then
      some ⟨s.slots.neonTraceStatusClear pid, Function.update s.live pid (some none)⟩
    else none

/-- A backend has no trace when it exits, and finds a slot when it sets one. -/
def Orderly : BackendEvent -> Prop
  | .exit pid => s.live pid = some none
  | .set pid _ => (s.slots.locateOrClaimMySlot pid).isSome
  | _ => True

structure Serves : Prop where
  owns : forall pid trace, s.live pid = some (some trace) -> ∃! idx, (s.slots idx).pid = pid
  read : forall pid last, s.live pid = some last -> s.slots.neonTraceStatusGetByPid pid = last
  visited : forall slot, slot ∈ s.slots.neonTraceStatusIterate <->
    exists trace, slot.trace = some trace ∧ s.live slot.pid = some (some trace)

structure Inv : Prop where
  probed : s.slots.Probed
  nobody : s.live 0 = none
  tracks : forall pid trace, s.live pid = some (some trace) <->
    pid ≠ 0 ∧ exists idx, s.slots idx = ⟨pid, some trace⟩

variable {s} {pid : Nat}

theorem Inv.serves (h : s.Inv) : s.Serves where
  owns pid trace hlive := by
    obtain ⟨hpid, idx, hidx⟩ := (h.tracks pid trace).mp hlive
    have hown : (s.slots idx).pid = pid := by rw [hidx]
    exact ⟨idx, hown, fun i hi => h.probed.eq_of_pid hpid hown hi⟩
  read pid last hlive := by
    refine Option.ext (fun trace => ?_)
    rw [TraceTable.getByPid_eq_some_iff h.probed, ← h.tracks, hlive, Option.some_inj]
  visited slot := by
    simp only [TraceTable.neonTraceStatusIterate, mem_filter, mem_map, mem_finRange, true_and,
      decide_eq_true_eq, Option.isSome_iff_exists, h.tracks, Nat.pos_iff_ne_zero]
    constructor
    · rintro ⟨⟨idx, rfl⟩, ⟨trace, htrace⟩, hpid⟩
      exact ⟨trace, htrace, hpid, idx, by rw [← htrace]⟩
    · rintro ⟨trace, htrace, hpid, idx, hidx⟩
      exact ⟨⟨idx, by rw [hidx, ← htrace]⟩, ⟨trace, htrace⟩, hpid⟩

theorem Inv.relive {last : Option (Option Trace)} (h : s.Inv) (hlive : (s.live pid).join = none)
    (hlast : last.join = none) (hpid : pid = 0 -> last = none) :
    Inv { s with live := Function.update s.live pid last } where
  probed := h.probed
  nobody := by
    by_cases hzero : pid = 0
    · simp [hzero, hpid hzero]
    · simp [Function.update_of_ne (Ne.symm hzero), h.nobody]
  tracks p trace := by
    rw [← h.tracks]
    change Function.update _ _ _ p = _ <-> _
    by_cases hp : p = pid
    · subst hp
      rw [Function.update_self, ← Option.join_eq_some_iff, ← Option.join_eq_some_iff, hlive, hlast]
    · rw [Function.update_of_ne hp]

theorem Inv.write {trace : Option Trace} (h : s.Inv) (hlive : (s.live pid).isSome)
    (hslot : trace.isSome -> (s.slots.locateOrClaimMySlot pid).isSome) :
    Inv ⟨s.slots.write pid trace, Function.update s.live pid (some trace)⟩ := by
  have hpid : pid ≠ 0 := by
    rintro rfl
    simp [h.nobody] at hlive
  refine ⟨h.probed.write hpid trace, by simp [Function.update_of_ne hpid.symm, h.nobody], ?_⟩
  intro p t
  change Function.update _ _ _ p = _ <-> _
  by_cases hp : p = 0
  · subst hp
    simp [Function.update_of_ne hpid.symm, h.nobody]
  · have hwrite := h.probed.exists_write_iff (t := t) hpid hp hslot
    simp only [ne_eq, hp, not_false_eq_true, true_and, hwrite, Function.update_apply]
    split
    · exact Option.some_inj
    · simp [h.tracks, hp]

theorem Inv.next {s' : TraceSystem n} {e : BackendEvent} (h : s.Inv) (hok : s.Orderly e)
    (hnext : s.next e = some s') : s'.Inv := by
  cases e <;> dsimp only [TraceSystem.next] at hnext <;> split at hnext <;> cases hnext
  case start pid hnew =>
    simp only [not_or, Option.not_isSome_iff_eq_none] at hnew
    exact h.relive (by simp [hnew.2]) rfl (fun hzero => absurd hzero hnew.1)
  case exit pid _ =>
    exact h.relive (by simp [show s.live pid = some none from hok]) rfl (fun _ => rfl)
  case set pid trace hlive => exact h.write hlive (fun _ => hok)
  case clear pid hlive => exact h.write hlive (by simp)

theorem initial_inv : (initial : TraceSystem n).Inv where
  probed idx h := absurd rfl h
  nobody := rfl
  tracks pid trace := by
    refine iff_of_false (by simp [initial]) ?_
    rintro ⟨hpid, idx, hidx⟩
    cases hidx

theorem serves_of_reached (h : Reached next Orderly (initial : TraceSystem n) s) : s.Serves :=
  (h.invariant initial_inv (fun _ _ _ hs => hs.next)).serves

def someTrace : Trace where
  tc :=
    { version := 0
      traceId := replicate 16 1
      parentId := replicate 8 1
      traceFlags := 1
      traceId_length := rfl
      traceId_nonzero := ⟨1, by decide⟩
      parentId_length := rfl
      parentId_nonzero := ⟨1, by decide⟩ }
  tracestate := []

/-- Two backends whose probes begin at the same slot; one exits, and its id is used again. -/
theorem serves_of_reached_colliding :
    exists s : TraceSystem 2, s.live 7 = some (some someTrace) ∧ s.live 9 = some (some someTrace) ∧
      (s.slots 0).pid = 9 ∧ s.Serves := by
  have hstart : Reached next Orderly (initial : TraceSystem 2) _ :=
    Reached.start.step (.start 7) trivial rfl
  have hfirst := hstart.step (BackendEvent.set 7 someTrace) (by exact rfl) rfl
  have hsecond := hfirst.step (BackendEvent.start 9) trivial rfl
  have hset := hsecond.step (BackendEvent.set 9 someTrace) (by exact rfl) rfl
  have hclear := hset.step (BackendEvent.clear 9) trivial rfl
  have hexit := hclear.step (BackendEvent.exit 9) (by exact rfl) rfl
  have hagain := hexit.step (BackendEvent.start 9) trivial rfl
  have hlast := hagain.step (BackendEvent.set 9 someTrace) (by exact rfl) rfl
  exact ⟨_, rfl, rfl, rfl, serves_of_reached hlast⟩

/-- A backend that has exited is still visited, and its slot is lost to the next one. -/
theorem exited_backend_keeps_slot :
    (exists s : TraceSystem 1, [.start 7, .set 7 someTrace, .exit 7].foldlM next initial = some s ∧
      ¬ s.Serves) ∧
    exists s : TraceSystem 1,
      [.start 7, .clear 7, .exit 7, .start 8, .set 8 someTrace].foldlM next initial = some s ∧
      ¬ s.Serves := by
  refine ⟨⟨_, rfl, fun h => ?_⟩, ⟨_, rfl, fun h => ?_⟩⟩
  · obtain ⟨_, _, hlive⟩ := (h.visited ⟨7, some someTrace⟩).mp (mem_singleton.mpr rfl)
    cases hlive
  · obtain ⟨idx, hidx, _⟩ := h.owns 8 someTrace rfl
    cases Subsingleton.elim idx 0
    cases hidx

end TraceSystem

/-!
## Statements of one backend

The trace of a statement is set after its text has been analyzed, and cleared when an
executor ends.
-/

def traceOf (sourcetext : Option (List UInt8)) : Option TraceContext := do
  let sql <- sourcetext
  let extracted <- sqlcommenterExtractTraceparent sql
  return extracted.1

/-- What happens while a statement runs; nested queries are analyzed and executed too. -/
inductive HookEvent where
  | postParseAnalyze (sourcetext : Option (List UInt8))
  | executorEnd
  | request

/-- The trace that is attached to requests from then on. -/
def neonPostParseAnalyze (sourcetext : Option (List UInt8)) (myTrace : Option TraceContext) :
    Option TraceContext :=
  traceOf sourcetext <|> myTrace

/-- The trace after the events and the traces that the requests carry. -/
def runHooks (myTrace : Option TraceContext) :
    List HookEvent -> Option TraceContext × List (Option TraceContext)
  | [] => (myTrace, [])
  | .postParseAnalyze sourcetext :: rest => runHooks (neonPostParseAnalyze sourcetext myTrace) rest
  | .executorEnd :: rest => runHooks none rest
  | .request :: rest =>
    let after := runHooks myTrace rest
    (after.1, myTrace :: after.2)

/-- A top-level statement: what happens before its text is analyzed, if it is at all and
not executed from a plan prepared before, and what happens then until it ends or fails. -/
structure Statement where
  sourcetext : Option (List UInt8)
  utility : Bool
  before : List HookEvent
  analyzed : Bool
  events : List HookEvent
  failed : Bool

/-- Only a query that does not fail ends an executor of its own. -/
def Statement.trail (st : Statement) : List HookEvent :=
  st.before ++ (if st.analyzed then [.postParseAnalyze st.sourcetext] else []) ++
    (st.events ++ if st.utility ∨ st.failed then [] else [.executorEnd])

/-- Nested queries name no other trace; a statement that has a trace is a query that is
analyzed before its first request, does not fail and executes no nested query after that. -/
structure Statement.Tidy (st : Statement) : Prop where
  nested : forall text, .postParseAnalyze text ∈ st.before ++ st.events ->
    traceOf text = none ∨ traceOf text = traceOf st.sourcetext
  traced : traceOf st.sourcetext ≠ none -> st.utility = false ∧ st.failed = false ∧
    st.analyzed = true ∧ .request ∉ st.before ∧ .executorEnd ∉ st.events

theorem runHooks_same {trace : Option TraceContext} {events : List HookEvent}
    (hnested : forall text, .postParseAnalyze text ∈ events ->
      traceOf text = none ∨ traceOf text = trace)
    (hend : .executorEnd ∈ events -> trace = none) :
    (runHooks trace events).1 = trace ∧ forall t, t ∈ (runHooks trace events).2 -> t = trace := by
  induction events with
  | nil => simp [runHooks]
  | cons e rest ih =>
    have ih := ih (fun text h => hnested text (mem_cons_of_mem _ h))
      (fun h => hend (mem_cons_of_mem _ h))
    cases e with
    | postParseAnalyze text =>
      have hsame : neonPostParseAnalyze text trace = trace := by
        rcases hnested text mem_cons_self with h | h <;> cases trace <;>
          simp [neonPostParseAnalyze, h]
      simpa only [runHooks, hsame] using ih
    | executorEnd =>
      obtain rfl := hend mem_cons_self
      exact ih
    | request => exact ⟨ih.1, forall_mem_cons.mpr ⟨rfl, ih.2⟩⟩

theorem runHooks_append (trace : Option TraceContext) (front back : List HookEvent) :
    runHooks trace (front ++ back) = ((runHooks (runHooks trace front).1 back).1,
      (runHooks trace front).2 ++ (runHooks (runHooks trace front).1 back).2) := by
  induction front generalizing trace with
  | nil => rfl
  | cons e rest ih => cases e <;> simp [runHooks, ih]

theorem runHooks_no_request {events : List HookEvent} (h : .request ∉ events)
    (trace : Option TraceContext) : (runHooks trace events).2 = [] := by
  induction events generalizing trace with
  | nil => rfl
  | cons e rest ih =>
    rw [mem_cons, not_or] at h
    cases e with
    | request => exact absurd rfl h.1
    | _ => exact ih h.2 _

theorem Statement.Tidy.run {st : Statement} (h : st.Tidy) :
    (runHooks none st.trail).1 = none ∧
      forall t, t ∈ (runHooks none st.trail).2 -> t = traceOf st.sourcetext := by
  have hnested := h.nested
  unfold Statement.trail
  by_cases htraced : traceOf st.sourcetext = none
  · rw [htraced] at hnested ⊢
    refine runHooks_same (fun text hmem => ?_) (fun _ => rfl)
    simp only [mem_append] at hmem hnested
    split at hmem <;> split at hmem <;> grind
  · obtain ⟨hutility, hfailed, hanalyzed, hbefore, hend⟩ := h.traced htraced
    obtain ⟨trace, htrace⟩ := Option.ne_none_iff_exists'.mp htraced
    have hsame := runHooks_same (fun text hmem => hnested text (mem_append_right _ hmem))
      (fun hmem => absurd hmem hend)
    rw [htrace] at hsame ⊢
    simpa [hutility, hfailed, hanalyzed, runHooks_append, runHooks_no_request hbefore, runHooks,
      neonPostParseAnalyze, htrace] using hsame.2

def query (sourcetext : Option (List UInt8)) (failed : Bool) : Statement :=
  ⟨sourcetext, false, [], true, [.request], failed⟩

end Compute
end OpenNeon

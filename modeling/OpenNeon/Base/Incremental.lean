/-!
# Machines that wait for input

A machine makes steps on what it has been fed so far and waits when that is not enough.
If more input changes no step that the machine can make, it does not matter in which
pieces the input comes.
-/

namespace OpenNeon
namespace Base

variable {state out error : Type}

inductive Step (state out error : Type) where
  /-- More input is needed. -/
  | more
  | fail (e : error)
  | next (s : state) (o : Option out)

@[simp]
def Step.map (f : state -> state) : Step state out error -> Step state out error
  | .more => .more
  | .fail e => .fail e
  | .next s o => .next (f s) o

/-- A step function with a rank that goes down. -/
structure Machine (state out error : Type) where
  step : state -> Step state out error
  rank : state -> Nat
  rank_lt : forall {s s' o}, step s = .next s' o -> rank s' < rank s

/-- Outputs, and then the state in which more is needed or an error. -/
abbrev Drained (state out error : Type) := List out × Except error state

/-- Goes on after the outputs, unless there was an error. -/
def Drained.andThen (r : Drained state out error) (k : state -> Drained state out error) :
    Drained state out error :=
  match r.2 with
  | .error e => (r.1, .error e)
  | .ok s => (r.1 ++ (k s).1, (k s).2)

def runPieces {byte : Type} (drain : state -> Drained state out error)
    (feed : state -> List byte -> state) (s : state) :
    List (List byte) -> Drained state out error
  | [] => ([], .ok s)
  | c :: rest => (drain (feed s c)).andThen fun s' => runPieces drain feed s' rest

namespace Machine

variable (m : Machine state out error)

/-- Steps up to the next output. -/
def poll (s : state) : Except error (Option out × state) :=
  match h : m.step s with
  | .more => .ok (none, s)
  | .fail e => .error e
  | .next s' (some o) => .ok (some o, s')
  | .next s' none =>
    have := m.rank_lt h
    poll s'
  termination_by m.rank s

def drain (s : state) : Drained state out error :=
  match h : m.step s with
  | .more => ([], .ok s)
  | .fail e => ([], .error e)
  | .next s' o =>
    have := m.rank_lt h
    (o.toList ++ (drain s').1, (drain s').2)
  termination_by m.rank s

/-- What a caller collects that polls until there is no output. -/
def pollOn (k : state -> Drained state out error) :
    Except error (Option out × state) -> Drained state out error
  | .error e => ([], .error e)
  | .ok (none, s) => ([], .ok s)
  | .ok (some o, s) => (o :: (k s).1, (k s).2)

variable {m} {s s' : state}

theorem drain_more (h : m.step s = .more) : m.drain s = ([], .ok s) := by
  rw [drain]
  split <;> simp_all

theorem drain_fail {e : error} (h : m.step s = .fail e) : m.drain s = ([], .error e) := by
  rw [drain]
  split <;> simp_all

theorem drain_next {o : Option out} (h : m.step s = .next s' o) :
    m.drain s = (o.toList ++ (m.drain s').1, (m.drain s').2) := by
  rw [drain]
  split <;> simp_all

theorem drain_eq_poll (s : state) : m.drain s = pollOn m.drain (m.poll s) := by
  induction s using (measure m.rank).wf.induction with
  | _ s ih =>
    rw [poll]
    split
    next h => exact drain_more h
    next e h => exact drain_fail h
    next s' o h => exact drain_next h
    next s' h =>
      rw [← ih s' (m.rank_lt h)]
      simpa using drain_next h

theorem step_of_drain (h : (m.drain s).2 = .ok s') : m.step s' = .more := by
  induction s using (measure m.rank).wf.induction with
  | _ s ih =>
    cases hs : m.step s with
    | more =>
      rw [drain_more hs] at h
      cases h
      exact hs
    | fail e =>
      rw [drain_fail hs] at h
      cases h
    | next t o =>
      rw [drain_next hs] at h
      exact ih t (m.rank_lt hs) h

theorem drain_preserves {α : Type} {f : state -> α}
    (hstep : forall {s s' o}, m.step s = .next s' o -> f s' = f s)
    (h : (m.drain s).2 = .ok s') : f s' = f s := by
  induction s using (measure m.rank).wf.induction with
  | _ s ih =>
    cases hs : m.step s with
    | more =>
      rw [drain_more hs] at h
      cases h
      rfl
    | fail e =>
      rw [drain_fail hs] at h
      cases h
    | next t o =>
      rw [drain_next hs] at h
      exact (ih t (m.rank_lt hs) h).trans (hstep hs)

/-- A machine that makes some steps of another by a detour drains as the other does. -/
theorem drain_eq_of_detour {m' : Machine state out error}
    (h : forall s, m'.step s = m.step s ∨ m.step s ≠ .more ∧
      exists t, m'.step s = .next t none ∧ m'.step t = m.step s) (s : state) :
    m'.drain s = m.drain s := by
  induction s using (measure m.rank).wf.induction with
  | _ s ih =>
    have hsame : forall t, m'.step t = m.step s -> m.step s ≠ .more ->
        m'.drain t = m.drain s := by
      intro t ht hmore
      cases hs : m.step s with
      | more => exact absurd hs hmore
      | fail e => rw [drain_fail hs, drain_fail (ht.trans hs)]
      | next s' o => rw [drain_next hs, drain_next (ht.trans hs), ih s' (m.rank_lt hs)]
    rcases h s with heq | ⟨hmore, t, hs, ht⟩
    · by_cases hmore : m.step s = .more
      · rw [drain_more hmore, drain_more (heq.trans hmore)]
      · exact hsame s heq hmore
    · rw [drain_next hs, hsame t ht hmore]
      rfl

end Machine

/-- Input that is appended to what is there, and leaves every possible step possible. -/
structure Feeding (m : Machine state out error) (byte : Type) where
  feed : state -> List byte -> state
  feed_nil : forall s, feed s [] = s
  feed_append : forall s a b, feed s (a ++ b) = feed (feed s a) b
  feed_step : forall s c, m.step s = .more ∨ m.step (feed s c) = (m.step s).map fun s' => feed s' c

namespace Feeding

variable {byte : Type} {m : Machine state out error} (f : Feeding m byte)

theorem drain_feed (s : state) (c : List byte) :
    m.drain (f.feed s c) = (m.drain s).andThen fun s' => m.drain (f.feed s' c) := by
  induction s using (measure m.rank).wf.induction with
  | _ s ih =>
    have hfeed := f.feed_step s c
    cases hs : m.step s with
    | more => simp [Machine.drain_more hs, Drained.andThen]
    | fail e =>
      have hfed : m.step (f.feed s c) = .fail e := by simpa [hs] using hfeed
      simp [Machine.drain_fail hs, Machine.drain_fail hfed, Drained.andThen]
    | next s' o =>
      have hfed : m.step (f.feed s c) = .next (f.feed s' c) o := by
        simpa [hs] using hfeed
      rw [Machine.drain_next hfed, Machine.drain_next hs, ih s' (m.rank_lt hs)]
      cases hr : (m.drain s').2 <;> simp [Drained.andThen, hr]

/-- From a state that waits, the pieces do as much as the whole. -/
theorem run_eq_drain {s : state} (hs : m.step s = .more) (pieces : List (List byte)) :
    runPieces m.drain f.feed s pieces = m.drain (f.feed s pieces.flatten) := by
  induction pieces generalizing s with
  | nil => rw [List.flatten_nil, f.feed_nil, Machine.drain_more hs, runPieces]
  | cons c rest ih =>
    rw [List.flatten_cons, f.feed_append, drain_feed, runPieces]
    cases hr : (m.drain (f.feed s c)).2 with
    | error e => simp [Drained.andThen, hr]
    | ok s' => simp [Drained.andThen, hr, ih (Machine.step_of_drain hr)]

end Feeding
end Base
end OpenNeon

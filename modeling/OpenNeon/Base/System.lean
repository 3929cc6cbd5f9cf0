/-!
# Systems that take steps

A system is a state and the events that may happen to it; an event that is not
possible in a state has no next state.  Runs may be restricted to events that meet a
condition in the state in which they happen.  What the first state has and every such
step keeps, every state reached has.
-/

namespace OpenNeon
namespace Base

variable {state event : Type}

/-- The states reached from a first one by steps that meet a condition. -/
inductive Reached (next : state -> event -> Option state) (ok : state -> event -> Prop)
    (start : state) : state -> Prop where
  | start : Reached next ok start start
  | step {s s' : state} (e : event) (h : Reached next ok start s) (hok : ok s e)
      (hnext : next s e = some s') : Reached next ok start s'

namespace Reached

variable {next : state -> event -> Option state} {ok ok' : state -> event -> Prop}
  {start s : state}

theorem invariant {Inv : state -> Prop} (hstart : Inv start)
    (hstep : forall s e s', Inv s -> ok s e -> next s e = some s' -> Inv s')
    (h : Reached next ok start s) : Inv s := by
  induction h with
  | start => exact hstart
  | step e _ hok hnext ih => exact hstep _ e _ ih hok hnext

theorem trans {s' : state} (h : Reached next ok start s) (h' : Reached next ok s s') :
    Reached next ok start s' := by
  induction h' with
  | start => exact h
  | step e _ hok hnext ih => exact ih.step e hok hnext

theorem of_foldlM {events : List event} (hok : forall s e, e ∈ events -> ok s e)
    (h : events.foldlM next start = some s) : Reached next ok start s := by
  induction events generalizing start with
  | nil =>
    cases h
    exact .start
  | cons e rest ih =>
    obtain ⟨mid, hmid, hrest⟩ := Option.bind_eq_some_iff.mp h
    have hfirst : Reached next ok start mid := Reached.start.step e (hok _ e (by simp)) hmid
    exact hfirst.trans (ih (fun s e he => hok s e (by simp [he])) hrest)

theorem of_any {events : List event} (g : state -> event -> Bool) (c : state -> Bool)
    (hok : forall s e, g s e = true -> ok s e)
    (h : (events.foldlM (fun s e => if g s e then next s e else none) start).any c = true) :
    exists s, Reached next ok start s ∧ c s = true := by
  rcases (Option.any_eq_true _ _).mp h with ⟨s, hs, hcheck⟩
  refine ⟨s, ?_, hcheck⟩
  clear h
  induction events generalizing start with
  | nil =>
    cases hs
    exact .start
  | cons e rest ih =>
    rw [List.foldlM_cons] at hs
    obtain ⟨mid, hmid, hrest⟩ := Option.bind_eq_some_iff.mp hs
    split at hmid
    next hg =>
      have hfirst : Reached next ok start mid := Reached.start.step e (hok _ e hg) hmid
      exact hfirst.trans (ih hrest)
    · cases hmid

end Reached

end Base
end OpenNeon

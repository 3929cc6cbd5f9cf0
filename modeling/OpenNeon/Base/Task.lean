import Mathlib.Tactic.Ring
import Mathlib.Order.Defs.Unbundled

/-!
# Tasks that ask and wait

A task makes requests and goes on when they are answered, so other things may happen
while it waits.  What is around a task is a world that says which requests may be made
in it, and how a request may be answered and the world have changed by then.  The
weakest precondition of a task covers all such answers and changes, so it goes along
with a task from one request to the next.
-/

namespace OpenNeon
namespace Base

/-- A task that ends, or asks and goes on with the answer. -/
inductive Task (req : Type) (ans : req -> Type) (alpha : Type) : Type where
  | done (a : alpha)
  | call (r : req) (k : ans r -> Task req ans alpha)

/-- What is around a task. -/
structure Setting (world req : Type) (ans : req -> Type) where
  asks : world -> req -> Prop
  reply : world -> (r : req) -> ans r -> world -> Prop

namespace Task

variable {req world alpha beta : Type} {ans : req -> Type}

def bind : Task req ans alpha -> (alpha -> Task req ans beta) -> Task req ans beta
  | done a, f => f a
  | call r k, f => call r (fun x => (k x).bind f)

instance : Monad (Task req ans) where
  pure := done
  bind := bind

/-- All requests of the task may be made, however answered, and what holds at its end. -/
def wp (G : Setting world req ans) :
    Task req ans alpha -> (alpha -> world -> Prop) -> world -> Prop
  | done a, post, w => post a w
  | call r k, post, w => G.asks w r ∧ forall a w', G.reply w r a w' -> (k a).wp G post w'

variable {G : Setting world req ans} {w : world}

theorem wp_bind {post : beta -> world -> Prop} {t : Task req ans alpha}
    {f : alpha -> Task req ans beta} :
    (t.bind f).wp G post w <-> t.wp G (fun a => (f a).wp G post) w := by
  induction t generalizing w with
  | done a => exact Iff.rfl
  | call r k ih => exact and_congr_right (fun _ => forall₃_congr (fun a _ _ => ih a))

theorem wp_mono {post post' : alpha -> world -> Prop} {t : Task req ans alpha}
    (h : t.wp G post w) (hpost : forall a w', post a w' -> post' a w') : t.wp G post' w := by
  induction t generalizing w with
  | done a => exact hpost a w h
  | call r k ih => exact ⟨h.1, fun a w' hreply => ih a (h.2 a w' hreply)⟩

theorem wp_congr {post post' : alpha -> world -> Prop} {t : Task req ans alpha}
    (h : forall a w', post a w' <-> post' a w') : t.wp G post w <-> t.wp G post' w :=
  ⟨fun ht => wp_mono ht (fun a w' => (h a w').mp), fun ht => wp_mono ht (fun a w' => (h a w').mpr)⟩

/-- A change of the world that is no more than what may happen while a task waits. -/
structure Bears (G : Setting world req ans) (w w' : world) : Prop where
  asks : forall r, G.asks w r -> G.asks w' r
  reply : forall r a w'', G.reply w' r a w'' -> G.reply w r a w''

theorem wp_of_bears {post : alpha -> world -> Prop} {t : Task req ans alpha} {w' : world}
    (h : t.wp G post w) (hbears : Bears G w w') (hpost : forall a, post a w -> post a w') :
    t.wp G post w' := by
  cases t with
  | done a => exact hpost a h
  | call r k => exact ⟨hbears.asks r h.1,
      fun a w'' hreply => h.2 a w'' (hbears.reply r a w'' hreply)⟩

end Task

/-!
## Tasks with a state and errors

The state is kept on failure, and the answer to a request may be an error.
-/

abbrev Proc (req : Type) (payload : req -> Type) (state error : Type) : Type -> Type :=
  ExceptT error (StateT state (Task req (fun r => Except error (payload r))))

namespace Proc

variable {req world state error alpha beta : Type} {payload : req -> Type}

def exec (m : Proc req payload state error alpha) (s : state) :
    Task req (fun r => Except error (payload r)) (Except error alpha × state) :=
  m.run.run s

def ask (r : req) : Proc req payload state error (payload r) :=
  ExceptT.mk (fun s => .call r (fun a => .done (a, s)))

def attempt (m : Proc req payload state error alpha) :
    Proc req payload state error (Except error alpha) :=
  ExceptT.mk (fun s => (exec m s).bind (fun x => .done (.ok x.1, x.2)))

/-- What holds at the end, normal or by a failure. -/
def Ended (post : alpha -> world -> state -> Prop) (fail : error -> world -> state -> Prop)
    (x : Except error alpha × state) (w : world) : Prop :=
  match x.1 with
  | .ok a => post a w x.2
  | .error e => fail e w x.2

def wp (G : Setting world req (fun r => Except error (payload r)))
    (m : Proc req payload state error alpha) (post : alpha -> world -> state -> Prop)
    (fail : error -> world -> state -> Prop) (w : world) (s : state) : Prop :=
  (exec m s).wp G (Ended post fail) w

variable {G : Setting world req (fun r => Except error (payload r))}
  {post : alpha -> world -> state -> Prop} {fail : error -> world -> state -> Prop}
  {w : world} {s : state}

@[simp] theorem wp_pure {a : alpha} :
    wp G (pure a : Proc req payload state error alpha) post fail w s <-> post a w s :=
  Iff.rfl

@[simp] theorem wp_throw (e : error) :
    wp G (throw e : Proc req payload state error alpha) post fail w s <-> fail e w s :=
  Iff.rfl

@[simp] theorem wp_get {post : state -> world -> state -> Prop} :
    wp G (get : Proc req payload state error state) post fail w s <-> post s w s :=
  Iff.rfl

@[simp] theorem wp_modify {post : PUnit -> world -> state -> Prop} {f : state -> state} :
    wp G (modify f : Proc req payload state error PUnit) post fail w s <-> post ⟨⟩ w (f s) :=
  Iff.rfl

theorem exec_bind (m : Proc req payload state error alpha)
    (f : alpha -> Proc req payload state error beta) (s : state) :
    exec (m >>= f) s = (exec m s).bind (fun x =>
      match x.1 with
      | .ok a => exec (f a) x.2
      | .error e => .done (.error e, x.2)) := by
  have hbind : exec (m >>= f) s = (exec m s).bind (fun x => ExceptT.bindCont f x.1 x.2) := rfl
  rw [hbind]
  congr 1
  funext x
  rcases x with ⟨_ | a, s'⟩ <;> rfl

@[simp] theorem wp_bind {post : beta -> world -> state -> Prop}
    {m : Proc req payload state error alpha}
    {f : alpha -> Proc req payload state error beta} :
    wp G (m >>= f) post fail w s <-> wp G m (fun a => wp G (f a) post fail) fail w s := by
  unfold wp
  rw [exec_bind, Task.wp_bind]
  exact Task.wp_congr (fun x w' => by rcases x with ⟨_ | a, s'⟩ <;> exact Iff.rfl)

@[simp] theorem wp_ask {r : req} {post : payload r -> world -> state -> Prop} :
    wp G (ask r : Proc req payload state error (payload r)) post fail w s <->
      G.asks w r ∧ (forall x w', G.reply w r (.ok x) w' -> post x w' s) ∧
        forall e w', G.reply w r (.error e) w' -> fail e w' s := by
  constructor
  · rintro ⟨hasks, hrest⟩
    exact ⟨hasks, fun x w' hreply => hrest (.ok x) w' hreply,
      fun e w' hreply => hrest (.error e) w' hreply⟩
  · rintro ⟨hasks, hok, herror⟩
    refine ⟨hasks, fun a w' hreply => ?_⟩
    cases a with
    | ok x => exact hok x w' hreply
    | error e => exact herror e w' hreply

@[simp] theorem wp_attempt {post : Except error alpha -> world -> state -> Prop}
    {m : Proc req payload state error alpha} :
    wp G (attempt m) post fail w s <->
      wp G m (fun a => post (.ok a)) (fun e => post (.error e)) w s := by
  have hexec : exec (attempt m) s = (exec m s).bind (fun x => .done (.ok x.1, x.2)) := rfl
  unfold wp
  rw [hexec, Task.wp_bind]
  exact Task.wp_congr (fun x w' => by rcases x with ⟨_ | a, s'⟩ <;> exact Iff.rfl)

theorem wp_mono {post' : alpha -> world -> state -> Prop}
    {fail' : error -> world -> state -> Prop} {m : Proc req payload state error alpha}
    (h : wp G m post fail w s) (hpost : forall a w' s', post a w' s' -> post' a w' s')
    (hfail : forall e w' s', fail e w' s' -> fail' e w' s') : wp G m post' fail' w s := by
  refine Task.wp_mono h (fun x w' hx => ?_)
  rcases x with ⟨e | a, s'⟩
  · exact hfail e w' s' hx
  · exact hpost a w' s' hx

/-!
### Invariants
-/

/-- An invariant that a task keeps, however it ends. -/
def Maintains (G : Setting world req (fun r => Except error (payload r)))
    (Inv : world -> state -> Prop) (m : Proc req payload state error alpha) : Prop :=
  forall w s, Inv w s -> wp G m (fun _ => Inv) (fun _ => Inv) w s

namespace Maintains

variable {Inv : world -> state -> Prop} {m : Proc req payload state error alpha}

theorem bind {f : alpha -> Proc req payload state error beta} (hm : Maintains G Inv m)
    (hf : forall a, Maintains G Inv (f a)) : Maintains G Inv (m >>= f) :=
  fun w s hs => wp_bind.mpr
    (wp_mono (hm w s hs) (fun a w' s' hs' => hf a w' s' hs') (fun _ _ _ hfail => hfail))

protected theorem pure (a : alpha) :
    Maintains G Inv (pure a : Proc req payload state error alpha) :=
  fun _ _ hs => hs

protected theorem throw (e : error) :
    Maintains G Inv (throw e : Proc req payload state error alpha) :=
  fun _ _ hs => hs

protected theorem modify {f : state -> state} (h : forall w s, Inv w s -> Inv w (f s)) :
    Maintains G Inv (modify f : Proc req payload state error PUnit) :=
  h

theorem get_bind {f : state -> Proc req payload state error alpha}
    (h : forall w s, Inv w s -> wp G (f s) (fun _ => Inv) (fun _ => Inv) w s) :
    Maintains G Inv (get >>= f) :=
  fun w s hs => wp_bind.mpr (h w s hs)

theorem attempt (h : Maintains G Inv m) : Maintains G Inv (Proc.attempt m) :=
  fun w s hs => wp_attempt.mpr (h w s hs)

protected theorem ask {r : req} (hasks : forall w s, Inv w s -> G.asks w r)
    (hreply : forall w s a w', Inv w s -> G.reply w r a w' -> Inv w' s) :
    Maintains G Inv (ask r : Proc req payload state error (payload r)) :=
  fun w s hs => wp_ask.mpr ⟨hasks w s hs, fun x w' h => hreply w s (.ok x) w' hs h,
    fun e w' h => hreply w s (.error e) w' hs h⟩

end Maintains

end Proc

end Base
end OpenNeon

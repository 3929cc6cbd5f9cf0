import Mathlib.Tactic.Ring
import Mathlib.Order.Defs.Unbundled

/-!
# Programs with a state and errors

A program changes a state and may fail.  A failure keeps what has been changed
before it, unlike in a state transformer over exceptions.  The rules below give
the weakest precondition of a program for a postcondition and a condition on
failures.
-/

namespace OpenNeon
namespace Base

/-- A program on a state; the state is kept on failure. -/
abbrev Prog (state error : Type) : Type -> Type :=
  ExceptT error (StateM state)

namespace Prog

variable {state part error alpha beta : Type}

def exec (m : Prog state error alpha) (s : state) : Except error alpha × state :=
  m.run.run s

def read (f : state -> Except error alpha) : Prog state error alpha :=
  get >>= fun s => liftExcept (f s)

def tryModify (f : state -> Except error state) : Prog state error Unit :=
  read f >>= fun s => set s

def zoom (get : state -> part) (put : part -> state -> state)
    (m : Prog part error alpha) : Prog state error alpha :=
  ExceptT.mk (fun s => ((exec m (get s)).1, put (exec m (get s)).2 s))

def refuse (c : Prop) [Decidable c] (e : error) : Prog state error Unit :=
  if c then throw e else pure ()

def onlyIf (c : Prop) [Decidable c] (m : Prog state error Unit) : Prog state error Unit :=
  if c then m else pure ()

def attempt (m : Prog state error alpha) : Prog state error (Except error alpha) :=
  ExceptT.mk (fun s => (.ok (exec m s).1, (exec m s).2))

def adapt {error' : Type} (m : Prog state error alpha) (f : error -> error') :
    Prog state error' alpha :=
  ExceptT.mk (fun s => ((exec m s).1.mapError f, (exec m s).2))

/-- What holds after a program ends, normally or by a failure. -/
def wp (m : Prog state error alpha) (post : alpha -> state -> Prop)
    (fail : error -> state -> Prop) (s : state) : Prop :=
  match exec m s with
  | (.ok a, s') => post a s'
  | (.error e, s') => fail e s'

variable {post : alpha -> state -> Prop} {fail : error -> state -> Prop} {s : state}

@[simp] theorem wp_pure {a : alpha} :
    wp (pure a : Prog state error alpha) post fail s <-> post a s :=
  Iff.rfl

@[simp] theorem wp_throw (e : error) :
    wp (throw e : Prog state error alpha) post fail s <-> fail e s :=
  Iff.rfl

@[simp] theorem wp_get {post : state -> state -> Prop} :
    wp (get : Prog state error state) post fail s <-> post s s :=
  Iff.rfl

@[simp] theorem wp_set {post : PUnit -> state -> Prop} (s' : state) :
    wp (set s' : Prog state error PUnit) post fail s <-> post ⟨⟩ s' :=
  Iff.rfl

@[simp] theorem wp_modify {post : PUnit -> state -> Prop} {f : state -> state} :
    wp (modify f : Prog state error PUnit) post fail s <-> post ⟨⟩ (f s) :=
  Iff.rfl

theorem exec_bind (m : Prog state error alpha) (f : alpha -> Prog state error beta) (s : state) :
    exec (m >>= f) s =
      match exec m s with
      | (.ok a, s') => exec (f a) s'
      | (.error e, s') => (.error e, s') := by
  have hbind : exec (m >>= f) s =
      match exec m s with
      | (res, s') => ExceptT.bindCont f res s' := rfl
  rw [hbind]
  rcases exec m s with ⟨_ | a, s'⟩ <;> rfl

@[simp] theorem wp_bind {post : beta -> state -> Prop}
    {m : Prog state error alpha} {f : alpha -> Prog state error beta} :
    wp (m >>= f) post fail s <-> wp m (fun a => wp (f a) post fail) fail s := by
  unfold wp
  rw [exec_bind]
  rcases exec m s with ⟨_ | a, s'⟩ <;> rfl

@[simp] theorem wp_ite {c : Prop} [Decidable c] {m m' : Prog state error alpha} :
    wp (if c then m else m') post fail s <->
      if c then wp m post fail s else wp m' post fail s := by
  split <;> rfl

@[simp] theorem wp_zoom (get : state -> part) (put : part -> state -> state)
    (m : Prog part error alpha) :
    wp (zoom get put m) post fail s <->
      wp m (fun a p => post a (put p s)) (fun e p => fail e (put p s)) (get s) := by
  unfold wp
  show (match ((exec m (get s)).1, put (exec m (get s)).2 s) with
    | (.ok a, s') => post a s'
    | (.error e, s') => fail e s') <-> _
  rcases exec m (get s) with ⟨_ | a, p⟩ <;> rfl

@[simp] theorem wp_adapt {error' : Type} {fail : error' -> state -> Prop}
    (m : Prog state error alpha) (f : error -> error') :
    wp (adapt m f) post fail s <-> wp m post (fun e => fail (f e)) s := by
  have hexec : exec (adapt m f) s = ((exec m s).1.mapError f, (exec m s).2) := rfl
  unfold wp
  rw [hexec]
  rcases exec m s with ⟨_ | a, s'⟩ <;> rfl

@[simp] theorem wp_attempt {post : Except error alpha -> state -> Prop}
    {m : Prog state error alpha} :
    wp (attempt m) post fail s <->
      wp m (fun a => post (.ok a)) (fun e => post (.error e)) s := by
  have hexec : exec (attempt m) s = (.ok (exec m s).1, (exec m s).2) := rfl
  unfold wp
  rw [hexec]
  rcases exec m s with ⟨_ | a, s'⟩ <;> rfl

@[simp] theorem wp_liftExcept (x : Except error alpha) :
    wp (liftExcept x : Prog state error alpha) post fail s <->
      match x with
      | .ok a => post a s
      | .error e => fail e s := by
  cases x <;> rfl

@[simp] theorem wp_read {f : state -> Except error alpha} :
    wp (read f) post fail s <->
      match f s with
      | .ok a => post a s
      | .error e => fail e s := by
  unfold read
  rw [wp_bind, wp_get, wp_liftExcept]

@[simp] theorem wp_tryModify {post : Unit -> state -> Prop} {f : state -> Except error state} :
    wp (tryModify f) post fail s <->
      match f s with
      | .ok s' => post () s'
      | .error e => fail e s := by
  unfold tryModify
  rw [wp_bind, wp_read]
  cases f s <;> rfl

section

variable {post : PUnit -> state -> Prop} (o : Option alpha) (f : alpha -> Prog state error PUnit)

include o f

@[simp] theorem wp_option_forM :
    wp (o.forM f) post fail s <->
      match o with
      | none => post ⟨⟩ s
      | some a => wp (f a) post fail s := by
  cases o <;> rfl

theorem wp_forM_toList : wp (o.toList.forM f) post fail s <-> wp (o.forM f) post fail s := by
  cases o with
  | none => exact Iff.rfl
  | some a => exact wp_bind

end

variable {m : Prog state error alpha}

variable {post' : alpha -> state -> Prop} {fail' : error -> state -> Prop}

theorem wp_mono (h : wp m post fail s) (hpost : forall a s', post a s' -> post' a s')
    (hfail : forall e s', fail e s' -> fail' e s') : wp m post' fail' s := by
  revert h
  unfold wp
  rcases exec m s with ⟨_ | a, s'⟩
  · exact hfail _ _
  · exact hpost _ _

theorem wp_imp (h : wp m post fail s) (hpost : forall a s', post a s' -> post' a s') :
    wp m post' fail s :=
  wp_mono h hpost (fun _ _ hfail => hfail)

theorem wp_then {f : alpha -> Prog state error beta} {post' : beta -> state -> Prop}
    (h : wp m post fail s) (hf : forall a s', post a s' -> wp (f a) post' fail s') :
    wp (m >>= f) post' fail s :=
  wp_bind.mpr (wp_imp h hf)

/-- A loop whose rounds keep an invariant and establish what later rounds do not take back. -/
theorem wp_forM_each {xs : List alpha} {f : alpha -> Prog state error PUnit}
    {Inv : state -> Prop} {R : state -> state -> Prop} [Std.Refl R] [IsTrans state R]
    {done : alpha -> state -> Prop} (hstable : forall a s s', done a s -> R s s' -> done a s')
    (hround : forall a, a ∈ xs -> forall s, Inv s ->
      wp (f a) (fun _ s' => Inv s' ∧ R s s' ∧ done a s') fail s) (hs : Inv s) :
    wp (xs.forM f) (fun _ s' => Inv s' ∧ R s s' ∧ forall a, a ∈ xs -> done a s') fail s := by
  induction xs generalizing s with
  | nil => exact ⟨hs, refl s, by simp⟩
  | cons a rest ih =>
    refine wp_then (hround a (by simp) s hs) ?_
    rintro - mid ⟨hmid, hR, hdone⟩
    refine wp_imp (ih (fun b hb => hround b (by simp [hb])) hmid) ?_
    rintro - s' ⟨hs', hR', hrest⟩
    refine ⟨hs', IsTrans.trans _ _ _ hR hR', fun b hb => ?_⟩
    cases hb with
    | head => exact hstable a mid s' hdone hR'
    | tail _ hb => exact hrest b hb

theorem wp_and (h : wp m post fail s) (h' : wp m post' fail' s) :
    wp m (fun a s' => post a s' ∧ post' a s') (fun e s' => fail e s' ∧ fail' e s') s := by
  revert h h'
  unfold wp
  rcases exec m s with ⟨_ | a, s'⟩ <;> exact And.intro

theorem wp_exec (h : wp m post fail s) :
    (forall a s', exec m s = (.ok a, s') -> post a s') ∧
      forall e s', exec m s = (.error e, s') -> fail e s' := by
  unfold wp at h
  constructor
  · intro a s' hexec
    rwa [hexec] at h
  · intro e s' hexec
    rwa [hexec] at h

theorem exec_fst {r : Except error alpha}
    (h : wp m (fun a _ => .ok a = r) (fun e _ => .error e = r) s) : (exec m s).1 = r := by
  revert h
  unfold wp
  rcases exec m s with ⟨_ | a, s'⟩ <;> exact id

theorem exec_snd {p : state -> Prop} (h : wp m (fun _ => p) (fun _ => p) s) : p (exec m s).2 := by
  revert h
  unfold wp
  rcases exec m s with ⟨_ | a, s'⟩ <;> exact id

/-!
## Programs that return

Where a failure ends a run, only what holds after a normal return matters.
-/

/-- The postcondition holds whenever the program returns. -/
def Yields (m : Prog state error alpha) (s : state) (post : alpha -> state -> Prop) : Prop :=
  wp m post (fun _ _ => True) s

theorem yields_iff : Yields m s post <-> forall a s', exec m s = (.ok a, s') -> post a s' := by
  unfold Yields wp
  rcases exec m s with ⟨_ | a, s'⟩ <;> simp

theorem yields_exec : Yields m s (fun a s' => exec m s = (.ok a, s')) :=
  yields_iff.mpr (fun _ _ hexec => hexec)

/-- What holds on return and what holds on failure may be shown apart. -/
theorem Yields.wp (h : Yields m s post) (hfail : wp m (fun _ _ => True) fail s) :
    wp m post fail s := by
  revert h hfail
  unfold Yields Prog.wp
  rcases exec m s with ⟨_ | a, s'⟩
  · exact fun _ hfail => hfail
  · exact fun h _ => h

namespace Yields

variable {post' : alpha -> state -> Prop} {m : Prog state error alpha}

theorem mono (h : Yields m s post) (hpost : forall a s', post a s' -> post' a s') :
    Yields m s post' :=
  wp_mono h hpost (fun _ _ _ => trivial)

theorem and (h : Yields m s post) (h' : Yields m s post') :
    Yields m s (fun a s' => post a s' ∧ post' a s') := by
  rw [yields_iff] at h h' ⊢
  exact fun a s' hexec => ⟨h a s' hexec, h' a s' hexec⟩

protected theorem pure {a : alpha} (h : post a s) :
    Yields (pure a : Prog state error alpha) s post :=
  h

variable {e : error} {f : state -> Except error alpha} {xs : List beta} {acc : alpha}

protected theorem throw : Yields (throw e : Prog state error alpha) s post :=
  trivial

protected theorem modify {post : PUnit -> state -> Prop} {f : state -> state}
    (h : post ⟨⟩ (f s)) : Yields (modify f : Prog state error PUnit) s post :=
  h

theorem bind {f : alpha -> Prog state error beta} {post : beta -> state -> Prop}
    {mid : alpha -> state -> Prop} (hm : Yields m s mid)
    (hf : forall a s', mid a s' -> Yields (f a) s' post) : Yields (m >>= f) s post :=
  wp_bind.mpr (wp_mono hm hf (fun _ _ _ => trivial))

theorem read (h : forall a, f s = .ok a -> post a s) : Yields (Prog.read f) s post := by
  refine wp_read.mpr ?_
  cases hf : f s with
  | error e => trivial
  | ok a => exact h a hf

theorem read_bind {g : alpha -> Prog state error beta} {post : beta -> state -> Prop}
    (h : forall a, f s = .ok a -> Yields (g a) s post) :
    Yields (Prog.read f >>= g) s post := by
  have hread : Yields (Prog.read f) s (fun a s' => f s = .ok a ∧ s' = s) :=
    read (fun a hf => ⟨hf, rfl⟩)
  refine hread.bind ?_
  rintro a s' ⟨hf, rfl⟩
  exact h a hf

variable {c : Prop}

theorem ite [Decidable c] {m' : Prog state error alpha} (hthen : c -> Yields m s post)
    (helse : ¬ c -> Yields m' s post) :
    Yields (if c then m else m') s post := by
  split
  next h => exact hthen h
  next h => exact helse h

theorem refuse_bind [Decidable c] (h : ¬ c -> Yields m s post) :
    Yields (refuse c e >>= fun _ => m) s post := by
  unfold refuse
  by_cases hc : c
  · rw [if_pos hc]
    exact trivial
  · rw [if_neg hc]
    exact h hc

theorem onlyIf [Decidable c] {m : Prog state error Unit} {post : Unit -> state -> Prop}
    (hthen : c -> Yields m s post) (helse : ¬ c -> post () s) :
    Yields (Prog.onlyIf c m) s post :=
  ite hthen helse

/-- The invariant of a loop may speak of the rounds done so far. -/
theorem foldlM {f : alpha -> beta -> Prog state error alpha}
    {I : List beta -> alpha -> state -> Prop}
    (hround : forall front b acc s', I front acc s' -> b ∈ xs ->
      Yields (f acc b) s' (I (front ++ [b]))) {l : List beta} (h : I l acc s) :
    Yields (xs.foldlM f acc) s (I (l ++ xs)) := by
  induction xs generalizing s l acc with
  | nil =>
    rw [List.append_nil]
    exact h
  | cons b rest ih =>
    refine bind (hround l b acc s h (by simp)) (fun acc' s' hs' => ?_)
    have hrest := ih (fun front' c acc'' s'' hinv hc =>
      hround front' c acc'' s'' hinv (by simp [hc])) hs'
    rwa [List.append_assoc] at hrest

theorem foldlM_of_round {f : alpha -> beta -> Prog state error alpha}
    {Inv : alpha -> state -> Prop}
    (hround : forall b, b ∈ xs -> forall acc s', Inv acc s' -> Yields (f acc b) s' Inv)
    (h : Inv acc s) : Yields (xs.foldlM f acc) s Inv :=
  foldlM (I := fun _ => Inv) (fun _ b acc s' hs hb => hround b hb acc s' hs) (l := []) h

end Yields

/-!
## What a program keeps, returning or failing
-/

/-- The states before and after are related, whether the program fails or not. -/
def Keeps (R : state -> state -> Prop) (m : Prog state error alpha) : Prop :=
  forall s, wp m (fun _ => R s) (fun _ => R s) s

namespace Keeps

variable {R : state -> state -> Prop} {m : Prog state error alpha}

theorem yields (h : Keeps R m) (s : state) : Yields m s (fun _ => R s) :=
  wp_mono (h s) (fun _ _ hR => hR) (fun _ _ _ => trivial)

theorem imp {R' : state -> state -> Prop} (h : Keeps R m) (himp : forall s s', R s s' -> R' s s') :
    Keeps R' m :=
  fun s => wp_mono (h s) (fun _ => himp s) (fun _ => himp s)

protected theorem modify {f : state -> state} (h : forall s, R s (f s)) :
    Keeps R (modify f : Prog state error PUnit) :=
  h

section Refl

variable [Std.Refl R]

protected theorem pure (a : alpha) : Keeps R (pure a : Prog state error alpha) :=
  fun s => refl s

protected theorem throw (e : error) : Keeps R (throw e : Prog state error alpha) :=
  fun s => refl s

theorem read (f : state -> Except error alpha) : Keeps R (Prog.read f) := by
  intro s
  refine wp_read.mpr ?_
  cases f s with
  | error e => exact refl s
  | ok a => exact refl s

protected theorem liftExcept (x : Except error alpha) :
    Keeps R (liftExcept x : Prog state error alpha) := by
  cases x with
  | error e => exact Keeps.throw e
  | ok a => exact Keeps.pure a

variable {c : Prop}

theorem refuse [Decidable c] (e : error) : Keeps R (Prog.refuse c e : Prog state error Unit) := by
  unfold Prog.refuse
  split
  · exact Keeps.throw e
  · exact Keeps.pure ()

theorem onlyIf [Decidable c] {m : Prog state error Unit} (h : Keeps R m) :
    Keeps R (Prog.onlyIf c m) := by
  unfold Prog.onlyIf
  split
  · exact h
  · exact Keeps.pure ()

end Refl

theorem read_bind {f : state -> Except error alpha} {g : alpha -> Prog state error beta}
    [Std.Refl R] (h : forall s a, f s = .ok a -> wp (g a) (fun _ => R s) (fun _ => R s) s) :
    Keeps R (Prog.read f >>= g) := by
  intro s
  refine wp_bind.mpr (wp_read.mpr ?_)
  cases hf : f s with
  | error e => exact refl s
  | ok a => exact h s a hf

theorem bind [IsTrans state R] {f : alpha -> Prog state error beta} (hm : Keeps R m)
    (hf : forall a, Keeps R (f a)) : Keeps R (m >>= f) := by
  intro s
  refine wp_then (hm s) ?_
  intro a s' hs'
  exact wp_mono (hf a s') (fun _ s'' h => IsTrans.trans _ _ _ hs' h)
    (fun _ s'' h => IsTrans.trans _ _ _ hs' h)

theorem attempt (h : Keeps R m) : Keeps R (Prog.attempt m) :=
  fun s => wp_attempt.mpr (h s)

theorem ite {c : Prop} [Decidable c] {m' : Prog state error alpha} (hm : Keeps R m)
    (hm' : Keeps R m') : Keeps R (if c then m else m') := by
  split
  · exact hm
  · exact hm'

theorem forM [Std.Refl R] [IsTrans state R] {xs : List alpha}
    {f : alpha -> Prog state error PUnit} (h : forall a, Keeps R (f a)) :
    Keeps R (xs.forM f) := by
  induction xs with
  | nil => exact Keeps.pure _
  | cons a rest ih => exact (h a).bind (fun _ => ih)

theorem foldlM [Std.Refl R] [IsTrans state R] {xs : List beta}
    {f : alpha -> beta -> Prog state error alpha} (h : forall a b, Keeps R (f a b))
    (a : alpha) : Keeps R (xs.foldlM f a) := by
  induction xs generalizing a with
  | nil => exact Keeps.pure _
  | cons b rest ih =>
    exact (h a b).bind ih

end Keeps

/-!
## Programs that keep a property

What holds when the program fails is stated apart, since some failures may be the end of
all and others may have to keep the property too.
-/

/-- The property holds after the program, if it held before and the program returns. -/
def Maintains (Inv : state -> Prop) (fail : error -> state -> Prop)
    (m : Prog state error alpha) : Prop :=
  forall s, Inv s -> wp m (fun _ => Inv) fail s

namespace Maintains

variable {Inv : state -> Prop} {m : Prog state error alpha}

theorem bind {f : alpha -> Prog state error beta} (hm : Maintains Inv fail m)
    (hf : forall a, Maintains Inv fail (f a)) : Maintains Inv fail (m >>= f) :=
  fun s hs => wp_then (hm s hs) (fun a s' hs' => hf a s' hs')

protected theorem pure (a : alpha) : Maintains Inv fail (pure a : Prog state error alpha) :=
  fun _ hs => hs

protected theorem modify {f : state -> state} (h : forall s, Inv s -> Inv (f s)) :
    Maintains Inv fail (modify f : Prog state error PUnit) :=
  h

theorem get_bind {f : state -> Prog state error alpha}
    (h : forall s, Inv s -> wp (f s) (fun _ => Inv) fail s) :
    Maintains Inv fail (get >>= f) :=
  fun s hs => wp_bind.mpr (h s hs)

variable {c : Prop}

theorem onlyIf [Decidable c] {m : Prog state error Unit} (h : Maintains Inv fail m) :
    Maintains Inv fail (Prog.onlyIf c m) := by
  unfold Prog.onlyIf
  split
  · exact h
  · exact Maintains.pure ()

theorem ite [Decidable c] {m' : Prog state error alpha} (hthen : c -> Maintains Inv fail m)
    (helse : ¬ c -> Maintains Inv fail m') :
    Maintains Inv fail (if c then m else m') := by
  split
  next h => exact hthen h
  next h => exact helse h

theorem read {f : state -> Except error alpha}
    (h : forall s e, Inv s -> f s = .error e -> fail e s) :
    Maintains Inv fail (Prog.read f) := by
  intro s hs
  refine wp_read.mpr ?_
  cases hf : f s with
  | ok a => exact hs
  | error e => exact h s e hs hf

variable {f : alpha -> Prog state error PUnit}

theorem option_forM {o : Option alpha} (h : forall a, o = some a -> Maintains Inv fail (f a)) :
    Maintains Inv fail (o.forM f) := by
  cases o with
  | none => exact Maintains.pure _
  | some a => exact h a rfl

theorem forM {xs : List alpha} (h : forall a, a ∈ xs -> Maintains Inv fail (f a)) :
    Maintains Inv fail (xs.forM f) := by
  induction xs with
  | nil => exact Maintains.pure _
  | cons a rest ih => exact (h a (by simp)).bind (fun _ => ih (fun b hb => h b (by simp [hb])))

end Maintains

theorem Yields.forM {xs : List alpha} {f : alpha -> Prog state error PUnit} {Inv : state -> Prop}
    (hround : forall a, a ∈ xs -> forall s', Inv s' -> Yields (f a) s' (fun _ => Inv))
    (h : Inv s) : Yields (xs.forM f) s (fun _ => Inv) :=
  Maintains.forM hround s h

end Prog

end Base
end OpenNeon

import Mathlib.Tactic.Ring
import Mathlib.Data.List.Basic
import Mathlib.Data.List.Forall2
import Mathlib.Data.List.Pairwise
import Mathlib.Data.List.Perm.Basic

/-!
# Runs of a failing step function

A program that takes a list of calls one after another, where a call may fail,
is a monadic fold.  An invariant of single steps is an invariant of whole runs.
-/

namespace OpenNeon
namespace Base

open List

variable {alpha beta state error : Type}

variable {x : Except error alpha} {r : beta} {step : state -> alpha -> Except error state}
  {calls l : List alpha} {s s' : state}

theorem bind_eq_ok_iff {f : alpha -> Except error beta} :
    (x >>= f) = .ok r <-> exists a, x = .ok a ∧ f a = .ok r := by
  cases x with
  | error e => exact iff_of_false (fun h => by cases h) (fun h => by cases h.choose_spec.1)
  | ok a =>
    refine ⟨fun h => ⟨a, rfl, h⟩, ?_⟩
    rintro ⟨b, hb, hf⟩
    cases hb
    exact hf

theorem map_eq_ok_iff {f : alpha -> beta} : x.map f = .ok r <-> exists a, x = .ok a ∧ f a = r := by
  cases x with
  | error e => exact iff_of_false nofun (fun h => nomatch h.choose_spec.1)
  | ok a =>
    constructor
    · intro h
      cases h
      exact ⟨a, rfl, rfl⟩
    · rintro ⟨b, hb, rfl⟩
      cases hb
      rfl

theorem forall₂_of_mapM {f : alpha -> Except error beta} {ys : List beta}
    (h : l.mapM f = .ok ys) : List.Forall₂ (fun x y => f x = .ok y) l ys := by
  induction l generalizing ys with
  | nil =>
    cases h
    exact .nil
  | cons x xs ih =>
    rw [mapM_cons] at h
    obtain ⟨y, hy, hrest⟩ := bind_eq_ok_iff.mp h
    obtain ⟨ys', hys', hcons⟩ := bind_eq_ok_iff.mp hrest
    cases hcons
    exact .cons hy (ih hys')

theorem foldlM_invariant {Inv : state -> Prop}
    (hstep : forall s a s', Inv s -> step s a = .ok s' -> Inv s') (hs : Inv s)
    (hrun : calls.foldlM step s = .ok s') : Inv s' := by
  induction calls generalizing s with
  | nil =>
    cases hrun
    exact hs
  | cons a rest ih =>
    rw [foldlM_cons, bind_eq_ok_iff] at hrun
    rcases hrun with ⟨s1, hs1, hrest⟩
    exact ih (hstep s a s1 hs hs1) hrest

variable {a : alpha} {f : state -> alpha -> state}

theorem foldlM_taken (hrun : calls.foldlM step s = .ok s') (ha : a ∈ calls) :
    exists s1 s2, step s1 a = .ok s2 := by
  induction calls generalizing s with
  | nil => cases ha
  | cons b rest ih =>
    rw [foldlM_cons, bind_eq_ok_iff] at hrun
    rcases hrun with ⟨s1, hs1, hrest⟩
    rcases mem_cons.mp ha with rfl | ha
    · exact ⟨s, s1, hs1⟩
    · exact ih hrest ha

/-!
## Lists that grow at their end
-/

theorem forall_mem_concat {p : alpha -> Prop} (h : forall x, x ∈ l -> p x) (ha : p a) :
    forall x, x ∈ l ++ [a] -> p x :=
  forall_mem_append.mpr ⟨h, forall_mem_singleton.mpr ha⟩

theorem pairwise_concat {rel : alpha -> alpha -> Prop} (h : l.Pairwise rel)
    (ha : forall x, x ∈ l -> rel x a) : (l ++ [a]).Pairwise rel := by
  refine pairwise_append.mpr ⟨h, pairwise_singleton rel a, fun x hx y hy => ?_⟩
  rw [mem_singleton.mp hy]
  exact ha x hx

/-!
## Commuting steps

Steps that commute with all steps before them may be taken first.
-/

def Commutes (f : state -> alpha -> state) (a b : alpha) : Prop :=
  forall s, f (f s a) b = f (f s b) a

theorem Commutes.symm {b : alpha} (h : Commutes f a b) : Commutes f b a :=
  fun s => (h s).symm

instance (f : state -> alpha -> state) : Std.Symm (Commutes f) :=
  ⟨fun _ _ h => h.symm⟩

theorem foldl_commute (h : forall b, b ∈ l -> Commutes f a b) (s : state) :
    l.foldl f (f s a) = f (l.foldl f s) a := by
  induction l generalizing s with
  | nil => rfl
  | cons b rest ih =>
    have hb : f (f s a) b = f (f s b) a := h b (by simp) s
    rw [foldl_cons, hb, ih (fun x hx => h x (by simp [hx]))]
    rfl

theorem foldl_perm_of_commutes {l' : List alpha} (hl : l.Pairwise (Commutes f))
    (hperm : l.Perm l') (s : state) : l.foldl f s = l'.foldl f s := by
  exact hperm.foldl_eq' (fun x hx y hy => hl.forall_of_forall (fun _ _ _ => rfl) hx hy) s

end Base
end OpenNeon

import Mathlib.Data.List.TakeWhile
import OpenNeon.Base.Run
import OpenNeon.Utils.Lsn

/-!
# Term histories

The history of a log tells at which position each term began to write it.  The
histories of a proposer and a safekeeper are compared entry by entry to find
where their logs part.
-/

namespace OpenNeon
namespace Safekeeper

open List

abbrev Term := Nat

def INITIAL_TERM : Term := 0

structure TermLsn where
  term : Term
  lsn : Lsn
  deriving DecidableEq

abbrev TermHistory := List TermLsn

namespace TermHistory

/-- The history without the switches that happened strictly after a position. -/
def upTo (th : TermHistory) (lsn : Lsn) : TermHistory :=
  th.takeWhile (fun e => e.lsn ≤ lsn)

inductive Panic where
  | historyAboveWalEnd
  | differentStartLsns
  deriving DecidableEq

/-- The index of the last common entry, going through both histories. -/
def commonLoop : TermHistory -> TermHistory -> Nat -> Option Nat ->
    Except Panic (Option Nat)
  | p :: ps, s :: ss, i, lastCommonIdx =>
    if p.term ≠ s.term then .ok lastCommonIdx
    else if p.lsn ≠ s.lsn then .error .differentStartLsns
    else commonLoop ps ss (i + 1) (some i)
  | _, _, _, lastCommonIdx => .ok lastCommonIdx

section

variable (propTh skTh : TermHistory) (skWalEnd : Lsn)

/-- Where the last common term ends, at the proposer or at the safekeeper. -/
def commonTermEnd (idx : Nat) : Lsn :=
  match propTh[idx + 1]? with
  | none => skWalEnd
  | some propNext =>
    min propNext.lsn (match skTh[idx + 1]? with
      | some skNext => skNext.lsn
      | none => skWalEnd)

/-- The point that belongs to the index of the last common entry. -/
def commonPoint (lastCommonIdx : Option Nat) : Option TermLsn := do
  let idx <- lastCommonIdx
  let common <- propTh[idx]?
  return ⟨common.term, commonTermEnd propTh skTh skWalEnd idx⟩

/--
Where the log of the proposer and the log of the safekeeper part.  The log of the
proposer has no end, the log of the safekeeper ends at `skWalEnd`.
-/
def findHighestCommonPoint : Except Panic (Option TermLsn) :=
  if skTh.getLast?.any (fun last => skWalEnd < last.lsn) then .error .historyAboveWalEnd
  else (commonLoop propTh skTh 0 none).map (commonPoint propTh skTh skWalEnd)

end

/-!
## What the comparison finds
-/

/-- The histories agree in exactly so many entries from the beginning. -/
structure Common (p s : TermHistory) (n : Nat) : Prop where
  le_left : n ≤ p.length
  le_right : n ≤ s.length
  take_eq : p.take n = s.take n
  next_ne : forall a b, p[n]? = some a -> s[n]? = some b -> a.term ≠ b.term

/-- The histories agree in so many entries, and then give two starts for a term. -/
structure Differ (p s : TermHistory) (n : Nat) : Prop where
  take_eq : p.take n = s.take n
  next : exists a b, p[n]? = some a ∧ s[n]? = some b ∧ a.term = b.term ∧ a.lsn ≠ b.lsn

theorem Common.cons {p s : TermHistory} {n : Nat} (e : TermLsn) (hcommon : Common p s n) :
    Common (e :: p) (e :: s) (n + 1) where
  le_left := Nat.succ_le_succ hcommon.le_left
  le_right := Nat.succ_le_succ hcommon.le_right
  take_eq := by
    rw [take_succ_cons, take_succ_cons, hcommon.take_eq]
  next_ne := by
    intro a b ha hb
    exact hcommon.next_ne a b ha hb

theorem commonLoop_spec (p s : TermHistory) :
    forall (i : Nat) (last : Option Nat),
      match commonLoop p s i last with
      | .ok r => exists n, Common p s n ∧ r = if n = 0 then last else some (i + n - 1)
      | .error reason => reason = .differentStartLsns ∧ exists n, Differ p s n := by
  induction p generalizing s with
  | nil =>
    intro i last
    rw [commonLoop]
    · exact ⟨0, ⟨Nat.le_refl _, Nat.zero_le _, rfl, nofun⟩, rfl⟩
    · nofun
  | cons a p ih =>
    intro i last
    cases s with
    | nil =>
      rw [commonLoop]
      · exact ⟨0, ⟨Nat.zero_le _, Nat.le_refl _, rfl, nofun⟩, rfl⟩
      · nofun
    | cons b s =>
      simp only [commonLoop]
      by_cases hterm : a.term = b.term
      case neg =>
        rw [if_pos hterm]
        refine ⟨0, ⟨Nat.zero_le _, Nat.zero_le _, rfl, ?_⟩, rfl⟩
        intro a' b' ha hb
        cases ha
        cases hb
        exact hterm
      case pos =>
        rw [if_neg (not_not.mpr hterm)]
        by_cases hlsn : a.lsn = b.lsn
        case neg =>
          rw [if_pos hlsn]
          exact ⟨rfl, 0, rfl, a, b, rfl, rfl, hterm, hlsn⟩
        case pos =>
          rw [if_neg (not_not.mpr hlsn)]
          have hab : a = b := by
            cases b
            cases hterm
            cases hlsn
            rfl
          subst hab
          have hrest := ih s (i + 1) (some i)
          revert hrest
          cases commonLoop p s (i + 1) (some i) with
          | ok r =>
            rintro ⟨n, hcommon, rfl⟩
            refine ⟨n + 1, hcommon.cons a, ?_⟩
            split
            next hzero =>
              subst hzero
              rfl
            · congr 1
              omega
          | error reason =>
            rintro ⟨hreason, n, htake, a', b', ha', hb', hrest⟩
            refine ⟨hreason, n + 1, ?_, a', b', ?_, ?_, hrest⟩
            · rw [take_succ_cons, take_succ_cons, htake]
            · rw [getElem?_cons_succ, ha']
            · rw [getElem?_cons_succ, hb']

theorem findHighestCommonPoint_spec (propTh skTh : TermHistory) (skWalEnd : Lsn) :
    match findHighestCommonPoint propTh skTh skWalEnd with
    | .ok none => Common propTh skTh 0
    | .ok (some lcp) => exists n, Common propTh skTh (n + 1) ∧
        lcp.lsn = commonTermEnd propTh skTh skWalEnd n
    | .error .historyAboveWalEnd =>
      exists last, skTh.getLast? = some last ∧ skWalEnd < last.lsn
    | .error .differentStartLsns => exists n, Differ propTh skTh n := by
  have hloop := commonLoop_spec propTh skTh 0 none
  unfold findHighestCommonPoint
  by_cases habove : skTh.getLast?.any (fun last => skWalEnd < last.lsn) = true
  case pos =>
    rw [if_pos habove]
    rw [Option.any_eq_true] at habove
    rcases habove with ⟨last, hlast, hlt⟩
    exact ⟨last, hlast, of_decide_eq_true hlt⟩
  case neg =>
    rw [if_neg habove]
    revert hloop
    cases commonLoop propTh skTh 0 none with
    | error reason =>
      rintro ⟨rfl, hdiffer⟩
      exact hdiffer
    | ok r =>
      rintro ⟨n, hcommon, rfl⟩
      cases n with
      | zero => exact hcommon
      | succ n =>
        have hlt : n < propTh.length := hcommon.le_left
        have hget : propTh[n]? = some propTh[n] := getElem?_eq_getElem hlt
        have hpoint : commonPoint propTh skTh skWalEnd (some n) =
            some ⟨propTh[n].term, commonTermEnd propTh skTh skWalEnd n⟩ := by
          simp only [commonPoint, Option.bind_eq_bind, Option.bind_some, hget]
          rfl
        rw [if_neg (Nat.succ_ne_zero n), Nat.zero_add, Nat.add_sub_cancel, Except.map, hpoint]
        exact ⟨n, hcommon, rfl⟩

theorem commonTermEnd_le {p s : TermHistory} {walEnd : Lsn} {n : Nat}
    (hle : forall e, e ∈ s -> e.lsn ≤ walEnd) : commonTermEnd p s walEnd n ≤ walEnd := by
  unfold commonTermEnd
  cases p[n + 1]? with
  | none => exact Nat.le_refl _
  | some propNext =>
    cases hs : s[n + 1]? with
    | none => exact Nat.min_le_right _ _
    | some skNext =>
      exact Nat.le_trans (Nat.min_le_right _ _) (hle _ (mem_of_getElem? hs))

theorem lsn_le_of_mem_upTo {th : TermHistory} {lsn : Lsn} {e : TermLsn}
    (he : e ∈ th.upTo lsn) : e.lsn ≤ lsn := by
  have hle := mem_takeWhile_imp he
  exact of_decide_eq_true hle

end TermHistory

structure AcceptorState where
  term : Term
  termHistory : TermHistory
  deriving DecidableEq

def AcceptorState.getLastLogTerm (s : AcceptorState) (flushLsn : Lsn) : Term :=
  match (s.termHistory.upTo flushLsn).getLast? with
  | some e => e.term
  | none => 0

end Safekeeper
end OpenNeon

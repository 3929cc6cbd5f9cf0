import Mathlib.Order.Bounds.Basic
import OpenNeon.Safekeeper.TermHistory

/-!
# Where a proposer starts to stream

An elected proposer finds the start of its stream from the histories as the safekeeper
does, only with another test for its own term.  Both find the end of the part of the two
logs that was written in the same terms.
-/

namespace OpenNeon
namespace Safekeeper
namespace TermHistory

open List

/-- The common entries in `SendProposerElected`; nothing if its assertion fails. -/
def commonEntries : TermHistory -> TermHistory -> Option Nat
  | p :: ps, s :: ss =>
    if p.term ≠ s.term then some 0
    else if p.lsn ≠ s.lsn then none
    else (commonEntries ps ss).map (· + 1)
  | _, _ => some 0

/-- The start of the stream in `SendProposerElected`; nothing if an assertion fails. -/
def startStreamingAt (propTh : TermHistory) (propTerm : Term) (th : TermHistory)
    (flushLsn : Lsn) : Option Lsn := do
  match <- commonEntries propTh th with
  | 0 => propTh.head?.map TermLsn.lsn
  | idx + 1 =>
    let common <- propTh[idx]?
    if common.term = propTerm then return flushLsn
    let propNext <- propTh[idx + 1]?
    return min propNext.lsn (th[idx + 1]?.elim flushLsn TermLsn.lsn)

/-- The start of the stream for the safekeeper. -/
def commonPointOrFirst (propTh skTh : TermHistory) (skWalEnd : Lsn) : Except Panic (Option Lsn) :=
  (findHighestCommonPoint propTh skTh skWalEnd).map
    (fun lcp => (lcp <|> propTh.head?).map TermLsn.lsn)

/-!
## Histories of one system
-/

/-- Terms go up and positions do not go down. -/
structure Ordered (th : TermHistory) : Prop where
  terms : th.Pairwise (fun a b => a.term < b.term)
  lsns : th.Pairwise (fun a b => a.lsn ≤ b.lsn)

/-- A term of both histories began at one position and after the same entries. -/
def Compatible (p s : TermHistory) : Prop :=
  forall i j a b, p[i]? = some a -> s[j]? = some b -> a.term = b.term ->
    a.lsn = b.lsn ∧ p.take i = s.take j

def termAt (th : TermHistory) (lsn : Lsn) : Option Term :=
  (th.upTo lsn).getLast?.map TermLsn.term

/-- Both logs were written in the same terms up to a position. -/
def SameBelow (p s : TermHistory) (lsn : Lsn) : Prop :=
  forall x, x < lsn -> termAt p x = termAt s x

variable {p s th : TermHistory} {n k : Nat} {x flushLsn : Lsn}

theorem Ordered.of_lt (h : Ordered th) {i j : Nat} {a b : TermLsn} (ha : th[i]? = some a)
    (hb : th[j]? = some b) (hij : i < j) : a.term < b.term ∧ a.lsn ≤ b.lsn := by
  obtain ⟨hi, rfl⟩ := List.getElem?_eq_some_iff.mp ha
  obtain ⟨hj, rfl⟩ := List.getElem?_eq_some_iff.mp hb
  exact ⟨pairwise_iff_getElem.mp h.terms i j hi hj hij,
    pairwise_iff_getElem.mp h.lsns i j hi hj hij⟩

variable {e : TermLsn}

theorem Ordered.le_last (h : Ordered th) {last : TermLsn} (he : e ∈ th)
    (hlast : th.getLast? = some last) : e.lsn ≤ last.lsn := by
  obtain ⟨i, hi⟩ := List.mem_iff_getElem?.mp he
  rw [List.getLast?_eq_getElem?] at hlast
  have hlt := (List.getElem?_eq_some_iff.mp hi).1
  rcases Nat.lt_or_eq_of_le (Nat.le_sub_one_of_lt hlt) with hless | rfl
  · exact (h.of_lt hi hlast hless).2
  · cases hi.symm.trans hlast
    exact Nat.le_refl _

theorem compatible_iff : Compatible p s <->
    forall (i : Fin p.length) (j : Fin s.length), p[i].term = s[j].term ->
      p[i].lsn = s[j].lsn ∧ p.take i = s.take j := by
  constructor
  · intro h i j
    exact h i j _ _ (getElem?_eq_getElem i.2) (getElem?_eq_getElem j.2)
  · intro h i j a b ha hb
    obtain ⟨hi, rfl⟩ := List.getElem?_eq_some_iff.mp ha
    obtain ⟨hj, rfl⟩ := List.getElem?_eq_some_iff.mp hb
    exact h ⟨i, hi⟩ ⟨j, hj⟩

instance decidableCompatible (p s : TermHistory) : Decidable (Compatible p s) :=
  decidable_of_iff _ compatible_iff.symm

theorem Compatible.symm (h : Compatible p s) : Compatible s p := by
  intro i j a b ha hb hterm
  obtain ⟨hlsn, htake⟩ := h j i b a hb ha hterm.symm
  exact ⟨hlsn.symm, htake.symm⟩

section

variable (h : Common p s n)

include h

theorem Common.symm : Common s p n where
  le_left := h.le_right
  le_right := h.le_left
  take_eq := h.take_eq.symm
  next_ne := fun a b ha hb => (h.next_ne b a hb ha).symm

theorem Common.getElem?_eq (hk : k < n) : p[k]? = s[k]? := by
  have hget := congrArg (·[k]?) h.take_eq
  simpa [hk] using hget

theorem Common.le (h' : Common p s k) : k ≤ n := by
  by_contra hlt
  have hnp : n < p.length := by have := h'.le_left; omega
  have hget : p[n]? = some p[n] := getElem?_eq_getElem hnp
  exact h.next_ne _ _ hget ((h'.getElem?_eq (by omega)).symm.trans hget) rfl

theorem Common.unique (h' : Common p s k) : n = k :=
  Nat.le_antisymm (h'.le h) (h.le h')

theorem Common.lt_of_term_eq (hcompatible : Compatible p s) {i j : Nat}
    {a b : TermLsn} (ha : p[i]? = some a) (hb : s[j]? = some b) (hterm : a.term = b.term) :
    i < n := by
  obtain ⟨-, htake⟩ := hcompatible i j a b ha hb hterm
  have hip := (List.getElem?_eq_some_iff.mp ha).1
  have hjs := (List.getElem?_eq_some_iff.mp hb).1
  have hij : i = j := by
    have hlength := congrArg List.length htake
    simp only [List.length_take] at hlength
    omega
  subst hij
  by_contra hni
  rcases Nat.lt_or_eq_of_le (Nat.le_of_not_lt hni) with hlt | rfl
  · -- the entries after the common ones would be equal as well
    have hget := congrArg (·[n]?) htake
    simp only [List.getElem?_take, hlt] at hget
    have hn : p[n]? = some p[n] := List.getElem?_eq_getElem (by omega)
    exact h.next_ne _ _ hn (hget.symm.trans hn) rfl
  · exact h.next_ne a b ha hb hterm

end

theorem commonEntries_spec
    (h : forall (i : Nat) (a b : TermLsn), p[i]? = some a -> s[i]? = some b ->
      a.term = b.term -> a.lsn = b.lsn) :
    exists n, commonEntries p s = some n ∧ Common p s n := by
  induction p generalizing s with
  | nil => exact ⟨0, by simp [commonEntries], Nat.le_refl _, Nat.zero_le _, rfl, by simp⟩
  | cons a p ih =>
    cases s with
    | nil => exact ⟨0, by simp [commonEntries], Nat.zero_le _, Nat.le_refl _, rfl, by simp⟩
    | cons b s =>
      by_cases hterm : a.term = b.term
      · have hlsn := h 0 a b rfl rfl hterm
        have hab : a = b := by
          cases a
          simp_all
        subst hab
        obtain ⟨n, hn, hcommon⟩ := ih (fun i => h (i + 1))
        exact ⟨n + 1, by simp [commonEntries, hn], hcommon.cons a⟩
      · refine ⟨0, by simp [commonEntries, hterm], Nat.zero_le _, Nat.zero_le _, rfl, ?_⟩
        intro a' b' ha hb
        cases ha
        cases hb
        exact hterm

/-!
## The end of the common part
-/

theorem upTo_take (h : forall e, th[n]? = some e -> x < e.lsn) :
    th.upTo x = upTo (th.take n) x := by
  induction th generalizing n with
  | nil => rw [take_nil]
  | cons e th ih =>
    cases n with
    | zero => simp [upTo, h e rfl]
    | succ n =>
      have hrest := ih (n := n) (fun e' he' => h e' (by simpa using he'))
      unfold upTo at hrest ⊢
      rw [take_succ_cons, takeWhile_cons, takeWhile_cons, hrest]

theorem lt_length_upTo (h : Ordered th) (he : th[k]? = some e) (hx : e.lsn ≤ x) :
    k < (th.upTo x).length := by
  induction th generalizing k with
  | nil => simp at he
  | cons first th ih =>
    obtain ⟨hterms, hlsns⟩ := h
    rw [pairwise_cons] at hterms hlsns
    cases k with
    | zero =>
      cases he
      simp [upTo, hx]
    | succ k =>
      have hfirst : first.lsn ≤ x := Nat.le_trans (hlsns.1 e (mem_of_getElem? he)) hx
      have hrest := ih ⟨hterms.2, hlsns.2⟩ he
      unfold upTo at hrest ⊢
      simpa [hfirst] using hrest

theorem getElem?_of_termAt {t : Term} (h : termAt th x = some t) :
    exists i e, i + 1 = (th.upTo x).length ∧ th[i]? = some e ∧ e.term = t := by
  obtain ⟨e, he, hterm⟩ := Option.map_eq_some_iff.mp h
  rw [getLast?_eq_getElem?] at he
  obtain ⟨hlt, rfl⟩ := List.getElem?_eq_some_iff.mp he
  have hprefix : th.upTo x <+: th := takeWhile_prefix _
  exact ⟨_, _, Nat.sub_add_cancel (by omega), prefix_iff_getElem?.mp hprefix _ hlt, hterm⟩

theorem termAt_ne (hcommon : Common p s n) (hp : Ordered p) (hcompatible : Compatible p s)
    (he : p[n]? = some e) (hx : e.lsn ≤ x) : termAt p x ≠ termAt s x := by
  intro heq
  have hlt := lt_length_upTo hp he hx
  have hnil : p.upTo x ≠ [] := ne_nil_of_length_pos (by omega)
  obtain ⟨last, hlast⟩ : exists last, (p.upTo x).getLast? = some last :=
    ⟨_, getLast?_eq_some_getLast hnil⟩
  have hterm : termAt p x = some last.term := by simp [termAt, hlast]
  obtain ⟨i, a, hi, ha, haterm⟩ := getElem?_of_termAt hterm
  obtain ⟨j, b, -, hb, hbterm⟩ := getElem?_of_termAt (heq.symm.trans hterm)
  have hin := hcommon.lt_of_term_eq hcompatible ha hb (haterm.trans hbterm.symm)
  omega

theorem commonTermEnd_next (h : commonTermEnd p s flushLsn n < flushLsn) :
    exists e, (p[n + 1]? = some e ∨ s[n + 1]? = some e) ∧
      e.lsn = commonTermEnd p s flushLsn n := by
  unfold commonTermEnd at h ⊢
  cases hp : p[n + 1]? with
  | none =>
    rw [hp] at h
    exact absurd h (Nat.lt_irrefl _)
  | some a =>
    rw [hp] at h
    cases hs : s[n + 1]? with
    | none =>
      rw [hs] at h
      exact ⟨a, .inl rfl, (Nat.min_eq_left (Nat.le_of_lt (by simpa using h))).symm⟩
    | some b =>
      rcases Nat.le_total a.lsn b.lsn with hab | hab
      · exact ⟨a, .inl rfl, (Nat.min_eq_left hab).symm⟩
      · exact ⟨b, .inr rfl, (Nat.min_eq_right hab).symm⟩

theorem isGreatest_commonTermEnd (hcommon : Common p s (n + 1)) (hp : Ordered p)
    (hs : Ordered s) (hcompatible : Compatible p s)
    (hend : forall e, e ∈ s -> e.lsn ≤ flushLsn)
    (hown : p[n + 1]? = none -> forall e, s[n + 1]? = some e -> flushLsn ≤ e.lsn) :
    IsGreatest { lsn | lsn ≤ flushLsn ∧ SameBelow p s lsn } (commonTermEnd p s flushLsn n) := by
  have hle := commonTermEnd_le (p := p) (n := n) hend
  have hnextP : forall e, p[n + 1]? = some e -> commonTermEnd p s flushLsn n ≤ e.lsn := by
    intro e he
    simp [commonTermEnd, he]
  have hnextS : forall e, s[n + 1]? = some e -> commonTermEnd p s flushLsn n ≤ e.lsn := by
    intro e he
    cases hp : p[n + 1]? with
    | none => exact Nat.le_trans hle (hown hp e he)
    | some a => simp [commonTermEnd, hp, he]
  refine ⟨⟨hle, fun x hx => ?_⟩, fun lsn ⟨hlsn, hsame⟩ => ?_⟩
  · unfold termAt
    have htake := upTo_take fun e he => Nat.lt_of_lt_of_le hx (hnextS e he)
    rw [upTo_take (n := n + 1) (fun e he => Nat.lt_of_lt_of_le hx (hnextP e he)), htake,
      hcommon.take_eq]
  · by_contra hlt
    have hlt : commonTermEnd p s flushLsn n < lsn := Nat.lt_of_not_le hlt
    have heq := hsame _ hlt
    obtain ⟨e, he | he, hlsn⟩ := commonTermEnd_next (Nat.lt_of_lt_of_le hlt hlsn)
    · exact termAt_ne hcommon hp hcompatible he (Nat.le_of_eq hlsn) heq
    · exact termAt_ne hcommon.symm hs hcompatible.symm he (Nat.le_of_eq hlsn) heq.symm

/-!
## Both sides find it
-/

theorem term_eq_last_iff (h : Ordered p) {propTerm : Term} {common : TermLsn}
    (hlast : p.getLast?.map TermLsn.term = some propTerm) (hcommon : p[n]? = some common) :
    common.term = propTerm <-> p[n + 1]? = none := by
  obtain ⟨last, hget, rfl⟩ := Option.map_eq_some_iff.mp hlast
  rw [List.getLast?_eq_getElem?] at hget
  have hn := (List.getElem?_eq_some_iff.mp hcommon).1
  rw [getElem?_eq_none_iff]
  constructor
  · intro hterm
    by_contra hnext
    have hless := (h.of_lt hcommon hget (by omega)).1
    exact absurd hterm (Nat.ne_of_lt hless)
  · intro hnext
    rw [show p.length - 1 = n by omega, hcommon] at hget
    cases hget
    rfl

def startAt (p s : TermHistory) (flushLsn : Lsn) : Nat -> Option Lsn
  | 0 => p.head?.map TermLsn.lsn
  | n + 1 => some (commonTermEnd p s flushLsn n)

theorem startStreamingAt_eq (hp : Ordered p) {propTerm : Term}
    (hlast : p.getLast?.map TermLsn.term = some propTerm) (hcommon : Common p s n)
    (hn : commonEntries p s = some n) :
    startStreamingAt p propTerm s flushLsn = startAt p s flushLsn n := by
  unfold startStreamingAt
  rw [hn]
  cases n with
  | zero => rfl
  | succ n =>
    obtain ⟨common, hget⟩ : exists common, p[n]? = some common :=
      ⟨_, getElem?_eq_getElem hcommon.le_left⟩
    have hiff := term_eq_last_iff hp hlast hget
    cases hnext : p[n + 1]? with
    | none => simp [hget, startAt, commonTermEnd, hnext, hiff.mpr hnext]
    | some e =>
      have hne : common.term ≠ propTerm := by
        intro hterm
        rw [hiff.mp hterm] at hnext
        cases hnext
      cases hs : s[n + 1]? <;> simp [hget, startAt, commonTermEnd, hnext, hne, hs]

theorem commonPointOrFirst_eq (hcommon : Common p s n) (hcompatible : Compatible p s)
    (hend : forall e, e ∈ s -> e.lsn ≤ flushLsn) :
    commonPointOrFirst p s flushLsn = .ok (startAt p s flushLsn n) := by
  have hspec := findHighestCommonPoint_spec p s flushLsn
  unfold commonPointOrFirst
  cases hfind : findHighestCommonPoint p s flushLsn with
  | error reason =>
    rw [hfind] at hspec
    cases reason with
    | historyAboveWalEnd =>
      obtain ⟨last, hlast, hlt⟩ := hspec
      exact absurd (hend last (mem_of_getLast? hlast)) (Nat.not_le_of_lt hlt)
    | differentStartLsns =>
      obtain ⟨k, -, a, b, ha, hb, hterm, hlsn⟩ := hspec
      exact absurd (hcompatible k k a b ha hb hterm).1 hlsn
  | ok lcp =>
    rw [hfind] at hspec
    cases lcp with
    | none =>
      rw [hcommon.unique hspec]
      rfl
    | some lcp =>
      obtain ⟨k, hk, hlsn⟩ := hspec
      rw [hcommon.unique hk]
      simp [Except.map, startAt, hlsn]

theorem exists_common_term_iff (hcommon : Common p s n) (hcompatible : Compatible p s) :
    (exists term, term ∈ p.map TermLsn.term ∧ term ∈ s.map TermLsn.term) <-> n ≠ 0 := by
  constructor
  · rintro ⟨term, hp, hs⟩
    obtain ⟨a, ha, rfl⟩ := mem_map.mp hp
    obtain ⟨b, hb, hterm⟩ := mem_map.mp hs
    obtain ⟨i, hi⟩ := mem_iff_getElem?.mp ha
    obtain ⟨j, hj⟩ := mem_iff_getElem?.mp hb
    have hlt := hcommon.lt_of_term_eq hcompatible hi hj hterm.symm
    omega
  · intro hn
    have hlt : 0 < p.length := Nat.lt_of_lt_of_le (Nat.pos_of_ne_zero hn) hcommon.le_left
    have hp : p[0]? = some p[0] := getElem?_eq_getElem hlt
    have hs : s[0]? = some p[0] := (hcommon.getElem?_eq (by omega)).symm.trans hp
    exact ⟨_, mem_map_of_mem (mem_of_getElem? hp), mem_map_of_mem (mem_of_getElem? hs)⟩

/-- The proposer and the safekeeper find the same start, and it is the end of the part
that was written in the same terms, or the beginning if no term is common. -/
theorem startStreamingAt_isGreatest (propTh skTh : TermHistory) (propTerm : Term)
    (flushLsn : Lsn) (hprop : Ordered propTh)
    (hlast : propTh.getLast?.map TermLsn.term = some propTerm) (hsk : Ordered skTh)
    (hflush : forall e, skTh.getLast? = some e -> e.lsn ≤ flushLsn)
    (hcompatible : Compatible propTh skTh)
    (hown : propTerm ∈ skTh.map TermLsn.term ->
      forall e, e ∈ skTh -> propTerm < e.term -> e.lsn = flushLsn) :
    exists start, startStreamingAt propTh propTerm skTh flushLsn = some start ∧
      commonPointOrFirst propTh skTh flushLsn = .ok (some start) ∧
      if exists term, term ∈ propTh.map TermLsn.term ∧ term ∈ skTh.map TermLsn.term then
        IsGreatest { lsn | lsn ≤ flushLsn ∧ SameBelow propTh skTh lsn } start
      else propTh.head?.map TermLsn.lsn = some start := by
  have hend : forall e, e ∈ skTh -> e.lsn ≤ flushLsn := by
    intro e he
    have hlast := getLast?_eq_some_getLast (ne_nil_of_mem he)
    exact Nat.le_trans (hsk.le_last he hlast) (hflush _ hlast)
  obtain ⟨n, hn, hcommon⟩ := commonEntries_spec
    (fun i a b ha hb hterm => (hcompatible i i a b ha hb hterm).1)
  rw [startStreamingAt_eq hprop hlast hcommon hn, commonPointOrFirst_eq hcommon hcompatible hend]
  cases n with
  | zero =>
    obtain ⟨first, hfirst⟩ : exists first, propTh.head? = some first := by
      cases propTh with
      | nil => cases hlast
      | cons first rest => exact ⟨first, rfl⟩
    refine ⟨first.lsn, by simp [startAt, hfirst], by simp [startAt, hfirst], ?_⟩
    rw [if_neg (by rw [exists_common_term_iff hcommon hcompatible]; simp), hfirst]
    rfl
  | succ n =>
    refine ⟨_, rfl, rfl, ?_⟩
    rw [if_pos ((exists_common_term_iff hcommon hcompatible).mpr (Nat.succ_ne_zero n))]
    refine isGreatest_commonTermEnd hcommon hprop hsk hcompatible hend (fun hnone e he => ?_)
    -- the proposer's own term is the last common one
    obtain ⟨common, hget⟩ : exists common, propTh[n]? = some common :=
      ⟨_, getElem?_eq_getElem hcommon.le_left⟩
    have hterm := (term_eq_last_iff hprop hlast hget).mpr hnone
    have hskget := (hcommon.getElem?_eq (Nat.lt_succ_self n)).symm.trans hget
    have hmem : propTerm ∈ skTh.map TermLsn.term :=
      hterm ▸ mem_map_of_mem (mem_of_getElem? hskget)
    have hless : propTerm < e.term := hterm ▸ (hsk.of_lt hskget he (Nat.lt_succ_self n)).1
    exact Nat.le_of_eq (hown hmem e (mem_of_getElem? he) hless).symm

/-- A zero-length term of the proposer, and a term that only the safekeeper has. -/
theorem startStreamingAt_isGreatest_parted :
    startStreamingAt [⟨1, 10⟩, ⟨2, 20⟩, ⟨4, 40⟩, ⟨5, 40⟩] 5 [⟨1, 10⟩, ⟨2, 20⟩, ⟨3, 30⟩] 50 =
        some 30 ∧
      IsGreatest { lsn | lsn ≤ 50 ∧ SameBelow [⟨1, 10⟩, ⟨2, 20⟩, ⟨4, 40⟩, ⟨5, 40⟩]
        [⟨1, 10⟩, ⟨2, 20⟩, ⟨3, 30⟩] lsn } 30 := by
  obtain ⟨start, hstart, -, hgreatest⟩ := startStreamingAt_isGreatest
    [⟨1, 10⟩, ⟨2, 20⟩, ⟨4, 40⟩, ⟨5, 40⟩] [⟨1, 10⟩, ⟨2, 20⟩, ⟨3, 30⟩] 5 50
    ⟨by decide, by decide⟩ rfl ⟨by decide, by decide⟩ (by rintro e ⟨⟩; decide)
    (by decide) (by decide)
  have hthirty : startStreamingAt [⟨1, 10⟩, ⟨2, 20⟩, ⟨4, 40⟩, ⟨5, 40⟩] 5
      [⟨1, 10⟩, ⟨2, 20⟩, ⟨3, 30⟩] 50 = some 30 := by
    decide
  cases hstart.symm.trans hthirty
  exact ⟨hthirty, hgreatest⟩

/-- With a later term behind the proposer's own, the start is above the common part. -/
theorem startStreamingAt_above_common :
    Ordered [⟨1, 0⟩] ∧ Ordered [⟨1, 0⟩, ⟨2, 10⟩] ∧ Compatible [⟨1, 0⟩] [⟨1, 0⟩, ⟨2, 10⟩] ∧
      startStreamingAt [⟨1, 0⟩] 1 [⟨1, 0⟩, ⟨2, 10⟩] 20 = some 20 ∧
      ¬ SameBelow [⟨1, 0⟩] [⟨1, 0⟩, ⟨2, 10⟩] 20 := by
  refine ⟨⟨by decide, by decide⟩, ⟨by decide, by decide⟩, by decide, by decide, fun hsame => ?_⟩
  have hterm := hsame 10 (by decide)
  revert hterm
  decide

end TermHistory
end Safekeeper
end OpenNeon

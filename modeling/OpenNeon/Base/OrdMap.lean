import Mathlib.Tactic.Ring
import Mathlib.Algebra.BigOperators.Group.List.Basic
import Mathlib.Data.List.Sort
import Mathlib.Data.List.Pairwise

/-!
# Ordered maps

A finite map over a linear order, kept as a list of entries in strictly
increasing key order.  The order is a field of the structure, so every map that
can be built is sorted.  The queries are the ones an ordered tree answers: exact
lookup, the last entry at or below a key, and iteration over a key interval.
-/

namespace OpenNeon
namespace Base

open List

section AssociationLists

variable {alpha beta : Type} [BEq alpha] [LawfulBEq alpha] {t key : alpha}

theorem lookup_cons_ne (h : t ≠ key) (v : beta) (l : List (alpha × beta)) :
    ((key, v) :: l).lookup t = l.lookup t := by
  rw [lookup_cons, beq_false_of_ne h]

theorem lookup_filter_ne [DecidableEq alpha] (t key : alpha) (l : List (alpha × beta)) :
    (l.filter (fun e => e.1 ≠ key)).lookup t = if t = key then none else l.lookup t := by
  induction l with
  | nil => simp
  | cons e l ih =>
    obtain ⟨k, v⟩ := e
    by_cases hkey : k = key
    · subst hkey
      rw [filter_cons_of_neg (by simp), ih]
      split
      · rfl
      next hne => rw [lookup_cons_ne hne]
    · rw [filter_cons_of_pos (by simpa using hkey)]
      by_cases ht : t = k
      · subst ht
        simp [hkey]
      · rw [lookup_cons_ne ht, lookup_cons_ne ht, ih]

end AssociationLists

def SortedEntries {alpha beta : Type} [LT alpha] (l : List (alpha × beta)) : Prop :=
  l.Pairwise (fun a b => a.1 < b.1)

/-- A finite map whose entries are sorted by key. -/
structure OrdMap (alpha beta : Type) [LT alpha] where
  entries : List (alpha × beta)
  sorted : SortedEntries entries

namespace OrdMap

variable {alpha beta : Type} [LinearOrder alpha]

/-!
## Operations
-/

def empty : OrdMap alpha beta :=
  { entries := [], sorted := List.Pairwise.nil }

instance : Inhabited (OrdMap alpha beta) :=
  ⟨empty⟩

/-- Put one entry in its place, replacing an entry with the same key. -/
def insertEntry (k : alpha) (v : beta) :
    List (alpha × beta) -> List (alpha × beta)
  | [] => [(k, v)]
  | e :: rest =>
    if k < e.1 then (k, v) :: e :: rest
    else if e.1 < k then e :: insertEntry k v rest
    else (k, v) :: rest

variable {k : alpha} {v : beta} {l : List (alpha × beta)} {m : OrdMap alpha beta}

theorem mem_insertEntry (hl : SortedEntries l) {e : alpha × beta} :
    e ∈ insertEntry k v l <-> e = (k, v) ∨ (e ∈ l ∧ e.1 ≠ k) := by
  induction l with
  | nil => simp [insertEntry]
  | cons head rest ih =>
    have hhead : forall x, x ∈ rest -> head.1 < x.1 :=
      fun _ hx => rel_of_pairwise_cons hl hx
    have hrest : SortedEntries rest := List.Pairwise.of_cons hl
    unfold insertEntry
    split_ifs with hlt hgt
    · have hne : forall x, x ∈ head :: rest -> x.1 ≠ k := by
        exact forall_mem_cons.mpr ⟨ne_of_gt hlt, fun x hx => ne_of_gt (hlt.trans (hhead x hx))⟩
      rw [mem_cons]
      exact or_congr_right ⟨fun h => ⟨h, hne e h⟩, And.left⟩
    · have hne : head.1 ≠ k := ne_of_lt hgt
      rw [mem_cons, ih hrest, mem_cons]
      constructor
      · rintro (rfl | rfl | h)
        · exact Or.inr ⟨Or.inl rfl, hne⟩
        · exact Or.inl rfl
        · exact Or.inr ⟨Or.inr h.1, h.2⟩
      · rintro (rfl | ⟨rfl | h, hk⟩)
        · exact Or.inr (Or.inl rfl)
        · exact Or.inl rfl
        · exact Or.inr (Or.inr ⟨h, hk⟩)
    · have hk : k = head.1 := le_antisymm (not_lt.mp hgt) (not_lt.mp hlt)
      have hne : forall x, x ∈ rest -> x.1 ≠ k := by
        intro x hx
        rw [hk]
        exact ne_of_gt (hhead x hx)
      rw [mem_cons, mem_cons]
      constructor
      · rintro (h | h)
        · exact Or.inl h
        · exact Or.inr ⟨Or.inr h, hne e h⟩
      · rintro (h | ⟨rfl | h, hkey⟩)
        · exact Or.inl h
        · exact absurd hk.symm hkey
        · exact Or.inr h

theorem sorted_insertEntry (hl : SortedEntries l) (k : alpha) (v : beta) :
    SortedEntries (insertEntry k v l) := by
  induction l with
  | nil => simp [insertEntry, SortedEntries]
  | cons head rest ih =>
    have hhead : forall e, e ∈ rest -> head.1 < e.1 :=
      fun _ he => rel_of_pairwise_cons hl he
    have hrest : SortedEntries rest := List.Pairwise.of_cons hl
    unfold insertEntry
    split_ifs with hlt hgt
    · refine List.Pairwise.cons ?_ hl
      exact forall_mem_cons.mpr ⟨hlt, fun e he => hlt.trans (hhead e he)⟩
    · refine List.Pairwise.cons (fun e he => ?_) (ih hrest)
      rcases (mem_insertEntry hrest).mp he with rfl | he
      · exact hgt
      · exact hhead e he.1
    · have hk : k = head.1 := le_antisymm (not_lt.mp hgt) (not_lt.mp hlt)
      exact List.Pairwise.cons (by simpa [hk] using hhead) hrest

section

variable (m)

def insert (k : alpha) (v : beta) : OrdMap alpha beta :=
  { entries := insertEntry k v m.entries
    sorted := sorted_insertEntry m.sorted k v }

def filterKeys (p : alpha -> Bool) : OrdMap alpha beta :=
  { entries := m.entries.filter (fun e => p e.1)
    sorted := List.Pairwise.filter _ m.sorted }

def erase (k : alpha) : OrdMap alpha beta :=
  m.filterKeys (fun j => j ≠ k)

end

def map {gamma : Type} (m : OrdMap alpha beta) (f : beta -> gamma) : OrdMap alpha gamma :=
  { entries := m.entries.map (fun e => (e.1, f e.2))
    sorted := by
      unfold SortedEntries
      rw [pairwise_map]
      exact m.sorted }

section

variable (m)

def get? (k : alpha) : Option beta :=
  (m.entries.find? (fun e => e.1 = k)).map Prod.snd

def last? : Option (alpha × beta) :=
  m.entries.getLast?

/-- The entry with the largest key at or below `k`. -/
def floor? (k : alpha) : Option (alpha × beta) :=
  (m.filterKeys (fun j => j ≤ k)).last?

def range (lo hi : alpha) : List (alpha × beta) :=
  (m.filterKeys (fun j => lo ≤ j ∧ j < hi)).entries

end

/-!
## Exact lookup

Lookup agrees with membership in the entry list.  Two maps with the same
lookups are equal, so the laws below are all stated on `get?`.
-/

theorem eq_of_mem {a b : alpha × beta} (ha : a ∈ m.entries) (hb : b ∈ m.entries)
    (hk : a.1 = b.1) : a = b := by
  have hsymm : Std.Symm (fun x y : alpha × beta => x.1 = y.1 -> x = y) :=
    ⟨fun _ _ h hxy => (h hxy.symm).symm⟩
  have hpair : m.entries.Pairwise (fun x y => x.1 = y.1 -> x = y) :=
    m.sorted.imp (fun hlt heq => absurd heq (ne_of_lt hlt))
  exact List.Pairwise.forall_of_forall (fun _ _ _ => rfl) hpair ha hb hk

theorem get?_eq_some_iff : m.get? k = some v <-> (k, v) ∈ m.entries := by
  unfold get?
  constructor
  · intro h
    rcases Option.map_eq_some_iff.mp h with ⟨e, hfind, hv⟩
    have hmem := mem_of_find?_eq_some hfind
    have hkey : e.1 = k := by simpa using find?_some hfind
    rwa [← hkey, ← hv]
  · intro h
    cases hfind : m.entries.find? (fun e => decide (e.1 = k)) with
    | none =>
      have := find?_eq_none.mp hfind (k, v) h
      simp at this
    | some e =>
      have hmem := mem_of_find?_eq_some hfind
      have hkey : e.1 = k := by simpa using find?_some hfind
      have heq : e = (k, v) := eq_of_mem hmem h hkey
      simp [heq]

theorem get?_eq_none_iff : m.get? k = none <-> forall v, (k, v) ∉ m.entries := by
  simp [Option.eq_none_iff_forall_ne_some, get?_eq_some_iff]

theorem nodup_entries (m : OrdMap alpha beta) : m.entries.Nodup :=
  m.sorted.imp (fun hlt heq => absurd (congrArg Prod.fst heq) (ne_of_lt hlt))

theorem ext_get? {n : OrdMap alpha beta} (h : forall k, m.get? k = n.get? k) : m = n := by
  have hmem : forall e, e ∈ m.entries <-> e ∈ n.entries := by
    intro e
    rw [← get?_eq_some_iff, ← get?_eq_some_iff, h]
  have hperm : m.entries.Perm n.entries :=
    (perm_ext_iff_of_nodup (nodup_entries m) (nodup_entries n)).mpr hmem
  have hentries : m.entries = n.entries :=
    hperm.eq_of_pairwise (fun a b _ _ hab hba => absurd hab (lt_asymm hba)) m.sorted n.sorted
  cases m
  simp only at hentries
  simp [hentries]

@[simp] theorem get?_empty (k : alpha) : (empty : OrdMap alpha beta).get? k = none := rfl

theorem get?_insert (m : OrdMap alpha beta) (k : alpha) (v : beta) (j : alpha) :
    (m.insert k v).get? j = if j = k then some v else m.get? j := by
  apply Option.ext
  intro w
  rw [get?_eq_some_iff]
  change (j, w) ∈ insertEntry k v m.entries <-> _
  rw [mem_insertEntry m.sorted]
  split_ifs with hjk
  · simp [hjk, eq_comm]
  · simp [hjk, get?_eq_some_iff]

theorem get?_of_insert {j : alpha} {w : beta} (h : (m.insert k v).get? j = some w) :
    j = k ∧ v = w ∨ m.get? j = some w := by
  rw [get?_insert] at h
  split_ifs at h with hjk
  · exact .inl ⟨hjk, Option.some.inj h⟩
  · exact .inr h

section

variable (m)

@[simp] theorem get?_insert_self (k : alpha) (v : beta) : (m.insert k v).get? k = some v := by
  simp [get?_insert]

theorem get?_filterKeys (p : alpha -> Bool) (j : alpha) :
    (m.filterKeys p).get? j = if p j then m.get? j else none := by
  apply Option.ext
  intro w
  rw [get?_eq_some_iff]
  change (j, w) ∈ m.entries.filter (fun e => p e.1) <-> _
  split_ifs with hp
  · simp [hp, get?_eq_some_iff]
  · simp [hp]

theorem get?_erase (k j : alpha) : (m.erase k).get? j = if j = k then none else m.get? j := by
  unfold erase
  rw [get?_filterKeys]
  by_cases hjk : j = k <;> simp [hjk]

end

theorem get?_of_erase {j : alpha} {w : beta} (h : (m.erase k).get? j = some w) :
    j ≠ k ∧ m.get? j = some w := by
  rw [get?_erase] at h
  split_ifs at h with hjk
  exact ⟨hjk, h⟩

theorem get?_map {gamma : Type} (m : OrdMap alpha beta) (f : beta -> gamma) (k : alpha) :
    (m.map f).get? k = (m.get? k).map f := by
  unfold get? map
  rw [find?_map, Option.map_map, Option.map_map]
  rfl

theorem get?_foldl_insert (m : OrdMap alpha beta) (ks : List alpha) (v : beta) (j : alpha) :
    (ks.foldl (fun n k => n.insert k v) m).get? j =
      if j ∈ ks then some v else m.get? j := by
  induction ks generalizing m with
  | nil => simp
  | cons k rest ih =>
    rw [foldl_cons, ih, get?_insert]
    by_cases hrest : j ∈ rest
    · simp [hrest]
    · by_cases hjk : j = k <;> simp [hjk]

theorem get?_foldl_erase (m : OrdMap alpha beta) (ks : List alpha) (j : alpha) :
    (ks.foldl (fun n k => n.erase k) m).get? j =
      if j ∈ ks then none else m.get? j := by
  induction ks generalizing m with
  | nil => simp
  | cons k rest ih =>
    rw [foldl_cons, ih, get?_erase]
    by_cases hrest : j ∈ rest
    · simp [hrest]
    · by_cases hjk : j = k <;> simp [hjk]

theorem insert_of_get? (h : m.get? k = some v) : m.insert k v = m := by
  apply ext_get?
  intro j
  rw [get?_insert]
  split
  next heq => rw [heq, h]
  · rfl

/-!
## Sums over the values
-/

section

variable (m)

def total (f : beta -> Nat) : Nat :=
  (m.entries.map (fun e => f e.2)).sum

theorem nodup_keys : (m.entries.map Prod.fst).Nodup :=
  pairwise_map.mpr (m.sorted.imp (fun hlt => ne_of_lt hlt))

theorem perm_insert (k : alpha) (v : beta) :
    (m.insert k v).entries.Perm ((k, v) :: (m.erase k).entries) := by
  have hnew : (k, v) ∉ (m.erase k).entries := by
    intro hmem
    have hget := get?_eq_some_iff.mpr hmem
    rw [get?_erase, if_pos rfl] at hget
    cases hget
  refine (perm_ext_iff_of_nodup (nodup_entries _) (nodup_cons.mpr ⟨hnew, nodup_entries _⟩)).mpr ?_
  rintro ⟨j, w⟩
  rw [mem_cons, ← get?_eq_some_iff, ← get?_eq_some_iff, get?_insert, get?_erase]
  by_cases hjk : j = k
  · simp [hjk, eq_comm]
  · simp [hjk]

theorem total_insert (k : alpha) (v : beta) (f : beta -> Nat) :
    (m.insert k v).total f = (m.erase k).total f + f v := by
  unfold total
  rw [((perm_insert m k v).map _).sum_eq, map_cons, sum_cons, Nat.add_comm]

end

theorem total_of_get? (h : m.get? k = some v) (f : beta -> Nat) :
    m.total f = (m.erase k).total f + f v := by
  conv => lhs; rw [← insert_of_get? h]
  exact total_insert m k v f

theorem total_map {gamma : Type} (m : OrdMap alpha beta) (g : beta -> gamma)
    (f : gamma -> Nat) : (m.map g).total f = m.total (fun v => f (g v)) := by
  unfold total map
  rw [map_map]
  rfl

theorem total_congr {f g : beta -> Nat} (h : forall k v, m.get? k = some v -> f v = g v) :
    m.total f = m.total g := by
  unfold total
  congr 1
  exact map_congr_left (fun e he => h e.1 e.2 (get?_eq_some_iff.mpr he))

theorem total_eq_zero {f : beta -> Nat} (h : forall k v, m.get? k = some v -> f v = 0) :
    m.total f = 0 := by
  refine sum_eq_zero (forall_mem_map.mpr fun e he => ?_)
  exact h e.1 e.2 (get?_eq_some_iff.mpr he)

/-!
## Last and floor entries
-/

theorem last?_eq_some_iff :
    m.last? = some (k, v) <->
      m.get? k = some v ∧ forall j w, m.get? j = some w -> j ≤ k := by
  have hlast : forall e, m.entries.getLast? = some e ->
      forall x, x ∈ m.entries -> x.1 ≤ e.1 := by
    intro e he x hx
    rcases getLast?_eq_some_iff.mp he with ⟨front, hfront⟩
    have hsorted := m.sorted
    rw [hfront] at hsorted hx
    rcases mem_append.mp hx with hx | hx
    · exact le_of_lt ((pairwise_append.mp hsorted).2.2 x hx e (by simp))
    · rw [mem_singleton.mp hx]
  unfold last?
  simp only [get?_eq_some_iff]
  constructor
  · intro h
    exact ⟨mem_of_getLast? h, fun j w hj => hlast _ h (j, w) hj⟩
  · rintro ⟨hmem, hmax⟩
    cases he : m.entries.getLast? with
    | none =>
      rw [getLast?_eq_none_iff.mp he] at hmem
      cases hmem
    | some e =>
      have hle : e.1 ≤ k := hmax e.1 e.2 (mem_of_getLast? he)
      have hge : k ≤ e.1 := hlast e he (k, v) hmem
      rw [eq_of_mem (mem_of_getLast? he) hmem (le_antisymm hle hge)]

theorem last?_eq_none_iff : m.last? = none <-> forall k, m.get? k = none := by
  simp [last?, get?_eq_none_iff, eq_nil_iff_forall_not_mem]

theorem floor?_eq_some_iff {j : alpha} :
    m.floor? k = some (j, v) <->
      j ≤ k ∧ m.get? j = some v ∧ forall i, j < i -> i ≤ k -> m.get? i = none := by
  unfold floor?
  rw [last?_eq_some_iff]
  simp only [get?_filterKeys, decide_eq_true_eq, Option.ite_none_right_eq_some]
  constructor
  · rintro ⟨⟨hjk, hget⟩, hmax⟩
    refine ⟨hjk, hget, fun i hji hik => Option.eq_none_iff_forall_ne_some.mpr fun w hi => ?_⟩
    exact absurd hji (not_lt.mpr (hmax i w ⟨hik, hi⟩))
  · rintro ⟨hjk, hget, hgap⟩
    refine ⟨⟨hjk, hget⟩, fun i w hi => ?_⟩
    by_contra hcon
    rw [hgap i (not_le.mp hcon) hi.1] at hi
    cases hi.2

theorem floor?_eq_none_iff : m.floor? k = none <-> forall i, i ≤ k -> m.get? i = none := by
  simp [floor?, last?_eq_none_iff, get?_filterKeys]

theorem le_floor? {i j : alpha} {w : beta} (h : m.floor? k = some (j, v))
    (hi : m.get? i = some w) (hik : i ≤ k) : i ≤ j := by
  by_contra hlt
  rw [(floor?_eq_some_iff.mp h).2.2 i (not_le.mp hlt) hik] at hi
  cases hi

theorem floor?_self (h : m.get? k = some v) : m.floor? k = some (k, v) :=
  floor?_eq_some_iff.mpr ⟨le_refl k, h, fun _ hki hik => absurd hki (not_lt.mpr hik)⟩

theorem floor?_eq_of_gap {j : alpha} (hjk : j ≤ k)
    (hgap : forall i, j < i -> i ≤ k -> m.get? i = none) : m.floor? k = m.floor? j := by
  cases hj : m.floor? j with
  | none =>
    have hnone := floor?_eq_none_iff.mp hj
    exact floor?_eq_none_iff.mpr (fun i hik => (le_or_gt i j).elim (hnone i) (hgap i · hik))
  | some e =>
    obtain ⟨hej, hget, hbetween⟩ := floor?_eq_some_iff.mp hj
    exact floor?_eq_some_iff.mpr ⟨hej.trans hjk, hget,
      fun i hei hik => (le_or_gt i j).elim (hbetween i hei) (hgap i · hik)⟩

theorem last?_insert_of_le (h : forall j w, m.get? j = some w -> j ≤ k) :
    (m.insert k v).last? = some (k, v) := by
  rw [last?_eq_some_iff]
  refine ⟨get?_insert_self m k v, ?_⟩
  intro j w hj
  rcases get?_of_insert hj with ⟨rfl, -⟩ | hj
  · exact le_refl j
  · exact h j w hj

/-!
## Iteration over an interval
-/

theorem mem_range_iff {lo hi : alpha} :
    (k, v) ∈ m.range lo hi <-> lo ≤ k ∧ k < hi ∧ m.get? k = some v := by
  unfold range
  rw [← get?_eq_some_iff, get?_filterKeys]
  simp [and_assoc]

theorem sorted_range (m : OrdMap alpha beta) (lo hi : alpha) : SortedEntries (m.range lo hi) :=
  (m.filterKeys (fun j => lo ≤ j ∧ j < hi)).sorted

theorem entries_eq_append (m : OrdMap alpha beta) {p q : alpha -> Bool}
    (hdown : forall a b, a < b -> p b = true -> p a = true)
    (hq : forall e, e ∈ m.entries -> q e.1 = !p e.1) :
    m.entries = (m.filterKeys p).entries ++ (m.filterKeys q).entries := by
  rcases m with ⟨l, hl⟩
  simp only [filterKeys] at hq ⊢
  induction l with
  | nil => rfl
  | cons head rest ih =>
    have hhead : forall e, e ∈ rest -> head.1 < e.1 :=
      fun _ he => rel_of_pairwise_cons hl he
    have hqhead : q head.1 = !p head.1 := hq head (by simp)
    have hqrest : forall e, e ∈ rest -> q e.1 = !p e.1 :=
      fun e he => hq e (by simp [he])
    have htail := ih (List.Pairwise.of_cons hl) hqrest
    cases hp : p head.1 with
    | true =>
      simpa [filter_cons, hp, hqhead] using htail
    | false =>
      have hnone : rest.filter (fun e => p e.1) = [] := by
        rw [filter_eq_nil_iff]
        intro e he hpe
        rw [hdown _ _ (hhead e he) hpe] at hp
        cases hp
      simpa [filter_cons, hp, hqhead, hnone] using htail

end OrdMap
end Base
end OpenNeon

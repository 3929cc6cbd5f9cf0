import OpenNeon.Base.OrdMap
import OpenNeon.Utils.Lsn

/-!
# Coverage of the key space

A coverage answers which of the inserted layers reaches highest at a key.  It
keeps a node at every key where the answer changes: the node holds the layer
that is on top from its key up to the next node, with the end of the layer's LSN
range as its height.  Layers are inserted in order of their start LSN.
-/

namespace OpenNeon
namespace Pageserver

open Base OrdMap List OrdMap

/-- The nodes where the coverage changes, in key order. -/
structure LayerCoverage (Value : Type) where
  nodes : OrdMap Int (Option (Lsn × Value))

namespace LayerCoverage

variable {Value : Type}

def new : LayerCoverage Value :=
  { nodes := OrdMap.empty }

def addNode (c : LayerCoverage Value) (key : Int) : LayerCoverage Value :=
  let value :=
    match c.nodes.floor? key with
    | some (_, some v) => some v
    | some (_, none) => none
    | none => none
  { nodes := c.nodes.insert key value }

/-- A layer that ends at `lsnEnd` rises above the node. -/
def needsCover (lsnEnd : Lsn) : Option (Lsn × Value) -> Bool
  | none => true
  | some (h, _) => decide (h < lsnEnd)

/-- The loop of `insert`: the nodes to raise and the nodes to remove. -/
def coverLoop (lsnEnd : Lsn) :
    List (Int × Option (Lsn × Value)) -> Bool -> List Int × List Int
  | [], _ => ([], [])
  | (k, node) :: rest, prevCovered =>
    let needs := needsCover lsnEnd node
    let tail := coverLoop lsnEnd rest needs
    if needs then
      if prevCovered then (tail.1, k :: tail.2)
      else (k :: tail.1, tail.2)
    else tail

def insert (c : LayerCoverage Value) (key : Range Int) (lsn : Range Lsn)
    (value : Value) : LayerCoverage Value :=
  let c := (c.addNode key.start).addNode key.stop
  let loop := coverLoop lsn.stop (c.nodes.range key.start key.stop) false
  let nodes :=
    loop.1.foldl (fun m k => m.insert k (some (lsn.stop, value))) c.nodes
  { nodes := loop.2.foldl (fun m k => m.erase k) nodes }

def query (c : LayerCoverage Value) (key : Int) : Option Value :=
  match c.nodes.floor? key with
  | some (_, node) => node.map Prod.snd
  | none => none

def range (c : LayerCoverage Value) (key : Range Int) : List (Int × Option Value) :=
  (c.nodes.range key.start key.stop).map (fun e => (e.1, e.2.map Prod.snd))

def rangeOverlaps [DecidableEq Value] (c : LayerCoverage Value)
    (keyRange : Range Int) : List (Int × Option Value) :=
  match c.query keyRange.start with
  | some change =>
    let rangeCoverage :=
      match c.range keyRange with
      | [] => []
      | first :: rest =>
        if first.2 = some change then rest else first :: rest
    (keyRange.start, some change) :: rangeCoverage
  | none => c.range keyRange

/-!
## What a coverage means

The height and layer that a coverage gives a key is the content of the node at
or below it.  Adding a node leaves this meaning as it is.
-/

def topAt (c : LayerCoverage Value) (key : Int) : Option (Lsn × Value) :=
  (c.nodes.floor? key).bind Prod.snd

@[simp] theorem topAt_new (key : Int) : (new : LayerCoverage Value).topAt key = none := rfl

theorem query_eq_topAt (c : LayerCoverage Value) (key : Int) :
    c.query key = (c.topAt key).map Prod.snd := by
  unfold query topAt
  cases c.nodes.floor? key with
  | none => rfl
  | some e => rfl

theorem addNode_nodes (c : LayerCoverage Value) (key : Int) :
    (c.addNode key).nodes = c.nodes.insert key (c.topAt key) := by
  unfold addNode topAt
  cases c.nodes.floor? key with
  | none => rfl
  | some e =>
    cases e with
    | mk k node => cases node <;> rfl

variable {c : LayerCoverage Value} {k i : Int} {node : Option (Lsn × Value)} {lsnEnd : Lsn}
  {key r : Range Int} {lsn : Range Lsn} {value v : Option Value}
  {l : List (Int × Option Value)} {f : Int -> Option Value}

theorem topAt_of_floor? {key : Int} (h : c.nodes.floor? key = some (k, node)) :
    c.topAt key = node := by
  simp [topAt, h]

section

variable (c)

theorem topAt_addNode (j key : Int) : (c.addNode j).topAt key = c.topAt key := by
  unfold topAt
  rw [addNode_nodes]
  by_cases hj : j ≤ key ∧ forall i, j < i -> i ≤ key -> c.nodes.get? i = none
  · -- the new node takes over from the one below it, with the same content
    have hgap : forall i, j < i -> i ≤ key -> (c.nodes.insert j (c.topAt j)).get? i = none := by
      intro i hji hik
      rw [get?_insert, if_neg (ne_of_gt hji)]
      exact hj.2 i hji hik
    rw [floor?_eq_of_gap hj.1 hgap, floor?_self (get?_insert_self _ _ _),
      floor?_eq_of_gap hj.1 hj.2]
    rfl
  · suffices hsame : (c.nodes.insert j (c.topAt j)).floor? key = c.nodes.floor? key by rw [hsame]
    cases hfloor : c.nodes.floor? key with
    | none =>
      have hnone := floor?_eq_none_iff.mp hfloor
      refine floor?_eq_none_iff.mpr (fun i hik => ?_)
      rw [get?_insert, if_neg (by rintro rfl; exact hj ⟨hik, fun x _ => hnone x⟩)]
      exact hnone i hik
    | some e =>
      obtain ⟨hek, hget, hgap⟩ := floor?_eq_some_iff.mp hfloor
      have hne : forall i, e.1 ≤ i -> i ≤ key -> i ≠ j := by
        rintro i hei hik rfl
        exact hj ⟨hik, fun x hix => hgap x (lt_of_le_of_lt hei hix)⟩
      refine floor?_eq_some_iff.mpr ⟨hek, ?_, fun i hei hik => ?_⟩
      · rw [get?_insert, if_neg (hne _ (le_refl _) hek)]
        exact hget
      · rw [get?_insert, if_neg (hne i (le_of_lt hei) hik)]
        exact hgap i hei hik

/-!
## The covering loop

The loop visits the nodes of the layer's key range.  A maximal run of nodes
that the layer rises above is replaced by one node at the start of the run: its
first node is raised, the others are removed.
-/

theorem mem_coverLoop_cons {j : Int} {rest : List (Int × Option (Lsn × Value))} (prev : Bool) :
    (i ∈ (coverLoop lsnEnd rest (needsCover lsnEnd node)).1 ->
      i ∈ (coverLoop lsnEnd ((j, node) :: rest) prev).1) ∧
    (i ∈ (coverLoop lsnEnd rest (needsCover lsnEnd node)).2 ->
      i ∈ (coverLoop lsnEnd ((j, node) :: rest) prev).2) := by
  cases hneeds : needsCover lsnEnd node <;> cases prev <;> simp [coverLoop, hneeds] <;> tauto

theorem coverLoop_mem_iff {l : List (Int × Option (Lsn × Value))} (prev : Bool) :
    k ∈ (coverLoop lsnEnd l prev).1 ∨ k ∈ (coverLoop lsnEnd l prev).2 <->
      exists node, (k, node) ∈ l ∧ needsCover lsnEnd node = true := by
  induction l generalizing prev with
  | nil => simp [coverLoop]
  | cons head rest ih =>
    rcases head with ⟨j, node⟩
    have htail := ih (needsCover lsnEnd node)
    have hcons : (exists n, (k, n) ∈ (j, node) :: rest ∧ needsCover lsnEnd n = true) <->
        (k = j ∧ needsCover lsnEnd node = true) ∨
          exists n, (k, n) ∈ rest ∧ needsCover lsnEnd n = true := by
      simp [or_and_right, exists_or, and_assoc]
    rw [hcons, ← htail]
    cases hneeds : needsCover lsnEnd node with
    | false => simp [coverLoop, hneeds]
    | true =>
      cases prev with
      | false =>
        simp only [coverLoop, hneeds, if_true, and_true, Bool.false_eq_true, if_false, mem_cons]
        rw [or_assoc]
      | true =>
        simp only [coverLoop, hneeds, if_true, and_true, mem_cons]
        rw [or_left_comm]

theorem coverLoop_disjoint {l : List (Int × Option (Lsn × Value))} (hl : SortedEntries l)
    {prev : Bool} (h : k ∈ (coverLoop lsnEnd l prev).1) :
    k ∉ (coverLoop lsnEnd l prev).2 := by
  induction l generalizing prev with
  | nil => simp [coverLoop] at h
  | cons head rest ih =>
    rcases head with ⟨j, node⟩
    have hrest : SortedEntries rest := List.Pairwise.of_cons hl
    have hhead : forall i,
        i ∈ (coverLoop lsnEnd rest (needsCover lsnEnd node)).1 ∨
          i ∈ (coverLoop lsnEnd rest (needsCover lsnEnd node)).2 -> j < i := by
      intro i hi
      rcases (coverLoop_mem_iff _).mp hi with ⟨n, hmem, _⟩
      exact rel_of_pairwise_cons hl hmem
    cases hneeds : needsCover lsnEnd node with
    | false =>
      simp only [coverLoop, hneeds] at h ⊢
      exact ih hrest h
    | true =>
      rw [hneeds] at hhead
      cases prev with
      | false =>
        simp only [coverLoop, hneeds, if_true, Bool.false_eq_true, if_false, mem_cons] at h ⊢
        rcases h with rfl | h
        · intro hk
          exact absurd (hhead k (Or.inr hk)) (lt_irrefl k)
        · exact ih hrest h
      | true =>
        simp only [coverLoop, hneeds, if_true, mem_cons] at h ⊢
        intro hk
        rcases hk with rfl | hk
        · exact absurd (hhead k (Or.inl h)) (lt_irrefl k)
        · exact ih hrest h hk

/-- Every covered node hangs below a raised one, with only removed nodes between. -/
theorem coverLoop_run {l : List (Int × Option (Lsn × Value))} (hl : SortedEntries l)
    (prev : Bool) (hmem : (k, node) ∈ l) (hneeds : needsCover lsnEnd node = true) :
    (exists j, j ∈ (coverLoop lsnEnd l prev).1 ∧ j ≤ k ∧
      forall i n, (i, n) ∈ l -> j < i -> i ≤ k ->
        i ∈ (coverLoop lsnEnd l prev).2) ∨
    (prev = true ∧ forall i n, (i, n) ∈ l -> i ≤ k -> i ∈ (coverLoop lsnEnd l prev).2) := by
  induction l generalizing prev with
  | nil => cases hmem
  | cons head rest ih =>
    rcases head with ⟨j, top⟩
    have hrest : SortedEntries rest := List.Pairwise.of_cons hl
    have hhead : forall i n, (i, n) ∈ rest -> j < i :=
      fun i n hi => rel_of_pairwise_cons hl hi
    have hcases : forall i n, (i, n) ∈ (j, top) :: rest -> i = j ∨ j < i ∧ (i, n) ∈ rest := by
      intro i n hi
      rcases mem_cons.mp hi with hi | hi
      · exact .inl (congrArg Prod.fst hi)
      · exact .inr ⟨hhead i n hi, hi⟩
    rcases mem_cons.mp hmem with heq | htail
    · -- the node is the first one: it is raised, or joins the open run
      cases heq
      cases prev with
      | false =>
        refine Or.inl ⟨k, by simp [coverLoop, hneeds], le_refl k, ?_⟩
        intro i n hi hki hik
        exact absurd hki (not_lt.mpr hik)
      | true =>
        refine Or.inr ⟨rfl, ?_⟩
        intro i n hi hik
        rcases hcases i n hi with rfl | ⟨hki, _⟩
        · simp [coverLoop, hneeds]
        · exact absurd hki (not_lt.mpr hik)
    · rcases ih hrest (needsCover lsnEnd top) htail with h | h
      · -- the run starts inside the tail
        rcases h with ⟨i, hi, hik, hbetween⟩
        have hji : j < i := by
          rcases (coverLoop_mem_iff _).mp (Or.inl hi) with ⟨n, hn, _⟩
          exact hhead i n hn
        refine Or.inl ⟨i, (mem_coverLoop_cons prev).1 hi, hik, ?_⟩
        intro x n hx hix hxk
        rcases hcases x n hx with rfl | ⟨_, hxrest⟩
        · exact absurd hix (lt_asymm hji)
        · exact (mem_coverLoop_cons prev).2 (hbetween x n hxrest hix hxk)
      · -- the run reaches back to the first node
        rcases h with ⟨htop, hall⟩
        cases prev with
        | false =>
          refine Or.inl ⟨j, by simp [coverLoop, htop], le_of_lt (hhead k node htail), ?_⟩
          intro i n hi hji hik
          rcases hcases i n hi with rfl | ⟨_, hirest⟩
          · exact absurd hji (lt_irrefl i)
          · exact (mem_coverLoop_cons false).2 (hall i n hirest hik)
        | true =>
          refine Or.inr ⟨rfl, ?_⟩
          intro i n hi hik
          rcases hcases i n hi with rfl | ⟨_, hirest⟩
          · simp [coverLoop, htop]
          · exact (mem_coverLoop_cons true).2 (hall i n hirest hik)

/-!
## Inserting a layer

The layer takes over exactly the keys of its range where it ends above the
layer that was on top.
-/

def pinned (key : Range Int) : LayerCoverage Value :=
  (c.addNode key.start).addNode key.stop

theorem topAt_pinned (key : Range Int) (k : Int) : (c.pinned key).topAt k = c.topAt k := by
  unfold pinned
  rw [topAt_addNode, topAt_addNode]

theorem pinned_start (key : Range Int) :
    exists node, (c.pinned key).nodes.get? key.start = some node := by
  unfold pinned
  rw [addNode_nodes, get?_insert]
  split_ifs with h
  · exact ⟨_, rfl⟩
  · exact ⟨_, get?_insert_self _ _ _⟩

theorem pinned_stop (key : Range Int) :
    exists node, (c.pinned key).nodes.get? key.stop = some node := by
  exact ⟨_, get?_insert_self _ _ _⟩

def covered (key : Range Int) (lsnEnd : Lsn) : List Int × List Int :=
  coverLoop lsnEnd ((c.pinned key).nodes.range key.start key.stop) false

theorem insert_get? (key : Range Int) (lsn : Range Lsn) (value : Value) (k : Int) :
    (c.insert key lsn value).nodes.get? k =
      if k ∈ (c.covered key lsn.stop).2 then none
      else if k ∈ (c.covered key lsn.stop).1 then
        some (some (lsn.stop, value))
      else (c.pinned key).nodes.get? k := by
  change OrdMap.get? (List.foldl _ (List.foldl _ _ _) _) k = _
  rw [get?_foldl_erase, get?_foldl_insert]
  rfl

end

theorem mem_covered_iff :
    k ∈ (c.covered key lsnEnd).1 ∨ k ∈ (c.covered key lsnEnd).2 <->
      k ∈ key ∧ exists node, (c.pinned key).nodes.get? k = some node ∧
        needsCover lsnEnd node = true := by
  unfold covered
  rw [coverLoop_mem_iff]
  constructor
  · intro h
    rcases h with ⟨node, hmem, hneeds⟩
    rcases mem_range_iff.mp hmem with ⟨hlo, hhi, hget⟩
    exact ⟨⟨hlo, hhi⟩, node, hget, hneeds⟩
  · intro h
    rcases h with ⟨hk, node, hget, hneeds⟩
    exact ⟨node, mem_range_iff.mpr ⟨hk.1, hk.2, hget⟩, hneeds⟩

theorem insert_get?_none {value : Value} (h : (c.pinned key).nodes.get? k = none) :
    (c.insert key lsn value).nodes.get? k = none := by
  have hnot : Not (k ∈ (c.covered key lsn.stop).1 ∨ k ∈ (c.covered key lsn.stop).2) := by
    intro hk
    rcases mem_covered_iff.mp hk with ⟨_, node, hget, _⟩
    rw [h] at hget
    cases hget
  rw [insert_get?, if_neg (fun hk => hnot (Or.inr hk)), if_neg (fun hk => hnot (Or.inl hk)), h]

theorem insert_floor?_kept {value : Value} (hfloor : (c.pinned key).nodes.floor? k = some (i, node))
    (hkeep : i ∈ key -> needsCover lsn.stop node = false) :
    (c.insert key lsn value).nodes.floor? k = some (i, node) := by
  rcases floor?_eq_some_iff.mp hfloor with ⟨hik, hget, hgap⟩
  have hnot : Not (i ∈ (c.covered key lsn.stop).1 ∨ i ∈ (c.covered key lsn.stop).2) := by
    intro hi
    rcases mem_covered_iff.mp hi with ⟨hikey, n, hn, hneeds⟩
    rw [hget] at hn
    cases hn
    rw [hkeep hikey] at hneeds
    cases hneeds
  rw [floor?_eq_some_iff]
  refine ⟨hik, ?_, fun x hix hxk => insert_get?_none (hgap x hix hxk)⟩
  rw [insert_get?, if_neg (fun hi => hnot (Or.inr hi)), if_neg (fun hi => hnot (Or.inl hi)), hget]

theorem insert_floor?_raised (value : Value)
    (hfloor : (c.pinned key).nodes.floor? k = some (i, node)) (hi : i ∈ key)
    (hneeds : needsCover lsn.stop node = true) :
    exists j, (c.insert key lsn value).nodes.floor? k =
      some (j, some (lsn.stop, value)) := by
  rcases floor?_eq_some_iff.mp hfloor with ⟨hik, hget, hgap⟩
  have hsorted := sorted_range (c.pinned key).nodes key.start key.stop
  have hmem : (i, node) ∈ (c.pinned key).nodes.range key.start key.stop :=
    mem_range_iff.mpr ⟨hi.1, hi.2, hget⟩
  rcases coverLoop_run hsorted false hmem hneeds with h | h
  · rcases h with ⟨j, hj, hji, hbetween⟩
    have hjkeep : j ∉ (c.covered key lsn.stop).2 :=
      coverLoop_disjoint hsorted hj
    have hjkey : j ∈ key := (mem_covered_iff.mp (Or.inl hj)).1
    have hraised : j ∈ (c.covered key lsn.stop).1 := hj
    refine ⟨j, floor?_eq_some_iff.mpr ⟨hji.trans hik, ?_, ?_⟩⟩
    · rw [insert_get?, if_neg hjkeep, if_pos hraised]
    · intro x hjx hxk
      cases hx : (c.pinned key).nodes.get? x with
      | none => exact insert_get?_none hx
      | some n =>
        have hxi : x ≤ i := le_floor? hfloor hx hxk
        have hxmem : (x, n) ∈ (c.pinned key).nodes.range key.start key.stop :=
          mem_range_iff.mpr ⟨hjkey.1.trans (le_of_lt hjx), lt_of_le_of_lt hxi hi.2, hx⟩
        have hremoved : x ∈ (c.covered key lsn.stop).2 :=
          hbetween x n hxmem hjx hxi
        rw [insert_get?, if_pos hremoved]
  · cases h.1

theorem topAt_insert (c : LayerCoverage Value) (key : Range Int)
    (lsn : Range Lsn) (value : Value) (k : Int) :
    (c.insert key lsn value).topAt k =
      if k ∈ key ∧ needsCover lsn.stop (c.topAt k) = true then
        some (lsn.stop, value)
      else c.topAt k := by
  rw [← topAt_pinned c key k]
  cases hfloor : (c.pinned key).nodes.floor? k with
  | none =>
    have hnone := floor?_eq_none_iff.mp hfloor
    have hkey : k ∉ key := by
      intro hk
      rcases pinned_start c key with ⟨n, hn⟩
      rw [hnone key.start hk.1] at hn
      cases hn
    have hnew : (c.insert key lsn value).nodes.floor? k = none :=
      floor?_eq_none_iff.mpr (fun i hi => insert_get?_none (hnone i hi))
    rw [if_neg (fun h => hkey h.1)]
    simp [topAt, hfloor, hnew]
  | some e =>
    rcases e with ⟨i, node⟩
    rcases floor?_eq_some_iff.mp hfloor with ⟨hik, hget, hgap⟩
    rw [topAt_of_floor? hfloor]
    -- the pinned ends keep the governing node on the key's side of the range
    have hside : i ∈ key <-> k ∈ key := by
      constructor
      · intro hi
        refine ⟨hi.1.trans hik, ?_⟩
        by_contra hcon
        rcases pinned_stop c key with ⟨n, hn⟩
        exact absurd hi.2 (not_lt.mpr (le_floor? hfloor hn (not_lt.mp hcon)))
      · intro hk
        rcases pinned_start c key with ⟨n, hn⟩
        exact ⟨le_floor? hfloor hn hk.1, lt_of_le_of_lt hik hk.2⟩
    split_ifs with hcover
    · rcases insert_floor?_raised value hfloor (hside.mpr hcover.1) hcover.2 with ⟨j, hj⟩
      exact topAt_of_floor? hj
    · refine topAt_of_floor? (insert_floor?_kept hfloor ?_)
      intro hi
      cases hneeds : needsCover lsn.stop node with
      | false => rfl
      | true => exact absurd ⟨hside.mp hi, hneeds⟩ hcover

/-!
## Iterating the changes

A list of changes stands for a function of the key: the value of the last change
at or below the key.
-/

def valueAt (value : Option Value) :
    List (Int × Option Value) -> Int -> Option Value
  | [], _ => value
  | (k, v) :: rest, key => if k ≤ key then valueAt v rest key else value

theorem valueAt_of_lt {key : Int} (h : forall e, e ∈ l -> key < e.1) :
    valueAt value l key = value := by
  cases l with
  | nil => rfl
  | cons head rest =>
    have hlt : key < head.1 := h head (by simp)
    simp [valueAt, not_le.mpr hlt]

theorem valueAt_last (value : Option Value) (hl : SortedEntries l) {key : Int}
    (hmem : (k, v) ∈ l) (hk : k ≤ key) (hlast : forall e, e ∈ l -> k < e.1 -> key < e.1) :
    valueAt value l key = v := by
  induction l generalizing value with
  | nil => cases hmem
  | cons head rest ih =>
    have hhead : forall e, e ∈ rest -> head.1 < e.1 :=
      fun _ he => rel_of_pairwise_cons hl he
    rcases mem_cons.mp hmem with heq | hrest
    · have hafter : forall e, e ∈ rest -> key < e.1 := by
        intro e he
        refine hlast e (by simp [he]) ?_
        have := hhead e he
        rwa [← heq] at this
      rw [← heq]
      simp only [valueAt, if_pos hk]
      exact valueAt_of_lt hafter
    · have hle : head.1 ≤ key := (le_of_lt (hhead _ hrest)).trans hk
      simp only [valueAt, if_pos hle]
      exact ih _ (List.Pairwise.of_cons hl) hrest (fun e he => hlast e (by simp [he]))

theorem sorted_range (c : LayerCoverage Value) (key : Range Int) : SortedEntries (c.range key) := by
  unfold range SortedEntries
  rw [pairwise_map]
  exact OrdMap.sorted_range c.nodes key.start key.stop

theorem mem_range_iff :
    (k, v) ∈ c.range key <->
      k ∈ key ∧ exists node, c.nodes.get? k = some node ∧ node.map Prod.snd = v := by
  unfold range
  rw [mem_map]
  constructor
  · intro h
    rcases h with ⟨⟨i, node⟩, hmem, heq⟩
    cases heq
    rcases mem_range_iff.mp hmem with ⟨hlo, hhi, hget⟩
    exact ⟨⟨hlo, hhi⟩, node, hget, rfl⟩
  · intro h
    rcases h with ⟨hk, node, hget, hv⟩
    exact ⟨(k, node), OrdMap.mem_range_iff.mpr ⟨hk.1, hk.2, hget⟩, by simp [hv]⟩

/-- The nodes of a range tell every query in the range from the one at its start. -/
theorem query_eq_valueAt_range (c : LayerCoverage Value) {key : Int} (hkey : key ∈ r) :
    c.query key = valueAt (c.query r.start) (c.range r) key := by
  cases hfloor : c.nodes.floor? key with
  | none =>
    have hnone := floor?_eq_none_iff.mp hfloor
    have hstart : c.nodes.floor? r.start = none :=
      floor?_eq_none_iff.mpr (fun i hi => hnone i (hi.trans hkey.1))
    have hafter : forall e, e ∈ c.range r -> key < e.1 := by
      intro e he
      rcases mem_range_iff.mp he with ⟨_, node, hget, _⟩
      by_contra hcon
      rw [hnone e.1 (not_lt.mp hcon)] at hget
      cases hget
    rw [valueAt_of_lt hafter]
    simp [query, hfloor, hstart]
  | some e =>
    rcases e with ⟨i, node⟩
    rcases floor?_eq_some_iff.mp hfloor with ⟨hik, hget, hgap⟩
    have hquery : c.query key = node.map Prod.snd := by
      simp [query, hfloor]
    have hafter : forall x, x ∈ c.range r -> i < x.1 -> key < x.1 := by
      intro x hx hix
      rcases mem_range_iff.mp hx with ⟨_, n, hn, _⟩
      exact not_le.mp (fun hle => absurd hix (not_lt.mpr (le_floor? hfloor hn hle)))
    rw [hquery]
    by_cases hi : r.start ≤ i
    · have hmem : (i, node.map Prod.snd) ∈ c.range r :=
        mem_range_iff.mpr ⟨⟨hi, lt_of_le_of_lt hik hkey.2⟩, node, hget, rfl⟩
      exact (valueAt_last _ (sorted_range c r) hmem hik hafter).symm
    · -- the governing node is before the range, so it governs the start too
      have hstart : c.nodes.floor? key = c.nodes.floor? r.start := by
        exact floor?_eq_of_gap hkey.1 (fun x hrx => hgap x ((not_le.mp hi).trans hrx))
      have hall : forall x, x ∈ c.range r -> key < x.1 := by
        intro x hx
        rcases mem_range_iff.mp hx with ⟨hxr, _⟩
        exact hafter x hx (lt_of_lt_of_le (not_le.mp hi) hxr.1)
      rw [valueAt_of_lt hall]
      simp [query, ← hstart, hfloor]

structure ChangesOf (f : Int -> Option Value) (r : Range Int)
    (value : Option Value) (l : List (Int × Option Value)) : Prop where
  sorted : SortedEntries l
  inside : forall e, e ∈ l -> e.1 ∈ r
  values : forall key, key ∈ r -> f key = valueAt value l key

theorem ChangesOf.eq_value (h : ChangesOf f r value l) {key : Int} (hkey : key ∈ r)
    (hbefore : forall e, e ∈ l -> key < e.1) : f key = value := by
  rw [h.values key hkey, valueAt_of_lt hbefore]

theorem ChangesOf.shift {start start' stop : Int} (h : ChangesOf f ⟨start, stop⟩ value l)
    (hle : start ≤ start') (hahead : forall e, e ∈ l -> start' < e.1) :
    ChangesOf f ⟨start', stop⟩ value l where
  sorted := h.sorted
  inside := fun e he => ⟨le_of_lt (hahead e he), (h.inside e he).2⟩
  values := fun key hkey => h.values key ⟨hle.trans hkey.1, hkey.2⟩

theorem ChangesOf.pop {start stop : Int} {rest : List (Int × Option Value)}
    (h : ChangesOf f ⟨start, stop⟩ value ((k, v) :: rest)) :
    ChangesOf f ⟨k, stop⟩ v rest ∧ forall e, e ∈ rest -> k < e.1 := by
  have hafter : forall e, e ∈ rest -> k < e.1 :=
    fun _ he => rel_of_pairwise_cons h.sorted he
  refine ⟨⟨List.Pairwise.of_cons h.sorted, ?_, ?_⟩, hafter⟩
  · intro e he
    exact ⟨le_of_lt (hafter e he), (h.inside e (by simp [he])).2⟩
  · intro key hkey
    have hstart := (h.inside (k, v) (by simp)).1
    rw [h.values key ⟨hstart.trans hkey.1, hkey.2⟩]
    have hk : k ≤ key := hkey.1
    simp [valueAt, hk]

theorem ChangesOf.cons_start (h : ChangesOf f r value l) (hr : r.start < r.stop)
    (hne : forall e, e ∈ l -> e.1 ≠ r.start) : ChangesOf f r none ((r.start, value) :: l) where
  sorted := List.Pairwise.cons
    (fun e he => lt_of_le_of_ne (h.inside e he).1 (Ne.symm (hne e he))) h.sorted
  inside := forall_mem_cons.mpr ⟨⟨le_refl _, hr⟩, h.inside⟩
  values := fun key hkey => by
    rw [h.values key hkey]
    simp [valueAt, hkey.1]

theorem changesOf_range (c : LayerCoverage Value) (r : Range Int) :
    ChangesOf c.query r (c.query r.start) (c.range r) where
  sorted := sorted_range c r
  inside := fun _ he => (mem_range_iff.mp he).1
  values := fun _ hkey => query_eq_valueAt_range c hkey

theorem changesOf_rangeOverlaps [DecidableEq Value] (c : LayerCoverage Value)
    (hr : r.start < r.stop) :
    ChangesOf c.query r none (c.rangeOverlaps r) := by
  have h := changesOf_range c r
  unfold rangeOverlaps
  cases hquery : c.query r.start with
  | none => rwa [hquery] at h
  | some change =>
    rw [hquery] at h
    cases hlist : c.range r with
    | nil =>
      rw [hlist] at h
      exact h.cons_start hr (forall_mem_nil _)
    | cons first rest =>
      rw [hlist] at h
      obtain ⟨k, v⟩ := first
      obtain ⟨hpop, hafter⟩ := h.pop
      have hstart : r.start ≤ k := (h.inside (k, v) (by simp)).1
      have hrest : forall e, e ∈ rest -> e.1 ≠ r.start :=
        fun e he => ne_of_gt (lt_of_le_of_lt hstart (hafter e he))
      simp only
      split_ifs with hsame
      · -- the first change repeats the value at the start
        refine ChangesOf.cons_start ⟨hpop.sorted, fun e he => h.inside e (by simp [he]), ?_⟩ hr
          hrest
        intro key hkey
        rw [h.values key hkey]
        by_cases hk : k ≤ key
        · simp [valueAt, hk, hsame]
        · have hlt : forall e, e ∈ rest -> key < e.1 :=
            fun e he => (not_le.mp hk).trans (hafter e he)
          simp [valueAt, hk, valueAt_of_lt hlt]
      · refine h.cons_start hr (forall_mem_cons.mpr ⟨?_, hrest⟩)
        -- a change at the very start would carry the value found there
        rintro rfl
        have hself := hpop.values r.start ⟨le_refl _, hr⟩
        rw [hquery, valueAt_of_lt hafter] at hself
        exact hsame hself.symm

/-!
## Where the nodes are
-/

def NodesAt (c : LayerCoverage Value) (p : Int -> Prop) : Prop :=
  forall k node, c.nodes.get? k = some node -> p k

theorem nodesAt_new (p : Int -> Prop) : (new : LayerCoverage Value).NodesAt p := by
  intro k node h
  cases h

theorem NodesAt.insert {p : Int -> Prop} (h : c.NodesAt p) (hstart : p key.start)
    (hstop : p key.stop) (lsn : Range Lsn) (value : Value) :
    (c.insert key lsn value).NodesAt p := by
  intro k node hk
  cases hpinned : (c.pinned key).nodes.get? k with
  | none =>
    rw [insert_get?_none hpinned] at hk
    cases hk
  | some n =>
    unfold pinned at hpinned
    rw [addNode_nodes, get?_insert] at hpinned
    split_ifs at hpinned with hkstop
    · exact hkstop ▸ hstop
    · rw [addNode_nodes, get?_insert] at hpinned
      split_ifs at hpinned with hkstart
      · exact hkstart ▸ hstart
      · exact h k n hpinned

theorem NodesAt.rangeOverlaps [DecidableEq Value] {p : Int -> Prop} (h : c.NodesAt p)
    (hstart : p r.start) {e : Int × Option Value} (he : e ∈ c.rangeOverlaps r) : p e.1 := by
  have hrange : e ∈ c.range r -> p e.1 := by
    intro hmem
    rcases (mem_range_iff (k := e.1) (v := e.2)).mp hmem with ⟨_, node, hget, _⟩
    exact h e.1 node hget
  unfold LayerCoverage.rangeOverlaps at he
  cases hquery : c.query r.start with
  | none =>
    rw [hquery] at he
    exact hrange he
  | some change =>
    rw [hquery] at he
    rcases mem_cons.mp he with rfl | hmem
    · exact hstart
    · refine hrange ?_
      cases hlist : c.range r with
      | nil =>
        rw [hlist] at hmem
        exact hmem
      | cons first rest =>
        rw [hlist] at hmem
        simp only at hmem
        split_ifs at hmem
        · exact mem_cons_of_mem _ hmem
        · exact hmem

end LayerCoverage
end Pageserver
end OpenNeon

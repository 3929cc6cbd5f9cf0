import OpenNeon.Pageserver.DiskBtreeBuild

/-!
# Reading the on-disk B-tree

A scan keeps a stack of pages.  Taking up a page that is the top of a stored tree
calls the visitor for exactly those entries of the tree that lie on the right
side of the search key, in the order of the scan.
-/

namespace OpenNeon
namespace Pageserver

open Base List
open BuildNode (Sorted)

namespace DiskBtree

/-!
## Indexes of a list
-/

section Indexes

variable {alpha : Type}

def At (l : List alpha) (iter : List Nat) (elems : List alpha) : Prop :=
  List.Forall₂ (fun i a => l[i]? = some a) iter elems

theorem at_range' (l : List alpha) (start : Nat) :
    At l (List.range' start (l.length - start)) (l.drop start) := by
  apply List.forall₂_iff_get.mpr
  refine ⟨by simp, ?_⟩
  intro i h1 h2
  simp

theorem at_range_reverse (l : List alpha) {stop : Nat} (h : stop ≤ l.length) :
    At l (List.range stop).reverse (l.take stop).reverse := by
  apply List.forall₂_reverse_iff.mpr
  apply List.forall₂_iff_get.mpr
  refine ⟨by simp; omega, ?_⟩
  intro i h1 h2
  simp

theorem filter_eq_drop {l : List alpha} {p : alpha -> Bool} {start : Nat}
    (h : forall i a, l[i]? = some a -> (p a = true <-> start ≤ i)) :
    l.filter p = l.drop start := by
  induction l generalizing start with
  | nil => simp
  | cons a l ih =>
    cases start with
    | zero =>
      apply filter_eq_self.mpr
      intro b hb
      rcases getElem?_of_mem hb with ⟨i, hi⟩
      exact (h i b hi).mpr (Nat.zero_le i)
    | succ start =>
      rw [filter_cons_of_neg (by simp [h 0 a rfl])]
      exact ih (fun i b hb => (h (i + 1) b hb).trans Nat.succ_le_succ_iff)

theorem filter_eq_take {l : List alpha} {p : alpha -> Bool} {stop : Nat}
    (h : forall i a, l[i]? = some a -> (p a = true <-> i < stop)) :
    l.filter p = l.take stop := by
  induction l generalizing stop with
  | nil => simp
  | cons a l ih =>
    cases stop with
    | zero =>
      apply filter_eq_nil_iff.mpr
      intro b hb hp
      rcases getElem?_of_mem hb with ⟨i, hi⟩
      exact absurd ((h i b hi).mp hp) (Nat.not_lt_zero i)
    | succ stop =>
      rw [filter_cons_of_pos (by simp [h 0 a rfl]), take_succ_cons,
        ih (fun i b hb => (h (i + 1) b hb).trans Nat.succ_lt_succ_iff)]

end Indexes

/-!
## What a scan covers
-/

def scanned (searchKey : List UInt8) : VisitDirection -> List Row -> List Row
  | .forwards, es => es.filter (fun r => searchKey ≤ r.1)
  | .backwards, es => (es.filter (fun r => r.1 ≤ searchKey)).reverse

/-- A backward scan takes up a tree only if its first key is not too large. -/
def Entered (searchKey : List UInt8) : VisitDirection -> List Row -> Prop
  | .forwards, _ => True
  | .backwards, es => exists first, es.head? = some first ∧ first.1 ≤ searchKey

/-- The children of a page: a block number and what the block holds. -/
def kidRow (kid : Nat × List Row) (r : Row) : Prop :=
  r.2 = Value.fromBlknum kid.1 ∧ exists first, kid.2.head? = some first ∧ first.1 = r.1

theorem Covers.kids {stored : Nat -> List Row -> Prop} {rows es : List Row}
    (h : Covers stored rows es) :
    exists kids : List (Nat × List Row), List.Forall₂ kidRow kids rows ∧
      (forall kid, kid ∈ kids -> stored kid.1 kid.2) ∧
      (kids.map Prod.snd).flatten = es := by
  induction h with
  | nil => exact ⟨[], .nil, by simp, rfl⟩
  | @cons blk first front rows rest hstored _ ih =>
    rcases ih with ⟨kids, hrows, hkids, hes⟩
    refine ⟨(blk, first :: front) :: kids, .cons ⟨rfl, first, rfl, rfl⟩ hrows, ?_, by simp [hes]⟩
    exact forall_mem_cons.mpr ⟨hstored, hkids⟩

theorem scanned_forwards_flatten (searchKey : List UInt8) (parts : List (List Row)) :
    scanned searchKey .forwards parts.flatten = (parts.map (scanned searchKey .forwards)).flatten :=
  filter_flatten

theorem scanned_backwards_flatten (searchKey : List UInt8) (parts : List (List Row)) :
    scanned searchKey .backwards parts.flatten =
      (parts.reverse.map (scanned searchKey .backwards)).flatten := by
  simp only [scanned, filter_flatten, reverse_flatten, map_map, map_reverse]
  rfl

section Kids

variable {kids : List (Nat × List Row)} {rows : List Row} {searchKey : List UInt8}

variable {kid : Nat × List Row}

theorem kid_row (hrows : List.Forall₂ kidRow kids rows) {i : Nat} (hkid : kids[i]? = some kid) :
    exists r, rows[i]? = some r ∧ kidRow kid r := by
  rcases List.getElem?_eq_some_iff.mp hkid with ⟨hi, rfl⟩
  have hi' : i < rows.length := hrows.length_eq ▸ hi
  exact ⟨rows[i], getElem?_eq_getElem hi', hrows.get hi hi'⟩

theorem kidRow_le {r e : Row} (hrow : kidRow kid r) (hsorted : Sorted kid.2) (he : e ∈ kid.2) :
    r.1 ≤ e.1 := by
  rcases hrow with ⟨_, first, hfirst, hkey⟩
  rcases head?_eq_some_iff.mp hfirst with ⟨front, hkid⟩
  rw [hkid] at he hsorted
  rw [← hkey]
  rcases mem_cons.mp he with rfl | he
  · exact le_refl _
  · exact le_of_lt (rel_of_pairwise_cons hsorted he)

variable (hrows : List.Forall₂ kidRow kids rows)
variable (hsorted : Sorted (kids.map Prod.snd).flatten)

include hsorted in
theorem kid_sorted (hkid : kid ∈ kids) : Sorted kid.2 :=
  (pairwise_flatten.mp hsorted).1 kid.2 (mem_map.mpr ⟨kid, hkid, rfl⟩)

include hrows hsorted in
theorem kid_lt {i j : Nat} (hij : i < j) {r e : Row} (hkid : kids[i]? = some kid)
    (hr : rows[j]? = some r) (he : e ∈ kid.2) :
    e.1 < r.1 := by
  rcases List.getElem?_eq_some_iff.mp hr with ⟨hj, rfl⟩
  rcases List.getElem?_eq_some_iff.mp hkid with ⟨hi, rfl⟩
  have hj' : j < kids.length := hrows.length_eq.symm ▸ hj
  rcases hrows.get hj' hj with ⟨_, first, hfirst, hkey⟩
  have hpairs := pairwise_iff_getElem.mp (pairwise_flatten.mp hsorted).2
    i j (by simpa using hi) (by simpa using hj') hij
  simp only [getElem_map] at hpairs
  have hlt := hpairs e he first (mem_of_head? hfirst)
  rwa [hkey] at hlt

include hrows hsorted in
theorem scanned_forwards_kids {start : Nat}
    (hstart : start = 0 ∨ exists r, rows[start]? = some r ∧ r.1 ≤ searchKey) :
    scanned searchKey .forwards (kids.map Prod.snd).flatten =
      ((kids.drop start).map (fun kid => scanned searchKey .forwards kid.2)).flatten := by
  have hbefore : ((kids.take start).map
      (fun kid => scanned searchKey .forwards kid.2)).flatten = [] := by
    apply flatten_eq_nil_iff.mpr
    intro part hpart
    rcases mem_map.mp hpart with ⟨kid, hkid, rfl⟩
    rcases mem_take_iff_getElem.mp hkid with ⟨i, hi, rfl⟩
    apply filter_eq_nil_iff.mpr
    intro e he
    rcases hstart with rfl | ⟨r, hr, hle⟩
    · omega
    · have hlt := kid_lt hrows hsorted (by omega) (getElem?_eq_getElem (by omega)) hr he
      simpa using lt_of_lt_of_le hlt hle
  rw [scanned_forwards_flatten, map_map]
  conv_lhs => rw [← take_append_drop start kids]
  rw [map_append, flatten_append]
  exact (congrArg (· ++ _) hbefore).trans (nil_append _)

include hrows hsorted in
theorem scanned_backwards_kids {stop : Nat}
    (hstop : forall i r, rows[i]? = some r -> stop ≤ i -> searchKey < r.1) :
    scanned searchKey .backwards (kids.map Prod.snd).flatten =
      ((kids.take stop).reverse.map (fun kid => scanned searchKey .backwards kid.2)).flatten := by
  have hafter : ((kids.drop stop).reverse.map
      (fun kid => scanned searchKey .backwards kid.2)).flatten = [] := by
    apply flatten_eq_nil_iff.mpr
    intro part hpart
    rcases mem_map.mp hpart with ⟨kid, hkid, rfl⟩
    rcases mem_drop_iff_getElem.mp (mem_reverse.mp hkid) with ⟨i, hi, rfl⟩
    rw [Nat.add_comm] at hi
    rcases kid_row hrows (getElem?_eq_getElem hi) with ⟨r, hr, hrow⟩
    apply reverse_eq_nil_iff.mpr
    apply filter_eq_nil_iff.mpr
    intro e he
    have hle := kidRow_le hrow (kid_sorted hsorted (getElem_mem hi)) he
    simpa using lt_of_lt_of_le (hstop _ r hr (by omega)) hle
  rw [scanned_backwards_flatten, ← map_reverse, map_map]
  conv_lhs => rw [← take_append_drop stop kids]
  rw [reverse_append, map_append, flatten_append]
  exact (congrArg (· ++ _) hafter).trans (nil_append _)

end Kids

/-!
## Where a scan of a page starts
-/

section Start

open DiskBtreeReader
open OnDiskNode (binarySearch_spec)

variable {node : OnDiskNode} {rows : List Row} {searchKey : List UInt8}
variable (hnode : node.HasRows rows) (hsorted : Sorted rows)

include hnode hsorted in
theorem freshIter_forwards (searchKey : List UInt8) :
    exists start, freshIter node searchKey .forwards =
        .ok (some (List.range' start (rows.length - start))) ∧
      (node.level = 0 -> forall i r, rows[i]? = some r -> (searchKey ≤ r.1 <-> start ≤ i)) ∧
      (node.level ≠ 0 -> start = 0 ∨ exists r, rows[start]? = some r ∧ r.1 ≤ searchKey) := by
  rcases binarySearch_spec hnode hsorted searchKey with ⟨res, hsearch, hres⟩
  unfold freshIter forwardsStart
  rw [hsearch, hnode.count]
  cases res with
  | ok idx =>
    rcases hres with ⟨found, hfound, rfl⟩
    exact ⟨idx, rfl, fun _ i r hr => hsorted.le_iff hfound hr,
      fun _ => .inr ⟨found, hfound, le_refl _⟩⟩
  | error idx =>
    refine ⟨if node.level = 0 then idx else idx - 1, rfl, ?_, ?_⟩
    · intro hlevel i r hr
      rw [if_pos hlevel]
      exact (hres.sides hr).1
    · intro hlevel
      rw [if_neg hlevel]
      cases idx with
      | zero => exact .inl rfl
      | succ idx =>
        have hr := getElem?_eq_getElem (Nat.lt_of_succ_le hres.1)
        exact .inr ⟨_, hr, (hres.sides hr).2.mpr (Nat.lt_succ_self idx)⟩

include hnode hsorted in
theorem freshIter_backwards (searchKey : List UInt8) :
    exists stop, freshIter node searchKey .backwards =
        .ok (if stop = 0 then none else some (List.range stop).reverse) ∧
      stop ≤ rows.length ∧
      forall i r, rows[i]? = some r -> (r.1 ≤ searchKey <-> i < stop) := by
  rcases binarySearch_spec hnode hsorted searchKey with ⟨res, hsearch, hres⟩
  unfold freshIter backwardsStart
  rw [hsearch]
  cases res with
  | ok idx =>
    rcases hres with ⟨found, hfound, rfl⟩
    refine ⟨idx + 1, rfl, (List.getElem?_eq_some_iff.mp hfound).1, fun i r hr => ?_⟩
    exact (hsorted.le_iff hr hfound).trans Nat.lt_succ_iff.symm
  | error idx => exact ⟨idx, by cases idx <;> rfl, hres.1, fun i r hr => (hres.sides hr).2⟩

include hnode hsorted in
/-- A backward scan that takes up a page starts at the last key that is not too large. -/
theorem freshIter_entered (hentered : Entered searchKey .backwards rows) :
    exists stop, freshIter node searchKey .backwards = .ok (some (List.range stop).reverse) ∧
      stop ≤ rows.length ∧
      forall i r, rows[i]? = some r -> (r.1 ≤ searchKey <-> i < stop) := by
  rcases freshIter_backwards hnode hsorted searchKey with ⟨stop, hiter, hstop, hsides⟩
  rcases hentered with ⟨first, hfirst, hle⟩
  rw [head?_eq_getElem?] at hfirst
  have hpos : 0 < stop := (hsides 0 first hfirst).mp hle
  rw [if_neg (Nat.ne_of_gt hpos)] at hiter
  exact ⟨stop, hiter, hstop, hsides⟩

include hnode in
theorem freshIter_above (hsorted : Sorted rows) (habove : forall r, r ∈ rows -> searchKey < r.1) :
    freshIter node searchKey .backwards = .ok none := by
  rcases freshIter_backwards hnode hsorted searchKey with ⟨stop, hiter, hstop, hsides⟩
  cases stop with
  | zero => exact hiter
  | succ stop =>
    have hr := getElem?_eq_getElem hstop
    exact absurd (habove _ (mem_of_getElem? hr))
      (not_lt.mpr ((hsides stop _ hr).mpr (Nat.lt_succ_self stop)))

include hnode hsorted in
theorem freshIter_leaf (hlevel : node.level = 0) {dir : VisitDirection}
    (hentered : Entered searchKey dir rows) :
    exists iter, freshIter node searchKey dir = .ok (some iter) ∧
      At rows iter (scanned searchKey dir rows) := by
  cases dir with
  | forwards =>
    rcases freshIter_forwards hnode hsorted searchKey with ⟨start, hiter, hleaf, _⟩
    refine ⟨_, hiter, ?_⟩
    rw [scanned, filter_eq_drop (fun i r hr => decide_eq_true_iff.trans (hleaf hlevel i r hr))]
    exact at_range' rows start
  | backwards =>
    rcases freshIter_entered hnode hsorted hentered with ⟨stop, hiter, hstop, hsides⟩
    refine ⟨_, hiter, ?_⟩
    rw [scanned, filter_eq_take (fun i r hr => decide_eq_true_iff.trans (hsides i r hr))]
    exact at_range_reverse rows hstop

/-- A fresh scan of a page above takes up the children that have something in it. -/
theorem freshIter_inner (hnode : node.HasRows rows) (hlevel : node.level ≠ 0)
    {kids : List (Nat × List Row)} (hrows : List.Forall₂ kidRow kids rows)
    (hsortedRows : Sorted rows) (hsorted : Sorted (kids.map Prod.snd).flatten)
    (hhead : rows.head?.map Prod.fst = (kids.map Prod.snd).flatten.head?.map Prod.fst)
    {dir : VisitDirection}
    (hentered : Entered searchKey dir (kids.map Prod.snd).flatten) :
    exists iter picked, freshIter node searchKey dir = .ok (some iter) ∧
      At kids iter picked ∧
      (forall kid, kid ∈ picked -> kid ∈ kids ∧ Entered searchKey dir kid.2) ∧
      scanned searchKey dir (kids.map Prod.snd).flatten =
        (picked.map (fun kid => scanned searchKey dir kid.2)).flatten := by
  have hlen := hrows.length_eq
  cases dir with
  | forwards =>
    rcases freshIter_forwards hnode hsortedRows searchKey with ⟨start, hiter, _, hinner⟩
    refine ⟨_, kids.drop start, hiter, ?_, fun kid hkid => ⟨mem_of_mem_drop hkid, trivial⟩,
      scanned_forwards_kids hrows hsorted (hinner hlevel)⟩
    rw [← hlen]
    exact at_range' kids start
  | backwards =>
    rcases hentered with ⟨e, he, hle⟩
    rw [he] at hhead
    rcases Option.map_eq_some_iff.mp hhead with ⟨first, hfirst, hkey⟩
    rcases freshIter_entered hnode hsortedRows ⟨first, hfirst, hkey ▸ hle⟩ with
      ⟨stop, hiter, hstop, hsides⟩
    refine ⟨_, (kids.take stop).reverse, hiter, at_range_reverse kids (hlen ▸ hstop), ?_,
      scanned_backwards_kids hrows hsorted ?_⟩
    · intro kid hkid
      rcases mem_take_iff_getElem.mp (mem_reverse.mp hkid) with
        ⟨i, hi, rfl⟩
      have hkid := getElem?_eq_getElem (show i < kids.length by omega)
      rcases kid_row hrows hkid with ⟨r, hr, _, kidFirst, hkidFirst, hkidKey⟩
      refine ⟨mem_of_getElem? hkid, kidFirst, hkidFirst, ?_⟩
      rw [hkidKey]
      exact (hsides i r hr).mpr (by omega)
    · intro i r hr hi
      exact not_le.mp (mt (hsides i r hr).mp (not_lt.mpr hi))

end Start

/-!
## Scans
-/

section Scan

open DiskBtreeReader

variable {state : Type}
variable (visitor : state -> List UInt8 -> Nat -> state × Bool)

def runVisitor : List (List UInt8 × Nat) -> state -> state × Bool
  | [], st => (st, true)
  | e :: es, st =>
    match visitor st e.1 e.2 with
    | (st', true) => runVisitor es st'
    | (st', false) => (st', false)

/-- Go on after a part of a scan unless the visitor has ended it. -/
def resume (res : state × Bool) (next : state -> Except DiskBtreeError (state × Bool)) :
    Except DiskBtreeError (state × Bool) :=
  match res with
  | (st, true) => next st
  | (st, false) => .ok (st, false)

theorem resume_append (a b : List (List UInt8 × Nat)) (st : state)
    (next : state -> Except DiskBtreeError (state × Bool)) :
    resume (runVisitor visitor (a ++ b) st) next =
      resume (runVisitor visitor a st) (fun st' => resume (runVisitor visitor b st') next) := by
  induction a generalizing st with
  | nil => rfl
  | cons e a ih =>
    simp only [cons_append, runVisitor]
    rcases visitor st e.1 e.2 with ⟨st', _ | _⟩
    · rfl
    · exact ih st'

theorem resume_done (res : state × Bool) : resume res (fun st => .ok (st, true)) = .ok res := by
  rcases res with ⟨st, _ | _⟩ <;> rfl

variable {node : OnDiskNode} {rows : List Row} {iter : List Nat} {blk h : Nat}

theorem visitLeaf_eq {picked : List Row} (hnode : node.HasRows rows)
    (hiter : At rows iter picked) (st : state) :
    visitLeaf visitor node iter st = .ok (runVisitor visitor (picked.map toEntry) st) := by
  induction hiter generalizing st with
  | nil => rfl
  | @cons i r iter picked hr _ ih =>
    simp only [visitLeaf, hnode.key hr, hnode.value hr, bind, Except.bind,
      map_cons, runVisitor, toEntry]
    rcases visitor st r.1 r.2.toU64 with ⟨st', _ | _⟩
    · rfl
    · exact ih st'

/-- The blocks of a tree stand in a file from the start block on. -/
structure Mounted (r : DiskBtreeReader) (blocks : List (List UInt8)) : Prop where
  file : forall i buf, blocks[i]? = some buf -> r.reader[r.startBlk + i]? = some buf
  room : r.startBlk + blocks.length ≤ 2 ^ 32

variable {r : DiskBtreeReader} {blocks : List (List UInt8)}

section

variable (hmounted : Mounted r blocks) {level : UInt8} (hpage : PageAt blocks blk level rows)

include hmounted hpage

theorem readNode_of_pageAt (hne : rows ≠ []) :
    exists node, r.readNode blk = .ok node ∧ node.level = level ∧
      node.HasRows rows := by
  rcases hpage with ⟨buf, node, hbuf, hdeparse, hlevel, hrows⟩
  refine ⟨node, ?_, hlevel, hrows⟩
  have hcount : node.numChildren ≠ 0 := by
    rw [hrows.count]
    exact fun hzero => hne (length_eq_zero_iff.mp hzero)
  unfold readNode
  rw [hmounted.file blk buf hbuf]
  simp only [hdeparse, bind, Except.bind, if_neg hcount]
  rfl

theorem toBlknum_of_pageAt : (Value.fromBlknum blk).toBlknum = .ok blk := by
  rcases hpage with ⟨buf, node, hbuf, _⟩
  have hlt := (List.getElem?_eq_some_iff.mp hbuf).1
  have hroom := hmounted.room
  exact Value.toBlknum_fromBlknum (by omega)

end

/--
With enough steps, a scan that takes up a stack entry calls the visitor for these
entries and goes on with the rest of the stack.
-/
def Scans (r : DiskBtreeReader) (searchKey : List UInt8) (dir : VisitDirection)
    (frame : Nat × Option (List Nat)) (out : List Row) : Prop :=
  exists steps, forall fuel rest st,
    visitLoop visitor r searchKey dir (fuel + steps) (frame :: rest) st =
      resume (runVisitor visitor (out.map toEntry) st) (visitLoop visitor r searchKey dir fuel rest)

variable {searchKey : List UInt8} {dir : VisitDirection}

theorem scans_children (hread : r.readNode blk = .ok node) (hlevel : node.level ≠ 0)
    (hnode : node.HasRows rows) {kids picked : List (Nat × List Row)}
    (hrows : List.Forall₂ kidRow kids rows) (hiter : At kids iter picked)
    (hkids : forall kid, kid ∈ picked ->
      (Value.fromBlknum kid.1).toBlknum = .ok kid.1 ∧
        Scans visitor r searchKey dir (kid.1, none) (scanned searchKey dir kid.2)) :
    Scans visitor r searchKey dir (blk, some iter)
      (picked.map (fun kid => scanned searchKey dir kid.2)).flatten := by
  induction hiter with
  | nil =>
    refine ⟨1, fun fuel rest st => ?_⟩
    simp only [visitLoop, hread, bind, Except.bind, if_neg hlevel]
    rfl
  | @cons i kid iter picked hkid _ ih =>
    rcases hkids kid (by simp) with ⟨hblk, childSteps, hchild⟩
    rcases ih (fun k hk => hkids k (by simp [hk])) with ⟨steps, hsteps⟩
    rcases kid_row hrows hkid with ⟨row, hrow, hvalue, _⟩
    refine ⟨steps + childSteps + 1, fun fuel rest st => ?_⟩
    have hstep : visitLoop visitor r searchKey dir (fuel + (steps + childSteps + 1))
        ((blk, some (i :: iter)) :: rest) st =
        visitLoop visitor r searchKey dir (fuel + (steps + childSteps))
          ((kid.1, none) :: (blk, some iter) :: rest) st := by
      rw [← Nat.add_assoc]
      simp only [visitLoop, hread, bind, Except.bind, pure, Except.pure,
        if_neg hlevel, hnode.value hrow, hvalue, hblk]
    rw [hstep, ← Nat.add_assoc, hchild, map_cons, flatten_cons, map_append, resume_append]
    congr 1
    funext st'
    exact hsteps fuel rest st'

theorem visitLoop_fresh (hread : r.readNode blk = .ok node)
    (hfresh : freshIter node searchKey dir = .ok (some iter)) (fuel : Nat)
    (rest : List (Nat × Option (List Nat))) (st : state) :
    visitLoop visitor r searchKey dir fuel ((blk, none) :: rest) st =
      visitLoop visitor r searchKey dir fuel ((blk, some iter) :: rest) st := by
  cases fuel with
  | zero => rfl
  | succ fuel => simp only [visitLoop, hread, hfresh, bind, Except.bind, pure, Except.pure]

theorem Scans.fresh {out : List Row} (hread : r.readNode blk = .ok node)
    (hfresh : freshIter node searchKey dir = .ok (some iter))
    (h : Scans visitor r searchKey dir (blk, some iter) out) :
    Scans visitor r searchKey dir (blk, none) out := by
  rcases h with ⟨steps, hsteps⟩
  refine ⟨steps, fun fuel rest st => ?_⟩
  rw [visitLoop_fresh visitor hread hfresh]
  exact hsteps fuel rest st

theorem scans_leaf {picked : List Row} (hread : r.readNode blk = .ok node)
    (hlevel : node.level = 0) (hnode : node.HasRows rows) (hiter : At rows iter picked) :
    Scans visitor r searchKey dir (blk, some iter) picked := by
  refine ⟨1, fun fuel rest st => ?_⟩
  simp only [visitLoop, hread, bind, Except.bind, pure, Except.pure, if_pos hlevel,
    visitLeaf_eq visitor hnode hiter]
  rcases runVisitor visitor (picked.map toEntry) st with ⟨st', _ | _⟩ <;> rfl

theorem level_ne_zero (hlt : h + 1 < 256) : UInt8.ofNat (h + 1) ≠ 0 := by
  intro hzero
  have htoNat := congrArg UInt8.toNat hzero
  simp at htoNat
  omega

/-- Taking up the top of a stored tree scans the tree.  By induction on its height. -/
theorem scans_stored (hmounted : Mounted r blocks) {es : List Row} (hheight : h < 256)
    (hstored : Stored blocks h blk es) (hsorted : Sorted es) (hne : es ≠ [])
    (hentered : Entered searchKey dir es) :
    Scans visitor r searchKey dir (blk, none) (scanned searchKey dir es) := by
  induction h generalizing blk es with
  | zero =>
    rcases hstored with ⟨rows, hpage, hcontents⟩
    have hrows : rows = es := hcontents
    subst hrows
    rcases readNode_of_pageAt hmounted hpage hne with ⟨node, hread, hlevel, hnode⟩
    rcases freshIter_leaf hnode hsorted hlevel hentered with ⟨iter, hfresh, hiter⟩
    exact (scans_leaf visitor hread hlevel hnode hiter).fresh visitor hread hfresh
  | succ h ih =>
    rcases hstored with ⟨rows, hpage, hcontents⟩
    have hhead := hcontents.head?
    have hsortedRows := hcontents.sorted hsorted
    rcases Covers.kids hcontents with ⟨kids, hrows, hkids, rfl⟩
    rcases readNode_of_pageAt hmounted hpage (hcontents.ne_nil hne) with
      ⟨node, hread, hlevel, hnode⟩
    have hinner : node.level ≠ 0 := by
      rw [hlevel]
      exact level_ne_zero hheight
    rcases freshIter_inner hnode hinner hrows hsortedRows hsorted hhead hentered with
      ⟨iter, picked, hfresh, hiter, hpicked, hscanned⟩
    have hscans : forall kid, kid ∈ picked ->
        (Value.fromBlknum kid.1).toBlknum = .ok kid.1 ∧
          Scans visitor r searchKey dir (kid.1, none) (scanned searchKey dir kid.2) := by
      intro kid hkid
      rcases hpicked kid hkid with ⟨hmem, hkidEntered⟩
      have hkidStored := hkids kid hmem
      rcases hkidStored with ⟨kidRows, hkidPage, hkidContents⟩
      rcases getElem?_of_mem hmem with ⟨i, hi⟩
      rcases kid_row hrows hi with ⟨_, _, _, first, hfirst, _⟩
      refine ⟨toBlknum_of_pageAt hmounted hkidPage, ih (by omega)
        ⟨kidRows, hkidPage, hkidContents⟩ (kid_sorted hsorted hmem) ?_ hkidEntered⟩
      intro hnil
      rw [hnil] at hfirst
      cases hfirst
    rw [hscanned]
    exact (scans_children visitor hread hinner hnode hrows hiter hscans).fresh visitor hread hfresh

def Returns {alpha : Type} (run : Nat -> Except DiskBtreeError alpha) (res : alpha) : Prop :=
  exists steps, forall fuel, steps ≤ fuel -> run fuel = .ok res

theorem Returns.map {alpha beta : Type} {run : Nat -> Except DiskBtreeError alpha}
    {res : alpha} (h : Returns run res) (f : alpha -> beta) :
    Returns (fun fuel => (run fuel).map f) (f res) := by
  rcases h with ⟨steps, hrun⟩
  refine ⟨steps, fun fuel hfuel => ?_⟩
  show (run fuel).map f = _
  rw [hrun fuel hfuel]
  rfl

theorem visit_of_scans {out : List Row}
    (h : Scans visitor r searchKey dir (r.rootBlk, none) out) (st : state) :
    Returns (fun fuel => r.visit visitor fuel searchKey dir st)
      (runVisitor visitor (out.map toEntry) st) := by
  rcases h with ⟨steps, hsteps⟩
  refine ⟨steps, fun fuel hfuel => ?_⟩
  obtain ⟨more, rfl⟩ := Nat.exists_eq_add_of_le' hfuel
  show visitLoop visitor r searchKey dir (more + steps) [(r.rootBlk, none)] st = _
  rw [hsteps]
  have hdone : visitLoop visitor r searchKey dir more [] = fun st => .ok (st, true) := by
    cases more <;> rfl
  rw [hdone, resume_done]

theorem visit_above (hmounted : Mounted r blocks) {es : List Row}
    (hstored : Stored blocks h r.rootBlk es) (hsorted : Sorted es) (hne : es ≠ [])
    (habove : forall e, e ∈ es -> searchKey < e.1) (st : state) :
    Returns (fun fuel => r.visit visitor fuel searchKey .backwards st) (st, false) := by
  rcases hstored with ⟨rows, hpage, hcontents⟩
  have hrowsAbove : forall row, row ∈ rows -> searchKey < row.1 := by
    intro row hrow
    have hkey := hcontents.keys_sublist.subset (mem_map.mpr ⟨row, hrow, rfl⟩)
    rcases mem_map.mp hkey with ⟨e, he, heq⟩
    rw [← heq]
    exact habove e he
  rcases readNode_of_pageAt hmounted hpage (hcontents.ne_nil hne) with ⟨node, hread, _, hnode⟩
  have hfresh := freshIter_above hnode (hcontents.sorted hsorted) hrowsAbove
  refine ⟨1, fun fuel hfuel => ?_⟩
  obtain ⟨more, rfl⟩ := Nat.exists_eq_add_of_le' hfuel
  show visitLoop visitor r searchKey .backwards (more + 1) [(r.rootBlk, none)] st = _
  simp only [visitLoop, hread, hfresh, bind, Except.bind, pure, Except.pure]

end Scan

/-!
## Streams

A stream is a forward scan with a visitor that collects what it sees.
-/

section Stream

open DiskBtreeReader

def collect (yielded : List (List UInt8 × Nat)) (key : List UInt8) (value : Nat) :
    List (List UInt8 × Nat) × Bool :=
  (yielded ++ [(key, value)], true)

theorem runVisitor_collect (es yielded : List (List UInt8 × Nat)) :
    runVisitor collect es yielded = (yielded ++ es, true) := by
  induction es generalizing yielded with
  | nil => simp [runVisitor]
  | cons e es ih => simp [runVisitor, collect, ih]

theorem visitLeaf_collect (node : OnDiskNode) (iter : List Nat)
    (yielded : List (List UInt8 × Nat)) :
    visitLeaf collect node iter yielded =
      (streamLeaf node iter).map (fun es => (yielded ++ es, true)) := by
  induction iter generalizing yielded with
  | nil => simp [visitLeaf, streamLeaf, Except.map]
  | cons idx iter ih =>
    simp only [visitLeaf, streamLeaf, bind, Except.bind, collect]
    cases node.key idx with
    | error e => rfl
    | ok key =>
      cases node.value idx with
      | error e => rfl
      | ok value =>
        simp only [ih]
        cases streamLeaf node iter with
        | error e => rfl
        | ok es => simp [Except.map, pure, Except.pure]

theorem streamLoop_fresh {r : DiskBtreeReader} {searchKey : List UInt8} {blk idx : Nat}
    {node : OnDiskNode} (hread : r.readNode blk = .ok node)
    (hstart : forwardsStart node searchKey = .ok idx) (fuel : Nat)
    (rest : List (Nat × Option (List Nat))) (yielded : List (List UInt8 × Nat)) :
    streamLoop r searchKey fuel ((blk, none) :: rest) yielded =
      streamLoop r searchKey fuel
        ((blk, some (List.range' idx (node.numChildren - idx))) :: rest) yielded := by
  cases fuel with
  | zero => rfl
  | succ fuel => simp only [streamLoop, hread, hstart, bind, Except.bind]

/-- The scan and the stream take up the same pages in the same order. -/
theorem visitLoop_collect (r : DiskBtreeReader) (searchKey : List UInt8) (fuel : Nat)
    (stack : List (Nat × Option (List Nat))) (yielded : List (List UInt8 × Nat)) :
    visitLoop collect r searchKey .forwards fuel stack yielded =
      (streamLoop r searchKey fuel stack yielded).map (fun es => (es, true)) := by
  induction fuel generalizing stack yielded with
  | zero => cases stack <;> rfl
  | succ fuel ih =>
    have hbegun : forall blk iter rest,
        visitLoop collect r searchKey .forwards (fuel + 1) ((blk, some iter) :: rest) yielded =
          (streamLoop r searchKey (fuel + 1) ((blk, some iter) :: rest)
            yielded).map (fun es => (es, true)) := by
      intro blk iter rest
      simp only [visitLoop, streamLoop, bind, Except.bind, pure, Except.pure, visitLeaf_collect]
      cases r.readNode blk with
      | error e => rfl
      | ok node =>
        by_cases hlevel : node.level = 0
        · simp only [if_pos hlevel]
          cases streamLeaf node iter with
          | error e => rfl
          | ok es => exact ih rest (yielded ++ es)
        · simp only [if_neg hlevel]
          cases iter with
          | nil => exact ih rest yielded
          | cons idx iter =>
            simp only []
            cases node.value idx with
            | error e => rfl
            | ok value =>
              simp only []
              cases value.toBlknum with
              | error e => rfl
              | ok child => exact ih _ yielded
    rcases stack with _ | ⟨⟨blk, _ | iter⟩, rest⟩
    · rfl
    · cases hread : r.readNode blk with
      | error e =>
        simp only [visitLoop, streamLoop, hread]
        rfl
      | ok node =>
        cases hstart : forwardsStart node searchKey with
        | error e =>
          simp only [visitLoop, streamLoop, freshIter, hread, hstart, bind, Except.bind]
          rfl
        | ok idx =>
          have hfresh : freshIter node searchKey .forwards =
              .ok (some (List.range' idx (node.numChildren - idx))) := by
            unfold freshIter
            rw [hstart]
            rfl
          rw [visitLoop_fresh collect hread hfresh, streamLoop_fresh hread hstart]
          exact hbegun _ _ _
    · exact hbegun blk iter rest

theorem intoStream_of_visit {r : DiskBtreeReader} {searchKey : List UInt8}
    {es : List (List UInt8 × Nat)}
    (h : Returns (fun fuel => r.visit collect fuel searchKey .forwards []) (es, true)) :
    Returns (fun fuel => r.intoStream fuel searchKey) es := by
  rcases h with ⟨steps, hrun⟩
  refine ⟨steps, fun fuel hfuel => ?_⟩
  have hvisit : (r.intoStream fuel searchKey).map (fun es => (es, true)) = .ok (es, true) := by
    rw [← hrun fuel hfuel]
    exact (visitLoop_collect r searchKey fuel [(r.rootBlk, none)] []).symm
  show r.intoStream fuel searchKey = .ok es
  cases hstream : r.intoStream fuel searchKey with
  | error e =>
    rw [hstream] at hvisit
    cases hvisit
  | ok es' =>
    rw [hstream] at hvisit
    cases hvisit
    rfl

end Stream

/-!
## Agreement of builder and reader
-/

section Agreement

open DiskBtreeReader

def entriesFrom (searchKey : List UInt8) (entries : List (List UInt8 × Nat)) :
    List (List UInt8 × Nat) :=
  entries.filter (fun e => searchKey ≤ e.1)

def entriesUpTo (searchKey : List UInt8) (entries : List (List UInt8 × Nat)) :
    List (List UInt8 × Nat) :=
  entries.filter (fun e => e.1 ≤ searchKey)

/--
The reader finds the entries: a lookup, scans in both directions with any
visitor, and a stream.  A backward scan from below the first key returns false
without a call of the visitor.
-/
structure ReadsBack (r : DiskBtreeReader) (entries : List (List UInt8 × Nat))
    (searchKey : List UInt8) : Prop where
  get : exists res, Returns (fun fuel => r.get fuel searchKey) res ∧
    forall v, res = some v <-> (searchKey, v) ∈ entries
  forwards : forall (state : Type)
    (visitor : state -> List UInt8 -> Nat -> state × Bool) (st : state),
    Returns (fun fuel => r.visit visitor fuel searchKey .forwards st)
      (runVisitor visitor (entriesFrom searchKey entries) st)
  backwards : forall (state : Type)
    (visitor : state -> List UInt8 -> Nat -> state × Bool) (st : state),
    Returns (fun fuel => r.visit visitor fuel searchKey .backwards st)
      (if entriesUpTo searchKey entries = [] then (st, false)
        else runVisitor visitor (entriesUpTo searchKey entries).reverse st)
  stream : Returns (fun fuel => r.intoStream fuel searchKey) (entriesFrom searchKey entries)

theorem map_scanned_forwards (searchKey : List UInt8) (rows : List Row) :
    (scanned searchKey .forwards rows).map toEntry = entriesFrom searchKey (rows.map toEntry) := by
  rw [entriesFrom, filter_map]
  rfl

theorem map_scanned_backwards (searchKey : List UInt8) (rows : List Row) :
    (scanned searchKey .backwards rows).map toEntry =
      (entriesUpTo searchKey (rows.map toEntry)).reverse := by
  rw [entriesUpTo, filter_map, scanned, map_reverse]
  rfl

theorem runVisitor_get {keyLen : Nat} {entries : List (List UInt8 × Nat)}
    (hvalid : ValidEntries keyLen entries) (searchKey : List UInt8) (v : Nat) :
    (runVisitor (getVisitor searchKey) (entriesFrom searchKey entries) none).1 =
        some v <-> (searchKey, v) ∈ entries := by
  have hmem : forall e, e ∈ entriesFrom searchKey entries <->
      e ∈ entries ∧ searchKey ≤ e.1 := by
    intro e
    simp [entriesFrom]
  have hsorted : (entriesFrom searchKey entries).Pairwise (fun a b => a.1 < b.1) :=
    hvalid.increasing.filter _
  have hself : (searchKey, v) ∈ entries <->
      (searchKey, v) ∈ entriesFrom searchKey entries := by
    rw [hmem]
    simp
  rw [hself]
  cases hes : entriesFrom searchKey entries with
  | nil => simp [runVisitor]
  | cons e rest =>
    rw [hes] at hsorted hmem
    have hle : searchKey ≤ e.1 := ((hmem e).mp (by simp)).2
    have hrest : (searchKey, v) ∉ rest := by
      intro hin
      exact absurd (rel_of_pairwise_cons hsorted hin) (not_lt.mpr hle)
    by_cases hkey : e.1 = searchKey
    · simp [runVisitor, getVisitor, hrest, Prod.ext_iff, eq_comm]
    · simp [runVisitor, getVisitor, hrest, Prod.ext_iff, eq_comm]

theorem get_eq_map (r : DiskBtreeReader) (fuel : Nat) (searchKey : List UInt8) :
    r.get fuel searchKey =
      (r.visit (getVisitor searchKey) fuel searchKey .forwards none).map Prod.fst := by
  unfold DiskBtreeReader.get
  cases r.visit (getVisitor searchKey) fuel searchKey .forwards none <;> rfl

theorem readsBack_of_stored {keyLen h : Nat} {r : DiskBtreeReader}
    {blocks : List (List UInt8)} {rows : List Row} (hmounted : Mounted r blocks)
    (hheight : h < 256) (hstored : Stored blocks h r.rootBlk rows) (hne : rows ≠ [])
    (hvalid : ValidEntries keyLen (rows.map toEntry)) (searchKey : List UInt8) :
    ReadsBack r (rows.map toEntry) searchKey := by
  have hsorted := hvalid.sorted rfl
  have hforwards : forall (state : Type)
      (visitor : state -> List UInt8 -> Nat -> state × Bool) (st : state),
      Returns (fun fuel => r.visit visitor fuel searchKey .forwards st)
        (runVisitor visitor (entriesFrom searchKey (rows.map toEntry)) st) := by
    intro state visitor st
    have hscans : Scans visitor r searchKey .forwards (r.rootBlk, none)
        (scanned searchKey .forwards rows) :=
      scans_stored visitor hmounted hheight hstored hsorted hne trivial
    have hvisit := visit_of_scans visitor hscans st
    rwa [map_scanned_forwards] at hvisit
  constructor
  · have hget := (hforwards _ (getVisitor searchKey) none).map Prod.fst
    refine ⟨_, ?_, runVisitor_get hvalid searchKey⟩
    simpa only [get_eq_map] using hget
  · exact hforwards
  · intro state visitor st
    rcases exists_cons_of_ne_nil hne with ⟨first, rest, hrows⟩
    rcases le_or_gt first.1 searchKey with hle | hlt
    · have hsome : entriesUpTo searchKey (rows.map toEntry) ≠ [] := by
        apply ne_nil_of_mem (a := toEntry first)
        apply mem_filter.mpr
        exact ⟨by simp [hrows], decide_eq_true hle⟩
      have hscans := scans_stored visitor hmounted hheight hstored hsorted hne
        (show Entered searchKey .backwards rows from
          ⟨first, by rw [hrows]; rfl, hle⟩)
      have hvisit := visit_of_scans visitor hscans st
      rw [map_scanned_backwards] at hvisit
      rw [if_neg hsome]
      exact hvisit
    · have habove : forall e, e ∈ rows -> searchKey < e.1 := by
        intro e he
        rw [hrows] at he hsorted
        rcases mem_cons.mp he with rfl | he
        · exact hlt
        · exact lt_trans hlt (rel_of_pairwise_cons hsorted he)
      have hnone : entriesUpTo searchKey (rows.map toEntry) = [] := by
        apply filter_eq_nil_iff.mpr
        intro e he
        rcases mem_map.mp he with ⟨row, hrow, rfl⟩
        exact fun hle => absurd (of_decide_eq_true hle) (not_le.mpr (habove row hrow))
      rw [if_pos hnone]
      exact visit_above visitor hmounted hstored hsorted hne habove st
  · apply intoStream_of_visit
    have hstream := hforwards _ collect []
    rwa [runVisitor_collect] at hstream

end Agreement

open DiskBtreeBuilder in
/--
A tree built from entries in increasing order of their keys, with at most 255
bytes in a key, is read back from any file that it is put into.
-/
theorem build_readsBack {keyLen : Nat} (hkeyLen : keyLen ≤ 255)
    {entries : List (List UInt8 × Nat)} (hvalid : ValidEntries keyLen entries)
    (hne : entries ≠ []) :
    exists rootBlk blocks, build keyLen entries = .ok (rootBlk, blocks) ∧
      forall r : DiskBtreeReader, r.rootBlk = rootBlk -> Mounted r blocks ->
        forall searchKey, ReadsBack r entries searchKey := by
  rcases build_spec hkeyLen hvalid hne with
    ⟨root, blocks, top, rows, hbuild, rfl, hstored, hheight⟩
  refine ⟨root % 2 ^ 32, blocks, hbuild, ?_⟩
  intro r hroot hmounted searchKey
  have hroom := hmounted.room
  have hrootEq : r.rootBlk = root := by
    rcases hstored with ⟨_, ⟨buf, _, hbuf, _⟩, _⟩
    have hlt := (List.getElem?_eq_some_iff.mp hbuf).1
    rw [hroot]
    exact Nat.mod_eq_of_lt (by omega)
  rw [← hrootEq] at hstored
  exact readsBack_of_stored hmounted (hheight.lt (by omega)) hstored
    (fun hnil => hne (by rw [hnil]; rfl)) hvalid searchKey

/-- Keys of which a page holds only 31. -/
def longEntries : List (List UInt8 × Nat) :=
  (List.range 32).map (fun i => (UInt8.ofNat i :: List.replicate 254 0, i))

theorem validEntries_longEntries : ValidEntries 255 longEntries :=
  ⟨by decide +kernel, by decide +kernel, by decide +kernel⟩

theorem build_readsBack_split :
    exists blocks, DiskBtreeBuilder.build 255 longEntries = .ok (2, blocks) ∧
      blocks.length = 3 ∧
      ReadsBack ⟨0, 2, blocks⟩ longEntries (31 :: List.replicate 254 0) := by
  have hsize : (DiskBtreeBuilder.build 255 longEntries).map
      (fun built => (built.1, built.2.length)) = .ok (2, 3) := by
    decide +kernel
  rcases build_readsBack (by decide) validEntries_longEntries (by decide) with
    ⟨rootBlk, blocks, hbuild, hreads⟩
  rw [hbuild] at hsize
  injection hsize with hpair
  injection hpair with hroot hlength
  subst hroot
  refine ⟨blocks, hbuild, hlength, hreads _ rfl ⟨?_, ?_⟩ _⟩
  · intro i buf hbuf
    rwa [Nat.zero_add]
  · show 0 + blocks.length ≤ 2 ^ 32
    rw [show blocks.length = 3 from hlength]
    decide

/--
A tree without entries has no page to write.  The length of a suffix is written
as one byte, so a key of 256 bytes is not found again.
-/
theorem build_empty_longKey :
    DiskBtreeBuilder.build 3 [] = .error (.panic .noChildren) ∧
      (do
        let (rootBlk, blocks) <-
          DiskBtreeBuilder.build 256 [(List.replicate 256 0, 7)]
        DiskBtreeReader.get ⟨0, rootBlk, blocks⟩ 2 (List.replicate 256 0)) = .ok none := by
  constructor
  · decide +kernel
  · decide +kernel

end DiskBtree

end Pageserver
end OpenNeon

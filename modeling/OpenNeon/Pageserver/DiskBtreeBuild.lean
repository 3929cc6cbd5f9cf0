import OpenNeon.Pageserver.DiskBtreeNode

/-!
# Building the on-disk B-tree

What a block holds is told by its height: a leaf holds its rows, and a page above
holds what its children hold, one after the other.  The builder's stack of
unfinished pages holds, together with the blocks already written, all entries
appended so far.
-/

namespace OpenNeon
namespace Pageserver

open Base List
open BuildNode (Sorted Holds)

namespace DiskBtree

open Value

/-!
## What blocks hold
-/

def PageAt (blocks : List (List UInt8)) (blk : Nat) (level : UInt8) (rows : List Row) : Prop :=
  exists buf node, blocks[blk]? = some buf ∧ OnDiskNode.deparse buf = .ok node ∧
    node.level = level ∧ node.HasRows rows

/--
Rows that link to children: the key of a row is the first key below it, and what
the children hold makes up the entries.
-/
inductive Covers (stored : Nat -> List Row -> Prop) :
    List Row -> List Row -> Prop where
  | nil : Covers stored [] []
  | cons {blk : Nat} {first : Row} {front rows rest : List Row} :
      stored blk (first :: front) -> Covers stored rows rest ->
        Covers stored ((first.1, fromBlknum blk) :: rows) (first :: front ++ rest)

def Contents (blocks : List (List UInt8)) :
    Nat -> List Row -> List Row -> Prop
  | 0, rows, es => rows = es
  | h + 1, rows, es =>
    Covers (fun blk es => exists rows, PageAt blocks blk (UInt8.ofNat h) rows ∧
      Contents blocks h rows es) rows es

/-- The block is the top of a tree of a height that holds these entries. -/
def Stored (blocks : List (List UInt8)) (h blk : Nat) (es : List Row) : Prop :=
  exists rows, PageAt blocks blk (UInt8.ofNat h) rows ∧ Contents blocks h rows es

variable {stored : Nat -> List Row -> Prop} {rows es : List Row} {blocks : List (List UInt8)}
  {h value : Nat} {stack : List BuildNode} {b : DiskBtreeBuilder} {key : List UInt8}
  {entries : List (List UInt8 × Nat)}

theorem Covers.mono {stored' : Nat -> List Row -> Prop}
    (hmono : forall blk es, stored blk es -> stored' blk es) (h : Covers stored rows es) :
    Covers stored' rows es := by
  induction h with
  | nil => exact .nil
  | cons hstored _ ih => exact .cons (hmono _ _ hstored) ih

theorem Covers.append {rows' es' : List Row} (h : Covers stored rows es)
    (h' : Covers stored rows' es') : Covers stored (rows ++ rows') (es ++ es') := by
  induction h with
  | nil => exact h'
  | cons hstored _ ih =>
    rw [append_assoc]
    exact .cons hstored ih

theorem Covers.head? (h : Covers stored rows es) :
    rows.head?.map Prod.fst = es.head?.map Prod.fst := by
  cases h with
  | nil => rfl
  | cons => rfl

theorem Covers.keys_sublist (h : Covers stored rows es) :
    (rows.map Prod.fst).Sublist (es.map Prod.fst) := by
  induction h with
  | nil => exact List.Sublist.refl _
  | @cons blk first front rows rest hstored _ ih =>
    simp only [map_append]
    exact (ih.trans (sublist_append_right _ _)).cons_cons _

section Contents

variable {blocks blocks' : List (List UInt8)} {h : Nat} {rows es : List Row}

variable {blk : Nat}

theorem PageAt.mono (hblocks : blocks <+: blocks') {level : UInt8}
    (hpage : PageAt blocks blk level rows) : PageAt blocks' blk level rows := by
  rcases hpage with ⟨buf, node, hbuf, hnode⟩
  rcases hblocks with ⟨more, rfl⟩
  have hlt := (List.getElem?_eq_some_iff.mp hbuf).1
  exact ⟨buf, node, by rw [List.getElem?_append_left hlt, hbuf], hnode⟩

theorem Contents.mono (hblocks : blocks <+: blocks')
    (hcontents : Contents blocks h rows es) : Contents blocks' h rows es := by
  induction h generalizing rows es with
  | zero => exact hcontents
  | succ h ih =>
    apply Covers.mono _ hcontents
    intro blk es hstored
    rcases hstored with ⟨rows, hpage, hbelow⟩
    exact ⟨rows, hpage.mono hblocks, ih hbelow⟩

theorem Contents.append {rows' es' : List Row} (hcontents : Contents blocks h rows es)
    (hcontents' : Contents blocks h rows' es') :
    Contents blocks h (rows ++ rows') (es ++ es') := by
  cases h with
  | zero => exact congrArg₂ (· ++ ·) hcontents hcontents'
  | succ h => exact Covers.append hcontents hcontents'

section

variable (hcontents : Contents blocks h rows es)

include hcontents

theorem Contents.head? : rows.head?.map Prod.fst = es.head?.map Prod.fst := by
  cases h with
  | zero => rw [show rows = es from hcontents]
  | succ h => exact Covers.head? hcontents

theorem Contents.ne_nil (hne : es ≠ []) : rows ≠ [] := by
  rintro rfl
  exact hne (head?_eq_none_iff.mp (Option.map_eq_none_iff.mp hcontents.head?.symm))

theorem Contents.keys_sublist : (rows.map Prod.fst).Sublist (es.map Prod.fst) := by
  cases h with
  | zero => rw [show rows = es from hcontents]
  | succ h => exact Covers.keys_sublist hcontents

theorem Contents.sorted (hsorted : Sorted es) : Sorted rows := by
  have hkeys := (pairwise_map (f := Prod.fst)).mpr hsorted
  exact pairwise_map.mp (hkeys.sublist hcontents.keys_sublist)

end

theorem Stored.contents {first : Row} (hstored : Stored blocks h blk es)
    (hfirst : es.head? = some first) :
    Contents blocks (h + 1) [(first.1, fromBlknum blk)] es := by
  rcases head?_eq_some_iff.mp hfirst with ⟨front, rfl⟩
  have hcovers : Covers (Stored blocks h) [(first.1, fromBlknum blk)]
      (first :: front ++ []) := .cons hstored .nil
  rwa [append_nil] at hcovers

end Contents

/-!
## The stack of unfinished pages
-/

/-- The pages of a stack from a height on, and the blocks below them, hold entries. -/
def Spine (keyLen : Nat) (blocks : List (List UInt8)) :
    Nat -> List BuildNode -> List Row -> Prop
  | _, [], es => es = []
  | h, n :: above, es =>
    exists rows front back, es = front ++ back ∧ Holds keyLen n rows ∧
      n.level = UInt8.ofNat h ∧ Contents blocks h rows back ∧
      Spine keyLen blocks (h + 1) above front

variable {blocks' : List (List UInt8)} {last : BuildNode}

theorem Spine.mono (hblocks : blocks <+: blocks') (hspine : Spine keyLen blocks h stack es) :
    Spine keyLen blocks' h stack es := by
  induction stack generalizing h es with
  | nil => exact hspine
  | cons n above ih =>
    rcases hspine with ⟨rows, front, back, hes, hholds, hlevel, hback, hfront⟩
    exact ⟨rows, front, back, hes, hholds, hlevel, hback.mono hblocks, ih hfront⟩

/--
A full page of a height has at least this many blocks below it for each of its
rows, as every page below has two rows or more.
-/
def blocksPerRow (h : Nat) : Nat := 2 ^ h - 1

theorem blocksPerRow_succ (h : Nat) : blocksPerRow (h + 1) = 2 * blocksPerRow h + 1 := by
  have hpos : 0 < 2 ^ h := Nat.two_pow_pos h
  simp only [blocksPerRow]
  omega

/-- The blocks that full pages below a stack take up. -/
def weight : Nat -> List BuildNode -> Nat
  | _, [] => 0
  | h, n :: above => n.numChildren * blocksPerRow h + weight (h + 1) above

/-- How an appended row changes the stack and the blocks written. -/
structure Grown (h : Nat) (stack : List BuildNode) (blocks : List (List UInt8))
    (stack' : List BuildNode) (blocks' : List (List UInt8)) : Prop where
  written : blocks <+: blocks'
  weighed : forall slack, weight h stack + blocksPerRow h + slack ≤ blocks.length ->
    weight h stack' + slack ≤ blocks'.length
  taller : stack'.length = stack.length ∨ (stack'.length = stack.length + 1 ∧
    forall n, n ∈ stack' -> n.numChildren = 1)
  lone : forall n, stack.head? = some n -> n.numChildren ≤ 1 ->
    stack'.tail = stack.tail

section Grown

variable {h : Nat} {last node : BuildNode} {parents : List BuildNode}
variable {blocks : List (List UInt8)}

theorem grown_pushed (hcount : node.numChildren = last.numChildren + 1) :
    Grown h (last :: parents) blocks (node :: parents) blocks := by
  constructor
  · exact prefix_refl _
  · intro slack hle
    simp only [weight, hcount, Nat.add_mul] at hle ⊢
    omega
  · exact .inl rfl
  · intro _ _ _
    rfl

theorem blocksPerRow_of_full {count : Nat} (hcount : 2 ≤ count) :
    blocksPerRow (h + 1) ≤ count * blocksPerRow h + 1 := by
  have hmul : 2 * blocksPerRow h ≤ count * blocksPerRow h :=
    Nat.mul_le_mul_right _ hcount
  rw [blocksPerRow_succ]
  omega

theorem grown_root {root : BuildNode} (buf : List UInt8)
    (hfull : 2 ≤ last.numChildren) (hnode : node.numChildren = 1)
    (hroot : root.numChildren = 1) :
    Grown h [last] blocks [node, root] (blocks ++ [buf]) := by
  have hrow := blocksPerRow_of_full (h := h) hfull
  constructor
  · exact prefix_append _ _
  · intro slack hle
    simp only [weight, hnode, hroot, length_append, length_singleton,
      Nat.one_mul, Nat.add_zero] at hle ⊢
    omega
  · simp [hnode, hroot]
  · intro n hhead hle
    cases hhead
    omega

theorem grown_flushed {parents' : List BuildNode} {blocks' : List (List UInt8)}
    (buf : List UInt8) (hfull : 2 ≤ last.numChildren)
    (hnode : node.numChildren = 1)
    (hgrown : Grown (h + 1) parents (blocks ++ [buf]) parents' blocks') :
    Grown h (last :: parents) blocks (node :: parents') blocks' := by
  have hrow := blocksPerRow_of_full (h := h) hfull
  constructor
  · exact (prefix_append _ _).trans hgrown.written
  · intro slack hle
    have hparents := hgrown.weighed (blocksPerRow h + slack) (by
      simp only [weight, length_append, length_singleton] at hle ⊢
      omega)
    simp only [weight, hnode]
    omega
  · rcases hgrown.taller with hlen | ⟨hlen, hsingle⟩
    · exact .inl (by simp [hlen])
    · refine .inr ⟨by simp [hlen], ?_⟩
      exact forall_mem_cons.mpr ⟨hnode, hsingle⟩
  · intro n hhead hle
    cases hhead
    omega

end Grown

/-!
## Appending
-/

open DiskBtreeBuilder

variable {keyLen : Nat}

theorem writeBlk_eq {buf : List UInt8} (hbuf : buf.length = PAGE_SZ) :
    writeBlk blocks buf = .ok (blocks.length % 2 ^ 32, blocks ++ [buf]) :=
  if_pos hbuf

theorem fromBlknum_mod (x : Nat) : fromBlknum (x % 2 ^ 32) = fromBlknum x := by
  unfold fromBlknum
  congr 1
  all_goals
    apply UInt8.toNat_inj.mp
    simp only [UInt8.toNat_ofNat']
    omega

theorem pack_stored {n : BuildNode} {back : List Row} (hkeyLen : keyLen ≤ 255)
    (hholds : Holds keyLen n rows) (hlevel : n.level = UInt8.ofNat h)
    (hcontents : Contents blocks h rows back) :
    exists buf key, n.pack = .ok buf ∧ n.firstKey keyLen = .ok key ∧
      key.length = keyLen ∧
      writeBlk blocks buf = .ok (blocks.length % 2 ^ 32, blocks ++ [buf]) ∧
      Stored (blocks ++ [buf]) h blocks.length back ∧
      Contents (blocks ++ [buf]) (h + 1) [(key, fromBlknum (blocks.length % 2 ^ 32))] back := by
  rcases hholds.pack hkeyLen with ⟨buf, hpack, hlen, hdeparse⟩
  obtain ⟨first, hfirst⟩ : exists first, rows.head? = some first :=
    Option.isSome_iff_exists.mp (by simp [hholds.nonempty])
  have hstored : Stored (blocks ++ [buf]) h blocks.length back :=
    ⟨rows, ⟨buf, n.onDisk, by simp, hdeparse, hlevel, hholds.onDisk_hasRows⟩,
      hcontents.mono (prefix_append _ _)⟩
  refine ⟨buf, first.1, hpack, hholds.firstKey hfirst,
    hholds.keyLens first (mem_of_head? hfirst), writeBlk_eq hlen, hstored, ?_⟩
  have hhead := hcontents.head?
  rw [hfirst] at hhead
  rcases Option.map_eq_some_iff.mp hhead.symm with ⟨first', hfirst', hkey⟩
  rw [fromBlknum_mod, ← hkey]
  exact hstored.contents hfirst'

section Append

variable {last node : BuildNode} {parents : List BuildNode}
variable {blocks : List (List UInt8)} {h : Nat} {key : List UInt8} {value : Value}

theorem appendInternal_pushed (hpush : pushCompressed last key value = .ok (true, node)) :
    appendInternal keyLen last parents blocks key value = .ok (node :: parents, blocks) := by
  unfold appendInternal
  rw [hpush]
  rfl

/--
The lowest page is full: it is written as a block whose link goes to the page
above, and the row starts a new page.
-/
structure Overflow (keyLen h : Nat) (last : BuildNode) (parents : List BuildNode)
    (blocks : List (List UInt8)) (key : List UInt8) (value : Value)
    (front back : List Row) (full node : BuildNode) (buf downlinkKey : List UInt8) :
    Prop where
  push : pushCompressed last key value = .ok (false, full)
  pack : full.pack = .ok buf
  first : full.firstKey keyLen = .ok downlinkKey
  write : writeBlk blocks buf = .ok (blocks.length % 2 ^ 32, blocks ++ [buf])
  start : startNode full.level key value = .ok node
  level : full.level = UInt8.ofNat h
  two : 2 ≤ last.numChildren
  one : node.numChildren = 1
  keyLength : downlinkKey.length = keyLen
  link : Contents (blocks ++ [buf]) (h + 1)
    [(downlinkKey, fromBlknum (blocks.length % 2 ^ 32))] back
  above : Spine keyLen blocks (h + 1) parents front
  holds : Holds keyLen node [(key, value)]
  nodeLevel : node.level = UInt8.ofNat h

variable {es1 : List Row}

section

variable (hkeyLen : keyLen ≤ 255) (hspine : Spine keyLen blocks h (last :: parents) es)
  (hkey : key.length = keyLen) (hrow : Contents blocks h [(key, value)] es1)
  (hsorted : Sorted (es ++ es1))

include hkeyLen hspine hkey hrow hsorted

theorem push_or_overflow :
    (exists node, pushCompressed last key value = .ok (true, node) ∧
      node.numChildren = last.numChildren + 1 ∧
      Spine keyLen blocks h (node :: parents) (es ++ es1)) ∨
      exists front back full node buf downlinkKey, es = front ++ back ∧
        Overflow keyLen h last parents blocks key value front back full node buf
          downlinkKey := by
  rcases hspine with ⟨rows, front, back, rfl, hholds, hlevel, hback, hfront⟩
  have hsub : back.Sublist (front ++ back ++ es1) :=
    (sublist_append_right front back).trans (sublist_append_left _ es1)
  rcases hholds.pushCompressed (hback.sorted (hsorted.sublist hsub)) hkeyLen hkey
    value with ⟨node, hpush, hnode, hlevel'⟩ | ⟨full, hpush, hfull, hlevel', htwo⟩
  · left
    refine ⟨node, hpush, ?_, _, front, back ++ es1, append_assoc _ _ _, hnode,
      hlevel'.trans hlevel, hback.append hrow, hfront⟩
    rw [hnode.count, hholds.count, length_append, length_singleton]
  · right
    rcases pack_stored hkeyLen hfull (hlevel'.trans hlevel) hback with
      ⟨buf, downlinkKey, hpack, hfirst, hlen, hwrite, _, hlink⟩
    rcases BuildNode.startNode_spec hkeyLen full.level hkey value with
      ⟨node, hstart, hnode, hnodeLevel⟩
    refine ⟨front, back, full, node, buf, downlinkKey, rfl, hpush, hpack, hfirst,
      hwrite, hstart, hlevel'.trans hlevel, ?_, hnode.count, hlen, hlink, hfront,
      hnode, hnodeLevel.trans (hlevel'.trans hlevel)⟩
    rw [hholds.count]
    exact htwo

/--
Appending a row to the lowest page keeps everything there is and adds what the
row stands for.  By induction on the pages above: a full page becomes a row of
the page above it.
-/
theorem appendInternal_spec :
    exists stack' blocks',
      appendInternal keyLen last parents blocks key value = .ok (stack', blocks') ∧
      Spine keyLen blocks' h stack' (es ++ es1) ∧
      Grown h (last :: parents) blocks stack' blocks' := by
  induction parents generalizing last blocks h key value es es1 with
  | nil =>
    rcases push_or_overflow hkeyLen hspine hkey hrow hsorted with
      ⟨node, hpush, hcount, hspine'⟩ |
      ⟨front, back, full, node, buf, downlinkKey, rfl, hover⟩
    · exact ⟨_, _, appendInternal_pushed hpush, hspine', grown_pushed hcount⟩
    · rcases BuildNode.pushCompressed_new hkeyLen (full.level + 1) hover.keyLength
        (fromBlknum (blocks.length % 2 ^ 32)) with
        ⟨root, hroot, hholds, hlevel⟩
      have hrootLevel : root.level = UInt8.ofNat (h + 1) := by
        rw [hlevel, hover.level, UInt8.ofNat_add]
        rfl
      have hfront : front = [] := hover.above
      refine ⟨[node, root], blocks ++ [buf], ?_, ⟨_, front ++ back, es1, rfl, hover.holds,
        hover.nodeLevel, hrow.mono (prefix_append _ _), _, [], front ++ back, rfl, hholds,
        hrootLevel, ?_, rfl⟩, grown_root buf hover.two hover.one hholds.count⟩
      · simp only [appendInternal, hover.push, hover.pack, hover.first, hover.write, hroot,
          hover.start, bind, Except.bind, pure, Except.pure, if_true, Bool.false_eq_true, if_false]
      · rw [hfront]
        exact hover.link
  | cons parent above ih =>
    rcases push_or_overflow hkeyLen hspine hkey hrow hsorted with
      ⟨node, hpush, hcount, hspine'⟩ |
      ⟨front, back, full, node, buf, downlinkKey, rfl, hover⟩
    · exact ⟨_, _, appendInternal_pushed hpush, hspine', grown_pushed hcount⟩
    · rcases ih (hover.above.mono (prefix_append _ [buf])) hover.keyLength
        hover.link (hsorted.sublist (sublist_append_left _ _)) with
        ⟨parents', blocks', hlink, hspine', hgrown⟩
      refine ⟨node :: parents', blocks', ?_, ⟨_, front ++ back, es1, rfl, hover.holds,
        hover.nodeLevel, hrow.mono ((prefix_append _ _).trans hgrown.written), hspine'⟩,
        grown_flushed buf hover.two hover.one hgrown⟩
      rw [appendInternal]
      simp only [hover.push, hover.pack, hover.first, hover.write, hlink, hover.start, bind,
        Except.bind, pure, Except.pure, Bool.false_eq_true, if_false]

end

end Append

/-!
## Entries in sequence
-/

def toEntry (r : Row) : List UInt8 × Nat :=
  (r.1, r.2.toU64)

structure Built (keyLen : Nat) (b : DiskBtreeBuilder) (es : List Row) : Prop where
  spine : Spine keyLen b.writer 0 b.stack es
  nonempty : es ≠ []
  weighed : weight 0 b.stack ≤ b.writer.length
  lastKey : b.lastKey = es.getLast?.map Prod.fst

theorem append_eq {parents stack' : List BuildNode} {v : Value}
    (hstack : b.stack = last :: parents) (hmax : value ≤ MAX_VALUE)
    (hlast : forall lastKey, b.lastKey = some lastKey -> lastKey < key)
    (hvalue : fromU64 value = .ok v)
    (happend : appendInternal keyLen last parents b.writer key v = .ok (stack', blocks')) :
    append keyLen b key value =
      .ok { writer := blocks', stack := stack', lastKey := some key } := by
  unfold append
  simp only [if_neg (not_lt.mpr hmax), hvalue, hstack]
  cases hlk : b.lastKey with
  | none => simp only [bind, Except.bind, pure, Except.pure, happend]
  | some lastKey =>
    simp only [if_neg (not_le.mpr (hlast lastKey hlk)), bind, Except.bind, pure,
      Except.pure, happend]

theorem append_first (hkeyLen : keyLen ≤ 255) (hkey : key.length = keyLen)
    (hmax : value ≤ MAX_VALUE) :
    exists b v, append keyLen new key value = .ok b ∧ v.toU64 = value ∧
      Built keyLen b [(key, v)] := by
  rcases fromU64_spec hmax with ⟨v, hvalue, hv⟩
  rcases BuildNode.pushCompressed_new hkeyLen 0 hkey v with
    ⟨node, hpush, hholds, hlevel⟩
  refine ⟨_, v, append_eq rfl hmax (fun lastKey hlast => nomatch hlast) hvalue
    (appendInternal_pushed hpush), hv, ?_⟩
  constructor
  · exact ⟨_, [], _, rfl, hholds, hlevel, rfl, rfl⟩
  · simp
  · simp [weight, blocksPerRow]
  · rfl

theorem Spine.stack_cons (hspine : Spine keyLen blocks h stack es) (hne : es ≠ []) :
    exists last parents, stack = last :: parents := by
  cases stack with
  | nil => exact absurd hspine hne
  | cons last parents => exact ⟨last, parents, rfl⟩

theorem Built.append (hb : Built keyLen b es) (hkeyLen : keyLen ≤ 255)
    (hkey : key.length = keyLen) (hmax : value ≤ MAX_VALUE) (hsorted : Sorted es)
    (hlt : forall r, r ∈ es -> r.1 < key) :
    exists b' v, append keyLen b key value = .ok b' ∧ v.toU64 = value ∧
      Built keyLen b' (es ++ [(key, v)]) := by
  rcases fromU64_spec hmax with ⟨v, hvalue, hv⟩
  rcases hb.spine.stack_cons hb.nonempty with ⟨last, parents, hstack⟩
  have hspine := hb.spine
  have hweighed := hb.weighed
  rw [hstack] at hspine hweighed
  have hsorted' : Sorted (es ++ [(key, v)]) := pairwise_concat hsorted hlt
  rcases appendInternal_spec hkeyLen hspine hkey (rfl : Contents b.writer 0 _ _)
    hsorted' with ⟨stack', blocks', happend, hspine', hgrown⟩
  refine ⟨_, v, append_eq hstack hmax ?_ hvalue happend, hv, hspine', by simp, ?_,
    by simp⟩
  · intro lastKey hlast
    rw [hb.lastKey] at hlast
    rcases Option.map_eq_some_iff.mp hlast with ⟨r, hr, rfl⟩
    exact hlt r (mem_of_getLast? hr)
  · exact hgrown.weighed 0 hweighed

structure ValidEntries (keyLen : Nat) (entries : List (List UInt8 × Nat)) : Prop where
  keyLens : forall e, e ∈ entries -> e.1.length = keyLen
  values : forall e, e ∈ entries -> e.2 ≤ MAX_VALUE
  increasing : entries.Pairwise (fun a b => a.1 < b.1)

theorem ValidEntries.sorted (h : ValidEntries keyLen entries)
    (hrows : rows.map toEntry = entries) : Sorted rows := by
  have hincreasing := h.increasing
  rw [← hrows] at hincreasing
  exact (pairwise_map (f := toEntry)).mp hincreasing

theorem Built.appendAll (hb : Built keyLen b es) (hkeyLen : keyLen ≤ 255)
    (hvalid : ValidEntries keyLen (es.map toEntry ++ entries)) :
    exists b' rows,
      entries.foldlM (fun b e => DiskBtreeBuilder.append keyLen b e.1 e.2) b = .ok b' ∧
      rows.map toEntry = es.map toEntry ++ entries ∧ Built keyLen b' rows := by
  induction entries generalizing b es with
  | nil => exact ⟨b, es, rfl, by simp, hb⟩
  | cons e entries ih =>
    have hpairs := pairwise_append.mp hvalid.increasing
    have hsorted : Sorted es := (pairwise_map (f := toEntry)).mp hpairs.1
    have hlt : forall r, r ∈ es -> r.1 < e.1 := by
      intro r hr
      exact hpairs.2.2 (toEntry r) (mem_map.mpr ⟨r, hr, rfl⟩) e (by simp)
    rcases hb.append hkeyLen (hvalid.keyLens e (by simp))
      (hvalid.values e (by simp)) hsorted hlt with ⟨b1, v, happend, hv, hb1⟩
    have hsnoc : (es ++ [(e.1, v)]).map toEntry ++ entries = es.map toEntry ++ e :: entries := by
      simp [toEntry, hv]
    rcases ih hb1 (by rw [hsnoc]; exact hvalid) with ⟨b', rows, hrun, hrows, hb'⟩
    refine ⟨b', rows, ?_, by rw [hrows, hsnoc], hb'⟩
    rw [foldlM_cons, happend]
    exact hrun

/-!
## Finishing
-/

theorem flushNode_spec (hkeyLen : keyLen ≤ 255) {parent : BuildNode} {above : List BuildNode}
    (hspine : Spine keyLen blocks h (last :: parent :: above) es) (hsorted : Sorted es) :
    exists stack' blocks',
      flushNode keyLen last parent above blocks = .ok (stack', blocks') ∧
      blocks <+: blocks' ∧ Spine keyLen blocks' (h + 1) stack' es ∧
      (stack'.length = above.length + 1 ∨ (stack'.length = above.length + 2 ∧
        forall n, n ∈ stack' -> n.numChildren = 1)) ∧
      (parent.numChildren ≤ 1 -> stack'.tail = above) := by
  rcases hspine with ⟨rows, front, back, rfl, hholds, hlevel, hback, hfront⟩
  rcases pack_stored hkeyLen hholds hlevel hback with
    ⟨buf, downlinkKey, hpack, hfirst, hlen, hwrite, _, hlink⟩
  rcases appendInternal_spec hkeyLen (hfront.mono (prefix_append _ [buf])) hlen
    hlink hsorted with ⟨stack', blocks', happend, hspine', hgrown⟩
  refine ⟨stack', blocks', ?_, (prefix_append _ _).trans hgrown.written,
    hspine', hgrown.taller, hgrown.lone parent rfl⟩
  simp only [flushNode, hpack, hfirst, hwrite, bind, Except.bind]
  exact happend

/--
A flush takes a page off the stack, unless it makes a new root; the pages have one row
each then, and no further root is made.
-/
theorem finishLoop_spec (hkeyLen : keyLen ≤ 255) {fuel extra : Nat}
    (hspine : Spine keyLen blocks h stack es) (hne : es ≠ []) (hsorted : Sorted es)
    (hextra : extra = 1 ∨ extra = 0 ∧ forall n, n ∈ stack.tail -> n.numChildren ≤ 1)
    (hfuel : stack.length + extra ≤ fuel + 1) :
    exists root blocks' top, finishLoop keyLen fuel stack blocks = .ok (root, blocks') ∧
      blocks <+: blocks' ∧ Spine keyLen blocks' top [root] es ∧
      top + 1 ≤ h + stack.length + extra := by
  induction fuel generalizing h stack blocks extra with
  | zero =>
    rcases hspine.stack_cons hne with ⟨root, parents, rfl⟩
    cases parents with
    | nil => exact ⟨root, blocks, h, rfl, prefix_refl _, hspine, Nat.le_add_right _ _⟩
    | cons parent above =>
      simp only [length_cons] at hfuel
      omega
  | succ fuel ih =>
    rcases hspine.stack_cons hne with ⟨last, parents, rfl⟩
    cases parents with
    | nil => exact ⟨last, blocks, h, rfl, prefix_refl _, hspine, Nat.le_add_right _ _⟩
    | cons parent above =>
      rcases flushNode_spec hkeyLen hspine hsorted with
        ⟨stack1, blocks1, hflush, hpre, hspine1, htaller, htail⟩
      obtain ⟨extra1, hextra1, hlen1⟩ : exists extra1, (extra1 = 1 ∨ extra1 = 0 ∧
          forall n, n ∈ stack1.tail -> n.numChildren ≤ 1) ∧
          stack1.length + extra1 + 1 = above.length + 2 + extra := by
        rcases hextra with rfl | ⟨rfl, hlone⟩
        · rcases htaller with hlen | ⟨hlen, hsingle⟩
          · exact ⟨1, .inl rfl, by omega⟩
          · exact ⟨0, .inr ⟨rfl, fun n hn => le_of_eq (hsingle n (mem_of_mem_tail hn))⟩, by omega⟩
        · have htail1 := htail (hlone parent (by simp))
          rcases hspine1.stack_cons hne with ⟨node, rest, rfl⟩
          cases htail1
          exact ⟨0, .inr ⟨rfl, fun n hn => hlone n (mem_cons_of_mem _ hn)⟩, rfl⟩
      simp only [length_cons] at hfuel ⊢
      rcases ih hspine1 hextra1 (by omega) with ⟨root, blocks', top, hloop, hpre', hroot, htop⟩
      refine ⟨root, blocks', top, ?_, hpre.trans hpre', hroot, by omega⟩
      simp only [finishLoop, hflush, bind, Except.bind, hloop]

theorem blocksPerRow_mono {h' : Nat} (hle : h ≤ h') : blocksPerRow h ≤ blocksPerRow h' :=
  Nat.sub_le_sub_right (Nat.pow_le_pow_right (by decide) hle) 1

theorem Spine.blocksPerRow_le_weight (hspine : Spine keyLen blocks h stack es) (hne : stack ≠ []) :
    blocksPerRow (h + stack.length - 1) ≤ weight h stack := by
  induction stack generalizing h es with
  | nil => exact absurd rfl hne
  | cons n above ih =>
    rcases hspine with ⟨rows, front, back, _, hholds, _, _, hfront⟩
    cases above with
    | nil =>
      have hpos : 1 ≤ n.numChildren := by
        rw [hholds.count]
        exact length_pos_iff.mpr hholds.nonempty
      exact Nat.le_mul_of_pos_left _ hpos
    | cons parent above =>
      have hle := ih hfront (by simp)
      simp only [length_cons] at hle ⊢
      rw [show h + (above.length + 1 + 1) - 1 = h + 1 + (above.length + 1) - 1 by
        omega]
      exact le_trans hle (Nat.le_add_left _ _)

def HeightFits (blocks : List (List UInt8)) (top : Nat) : Prop :=
  blocksPerRow (top - 1) ≤ blocks.length

theorem HeightFits.lt {top : Nat} (h : HeightFits blocks top)
    (hblocks : blocks.length ≤ 2 ^ 32) : top < 256 := by
  by_contra hge
  have hmono : blocksPerRow 33 ≤ blocksPerRow (top - 1) :=
    blocksPerRow_mono (by omega)
  have hlt : 2 ^ 32 < blocksPerRow 33 := by decide
  unfold HeightFits at h
  omega

theorem Built.finish (hb : Built keyLen b es) (hkeyLen : keyLen ≤ 255) (hsorted : Sorted es) :
    exists root blocks top, b.finish keyLen = .ok (root % 2 ^ 32, blocks) ∧
      Stored blocks top root es ∧ HeightFits blocks top := by
  rcases finishLoop_spec hkeyLen hb.spine hb.nonempty hsorted (.inl rfl) (le_refl _) with
    ⟨root, writer, top, hloop, hpre, hspine, htop⟩
  rcases hspine with ⟨rows, front, back, rfl, hholds, hlevel, hback, hfront⟩
  rcases pack_stored hkeyLen hholds hlevel hback with
    ⟨buf, _, hpack, _, _, hwrite, hstored, _⟩
  have hfrontNil : front = [] := hfront
  have hne : b.stack ≠ [] := by
    rcases hb.spine.stack_cons hb.nonempty with ⟨last, parents, hstack⟩
    rw [hstack]
    exact cons_ne_nil _ _
  refine ⟨writer.length, writer ++ [buf], top, ?_, ?_, ?_⟩
  · simp only [DiskBtreeBuilder.finish, hloop, hpack, bind, Except.bind]
    exact hwrite
  · rw [hfrontNil]
    exact hstored
  · calc blocksPerRow (top - 1) ≤ blocksPerRow (0 + b.stack.length - 1) :=
          blocksPerRow_mono (by omega)
      _ ≤ weight 0 b.stack := hb.spine.blocksPerRow_le_weight hne
      _ ≤ b.writer.length := hb.weighed
      _ ≤ (writer ++ [buf]).length := (hpre.trans (prefix_append _ _)).length_le

theorem build_spec (hkeyLen : keyLen ≤ 255) (hvalid : ValidEntries keyLen entries)
    (hne : entries ≠ []) :
    exists root blocks top rows, build keyLen entries = .ok (root % 2 ^ 32, blocks) ∧
      rows.map toEntry = entries ∧ Stored blocks top root rows ∧
      HeightFits blocks top := by
  cases entries with
  | nil => exact absurd rfl hne
  | cons e entries =>
    rcases append_first hkeyLen (hvalid.keyLens e (by simp))
      (hvalid.values e (by simp)) with ⟨b1, v, hfirst, hv, hb1⟩
    have hcons : [(e.1, v)].map toEntry ++ entries = e :: entries := by
      simp [toEntry, hv]
    rcases hb1.appendAll hkeyLen (by rw [hcons]; exact hvalid) with
      ⟨b, rows, hrun, hrows, hb⟩
    rw [hcons] at hrows
    rcases hb.finish hkeyLen (hvalid.sorted hrows) with
      ⟨root, blocks, top, hfinish, hstored, hheight⟩
    refine ⟨root, blocks, top, rows, ?_, hrows, hstored, hheight⟩
    simp only [build, foldlM_cons, hfirst, bind, Except.bind]
    rw [hrun]
    exact hfinish

end DiskBtree

end Pageserver
end OpenNeon

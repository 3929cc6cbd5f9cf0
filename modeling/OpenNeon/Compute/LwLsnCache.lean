import Mathlib.Data.List.Nodup
import OpenNeon.Base.OrdMap
import OpenNeon.Utils.Lsn

/-!
# The cache of last written LSNs

A compute remembers for some blocks the LSN at which they were last written.  For all
other blocks `maxLastWrittenLsn` is an upper bound; it takes up the LSN of every entry
that is evicted.
-/

namespace OpenNeon
namespace Compute

open Base List

structure RelFork where
  spcOid : UInt32
  dbOid : UInt32
  relNumber : UInt32
  forkNum : UInt32
  deriving DecidableEq

structure BufferTag where
  rel : RelFork
  blockNum : UInt32
  deriving DecidableEq

/-- Stands for no relation at all. -/
def InvalidOid : UInt32 := 0

def InvalidXLogRecPtr : Lsn := 0

def REL_METADATA_PSEUDO_BLOCKNO : UInt32 := 0xffffffff

/-- Table and list are one here: the entries from the least to the most recently used. -/
structure LwLsnCache where
  lastWrittenLsnCacheSize : Nat
  maxLastWrittenLsn : Lsn
  lru : List (BufferTag × Lsn)
  size_ne : lastWrittenLsnCacheSize ≠ 0
  nodup : (lru.map Prod.fst).Nodup

namespace LwLsnCache

def find (c : LwLsnCache) (tag : BufferTag) : Option Lsn :=
  c.lru.lookup tag

/-- The least recently used entry goes if a new one makes them too many. -/
def makeRoom (c : LwLsnCache) : LwLsnCache :=
  if c.lastWrittenLsnCacheSize < c.lru.length + 1 then
    { c with
      maxLastWrittenLsn := max c.maxLastWrittenLsn (c.lru.head?.elim 0 Prod.snd)
      lru := c.lru.tail
      nodup := c.nodup.sublist (List.Sublist.map _ (tail_sublist _)) }
  else c

/-- Makes the entry of a block the most recently used one, with the given LSN. -/
def link (c : LwLsnCache) (tag : BufferTag) (lsn : Lsn) : LwLsnCache :=
  { c with
    lru := c.lru.filter (fun e => e.1 ≠ tag) ++ [(tag, lsn)]
    nodup := by
      rw [map_append, nodup_append]
      refine ⟨c.nodup.sublist (List.Sublist.map _ filter_sublist), by simp, ?_⟩
      intro a ha b hb
      obtain ⟨e, he, rfl⟩ := mem_map.mp ha
      cases mem_singleton.mp hb
      simpa using (mem_filter.mp he).2 }

/-- One turn of the loops that set an LSN; an entry never gets a lower LSN. -/
def enter (c : LwLsnCache) (tag : BufferTag) (lsn : Lsn) : LwLsnCache × Lsn :=
  match c.find tag with
  | some old => (c.link tag (max lsn old), max lsn old)
  | none => (c.makeRoom.link tag lsn, lsn)

/-- The blocks of a range; block numbers wrap around. -/
def blocks (rel : RelFork) (start : UInt32) : Nat -> List BufferTag
  | 0 => []
  | n + 1 => ⟨rel, start⟩ :: blocks rel (start + 1) n

/-- The LSN to set goes up to that of the entries met. -/
def enterBlocks (c : LwLsnCache) (lsn : Lsn) : List BufferTag -> LwLsnCache × Lsn
  | [] => (c, lsn)
  | tag :: rest => (c.enter tag lsn).1.enterBlocks (c.enter tag lsn).2 rest

def setLastWrittenLSNForBlockRangeInternal (c : LwLsnCache) (lsn : Lsn) (rel : RelFork)
    (start : UInt32) (nBlocks : Nat) : LwLsnCache × Lsn :=
  if rel.relNumber = InvalidOid then
    ({ c with maxLastWrittenLsn := max lsn c.maxLastWrittenLsn }, max lsn c.maxLastWrittenLsn)
  else c.enterBlocks lsn (blocks rel start nBlocks)

/-!
## Setters
-/

def setBlockRange (c : LwLsnCache) (lsn : Lsn) (rel : RelFork) (start : UInt32)
    (nBlocks : Nat) : LwLsnCache × Lsn :=
  if lsn = InvalidXLogRecPtr ∨ nBlocks = 0 ∨ c.lastWrittenLsnCacheSize = 0 then (c, lsn)
  else c.setLastWrittenLSNForBlockRangeInternal lsn rel start nBlocks

/-- The loop of `neon_set_lwlsn_block_v`, with the largest LSN so far. -/
def enterEach (c : LwLsnCache) (largest : Lsn) :
    List (BufferTag × Lsn) -> LwLsnCache × Lsn
  | [] => (c, largest)
  | (tag, lsn) :: rest =>
    if lsn = InvalidXLogRecPtr then c.enterEach largest rest
    else (c.enter tag lsn).1.enterEach (max largest (c.enter tag lsn).2) rest

def setBlockV (c : LwLsnCache) (lsns : List Lsn) (rel : RelFork) (blockno : UInt32) :
    LwLsnCache × Lsn :=
  if lsns = [] ∨ c.lastWrittenLsnCacheSize = 0 ∨ rel.relNumber = InvalidOid then
    (c, InvalidXLogRecPtr)
  else c.enterEach InvalidXLogRecPtr ((blocks rel blockno lsns.length).zip lsns)

/-!
## Lookups

A lookup that does not find a block gives the shared lock back and takes the exclusive
lock.
-/

/-- All entries and the maximum for the rest. -/
def maxOfAll (c : LwLsnCache) : Lsn :=
  c.lru.foldl (fun lsn e => max lsn e.2) c.maxLastWrittenLsn

/-- `neon_get_lwlsn` enters the maximum that it read under the shared lock. -/
def insertMissed (c : LwLsnCache) (lsn : Lsn) (rel : RelFork) (blkno : UInt32) : LwLsnCache × Lsn :=
  c.setLastWrittenLSNForBlockRangeInternal lsn rel blkno 1

/-- Blocks without an LSN get the maximum that is read under the exclusive lock. -/
def insertMissedV (c : LwLsnCache) (lsn : Lsn) : List (BufferTag × Lsn) -> LwLsnCache
  | [] => c
  | (tag, found) :: rest =>
    if found = InvalidXLogRecPtr then (c.enter tag lsn).1.insertMissedV lsn rest
    else c.insertMissedV lsn rest

/-!
## What the cache gives for a block
-/

def bound (c : LwLsnCache) (tag : BufferTag) : Lsn :=
  (c.find tag).getD c.maxLastWrittenLsn

theorem find_link (c : LwLsnCache) (tag t : BufferTag) (lsn : Lsn) :
    (c.link tag lsn).find t = if t = tag then some lsn else c.find t := by
  unfold find link
  rw [lookup_append, lookup_filter_ne]
  by_cases ht : t = tag
  · simp [ht]
  · rw [lookup_cons_ne ht, if_neg ht, if_neg ht]
    exact Option.or_none

theorem bound_link (c : LwLsnCache) (tag t : BufferTag) (lsn : Lsn) :
    (c.link tag lsn).bound t = if t = tag then lsn else c.bound t := by
  unfold bound
  rw [find_link]
  by_cases ht : t = tag
  · simp [ht]
  · simp [ht, link]

/-- The cache has not got a lower bound for any other block. -/
structure Above (c c' : LwLsnCache) (tags : List BufferTag) : Prop where
  max_le : c.maxLastWrittenLsn ≤ c'.maxLastWrittenLsn
  bound_le : forall t, t ∉ tags -> c.bound t ≤ c'.bound t

theorem above_makeRoom (c : LwLsnCache) : Above c c.makeRoom [] := by
  unfold makeRoom
  split
  · refine ⟨Nat.le_max_left _ _, fun t _ => ?_⟩
    obtain ⟨size, largest, lru, hsize, hnodup⟩ := c
    cases lru with
    | nil => simp
    | cons victim rest =>
      obtain ⟨key, lsn⟩ := victim
      simp only [bound, find, tail_cons]
      by_cases ht : t = key
      · -- the victim is counted in the maximum
        subst ht
        have hrest : rest.lookup t = none := by
          rw [lookup_eq_none_iff]
          intro e he
          have hne : t ≠ e.1 := fun heq =>
            (nodup_cons.mp hnodup).1 (mem_map.mpr ⟨e, he, heq.symm⟩)
          simpa using hne
        simp [hrest]
      · rw [lookup_cons_ne ht]
        cases rest.lookup t <;> simp
  · exact ⟨Nat.le_refl _, fun _ _ => Nat.le_refl _⟩

theorem above_enter (c : LwLsnCache) (tag : BufferTag) (lsn : Lsn) :
    Above c (c.enter tag lsn).1 [tag] ∧ lsn ≤ (c.enter tag lsn).2 ∧
      (c.enter tag lsn).1.bound tag = (c.enter tag lsn).2 ∧
      forall old, c.find tag = some old -> old ≤ (c.enter tag lsn).2 := by
  unfold enter
  cases hfind : c.find tag with
  | some old =>
    refine ⟨⟨Nat.le_refl _, fun t ht => ?_⟩, Nat.le_max_left _ _, ?_, ?_⟩
    · rw [bound_link, if_neg (by simpa using ht)]
    · rw [bound_link, if_pos rfl]
    · rintro _ ⟨⟩
      exact Nat.le_max_right _ _
  | none =>
    have hroom := above_makeRoom c
    refine ⟨⟨hroom.max_le, fun t ht => ?_⟩, Nat.le_refl _, ?_, fun old hold => by cases hold⟩
    · rw [bound_link, if_neg (by simpa using ht)]
      exact hroom.bound_le t (by simp)
    · rw [bound_link, if_pos rfl]

end LwLsnCache

/-!
## LSNs that were set
-/

/-- For each block the largest LSN that was set for it. -/
abbrev Written := BufferTag -> Lsn

def Written.set (w : Written) (tag : BufferTag) (lsn : Lsn) : Written :=
  Function.update w tag (max (w tag) lsn)

def Written.setAll (w : Written) (writes : List (BufferTag × Lsn)) : Written :=
  writes.foldl (fun w e => w.set e.1 e.2) w

/-- No block gets a lower LSN than before. -/
def Written.Rising : Written -> List (BufferTag × Lsn) -> Prop
  | _, [] => True
  | w, (tag, lsn) :: rest => w tag ≤ lsn ∧ Rising (w.set tag lsn) rest

namespace LwLsnCache

variable {c c' : LwLsnCache} {w : Written} {tag : BufferTag} {lsn lsn' : Lsn}

/-- No lookup gives less than what was set. -/
def Covers (c : LwLsnCache) (w : Written) : Prop :=
  forall tag, w tag ≤ c.bound tag

theorem Covers.mono {w' : Written} (h : c.Covers w) (hle : forall tag, w' tag ≤ w tag) :
    c.Covers w' :=
  fun tag => Nat.le_trans (hle tag) (h tag)

theorem Covers.enter (h : c.Covers w) (hfind : c.find tag = none -> w tag ≤ lsn)
    (hle : lsn' ≤ lsn) : (c.enter tag lsn).1.Covers (w.set tag lsn') := by
  obtain ⟨habove, hlsn, hbound, hold⟩ := above_enter c tag lsn
  intro t
  by_cases ht : t = tag
  · subst ht
    rw [hbound, Written.set, Function.update_self]
    refine Nat.max_le.mpr ⟨?_, Nat.le_trans hle hlsn⟩
    cases hcached : c.find t with
    | none => exact Nat.le_trans (hfind hcached) hlsn
    | some old =>
      have hw := h t
      rw [bound, hcached] at hw
      exact Nat.le_trans hw (hold old hcached)
  · rw [Written.set, Function.update_of_ne ht]
    exact Nat.le_trans (h t) (habove.bound_le t (by simpa using ht))

theorem Covers.of_enter (h : c.Covers w) (hfind : c.find tag = none -> w tag ≤ lsn) :
    (c.enter tag lsn).1.Covers w :=
  (h.enter hfind (Nat.zero_le lsn)).mono (fun t => by
    by_cases ht : t = tag
    · simp [Written.set, ht]
    · simp [Written.set, ht])

theorem max_le_enter : c.maxLastWrittenLsn ≤ (c.enter tag lsn).1.maxLastWrittenLsn :=
  (above_enter c tag lsn).1.max_le

theorem Covers.enterBlocks (tags : List BufferTag) (h : c.Covers w) (hle : lsn' ≤ lsn)
    (hrising : w.Rising (tags.map (fun tag => (tag, lsn')))) :
    (c.enterBlocks lsn tags).1.Covers (w.setAll (tags.map (fun tag => (tag, lsn')))) ∧
      c.maxLastWrittenLsn ≤ (c.enterBlocks lsn tags).1.maxLastWrittenLsn := by
  induction tags generalizing c w lsn with
  | nil => exact ⟨h, Nat.le_refl _⟩
  | cons tag rest ih =>
    obtain ⟨hfirst, hrest⟩ := hrising
    have hcovers := h.enter (fun _ => Nat.le_trans hfirst hle) hle
    have hlsn := (above_enter c tag lsn).2.1
    obtain ⟨hall, hmax⟩ := ih hcovers (Nat.le_trans hle hlsn) hrest
    exact ⟨hall, Nat.le_trans max_le_enter hmax⟩

theorem Covers.enterEach (writes : List (BufferTag × Lsn)) (h : c.Covers w) {largest : Lsn}
    (hrising : w.Rising (writes.filter (fun e => e.2 ≠ InvalidXLogRecPtr))) :
    (c.enterEach largest writes).1.Covers
        (w.setAll (writes.filter (fun e => e.2 ≠ InvalidXLogRecPtr))) ∧
      c.maxLastWrittenLsn ≤ (c.enterEach largest writes).1.maxLastWrittenLsn := by
  induction writes generalizing c w largest with
  | nil => exact ⟨h, Nat.le_refl _⟩
  | cons e rest ih =>
    obtain ⟨tag, lsn⟩ := e
    unfold LwLsnCache.enterEach
    by_cases hlsn : lsn = InvalidXLogRecPtr
    · rw [filter_cons_of_neg (by simpa using hlsn)] at hrising ⊢
      rw [if_pos hlsn]
      exact ih h hrising
    · rw [filter_cons_of_pos (by simpa using hlsn)] at hrising ⊢
      rw [if_neg hlsn]
      obtain ⟨hall, hmax⟩ := ih (h.enter (fun _ => hrising.1) (Nat.le_refl _)) hrising.2
      exact ⟨hall, Nat.le_trans max_le_enter hmax⟩

theorem Covers.insertMissedV (entries : List (BufferTag × Lsn)) (h : c.Covers w)
    (hle : forall tag, (tag, InvalidXLogRecPtr) ∈ entries -> w tag ≤ lsn) :
    (c.insertMissedV lsn entries).Covers w ∧
      c.maxLastWrittenLsn ≤ (c.insertMissedV lsn entries).maxLastWrittenLsn := by
  induction entries generalizing c with
  | nil => exact ⟨h, Nat.le_refl _⟩
  | cons e rest ih =>
    obtain ⟨tag, found⟩ := e
    have hrest : forall tag, (tag, InvalidXLogRecPtr) ∈ rest -> w tag ≤ lsn :=
      fun tag hmem => hle tag (mem_cons_of_mem _ hmem)
    unfold LwLsnCache.insertMissedV
    split
    next hfound =>
      subst hfound
      obtain ⟨hall, hmax⟩ := ih (h.of_enter (fun _ => hle tag mem_cons_self)) hrest
      exact ⟨hall, Nat.le_trans max_le_enter hmax⟩
    · exact ih h hrest

theorem bound_le_maxOfAll (c : LwLsnCache) (tag : BufferTag) : c.bound tag ≤ c.maxOfAll := by
  have hfold : forall (l : List (BufferTag × Lsn)) (lsn : Lsn),
      (l.lookup tag).getD lsn ≤ l.foldl (fun lsn e => max lsn e.2) lsn ∧
        lsn ≤ l.foldl (fun lsn e => max lsn e.2) lsn := by
    intro l
    induction l with
    | nil => exact fun lsn => ⟨Nat.le_refl _, Nat.le_refl _⟩
    | cons e l ih =>
      intro lsn
      obtain ⟨key, value⟩ := e
      obtain ⟨hlookup, hstart⟩ := ih (max lsn value)
      refine ⟨?_, Nat.le_trans (Nat.le_max_left _ _) hstart⟩
      by_cases htag : tag = key
      · subst htag
        simpa using Nat.le_trans (Nat.le_max_right _ _) hstart
      · rw [lookup_cons_ne htag]
        refine Nat.le_trans ?_ hlookup
        cases l.lookup tag <;> simp
  exact (hfold c.lru c.maxLastWrittenLsn).1

end LwLsnCache

end Compute
end OpenNeon

import OpenNeon.Base.Run
import OpenNeon.Base.System
import OpenNeon.Compute.LwLsnCache

/-!
# Lookups and setters of many processes

Every function holds the lock while it works on the cache, so its parts between taking
and releasing the lock are single steps.  A setter is one step, a lookup is one step or
two.  What was set before a lookup began is a lower bound for the LSN it returns, unless
a lookup enters a value that it read before the block was set and evicted.
-/

namespace OpenNeon
namespace Compute

open Base LwLsnCache List

/-- A lookup between its two parts, with what had been set when it began. -/
inductive Pending where
  | one (tag : BufferTag) (lsn : Lsn) (atStart : Lsn)
  | many (found : List (BufferTag × Lsn)) (atStart : Written)

/-- What a lookup returned for a block, and what had been set when it began. -/
structure Returned where
  tag : BufferTag
  lsn : Lsn
  atStart : Lsn
  deriving DecidableEq

structure Shared where
  cache : LwLsnCache
  written : Written
  pending : Nat -> Option Pending
  returned : List Returned

inductive Event where
  | setMax (lsn : Lsn)
  | setBlockRange (lsn : Lsn) (rel : RelFork) (start : UInt32) (nBlocks : Nat)
  | setBlockV (lsns : List Lsn) (rel : RelFork) (blockno : UInt32)
  | get (pid : Nat) (rel : RelFork) (blkno : UInt32)
  | getMissed (pid : Nat)
  | getV (pid : Nat) (rel : RelFork) (blkno : UInt32) (nblocks : Nat)
  | getVMissed (pid : Nat)

def Event.setBlock (lsn : Lsn) (rel : RelFork) (blkno : UInt32) : Event :=
  .setBlockRange lsn rel blkno 1

def Event.setRelation (lsn : Lsn) (rel : RelFork) : Event :=
  .setBlock lsn rel REL_METADATA_PSEUDO_BLOCKNO

def Event.setDb (lsn : Lsn) : Event :=
  .setBlock lsn ⟨InvalidOid, InvalidOid, InvalidOid, 0⟩ 0

def rangeWrites (lsn : Lsn) (rel : RelFork) (start : UInt32) (nBlocks : Nat) :
    List (BufferTag × Lsn) :=
  if lsn = InvalidXLogRecPtr ∨ rel.relNumber = InvalidOid then []
  else (blocks rel start nBlocks).map (fun tag => (tag, lsn))

def vWrites (lsns : List Lsn) (rel : RelFork) (blockno : UInt32) : List (BufferTag × Lsn) :=
  if rel.relNumber = InvalidOid then []
  else ((blocks rel blockno lsns.length).zip lsns).filter (fun e => e.2 ≠ InvalidXLogRecPtr)

def Event.writes : Event -> List (BufferTag × Lsn)
  | .setBlockRange lsn rel start nBlocks => rangeWrites lsn rel start nBlocks
  | .setBlockV lsns rel blockno => vWrites lsns rel blockno
  | _ => []

namespace Shared

def setPending (s : Shared) (pid : Nat) (p : Option Pending) : Nat -> Option Pending :=
  Function.update s.pending pid p

def returns (s : Shared) (found : List (BufferTag × Lsn)) (atStart : Written) : List Returned :=
  s.returned ++ found.map (fun e => ⟨e.1, e.2, atStart e.1⟩)

def lookup (s : Shared) (tags : List BufferTag) : List (BufferTag × Lsn) :=
  tags.map (fun tag => (tag, (s.cache.find tag).getD InvalidXLogRecPtr))

def next (s : Shared) (e : Event) : Option Shared :=
  match e with
  | .setMax lsn => some { s with cache := { s.cache with maxLastWrittenLsn := lsn } }
  | .setBlockRange lsn rel start nBlocks =>
    some { s with
      cache := (s.cache.setBlockRange lsn rel start nBlocks).1
      written := s.written.setAll e.writes }
  | .setBlockV lsns rel blockno =>
    some { s with
      cache := (s.cache.setBlockV lsns rel blockno).1
      written := s.written.setAll e.writes }
  | .get pid rel blkno =>
    if (s.pending pid).isSome then none
    else if rel.relNumber = InvalidOid then
      some { s with returned := s.returns [(⟨rel, blkno⟩, s.cache.maxOfAll)] s.written }
    else
      match s.cache.find ⟨rel, blkno⟩ with
      | some lsn => some { s with returned := s.returns [(⟨rel, blkno⟩, lsn)] s.written }
      | none =>
        some { s with
          pending := s.setPending pid
            (some (.one ⟨rel, blkno⟩ s.cache.maxLastWrittenLsn (s.written ⟨rel, blkno⟩))) }
  | .getMissed pid =>
    match s.pending pid with
    | some (.one tag lsn atStart) =>
      some { s with
        cache := (s.cache.insertMissed lsn tag.rel tag.blockNum).1
        pending := s.setPending pid none
        returned := s.returned ++
          [⟨tag, (s.cache.insertMissed lsn tag.rel tag.blockNum).2, atStart⟩] }
    | _ => none
  | .getV pid rel blkno nblocks =>
    if (s.pending pid).isSome then none
    else if rel.relNumber = InvalidOid then
      some { s with
        returned := s.returns
          ((blocks rel blkno nblocks).map (fun tag => (tag, s.cache.maxOfAll))) s.written }
    else if (blocks rel blkno nblocks).all (fun tag => (s.cache.find tag).isSome) then
      some { s with
        returned := s.returns (s.lookup (blocks rel blkno nblocks)) s.written }
    else
      some { s with
        pending := s.setPending pid (some (.many (s.lookup (blocks rel blkno nblocks)) s.written)) }
  | .getVMissed pid =>
    match s.pending pid with
    | some (.many found atStart) =>
      some { s with
        cache := s.cache.insertMissedV s.cache.maxLastWrittenLsn found
        pending := s.setPending pid none
        returned := s.returns (found.map (fun e => (e.1, if e.2 = InvalidXLogRecPtr
            then s.cache.maxLastWrittenLsn else e.2))) atStart }
    | _ => none

/-- The maximum is not lowered, the LSNs set for a block go up, and no lookup enters an
LSN below one that was set for the block since the lookup missed it. -/
def Fresh (s : Shared) (e : Event) : Prop :=
  s.written.Rising e.writes ∧
  match e with
  | .setMax lsn => s.cache.maxLastWrittenLsn ≤ lsn
  | .getMissed pid => forall tag lsn atStart, s.pending pid = some (.one tag lsn atStart) ->
      s.cache.find tag = none -> s.written tag ≤ lsn
  | .getVMissed pid => forall found atStart, s.pending pid = some (.many found atStart) ->
      forall tag, (tag, InvalidXLogRecPtr) ∈ found -> s.written tag ≤ s.cache.maxLastWrittenLsn
  | _ => True

end Shared

/-!
## Setters keep what was set
-/

variable {c : LwLsnCache} {w : Written} {s s' : Shared}

theorem LwLsnCache.Covers.raise {largest : Lsn} (h : c.Covers w)
    (hle : c.maxLastWrittenLsn ≤ largest) :
    Covers { c with maxLastWrittenLsn := largest } w := by
  intro tag
  refine Nat.le_trans (h tag) ?_
  unfold bound find
  cases c.lru.lookup tag with
  | none => exact hle
  | some lsn => exact Nat.le_refl _

variable {lsn : Lsn} {rel : RelFork} {tag : BufferTag} {pid : Nat}

theorem covers_setBlockRange {start : UInt32} {nBlocks : Nat} (h : c.Covers w)
    (hrising : w.Rising (rangeWrites lsn rel start nBlocks)) :
    (c.setBlockRange lsn rel start nBlocks).1.Covers
        (w.setAll (rangeWrites lsn rel start nBlocks)) ∧
      c.maxLastWrittenLsn ≤ (c.setBlockRange lsn rel start nBlocks).1.maxLastWrittenLsn := by
  unfold setBlockRange setLastWrittenLSNForBlockRangeInternal
  unfold rangeWrites at hrising ⊢
  by_cases hlsn : lsn = InvalidXLogRecPtr
  · rw [if_pos (.inl hlsn), if_pos (.inl hlsn)]
    exact ⟨h, Nat.le_refl _⟩
  by_cases hrel : rel.relNumber = InvalidOid
  · rw [if_pos (show lsn = InvalidXLogRecPtr ∨ rel.relNumber = InvalidOid from .inr hrel)]
    split
    · exact ⟨h, Nat.le_refl _⟩
    · exact ⟨h.raise (Nat.le_max_right _ _), Nat.le_max_right _ _⟩
  rw [if_neg (not_or.mpr ⟨hlsn, hrel⟩)] at hrising ⊢
  split
  next hnone =>
    rcases hnone with hnone | hnone | hnone
    · exact absurd hnone hlsn
    · subst hnone
      exact ⟨h, Nat.le_refl _⟩
    · exact absurd hnone c.size_ne
  · exact h.enterBlocks _ (Nat.le_refl lsn) hrising

theorem covers_setBlockV {lsns : List Lsn} {blockno : UInt32} (h : c.Covers w)
    (hrising : w.Rising (vWrites lsns rel blockno)) :
    (c.setBlockV lsns rel blockno).1.Covers (w.setAll (vWrites lsns rel blockno)) ∧
      c.maxLastWrittenLsn ≤ (c.setBlockV lsns rel blockno).1.maxLastWrittenLsn := by
  unfold setBlockV
  unfold vWrites at hrising ⊢
  by_cases hrel : rel.relNumber = InvalidOid
  · rw [if_pos (.inr (.inr hrel)), if_pos hrel]
    exact ⟨h, Nat.le_refl _⟩
  rw [if_neg hrel] at hrising ⊢
  split
  next hnone =>
    rcases hnone with hnone | hnone | hnone
    · subst hnone
      exact ⟨h, Nat.le_refl _⟩
    · exact absurd hnone c.size_ne
    · exact absurd hnone hrel
  · exact h.enterEach _ hrising

theorem covers_insertMissed (h : c.Covers w) (hrel : tag.rel.relNumber ≠ InvalidOid)
    (hfind : c.find tag = none -> w tag ≤ lsn) :
    (c.insertMissed lsn tag.rel tag.blockNum).1.Covers w ∧
      c.maxLastWrittenLsn ≤ (c.insertMissed lsn tag.rel tag.blockNum).1.maxLastWrittenLsn ∧
      lsn ≤ (c.insertMissed lsn tag.rel tag.blockNum).2 := by
  have henter : c.insertMissed lsn tag.rel tag.blockNum = c.enter tag lsn := by
    unfold insertMissed setLastWrittenLSNForBlockRangeInternal
    rw [if_neg hrel]
    rfl
  rw [henter]
  exact ⟨h.of_enter hfind, max_le_enter, (above_enter c tag lsn).2.1⟩

/-!
## Runs
-/

/-- A lookup that was missed will return enough. -/
def Pending.Kept (largest : Lsn) : Pending -> Prop
  | .one tag lsn atStart => tag.rel.relNumber ≠ InvalidOid ∧ atStart ≤ lsn
  | .many found atStart => forall e, e ∈ found ->
      atStart e.1 ≤ if e.2 = InvalidXLogRecPtr then largest else e.2

theorem Pending.Kept.mono {p : Pending} {largest largest' : Lsn} (h : p.Kept largest)
    (hle : largest ≤ largest') : p.Kept largest' := by
  cases p with
  | one tag lsn atStart => exact h
  | many found atStart =>
    intro e he
    refine Nat.le_trans (h e he) ?_
    split
    · exact hle
    · exact Nat.le_refl _

structure Sound (s : Shared) : Prop where
  covers : s.cache.Covers s.written
  pending : forall pid p, s.pending pid = some p -> p.Kept s.cache.maxLastWrittenLsn
  returned : forall r, r ∈ s.returned -> r.atStart ≤ r.lsn

section

variable (h : Sound s)

include h

theorem Sound.withCache (hcovers : c.Covers w)
    (hle : s.cache.maxLastWrittenLsn ≤ c.maxLastWrittenLsn) :
    Sound { s with cache := c, written := w } where
  covers := hcovers
  pending := fun pid p hp => (h.pending pid p hp).mono hle
  returned := h.returned

theorem Sound.withReturned {found : List (BufferTag × Lsn)} {atStart : Written}
    (hfound : forall e, e ∈ found -> atStart e.1 ≤ e.2) :
    Sound { s with returned := s.returns found atStart } where
  covers := h.covers
  pending := h.pending
  returned := by
    intro r hr
    rcases mem_append.mp hr with hr | hr
    · exact h.returned r hr
    · obtain ⟨e, he, rfl⟩ := mem_map.mp hr
      exact hfound e he

theorem Sound.withPending (pid : Nat) {p : Option Pending}
    (hp : forall q, p = some q -> q.Kept s.cache.maxLastWrittenLsn) :
    Sound { s with pending := s.setPending pid p } where
  covers := h.covers
  pending := by
    intro pid' q hq
    by_cases hpid : pid' = pid
    · subst hpid
      exact hp q (by simpa [Shared.setPending] using hq)
    · exact h.pending pid' q (by simpa [Shared.setPending, hpid] using hq)
  returned := h.returned

theorem Sound.le_of_find (hfind : s.cache.find tag = some lsn) : s.written tag ≤ lsn := by
  simpa [bound, hfind] using h.covers tag

theorem Sound.le_of_missed (hfind : s.cache.find tag = none) :
    s.written tag ≤ s.cache.maxLastWrittenLsn := by
  simpa [bound, hfind] using h.covers tag

theorem Sound.get {blkno : UInt32} (hnext : s.next (.get pid rel blkno) = some s') : Sound s' := by
  unfold Shared.next at hnext
  dsimp only at hnext
  split_ifs at hnext with hbusy hrel
  · cases hnext
    refine h.withReturned (fun e he => ?_)
    cases mem_singleton.mp he
    exact Nat.le_trans (h.covers _) (bound_le_maxOfAll _ _)
  · cases hfind : s.cache.find ⟨rel, blkno⟩ with
    | some lsn =>
      rw [hfind] at hnext
      cases hnext
      refine h.withReturned (fun e he => ?_)
      cases mem_singleton.mp he
      exact h.le_of_find hfind
    | none =>
      rw [hfind] at hnext
      cases hnext
      refine h.withPending pid ?_
      rintro _ ⟨⟩
      exact ⟨hrel, h.le_of_missed hfind⟩

theorem Sound.getV {blkno : UInt32} {nblocks : Nat}
    (hnext : s.next (.getV pid rel blkno nblocks) = some s') : Sound s' := by
  unfold Shared.next at hnext
  dsimp only at hnext
  split_ifs at hnext with hbusy hrel hall
  · cases hnext
    refine h.withReturned (fun e he => ?_)
    obtain ⟨tag, -, rfl⟩ := mem_map.mp he
    exact Nat.le_trans (h.covers _) (bound_le_maxOfAll _ _)
  · cases hnext
    refine h.withReturned (fun e he => ?_)
    obtain ⟨tag, htag, rfl⟩ := mem_map.mp he
    obtain ⟨lsn, hfind⟩ := Option.isSome_iff_exists.mp (all_eq_true.mp hall tag htag)
    simpa [hfind] using h.le_of_find hfind
  · cases hnext
    refine h.withPending pid ?_
    rintro _ ⟨⟩ e he
    obtain ⟨tag, -, rfl⟩ := mem_map.mp he
    dsimp only
    cases hfind : s.cache.find tag with
    | none => simpa using h.le_of_missed hfind
    | some lsn =>
      have hle := h.le_of_find hfind
      rw [Option.getD_some]
      split
      next hzero =>
        rw [hzero] at hle
        exact Nat.le_trans hle (Nat.zero_le _)
      · exact hle

theorem Sound.getMissed (hok : s.Fresh (.getMissed pid))
    (hnext : s.next (.getMissed pid) = some s') : Sound s' := by
  unfold Shared.next at hnext
  dsimp only at hnext
  split at hnext
  next tag lsn atStart hpending =>
    cases hnext
    obtain ⟨hrel, hstart⟩ := h.pending pid _ hpending
    obtain ⟨hcovers, hmax, hlsn⟩ :=
      covers_insertMissed h.covers hrel (hok.2 tag lsn atStart hpending)
    have hnone := h.withPending pid (p := none) (fun q hq => by cases hq)
    have hcache := hnone.withCache hcovers hmax
    exact ⟨hcache.covers, hcache.pending, forall_mem_concat h.returned (Nat.le_trans hstart hlsn)⟩
  · cases hnext

theorem Sound.getVMissed (hok : s.Fresh (.getVMissed pid))
    (hnext : s.next (.getVMissed pid) = some s') : Sound s' := by
  unfold Shared.next at hnext
  dsimp only at hnext
  split at hnext
  next found atStart hpending =>
    cases hnext
    obtain ⟨hcovers, hmax⟩ := h.covers.insertMissedV found (hok.2 found atStart hpending)
    have hnone := h.withPending pid (p := none) (fun q hq => by cases hq)
    refine (hnone.withCache hcovers hmax).withReturned (fun e he => ?_)
    obtain ⟨e, hmem, rfl⟩ := mem_map.mp he
    exact h.pending pid _ hpending e hmem
  · cases hnext

end

theorem Sound.next {e : Event} (h : Sound s) (hok : s.Fresh e) (hnext : s.next e = some s') :
    Sound s' := by
  cases e with
  | setMax lsn =>
    cases hnext
    exact h.withCache (h.covers.raise hok.2) hok.2
  | setBlockRange lsn rel start nBlocks =>
    cases hnext
    obtain ⟨hcovers, hmax⟩ := covers_setBlockRange h.covers hok.1
    exact h.withCache hcovers hmax
  | setBlockV lsns rel blockno =>
    cases hnext
    obtain ⟨hcovers, hmax⟩ := covers_setBlockV h.covers hok.1
    exact h.withCache hcovers hmax
  | get pid rel blkno => exact h.get hnext
  | getMissed pid => exact h.getMissed hok hnext
  | getV pid rel blkno nblocks => exact h.getV hnext
  | getVMissed pid => exact h.getVMissed hok hnext

/-- An empty cache, with the LSNs that the pages have. -/
def Shared.start (size : Nat) (hsize : size ≠ 0) (largest : Lsn) (pages : Written) : Shared where
  cache :=
    { lastWrittenLsnCacheSize := size
      maxLastWrittenLsn := largest
      lru := []
      size_ne := hsize
      nodup := nodup_nil }
  written := pages
  pending := fun _ => none
  returned := []

/-- No lookup returns less than what was set for the block before it began. -/
theorem lookup_not_too_old (size : Nat) (hsize : size ≠ 0) (largest : Lsn) (pages : Written)
    (hpages : forall tag, pages tag ≤ largest) (s : Shared)
    (h : Reached Shared.next Shared.Fresh (.start size hsize largest pages) s) :
    forall r, r ∈ s.returned -> r.atStart ≤ r.lsn := by
  have hstart : Sound (.start size hsize largest pages) :=
    ⟨hpages, (fun _ _ hp => by cases hp), (fun _ hr => by cases hr)⟩
  have hsound : Sound s := h.invariant hstart (fun _ _ _ hs hok hnext => hs.next hok hnext)
  exact hsound.returned

def someRel : RelFork :=
  ⟨1663, 5, 16384, 0⟩

/-- Block 7 is set and evicted, then looked up while another block is set. -/
theorem lookup_not_too_old_evicted :
    exists s, Reached Shared.next Shared.Fresh (.start 1 (by decide) 100 (fun _ => 0)) s ∧
      s.returned = [⟨⟨someRel, 7⟩, 200, 200⟩] ∧ forall r, r ∈ s.returned -> r.atStart ≤ r.lsn := by
  have hset : Reached Shared.next Shared.Fresh (.start 1 (by decide) 100 (fun _ => 0)) _ :=
    Reached.start.step (.setBlock 200 someRel 7) ⟨⟨by decide, trivial⟩, trivial⟩ rfl
  have hevict := hset.step (Event.setBlock 300 someRel 8) ⟨⟨by decide, trivial⟩, trivial⟩ rfl
  have hlookup := hevict.step (Event.get 1 someRel 7) ⟨trivial, trivial⟩ rfl
  have hother := hlookup.step (Event.setBlock 400 someRel 9) ⟨⟨by decide, trivial⟩, trivial⟩
    rfl
  have hinsert := hother.step (Event.getMissed 1) ⟨trivial, ?_⟩ rfl
  · exact ⟨_, hinsert, by decide, lookup_not_too_old 1 (by decide) 100 (fun _ => 0)
      (fun _ => Nat.zero_le _) _ hinsert⟩
  · rintro tag lsn atStart hpending -
    cases hpending
    decide

/-- A lookup misses block 7 and reads 100 as the maximum.  Before it goes on, the block is
set to 200 and evicted again by block 8.  The lookup then enters the block with 100, and
the next lookup returns that. -/
theorem lookup_too_old :
    exists s, Reached Shared.next (fun (s : Shared) e => s.written.Rising e.writes)
        (.start 1 (by decide) 100 (fun _ => 0)) s ∧
      exists r, r ∈ s.returned ∧ r.lsn < r.atStart := by
  have hlookup : Reached Shared.next (fun (s : Shared) e => s.written.Rising e.writes)
      (.start 1 (by decide) 100 (fun _ => 0)) _ :=
    Reached.start.step (.get 1 someRel 7) trivial rfl
  have hset := hlookup.step (Event.setBlock 200 someRel 7) ⟨Nat.zero_le _, trivial⟩ rfl
  have hevict := hset.step (Event.setBlock 300 someRel 8) ⟨by decide, trivial⟩ rfl
  have hinsert := hevict.step (Event.getMissed 1) trivial rfl
  have hagain := hinsert.step (Event.get 2 someRel 7) trivial rfl
  exact ⟨_, hagain, ⟨⟨someRel, 7⟩, 100, 200⟩, by decide, by decide⟩

end Compute
end OpenNeon

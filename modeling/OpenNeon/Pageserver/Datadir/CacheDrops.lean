import Mathlib.Algebra.BigOperators.Group.Finset.Basic
import Mathlib.Data.Int.ModEq
import OpenNeon.Pageserver.Datadir.CacheMoves

/-!
# What drops do to the caches

The drop of relations from the old directories removes their latest entries.  The drop
from the sparse directory and the drop of a database do not, so they are writes as the
others only where no latest entry is concerned.
-/

namespace OpenNeon
namespace Pageserver
namespace Datadir

open Base WalDecoder
open Prog (Keeps Yields)
open Prog.Yields (read_bind)

/-- The relations to drop are listed under their own database. -/
def DropRelations.Tagged (drops : DropRelations) : Prop :=
  forall entry, entry ∈ drops -> forall rel, rel ∈ entry.2 -> (rel.spcnode, rel.dbnode) = entry.1

theorem RelDirectory.contains_remove (d : RelDirectory) (rel r : RelTag) :
    (d.remove rel).contains r =
      ((r.relnode, r.forknum) != (rel.relnode, rel.forknum) && d.contains r) := by
  unfold contains remove
  rw [Bool.eq_iff_iff]
  simp only [List.contains_iff_mem, List.mem_filter, Bool.and_eq_true]
  exact and_comm

variable {rel : RelTag} {db : Oid × Oid} {s : State} {drops : DropRelations}

theorem toI64_modEq (x : Int) : toI64 x ≡ x [ZMOD 2 ^ 64] :=
  Int.bmod_emod

def State.blocksOf (s : State) (rel : RelTag) : Nat :=
  ((s.sizeOf rel).getD 0).toNat

theorem State.blocksOf_of_size {n : BlockNumber} (h : s.sizeOf rel = some n) :
    s.blocksOf rel = n.toNat := by
  unfold blocksOf
  rw [h]
  rfl

/-!
## The old directories
-/

/-- Some relations are taken out of a directory, with their blocks and latest entries. -/
structure Reduced (s s' : State) (db : Oid × Oid) (dir dir' : RelDirectory)
    (removed : Finset RelTag) : Prop where
  quiet : Quiet s s'
  behind : Behind s s'
  logical : s'.tline.currentLogicalSize = s.tline.currentLogicalSize
  nblocks : s'.modification.pendingNblocks + (∑ rel ∈ removed, s.blocksOf rel : Nat) ≡
    s.modification.pendingNblocks [ZMOD 2 ^ 64]
  cache : forall r, s'.cache r = if r ∈ removed then none else s.cache r
  removed_in : forall r, r ∈ removed -> (r.spcnode, r.dbnode) = db ∧ dir.contains r = true
  kept : forall r, (r.spcnode, r.dbnode) = db ->
    (dir'.contains r = true <-> dir.contains r = true ∧ r ∉ removed)
  nodup : dir.rels.Nodup -> dir'.rels.Nodup

structure TakenOut (s s' : State) (db : Oid × Oid) (dir : RelDirectory)
    (acc : RelDirectory × Bool) (removed : Finset RelTag) : Prop
    extends Reduced s s' db dir acc.1 removed where
  cur : s'.cur = s.cur
  clean : acc.2 = false -> acc.1 = dir

variable {s' : State} {dir dir' : RelDirectory} {acc : RelDirectory × Bool}
  {removed : Finset RelTag}

theorem TakenOut.start (s : State) (db : Oid × Oid) (dir : RelDirectory) :
    TakenOut s s db dir (dir, false) ∅ :=
  ⟨⟨refl s, refl s, rfl, by simp [Int.ModEq.refl], fun _ => rfl, nofun, fun _ _ => by simp, id⟩,
    rfl, fun _ => rfl⟩

theorem TakenOut.dropFromReldir (h : TakenOut s s' db dir acc removed)
    (hrel : (rel.spcnode, rel.dbnode) = db) :
    Yields (dropFromReldir acc rel) s' (fun acc' s'' =>
      exists removed', TakenOut s s'' db dir acc' removed') := by
  refine Yields.ite (fun hin => read_bind (fun old hold => ?_)) (fun _ => ⟨removed, h⟩)
  have hkept := (h.kept rel hrel).mp hin
  have hsize : s.sizeOf rel = some old := by
    have hcur := State.get_eq_ok hold
    rw [h.cur] at hcur
    exact hcur
  show exists removed', TakenOut s ((s'.addNblocks (-old.toNat)).removeCachedRelSize rel) db
    dir (acc.1.remove rel, true) removed'
  refine ⟨insert rel removed, ⟨?_, ?_, h.logical, ?_, ?_, ?_, ?_, ?_⟩, h.cur, nofun⟩
  · exact Trans.trans h.quiet (Trans.trans (calm_addNblocks _ s').quiet
      (quiet_removeCachedRelSize _ rel))
  · exact IsTrans.trans _ _ _ h.behind ⟨rfl, rfl, rfl, rfl, fun _ => Iff.rfl, fun _ _ _ => rfl,
      fun _ hwf => { hwf with }⟩
  · have hadded := toI64_modEq (s'.modification.pendingNblocks + -(old.toNat : Int))
    have hbefore := h.nblocks
    rw [Finset.sum_insert hkept.2, State.blocksOf_of_size hsize]
    show toI64 (s'.modification.pendingNblocks + -(old.toNat : Int)) + _ ≡ _ [ZMOD 2 ^ 64]
    unfold Int.ModEq at *
    omega
  · intro r
    have hcache : ((s'.addNblocks (-old.toNat)).removeCachedRelSize rel).cache r =
        if r = rel then none else s'.cache r := Function.update_apply _ _ _ _
    simp only [hcache, h.cache, Finset.mem_insert, ite_or]
  · exact Finset.forall_mem_insert _ _ _ |>.mpr ⟨⟨hrel, hkept.1⟩, h.removed_in⟩
  · intro r hr
    rw [RelDirectory.contains_remove, Bool.and_eq_true, bne_iff_ne, h.kept r hr,
      Finset.mem_insert, not_or]
    have hne : (r.relnode, r.forknum) ≠ (rel.relnode, rel.forknum) <-> ¬ r = rel :=
      ⟨fun h heq => h (by rw [heq]), fun h heq => h (RelTag.ext_of_db hr hrel heq)⟩
    rw [hne]
    exact ⟨fun h => ⟨h.2.1, h.1, h.2.2⟩, fun h => ⟨h.2.1, h.1, h.2.2⟩⟩
  · exact fun hnodup => (h.nodup hnodup).filter _

/-- The store has the directory without the relations taken out; nothing else changed. -/
structure Rewritten (s s' : State) (db : Oid × Oid) (dir : RelDirectory) : Prop where
  relDir : s'.cur (.relDir db.1 db.2) = some dir
  other : forall k, k ≠ .relDir db.1 db.2 -> s'.cur k = s.cur k

theorem yields_putRelDropV1 {inv : State -> Prop} (htagged : drops.Tagged) (hs : inv s)
    (hround : forall entry, entry ∈ drops -> forall s1 s2 dir dir' removed, inv s1 ->
      s1.cur (.relDir entry.1.1 entry.1.2) = some dir ->
      Reduced s1 s2 entry.1 dir dir' removed -> Rewritten s1 s2 entry.1 dir' -> inv s2) :
    Yields (putRelDropV1 drops) s (fun _ => inv) := by
  refine Yields.forM (fun entry hentry s1 hs1 => read_bind (fun dir hdir => ?_)) hs
  have hcur : s1.cur (.relDir entry.1.1 entry.1.2) = some dir := State.get_eq_ok hdir
  have hfold : Yields (entry.2.foldlM dropFromReldir (dir, false)) s1
      (fun acc s2 => exists removed, TakenOut s1 s2 entry.1 dir acc removed) :=
    Yields.foldlM_of_round (fun rel hrel acc s2 h2 =>
      h2.choose_spec.dropFromReldir (htagged entry hentry rel hrel))
      ⟨∅, TakenOut.start s1 entry.1 dir⟩
  refine hfold.bind ?_
  rintro acc s2 ⟨removed, h2⟩
  refine Yields.onlyIf (fun _ => ?_) (fun hclean => ?_)
  · refine (yields_put (.relDir entry.1.1 entry.1.2) acc.1 s2).mono ?_
    rintro _ s3 rfl
    refine hround entry hentry s1 _ dir acc.1 removed hs1 hcur
      { h2.toReduced with
        quiet := Trans.trans h2.quiet
          (calm_putMetadata s2 (.relDir entry.1.1 entry.1.2) trivial acc.1).quiet
        behind := Trans.trans h2.behind (behind_putMetadata s2 _ _) } ⟨?_, fun k hk => ?_⟩
    · exact State.cur_put_self _ _ _
    · rw [State.cur_put_of_ne hk, h2.cur]
  · have hsame : acc.1 = dir := h2.clean (Bool.eq_false_of_not_eq_true hclean)
    refine hround entry hentry s1 s2 dir acc.1 removed hs1 hcur h2.toReduced
      ⟨?_, fun k _ => by rw [h2.cur]⟩
    rw [h2.cur, hcur, hsame]

theorem Reduced.cacheMove (h : Reduced s s' db dir dir' removed)
    (hdir : s.cur (.relDir db.1 db.2) = some dir) (hnew : Rewritten s s' db dir') :
    CacheMove s s' where
  behind := h.behind
  entry := by
    intro r
    by_cases hr : r ∈ removed
    · exact .inr (.inl ((h.cache r).trans (if_pos hr)))
    · refine .inl ⟨(h.cache r).trans (if_neg hr), fun hlisted => ?_, hnew.other _ nofun⟩
      refine hlisted.congr (State.HasDb.congr (hnew.other .dbdir nofun) _).mpr (fun hin => ?_)
        (hnew.other (.relTagSparse r) nofun).trans h.behind.uses
      by_cases hdb : (r.spcnode, r.dbnode) = db
      · rw [State.inOld_iff hdb hdir] at hin
        exact (State.inOld_iff hdb hnew.relDir).mpr ((h.kept r hdb).mpr ⟨hin, hr⟩)
      · exact (State.InOld.congr (hnew.other _ (MetaKey.relDir_ne hdb))).mpr hin

theorem cacheMove_putRelDropV1 (htagged : drops.Tagged) (s : State) :
    Yields (putRelDropV1 drops) s (fun _ s' => CacheMove s s') :=
  yields_putRelDropV1 htagged (refl s) (fun _ _ _ _ _ _ _ hmove hcur hreduced hnew =>
    Trans.trans hmove (hreduced.cacheMove hcur hnew))

/-!
## The sparse directory
-/

theorem cacheMove_putMetadata_sparse (hfree : s.cache rel = none) (entry : RelDirExists) :
    CacheMove s (s.putMetadata (.relTagSparse rel) entry) where
  behind := behind_putMetadata s (.relTagSparse rel) entry
  entry := by
    intro r
    by_cases hr : r = rel
    · exact .inr (.inl (hr ▸ hfree))
    · have hcur : forall k, k ≠ .relTagSparse rel ->
          (s.putMetadata (.relTagSparse rel) entry).cur k = s.cur k :=
        fun k hk => State.cur_put_of_ne hk entry
      refine .inl ⟨rfl, fun hlisted => ?_, hcur _ nofun⟩
      exact hlisted.congr (State.HasDb.congr (hcur .dbdir nofun) _).mpr
        (State.InOld.congr (hcur (.relDir _ _) nofun)).mpr
        (hcur (.relTagSparse r) (fun heq => hr (MetaKey.relTagSparse.inj heq))).trans Iff.rfl

theorem cacheMove_note (s : State) (rel : RelTag) :
    CacheMove s { s with sparseRels := rel :: s.sparseRels } where
  behind := (uncounted_note s rel).behind
  entry := fun _ => .inl ⟨rfl, fun hl => { hl with }, rfl⟩

theorem Aside.cacheMove {s' : State} (h : Aside s s') (hold : ¬ s.UsesSparse s.lsn) :
    CacheMove s s' :=
  ⟨h.behind, fun r => .inl ⟨congrFun h.calm.cache r, (h.listed hold r).mpr,
    congrFun h.calm.sizes r⟩⟩

def DropRelations.tags (drops : DropRelations) : List RelTag :=
  drops.flatMap (fun entry => entry.2.map
    (fun rel => { rel with spcnode := entry.1.1, dbnode := entry.1.2 }))

theorem cacheMove_putRelDropV2 (hfree : forall rel, rel ∈ drops.tags -> s.cache rel = none) :
    Yields (putRelDropV2 drops) s (fun _ s' => CacheMove s s' ∧ s'.cache = s.cache) := by
  refine Yields.forM (fun entry hentry s1 h1 => Yields.forM ?_ h1) ⟨refl s, rfl⟩
  rintro rel hrel s2 ⟨hmove2, hcache2⟩
  refine read_bind (fun found _ => Yields.onlyIf (fun _ => ?_) (fun _ => ⟨hmove2, hcache2⟩))
  have htag : { rel with spcnode := entry.1.1, dbnode := entry.1.2 } ∈ drops.tags :=
    List.mem_flatMap.mpr ⟨entry, hentry, List.mem_map_of_mem hrel⟩
  refine (yields_put (.relTagSparse _) .removed s2).bind ?_
  rintro _ s3 rfl
  refine ⟨Trans.trans (Trans.trans hmove2 (cacheMove_putMetadata_sparse
    ((congrFun hcache2 _).trans (hfree _ htag)) .removed)) (cacheMove_note _ _), hcache2⟩

theorem cacheMove_putRelDrops (htagged : drops.Tagged)
    (hfree : s.tline.relSizeV2Status = .migrated ->
      forall rel, rel ∈ drops.tags -> s.cache rel = none) :
    Yields (putRelDrops drops) s (fun _ s' => CacheMove s s') := by
  refine read_bind (fun mode hmode => ?_)
  cases hmode
  rw [maybeEnableRelSizeV2_status]
  split
  next hstatus => exact cacheMove_putRelDropV1 htagged s
  next hstatus =>
    have hold : ¬ s.UsesSparse s.lsn := fun h => nomatch hstatus.symm.trans h.1
    refine (cacheMove_putRelDropV1 htagged s).bind (fun _ s1 hmove1 => ?_)
    have hold1 := mt hmove1.behind.uses.mp hold
    exact ((aside_putRelDropV2 drops).attempt.yields s1).bind (fun _ s2 haside =>
      Yields.pure (Trans.trans hmove1 (haside.cacheMove hold1)))
  next hstatus => exact (cacheMove_putRelDropV2 (hfree hstatus)).mono (fun _ _ h => h.1)

/-!
## Databases
-/

theorem DbDirectory.contains_remove_of_ne {d : DbDirectory} {x : Oid × Oid} (hne : x ≠ db)
    (h : d.contains x = true) : (d.remove db).contains x = true := by
  unfold contains at h ⊢
  rw [get?_remove, if_neg hne]
  exact h

theorem cacheMove_dropDbdir {spcnode dbnode : Oid}
    (hempty : forall rels, listRels s spcnode dbnode .modified = .ok rels -> rels = [])
    (hfree : forall rel : RelTag, rel.spcnode = spcnode -> rel.dbnode = dbnode ->
      s.cache rel = none) :
    Yields (dropDbdir spcnode dbnode) s (fun _ s' => CacheMove s s') := by
  have hsize : Yields (getDbSize spcnode dbnode .modified) s (fun _ s' => s' = s) := by
    refine read_bind (fun rels hrels => ?_)
    rw [hempty rels hrels]
    exact rfl
  refine hsize.bind ?_
  rintro total s' rfl
  refine read_bind (fun dir hdir => ?_)
  have hcur : s'.cur .dbdir = some dir := State.get_eq_ok hdir
  have hput : Yields (put .dbdir (dir.remove (spcnode, dbnode))) s'
      (fun _ s2 => CacheMove s' s2) := by
    refine (yields_put .dbdir _ s').mono ?_
    rintro _ s2 rfl
    have hother : forall k, k ≠ .dbdir ->
        (s'.putMetadata .dbdir (dir.remove (spcnode, dbnode))).cur k = s'.cur k :=
      fun k hk => State.cur_put_of_ne hk _
    refine ⟨behind_putMetadata s' .dbdir _, fun r => ?_⟩
    by_cases hr : (r.spcnode, r.dbnode) = (spcnode, dbnode)
    · obtain ⟨hspc, hdb⟩ := Prod.mk.inj hr
      exact .inr (.inl (hfree r hspc hdb))
    · refine .inl ⟨rfl, fun hlisted => ?_, ?_⟩
      · refine hlisted.congr (fun hdb => ?_) (State.InOld.congr (hother (.relDir _ _) nofun)).mpr
          (hother (.relTagSparse r) nofun).trans Iff.rfl
        exact ⟨_, State.cur_put_self _ _ _, DbDirectory.contains_remove_of_ne hr
          ((State.hasDb_iff hcur).mp hdb)⟩
      · exact hother (.relSize r) nofun
  refine (Yields.onlyIf (fun _ => hput) (fun _ => refl s')).bind
    (fun _ s2 hmove2 => Yields.modify ?_)
  refine IsTrans.trans _ _ _ hmove2 ⟨⟨rfl, rfl, rfl, rfl, fun _ => Iff.rfl, fun _ _ _ => rfl,
    fun _ hwf => { hwf with }⟩, fun _ => .inl ⟨rfl, fun hl => { hl with }, rfl⟩⟩

end Datadir
end Pageserver
end OpenNeon

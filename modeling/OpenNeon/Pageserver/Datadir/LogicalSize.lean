import OpenNeon.Pageserver.Datadir.CacheDrops

/-!
# The logical size of a timeline

The blocks of all listed relations are counted twice: from scratch, over the
directories, and incrementally, by the changes that the modification has counted since
its last commit.  The directories of a modification's view list a finite set of
relations, and each write changes the set and the sizes in it in one place.
-/

namespace OpenNeon
namespace Pageserver
namespace Datadir

open Base WalDecoder State List
open Prog (Keeps wp Yields)

/-!
## Counting from scratch
-/

def addSizes (t : Timeline) (lsn : Lsn) (total : Nat) (rels : List RelTag) :
    Except WalIngestError Nat :=
  rels.foldlM (fun total rel => do
    let nblocks ← t.get (.relSize rel) lsn
    .ok (total + nblocks.toNat)) total

/-- The size in bytes of all relations that the directories list. -/
def getCurrentLogicalSizeNonIncremental (s : State) (lsn : Lsn) : Except WalIngestError Nat := do
  let dbdir ← s.tline.get .dbdir lsn
  let total ← dbdir.dbdirs.foldlM (fun total entry => do
    let rels ← listRels s entry.1.1 entry.1.2 (.lsnRange lsn lsn)
    addSizes s.tline lsn total rels) 0
  -- the sums are `u64`: reducing once at the end leaves what reducing at each step does
  .ok (total * BLCKSZ % 2 ^ 64)

/-!
## Directories in the modification's view
-/

namespace State

theorem blocksOf_congr {s s' : State} (h : s'.sizeOf = s.sizeOf) : s'.blocksOf = s.blocksOf := by
  unfold blocksOf
  rw [h]

end State

/-- The directories can be read: they are sets, the old one of each database exists while
it is in use, the scan of the sparse one finds all its entries, and listed relations have
sizes. -/
structure State.Complete (s : State) : Prop where
  dbdir : exists d, s.cur .dbdir = some d ∧ (d.dbdirs.map Prod.fst).Nodup
  keys : forall db, s.HasDb db -> (MetaKey.relDir db.1 db.2).toKey.isI128Representable = true
  relDir : ¬ s.UsesSparse s.lsn -> forall db, s.HasDb db ->
    exists d, s.cur (.relDir db.1 db.2) = some d ∧ d.rels.Nodup
  sparse : s.UsesSparse s.lsn -> forall rel, s.InSparse rel -> rel ∈ s.sparseRels
  sizes : forall rel, s.Listed rel -> exists n, s.sizeOf rel = some n

/-- The blocks of listed relations and the counted ones differ by a constant, as far as
64 bits tell. -/
structure State.Balanced (base : Int) (s : State) : Prop where
  coherent : s.Coherent
  wf : s.WF
  last_le : s.tline.lastRecordLsn ≤ s.lsn
  pending_le : forall x, x ∈ s.modification.pendingLsns -> x ≤ s.lsn
  migrated : forall x, s.UsesSparse x -> s.UsesSparse s.lsn
  snapshot : forall x rel, s.tline.relSizeSnapshotCache x rel = none
  complete : s.Complete
  count : exists listed : Finset RelTag, (forall rel, rel ∈ listed <-> s.Listed rel) ∧
    s.tline.currentLogicalSize + s.modification.pendingNblocks * BLCKSZ ≡
      base + (∑ rel ∈ listed, s.blocksOf rel : Nat) * BLCKSZ [ZMOD 2 ^ 64]

variable {s s' : State} {base : Int} {rel : RelTag}

/-!
## Sizes
-/

theorem State.Balanced.step (h : s.Balanced base) (hlt : s.tline.lastRecordLsn < s.lsn)
    (hbehind : Behind s s') (hcoherent : s'.Coherent) (hcomplete : s'.Complete)
    (hlogical : s'.tline.currentLogicalSize = s.tline.currentLogicalSize)
    (hcount : forall listed : Finset RelTag, (forall rel, rel ∈ listed <-> s.Listed rel) ->
      exists listed' : Finset RelTag, (forall rel, rel ∈ listed' <-> s'.Listed rel) ∧
        s'.modification.pendingNblocks + (∑ rel ∈ listed, s.blocksOf rel : Nat) ≡
          s.modification.pendingNblocks + (∑ rel ∈ listed', s'.blocksOf rel : Nat)
          [ZMOD 2 ^ 64]) :
    s'.Balanced base where
  coherent := hcoherent
  wf := hbehind.wf hlt h.wf
  last_le := by
    rw [hbehind.lastRecordLsn, hbehind.lsn]
    exact h.last_le
  pending_le := by
    rw [hbehind.pendingLsns, hbehind.lsn]
    exact h.pending_le
  migrated := by
    intro x hx
    exact hbehind.uses.mpr (h.migrated x ((hbehind.sparse x).mp hx))
  snapshot := by
    rw [hbehind.snapshot]
    exact h.snapshot
  complete := hcomplete
  count := by
    rcases h.count with ⟨listed, hlisted, hbalance⟩
    rcases hcount listed hlisted with ⟨listed', hlisted', hnblocks⟩
    refine ⟨listed', hlisted', ?_⟩
    have hbytes := hnblocks.mul_right BLCKSZ
    rw [Int.add_mul, Int.add_mul] at hbytes
    rw [hlogical]
    unfold Int.ModEq at *
    omega

theorem State.Balanced.aside (h : s.Balanced base) (hlt : s.tline.lastRecordLsn < s.lsn)
    (hold : ¬ s.UsesSparse s.lsn) (haside : Aside s s') : s'.Balanced base := by
  have hdbdir := haside.views .dbdir (fun _ => nofun)
  refine h.step hlt haside.behind (h.coherent.quiet haside.calm.quiet) ⟨?_, fun db hdb => ?_, ?_,
    fun hyes => absurd (haside.behind.uses.mp hyes) hold, fun rel hlisted => ?_⟩ haside.logical ?_
  · rw [hdbdir]
    exact h.complete.dbdir
  · exact h.complete.keys db ((HasDb.congr hdbdir db).mp hdb)
  · intro _ db hdb
    rw [haside.views (.relDir db.1 db.2) (fun _ => nofun)]
    exact h.complete.relDir hold db ((HasDb.congr hdbdir db).mp hdb)
  · rw [haside.calm.sizes]
    exact h.complete.sizes rel ((haside.listed hold rel).mp hlisted)
  · intro listed hlisted
    refine ⟨listed, fun rel => (hlisted rel).trans (haside.listed hold rel).symm, ?_⟩
    rw [haside.nblocks, blocksOf_congr haside.calm.sizes]

theorem State.Balanced.without (h : s.Balanced base) (hlt : s.tline.lastRecordLsn < s.lsn)
    (hbehind : Behind s s') (hquiet : Quiet s s') (hcomplete : s'.Complete)
    (hlogical : s'.tline.currentLogicalSize = s.tline.currentLogicalSize) (removed : Finset RelTag)
    (hremoved : forall r, r ∈ removed -> s.Listed r)
    (hlisted : forall r, s'.Listed r <-> s.Listed r ∧ r ∉ removed)
    (hcount : s'.modification.pendingNblocks + (∑ r ∈ removed, s.blocksOf r : Nat) ≡
      s.modification.pendingNblocks [ZMOD 2 ^ 64]) : s'.Balanced base := by
  refine h.step hlt hbehind (h.coherent.quiet hquiet) hcomplete hlogical (fun listed hmem => ?_)
  refine ⟨listed \ removed, fun r => ?_, ?_⟩
  · rw [Finset.mem_sdiff, hmem, hlisted]
  · have hsub : removed ⊆ listed := fun r hr => (hmem r).mpr (hremoved r hr)
    rw [blocksOf_congr hquiet.sizes, ← Finset.sum_sdiff hsub]
    unfold Int.ModEq at *
    omega

theorem hasDb_withSize (s : State) (rel : RelTag) (old n : BlockNumber) (db : Oid × Oid) :
    (s.withSize rel old n).HasDb db <-> s.HasDb db :=
  HasDb.congr (cur_withSize_of_notSize s rel old n trivial) db

theorem listed_withSize_iff (s : State) (rel : RelTag) (old n : BlockNumber) (r : RelTag) :
    (s.withSize rel old n).Listed r <-> s.Listed r :=
  ⟨fun h => h.of_cur (fun _ hk => (cur_withSize_of_notSize s rel old n hk).symm) Iff.rfl,
    fun h => listed_withSize h rel old n⟩

theorem blocksOf_withSize (s : State) (rel : RelTag) (old n : BlockNumber) (r : RelTag) :
    (s.withSize rel old n).blocksOf r = if r = rel then n.toNat else s.blocksOf r := by
  unfold State.blocksOf
  rw [(resized_withSize s rel old n).sizes r]
  split
  · rfl
  · rfl

theorem State.Complete.withSize
    (hdbdir : exists d, s.cur .dbdir = some d ∧ (d.dbdirs.map Prod.fst).Nodup)
    (hkeys : forall db, s.HasDb db ->
      (MetaKey.relDir db.1 db.2).toKey.isI128Representable = true)
    (hrelDir : ¬ s.UsesSparse s.lsn -> forall db, s.HasDb db ->
      exists d, s.cur (.relDir db.1 db.2) = some d ∧ d.rels.Nodup)
    (hsparse : s.UsesSparse s.lsn -> forall r, s.InSparse r -> r ∈ s.sparseRels)
    (hsizes : forall r, s.Listed r -> r ≠ rel -> exists m, s.sizeOf r = some m)
    (old n : BlockNumber) : (s.withSize rel old n).Complete where
  dbdir := by
    exact hdbdir
  keys := fun db hdb => hkeys db ((hasDb_withSize s rel old n db).mp hdb)
  relDir := by
    intro hold db hdb
    exact hrelDir hold db ((hasDb_withSize s rel old n db).mp hdb)
  sparse := by
    intro huses r hr
    exact hsparse huses r hr
  sizes := by
    intro r hr
    rw [(resized_withSize s rel old n).sizes r]
    split
    · exact ⟨n, rfl⟩
    next hne => exact hsizes r ((listed_withSize_iff s rel old n r).mp hr) hne

section

variable (h : s.Balanced base) (hlt : s.tline.lastRecordLsn < s.lsn)

include h hlt

theorem State.Balanced.withSize
    (hlisted : s.Listed rel) {old : BlockNumber} (hold : s.sizeOf rel = some old)
    (n : BlockNumber) :
    (s.withSize rel old n).Balanced base := by
  have hc := h.complete
  refine h.step hlt (behind_withSize s rel old n)
    (h.coherent.resized (resized_withSize s rel old n))
    (State.Complete.withSize hc.dbdir hc.keys hc.relDir hc.sparse
      (fun r hr _ => hc.sizes r hr) old n) rfl ?_
  intro listed hmem
  refine ⟨listed, fun r => (hmem r).trans (listed_withSize_iff s rel old n r).symm, ?_⟩
  have hin : rel ∈ listed := (hmem rel).mpr hlisted
  have hbefore := Finset.add_sum_erase listed s.blocksOf hin
  have hafter := Finset.add_sum_erase listed (s.withSize rel old n).blocksOf hin
  have hrest : ∑ r ∈ listed.erase rel, (s.withSize rel old n).blocksOf r =
      ∑ r ∈ listed.erase rel, s.blocksOf r := by
    refine Finset.sum_congr rfl (fun r hr => ?_)
    rw [blocksOf_withSize, if_neg (Finset.ne_of_mem_erase hr)]
  rw [blocksOf_withSize, if_pos rfl] at hafter
  rw [blocksOf_of_size hold] at hbefore
  have hpending : (s.withSize rel old n).modification.pendingNblocks ≡
      s.modification.pendingNblocks + (n.toNat - old.toNat) [ZMOD 2 ^ 64] := toI64_modEq _
  unfold Int.ModEq at *
  omega

theorem balanced_putRelExtend (hlisted : s.Listed rel) (n : BlockNumber) :
    Yields (putRelExtend rel n) s (fun _ s' => s'.Balanced base) := by
  refine (yields_putRelExtend rel n s).mono ?_
  rintro _ s' ⟨old, hold, ⟨_, rfl⟩ | ⟨_, rfl⟩⟩
  · exact h
  · exact h.withSize hlt hlisted hold n

theorem balanced_putRelTruncation
    (hlisted : getRelExists s rel .modified = .ok true -> s.Listed rel) (n : BlockNumber) :
    Yields (putRelTruncation rel n) s (fun _ s' => s'.Balanced base) := by
  refine (yields_putRelTruncation rel n s).mono ?_
  rintro _ s' (rfl | ⟨hfound, old, hold, rfl⟩)
  · exact h
  · exact h.withSize hlt (hlisted hfound) hold n

end

/-!
## Creation
-/

/-- The directories can be read after a creation, and list the new relation besides. -/
structure Entering (s s' : State) (rel : RelTag) : Prop where
  fresh : ¬ s.Listed rel
  listed : forall r, s'.Listed r <-> s.Listed r ∨ r = rel
  keys : forall db, s'.HasDb db -> (MetaKey.relDir db.1 db.2).toKey.isI128Representable = true
  relDir : ¬ s'.UsesSparse s'.lsn -> forall db, s'.HasDb db ->
    exists d, s'.cur (.relDir db.1 db.2) = some d ∧ d.rels.Nodup
  sparse : s'.UsesSparse s'.lsn -> forall r, s'.InSparse r -> r ∈ s'.sparseRels

theorem State.Balanced.entering (h : s.Balanced base) (hlt : s.tline.lastRecordLsn < s.lsn)
    (hcreation : Creation s s' rel) (hent : Entering s s' rel) (n : BlockNumber) :
    (s'.withSize rel 0 n).Balanced base := by
  have hsizes : forall r, s'.Listed r -> r ≠ rel -> exists m, s'.sizeOf r = some m := by
    intro r hr hne
    rw [hcreation.calm.sizes]
    exact h.complete.sizes r (((hent.listed r).mp hr).resolve_right hne)
  refine h.step hlt (Trans.trans hcreation.behind (behind_withSize s' rel 0 n))
    ((h.coherent.quiet hcreation.calm.quiet).resized (resized_withSize s' rel 0 n))
    (State.Complete.withSize (hcreation.dbdir h.complete.dbdir) hent.keys hent.relDir hent.sparse
      hsizes 0 n) hcreation.logical ?_
  intro listed hmem
  have hnew : rel ∉ listed := fun hin => hent.fresh ((hmem rel).mp hin)
  refine ⟨insert rel listed, fun r => ?_, ?_⟩
  · rw [Finset.mem_insert, listed_withSize_iff, hent.listed, hmem]
    exact or_comm
  · have hrest : ∑ r ∈ listed, (s'.withSize rel 0 n).blocksOf r = ∑ r ∈ listed, s.blocksOf r := by
      refine Finset.sum_congr rfl (fun r hr => ?_)
      have hne : r ≠ rel := fun heq => hnew (heq ▸ hr)
      rw [blocksOf_withSize, if_neg hne, blocksOf_congr hcreation.calm.sizes]
    have hpending : (s'.withSize rel 0 n).modification.pendingNblocks ≡
        s'.modification.pendingNblocks + (n.toNat - (0 : BlockNumber).toNat) [ZMOD 2 ^ 64] :=
      toI64_modEq _
    have hzero : (0 : BlockNumber).toNat = 0 := rfl
    rw [hcreation.nblocks] at hpending
    rw [Finset.sum_insert hnew, blocksOf_withSize, if_pos rfl]
    unfold Int.ModEq at *
    omega

theorem Creation.entering (h : Creation s s' rel) (hs : s.Balanced base)
    (htidy : s.UsesSparse s.lsn -> ¬ s.HasDb (rel.spcnode, rel.dbnode) -> forall r : RelTag,
      (r.spcnode, r.dbnode) = (rel.spcnode, rel.dbnode) -> ¬ s.InSparse r) :
    Entering s s' rel := by
  have hc := hs.complete
  have hkeys : (MetaKey.relDir rel.spcnode rel.dbnode).toKey.isI128Representable = true ->
      forall db, s'.HasDb db -> (MetaKey.relDir db.1 db.2).toKey.isI128Representable = true := by
    intro hkey db hdb
    rcases (h.hasDb db).mp hdb with hwas | rfl
    · exact hc.keys db hwas
    · exact hkey
  rcases h.entry with ⟨dir, hold⟩ | hsparse
  · refine ⟨fun hlisted => hold.fresh ((hold.contains rfl).mpr hlisted), hold.listed h,
      hkeys hold.key, fun _ db hdb => ?_, fun hyes => absurd (h.behind.uses.mp hyes) (hold.old _)⟩
    by_cases hne : db = (rel.spcnode, rel.dbnode)
    · subst hne
      refine ⟨dir.insert rel, hold.own, nodup_cons.mpr ⟨fun hmem => ?_, ?_⟩⟩
      · exact hold.fresh (contains_iff_mem.mpr hmem)
      · rcases hold.origin with ⟨hwas, hcur⟩ | ⟨_, rfl⟩
        · rcases hc.relDir (hold.old _) _ hwas with ⟨d, hd, hnodup⟩
          exact Option.some.inj (hd.symm.trans hcur) ▸ hnodup
        · exact nodup_nil
    · rw [hold.other hne]
      exact hc.relDir (hold.old _) db (((h.hasDb db).mp hdb).resolve_right hne)
  · have huses : s.UsesSparse s.lsn := hsparse.migrated.elim hs.migrated
    have huses' := h.behind.uses.mpr huses
    refine ⟨fun hlisted => hsparse.fresh (hlisted.sparse huses), fun r => ?_, hkeys hsparse.key,
      fun hnot => absurd huses' hnot, fun _ r hr => ?_⟩
    · rw [listed_iff_sparse huses', listed_iff_sparse huses, h.hasDb, hsparse.sparse]
      constructor
      · rintro ⟨hdb, hr | hr⟩
        · exact .inr hr
        · rcases hdb with hdb | hdb
          · exact .inl ⟨hdb, hr⟩
          · by_cases hwas : s.HasDb (rel.spcnode, rel.dbnode)
            · exact .inl ⟨hdb ▸ hwas, hr⟩
            · exact absurd hr (htidy huses hwas r hdb)
      · rintro (⟨hdb, hr⟩ | rfl)
        · exact ⟨.inl hdb, .inr hr⟩
        · exact ⟨.inr rfl, .inl rfl⟩
    · rw [hsparse.rels]
      rcases (hsparse.sparse r).mp hr with rfl | hwas
      · exact mem_cons_self
      · exact mem_cons_of_mem _ (hc.sparse huses r hwas)

theorem balanced_putRelCreation (h : s.Balanced base) (hlt : s.tline.lastRecordLsn < s.lsn)
    (htidy : s.UsesSparse s.lsn -> ¬ s.HasDb (rel.spcnode, rel.dbnode) -> forall r : RelTag,
      (r.spcnode, r.dbnode) = (rel.spcnode, rel.dbnode) -> ¬ s.InSparse r) (n : BlockNumber) :
    Yields (putRelCreation rel n) s (fun _ s' => s'.Balanced base) := by
  refine (yields_putRelCreation_cases rel n s).mono ?_
  rintro _ _ ⟨s3, hcreation, _, rfl⟩
  exact h.entering hlt hcreation (hcreation.entering h htidy) n

end Datadir
end Pageserver
end OpenNeon

import OpenNeon.Pageserver.Datadir.LogicalSize

/-!
# Drops and the logical size

A drop from the old directories counts the blocks of each relation that it takes out.
The drop of a database counts those of all its relations, which it reads through the
caches.  A drop from the sparse directory counts nothing.
-/

namespace OpenNeon
namespace Pageserver
namespace Datadir

open Base WalDecoder State List
open Prog (Yields)
open Prog.Yields (read_bind)

/-!
## The old directories
-/

variable {dir : RelDirectory} {s s' : State} {db : Oid × Oid} {rel : RelTag} {base : Int}
  {drops : DropRelations} {spcnode dbnode : Oid} {rels : List RelTag}

variable {dir' : RelDirectory} {removed : Finset RelTag} {version : Version}

theorem Reduced.balanced (h : Reduced s s' db dir dir' removed) (hs : s.Balanced base)
    (hlt : s.tline.lastRecordLsn < s.lsn) (hold : ¬ s.UsesSparse s.lsn) (hdb : s.HasDb db)
    (hdir : s.cur (.relDir db.1 db.2) = some dir) (hnew : Rewritten s s' db dir') :
    s'.Balanced base := by
  have hold' : ¬ s'.UsesSparse s'.lsn := mt h.behind.uses.mp hold
  have hhasDb := HasDb.congr (hnew.other .dbdir nofun)
  have hsame : forall {spc dbn}, (spc, dbn) ≠ db ->
      s'.cur (.relDir spc dbn) = s.cur (.relDir spc dbn) := by
    exact fun hne => hnew.other _ (MetaKey.relDir_ne hne)
  have hlisted : forall r, s'.Listed r <-> s.Listed r ∧ r ∉ removed := by
    intro r
    rw [listed_iff_old hold, listed_iff_old hold', hhasDb, and_assoc]
    refine and_congr_right (fun _ => ?_)
    by_cases hr : (r.spcnode, r.dbnode) = db
    · rw [inOld_iff hr hnew.relDir, inOld_iff hr hdir]
      exact h.kept r hr
    · rw [InOld.congr (hsame hr)]
      exact ⟨fun hin => ⟨hin, fun hmem => hr (h.removed_in r hmem).1⟩, fun hin => hin.1⟩
  refine hs.without hlt h.behind h.quiet ?_ h.logical removed (fun r hr => ?_) hlisted h.nblocks
  · refine ⟨?_, fun x hx => hs.complete.keys x ((hhasDb x).mp hx), ?_,
      fun hyes => absurd hyes hold', ?_⟩
    · rw [hnew.other .dbdir nofun]
      exact hs.complete.dbdir
    · intro _ x hx
      have hx := (hhasDb x).mp hx
      obtain ⟨d, hd, hnodup⟩ := hs.complete.relDir hold x hx
      by_cases hxdb : x = db
      · subst hxdb
        cases hd.symm.trans hdir
        exact ⟨dir', hnew.relDir, h.nodup hnodup⟩
      · rw [hsame hxdb]
        exact ⟨d, hd, hnodup⟩
    · intro r hr
      rw [h.quiet.sizes]
      exact hs.complete.sizes r ((hlisted r).mp hr).1
  · rcases h.removed_in r hr with ⟨rfl, hin⟩
    exact (listed_iff_old hold r).mpr ⟨hdb, dir, hdir, hin⟩

theorem balanced_putRelDropV1 (h : s.Balanced base) (hlt : s.tline.lastRecordLsn < s.lsn)
    (hold : ¬ s.UsesSparse s.lsn) (htagged : drops.Tagged)
    (hdbs : forall entry, entry ∈ drops -> s.HasDb entry.1) :
    Yields (putRelDropV1 drops) s (fun _ s' => s'.Balanced base ∧ Behind s s') := by
  have hloop : Yields (putRelDropV1 drops) s (fun _ s' =>
      s'.Balanced base ∧ Behind s s' ∧ s'.cur .dbdir = s.cur .dbdir) := by
    refine yields_putRelDropV1 htagged ⟨h, refl s, rfl⟩ ?_
    rintro entry hentry s1 s2 dir dir' removed ⟨hbal1, hb1, hdbdir1⟩ hcur hreduced hnew
    have hdb1 : s1.HasDb entry.1 := (HasDb.congr hdbdir1 _).mpr (hdbs entry hentry)
    exact ⟨hreduced.balanced hbal1 (hb1.lt hlt) (mt hb1.uses.mp hold) hdb1 hcur hnew,
      Trans.trans hb1 hreduced.behind, (hnew.other .dbdir nofun).trans hdbdir1⟩
  exact hloop.mono (fun _ _ hs => ⟨hs.1, hs.2.1⟩)

theorem yields_putRelDropV2_absent (habsent : forall rel, rel ∈ drops.tags -> ¬ s.InSparse rel) :
    Yields (putRelDropV2 drops) s (fun _ s' => s' = s) := by
  refine Yields.forM (fun entry hentry s1 h1 => Yields.forM ?_ h1) rfl
  rintro rel hrel s2 rfl
  refine read_bind (fun found hfound => Yields.onlyIf (fun hyes => ?_) (fun _ => rfl))
  have htag : { rel with spcnode := entry.1.1, dbnode := entry.1.2 } ∈ drops.tags :=
    mem_flatMap.mpr ⟨entry, hentry, mem_map_of_mem hrel⟩
  exact absurd ((get_sparse hfound).mp hyes) (habsent _ htag)

/-- A drop is counted while the old directories are in use, if it is of relations of
databases that exist.  In the sparse directory it must not find a relation. -/
theorem balanced_putRelDrops (h : s.Balanced base) (hlt : s.tline.lastRecordLsn < s.lsn)
    (htagged : drops.Tagged) (hdbs : s.tline.relSizeV2Status ≠ .migrated ->
      forall entry, entry ∈ drops -> s.HasDb entry.1)
    (habsent : s.tline.relSizeV2Status = .migrated ->
      forall rel, rel ∈ drops.tags -> ¬ s.InSparse rel) :
    Yields (putRelDrops drops) s (fun _ s' => s'.Balanced base) := by
  refine read_bind (fun mode hmode => ?_)
  cases hmode
  rw [maybeEnableRelSizeV2_status]
  split
  next hstatus =>
    have hold : ¬ s.UsesSparse s.lsn := fun huses => nomatch hstatus.symm.trans huses.1
    exact (balanced_putRelDropV1 h hlt hold htagged
      (hdbs (by rw [hstatus]; nofun))).mono (fun _ _ hs => hs.1)
  next hstatus =>
    have hold : ¬ s.UsesSparse s.lsn := fun huses => nomatch hstatus.symm.trans huses.1
    refine (balanced_putRelDropV1 h hlt hold htagged (hdbs (by rw [hstatus]; nofun))).bind ?_
    rintro _ s1 ⟨hbal1, hb1⟩
    exact ((aside_putRelDropV2 drops).attempt.yields s1).bind (fun _ s2 haside =>
      Yields.pure (hbal1.aside (hb1.lt hlt) (mt hb1.uses.mp hold) haside))
  next hstatus =>
    refine (yields_putRelDropV2_absent (habsent hstatus)).mono ?_
    rintro _ s' rfl
    exact h

/-!
## Databases
-/

structure CachesOnly (s s' : State) : Prop where
  quiet : Quiet s s'
  behind : Behind s s'
  cur : s'.cur = s.cur
  rels : s'.sparseRels = s.sparseRels
  nblocks : s'.modification.pendingNblocks = s.modification.pendingNblocks
  logical : s'.tline.currentLogicalSize = s.tline.currentLogicalSize

instance : Std.Refl CachesOnly where
  refl s := ⟨refl s, refl s, rfl, rfl, rfl, rfl⟩

instance : IsTrans State CachesOnly where
  trans _ _ _ h h' := ⟨Trans.trans h.quiet h'.quiet,
    Trans.trans h.behind h'.behind, h'.cur.trans h.cur, h'.rels.trans h.rels,
    h'.nblocks.trans h.nblocks, h'.logical.trans h.logical⟩

theorem cachesOnly_updateCachedRelSize {n : BlockNumber} (hsize : s.sizeOf rel = some n) :
    CachesOnly s (s.updateCachedRelSize rel .modified n) :=
  updateCachedRelSize_of (refl s)
    ⟨quiet_setCachedRelSize hsize, behind_setCachedRelSize s rel s.lsn n, rfl, rfl, rfl, rfl⟩

/-- What the caller has decoded is the old directory with the relation, if that is in use. -/
def Decoded (s : State) (db : Oid × Oid) (dir : RelDirectory) (rel : RelTag) : Prop :=
  (rel.spcnode, rel.dbnode) = db ∧ (¬ s.UsesSparse s.lsn -> dir.contains rel = true)

theorem getRelExistsUncached_decoded {found : Bool} (hlisted : s.Listed rel)
    (hdec : Decoded s db dir rel)
    (h : getRelExistsUncached s rel .modified (some (db, dir)) = .ok found) : found = true := by
  rcases bind_eq_ok_iff.mp h with ⟨d, hd, hrest⟩
  rcases hlisted.dbdir with ⟨d', hd', hin⟩
  have heq : d' = d := Option.some.inj (hd'.symm.trans (State.get_eq_ok hd))
  rw [if_pos (heq ▸ hin)] at hrest
  by_cases huses : s.UsesSparse s.lsn
  · rw [getRelExistsInDirectory_sparse huses] at hrest
    exact (getRelExistsInReldirV2_modified hrest).mpr (hlisted.sparse huses)
  · rw [getRelExistsInDirectory_old huses] at hrest
    unfold getRelExistsInReldirV1 at hrest
    dsimp only at hrest
    rw [if_pos hdec.1.symm] at hrest
    cases hrest
    exact hdec.2 huses

/-- The size of a listed relation is read from the store, or from a cache that agrees. -/
theorem yields_getRelSizeInReldir_listed (hcoherent : s.Coherent) (hlisted : s.Listed rel)
    (hdec : Decoded s db dir rel) :
    Yields (getRelSizeInReldir rel .modified (some (db, dir)) false) s (fun res s' =>
      exists n, res = some n ∧ s.sizeOf rel = some n ∧ CachesOnly s s') := by
  refine read_bind (fun lookup hlookup => ?_)
  cases lookup with
  | fetched n =>
    have hsize := State.get_eq_ok (lookupRelSize_fetched hlookup)
    exact ⟨n, rfl, hsize, cachesOnly_updateCachedRelSize hsize⟩
  | done res =>
    rcases lookupRelSize_done hlookup with ⟨n, rfl, hcached | ⟨_, hfalse⟩⟩
    · rw [hcoherent.getCachedRelSize] at hcached
      rcases Option.map_eq_some_iff.mp hcached with ⟨⟨l, m⟩, hcache, rfl⟩
      exact ⟨m, rfl, hcoherent.size rel l m hcache, refl s⟩
    · unfold getRelExistsInReldir at hfalse
      split at hfalse
      · cases hfalse
      · split at hfalse
        · cases hfalse
        · cases getRelExistsUncached_decoded hlisted hdec hfalse

theorem yields_getDbSize (hcoherent : s.Coherent)
    (hlisted : forall rels, listRels s spcnode dbnode .modified = .ok rels ->
      forall rel, rel ∈ rels -> s.Listed rel ∧ (rel.spcnode, rel.dbnode) = (spcnode, dbnode)) :
    Yields (getDbSize spcnode dbnode .modified) s (fun total s' =>
      CachesOnly s s' ∧ exists rels, listRels s spcnode dbnode .modified = .ok rels ∧
        total = (rels.map s.blocksOf).sum) := by
  refine read_bind (fun rels hrels => Yields.ite (fun hempty => ?_) (fun _ => ?_))
  · have hnil : rels = [] := isEmpty_iff.mp hempty
    subst hnil
    exact ⟨refl s, [], hrels, rfl⟩
  · refine read_bind (fun dir hdir => ?_)
    have hcur : s.cur (.relDir spcnode dbnode) = some dir := State.get_eq_ok hdir
    have hround : forall (front : List RelTag) (rel : RelTag) (total : Nat) (s1 : State),
        CachesOnly s s1 ∧ total = (front.map s.blocksOf).sum -> rel ∈ rels ->
        Yields (addRelSize .modified (some ((spcnode, dbnode), dir)) total rel) s1
          (fun total' s2 => CachesOnly s s2 ∧
            total' = ((front ++ [rel]).map s.blocksOf).sum) := by
      rintro front rel total s1 ⟨h1, htotal⟩ hrel
      rcases hlisted rels hrels rel hrel with ⟨hl, hdb⟩
      have hl1 : s1.Listed rel := hl.of_cur (fun _ _ => congrFun h1.cur _) h1.behind.uses
      have hdec : Decoded s1 (spcnode, dbnode) dir rel := by
        refine ⟨hdb, fun hnot => ?_⟩
        exact (inOld_iff hdb (h1.cur ▸ hcur)).mp (hl1.relDir hnot)
      refine (yields_getRelSizeInReldir_listed (hcoherent.quiet h1.quiet) hl1 hdec).bind ?_
      rintro res s2 ⟨n, rfl, hsize, h2⟩
      refine Yields.pure ⟨Trans.trans h1 h2, ?_⟩
      rw [h1.quiet.sizes] at hsize
      rw [htotal, map_append, sum_append, map_singleton, sum_singleton, blocksOf_of_size hsize]
    have hfold : Yields (rels.foldlM
        (addRelSize .modified (some ((spcnode, dbnode), dir))) 0) s (fun total s' =>
          CachesOnly s s' ∧ total = (([] ++ rels).map s.blocksOf).sum) :=
      Yields.foldlM hround ⟨refl s, rfl⟩
    exact hfold.mono (fun total s' hs' => ⟨hs'.1, rels, hrels, hs'.2⟩)

/-- A database has left the directory of databases, and the rest is as it was. -/
structure WithoutDb (s s' : State) (db : Oid × Oid) (d : DbDirectory) : Prop where
  behind : Behind s s'
  quiet : Quiet s s'
  dbdir : s.cur .dbdir = some d
  cur : s'.cur = Function.update s.cur .dbdir (some (d.remove db))
  rels : s'.sparseRels = s.sparseRels

namespace WithoutDb

variable {d : DbDirectory} (h : WithoutDb s s' db d)
include h

theorem cur_ne {k : MetaKey} (hk : k ≠ .dbdir) : s'.cur k = s.cur k := by
  rw [h.cur, Function.update_of_ne hk]

theorem cur_dbdir : s'.cur .dbdir = some (d.remove db) := by
  rw [h.cur, Function.update_self]

theorem hasDb (x : Oid × Oid) : s'.HasDb x <-> s.HasDb x ∧ x ≠ db := by
  rw [hasDb_iff h.cur_dbdir, hasDb_iff h.dbdir]
  unfold DbDirectory.contains
  rw [DbDirectory.get?_remove]
  split
  next heq => exact iff_of_false nofun (fun h => h.2 heq)
  next hne => exact ⟨fun h => ⟨h, hne⟩, fun h => h.1⟩

theorem listed (r : RelTag) : s'.Listed r <-> s.Listed r ∧ (r.spcnode, r.dbnode) ≠ db := by
  by_cases hsparse : s.UsesSparse s.lsn
  · rw [listed_iff_sparse hsparse, listed_iff_sparse (h.behind.uses.mpr hsparse), h.hasDb]
    unfold State.InSparse
    rw [h.cur_ne (k := .relTagSparse r) nofun]
    exact and_right_comm
  · rw [listed_iff_old hsparse, listed_iff_old (mt h.behind.uses.mp hsparse), h.hasDb,
      InOld.congr (h.cur_ne (k := .relDir _ _) nofun)]
    exact and_right_comm

theorem complete (hs : s.Complete) : s'.Complete := by
  refine ⟨?_, fun x hx => hs.keys x ((h.hasDb x).mp hx).1, ?_, ?_, ?_⟩
  · rcases hs.dbdir with ⟨d', heq, hnodup⟩
    cases heq.symm.trans h.dbdir
    exact ⟨_, h.cur_dbdir, hnodup.sublist (List.Sublist.map Prod.fst filter_sublist)⟩
  · intro hold x hx
    rw [h.cur_ne (k := .relDir _ _) nofun]
    exact hs.relDir (mt h.behind.uses.mpr hold) x ((h.hasDb x).mp hx).1
  · intro hyes r hr
    unfold State.InSparse at hr
    rw [h.cur_ne (k := .relTagSparse r) nofun] at hr
    rw [h.rels]
    exact hs.sparse (h.behind.uses.mp hyes) r hr
  · intro r hr
    rw [h.quiet.sizes]
    exact hs.sizes r ((h.listed r).mp hr).1

end WithoutDb

theorem withoutDb_dropDb {d : DbDirectory} (db : Oid × Oid) (hcaches : CachesOnly s s')
    (hd : s.cur .dbdir = some d) (nblocks : Int) :
    WithoutDb s ((s'.putMetadata .dbdir (d.remove db)).addNblocks nblocks) db d where
  behind := Trans.trans hcaches.behind (IsTrans.trans _ _ _ (behind_putMetadata s' .dbdir _)
    ⟨rfl, rfl, rfl, rfl, fun _ => Iff.rfl, fun _ _ _ => rfl, fun _ hwf => { hwf with }⟩)
  quiet := Trans.trans hcaches.quiet (Trans.trans (calm_putMetadata s' .dbdir trivial _).quiet
    (calm_addNblocks _ _).quiet)
  dbdir := hd
  cur := by
    rw [← hcaches.cur]
    exact cur_putMetadata s' .dbdir _
  rels := hcaches.rels

theorem State.Balanced.dropDb {d : DbDirectory} (h : s.Balanced base)
    (hlt : s.tline.lastRecordLsn < s.lsn) (hcaches : CachesOnly s s')
    (hd : s.cur .dbdir = some d) (hnodup : rels.Nodup)
    (hrels : forall rel, rel ∈ rels <-> s.Listed rel ∧ (rel.spcnode, rel.dbnode) = db) :
    ((s'.putMetadata .dbdir (d.remove db)).addNblocks
      (-((rels.map s.blocksOf).sum : Nat))).Balanced base := by
  have hwithout := withoutDb_dropDb db hcaches hd (-((rels.map s.blocksOf).sum : Nat))
  refine h.without hlt hwithout.behind hwithout.quiet (hwithout.complete h.complete)
    hcaches.logical rels.toFinset (fun r hr => ((hrels r).mp (mem_toFinset.mp hr)).1)
    (fun r => ?_) ?_
  · rw [hwithout.listed, mem_toFinset, hrels]
    exact ⟨fun h => ⟨h.1, fun hno => h.2 hno.2⟩, fun h => ⟨h.1, fun heq => h.2 ⟨h.1, heq⟩⟩⟩
  · have hpending : toI64 (s'.modification.pendingNblocks +
        -((rels.map s.blocksOf).sum : Nat)) ≡ s.modification.pendingNblocks +
        -((rels.map s.blocksOf).sum : Nat) [ZMOD 2 ^ 64] := by
      rw [← hcaches.nblocks]
      exact toI64_modEq _
    rw [sum_toFinset s.blocksOf hnodup]
    show toI64 (s'.modification.pendingNblocks + -((rels.map s.blocksOf).sum : Nat)) + _ ≡ _
      [ZMOD 2 ^ 64]
    unfold Int.ModEq at *
    omega

theorem listRelsV1_mem (hdir : version.get s (.relDir spcnode dbnode) = .ok dir)
    (hnodup : dir.rels.Nodup) (h : listRelsV1 s spcnode dbnode version = .ok rels) :
    rels.Nodup ∧ forall rel, rel ∈ rels <->
      (rel.spcnode, rel.dbnode) = (spcnode, dbnode) ∧ dir.contains rel = true := by
  rcases map_eq_ok_iff.mp h with ⟨d, hd, rfl⟩
  have heq : d = dir := Except.ok.inj (hd.symm.trans hdir)
  subst heq
  refine ⟨hnodup.map (fun x y hxy => ?_), fun rel => ?_⟩
  · injection hxy with hfork _ _ hnode
    exact Prod.ext hnode hfork
  · unfold RelDirectory.contains
    rw [mem_map, contains_iff_mem]
    constructor
    · rintro ⟨x, hx, rfl⟩
      exact ⟨rfl, hx⟩
    · rintro ⟨hdb, hin⟩
      obtain ⟨hspc, hdbn⟩ := Prod.mk.inj hdb
      refine ⟨_, hin, ?_⟩
      rw [← hspc, ← hdbn]

theorem listRelsV1_listed (hold : ¬ s.UsesSparse s.lsn) (hdb : s.HasDb db)
    (hdir : version.get s (.relDir db.1 db.2) = .ok dir)
    (hcur : s.cur (.relDir db.1 db.2) = some dir)
    (hnodup : dir.rels.Nodup) (h : listRelsV1 s db.1 db.2 version = .ok rels) :
    rels.Nodup ∧ forall rel, rel ∈ rels <-> s.Listed rel ∧ (rel.spcnode, rel.dbnode) = db := by
  rcases listRelsV1_mem hdir hnodup h with ⟨hnd, hin⟩
  refine ⟨hnd, fun rel => ?_⟩
  rw [hin, listed_iff_old hold, and_comm]
  refine and_congr_left (fun hrel => ?_)
  rw [inOld_iff hrel hcur, hrel]
  exact (and_iff_right hdb).symm

theorem listRelsV2_mem (h : listRelsV2 s spcnode dbnode version = .ok rels) :
    rels.Nodup ∧ forall rel, rel ∈ rels <-> rel ∈ s.sparseRels ∧
      (rel.spcnode, rel.dbnode) = (spcnode, dbnode) ∧
      versionAt (s.tline.metadata (.relTagSparse rel)) (version.getLsn s) = some .existing := by
  rcases bind_eq_ok_iff.mp h with ⟨_, _, hrels⟩
  cases hrels
  refine ⟨(nodup_dedup _).filter _, fun rel => ?_⟩
  rw [mem_filter, mem_dedup, Bool.and_eq_true, Bool.and_eq_true, beq_iff_eq,
    beq_iff_eq, beq_iff_eq, Prod.mk.injEq]

theorem listRels_old (version : Version) (hold : ¬ s.UsesSparse (version.getLsn s))
    (spcnode dbnode : Oid) :
    listRels s spcnode dbnode version = listRelsV1 s spcnode dbnode version := by
  unfold listRels
  split
  · rfl
  · rfl
  next hstatus =>
    split
    · rfl
    next hge => exact absurd ⟨hstatus, Nat.not_lt.mp hge⟩ hold

theorem listRels_sparse (version : Version) (huses : s.UsesSparse (version.getLsn s))
    (spcnode dbnode : Oid) :
    listRels s spcnode dbnode version = listRelsV2 s spcnode dbnode version := by
  unfold listRels
  rw [huses.1]
  rw [if_neg (Nat.not_lt.mpr huses.2)]

/-- A database is dropped with its blocks, if the scan of the sparse directory sees them. -/
theorem balanced_dropDbdir (h : s.Balanced base) (hlt : s.tline.lastRecordLsn < s.lsn)
    (hdb : s.HasDb (spcnode, dbnode)) (hseen : s.UsesSparse s.lsn -> forall rels,
      listRels s spcnode dbnode .modified = .ok rels -> forall rel : RelTag,
      (rel.spcnode, rel.dbnode) = (spcnode, dbnode) -> (rel ∈ rels <-> s.InSparse rel)) :
    Yields (dropDbdir spcnode dbnode) s (fun _ s' => s'.Balanced base) := by
  have hmem : forall rels, listRels s spcnode dbnode .modified = .ok rels ->
      rels.Nodup ∧ forall rel, rel ∈ rels <->
        s.Listed rel ∧ (rel.spcnode, rel.dbnode) = (spcnode, dbnode) := by
    intro rels hrels
    by_cases huses : s.UsesSparse s.lsn
    · have hv2 := hrels
      rw [listRels_sparse .modified huses] at hv2
      rcases listRelsV2_mem hv2 with ⟨hnodup, hin⟩
      refine ⟨hnodup, fun rel => ?_⟩
      rw [listed_iff_sparse huses]
      constructor
      · intro hrel
        have hreldb := ((hin rel).mp hrel).2.1
        exact ⟨⟨hreldb ▸ hdb, (hseen huses rels hrels rel hreldb).mp hrel⟩, hreldb⟩
      · rintro ⟨⟨_, hsparse⟩, hreldb⟩
        exact (hseen huses rels hrels rel hreldb).mpr hsparse
    · rw [listRels_old .modified huses] at hrels
      rcases map_eq_ok_iff.mp hrels with ⟨dir, hdir, _⟩
      have hcur : s.cur (.relDir spcnode dbnode) = some dir := State.get_eq_ok hdir
      rcases h.complete.relDir huses (spcnode, dbnode) hdb with ⟨d, hd, hnd⟩
      cases hd.symm.trans hcur
      exact listRelsV1_listed huses hdb hdir hcur hnd hrels
  refine (yields_getDbSize h.coherent (fun rels hrels rel hrel =>
    ((hmem rels hrels).2 rel).mp hrel)).bind ?_
  rintro total s1 ⟨hcaches, rels, hrels, rfl⟩
  refine read_bind (fun d hd => ?_)
  have hcur : s.cur .dbdir = some d := by
    have hcur1 := State.get_eq_ok hd
    rw [hcaches.cur] at hcur1
    exact hcur1
  have hin : d.contains (spcnode, dbnode) = true := (hasDb_iff hcur).mp hdb
  have hput : Yields (Prog.onlyIf (d.contains (spcnode, dbnode) = true)
      (put .dbdir (d.remove (spcnode, dbnode)))) s1
      (fun _ s2 => s2 = s1.putMetadata .dbdir (d.remove (spcnode, dbnode))) :=
    Yields.onlyIf (fun _ => yields_put .dbdir _ s1) (fun hnot => absurd hin hnot)
  refine hput.bind ?_
  rintro _ s2 rfl
  exact Yields.modify (h.dropDb hlt hcaches hcur (hmem rels hrels).1 (hmem rels hrels).2)

end Datadir
end Pageserver
end OpenNeon

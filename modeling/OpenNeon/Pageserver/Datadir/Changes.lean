import OpenNeon.Pageserver.Datadir.View

/-!
# What the functions of a modification change

Most functions change only directories.  Reading sizes may fill the cache of the
latest sizes and dropping relations may empty it.  A few functions write the size
of one relation.  One lemma a function says which of these it does.
-/

namespace OpenNeon
namespace Pageserver
namespace Datadir

open Base WalDecoder State Function
open Prog (Keeps wp Yields wp_mono)
open Prog.Yields (read_bind refuse_bind)
export Prog (Keeps)

/-!
## Directories
-/

structure Steady (s s' : State) : Prop where
  versions : s'.versions = s.versions
  lsn : s'.lsn = s.lsn
  lastRecordLsn : s'.tline.lastRecordLsn = s.tline.lastRecordLsn
  blocks : s'.tline.blocks = s.tline.blocks
  shard : s'.tline.shard = s.tline.shard
  snapshot : s'.tline.relSizeSnapshotCache = s.tline.relSizeSnapshotCache
  wf : s.tline.lastRecordLsn < s.lsn -> s.WF -> s'.WF

theorem Steady.trans {s s' s'' : State} (h : Steady s s') (h' : Steady s' s'') : Steady s s'' :=
  ⟨h'.versions.trans h.versions, h'.lsn.trans h.lsn, h'.lastRecordLsn.trans h.lastRecordLsn,
    h'.blocks.trans h.blocks, h'.shard.trans h.shard, h'.snapshot.trans h.snapshot,
    fun hlsn hwf => h'.wf (by rw [h.lastRecordLsn, h.lsn]; exact hlsn) (h.wf hlsn hwf)⟩

structure Calm (s s' : State) : Prop extends Steady s s' where
  sizes : s'.sizeOf = s.sizeOf
  belowSince : s'.belowSince = s.belowSince
  cache : s'.cache = s.cache

instance : Std.Refl Calm where
  refl _ := ⟨⟨rfl, rfl, rfl, rfl, rfl, rfl, fun _ h => h⟩, rfl, rfl, rfl⟩

instance : IsTrans State Calm where
  trans _ _ _ h h' := ⟨h.toSteady.trans h'.toSteady, h'.sizes.trans h.sizes,
    h'.belowSince.trans h.belowSince, h'.cache.trans h.cache⟩

def MetaKey.NotSize : MetaKey -> Prop
  | .relSize _ => False
  | _ => True

theorem MetaKey.NotSize.ne {k : MetaKey} (h : k.NotSize) (rel : RelTag) :
    MetaKey.relSize rel ≠ k := by
  intro heq
  subst heq
  exact h

theorem calm_putMetadata (s : State) (k : MetaKey) (hk : k.NotSize) (v : k.Val) :
    Calm s (s.putMetadata k v) := by
  refine ⟨⟨rfl, rfl, rfl, rfl, rfl, rfl, fun hlsn hwf => hwf.putMetadata hlsn k v⟩, ?_, rfl, rfl⟩
  funext rel
  show (s.putMetadata k v).cur (.relSize rel) = s.cur (.relSize rel)
  rw [cur_put_of_ne (hk.ne rel)]

theorem calm_put (k : MetaKey) (hk : k.NotSize) (v : k.Val) : Keeps Calm (put k v) :=
  (Keeps.liftExcept _).bind (fun _ => Keeps.modify
    (fun s => calm_putMetadata s k hk v))

theorem calm_addNblocks (delta : Int) (s : State) : Calm s (s.addNblocks delta) :=
  ⟨⟨rfl, rfl, rfl, rfl, rfl, rfl, fun _ h => { h with }⟩, rfl, rfl, rfl⟩

theorem calm_putRelmapFile (spcnode dbnode : Oid) (img : List UInt8) :
    Keeps Calm (putRelmapFile spcnode dbnode img) := by
  refine (Keeps.read _).bind (fun dbdir => ?_)
  refine (Keeps.onlyIf (calm_put .dbdir trivial _)).bind (fun _ => ?_)
  refine (Keeps.onlyIf (calm_put (.relDir spcnode dbnode) trivial _)).bind (fun _ => ?_)
  exact calm_put (.relmapFile spcnode dbnode) trivial img

/-- What is before the LSN of the modification stays. -/
structure Behind (s s' : State) : Prop where
  lsn : s'.lsn = s.lsn
  lastRecordLsn : s'.tline.lastRecordLsn = s.tline.lastRecordLsn
  pendingLsns : s'.modification.pendingLsns = s.modification.pendingLsns
  snapshot : s'.tline.relSizeSnapshotCache = s.tline.relSizeSnapshotCache
  sparse : forall x, s'.UsesSparse x <-> s.UsesSparse x
  views : forall k x, x < s.lsn -> s'.viewAt k x = s.viewAt k x
  wf : s.tline.lastRecordLsn < s.lsn -> s.WF -> s'.WF

instance : Std.Refl Behind where
  refl _ := ⟨rfl, rfl, rfl, rfl, fun _ => Iff.rfl, fun _ _ _ => rfl, fun _ h => h⟩

instance : IsTrans State Behind where
  trans _ _ _ h h' :=
    { lsn := h'.lsn.trans h.lsn
      lastRecordLsn := h'.lastRecordLsn.trans h.lastRecordLsn
      pendingLsns := h'.pendingLsns.trans h.pendingLsns
      snapshot := h'.snapshot.trans h.snapshot
      sparse := fun x => (h'.sparse x).trans (h.sparse x)
      views := fun k x hx => (h'.views k x (by rw [h.lsn]; exact hx)).trans (h.views k x hx)
      wf := fun hlt hwf =>
        h'.wf (by rw [h.lastRecordLsn, h.lsn]; exact hlt) (h.wf hlt hwf) }

theorem Behind.uses {s s' : State} (h : Behind s s') :
    s'.UsesSparse s'.lsn <-> s.UsesSparse s.lsn := by
  rw [h.lsn, h.sparse]

theorem Behind.lt {s s' : State} (h : Behind s s') (hlt : s.tline.lastRecordLsn < s.lsn) :
    s'.tline.lastRecordLsn < s'.lsn := by
  rw [h.lastRecordLsn, h.lsn]
  exact hlt

theorem behind_putMetadata (s : State) (k : MetaKey) (v : k.Val) : Behind s (s.putMetadata k v) :=
  ⟨rfl, rfl, rfl, rfl, fun _ => Iff.rfl, fun j _ hx => s.viewAt_putMetadata_of_lt k v hx j,
    fun hlt hwf => hwf.putMetadata hlt k v⟩

structure Uncounted (s s' : State) : Prop where
  calm : Calm s s'
  behind : Behind s s'
  nblocks : s'.modification.pendingNblocks = s.modification.pendingNblocks
  logical : s'.tline.currentLogicalSize = s.tline.currentLogicalSize

instance : Std.Refl Uncounted where
  refl s := ⟨refl s, refl s, rfl, rfl⟩

instance : IsTrans State Uncounted where
  trans _ _ _ h h' := ⟨Trans.trans h.calm h'.calm, Trans.trans h.behind h'.behind,
    h'.nblocks.trans h.nblocks, h'.logical.trans h.logical⟩

theorem uncounted_putMetadata (s : State) (k : MetaKey) (hk : k.NotSize) (v : k.Val) :
    Uncounted s (s.putMetadata k v) :=
  ⟨calm_putMetadata s k hk v, behind_putMetadata s k v, rfl, rfl⟩

theorem uncounted_note (s : State) (rel : RelTag) :
    Uncounted s { s with sparseRels := rel :: s.sparseRels } :=
  ⟨⟨⟨rfl, rfl, rfl, rfl, rfl, rfl, fun _ h => { h with }⟩, rfl, rfl, rfl⟩,
    ⟨rfl, rfl, rfl, rfl, fun _ => Iff.rfl, fun _ _ _ => rfl, fun _ h => { h with }⟩, rfl, rfl⟩

/-- Nothing changes but the sparse directory and the state of the migration. -/
structure Aside (s s' : State) : Prop extends Uncounted s s' where
  views : forall k : MetaKey, (forall rel, k ≠ .relTagSparse rel) -> s'.cur k = s.cur k

instance : Std.Refl Aside where
  refl s := ⟨refl s, fun _ _ => rfl⟩

instance : IsTrans State Aside where
  trans _ _ _ h h' := ⟨Trans.trans h.toUncounted h'.toUncounted,
    fun k hk => (h'.views k hk).trans (h.views k hk)⟩

theorem aside_putRelTag (rel : RelTag) (entry : RelDirExists) :
    Keeps Aside (putRelTag rel entry) := by
  refine Keeps.bind (R := Aside) ((Keeps.liftExcept _).bind (fun _ => Keeps.modify (fun s => ?_)))
    (fun _ => Keeps.modify (fun s => ⟨uncounted_note s rel, fun _ _ => rfl⟩))
  exact ⟨uncounted_putMetadata s (.relTagSparse rel) trivial entry,
    fun k hk => cur_put_of_ne (hk rel) entry⟩

theorem aside_putRelCreationV2 (rel : RelTag) : Keeps Aside (putRelCreationV2 rel) :=
  (Keeps.read _).bind (fun _ => (Keeps.refuse _).bind (fun _ => aside_putRelTag _ _))

theorem aside_putRelDropV2 (drops : DropRelations) : Keeps Aside (putRelDropV2 drops) :=
  Keeps.forM (fun _ => Keeps.forM (fun _ => (Keeps.read _).bind
    (fun _ => Keeps.onlyIf (aside_putRelTag _ _))))

variable {s s' : State} {r rel : RelTag} {n : BlockNumber}

theorem aside_initializeRelSizeV2Keyspace (hold : forall x, ¬ s.UsesSparse x)
    (dbdir : DbDirectory) :
    wp (initializeRelSizeV2Keyspace dbdir) (fun _ => Aside s) (fun _ => Aside s) s := by
  have hcopy : Keeps Aside (dbdir.dbdirs.forM (fun entry => do
      let relDir ← Prog.read (fun s => s.get (.relDir entry.1.1 entry.1.2))
      relDir.rels.forM (fun rel =>
        putRelTag ⟨rel.2, entry.1.1, entry.1.2, rel.1⟩ .existing))) :=
    Keeps.forM (fun _ => (Keeps.read _).bind (fun _ => Keeps.forM
      (fun _ => aside_putRelTag _ _)))
  refine Prog.wp_bind.mpr (Prog.wp_imp (hcopy s) (fun _ s1 haside => Prog.wp_modify.mpr ?_))
  have hold1 : forall x, ¬ s1.UsesSparse x := fun x => mt (haside.behind.sparse x).mp (hold x)
  have hstatus : Aside s1 (updateRelSizeV2Status .migrating s1) :=
    ⟨⟨⟨⟨rfl, rfl, rfl, rfl, rfl, rfl, fun _ h => { h with }⟩, rfl, rfl, rfl⟩,
      ⟨rfl, rfl, rfl, rfl, fun x => iff_of_false (fun h => nomatch h.1) (hold1 x),
        fun _ _ _ => rfl, fun _ h => { h with }⟩, rfl, rfl⟩, fun _ _ => rfl⟩
  exact Trans.trans haside hstatus

theorem maybeEnableRelSizeV2_status (s : State) (isCreate : Bool) :
    (maybeEnableRelSizeV2 s isCreate).1 = s.tline.relSizeV2Status := by
  unfold maybeEnableRelSizeV2
  split
  next hstatus => exact hstatus.symm
  · rfl

theorem legacy_of_maybeEnableRelSizeV2 {isCreate : Bool}
    (h : (maybeEnableRelSizeV2 s isCreate).2 = true) : s.tline.relSizeV2Status = .legacy := by
  unfold maybeEnableRelSizeV2 at h
  split at h
  next hstatus => exact hstatus
  · cases h

theorem aside_relDirModeForCreation (hstatus : s.tline.relSizeV2Status ≠ .migrated)
    (dbdir : DbDirectory) :
    Yields (relDirModeForCreation dbdir) s
      (fun status s' => Aside s s' ∧ status ≠ .migrated) := by
  refine read_bind (fun mode hmode => ?_)
  cases hmode
  have hmode : (maybeEnableRelSizeV2 s true).1 ≠ .migrated := by
    rw [maybeEnableRelSizeV2_status]
    exact hstatus
  refine Yields.ite (fun _ => ?_) (fun _ => ⟨refl s, hmode⟩)
  refine Prog.wp_bind.mpr (Prog.wp_attempt.mpr (wp_mono
    (aside_initializeRelSizeV2Keyspace (fun _ h => hstatus h.1) dbdir) ?_ ?_))
  · exact fun _ _ haside => ⟨haside, nofun⟩
  · exact fun _ _ haside => ⟨haside, hmode⟩

theorem yields_relDirModeForCreation_migrated (hstatus : s.tline.relSizeV2Status = .migrated)
    (dbdir : DbDirectory) :
    Yields (relDirModeForCreation dbdir) s (fun status s' => s' = s ∧ status = .migrated) := by
  refine read_bind (fun mode hmode => ?_)
  cases hmode
  refine Yields.ite (fun hinit => ?_)
    (fun _ => ⟨rfl, (maybeEnableRelSizeV2_status s true).trans hstatus⟩)
  cases hstatus.symm.trans (legacy_of_maybeEnableRelSizeV2 hinit)

/-!
## The cache of the latest sizes
-/

/-- Only directories change, and cache entries, which are removed or hold the stored size. -/
structure Quiet (s s' : State) : Prop extends Steady s s' where
  sizes : s'.sizeOf = s.sizeOf
  belowSince : s'.belowSince = s.belowSince
  cache : forall rel, s'.cache rel = s.cache rel ∨ s'.cache rel = none ∨
    exists n, s'.cache rel = some (s.lsn, n) ∧ s.sizeOf rel = some n

theorem Calm.quiet (h : Calm s s') : Quiet s s' :=
  ⟨h.toSteady, h.sizes, h.belowSince, fun rel => .inl (congrFun h.cache rel)⟩

instance : Std.Refl Quiet where
  refl s := (refl s : Calm s s).quiet

instance : IsTrans State Quiet where
  trans s s' s'' h h' :=
    { toSteady := h.toSteady.trans h'.toSteady
      sizes := h'.sizes.trans h.sizes
      belowSince := h'.belowSince.trans h.belowSince
      cache := by
        intro rel
        rcases h'.cache rel with hsame | hnone | ⟨n, hsome, hsize⟩
        · rw [hsame]
          exact h.cache rel
        · exact .inr (.inl hnone)
        · rw [h.lsn] at hsome
          rw [h.sizes] at hsize
          exact .inr (.inr ⟨n, hsome, hsize⟩) }

theorem Calm.keeps_quiet {alpha : Type} {m : Op alpha} (h : Keeps Calm m) : Keeps Quiet m :=
  h.imp (fun _ _ => Calm.quiet)

theorem State.Coherent.quiet (h : s.Coherent) (hquiet : Quiet s s') : s'.Coherent where
  size := by
    intro rel l n hcache
    rw [hquiet.sizes]
    rcases hquiet.cache rel with hsame | hnone | ⟨m, hsome, hsize⟩
    · exact h.size rel l n (hsame.symm.trans hcache)
    · rw [hnone] at hcache
      cases hcache
    · rw [hsome] at hcache
      cases hcache
      exact hsize
  lsn_le := by
    intro rel l n hcache
    rw [hquiet.lsn]
    rcases hquiet.cache rel with hsame | hnone | ⟨m, hsome, hsize⟩
    · exact h.lsn_le rel l n (hsame.symm.trans hcache)
    · rw [hnone] at hcache
      cases hcache
    · rw [hsome] at hcache
      cases hcache
      exact Nat.le_refl _
  snapshot := by
    intro rel
    rw [hquiet.snapshot, hquiet.lsn]
    exact h.snapshot rel

theorem cache_setCachedRelSize (s : State) (rel : RelTag) (l : Lsn) (n : BlockNumber) (r : RelTag) :
    (s.setCachedRelSize rel l n).cache r = if r = rel then some (l, n) else s.cache r :=
  update_apply _ _ _ _

theorem cached_setCachedRelSize (h : (s.cache r).isSome) (rel : RelTag) (l : Lsn)
    (n : BlockNumber) :
    ((s.setCachedRelSize rel l n).cache r).isSome := by
  rw [cache_setCachedRelSize]
  split
  · rfl
  · exact h

theorem quiet_setCachedRelSize (hsize : s.sizeOf rel = some n) :
    Quiet s (s.setCachedRelSize rel s.lsn n) := by
  refine ⟨⟨rfl, rfl, rfl, rfl, rfl, rfl, fun _ h => { h with }⟩, rfl, rfl, fun r => ?_⟩
  rw [cache_setCachedRelSize]
  split
  next heq =>
    subst heq
    exact .inr (.inr ⟨n, rfl, hsize⟩)
  · exact .inl rfl

theorem updateCachedRelSize_of {p : State -> Prop} (hs : p s)
    (hset : p (s.setCachedRelSize rel s.lsn n)) : p (s.updateCachedRelSize rel .modified n) := by
  unfold updateCachedRelSize
  rw [if_pos (show Version.modified.isLatest = true from rfl)]
  split
  · split
    · exact hset
    · exact hs
  · exact hset

theorem quiet_updateCachedRelSize (hsize : s.sizeOf rel = some n) :
    Quiet s (s.updateCachedRelSize rel .modified n) :=
  updateCachedRelSize_of (refl s) (quiet_setCachedRelSize hsize)

theorem quiet_removeCachedRelSize (s : State) (rel : RelTag) :
    Quiet s (s.removeCachedRelSize rel) := by
  refine ⟨⟨rfl, rfl, rfl, rfl, rfl, rfl, fun _ h => { h with }⟩, rfl, rfl, fun r => ?_⟩
  by_cases hr : r = rel
  · subst hr
    exact .inr (.inl (update_self _ _ _))
  · exact .inl (update_of_ne hr _ _)

section

variable {version : Version} {reldir : DeserializedReldir} {allowMissing : Bool}

/-- A size comes from a cache, is zero for a missing map fork, or is read from the store. -/
theorem lookupRelSize_cases {lookup : RelSizeLookup}
    (h : lookupRelSize s rel version reldir allowMissing = .ok lookup) :
    (exists n, lookup = .done (some n) ∧ getCachedRelSize s rel version = some n) ∨
      lookup = .done none ∧ allowMissing = true ∨
      lookup = .done (some 0) ∧ getRelExistsInReldir s rel version reldir = .ok false ∨
      exists n, lookup = .fetched n ∧ version.get s (.relSize rel) = .ok n ∧
        (rel.forknum = FSM_FORKNUM ∨ rel.forknum = VISIBILITYMAP_FORKNUM ->
          getRelExistsUncached s rel version reldir = .ok true) := by
  unfold lookupRelSize getRelExistsIf at h
  split at h
  · cases h
  next hrel =>
    split at h
    next n hcached =>
      cases h
      exact .inl ⟨n, rfl, hcached⟩
    next hnone =>
      rcases bind_eq_ok_iff.mp h with ⟨found, hfound, hrest⟩
      cases found with
      | false =>
        cases hrest
        split at hfound
        next hallow => exact .inr (.inl ⟨rfl, hallow⟩)
        next => cases hfound
      | true =>
        rcases bind_eq_ok_iff.mp hrest with ⟨mapFound, hmapFound, hlast⟩
        cases mapFound with
        | false =>
          cases hlast
          split at hmapFound
          next => exact .inr (.inr (.inl ⟨rfl, hmapFound⟩))
          next => cases hmapFound
        | true =>
          rcases map_eq_ok_iff.mp hlast with ⟨n, hn, rfl⟩
          refine .inr (.inr (.inr ⟨n, rfl, hn, fun hmap => ?_⟩))
          rw [if_pos hmap, getRelExistsInReldir, if_neg hrel, hnone] at hmapFound
          exact hmapFound

theorem lookupRelSize_fetched
    (h : lookupRelSize s rel version reldir allowMissing = .ok (.fetched n)) :
    version.get s (.relSize rel) = .ok n := by
  rcases lookupRelSize_cases h with ⟨_, ⟨⟩, _⟩ | ⟨⟨⟩, _⟩ | ⟨⟨⟩, _⟩ | ⟨_, ⟨⟩, hn, _⟩
  exact hn

theorem lookupRelSize_done {res : Option BlockNumber}
    (h : lookupRelSize s rel version reldir false = .ok (.done res)) :
    exists n, res = some n ∧ (getCachedRelSize s rel version = some n ∨
      n = 0 ∧ getRelExistsInReldir s rel version reldir = .ok false) := by
  rcases lookupRelSize_cases h with ⟨n, ⟨⟩, hn⟩ | ⟨_, ⟨⟩⟩ | ⟨⟨⟩, hfalse⟩ | ⟨_, ⟨⟩, _⟩
  · exact ⟨n, rfl, .inl hn⟩
  · exact ⟨0, rfl, .inr ⟨rfl, hfalse⟩⟩

end

theorem quiet_getRelSizeInReldir (rel : RelTag) (reldir : DeserializedReldir)
    (allowMissing : Bool) :
    Keeps Quiet (getRelSizeInReldir rel .modified reldir allowMissing) := by
  refine Keeps.read_bind (fun s lookup hlookup => ?_)
  cases lookup with
  | done n => exact refl s
  | fetched n =>
    exact quiet_updateCachedRelSize (State.get_eq_ok (lookupRelSize_fetched hlookup))

theorem quiet_getRelSize (rel : RelTag) : Keeps Quiet (getRelSize rel .modified) := by
  refine (quiet_getRelSizeInReldir rel none false).bind (fun res => ?_)
  cases res with
  | none => exact Keeps.throw _
  | some n => exact Keeps.pure _

theorem quiet_getDbSize (spcnode dbnode : Oid) :
    Keeps Quiet (getDbSize spcnode dbnode .modified) := by
  refine (Keeps.read _).bind (fun rels => Keeps.ite (Keeps.pure _) ?_)
  refine (Keeps.read _).bind (fun reldir => Keeps.foldlM (fun total rel => ?_) 0)
  refine (quiet_getRelSizeInReldir rel _ false).bind (fun res => ?_)
  cases res with
  | none => exact Keeps.throw _
  | some n => exact Keeps.pure _

theorem quiet_dropDbdir (spcnode dbnode : Oid) : Keeps Quiet (dropDbdir spcnode dbnode) := by
  refine (quiet_getDbSize spcnode dbnode).bind (fun _ => ?_)
  refine (Keeps.read _).bind (fun dir => ?_)
  have hput : Keeps Quiet (put .dbdir (dir.remove (spcnode, dbnode))) :=
    Calm.keeps_quiet (calm_put .dbdir trivial _)
  exact (Keeps.onlyIf hput).bind (fun _ => Keeps.modify (fun s => (calm_addNblocks _ s).quiet))

theorem quiet_putRelDropV1 (drops : DropRelations) : Keeps Quiet (putRelDropV1 drops) := by
  refine Keeps.forM (fun entry => (Keeps.read _).bind (fun dir => ?_))
  refine Keeps.bind (R := Quiet) (Keeps.foldlM (fun acc rel => ?_) _) (fun acc =>
    Keeps.onlyIf (Calm.keeps_quiet (calm_put (.relDir entry.1.1 entry.1.2) trivial _)))
  refine Keeps.ite ((Keeps.read _).bind (fun _ => ?_)) (Keeps.pure _)
  exact Keeps.bind (R := Quiet) (Keeps.modify (fun s => Trans.trans (calm_addNblocks _ s).quiet
      (quiet_removeCachedRelSize _ rel)))
    (fun _ => Keeps.pure _)

theorem quiet_putRelDrops (drops : DropRelations) : Keeps Quiet (putRelDrops drops) := by
  have hdrop : Keeps Quiet (putRelDropV2 drops) :=
    (aside_putRelDropV2 drops).imp (fun _ _ haside => haside.calm.quiet)
  refine (Keeps.read _).bind (fun mode => ?_)
  split
  · exact quiet_putRelDropV1 drops
  · refine (quiet_putRelDropV1 drops).bind (fun _ => ?_)
    exact hdrop.attempt.bind (fun _ => Keeps.pure _)
  · exact hdrop

/-!
## Directories that list relations
-/

namespace State

def HasDb (s : State) (db : Oid × Oid) : Prop :=
  exists d, s.cur .dbdir = some d ∧ d.contains db = true

theorem HasDb.congr (h : s'.cur .dbdir = s.cur .dbdir) (db : Oid × Oid) :
    s'.HasDb db <-> s.HasDb db := by
  unfold HasDb
  rw [h]

theorem hasDb_iff {d : DbDirectory} (hd : s.cur .dbdir = some d) {db : Oid × Oid} :
    s.HasDb db <-> d.contains db = true :=
  ⟨fun ⟨_, hd', hin⟩ => Option.some.inj (hd'.symm.trans hd) ▸ hin, fun hin => ⟨d, hd, hin⟩⟩

def InOld (s : State) (rel : RelTag) : Prop :=
  exists d, s.cur (.relDir rel.spcnode rel.dbnode) = some d ∧ d.contains rel = true

def InSparse (s : State) (rel : RelTag) : Prop :=
  s.cur (.relTagSparse rel) = some .existing

theorem inOld_iff {db : Oid × Oid} {rel : RelTag} (hrel : (rel.spcnode, rel.dbnode) = db)
    {d : RelDirectory} (hd : s.cur (.relDir db.1 db.2) = some d) :
    s.InOld rel <-> d.contains rel = true := by
  subst hrel
  exact ⟨fun ⟨_, hd', hin⟩ => Option.some.inj (hd'.symm.trans hd) ▸ hin, fun hin => ⟨d, hd, hin⟩⟩

theorem InOld.congr {rel : RelTag}
    (h : s'.cur (.relDir rel.spcnode rel.dbnode) = s.cur (.relDir rel.spcnode rel.dbnode)) :
    s'.InOld rel <-> s.InOld rel := by
  unfold InOld
  rw [h]

theorem listed_iff_old (hold : ¬ s.UsesSparse s.lsn) (rel : RelTag) :
    s.Listed rel <-> s.HasDb (rel.spcnode, rel.dbnode) ∧ s.InOld rel :=
  ⟨fun h => ⟨h.dbdir, h.relDir hold⟩, fun h => ⟨h.1, fun _ => h.2, fun hyes => absurd hyes hold⟩⟩

theorem listed_iff_sparse (huses : s.UsesSparse s.lsn) (rel : RelTag) :
    s.Listed rel <-> s.HasDb (rel.spcnode, rel.dbnode) ∧ s.InSparse rel :=
  ⟨fun h => ⟨h.dbdir, h.sparse huses⟩, fun h => ⟨h.1, fun hnot => absurd huses hnot, fun _ => h.2⟩⟩

theorem Listed.congr (h : s.Listed r)
    (hdbdir : s.HasDb (r.spcnode, r.dbnode) -> s'.HasDb (r.spcnode, r.dbnode))
    (hrelDir : s.InOld r -> s'.InOld r) (hsparse : s.InSparse r -> s'.InSparse r)
    (huses : s'.UsesSparse s'.lsn <-> s.UsesSparse s.lsn) : s'.Listed r where
  dbdir := hdbdir h.dbdir
  relDir := fun hnot => hrelDir (h.relDir (mt huses.mpr hnot))
  sparse := fun hyes => hsparse (h.sparse (huses.mp hyes))

theorem Listed.of_cur (h : s.Listed r)
    (hcur : forall k : MetaKey, k.NotSize -> s'.cur k = s.cur k)
    (huses : s'.UsesSparse s'.lsn <-> s.UsesSparse s.lsn) : s'.Listed r :=
  h.congr (HasDb.congr (hcur .dbdir trivial) _).mpr (InOld.congr (hcur (.relDir _ _) trivial)).mpr
    (hcur (.relTagSparse r) trivial).trans huses

end State

theorem Aside.listed (h : Aside s s') (hold : ¬ s.UsesSparse s.lsn) (rel : RelTag) :
    s'.Listed rel <-> s.Listed rel := by
  rw [listed_iff_old hold, listed_iff_old (mt h.behind.uses.mp hold),
    HasDb.congr (h.views .dbdir (fun _ => nofun)),
    InOld.congr (h.views (.relDir _ _) (fun _ => nofun))]

theorem hasDb_insert {d : DbDirectory} (hd : s.cur .dbdir = some d) (db : Oid × Oid)
    (relmap : Bool) (x : Oid × Oid) :
    (s.putMetadata .dbdir (d.insert db relmap)).HasDb x <-> s.HasDb x ∨ x = db := by
  have hcur : (s.putMetadata .dbdir (d.insert db relmap)).cur .dbdir =
      some (d.insert db relmap) := by
    rw [cur_put_self]
  rw [hasDb_iff hcur, hasDb_iff hd]
  unfold DbDirectory.contains
  rw [DbDirectory.get?_insert]
  split
  next heq => exact iff_of_true rfl (.inr heq)
  next hne => exact ⟨.inl, fun h => h.resolve_right hne⟩

theorem DbDirectory.nodup_insert {d : DbDirectory} (h : (d.dbdirs.map Prod.fst).Nodup)
    (db : Oid × Oid) (relmap : Bool) : ((d.insert db relmap).dbdirs.map Prod.fst).Nodup := by
  unfold insert remove
  rw [List.map_cons, List.nodup_cons]
  refine ⟨fun hmem => ?_, (h.sublist (List.Sublist.map Prod.fst List.filter_sublist))⟩
  rcases List.mem_map.mp hmem with ⟨entry, hentry, heq⟩
  have hne := (List.mem_filter.mp hentry).2
  rw [heq] at hne
  simp at hne

/-- What `enterDbdir` has done, with the flag that it returns. -/
structure DbEntered (s s' : State) (rel : RelTag) (dbdirExists : Bool) : Prop
    extends Uncounted s s' where
  plain : forall k, k ≠ .dbdir -> s'.cur k = s.cur k
  rels : s'.sparseRels = s.sparseRels
  was : dbdirExists = true <-> s.HasDb (rel.spcnode, rel.dbnode)
  hasDb : forall x, s'.HasDb x <-> s.HasDb x ∨ x = (rel.spcnode, rel.dbnode)
  dbdir : (exists d, s.cur .dbdir = some d ∧ (d.dbdirs.map Prod.fst).Nodup) ->
    exists d, s'.cur .dbdir = some d ∧ (d.dbdirs.map Prod.fst).Nodup

theorem dbEntered_enterDbdir (rel : RelTag) (s : State) :
    Yields (enterDbdir rel) s (fun res s' => DbEntered s s' rel res.1) := by
  refine read_bind (fun d hd => ?_)
  have hcur := State.get_eq_ok hd
  refine Yields.ite (fun hin => ?_) (fun hnot => ?_)
  · have hdb : s.HasDb (rel.spcnode, rel.dbnode) := ⟨d, hcur, hin⟩
    exact ⟨refl s, fun _ _ => rfl, rfl, iff_of_true rfl hdb,
      fun x => ⟨.inl, fun h => h.elim id (fun heq => heq ▸ hdb)⟩, id⟩
  · refine (yields_put .dbdir _ s).bind ?_
    rintro _ s' rfl
    refine ⟨uncounted_putMetadata s .dbdir trivial _, fun k hk => cur_put_of_ne hk _, rfl,
      iff_of_false nofun (fun h => hnot ((hasDb_iff hcur).mp h)), hasDb_insert hcur _ _, ?_⟩
    rintro ⟨d', hd', hnodup⟩
    cases hd'.symm.trans hcur
    exact ⟨_, cur_put_self _ _ _, DbDirectory.nodup_insert hnodup _ _⟩

theorem yields_put_representable (k : MetaKey) (v : k.Val) (s : State) :
    Yields (put k v) s (fun _ _ => k.toKey.isI128Representable = true) := by
  unfold put
  rw [toCompact_eq]
  split
  next hkey => exact hkey
  · exact Yields.throw

theorem yields_putRelDirEntries_old {dbdirExists : Bool} {status : RelSizeMigration}
    (hstatus : status ≠ .migrated) (s : State) :
    Yields (putRelDirEntries rel dbdirExists status) s (fun _ s' => exists dir,
      relDirForCreation rel dbdirExists s = .ok dir ∧ ¬ dir.contains rel = true ∧
      (MetaKey.relDir rel.spcnode rel.dbnode).toKey.isI128Representable = true ∧
      Aside (s.putMetadata (.relDir rel.spcnode rel.dbnode) (dir.insert rel)) s') := by
  have hold : Yields (Prog.onlyIf (status ≠ .migrated) (putRelCreationV1 rel dbdirExists)) s
      (fun _ s' => exists dir, relDirForCreation rel dbdirExists s = .ok dir ∧
        ¬ dir.contains rel = true ∧
        (MetaKey.relDir rel.spcnode rel.dbnode).toKey.isI128Representable = true ∧
        s' = s.putMetadata (.relDir rel.spcnode rel.dbnode) (dir.insert rel)) := by
    refine Yields.onlyIf (fun _ => ?_) (fun hnot => absurd hstatus hnot)
    refine read_bind (fun dir hdir => refuse_bind (fun hfresh => ?_))
    exact ((yields_put_representable _ _ s).and (yields_put _ _ s)).mono
      (fun _ _ h => ⟨dir, hdir, hfresh, h⟩)
  refine hold.bind ?_
  rintro _ s1 ⟨dir, hdir, hfresh, hkey, rfl⟩
  refine Yields.onlyIf (fun _ => ?_) (fun _ => ⟨dir, hdir, hfresh, hkey, refl _⟩)
  refine ((aside_putRelCreationV2 rel).attempt.yields _).bind (fun res s2 haside => ?_)
  cases res with
  | ok u => exact ⟨dir, hdir, hfresh, hkey, haside⟩
  | error e => exact Yields.ite (fun _ => Yields.throw) (fun _ => ⟨dir, hdir, hfresh, hkey, haside⟩)

theorem yields_putRelDirEntries_sparse {dbdirExists : Bool} {post : Unit -> State -> Prop}
    (h : Yields (putRelCreationV2 rel) s post) :
    Yields (putRelDirEntries rel dbdirExists .migrated) s post := by
  have hskip : Yields (Prog.onlyIf (RelSizeMigration.migrated ≠ .migrated)
      (putRelCreationV1 rel dbdirExists)) s (fun _ s' => s' = s) :=
    Yields.onlyIf (fun hnot => absurd rfl hnot) (fun _ => rfl)
  refine hskip.bind ?_
  rintro _ s' rfl
  refine Yields.onlyIf (fun _ => ?_) (fun hnot => absurd nofun hnot)
  exact Prog.wp_bind.mpr (Prog.wp_attempt.mpr
    (wp_mono h (fun _ _ hpost => hpost) (fun _ _ _ => Yields.throw)))

theorem yields_putRelCreationV2 (rel : RelTag) (s : State) :
    Yields (putRelCreationV2 rel) s (fun _ s' =>
      ¬ s.InSparse rel ∧
      (MetaKey.relTagSparse rel).toKey.isI128Representable = true ∧
      s' = { s.putMetadata (.relTagSparse rel) .existing with
        sparseRels := rel :: s.sparseRels }) := by
  refine read_bind (fun entry hentry => refuse_bind (fun hnot => ?_))
  refine ((yields_put_representable (.relTagSparse rel) .existing s).and
    (yields_put (.relTagSparse rel) .existing s)).bind ?_
  rintro _ s' ⟨hkey, rfl⟩
  exact ⟨fun hin => hnot ((get_sparse hentry).mpr hin), hkey, rfl⟩

/-!
## Creation
-/

structure EntersOld (s s' : State) (rel : RelTag) (dir : RelDirectory) : Prop where
  old : forall x, ¬ s.UsesSparse x
  origin : s.HasDb (rel.spcnode, rel.dbnode) ∧
      s.cur (.relDir rel.spcnode rel.dbnode) = some dir ∨
    ¬ s.HasDb (rel.spcnode, rel.dbnode) ∧ dir = RelDirectory.empty
  fresh : ¬ dir.contains rel = true
  key : (MetaKey.relDir rel.spcnode rel.dbnode).toKey.isI128Representable = true
  own : s'.cur (.relDir rel.spcnode rel.dbnode) = some (dir.insert rel)
  other : forall {spc db}, (spc, db) ≠ (rel.spcnode, rel.dbnode) ->
    s'.cur (.relDir spc db) = s.cur (.relDir spc db)

structure EntersSparse (s s' : State) (rel : RelTag) : Prop where
  migrated : exists x, s.UsesSparse x
  fresh : ¬ s.InSparse rel
  key : (MetaKey.relTagSparse rel).toKey.isI128Representable = true
  sparse : forall r, s'.InSparse r <-> r = rel ∨ s.InSparse r
  old : forall r, s'.InOld r <-> s.InOld r
  rels : s'.sparseRels = rel :: s.sparseRels

/-- A new relation has been entered into the directories; its size is not written yet. -/
structure Creation (s s' : State) (rel : RelTag) : Prop extends Uncounted s s' where
  hasDb : forall x, s'.HasDb x <-> s.HasDb x ∨ x = (rel.spcnode, rel.dbnode)
  dbdir : (exists d, s.cur .dbdir = some d ∧ (d.dbdirs.map Prod.fst).Nodup) ->
    exists d, s'.cur .dbdir = some d ∧ (d.dbdirs.map Prod.fst).Nodup
  entry : (exists dir, EntersOld s s' rel dir) ∨ EntersSparse s s' rel

section

variable {s1 s2 s3 : State} {dbdirExists : Bool} {dir : RelDirectory}

theorem DbEntered.creation_old (h : DbEntered s s1 rel dbdirExists)
    (hstatus : s1.tline.relSizeV2Status ≠ .migrated) (haside : Aside s1 s2)
    (hdir : relDirForCreation rel dbdirExists s2 = .ok dir) (hfresh : ¬ dir.contains rel = true)
    (hkey : (MetaKey.relDir rel.spcnode rel.dbnode).toKey.isI128Representable = true)
    (hlast : Aside (s2.putMetadata (.relDir rel.spcnode rel.dbnode) (dir.insert rel)) s3) :
    Creation s s3 rel := by
  have hput := uncounted_putMetadata s2 (.relDir rel.spcnode rel.dbnode) trivial (dir.insert rel)
  have hdbdir : s3.cur .dbdir = s1.cur .dbdir := by
    have hne : MetaKey.dbdir ≠ .relDir rel.spcnode rel.dbnode := nofun
    rw [hlast.views .dbdir (fun _ => nofun), cur_put_of_ne hne,
      haside.views .dbdir (fun _ => nofun)]
  have hviews : forall spc db, s2.cur (.relDir spc db) = s.cur (.relDir spc db) := by
    intro spc db
    rw [haside.views (.relDir spc db) (fun _ => nofun), h.plain (.relDir spc db) nofun]
  refine ⟨?_, fun x => (HasDb.congr hdbdir x).trans (h.hasDb x), ?_,
    .inl ⟨dir, ?_, ?_, hfresh, hkey, ?_, ?_⟩⟩
  · exact Trans.trans h.toUncounted (Trans.trans haside.toUncounted
      (Trans.trans hput hlast.toUncounted))
  · rw [hdbdir]
    exact h.dbdir
  · exact fun x hx => hstatus ((h.behind.sparse x).mpr hx).1
  · cases dbdirExists with
    | false =>
      cases hdir
      exact .inr ⟨fun hdb => Bool.false_ne_true (h.was.mpr hdb), rfl⟩
    | true => exact .inl ⟨h.was.mp rfl, (hviews _ _).symm.trans (State.get_eq_ok hdir)⟩
  · rw [hlast.views (.relDir _ _) (fun _ => nofun), cur_put_self]
  · intro spc db hne
    rw [hlast.views (.relDir spc db) (fun _ => nofun), cur_put_of_ne (MetaKey.relDir_ne hne),
      hviews]

theorem DbEntered.creation_sparse (h : DbEntered s s1 rel dbdirExists)
    (hstatus : s1.tline.relSizeV2Status = .migrated) (hfresh : ¬ s1.InSparse rel)
    (hkey : (MetaKey.relTagSparse rel).toKey.isI128Representable = true) :
    Creation s { s1.putMetadata (.relTagSparse rel) .existing with
      sparseRels := rel :: s1.sparseRels } rel := by
  have hcur : forall k, k ≠ .relTagSparse rel ->
      (s1.putMetadata (.relTagSparse rel) .existing).cur k = s1.cur k :=
    fun k hk => cur_put_of_ne hk _
  have hsame : forall r, s1.InSparse r <-> s.InSparse r := by
    intro r
    unfold InSparse
    rw [h.plain (.relTagSparse r) nofun]
  refine ⟨?_, fun x => (HasDb.congr (hcur .dbdir nofun) x).trans (h.hasDb x), ?_,
    .inr ⟨⟨_, (h.behind.sparse _).mp ⟨hstatus, Nat.le_refl _⟩⟩, mt (hsame rel).mpr hfresh, hkey,
      fun r => ?_, fun r => ?_, congrArg _ h.rels⟩⟩
  · exact Trans.trans h.toUncounted (Trans.trans
      (uncounted_putMetadata s1 (.relTagSparse rel) trivial .existing) (uncounted_note _ rel))
  · intro hdbdir
    obtain ⟨d, hd, hnodup⟩ := h.dbdir hdbdir
    exact ⟨d, (hcur .dbdir nofun).trans hd, hnodup⟩
  · rw [← hsame r]
    by_cases hr : r = rel
    · subst hr
      exact iff_of_true (cur_put_self _ _ _) (.inl rfl)
    · have hne : MetaKey.relTagSparse r ≠ .relTagSparse rel :=
        fun heq => hr (MetaKey.relTagSparse.inj heq)
      exact (Eq.congr_left (hcur (.relTagSparse r) hne)).trans (or_iff_right hr).symm
  · exact InOld.congr ((hcur (.relDir _ _) nofun).trans (h.plain (.relDir _ _) nofun))

end

section

variable {dir : RelDirectory}

theorem EntersOld.contains (h : EntersOld s s' rel dir)
    (hr : (r.spcnode, r.dbnode) = (rel.spcnode, rel.dbnode)) :
    dir.contains r = true <-> s.Listed r := by
  rw [listed_iff_old (h.old _), hr]
  rcases h.origin with ⟨hdb, hcur⟩ | ⟨hnone, rfl⟩
  · rw [inOld_iff hr hcur]
    exact (and_iff_right hdb).symm
  · exact iff_of_false nofun (fun hyes => hnone hyes.1)

theorem RelTag.ext_of_db {db : Oid × Oid} (hr : (r.spcnode, r.dbnode) = db)
    (hrel : (rel.spcnode, rel.dbnode) = db)
    (h : (r.relnode, r.forknum) = (rel.relnode, rel.forknum)) : r = rel := by
  obtain ⟨hspc, hdb⟩ := Prod.mk.inj (hr.trans hrel.symm)
  cases r
  simp_all

theorem EntersOld.listed (h : EntersOld s s' rel dir) (hcreation : Creation s s' rel)
    (r : RelTag) : s'.Listed r <-> s.Listed r ∨ r = rel := by
  rw [listed_iff_old (mt hcreation.behind.uses.mp (h.old _)), hcreation.hasDb]
  by_cases hr : (r.spcnode, r.dbnode) = (rel.spcnode, rel.dbnode)
  · rw [inOld_iff hr h.own, RelDirectory.contains_insert, Bool.or_eq_true, beq_iff_eq,
      h.contains hr]
    refine ⟨fun h => h.2.symm.imp_right (RelTag.ext_of_db hr rfl), fun h => ⟨.inr hr, ?_⟩⟩
    exact h.symm.imp_left (fun heq => by rw [heq])
  · have hne : r ≠ rel := fun heq => hr (by rw [heq])
    rw [listed_iff_old (h.old _), InOld.congr (h.other hr)]
    exact ⟨fun h => .inl ⟨h.1.resolve_right hr, h.2⟩,
      fun h => ⟨.inl (h.resolve_right hne).1, (h.resolve_right hne).2⟩⟩

end

theorem Creation.stays (h : Creation s s' rel) (hr : s.Listed r) : s'.Listed r := by
  rcases h.entry with ⟨dir, hold⟩ | hsparse
  · exact (hold.listed h r).mpr (.inl hr)
  · exact hr.congr (fun hdb => (h.hasDb _).mpr (.inl hdb)) (hsparse.old r).mpr
      (fun hin => (hsparse.sparse r).mpr (.inr hin)) h.behind.uses

theorem Creation.listed_new (h : Creation s s' rel)
    (hmigrated : forall x, s.UsesSparse x -> s.UsesSparse s.lsn) : s'.Listed rel := by
  rcases h.entry with ⟨dir, hold⟩ | hsparse
  · exact (hold.listed h rel).mpr (.inr rfl)
  · have huses := h.behind.uses.mpr (hsparse.migrated.elim hmigrated)
    exact (listed_iff_sparse huses rel).mpr
      ⟨(h.hasDb _).mpr (.inr rfl), (hsparse.sparse rel).mpr (.inl rfl)⟩

/-!
## Sizes
-/

/-- The size of one relation is written and cached; blocks from `old` on were not below it. -/
structure Resized (s s' : State) (rel : RelTag) (old n : BlockNumber) : Prop
    extends Steady s s' where
  sizes : forall r, s'.sizeOf r = if r = rel then some n else s.sizeOf r
  belowSince : forall r blk, s'.belowSince r blk =
    if r = rel ∧ old ≤ blk then s.lsn else s.belowSince r blk
  cache : forall r, s'.cache r = if r = rel then some (s.lsn, n) else s.cache r

theorem Calm.resized {s1 s2 : State} {old : BlockNumber} (h : Calm s s1)
    (h' : Resized s1 s2 rel old n) : Resized s s2 rel old n where
  toSteady := h.toSteady.trans h'.toSteady
  sizes := fun r => (h'.sizes r).trans (by rw [h.sizes])
  belowSince := fun r blk => (h'.belowSince r blk).trans (by rw [h.lsn, h.belowSince])
  cache := fun r => (h'.cache r).trans (by rw [h.lsn, h.cache])

theorem State.Coherent.resized {old : BlockNumber} (h : s.Coherent)
    (hresized : Resized s s' rel old n) : s'.Coherent where
  size := by
    intro r l m hcache
    rw [hresized.cache] at hcache
    rw [hresized.sizes]
    split at hcache
    next hr =>
      cases hcache
      rw [if_pos hr]
    next hr =>
      rw [if_neg hr]
      exact h.size r l m hcache
  lsn_le := by
    intro r l m hcache
    rw [hresized.cache] at hcache
    rw [hresized.lsn]
    split at hcache
    · cases hcache
      exact Nat.le_refl _
    · exact h.lsn_le r l m hcache
  snapshot := by
    intro r
    rw [hresized.snapshot, hresized.lsn]
    exact h.snapshot r

def State.withSize (s : State) (rel : RelTag) (old n : BlockNumber) : State :=
  (((s.putMetadata (.relSize rel) n).setCachedRelSize rel s.lsn n).noteBelow rel
    old).addNblocks (n.toNat - old.toNat)

theorem State.cur_withSize (s : State) (rel : RelTag) (old n : BlockNumber) :
    (s.withSize rel old n).cur = Function.update s.cur (.relSize rel) (some n) :=
  cur_putMetadata s (.relSize rel) n

theorem yields_putSize (rel : RelTag) (old n : BlockNumber) (s : State) :
    Yields (putSize rel old n) s (fun _ s' => s' = s.withSize rel old n) := by
  refine (yields_put (.relSize rel) n s).bind ?_
  rintro _ s' rfl
  exact rfl

theorem resized_withSize (s : State) (rel : RelTag) (old n : BlockNumber) :
    Resized s (s.withSize rel old n) rel old n where
  toSteady := ⟨rfl, rfl, rfl, rfl, rfl, rfl, fun hlsn hwf =>
    have h := hwf.putMetadata hlsn (.relSize rel) n
    { h with }⟩
  sizes := by
    intro r
    show (s.withSize rel old n).cur (.relSize r) = _
    rw [cur_withSize]
    by_cases hr : r = rel
    · subst hr
      rw [update_self, if_pos rfl]
    · rw [update_of_ne (fun heq => hr (MetaKey.relSize.inj heq)), if_neg hr]
  belowSince := fun _ _ => rfl
  cache := fun r => cache_setCachedRelSize _ rel s.lsn n r

theorem behind_withSize (s : State) (rel : RelTag) (old n : BlockNumber) :
    Behind s (s.withSize rel old n) :=
  IsTrans.trans _ _ _ (behind_putMetadata s (.relSize rel) n)
    ⟨rfl, rfl, rfl, rfl, fun _ => Iff.rfl, fun _ _ _ => rfl, fun _ h => { h with }⟩

theorem State.cur_withSize_of_notSize (s : State) (rel : RelTag) (old n : BlockNumber)
    {k : MetaKey} (hk : k.NotSize) : (s.withSize rel old n).cur k = s.cur k := by
  rw [cur_withSize, update_of_ne (hk.ne rel).symm]

theorem listed_withSize (h : s.Listed r) (rel : RelTag) (old n : BlockNumber) :
    (s.withSize rel old n).Listed r :=
  h.of_cur (fun _ hk => cur_withSize_of_notSize s rel old n hk) Iff.rfl

theorem known_withSize (h : s.Known r) (rel : RelTag) (old n : BlockNumber) :
    (s.withSize rel old n).Known r := by
  rcases h with hcached | hlisted
  · exact .inl (cached_setCachedRelSize (s := s.putMetadata (.relSize rel) n) hcached rel s.lsn n)
  · exact .inr (listed_withSize hlisted rel old n)

theorem yields_putSize_representable (rel : RelTag) (old n : BlockNumber) (s : State) :
    Yields (putSize rel old n) s
      (fun _ _ => (MetaKey.relSize rel).toKey.isI128Representable = true) :=
  (yields_put_representable (.relSize rel) n s).bind (fun _ _ hkey => hkey)

theorem yields_putRelCreation_cases (rel : RelTag) (n : BlockNumber) (s : State) :
    Yields (putRelCreation rel n) s (fun _ s' => exists s3, Creation s s3 rel ∧
      (MetaKey.relSize rel).toKey.isI128Representable = true ∧ s' = s3.withSize rel 0 n) := by
  have hsize : forall s3, Creation s s3 rel -> Yields (putSize rel 0 n) s3 (fun _ s' =>
      exists s3, Creation s s3 rel ∧ (MetaKey.relSize rel).toKey.isI128Representable = true ∧
        s' = s3.withSize rel 0 n) := fun s3 hcreation =>
    ((yields_putSize_representable rel 0 n s3).and (yields_putSize rel 0 n s3)).mono
      (fun _ _ h => ⟨s3, hcreation, h⟩)
  refine refuse_bind (fun _ => (dbEntered_enterDbdir rel s).bind (fun entered s1 hent => ?_))
  by_cases hstatus : s1.tline.relSizeV2Status = .migrated
  · refine (yields_relDirModeForCreation_migrated hstatus entered.2).bind ?_
    rintro status s2 ⟨rfl, rfl⟩
    refine (yields_putRelDirEntries_sparse (yields_putRelCreationV2 rel s2)).bind ?_
    rintro _ s3 ⟨hfresh, hkey, rfl⟩
    exact hsize _ (hent.creation_sparse hstatus hfresh hkey)
  · refine (aside_relDirModeForCreation hstatus entered.2).bind ?_
    rintro status s2 ⟨haside, hstatus2⟩
    refine (yields_putRelDirEntries_old hstatus2 s2).bind ?_
    rintro _ s3 ⟨dir, hdir, hfresh, hkey, hlast⟩
    exact hsize _ (hent.creation_old hstatus haside hdir hfresh hkey hlast)

theorem yields_putRelCreation (rel : RelTag) (n : BlockNumber) (s : State) :
    Yields (putRelCreation rel n) s (fun _ s' =>
      Resized s s' rel 0 n ∧ forall r, s.Listed r -> s'.Listed r) := by
  refine (yields_putRelCreation_cases rel n s).mono ?_
  rintro _ _ ⟨s3, hcreation, _, rfl⟩
  exact ⟨hcreation.calm.resized (resized_withSize s3 rel 0 n),
    fun r hr => listed_withSize (hcreation.stays hr) rel 0 n⟩

theorem yields_putRelTruncation (rel : RelTag) (n : BlockNumber) (s : State) :
    Yields (putRelTruncation rel n) s (fun _ s' =>
      s' = s ∨ getRelExists s rel .modified = .ok true ∧
        exists old, s.sizeOf rel = some old ∧ s' = s.withSize rel old n) := by
  refine refuse_bind (fun _ => read_bind (fun found hfound => ?_))
  refine Yields.onlyIf (fun htrue => ?_) (fun _ => .inl rfl)
  refine read_bind (fun old hold => (yields_putSize rel old n s).mono ?_)
  rintro _ s' rfl
  rw [htrue] at hfound
  exact .inr ⟨hfound, old, State.get_eq_ok hold, rfl⟩

theorem yields_putRelExtend (rel : RelTag) (n : BlockNumber) (s : State) :
    Yields (putRelExtend rel n) s (fun _ s' =>
      exists old, s.sizeOf rel = some old ∧
        (n ≤ old ∧ s' = s ∨ old < n ∧ s' = s.withSize rel old n)) := by
  refine refuse_bind (fun _ => read_bind (fun old hold => ?_))
  have hsize := State.get_eq_ok hold
  refine Yields.onlyIf (fun hlt => (yields_putSize rel old n s).mono ?_) (fun hge => ?_)
  · rintro _ s' rfl
    exact ⟨old, hsize, .inr ⟨hlt, rfl⟩⟩
  · exact ⟨old, hsize, .inl ⟨UInt32.not_lt.mp hge, rfl⟩⟩

/-!
## Sizes that are read
-/

theorem known_updateCachedRelSize (h : s.Known r) (rel : RelTag) (n : BlockNumber) :
    (s.updateCachedRelSize rel .modified n).Known r := by
  refine updateCachedRelSize_of (p := fun s => s.Known r) h ?_
  rcases h with hcache | hlisted
  · exact .inl (cached_setCachedRelSize hcache rel s.lsn n)
  · exact .inr { hlisted with }

theorem yields_getRelSize (h : s.Coherent) (rel : RelTag) :
    Yields (getRelSize rel .modified) s (fun n s' =>
      Quiet s s' ∧ (forall r, s.Known r -> s'.Known r) ∧
      (s.sizeOf rel = some n ∨ n = 0 ∧ getRelExists s rel .modified = .ok false)) := by
  have hquiet := (quiet_getRelSize rel).yields s
  suffices hvalue : Yields (getRelSize rel .modified) s (fun n s' =>
      (forall r, s.Known r -> s'.Known r) ∧
      (s.sizeOf rel = some n ∨ n = 0 ∧ getRelExists s rel .modified = .ok false)) from
    hquiet.and hvalue
  unfold getRelSize getRelSizeInReldir
  simp only [bind_assoc]
  refine read_bind (fun lookup hlookup => ?_)
  cases lookup with
  | fetched n =>
    have hsize := State.get_eq_ok (lookupRelSize_fetched hlookup)
    exact ⟨fun r hr => known_updateCachedRelSize hr rel n, .inl hsize⟩
  | done res =>
    rcases lookupRelSize_done hlookup with ⟨n, rfl, hcached | hmissing⟩
    · refine ⟨fun r hr => hr, .inl ?_⟩
      rw [h.getCachedRelSize] at hcached
      rcases Option.map_eq_some_iff.mp hcached with ⟨⟨l, m⟩, hcache, rfl⟩
      exact h.size rel l m hcache
    · exact ⟨fun r hr => hr, .inr hmissing⟩

theorem yields_createRelationIfRequired (h : s.Coherent) (rel : RelTag) :
    Yields (createRelationIfRequired rel) s (fun n s' =>
      (forall r, s.Known r -> s'.Known r) ∧
      (s.Known rel ∧ s.sizeOf rel = some n ∧ Quiet s s' ∨
        ¬ s.Known rel ∧ n = 0 ∧ Resized s s' rel 0 0)) := by
  refine Prog.wp_bind.mpr (Prog.wp_get.mpr ?_)
  split
  next n hcached =>
    rw [h.getCachedRelSize] at hcached
    rcases Option.map_eq_some_iff.mp hcached with ⟨⟨l, m⟩, hcache, rfl⟩
    have hknown : s.Known rel := .inl (by rw [hcache]; rfl)
    exact Yields.pure ⟨fun r hr => hr, .inl ⟨hknown, h.size rel l m hcache, refl s⟩⟩
  · refine read_bind (fun found hfound => ?_)
    have hiff := h.getRelExists_iff hfound
    refine Yields.ite (fun htrue => ?_) (fun hfalse => ?_)
    · refine (yields_getRelSize h rel).mono ?_
      rintro n s' ⟨hquiet, hknown, hsize | ⟨_, hmissing⟩⟩
      · exact ⟨hknown, .inl ⟨hiff.mp htrue, hsize, hquiet⟩⟩
      · rw [htrue] at hfound
        exact nomatch hfound.symm.trans hmissing
    · refine (yields_putRelCreation rel 0 s).bind ?_
      rintro _ s' ⟨hresized, hlisted⟩
      refine Yields.pure ⟨?_, .inr ⟨fun hk => hfalse (hiff.mpr hk), rfl, hresized⟩⟩
      intro r hr
      rcases hr with hcache | hl
      · refine .inl ?_
        rw [hresized.cache]
        split
        · rfl
        · exact hcache
      · exact .inr (hlisted r hl)

theorem yields_getRelsize (h : s.Coherent) (rel : RelTag) :
    Yields (getRelsize rel) s (fun res s' =>
      Quiet s s' ∧ (forall r, s.Known r -> s'.Known r) ∧
      forall n, res = some n -> s.Known rel ∧ s.sizeOf rel = some n) := by
  refine read_bind (fun found hfound => ?_)
  have hiff := h.getRelExists_iff hfound
  refine Yields.ite (fun htrue => ?_) (fun _ => ?_)
  · refine (yields_getRelSize h rel).bind ?_
    rintro n s' ⟨hquiet, hknown, hsize | ⟨_, hmissing⟩⟩
    · refine Yields.pure ⟨hquiet, hknown, ?_⟩
      rintro m hm
      cases hm
      exact ⟨hiff.mp htrue, hsize⟩
    · rw [htrue] at hfound
      exact nomatch hfound.symm.trans hmissing
  · exact Yields.pure ⟨refl s, fun r hr => hr, nofun⟩

end Datadir
end Pageserver
end OpenNeon

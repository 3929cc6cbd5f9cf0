import OpenNeon.Pageserver.Datadir.CacheRuns
import OpenNeon.Pageserver.Datadir.LogicalSizeDrops

/-!
# Runs and the logical size

After a commit the count from scratch reads what the modification has listed, so the
incremental count has followed it.
-/

namespace OpenNeon
namespace Pageserver
namespace Datadir

open Base WalDecoder List
open Prog (exec Yields)

/-!
## The committed directories
-/

/-- Nothing waits for a commit, and the state of the migration is committed. -/
structure State.Idle (s : State) : Prop where
  wf : s.WF
  last_le : s.tline.lastRecordLsn ≤ s.lsn
  pages : forall k, s.modification.pendingMetadataPages k = []
  sparse : s.UsesSparse s.tline.lastRecordLsn <-> s.UsesSparse s.lsn

abbrev State.stored (s : State) : Version :=
  .lsnRange s.tline.lastRecordLsn s.tline.lastRecordLsn

namespace State.Idle

variable {s : State}

theorem versionAt_eq (h : s.Idle) (k : MetaKey) :
    versionAt (s.tline.metadata k) s.tline.lastRecordLsn = s.cur k := by
  unfold State.cur
  rw [h.pages k]
  have hle : forall v, v ∈ s.tline.metadata k ->
      v.1 ≤ max s.tline.lastRecordLsn s.modification.lsn :=
    fun v hv => (h.wf.committed_le k v hv).trans (Nat.le_max_left _ _)
  rw [versionAt_of_le (h.wf.committed_le k), versionAt_of_le hle]

theorem get_eq_ok_iff (h : s.Idle) {k : MetaKey} {v : k.Val} :
    s.tline.get k s.tline.lastRecordLsn = .ok v <->
      k.toKey.isI128Representable = true ∧ s.cur k = some v := by
  unfold Timeline.get
  rw [h.versionAt_eq, toCompact_eq]
  split
  next hkey =>
    cases hcur : s.cur k with
    | none => exact iff_of_false nofun (fun h => nomatch h.2)
    | some w =>
      constructor
      · intro hok
        cases hok
        exact ⟨hkey, rfl⟩
      · rintro ⟨_, heq⟩
        cases heq
        rfl
  next hkey => exact iff_of_false nofun (fun h => hkey h.1)

variable {db : Oid × Oid} {rels : List RelTag}

theorem listRels_sparse (h : s.Idle) (huses : s.UsesSparse s.lsn) (db : Oid × Oid) :
    listRels s db.1 db.2 s.stored = listRelsV2 s db.1 db.2 s.stored :=
  Datadir.listRels_sparse s.stored (h.sparse.mpr huses) db.1 db.2

theorem listRels_old (h : s.Idle) (hold : ¬ s.UsesSparse s.lsn) (db : Oid × Oid) :
    listRels s db.1 db.2 s.stored = listRelsV1 s db.1 db.2 s.stored :=
  Datadir.listRels_old s.stored (mt h.sparse.mp hold) db.1 db.2

theorem listRels_iff (h : s.Idle) (hdb : s.HasDb db)
    (hnodup : forall d, s.cur (.relDir db.1 db.2) = some d -> ¬ s.UsesSparse s.lsn ->
      d.rels.Nodup)
    (hscan : s.UsesSparse s.lsn -> forall rel, s.InSparse rel -> rel ∈ s.sparseRels)
    (hrels : listRels s db.1 db.2 s.stored = .ok rels) :
    rels.Nodup ∧ forall rel, rel ∈ rels <-> s.Listed rel ∧ (rel.spcnode, rel.dbnode) = db := by
  by_cases huses : s.UsesSparse s.lsn
  · rw [h.listRels_sparse huses] at hrels
    rcases listRelsV2_mem hrels with ⟨hnd, hin⟩
    refine ⟨hnd, fun rel => ?_⟩
    rw [hin, State.listed_iff_sparse huses]
    have hview : versionAt (s.tline.metadata (.relTagSparse rel)) s.tline.lastRecordLsn =
        s.cur (.relTagSparse rel) := h.versionAt_eq _
    constructor
    · rintro ⟨_, hreldb, hat⟩
      exact ⟨⟨hreldb ▸ hdb, hview.symm.trans hat⟩, hreldb⟩
    · rintro ⟨⟨_, hsparse⟩, hreldb⟩
      exact ⟨hscan huses rel hsparse, hreldb, hview.trans hsparse⟩
  · rw [h.listRels_old huses] at hrels
    rcases map_eq_ok_iff.mp hrels with ⟨dir, hdir, _⟩
    have hcur := (h.get_eq_ok_iff.mp hdir).2
    exact listRelsV1_listed huses hdb hdir hcur (hnodup dir hcur huses) hrels

theorem listRels_ok (h : s.Idle) (hcomplete : s.Complete) (hdb : s.HasDb db) :
    exists rels, listRels s db.1 db.2 s.stored = .ok rels := by
  have hkey := hcomplete.keys db hdb
  by_cases huses : s.UsesSparse s.lsn
  · rw [h.listRels_sparse huses]
    unfold listRelsV2
    have hcompact := toCompact_eq ⟨REL_DIR_KEY_PREFIX, db.1, db.2, 0, 0, 0⟩
    rw [if_pos (show Key.isI128Representable ⟨REL_DIR_KEY_PREFIX, db.1, db.2, 0, 0, 0⟩ = true
      from hkey)] at hcompact
    rw [hcompact]
    exact ⟨_, rfl⟩
  · rw [h.listRels_old huses]
    rcases hcomplete.relDir huses db hdb with ⟨dir, hcur, _⟩
    have hdir := h.get_eq_ok_iff.mpr ⟨hkey, hcur⟩
    refine ⟨_, map_eq_ok_iff.mpr ⟨dir, hdir, rfl⟩⟩

theorem addSizes_eq (h : s.Idle)
    (hkeys : forall rel, rel ∈ rels -> (MetaKey.relSize rel).toKey.isI128Representable = true)
    (hsizes : forall rel, rel ∈ rels -> exists n, s.sizeOf rel = some n) (total : Nat) :
    addSizes s.tline s.tline.lastRecordLsn total rels =
      .ok (total + (rels.map s.blocksOf).sum) := by
  induction rels generalizing total with
  | nil => rfl
  | cons rel rest ih =>
    rcases hsizes rel (by simp) with ⟨n, hn⟩
    have hget := h.get_eq_ok_iff.mpr ⟨hkeys rel (by simp), hn⟩
    unfold addSizes
    rw [foldlM_cons, hget]
    show addSizes s.tline s.tline.lastRecordLsn (total + n.toNat) rest = _
    rw [ih (fun r hr => hkeys r (by simp [hr])) (fun r hr => hsizes r (by simp [hr])),
      map_cons, sum_cons, State.blocksOf_of_size hn, Nat.add_assoc]

theorem foldlM_listed (h : s.Idle) (hcomplete : s.Complete)
    {entries : List ((Oid × Oid) × Bool)} (hhas : forall entry, entry ∈ entries -> s.HasDb entry.1)
    (hnodup : (entries.map Prod.fst).Nodup) (total : Nat) :
    exists rels : List RelTag, rels.Nodup ∧
      (forall rel, rel ∈ rels <->
        s.Listed rel ∧ (rel.spcnode, rel.dbnode) ∈ entries.map Prod.fst) ∧
      entries.foldlM (fun total entry => do
        let rels ← listRels s entry.1.1 entry.1.2 s.stored
        addSizes s.tline s.tline.lastRecordLsn total rels) total =
        .ok (total + (rels.map s.blocksOf).sum) := by
  induction entries generalizing total with
  | nil =>
    exact ⟨[], nodup_nil, fun rel => iff_of_false nofun (fun h => nomatch h.2), rfl⟩
  | cons entry rest ih =>
    have hdb := hhas entry (by simp)
    rcases h.listRels_ok hcomplete hdb with ⟨rels, hrels⟩
    have hrelDir : forall d, s.cur (.relDir entry.1.1 entry.1.2) = some d ->
        ¬ s.UsesSparse s.lsn -> d.rels.Nodup := by
      intro d hd hold
      rcases hcomplete.relDir hold entry.1 hdb with ⟨d', hd', hnd⟩
      exact Option.some.inj (hd'.symm.trans hd) ▸ hnd
    rcases h.listRels_iff hdb hrelDir hcomplete.sparse hrels with ⟨hnd, hin⟩
    have hadd : forall total, addSizes s.tline s.tline.lastRecordLsn total rels =
        .ok (total + (rels.map s.blocksOf).sum) := by
      refine h.addSizes_eq (fun rel hrel => ?_) (fun rel hrel => ?_)
      · exact hcomplete.keys (rel.spcnode, rel.dbnode) (((hin rel).mp hrel).2 ▸ hdb)
      · exact hcomplete.sizes rel ((hin rel).mp hrel).1
    rw [map_cons, nodup_cons] at hnodup
    rcases ih (fun e he => hhas e (by simp [he])) hnodup.2
      (total + (rels.map s.blocksOf).sum) with ⟨more, hmore, hmorein, hfold⟩
    refine ⟨rels ++ more, ?_, fun rel => ?_, ?_⟩
    · refine nodup_append.mpr ⟨hnd, hmore, fun r hr r' hr' heq => ?_⟩
      subst heq
      have hfirst := ((hin r).mp hr).2
      exact hnodup.1 (hfirst ▸ ((hmorein r).mp hr').2)
    · rw [mem_append, hin, hmorein, map_cons, mem_cons, ← and_or_left]
    · rw [foldlM_cons, hrels, map_append, sum_append, ← Nat.add_assoc]
      exact bind_eq_ok_iff.mpr ⟨_, hadd total, hfold⟩

theorem DbDirectory.contains_iff (d : DbDirectory) (db : Oid × Oid) :
    d.contains db = true <-> db ∈ d.dbdirs.map Prod.fst := by
  unfold DbDirectory.contains DbDirectory.get?
  rw [lookup_isSome_iff, mem_map]
  constructor
  · rintro ⟨entry, hentry, heq⟩
    exact ⟨entry, hentry, (beq_iff_eq.mp heq).symm⟩
  · rintro ⟨entry, hentry, rfl⟩
    exact ⟨entry, hentry, beq_self_eq_true _⟩

/-- With complete directories the count from scratch is the sum over the listed
relations. -/
theorem nonIncremental_eq (h : s.Idle) (hcomplete : s.Complete) :
    exists rels : List RelTag, rels.Nodup ∧ (forall rel, rel ∈ rels <-> s.Listed rel) ∧
      getCurrentLogicalSizeNonIncremental s s.tline.lastRecordLsn =
        .ok ((rels.map s.blocksOf).sum * BLCKSZ % 2 ^ 64) := by
  rcases hcomplete.dbdir with ⟨d, hd, hnodup⟩
  have hhas : forall db, s.HasDb db <-> db ∈ d.dbdirs.map Prod.fst := by
    intro db
    rw [← DbDirectory.contains_iff, State.hasDb_iff hd]
  rcases h.foldlM_listed hcomplete (fun entry hentry =>
    (hhas entry.1).mpr (mem_map_of_mem hentry)) hnodup 0 with ⟨rels, hnd, hin, hfold⟩
  refine ⟨rels, hnd, fun rel => ?_, ?_⟩
  · rw [hin, ← hhas]
    exact ⟨fun h => h.1, fun h => ⟨h, h.dbdir⟩⟩
  · have hget : s.tline.get .dbdir s.tline.lastRecordLsn = .ok d :=
      h.get_eq_ok_iff.mpr ⟨rfl, hd⟩
    rw [Nat.zero_add] at hfold
    exact bind_eq_ok_iff.mpr ⟨d, hget, bind_eq_ok_iff.mpr ⟨_, hfold, rfl⟩⟩

theorem complete_of_nonIncremental (h : s.Idle)
    (hdbdir : forall d, s.cur .dbdir = some d -> (d.dbdirs.map Prod.fst).Nodup)
    (hrelDir : forall spcnode dbnode d, s.cur (.relDir spcnode dbnode) = some d -> d.rels.Nodup)
    (hscan : forall rel, s.InSparse rel -> rel ∈ s.sparseRels) {total : Nat}
    (htotal : getCurrentLogicalSizeNonIncremental s s.tline.lastRecordLsn = .ok total) :
    s.Complete := by
  rcases bind_eq_ok_iff.mp htotal with ⟨d, hd, hrest⟩
  rcases bind_eq_ok_iff.mp hrest with ⟨blocks, hfold, _⟩
  have hcur : s.cur .dbdir = some d := (h.get_eq_ok_iff.mp hd).2
  -- each database was listed, and the sizes of its relations were read
  have hentry : forall db, s.HasDb db -> exists rels before after,
      listRels s db.1 db.2 s.stored = .ok rels ∧
      addSizes s.tline s.tline.lastRecordLsn before rels = .ok after := by
    intro db hin
    rw [State.hasDb_iff hcur, DbDirectory.contains_iff] at hin
    rcases mem_map.mp hin with ⟨entry, hmem, rfl⟩
    rcases foldlM_taken hfold hmem with ⟨before, after, hstep⟩
    rcases bind_eq_ok_iff.mp hstep with ⟨rels, hrels, hadd⟩
    exact ⟨rels, before, after, hrels, hadd⟩
  refine ⟨⟨d, hcur, hdbdir d hcur⟩, fun db hdb => ?_, fun hold db hdb => ?_,
    fun _ => hscan, fun rel hrel => ?_⟩
  · rcases hentry db hdb with ⟨rels, _, _, hrels, _⟩
    by_cases huses : s.UsesSparse s.lsn
    · rw [h.listRels_sparse huses] at hrels
      rcases bind_eq_ok_iff.mp hrels with ⟨c, hc, _⟩
      rw [toCompact_eq] at hc
      split at hc
      next hkey => exact hkey
      · cases hc
    · rw [h.listRels_old huses] at hrels
      rcases map_eq_ok_iff.mp hrels with ⟨dir, hdir, _⟩
      exact (h.get_eq_ok_iff.mp hdir).1
  · rcases hentry db hdb with ⟨rels, _, _, hrels, _⟩
    rw [h.listRels_old hold] at hrels
    rcases map_eq_ok_iff.mp hrels with ⟨dir, hdir, _⟩
    have hdircur := (h.get_eq_ok_iff.mp hdir).2
    exact ⟨dir, hdircur, hrelDir db.1 db.2 dir hdircur⟩
  · rcases hentry (rel.spcnode, rel.dbnode) hrel.dbdir with ⟨rels, before, after, hrels, hadd⟩
    rcases h.listRels_iff hrel.dbdir (fun d hd _ => hrelDir _ _ d hd) (fun _ => hscan) hrels
      with ⟨_, hin⟩
    rcases foldlM_taken hadd ((hin rel).mpr ⟨hrel, rfl⟩) with ⟨_, _, hstep⟩
    rcases bind_eq_ok_iff.mp hstep with ⟨n, hn, _⟩
    exact ⟨n, (h.get_eq_ok_iff.mp hn).2⟩

end State.Idle

/-!
## Later LSNs and commits
-/

structure SameViews (s s' : State) : Prop where
  cur : s'.cur = s.cur
  rels : s'.sparseRels = s.sparseRels
  uses : s'.UsesSparse s'.lsn <-> s.UsesSparse s.lsn

namespace SameViews

variable {s s' : State}

section

variable (h : SameViews s s')
include h

theorem symm : SameViews s' s :=
  ⟨h.cur.symm, h.rels.symm, h.uses.symm⟩

theorem stays {rel : RelTag} (hl : s.Listed rel) : s'.Listed rel :=
  hl.of_cur (fun _ _ => congrFun h.cur _) h.uses

theorem listed (rel : RelTag) : s'.Listed rel <-> s.Listed rel :=
  ⟨h.symm.stays, h.stays⟩

theorem sizes : s'.sizeOf = s.sizeOf :=
  funext (fun _ => congrFun h.cur _)

theorem complete (hs : s.Complete) : s'.Complete := by
  have hhasDb := State.HasDb.congr (congrFun h.cur .dbdir)
  refine ⟨by rw [h.cur]; exact hs.dbdir, fun db hdb => hs.keys db ((hhasDb db).mp hdb),
    fun hold db hdb => ?_, fun hyes rel hrel => ?_, fun rel hrel => ?_⟩
  · rw [h.cur]
    exact hs.relDir (mt h.uses.mpr hold) db ((hhasDb db).mp hdb)
  · unfold State.InSparse at hrel
    rw [h.cur] at hrel
    rw [h.rels]
    exact hs.sparse (h.uses.mp hyes) rel hrel
  · rw [h.sizes]
    exact hs.sizes rel ((h.listed rel).mp hrel)

theorem coherent (hs : s.Coherent) (hcache : s'.cache = s.cache)
    (hlsn : s.lsn ≤ s'.lsn) (hsnapshot : forall x rel, s'.tline.relSizeSnapshotCache x rel = none) :
    s'.Coherent where
  size := by
    intro rel l n hentry
    rw [h.sizes]
    exact hs.size rel l n (hcache ▸ hentry)
  lsn_le := fun rel l n hentry => (hs.lsn_le rel l n (hcache ▸ hentry)).trans hlsn
  snapshot := hsnapshot s'.lsn

end

end SameViews

variable {base : Int} {s : State}

theorem State.Balanced.withLsn (h : s.Balanced base) {lsn : Lsn} (hle : s.lsn ≤ lsn) :
    (s.withLsn lsn).Balanced base := by
  have hsame : SameViews s (s.withLsn lsn) := ⟨State.cur_withLsn h.wf hle, rfl,
    fun hyes => h.migrated lsn hyes, fun hyes => ⟨hyes.1, hyes.2.trans hle⟩⟩
  refine ⟨hsame.coherent h.coherent rfl hle h.snapshot, h.wf.withLsn hle, h.last_le.trans hle,
    forall_mem_concat (fun x hx => (h.pending_le x hx).trans hle) hle,
    fun x hx => ⟨hx.1, (h.migrated x hx).2.trans hle⟩, h.snapshot, hsame.complete h.complete, ?_⟩
  · rcases h.count with ⟨listed, hmem, hcount⟩
    refine ⟨listed, fun rel => (hmem rel).trans (hsame.listed rel).symm, ?_⟩
    rw [State.blocksOf_congr hsame.sizes]
    exact hcount

theorem lastRecordLsn_afterCommit_eq (hlast : s.tline.lastRecordLsn ≤ s.lsn)
    (hpending : forall x, x ∈ s.modification.pendingLsns -> x ≤ s.lsn) :
    s.afterCommit.tline.lastRecordLsn = s.lsn := by
  have hle := State.foldl_max_le_iff.mpr ⟨hlast, forall_mem_concat hpending (Nat.le_refl s.lsn)⟩
  exact Nat.le_antisymm hle s.lastRecordLsn_afterCommit.2

theorem State.Balanced.afterCommit (h : s.Balanced base) : s.afterCommit.Balanced base := by
  have hsame : SameViews s s.afterCommit := ⟨State.cur_afterCommit h.wf, rfl, Iff.rfl⟩
  refine ⟨hsame.coherent h.coherent rfl (Nat.le_refl _) h.snapshot, h.wf.afterCommit, ?_, nofun,
    h.migrated, h.snapshot, hsame.complete h.complete, ?_⟩
  · exact (lastRecordLsn_afterCommit_eq h.last_le h.pending_le).le
  · rcases h.count with ⟨listed, hmem, hcount⟩
    refine ⟨listed, fun rel => (hmem rel).trans (hsame.listed rel).symm, ?_⟩
    rw [State.blocksOf_congr hsame.sizes]
    show toI64 (s.tline.currentLogicalSize + toI64 (s.modification.pendingNblocks * BLCKSZ)) +
      0 * BLCKSZ ≡ _ [ZMOD 2 ^ 64]
    rw [Int.zero_mul, Int.add_zero]
    exact ((toI64_modEq _).trans ((toI64_modEq _).add_left _)).trans hcount

theorem State.Balanced.idle (h : s.Balanced base) : s.afterCommit.Idle where
  wf := h.wf.afterCommit
  last_le := (lastRecordLsn_afterCommit_eq h.last_le h.pending_le).le
  pages := fun _ => rfl
  sparse := by
    rw [lastRecordLsn_afterCommit_eq h.last_le h.pending_le]
    exact Iff.rfl

theorem State.Balanced.nonIncremental (h : s.Balanced base) (hidle : s.Idle)
    (hnblocks : s.modification.pendingNblocks = 0) :
    exists total : Nat,
      getCurrentLogicalSizeNonIncremental s s.tline.lastRecordLsn = .ok total ∧
      s.tline.currentLogicalSize ≡ base + total [ZMOD 2 ^ 64] := by
  rcases hidle.nonIncremental_eq h.complete with ⟨rels, hnodup, hin, htotal⟩
  refine ⟨_, htotal, ?_⟩
  rcases h.count with ⟨listed, hmem, hcount⟩
  have hsame : listed = rels.toFinset := by
    ext rel
    rw [hmem, mem_toFinset, hin]
  rw [hnblocks, hsame, sum_toFinset s.blocksOf hnodup] at hcount
  rw [Int.zero_mul, Int.add_zero] at hcount
  exact hcount.trans (((Int.mod_modEq _ _).symm).add_left base)

/-!
## Runs
-/

/-- The calls of a modification that change sizes or directories of relations. -/
inductive SizeCall where
  | setLsn (lsn : Lsn)
  | create (rel : RelTag) (nblocks : BlockNumber)
  | extend (rel : RelTag) (nblocks : BlockNumber)
  | truncate (rel : RelTag) (nblocks : BlockNumber)
  | drop (dropRelations : DropRelations)
  | dropDbdir (spcnode dbnode : Oid)
  | commit

namespace SizeCall

def op : SizeCall -> Op Unit
  | setLsn lsn => Datadir.setLsn lsn
  | create rel nblocks => putRelCreation rel nblocks
  | extend rel nblocks => putRelExtend rel nblocks
  | truncate rel nblocks => putRelTruncation rel nblocks
  | drop dropRelations => putRelDrops dropRelations
  | dropDbdir spcnode dbnode => Datadir.dropDbdir spcnode dbnode
  | commit => Datadir.commit

def next (s : State) (call : SizeCall) : Option State :=
  match exec call.op s with
  | (.ok _, s') => some s'
  | (.error _, _) => none

def Proper (s : State) : SizeCall -> Prop
  | create _ _ => s.tline.lastRecordLsn < s.lsn
  | extend _ _ => s.tline.lastRecordLsn < s.lsn
  | truncate _ _ => s.tline.lastRecordLsn < s.lsn
  | drop dropRelations => s.tline.lastRecordLsn < s.lsn ∧ dropRelations.Tagged
  | dropDbdir _ _ => s.tline.lastRecordLsn < s.lsn
  | _ => True

/-- The calls whose blocks are counted.  Relations are extended, and truncated, only where
the directories list them.  Drops name databases that exist; from the sparse directory
nothing is dropped.  A dropped database exists, and with the sparse directory in use the
committed entries are those of the modification.  A database that is created has no
entries in the sparse directory. -/
def Counted (s : State) : SizeCall -> Prop
  | create rel _ => s.UsesSparse s.lsn -> ¬ s.HasDb (rel.spcnode, rel.dbnode) ->
      forall r : RelTag, (r.spcnode, r.dbnode) = (rel.spcnode, rel.dbnode) -> ¬ s.InSparse r
  | extend rel _ => s.Listed rel
  | truncate rel _ => getRelExists s rel .modified = .ok true -> s.Listed rel
  | drop dropRelations =>
    (s.tline.relSizeV2Status ≠ .migrated ->
      forall entry, entry ∈ dropRelations -> s.HasDb entry.1) ∧
    (s.tline.relSizeV2Status = .migrated ->
      forall rel, rel ∈ dropRelations.tags -> ¬ s.InSparse rel)
  | dropDbdir spcnode dbnode => s.HasDb (spcnode, dbnode) ∧
      (s.UsesSparse s.lsn -> forall rels, listRels s spcnode dbnode .modified = .ok rels ->
        forall rel : RelTag, (rel.spcnode, rel.dbnode) = (spcnode, dbnode) ->
        (rel ∈ rels <-> s.InSparse rel))
  | _ => True

end SizeCall

theorem State.Balanced.next {s' : State} {call : SizeCall} (h : s.Balanced base)
    (hproper : call.Proper s) (hcounted : call.Counted s)
    (hnext : SizeCall.next s call = some s') : s'.Balanced base := by
  have hexec : exec call.op s = (.ok (), s') := by
    unfold SizeCall.next at hnext
    split at hnext
    next s1 heq =>
      cases hnext
      exact heq
    · cases hnext
  suffices hop : Yields call.op s (fun _ s' => s'.Balanced base) from
    Prog.yields_iff.mp hop () s' hexec
  cases call with
  | setLsn lsn =>
    exact Yields.refuse_bind (fun _ => Yields.onlyIf
      (fun hlt => Yields.modify (h.withLsn (Nat.le_of_lt hlt))) (fun _ => h))
  | create rel nblocks => exact balanced_putRelCreation h hproper hcounted nblocks
  | extend rel nblocks => exact balanced_putRelExtend h hproper hcounted nblocks
  | truncate rel nblocks => exact balanced_putRelTruncation h hproper hcounted nblocks
  | drop dropRelations =>
    exact balanced_putRelDrops h hproper.1 hproper.2 hcounted.1 hcounted.2
  | dropDbdir spcnode dbnode => exact balanced_dropDbdir h hproper hcounted.1 hcounted.2
  | commit =>
    refine (yields_commit s).mono ?_
    rintro _ s1 rfl
    exact h.afterCommit

/-- A loaded timeline: the modification is new and empty, the directories are sets, and
the entries of the sparse one are known to its scans. -/
structure State.Counting (s : State) : Prop extends s.Loaded where
  pages : forall k, s.modification.pendingMetadataPages k = []
  nblocks : s.modification.pendingNblocks = 0
  migrated_last : s.tline.relSizeV2Status = .migrated ->
    s.tline.relSizeMigratedAt.getD 0 ≤ s.tline.lastRecordLsn
  dbdir : forall d, s.cur .dbdir = some d -> (d.dbdirs.map Prod.fst).Nodup
  relDir : forall spcnode dbnode d, s.cur (.relDir spcnode dbnode) = some d -> d.rels.Nodup
  scan : forall rel, s.InSparse rel -> rel ∈ s.sparseRels

theorem State.Counting.idle (h : s.Counting) : s.Idle where
  wf := h.wf
  last_le := h.last_le
  pages := h.pages
  sparse := ⟨fun huses => ⟨huses.1, h.migrated huses.1⟩,
    fun huses => ⟨huses.1, h.migrated_last huses.1⟩⟩

theorem State.Counting.balanced (h : s.Counting) {total : Nat}
    (htotal : getCurrentLogicalSizeNonIncremental s s.tline.lastRecordLsn = .ok total) :
    s.Balanced (s.tline.currentLogicalSize - total) := by
  have hcomplete := h.idle.complete_of_nonIncremental h.dbdir h.relDir h.scan htotal
  rcases h.idle.nonIncremental_eq hcomplete with ⟨rels, hnodup, hin, heq⟩
  have hcoherent : s.Coherent := by
    refine ⟨fun rel l n hentry => ?_, fun rel l n hentry => ?_, h.snapshot s.lsn⟩
    · cases (h.latest rel).symm.trans hentry
    · cases (h.latest rel).symm.trans hentry
  refine ⟨hcoherent, h.wf, h.last_le, h.pending_le, fun x hx => ⟨hx.1, h.migrated hx.1⟩,
    h.snapshot, hcomplete, rels.toFinset, fun rel => by rw [mem_toFinset, hin], ?_⟩
  rw [htotal] at heq
  have hsum : total = (rels.map s.blocksOf).sum * BLCKSZ % 2 ^ 64 := Except.ok.inj heq
  rw [sum_toFinset s.blocksOf hnodup, h.nblocks]
  unfold Int.ModEq
  omega

def FitsI64 (x : Int) : Prop :=
  -2 ^ 63 ≤ x ∧ x < 2 ^ 63

theorem fitsI64_toI64 (x : Int) : FitsI64 (toI64 x) := by
  have hle := Int.le_bmod (show 0 < 2 ^ 64 by decide) (x := x)
  have hlt := Int.bmod_lt (show 0 < 2 ^ 64 by decide) (x := x)
  unfold FitsI64 toI64
  omega

/-- In every run whose calls are counted, each commit brings the incremental logical size
to where the count from scratch is: modulo `2 ^ 64` both have changed by the same number of
bytes, and exactly so if the new incremental size is an `i64`. -/
theorem incremental_logical_size_exact (start s s' : State) (before : Nat) (hstart : start.Counting)
    (hbefore : getCurrentLogicalSizeNonIncremental start start.tline.lastRecordLsn = .ok before)
    (hrun : Reached SizeCall.next (fun s call => call.Proper s ∧ call.Counted s) start s)
    (hcommit : exec commit s = (.ok (), s')) :
    exists after : Nat,
      getCurrentLogicalSizeNonIncremental s' s'.tline.lastRecordLsn = .ok after ∧
      s'.tline.currentLogicalSize - start.tline.currentLogicalSize ≡
        (after : Int) - before [ZMOD 2 ^ 64] ∧
      (FitsI64 (start.tline.currentLogicalSize + ((after : Int) - before)) ->
        s'.tline.currentLogicalSize - start.tline.currentLogicalSize =
          (after : Int) - before) := by
  have hs : s.Balanced (start.tline.currentLogicalSize - before) :=
    hrun.invariant (hstart.balanced hbefore) (fun _ _ _ h hok hnext => h.next hok.1 hok.2 hnext)
  have hs' : s' = s.afterCommit := Prog.yields_iff.mp (yields_commit s) () s' hcommit
  subst hs'
  rcases hs.afterCommit.nonIncremental hs.idle rfl with ⟨after, hafter, hlogical⟩
  have hfits : FitsI64 s.afterCommit.tline.currentLogicalSize := fitsI64_toI64 _
  unfold Int.ModEq FitsI64 at *
  refine ⟨after, hafter, ?_, fun hnew => ?_⟩
  · omega
  · omega

/-!
## Sample runs
-/

variable (status : RelSizeMigration)

def withoutDatabases : State :=
  ((State.new .unsharded false status 4 8).putMetadata .dbdir ⟨[]⟩).afterCommit

theorem counting_withoutDatabases : (withoutDatabases status).Counting where
  wf := by
    have hnew : (State.new .unsharded false status 4 8).WF :=
      ⟨fun _ => List.Pairwise.nil, fun _ => List.Pairwise.nil, nofun, nofun, nofun⟩
    exact (hnew.putMetadata (show 0 < 8 by decide) .dbdir ⟨[]⟩).afterCommit
  last_le := show 8 ≤ 8 by decide
  pending_le := nofun
  migrated := fun _ => Nat.zero_le _
  latest := fun _ => rfl
  snapshot := fun _ _ => rfl
  pages := fun _ => rfl
  nblocks := rfl
  migrated_last := fun _ => Nat.zero_le _
  dbdir := by
    intro d hd
    cases hd
    exact nodup_nil
  relDir := by
    intro spcnode dbnode d hd
    cases hd
  scan := by
    intro rel hrel
    cases hrel

def SizeCall.after (s : State) (call : SizeCall) : State :=
  (exec call.op s).2

variable {ok : State -> SizeCall -> Prop}

theorem reached_call {start : State} (h : Reached SizeCall.next ok start s) (call : SizeCall)
    (hok : ok s call) (hop : (exec call.op s).1 = .ok ()) :
    Reached SizeCall.next ok start (SizeCall.after s call) := by
  refine h.step call hok ?_
  unfold SizeCall.next
  rw [show exec call.op s = (.ok (), (exec call.op s).2) from Prod.ext hop rfl]
  rfl

def dropTable : SizeCall :=
  .drop [((1663, 5), [cachedTable])]

theorem tagged_dropTable : DropRelations.Tagged [((1663, 5), [cachedTable])] := by
  unfold DropRelations.Tagged
  decide

/-- A relation of five blocks is created and committed, and dropped by the next record. -/
def tableDropped : State :=
  [.setLsn 16, .create cachedTable 5, .commit, .setLsn 24, dropTable].foldl SizeCall.after
    (withoutDatabases status)

theorem reached_tableDropped {status : RelSizeMigration}
    (hlsn : forall s lsn, ok s (.setLsn lsn)) (hcommit : forall s, ok s .commit)
    (hcreate : ok (SizeCall.after (withoutDatabases status) (.setLsn 16)) (.create cachedTable 5))
    (hdrop : ok ([.setLsn 16, .create cachedTable 5, .commit, .setLsn 24].foldl SizeCall.after
      (withoutDatabases status)) dropTable) :
    Reached SizeCall.next ok (withoutDatabases status) (tableDropped status) := by
  have h1 := reached_call .start (.setLsn 16) (hlsn (withoutDatabases status) 16)
    (by cases status <;> decide +kernel)
  have h2 := reached_call h1 (.create cachedTable 5) hcreate (by cases status <;> decide +kernel)
  have h3 := reached_call h2 .commit (hcommit _) (by cases status <;> decide +kernel)
  have h4 := reached_call h3 (.setLsn 24) (hlsn _ 24) (by cases status <;> decide +kernel)
  exact reached_call h4 dropTable hdrop (by cases status <;> decide +kernel)

theorem incremental_logical_size_exact_dropped :
    exists s', exec commit (tableDropped .legacy) = (.ok (), s') ∧
      exists after : Nat,
        getCurrentLogicalSizeNonIncremental s' s'.tline.lastRecordLsn = .ok after ∧
        s'.tline.currentLogicalSize - (withoutDatabases .legacy).tline.currentLogicalSize =
          (after : Int) - (0 : Nat) := by
  have hcommit : exec commit (tableDropped .legacy) =
      (.ok (), (exec commit (tableDropped .legacy)).2) := Prod.ext (by decide +kernel) rfl
  have hzero : getCurrentLogicalSizeNonIncremental (exec commit (tableDropped .legacy)).2
      (exec commit (tableDropped .legacy)).2.tline.lastRecordLsn = .ok 0 := by decide +kernel
  have hrun : Reached SizeCall.next (fun s call => call.Proper s ∧ call.Counted s)
      (withoutDatabases .legacy) (tableDropped .legacy) := by
    refine reached_tableDropped (fun _ _ => ⟨trivial, trivial⟩) (fun _ => ⟨trivial, trivial⟩)
      ⟨show 8 < 16 by decide, fun huses => nomatch huses.1⟩
      ⟨⟨Nat.lt_of_sub_ne_zero (by decide +kernel), tagged_dropTable⟩, fun _ => ?_,
        fun hstatus => absurd hstatus (by decide +kernel)⟩
    intro entry hentry
    cases mem_singleton.mp hentry
    exact ⟨⟨[((1663, 5), false)]⟩, by decide +kernel, by decide⟩
  rcases incremental_logical_size_exact (withoutDatabases .legacy) (tableDropped .legacy) _ 0
    (counting_withoutDatabases .legacy) (by decide +kernel) hrun hcommit
    with ⟨after, hafter, _, hexact⟩
  cases hafter.symm.trans hzero
  exact ⟨_, hcommit, 0, hzero, hexact (by unfold FitsI64; decide +kernel)⟩

/-- With the sparse directory in use, the blocks of a dropped relation stay counted. -/
theorem sparse_drop_not_counted :
    (withoutDatabases .migrated).Counting ∧
    getCurrentLogicalSizeNonIncremental (withoutDatabases .migrated)
      (withoutDatabases .migrated).tline.lastRecordLsn = .ok 0 ∧
    exists s s', Reached SizeCall.next (fun s call => call.Proper s)
        (withoutDatabases .migrated) s ∧ exec commit s = (.ok (), s') ∧
      getCurrentLogicalSizeNonIncremental s' s'.tline.lastRecordLsn = .ok 0 ∧
      s'.tline.currentLogicalSize - (withoutDatabases .migrated).tline.currentLogicalSize =
        5 * BLCKSZ := by
  have hcommit : exec commit (tableDropped .migrated) =
      (.ok (), (exec commit (tableDropped .migrated)).2) := Prod.ext (by decide +kernel) rfl
  refine ⟨counting_withoutDatabases .migrated, by decide +kernel, tableDropped .migrated, _,
    reached_tableDropped ?_ ?_ ?_ ?_, hcommit, by decide +kernel, by decide +kernel⟩
  · exact fun _ _ => trivial
  · exact fun _ => trivial
  · exact show 8 < 16 by decide
  · exact ⟨Nat.lt_of_sub_ne_zero (by decide +kernel), tagged_dropTable⟩

end Datadir
end Pageserver
end OpenNeon

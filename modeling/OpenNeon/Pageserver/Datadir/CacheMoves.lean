import OpenNeon.Pageserver.Datadir.CacheViews

/-!
# What writes do to the caches

A write of the modification is not seen before its LSN.  For every relation it keeps
the latest entry and what the entry rests on, removes the entry, or sets it to the
size that the relation has from now on.
-/

namespace OpenNeon
namespace Pageserver
namespace Datadir

open Base WalDecoder
open Prog (Keeps wp Yields wp_bind wp_mono)
open Prog.Yields (read_bind refuse_bind)

/-- The relation is listed with a size in the modification's view. -/
structure State.Here (s : State) (rel : RelTag) (n : BlockNumber) : Prop where
  representable : (MetaKey.relSize rel).toKey.isI128Representable = true
  listed : s.Listed rel
  size : s.sizeOf rel = some n

/-- The relation's latest entry is as before, and so is what it rests on. -/
structure Undisturbed (s s' : State) (rel : RelTag) : Prop where
  cache : s'.cache rel = s.cache rel
  listed : s.Listed rel -> s'.Listed rel
  size : s'.sizeOf rel = s.sizeOf rel

structure CacheMove (s s' : State) : Prop where
  behind : Behind s s'
  entry : forall rel, Undisturbed s s' rel ∨ s'.cache rel = none ∨
    exists n, s'.cache rel = some (s.lsn, n) ∧ s'.Here rel n

theorem Undisturbed.refl (s : State) (rel : RelTag) : Undisturbed s s rel :=
  ⟨rfl, id, rfl⟩

variable {s s' : State} {rel : RelTag} {k : MetaKey} {version : Version} {n : BlockNumber}

theorem Undisturbed.trans {s'' : State} (h : Undisturbed s s' rel)
    (h' : Undisturbed s' s'' rel) : Undisturbed s s'' rel :=
  ⟨h'.cache.trans h.cache, fun hl => h'.listed (h.listed hl), h'.size.trans h.size⟩

instance : Std.Refl CacheMove where
  refl s := ⟨refl s, fun rel => .inl (Undisturbed.refl s rel)⟩

instance : IsTrans State CacheMove where
  trans s s' s'' h h' := by
    refine ⟨Trans.trans h.behind h'.behind, fun rel => ?_⟩
    rcases h'.entry rel with hsame' | hnone' | ⟨n, hset, hhere⟩
    · rcases h.entry rel with hsame | hnone | ⟨n, hset, hhere⟩
      · exact .inl (hsame.trans hsame')
      · exact .inr (.inl (hsame'.cache.trans hnone))
      · exact .inr (.inr ⟨n, hsame'.cache.trans hset, hhere.representable,
          hsame'.listed hhere.listed, hsame'.size.trans hhere.size⟩)
    · exact .inr (.inl hnone')
    · exact .inr (.inr ⟨n, by rw [← h.behind.lsn]; exact hset, hhere⟩)

theorem representable_of_get {v : k.Val} (h : version.get s k = .ok v) :
    k.toKey.isI128Representable = true := by
  have hcompact : exists c, toCompact k.toKey = .ok c := by
    cases version with
    | lsnRange effective request =>
      rcases bind_eq_ok_iff.mp h with ⟨c, hc, _⟩
      exact ⟨c, hc⟩
    | modified =>
      rcases bind_eq_ok_iff.mp h with ⟨c, hc, _⟩
      exact ⟨c, hc⟩
  rcases hcompact with ⟨c, hc⟩
  rw [toCompact_eq] at hc
  split at hc
  · assumption
  · cases hc

/-!
## Creation
-/

theorem Resized.cacheMove {old : BlockNumber} (h : Resized s s' rel old n)
    (hbehind : Behind s s') (hkey : (MetaKey.relSize rel).toKey.isI128Representable = true)
    (hstays : forall r, s.Listed r -> s'.Listed r) (hlisted : s'.Listed rel) :
    CacheMove s s' where
  behind := hbehind
  entry := by
    intro r
    by_cases hr : r = rel
    · subst hr
      have hcache := h.cache r
      have hsize := h.sizes r
      rw [if_pos rfl] at hcache hsize
      exact .inr (.inr ⟨n, hcache, hkey, hlisted, hsize⟩)
    · have hcache := h.cache r
      have hsize := h.sizes r
      rw [if_neg hr] at hcache hsize
      exact .inl ⟨hcache, hstays r, hsize⟩

theorem cacheMove_putRelCreation (hmigrated : forall x, s.UsesSparse x -> s.UsesSparse s.lsn)
    (rel : RelTag) (n : BlockNumber) :
    Yields (putRelCreation rel n) s (fun _ s' => CacheMove s s' ∧ s'.Listed rel) := by
  refine (yields_putRelCreation_cases rel n s).mono ?_
  rintro _ _ ⟨s3, hcreation, hkey, rfl⟩
  have hlisted := listed_withSize (hcreation.listed_new hmigrated) rel 0 n
  have hresized := hcreation.calm.resized (resized_withSize s3 rel 0 n)
  exact ⟨hresized.cacheMove (Trans.trans hcreation.behind (behind_withSize s3 rel 0 n)) hkey
    (fun r hr => listed_withSize (hcreation.stays hr) rel 0 n) hlisted, hlisted⟩

/-!
## Sizes
-/

theorem cacheMove_putSize (hlisted : s.Listed rel) (old n : BlockNumber) :
    Yields (putSize rel old n) s (fun _ s' => CacheMove s s') := by
  refine ((yields_putSize_representable rel old n s).and (yields_putSize rel old n s)).mono ?_
  rintro _ s' ⟨hkey, rfl⟩
  exact (resized_withSize s rel old n).cacheMove (behind_withSize s rel old n) hkey
    (fun r hr => listed_withSize hr rel old n) (listed_withSize hlisted rel old n)

theorem cacheMove_putRelExtend (hlisted : s.Listed rel) (n : BlockNumber) :
    Yields (putRelExtend rel n) s (fun _ s' => CacheMove s s') :=
  refuse_bind (fun _ => read_bind (fun _ _ =>
    Yields.onlyIf (fun _ => cacheMove_putSize hlisted _ n) (fun _ => refl s)))

/-!
## What the caches hold

A latest entry holds from its LSN up to the modification's, a snapshot entry at its own
LSN.
-/

/-- Cache entries are for relations that are present where the entry may be used. -/
structure State.CachesHold (s : State) : Prop where
  wf : s.WF
  last_le : s.tline.lastRecordLsn ≤ s.lsn
  pending_le : forall x, x ∈ s.modification.pendingLsns -> x ≤ s.lsn
  migrated : forall x, s.UsesSparse x -> s.UsesSparse s.lsn
  latest_le : forall rel l n, s.cache rel = some (l, n) -> l ≤ s.lsn
  latest : forall rel l n, s.cache rel = some (l, n) ->
    forall x, l ≤ x -> x ≤ s.lsn -> s.Present rel x n
  snapshot_le : forall x rel n, s.tline.relSizeSnapshotCache x rel = some n ->
    x ≤ s.tline.lastRecordLsn
  snapshot : forall x rel n, s.tline.relSizeSnapshotCache x rel = some n -> s.Present rel x n

theorem State.here_iff (hwf : s.WF) (hlast : s.tline.lastRecordLsn ≤ s.lsn) :
    s.Here rel n <-> s.Present rel s.lsn n := by
  have hsize : s.viewAt (.relSize rel) s.lsn = s.sizeOf rel :=
    s.viewAt_of_le hwf hlast (Nat.le_refl _) _
  have hlisted := s.existsAt_lsn_iff hwf hlast rel
  constructor
  · rintro ⟨hkey, hhere, hn⟩
    exact ⟨hkey, hlisted.mpr hhere, hsize.trans hn⟩
  · rintro ⟨hkey, hhere, hn⟩
    exact ⟨hkey, hlisted.mp hhere, hsize.symm.trans hn⟩

namespace State.CachesHold

variable {s s' : State} {rel : RelTag}

section

variable (h : s.CachesHold)

include h

theorem here {l : Lsn} {n : BlockNumber} (hcache : s.cache rel = some (l, n)) : s.Here rel n :=
  (State.here_iff h.wf h.last_le).mpr
    (h.latest rel l n hcache s.lsn (h.latest_le rel l n hcache) (Nat.le_refl _))

theorem coherent (hlt : s.tline.lastRecordLsn < s.lsn) : s.Coherent where
  size := fun _ _ _ hcache => (h.here hcache).size
  lsn_le := h.latest_le
  snapshot := by
    intro rel
    cases hsnap : s.tline.relSizeSnapshotCache s.lsn rel with
    | none => rfl
    | some n => exact absurd (h.snapshot_le s.lsn rel n hsnap) (Nat.not_le.mpr hlt)

theorem listed_of_known (hknown : s.Known rel) : s.Listed rel := by
  rcases hknown with hcached | hlisted
  · rcases Option.isSome_iff_exists.mp hcached with ⟨⟨l, n⟩, hcache⟩
    exact (h.here hcache).listed
  · exact hlisted

theorem cachedPresent {version : Version} (hvalid : version.Valid s) :
    CachedPresent s rel version := by
  have hle : version.getLsn s ≤ s.lsn := by
    cases version with
    | lsnRange effective request => exact Nat.le_trans hvalid h.last_le
    | modified => exact Nat.le_refl _
  intro n hcached
  unfold getCachedRelSize at hcached
  dsimp only at hcached
  split at hcached
  next l m hcache =>
    split at hcached
    next hl =>
      cases hcached
      exact h.latest rel l _ hcache _ hl hle
    · exact h.snapshot _ rel n hcached
  · exact h.snapshot _ rel n hcached

theorem move (hlt : s.tline.lastRecordLsn < s.lsn) (hmove : CacheMove s s') : s'.CachesHold := by
  have hb := hmove.behind
  have hwf : s'.WF := hb.wf hlt h.wf
  have hlast : s'.tline.lastRecordLsn ≤ s'.lsn := by
    rw [hb.lastRecordLsn, hb.lsn]
    exact h.last_le
  have hbefore : forall {rel x n}, x < s.lsn -> s.Present rel x n -> s'.Present rel x n :=
    fun hx hpresent => hpresent.congr (fun k => hb.views k _ hx) (hb.sparse _)
  have hentry : forall rel l n, s'.cache rel = some (l, n) ->
      l ≤ s'.lsn ∧ forall x, l ≤ x -> x ≤ s'.lsn -> s'.Present rel x n := by
    intro rel l n hcache
    rcases hmove.entry rel with hsame | hnone | ⟨m, hset, hhere⟩
    · have hold : s.cache rel = some (l, n) := hsame.cache.symm.trans hcache
      rw [hb.lsn]
      refine ⟨h.latest_le rel l n hold, fun x hl hx => ?_⟩
      rcases Nat.lt_or_eq_of_le hx with hx | rfl
      · exact hbefore hx (h.latest rel l n hold x hl hx.le)
      · have hhere := h.here hold
        rw [← hb.lsn]
        exact (State.here_iff hwf hlast).mp ⟨hhere.representable, hsame.listed hhere.listed,
          hsame.size.trans hhere.size⟩
    · rw [hnone] at hcache
      cases hcache
    · rw [hset] at hcache
      cases hcache
      refine ⟨hb.lsn.symm.le, fun x hl hx => ?_⟩
      have hxeq : x = s'.lsn := Nat.le_antisymm hx (by rw [hb.lsn]; exact hl)
      rw [hxeq]
      exact (State.here_iff hwf hlast).mp hhere
  constructor
  · exact hwf
  · exact hlast
  · rw [hb.pendingLsns, hb.lsn]
    exact h.pending_le
  · intro x hx
    exact hb.uses.mpr (h.migrated x ((hb.sparse x).mp hx))
  · exact fun rel l n hcache => (hentry rel l n hcache).1
  · exact fun rel l n hcache => (hentry rel l n hcache).2
  · rw [hb.snapshot, hb.lastRecordLsn]
    exact h.snapshot_le
  · rw [hb.snapshot]
    intro x rel n hsnap
    exact hbefore (Nat.lt_of_le_of_lt (h.snapshot_le x rel n hsnap) hlt) (h.snapshot x rel n hsnap)

end

end State.CachesHold

/-!
## Reading and truncating
-/

theorem behind_setCachedRelSize (s : State) (rel : RelTag) (l : Lsn) (n : BlockNumber) :
    Behind s (s.setCachedRelSize rel l n) :=
  ⟨rfl, rfl, rfl, rfl, fun _ => Iff.rfl, fun _ _ _ => rfl, fun _ h => { h with }⟩

/-- The relation exists at the version, past the caches; map forks are checked by the lookup. -/
def SizeReadable (s : State) (rel : RelTag) (version : Version) : Prop :=
  (rel.forknum = FSM_FORKNUM ∨ rel.forknum = VISIBILITYMAP_FORKNUM) ∨
    getRelExists s.withoutCaches rel version = .ok true

theorem uncached_of_withoutCaches (h : getRelExists s.withoutCaches rel version = .ok true) :
    getRelExistsUncached s rel version none = .ok true := by
  by_cases hrel : rel.relnode = 0
  · unfold getRelExists getRelExistsInReldir at h
    rw [if_pos hrel] at h
    cases h
  · exact (getRelExists_withoutCaches hrel).symm.trans h

section

variable (hwf : s.WF) (hlast : s.tline.lastRecordLsn ≤ s.lsn)

include hwf hlast

theorem present_of_fetched
    (hvalid : version.Valid s) (h : lookupRelSize s rel version none false = .ok (.fetched n))
    (hreadable : SizeReadable s rel version) : s.Present rel (version.getLsn s) n := by
  rcases lookupRelSize_cases h with ⟨_, ⟨⟩, _⟩ | ⟨⟨⟩, _⟩ | ⟨⟨⟩, _⟩ | ⟨_, ⟨⟩, hget, hmap⟩
  have huncached : getRelExistsUncached s rel version none = .ok true :=
    hreadable.elim hmap uncached_of_withoutCaches
  exact ⟨representable_of_get hget, existsAt_of_uncached hwf hlast hvalid huncached,
    Version.viewAt_of_get hwf hlast hvalid hget⟩

theorem wp_getRelSize_here (hreadable : SizeReadable s rel .modified) :
    wp (getRelSize rel .modified) (fun _ s' =>
      s' = s ∨ exists n, s.Here rel n ∧ s' = s.setCachedRelSize rel s.lsn n)
      (fun _ s' => s' = s) s := by
  unfold getRelSize getRelSizeInReldir
  simp only [bind_assoc]
  refine wp_bind.mpr (Prog.wp_read.mpr ?_)
  split
  next lookup hlookup =>
    cases lookup with
    | fetched n =>
      have hvalid : Version.modified.Valid s := trivial
      have hhere : s.Here rel n := (State.here_iff hwf hlast).mpr
        (present_of_fetched hwf hlast hvalid hlookup hreadable)
      exact updateCachedRelSize_of (p := fun s' => s' = s ∨ exists n, s.Here rel n ∧
        s' = s.setCachedRelSize rel s.lsn n) (.inl rfl) (.inr ⟨n, hhere, rfl⟩)
    | done res =>
      rcases lookupRelSize_done hlookup with ⟨n, rfl, _⟩
      exact .inl rfl
  · rfl

theorem yields_getRelSize_here (hreadable : SizeReadable s rel .modified) :
    Yields (getRelSize rel .modified) s (fun _ s' =>
      s' = s ∨ exists n, s.Here rel n ∧ s' = s.setCachedRelSize rel s.lsn n) :=
  wp_mono (wp_getRelSize_here hwf hlast hreadable) (fun _ _ h => h) (fun _ _ _ => trivial)

end

theorem State.Here.cacheMove (h : s.Here rel n) : CacheMove s (s.setCachedRelSize rel s.lsn n) where
  behind := behind_setCachedRelSize s rel s.lsn n
  entry := by
    intro r
    have hcache := cache_setCachedRelSize s rel s.lsn n r
    by_cases hr : r = rel
    · subst hr
      rw [if_pos rfl] at hcache
      exact .inr (.inr ⟨n, hcache, h.representable,
        { h.listed with }, h.size⟩)
    · rw [if_neg hr] at hcache
      exact .inl ⟨hcache, fun hl => { hl with }, rfl⟩

section Holding

variable {s : State} (h : s.CachesHold) (hlt : s.tline.lastRecordLsn < s.lsn)

include h hlt

theorem cacheMove_putRelTruncation (rel : RelTag) (n : BlockNumber) :
    Yields (putRelTruncation rel n) s (fun _ s' => CacheMove s s') := by
  refine refuse_bind (fun _ => read_bind (fun found hfound => ?_))
  refine Yields.onlyIf (fun htrue => ?_) (fun _ => refl s)
  have hlisted : s.Listed rel :=
    h.listed_of_known (((h.coherent hlt).getRelExists_iff hfound).mp htrue)
  exact read_bind (fun old _ => cacheMove_putSize hlisted old n)

theorem cacheMove_createRelationIfRequired (rel : RelTag) :
    Yields (createRelationIfRequired rel) s (fun _ s' => CacheMove s s' ∧ s'.Listed rel) := by
  have hvalid : Version.modified.Valid s := trivial
  refine wp_bind.mpr (Prog.wp_get.mpr ?_)
  split
  next n hcached =>
    have hhere := (State.here_iff h.wf h.last_le).mpr (h.cachedPresent hvalid n hcached)
    exact Yields.pure ⟨refl s, hhere.listed⟩
  · refine read_bind (fun found hfound => ?_)
    refine Yields.ite (fun htrue => ?_) (fun _ => ?_)
    · have hlisted : s.Listed rel :=
        h.listed_of_known (((h.coherent hlt).getRelExists_iff hfound).mp htrue)
      have hreadable : SizeReadable s rel .modified := by
        rw [htrue] at hfound
        exact .inr ((getRelExists_transparent h.wf h.last_le hvalid
          (h.cachedPresent hvalid)).symm.trans hfound)
      refine (yields_getRelSize_here h.wf h.last_le hreadable).mono ?_
      rintro _ s' (rfl | ⟨n, hhere, rfl⟩)
      · exact ⟨refl s', hlisted⟩
      · exact ⟨hhere.cacheMove, { hlisted with }⟩
    · refine (cacheMove_putRelCreation h.migrated rel 0).bind ?_
      rintro _ s' hs'
      exact Yields.pure hs'

theorem cacheMove_ingestMeta (shard : ShardIdentity) (gaps : List (List Int × Lsn))
    (m : ValueMeta) :
    Yields (ingestMeta shard gaps m) s (fun _ s' => CacheMove s s') := by
  unfold ingestMeta
  dsimp only
  split
  · exact Yields.throw
  next rel blkno _ =>
    refine (cacheMove_createRelationIfRequired h hlt rel).bind ?_
    rintro old s1 ⟨hmove1, hlisted1⟩
    have hextend : Yields (Prog.onlyIf (old < blkno + 1)
        (putRelExtend rel (blkno + 1))) s1 (fun _ s2 => CacheMove s s2) :=
      Yields.onlyIf (fun _ => (cacheMove_putRelExtend hlisted1 _).mono
          (fun _ _ hmove2 => Trans.trans hmove1 hmove2))
        (fun _ => hmove1)
    refine hextend.bind (fun _ s2 hmove2 => ?_)
    refine ((Keeps.liftExcept (R := Eq) _).yields s2).bind ?_
    rintro _ s3 rfl
    exact Yields.ite (fun _ => hmove2) (fun _ => hmove2)

end Holding

theorem cacheMove_addBatch (s : State) (batch : SerializedValueBatch) :
    CacheMove s (s.addBatch batch) where
  behind := ⟨rfl, rfl, rfl, rfl, fun _ => Iff.rfl, fun _ _ _ => rfl, fun _ h => { h with }⟩
  entry := fun _ => .inl ⟨rfl, fun hl => { hl with }, rfl⟩

theorem cacheMove_ingestBatch (h : s.CachesHold) (hlt : s.tline.lastRecordLsn < s.lsn)
    (batch : SerializedValueBatch) (shard : ShardIdentity) :
    Yields (ingestBatch batch shard) s (fun _ s' => CacheMove s s') := by
  have hfold : Yields (batch.metadata.foldlM (ingestMeta shard) []) s
      (fun _ s' => CacheMove s s') := by
    refine Yields.foldlM_of_round ?_ (refl s)
    intro m _ gaps s1 hmove1
    exact (cacheMove_ingestMeta (h.move hlt hmove1) (hmove1.behind.lt hlt) shard gaps m).mono
      (fun _ _ hmove2 => Trans.trans hmove1 hmove2)
  refine hfold.bind (fun gaps s1 hmove1 => Yields.modify ?_)
  exact Trans.trans hmove1 (cacheMove_addBatch s1 _)

end Datadir
end Pageserver
end OpenNeon

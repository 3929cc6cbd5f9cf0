import OpenNeon.Base.System
import OpenNeon.Pageserver.Datadir.CacheDrops

/-!
# Readers and writers of the caches

One modification writes; readers of committed LSNs read sizes in two steps, first the
store and then the caches, with anything in between.  As long as no step leaves an
entry behind that its relation does not bear out, the answers are those of the store.
-/

namespace OpenNeon
namespace Pageserver
namespace Datadir

open Base WalDecoder
open Prog (exec Yields)

/-!
## Later LSNs
-/

variable {s : State}

theorem State.viewAt_afterCommit (hwf : s.WF) (k : MetaKey) (x : Lsn) :
    s.afterCommit.viewAt k x = s.viewAt k x := by
  unfold viewAt
  rw [metadata_afterCommit hwf]
  rfl

namespace State.CachesHold

variable {s : State}

variable {rel : RelTag} {n : BlockNumber}

section

variable (h : s.CachesHold)

include h

theorem present_later (hpresent : s.Present rel s.lsn n) {x : Lsn}
    (hx : s.lsn ≤ x) : s.Present rel x n := by
  refine hpresent.congr (fun k => ?_) ⟨h.migrated x, fun huses => ⟨huses.1, huses.2.trans hx⟩⟩
  rw [State.viewAt_of_le h.wf h.last_le hx, State.viewAt_of_le h.wf h.last_le (Nat.le_refl _)]

theorem withLsn {lsn : Lsn} (hle : s.lsn ≤ lsn) : (s.withLsn lsn).CachesHold where
  wf := h.wf.withLsn hle
  last_le := h.last_le.trans hle
  pending_le := forall_mem_concat (fun x hx => (h.pending_le x hx).trans hle) hle
  migrated := fun x hx => ⟨hx.1, (h.migrated x hx).2.trans hle⟩
  latest_le := fun rel l n hcache => (h.latest_le rel l n hcache).trans hle
  latest := by
    intro rel l n hcache x hl _
    have hpresent : s.Present rel x n := by
      rcases Nat.le_total x s.lsn with hx | hx
      · exact h.latest rel l n hcache x hl hx
      · exact h.present_later (h.latest rel l n hcache s.lsn (h.latest_le rel l n hcache)
          (Nat.le_refl _)) hx
    exact hpresent.congr (fun _ => rfl) Iff.rfl
  snapshot_le := h.snapshot_le
  snapshot := fun x rel n hsnap =>
    (h.snapshot x rel n hsnap).congr (fun _ => rfl) Iff.rfl

theorem afterCommit : s.afterCommit.CachesHold where
  wf := h.wf.afterCommit
  last_le := foldl_max_le_iff.mpr ⟨h.last_le, forall_mem_concat h.pending_le (Nat.le_refl _)⟩
  pending_le := nofun
  migrated := h.migrated
  latest_le := h.latest_le
  latest := fun rel l n hcache x hl hx =>
    (h.latest rel l n hcache x hl hx).congr (fun k => State.viewAt_afterCommit h.wf k x) Iff.rfl
  snapshot_le := fun x rel n hsnap =>
    (h.snapshot_le x rel n hsnap).trans s.lastRecordLsn_afterCommit.1
  snapshot := fun x rel n hsnap =>
    (h.snapshot x rel n hsnap).congr (fun k => State.viewAt_afterCommit h.wf k x) Iff.rfl

theorem setCachedRelSize {l : Lsn} (hl : l ≤ s.lsn)
    (hpresent : forall x, l ≤ x -> x ≤ s.lsn -> s.Present rel x n) :
    (s.setCachedRelSize rel l n).CachesHold := by
  have hentry : forall r l' m, (s.setCachedRelSize rel l n).cache r = some (l', m) ->
      l' ≤ s.lsn ∧ forall x, l' ≤ x -> x ≤ s.lsn -> s.Present r x m := by
    intro r l' m hcache
    rw [cache_setCachedRelSize] at hcache
    split at hcache
    next hr =>
      cases hcache
      subst hr
      exact ⟨hl, hpresent⟩
    · exact ⟨h.latest_le r l' m hcache, h.latest r l' m hcache⟩
  exact
    { wf := { h.wf with }
      last_le := h.last_le
      pending_le := h.pending_le
      migrated := h.migrated
      latest_le := fun r l' m hcache => (hentry r l' m hcache).1
      latest := fun r l' m hcache x hx hle =>
        ((hentry r l' m hcache).2 x hx hle).congr (fun _ => rfl) Iff.rfl
      snapshot_le := h.snapshot_le
      snapshot := fun x r m hsnap =>
        (h.snapshot x r m hsnap).congr (fun _ => rfl) Iff.rfl }

theorem withSnapshots {snapshots : Lsn -> RelTag -> Option BlockNumber}
    (hle : forall x rel n, snapshots x rel = some n -> x ≤ s.tline.lastRecordLsn)
    (hpresent : forall x rel n, snapshots x rel = some n -> s.Present rel x n) :
    State.CachesHold
      { s with tline := { s.tline with relSizeSnapshotCache := snapshots } } where
  wf := { h.wf with }
  last_le := h.last_le
  pending_le := h.pending_le
  migrated := h.migrated
  latest_le := h.latest_le
  latest := fun rel l n hcache x hl hx =>
    (h.latest rel l n hcache x hl hx).congr (fun _ => rfl) Iff.rfl
  snapshot_le := hle
  snapshot := fun x rel n hsnap => (hpresent x rel n hsnap).congr (fun _ => rfl) Iff.rfl

end

end State.CachesHold

/-!
## Events
-/

/-- A reader that has read a size and not yet updated the caches. -/
structure SizeReader where
  rel : RelTag
  version : Version
  nblocks : BlockNumber

/-- A timeline with its modification, and the readers between their two steps. -/
structure CacheSystem where
  state : State
  suspended : List SizeReader

/-- The calls of the modification are taken as a whole; readers update the caches later. -/
inductive CacheEvent where
  | setLsn (lsn : Lsn)
  | create (rel : RelTag) (nblocks : BlockNumber)
  | extend (rel : RelTag) (nblocks : BlockNumber)
  | truncate (rel : RelTag) (nblocks : BlockNumber)
  | drop (dropRelations : DropRelations)
  | dropDbdir (spcnode dbnode : Oid)
  | ingestBatch (batch : SerializedValueBatch) (shard : ShardIdentity)
  | commit
  | ownRelSize (rel : RelTag)
  | readRelSize (rel : RelTag) (effectiveLsn requestLsn : Lsn)
  | updateCache (reader : Nat)
  | evictSnapshot (lsn : Lsn) (rel : RelTag)

namespace CacheSystem

section

variable (sys : CacheSystem)

/-- A call of the modification that returns; one that fails ends the run. -/
def write (op : Op Unit) : Option CacheSystem :=
  match exec op sys.state with
  | (.ok _, s) => some { sys with state := s }
  | (.error _, _) => none

def next : CacheEvent -> Option CacheSystem
  | .setLsn lsn => sys.write (setLsn lsn)
  | .create rel nblocks => sys.write (putRelCreation rel nblocks)
  | .extend rel nblocks => sys.write (putRelExtend rel nblocks)
  | .truncate rel nblocks => sys.write (putRelTruncation rel nblocks)
  | .drop dropRelations => sys.write (putRelDrops dropRelations)
  | .dropDbdir spcnode dbnode => sys.write (dropDbdir spcnode dbnode)
  | .ingestBatch batch shard => sys.write (Datadir.ingestBatch batch shard)
  | .commit => sys.write Datadir.commit
  | .ownRelSize rel => some { sys with state := (exec (getRelSize rel .modified) sys.state).2 }
  | .readRelSize rel effectiveLsn requestLsn =>
    let version : Version := .lsnRange effectiveLsn requestLsn
    match lookupRelSize sys.state rel version none false with
    | .ok (.fetched nblocks) =>
      some { sys with suspended := sys.suspended ++ [⟨rel, version, nblocks⟩] }
    | _ => some sys
  | .updateCache i =>
    match sys.suspended[i]? with
    | some r => some
        { state := sys.state.updateCachedRelSize r.rel r.version r.nblocks
          suspended := sys.suspended.eraseIdx i }
    | none => none
  | .evictSnapshot lsn rel => some { sys with state :=
      { sys.state with tline := { sys.state.tline with
          relSizeSnapshotCache := fun l r =>
            if l = lsn ∧ r = rel then none
            else sys.state.tline.relSizeSnapshotCache l r } } }

def Ahead : Prop :=
  sys.state.tline.lastRecordLsn < sys.state.lsn

/-- The calls of a writer ahead of the timeline and of readers of committed LSNs. -/
def Proper : CacheEvent -> Prop
  | .create _ _ => sys.Ahead
  | .extend _ _ => sys.Ahead
  | .truncate _ _ => sys.Ahead
  | .drop dropRelations => sys.Ahead ∧ dropRelations.Tagged
  | .dropDbdir _ _ => sys.Ahead
  | .ingestBatch _ _ => sys.Ahead
  | .readRelSize _ effectiveLsn _ => effectiveLsn ≤ sys.state.tline.lastRecordLsn
  | _ => True

/-- The steps that leave no entry behind.  Sizes are read, and relations extended, only
where the relation exists.  No relation with a latest entry is dropped from the sparse
directory.  A dropped database has no relations and no latest entries.  A latest reader
fills a vacant entry only if the relation has kept the size that it read. -/
def Clean : CacheEvent -> Prop
  | .extend rel _ => getRelExists sys.state.withoutCaches rel .modified = .ok true
  | .drop dropRelations => sys.state.tline.relSizeV2Status = .migrated ->
      forall rel, rel ∈ dropRelations.tags -> sys.state.cache rel = none
  | .dropDbdir spcnode dbnode =>
    (forall rels, listRels sys.state spcnode dbnode .modified = .ok rels -> rels = []) ∧
    forall rel : RelTag, rel.spcnode = spcnode -> rel.dbnode = dbnode ->
      sys.state.cache rel = none
  | .ownRelSize rel => SizeReadable sys.state rel .modified
  | .readRelSize rel effectiveLsn requestLsn =>
    SizeReadable sys.state rel (.lsnRange effectiveLsn requestLsn)
  | .updateCache i => forall r, sys.suspended[i]? = some r -> r.version.isLatest = true ->
      sys.state.cache r.rel = none -> forall x, r.version.getLsn sys.state ≤ x ->
      x ≤ sys.state.lsn -> sys.state.Present r.rel x r.nblocks
  | _ => True

end

end CacheSystem

/-!
## The invariant
-/

/-- The reader read a committed LSN, and what it read is still there. -/
def SizeReader.Fair (r : SizeReader) (s : State) : Prop :=
  exists effectiveLsn requestLsn, r.version = .lsnRange effectiveLsn requestLsn ∧
    effectiveLsn ≤ s.tline.lastRecordLsn ∧ s.Present r.rel effectiveLsn r.nblocks

theorem SizeReader.Fair.congr {r : SizeReader} {s' : State} (h : r.Fair s)
    (hlast : s.tline.lastRecordLsn ≤ s'.tline.lastRecordLsn)
    (hviews : forall k x, x ≤ s.tline.lastRecordLsn -> s'.viewAt k x = s.viewAt k x)
    (hsparse : forall x, s'.UsesSparse x <-> s.UsesSparse x) : r.Fair s' := by
  rcases h with ⟨effective, request, hversion, hle, hpresent⟩
  exact ⟨effective, request, hversion, hle.trans hlast,
    hpresent.congr (fun k => hviews k _ hle) (hsparse _)⟩

namespace CacheSystem

structure Inv (sys : CacheSystem) : Prop where
  caches : sys.state.CachesHold
  readers : forall r, r ∈ sys.suspended -> r.Fair sys.state

variable {sys sys' : CacheSystem}

variable {op : Op Unit} {lsn : Lsn}

theorem write_eq_some (h : sys.write op = some sys') :
    exists s, exec op sys.state = (.ok (), s) ∧ sys' = { sys with state := s } := by
  unfold write at h
  split at h
  next s heq =>
    cases h
    exact ⟨s, heq, rfl⟩
  · cases h

theorem Inv.write (h : sys.Inv) (hahead : sys.Ahead)
    (hop : Yields op sys.state (fun _ s => CacheMove sys.state s))
    (hnext : sys.write op = some sys') : sys'.Inv := by
  rcases write_eq_some hnext with ⟨s, hexec, rfl⟩
  have hmove : CacheMove sys.state s := Prog.yields_iff.mp hop () s hexec
  refine ⟨h.caches.move hahead hmove, fun r hr => (h.readers r hr).congr ?_ ?_ ?_⟩
  · exact hmove.behind.lastRecordLsn.symm.le
  · exact fun k x hx => hmove.behind.views k x (Nat.lt_of_le_of_lt hx hahead)
  · exact hmove.behind.sparse

theorem Inv.setLsn (h : sys.Inv) (hnext : sys.write (Datadir.setLsn lsn) = some sys') :
    sys'.Inv := by
  rcases write_eq_some hnext with ⟨s, hexec, rfl⟩
  have hset : Yields (Datadir.setLsn lsn) sys.state
      (fun _ s => s = sys.state ∨ sys.state.lsn < lsn ∧ s = sys.state.withLsn lsn) := by
    exact Yields.refuse_bind (fun _ => Yields.onlyIf
      (fun hlt => Yields.modify (.inr ⟨hlt, rfl⟩)) (fun _ => .inl rfl))
  rcases Prog.yields_iff.mp hset () s hexec with rfl | ⟨hlt, rfl⟩
  · exact h
  · exact ⟨h.caches.withLsn hlt.le, fun r hr =>
      (h.readers r hr).congr (Nat.le_refl _) (fun _ _ _ => rfl) (fun _ => Iff.rfl)⟩

theorem Inv.commit (h : sys.Inv) (hnext : sys.write Datadir.commit = some sys') : sys'.Inv := by
  rcases write_eq_some hnext with ⟨s, hexec, rfl⟩
  have hs : s = sys.state.afterCommit := Prog.yields_iff.mp (yields_commit _) () s hexec
  subst hs
  exact ⟨h.caches.afterCommit, fun r hr => (h.readers r hr).congr
    sys.state.lastRecordLsn_afterCommit.1
    (fun k x _ => State.viewAt_afterCommit h.caches.wf k x) (fun _ => Iff.rfl)⟩

theorem Inv.withCaches (h : sys.Inv) {suspended : List SizeReader} (hs : s.CachesHold)
    (hlast : s.tline.lastRecordLsn = sys.state.tline.lastRecordLsn)
    (hviews : forall k x, s.viewAt k x = sys.state.viewAt k x)
    (hsparse : forall x, s.UsesSparse x <-> sys.state.UsesSparse x)
    (hsub : forall r, r ∈ suspended -> r ∈ sys.suspended) :
    Inv { state := s, suspended := suspended } :=
  ⟨hs, fun r hr => (h.readers r (hsub r hr)).congr hlast.symm.le (fun k x _ => hviews k x) hsparse⟩

variable {rel : RelTag}

theorem Inv.ownRelSize (h : sys.Inv) (hreadable : SizeReadable sys.state rel .modified) :
    Inv { sys with state := (exec (getRelSize rel .modified) sys.state).2 } := by
  refine Prog.exec_snd (p := fun s => Inv { sys with state := s }) (Prog.wp_mono
    (wp_getRelSize_here h.caches.wf h.caches.last_le hreadable) ?_ ?_)
  · rintro _ s (rfl | ⟨n, hhere, rfl⟩)
    · exact h
    · have hpresent := (State.here_iff h.caches.wf h.caches.last_le).mp hhere
      refine h.withCaches (h.caches.setCachedRelSize (Nat.le_refl _) (fun x hx hle => ?_)) rfl
        (fun _ _ => rfl) (fun _ => Iff.rfl) (fun _ hr => hr)
      rw [Nat.le_antisymm hle hx]
      exact hpresent
  · rintro _ s rfl
    exact h

theorem Inv.readRelSize (h : sys.Inv) {effectiveLsn requestLsn : Lsn}
    (hle : effectiveLsn ≤ sys.state.tline.lastRecordLsn)
    (hreadable : SizeReadable sys.state rel (.lsnRange effectiveLsn requestLsn))
    (hnext : sys.next (.readRelSize rel effectiveLsn requestLsn) = some sys') : sys'.Inv := by
  unfold next at hnext
  dsimp only at hnext
  split at hnext
  next n hlookup =>
    cases hnext
    refine ⟨h.caches, forall_mem_concat h.readers ?_⟩
    · have hvalid : Version.Valid sys.state (.lsnRange effectiveLsn requestLsn) := hle
      exact ⟨effectiveLsn, requestLsn, rfl, hle, present_of_fetched h.caches.wf
        h.caches.last_le hvalid hlookup hreadable⟩
  · cases hnext
    exact h

theorem Inv.updateCache (h : sys.Inv) {i : Nat} {r : SizeReader} (hr : sys.suspended[i]? = some r)
    (hclean : r.version.isLatest = true -> sys.state.cache r.rel = none ->
      forall x, r.version.getLsn sys.state ≤ x -> x ≤ sys.state.lsn ->
        sys.state.Present r.rel x r.nblocks) :
    Inv { state := sys.state.updateCachedRelSize r.rel r.version r.nblocks
          suspended := sys.suspended.eraseIdx i } := by
  have hsub : forall q, q ∈ sys.suspended.eraseIdx i -> q ∈ sys.suspended :=
    fun q hq => List.mem_of_mem_eraseIdx hq
  rcases h.readers r (List.mem_of_getElem? hr) with ⟨effective, request, hversion, hle, hat⟩
  have hlsn : r.version.getLsn sys.state = effective := by rw [hversion]; rfl
  have hle' : effective ≤ sys.state.lsn := Nat.le_trans hle h.caches.last_le
  rw [hlsn] at hclean
  unfold State.updateCachedRelSize
  dsimp only
  rw [hlsn]
  split
  next hlatest =>
    split
    next l m hcache =>
      split
      next hl =>
        -- the entry holds at the reader's LSN, so it has the size that was read
        have hsize := (h.caches.latest r.rel l m hcache effective hl hle').size
        have hm : m = r.nblocks := Option.some.inj (hsize.symm.trans hat.size)
        refine h.withCaches (h.caches.setCachedRelSize hle' (fun x hx hxle => ?_)) rfl
          (fun _ _ => rfl) (fun _ => Iff.rfl) hsub
        rw [← hm]
        exact h.caches.latest r.rel l m hcache x (Nat.le_trans hl hx) hxle
      · exact h.withCaches h.caches rfl (fun _ _ => rfl) (fun _ => Iff.rfl) hsub
    next hcache =>
      exact h.withCaches (h.caches.setCachedRelSize hle' (hclean hlatest hcache)) rfl
        (fun _ _ => rfl) (fun _ => Iff.rfl) hsub
  · split
    · refine h.withCaches (h.caches.withSnapshots (fun x q n hsnap => ?_)
        (fun x q n hsnap => ?_)) rfl (fun _ _ => rfl) (fun _ => Iff.rfl) hsub
      · split at hsnap
        next heq =>
          rw [heq.1]
          exact hle
        · exact h.caches.snapshot_le x q n hsnap
      · split at hsnap
        next heq =>
          cases hsnap
          rw [heq.1, heq.2]
          exact hat
        · exact h.caches.snapshot x q n hsnap
    · exact h.withCaches h.caches rfl (fun _ _ => rfl) (fun _ => Iff.rfl) hsub

theorem Inv.evictSnapshot (h : sys.Inv) (hnext : sys.next (.evictSnapshot lsn rel) = some sys') :
    sys'.Inv := by
  cases hnext
  refine h.withCaches (h.caches.withSnapshots (fun x r n hsnap => ?_) (fun x r n hsnap => ?_))
    rfl (fun _ _ => rfl) (fun _ => Iff.rfl) (fun _ hr => hr)
  · split at hsnap
    · cases hsnap
    · exact h.caches.snapshot_le x r n hsnap
  · split at hsnap
    · cases hsnap
    · exact h.caches.snapshot x r n hsnap

theorem Inv.next {e : CacheEvent} (h : sys.Inv) (hproper : sys.Proper e)
    (hclean : sys.Clean e) (hnext : sys.next e = some sys') : sys'.Inv := by
  cases e with
  | setLsn lsn => exact h.setLsn hnext
  | create rel nblocks =>
    exact h.write hproper ((cacheMove_putRelCreation h.caches.migrated rel nblocks).mono
      (fun _ _ hmove => hmove.1)) hnext
  | extend rel nblocks =>
    have hvalid : Version.modified.Valid sys.state := trivial
    have hexists := existsAt_of_uncached h.caches.wf h.caches.last_le hvalid
      (uncached_of_withoutCaches hclean)
    have hlisted : sys.state.Listed rel :=
      (State.existsAt_lsn_iff h.caches.wf h.caches.last_le rel).mp hexists
    exact h.write hproper (cacheMove_putRelExtend hlisted nblocks) hnext
  | truncate rel nblocks =>
    exact h.write hproper (cacheMove_putRelTruncation h.caches hproper rel nblocks) hnext
  | drop dropRelations =>
    exact h.write hproper.1 (cacheMove_putRelDrops hproper.2 hclean) hnext
  | dropDbdir spcnode dbnode =>
    exact h.write hproper (cacheMove_dropDbdir hclean.1 hclean.2) hnext
  | ingestBatch batch shard =>
    exact h.write hproper (cacheMove_ingestBatch h.caches hproper batch shard) hnext
  | commit => exact h.commit hnext
  | ownRelSize rel =>
    cases hnext
    exact h.ownRelSize hclean
  | readRelSize rel effectiveLsn requestLsn => exact h.readRelSize hproper hclean hnext
  | updateCache i =>
    unfold CacheSystem.next at hnext
    dsimp only at hnext
    split at hnext
    next r hr =>
      cases hnext
      exact h.updateCache hr (hclean r hr)
    · cases hnext
  | evictSnapshot lsn rel => exact h.evictSnapshot hnext

end CacheSystem

/-!
## Answers
-/

/-- Empty caches, and a modification that is not behind what is committed. -/
structure State.Loaded (s : State) : Prop where
  wf : s.WF
  last_le : s.tline.lastRecordLsn ≤ s.lsn
  pending_le : forall x, x ∈ s.modification.pendingLsns -> x ≤ s.lsn
  migrated : s.tline.relSizeV2Status = .migrated -> s.tline.relSizeMigratedAt.getD 0 ≤ s.lsn
  latest : forall rel, s.cache rel = none
  snapshot : forall x rel, s.tline.relSizeSnapshotCache x rel = none

theorem State.Loaded.cachesHold (h : s.Loaded) : s.CachesHold where
  wf := h.wf
  last_le := h.last_le
  pending_le := h.pending_le
  migrated := fun _ huses => ⟨huses.1, h.migrated huses.1⟩
  latest_le := fun rel _ _ hcache => nomatch (h.latest rel).symm.trans hcache
  latest := fun rel _ _ hcache => nomatch (h.latest rel).symm.trans hcache
  snapshot_le := fun x rel _ hsnap => nomatch (h.snapshot x rel).symm.trans hsnap
  snapshot := fun x rel _ hsnap => nomatch (h.snapshot x rel).symm.trans hsnap

/-- In every run of clean steps, the modification and the readers of committed LSNs get
the answers that they would get with empty caches. -/
theorem size_caches_transparent (s : State) (hloaded : s.Loaded) (sys : CacheSystem)
    (hrun : Reached CacheSystem.next (fun sys e => sys.Proper e ∧ sys.Clean e) ⟨s, []⟩ sys)
    (rel : RelTag) (version : Version) (hvalid : version.Valid sys.state) :
    getRelExists sys.state rel version = getRelExists sys.state.withoutCaches rel version ∧
      (exec (getRelSize rel version) sys.state).1 =
        (exec (getRelSize rel version) sys.state.withoutCaches).1 := by
  have hinv : sys.Inv := hrun.invariant ⟨hloaded.cachesHold, fun _ hr => absurd hr List.not_mem_nil⟩
    (fun _ _ _ h hok hnext => h.next hok.1 hok.2 hnext)
  have hcached : CachedPresent sys.state rel version := hinv.caches.cachedPresent hvalid
  exact ⟨getRelExists_transparent hinv.caches.wf hinv.caches.last_le hvalid hcached,
    getRelSize_transparent hinv.caches.wf hinv.caches.last_le hvalid hcached⟩

/-!
## Sample runs
-/

def emptyTimeline : State :=
  (State.new .unsharded false .legacy 4 8).putMetadata .dbdir ⟨[]⟩

theorem loaded_emptyTimeline : emptyTimeline.Loaded where
  wf := by
    have hnew : (State.new .unsharded false .legacy 4 8).WF :=
      ⟨fun _ => List.Pairwise.nil, fun _ => List.Pairwise.nil, nofun, nofun, nofun⟩
    exact hnew.putMetadata (by decide) .dbdir ⟨[]⟩
  last_le := by decide
  pending_le := nofun
  migrated := nofun
  latest := fun _ => rfl
  snapshot := fun _ _ => rfl

def CacheSystem.after (sys : CacheSystem) (e : CacheEvent) : CacheSystem :=
  (sys.next e).getD sys

variable {ok : CacheSystem -> CacheEvent -> Prop}

theorem reached_after {start sys : CacheSystem} (h : Reached CacheSystem.next ok start sys)
    (e : CacheEvent) (hok : ok sys e) (hnext : (sys.next e).isSome = true) :
    Reached CacheSystem.next ok start (sys.after e) := by
  rcases Option.isSome_iff_exists.mp hnext with ⟨sys', heq⟩
  refine h.step e hok ?_
  unfold CacheSystem.after
  rw [heq]
  rfl

def cachedTable : RelTag :=
  ⟨MAIN_FORKNUM, 1663, 5, 16384⟩

def tableCommitted : CacheSystem :=
  [.create cachedTable 1, .commit, .setLsn 16].foldl CacheSystem.after ⟨emptyTimeline, []⟩

theorem reached_tableCommitted (hcreate : ok ⟨emptyTimeline, []⟩ (.create cachedTable 1))
    (hother : forall sys, ok sys .commit ∧ ok sys (.setLsn 16)) :
    Reached CacheSystem.next ok ⟨emptyTimeline, []⟩ tableCommitted := by
  have hcreated := reached_after .start (.create cachedTable 1) hcreate (by decide +kernel)
  have hcommitted := reached_after hcreated .commit (hother _).1 (by decide +kernel)
  exact reached_after hcommitted (.setLsn 16) (hother _).2 (by decide +kernel)

/-- The table is extended, and while a reader of the first record is between its two steps
the table is dropped. -/
def tableDroppedUnderReader : List CacheEvent :=
  [.extend cachedTable 2, .commit, .readRelSize cachedTable 8 8, .setLsn 24,
    .drop [((1663, 5), [cachedTable])], .updateCache 0]

theorem size_caches_transparent_after_drop :
    let sys := tableDroppedUnderReader.foldl CacheSystem.after tableCommitted
    sys.state.tline.relSizeSnapshotCache 8 cachedTable = some 1 ∧
      getRelExists sys.state cachedTable .modified = .ok false ∧
      forall version, version.Valid sys.state ->
        getRelExists sys.state cachedTable version =
          getRelExists sys.state.withoutCaches cachedTable version ∧
        (exec (getRelSize cachedTable version) sys.state).1 =
          (exec (getRelSize cachedTable version) sys.state.withoutCaches).1 := by
  refine ⟨by decide +kernel, by decide +kernel, fun version hvalid =>
    size_caches_transparent emptyTimeline loaded_emptyTimeline _ ?_ cachedTable version hvalid⟩
  have h0 : Reached CacheSystem.next (fun sys e => sys.Proper e ∧ sys.Clean e)
      ⟨emptyTimeline, []⟩ tableCommitted :=
    reached_tableCommitted ⟨Nat.lt_of_sub_ne_zero (by decide +kernel), trivial⟩
      (fun _ => ⟨⟨trivial, trivial⟩, trivial, trivial⟩)
  have hexists : getRelExists tableCommitted.state.withoutCaches cachedTable .modified =
      .ok true := by decide +kernel
  have h1 := reached_after h0 (.extend cachedTable 2)
    ⟨Nat.lt_of_sub_ne_zero (by decide +kernel), hexists⟩ (by decide +kernel)
  have h2 := reached_after h1 .commit ⟨trivial, trivial⟩ (by decide +kernel)
  have h3 := reached_after h2 (.readRelSize cachedTable 8 8)
    ⟨Nat.le_of_sub_eq_zero (by decide +kernel),
      Or.inr (show getRelExists _ cachedTable (.lsnRange 8 8) = .ok true by decide +kernel)⟩
    (by decide +kernel)
  have h4 := reached_after h3 (.setLsn 24) ⟨trivial, trivial⟩ (by decide +kernel)
  have h5 := reached_after h4 (.drop [((1663, 5), [cachedTable])])
    ⟨⟨Nat.lt_of_sub_ne_zero (by decide +kernel), by unfold DropRelations.Tagged; decide⟩,
      fun hstatus => absurd hstatus (by decide +kernel)⟩ (by decide +kernel)
  refine reached_after h5 (.updateCache 0) ⟨trivial, fun r hr hlatest => ?_⟩ (by decide +kernel)
  have hold := congrArg (Option.map (fun r => r.version.isLatest)) hr
  rw [Option.map_some, hlatest] at hold
  exact absurd hold (by decide +kernel)

/-- For the modification the relation exists by its latest entry; it is not in the store. -/
theorem dropped_database_still_cached :
    emptyTimeline.Loaded ∧ exists sys : CacheSystem,
      Reached CacheSystem.next CacheSystem.Proper ⟨emptyTimeline, []⟩ sys ∧
      getRelExists sys.state cachedTable .modified = .ok true ∧
      getRelExists sys.state.withoutCaches cachedTable .modified = .ok false := by
  refine ⟨loaded_emptyTimeline, tableCommitted.after (.dropDbdir 1663 5), ?_, by decide +kernel,
    by decide +kernel⟩
  refine reached_after (reached_tableCommitted ?_ ?_) (.dropDbdir 1663 5) ?_ (by decide +kernel)
  · exact Nat.lt_of_sub_ne_zero (by decide +kernel)
  · exact fun _ => ⟨trivial, trivial⟩
  · exact Nat.lt_of_sub_ne_zero (by decide +kernel)

end Datadir
end Pageserver
end OpenNeon

import OpenNeon.Base.Run
import OpenNeon.Scrubber.PhysicalGc

/-!
# What physical garbage collection deletes

A deleted layer must not be referred to by the newest index of any shard that the tenant
has, and a deleted index must be more than one generation old.  The first holds as long
as every index that refers to layers of other shards can be read: an index that cannot
be read is skipped, while its shard counts as seen if another of its timelines can.
-/

namespace OpenNeon
namespace Scrubber

open Pageserver (Generation ShardIndex LayerName IndexPart RemoteLayerPath)
open Base Prog List
open Prog (Maintains wp wp_bind wp_pure)

/-!
## The newest index
-/

/-- The index of the highest generation among the objects of a timeline. -/
structure HighestIndex (blobs : List Blob) (blob : Blob) (g : Generation) : Prop where
  mem : blob ∈ blobs
  generation : blob.listing.key.generation = some g
  highest : forall other, other ∈ blobs -> forall g',
    other.listing.key.generation = some g' -> g'.rank <= g.rank

/-- The newest index of a timeline lists the layer at a path. -/
def References (b : Bucket) (ttid : TenantShardTimelineId) (path : RemoteLayerPath) : Prop :=
  exists blob generation, HighestIndex (b.blobs ttid) blob generation ∧
    blob.content.Lists path

/-- Every index key is one that a page server gives to an index. -/
def Named (blobs : List Blob) : Prop :=
  forall blob, blob ∈ blobs -> forall name suffix,
    blob.listing.key = .index name suffix -> name = remoteIndexName suffix

def ofSuffix : Option UInt32 -> Generation
  | none => .none
  | some g => .valid g

theorem rank_injective {a b : Generation} (h : a.rank = b.rank) : a = b := by
  cases a <;> cases b <;> simp_all [Generation.rank, UInt32.toNat_inj]

theorem ofSuffix_injective {a b : Option UInt32} (h : ofSuffix a = ofSuffix b) : a = b := by
  cases a <;> cases b <;> simp_all [ofSuffix]

namespace ObjectKey

variable {key : ObjectKey}

theorem eq_index_of_generation (h : key.generation = some g) :
    exists name, key = .index name key.suffix ∧ g = ofSuffix key.suffix := by
  cases key with
  | index name suffix =>
    cases suffix with
    | none =>
      have hif : (if name = indexFileName then some .none else none) = some g := h
      obtain ⟨-, heq⟩ := Option.ite_none_right_eq_some.mp hif
      cases heq
      exact ⟨name, rfl, rfl⟩
    | some n =>
      cases h
      exact ⟨name, rfl, rfl⟩
  | _ => cases h

theorem generation_of_suffix {n : UInt32} (h : key.suffix = some n) :
    key.generation = some (.valid n) := by
  cases key with
  | index name suffix =>
    cases h
    rfl
  | _ => cases h

end ObjectKey

variable {blobs : List Blob} {obj : ListingObject} {g latest : Generation} {blob : Blob}
  {index : IndexPart} {n t : Nat} {s' : Scrub} {id : TenantShardId}
  {tenantId : TenantId}

theorem mem_indexPartKeys :
    obj ∈ indexPartKeys blobs <->
      (exists blob, blob ∈ blobs ∧ blob.listing = obj) ∧ obj.key.isIndex = true := by
  simp [indexPartKeys]

theorem listing_mem_indexPartKeys (h : blob ∈ blobs)
    (hg : blob.listing.key.generation = some g) : blob.listing ∈ indexPartKeys blobs := by
  obtain ⟨name, hkey, -⟩ := ObjectKey.eq_index_of_generation hg
  exact mem_indexPartKeys.mpr ⟨⟨blob, h, rfl⟩, by rw [hkey]; rfl⟩

variable {keys : List ListingObject} {b : Bucket} {layers : List (LayerName × Generation)}
  {data : RemoteTimelineBlobData} {post : Moment -> Scrub -> Prop} {key : ObjectKey}
  {path : RemoteLayerPath} {tenants : List TenantShardId} {w : World}
  {ttid : TenantShardTimelineId} {s : Scrub}

theorem selectIndexPart_spec (h : selectIndexPart keys = some (obj, g)) :
    obj ∈ keys ∧ g = ofSuffix obj.key.suffix ∧
      forall k, k ∈ keys -> (ofSuffix k.key.suffix).rank <= g.rank := by
  have hsuffixed : forall k n, (k, n) ∈ (keys.filterMap withSuffix).reverse <->
      k ∈ keys ∧ k.key.suffix = some n := by
    intro k n
    simp only [mem_reverse, mem_filterMap, withSuffix, Option.map_eq_some_iff, Prod.mk.injEq]
    constructor
    · rintro ⟨_, hk, m, hm, rfl, rfl⟩
      exact ⟨hk, hm⟩
    · rintro ⟨hk, hm⟩
      exact ⟨k, hk, n, hm, rfl, rfl⟩
  unfold selectIndexPart at h
  cases hmax : (keys.filterMap withSuffix).reverse.argmax (fun k => k.2.toNat) with
  | some best =>
    rw [hmax] at h
    cases h
    obtain ⟨hmem, hn⟩ := (hsuffixed best.1 best.2).mp (argmax_mem hmax)
    refine ⟨hmem, by rw [hn]; rfl, fun k hk => ?_⟩
    cases hsuffix : k.key.suffix with
    | none => exact Nat.zero_le _
    | some m =>
      have hle := le_of_mem_argmax ((hsuffixed k m).mpr ⟨hk, hsuffix⟩) (Option.mem_def.mpr hmax)
      exact Nat.succ_le_succ hle
  | none =>
    rw [hmax] at h
    have hnone : forall k, k ∈ keys -> k.key.suffix = none := by
      intro k hk
      cases hsuffix : k.key.suffix with
      | none => rfl
      | some m =>
        have hk' := (hsuffixed k m).mpr ⟨hk, hsuffix⟩
        rw [argmax_eq_none.mp hmax] at hk'
        cases hk'
    obtain ⟨last, hlast, heq⟩ := Option.map_eq_some_iff.mp h
    cases heq
    have hmem := mem_of_getLast? hlast
    refine ⟨hmem, by rw [hnone _ hmem]; rfl, fun k hk => ?_⟩
    rw [hnone k hk]
    exact Nat.le_refl _

theorem selectIndexPart_eq_none (h : selectIndexPart keys = none) : keys = [] := by
  unfold selectIndexPart at h
  split at h
  · cases h
  · simpa using h

theorem HighestIndex.selected (h : HighestIndex blobs blob g) (hnamed : Named blobs)
    (hdistinct : (blobs.map (fun b => b.listing.key)).Nodup) :
    selectIndexPart (indexPartKeys blobs) = some (blob.listing, g) := by
  obtain ⟨name, hkey, hg⟩ := ObjectKey.eq_index_of_generation h.generation
  have hin := listing_mem_indexPartKeys h.mem h.generation
  cases hselect : selectIndexPart (indexPartKeys blobs) with
  | none =>
    rw [selectIndexPart_eq_none hselect] at hin
    cases hin
  | some best =>
    obtain ⟨obj, g'⟩ := best
    obtain ⟨hobj, hg', hmax⟩ := selectIndexPart_spec hselect
    obtain ⟨⟨other, hother, rfl⟩, hindex⟩ := mem_indexPartKeys.mp hobj
    have hle : g'.rank <= g.rank := by
      cases hsuffix : other.listing.key.suffix with
      | none =>
        rw [hg', hsuffix]
        exact Nat.zero_le _
      | some n =>
        rw [hg', hsuffix]
        exact h.highest other hother _ (ObjectKey.generation_of_suffix hsuffix)
    have hge : g.rank <= g'.rank := hg ▸ hmax _ hin
    have hsuffix : other.listing.key.suffix = blob.listing.key.suffix :=
      ofSuffix_injective (by
        rw [← hg', ← hg]
        exact rank_injective (Nat.le_antisymm hle hge))
    have hkeys : other.listing.key = blob.listing.key := by
      cases hother' : other.listing.key with
      | index name' suffix' =>
        have hname' := hnamed other hother name' suffix' hother'
        have hname := hnamed blob h.mem name _ hkey
        rw [hother'] at hsuffix
        rw [hkey, hname, hname', ← hsuffix]
        rfl
      | _ =>
        rw [hother'] at hindex
        cases hindex
    rw [inj_on_of_nodup_map hdistinct hother h.mem hkeys, hg, hg', hsuffix]

theorem Bucket.distinct_blobs (b : Bucket) (ttid : TenantShardTimelineId) :
    ((b.blobs ttid).map (fun blob => blob.listing.key)).Nodup := by
  unfold Bucket.blobs
  split
  next dir _ => exact dir.distinct
  · exact nodup_nil

theorem Bucket.exists_directory (h : blob ∈ b.blobs ttid) :
    exists dir, dir ∈ b ∧ dir.id = ttid ∧ blob ∈ dir.blobs := by
  unfold Bucket.blobs at h
  split at h
  next dir hdir =>
    exact ⟨dir, mem_of_find?_eq_some hdir, by simpa using find?_some hdir, h⟩
  · cases h

theorem Bucket.mem_timelines_of_blob (h : blob ∈ b.blobs ttid) :
    ttid ∈ b.timelines ttid.tenantShardId := by
  obtain ⟨dir, hdir, rfl, -⟩ := Bucket.exists_directory h
  exact mem_filter.mpr ⟨mem_map_of_mem hdir, by simp⟩

/-!
## What a listing yields
-/

/-- The outcome of a listing at some moment and of the download after it, and the moment
that follows. -/
def parseAt (w : World) (ttid : TenantShardTimelineId) (t : Nat) :
    ListTimelineBlobsResult × Nat :=
  match selectIndexPart (indexPartKeys ((w.moment t).bucket.blobs ttid)) with
  | none => (.ready ⟨.relic, indexPartKeys ((w.moment t).bucket.blobs ttid)⟩, t + 1)
  | some (selected, generation) =>
    (parseBlobs ((w.moment t).bucket.blobs ttid) selected generation
      ((w.moment (t + 1)).fetch ttid selected.key), t + 2)

theorem lt_parseAt (w : World) (ttid : TenantShardTimelineId) (t : Nat) :
    t < (parseAt w ttid t).2 := by
  unfold parseAt
  split
  · exact Nat.lt_succ_self t
  · exact Nat.lt_add_of_pos_right (by decide)

theorem parseAt_parsed (h : (parseAt w ttid t).1.intoData.blobData = .parsed index g layers) :
    exists obj, selectIndexPart (indexPartKeys ((w.moment t).bucket.blobs ttid)) =
      some (obj, g) := by
  unfold parseAt at h
  split at h
  · cases h
  next obj generation hselect =>
    unfold parseBlobs at h
    split at h
    · cases h
      exact ⟨obj, hselect⟩
    · cases h
    · cases h

theorem mem_unusedIndexKeys (h : obj ∈ (parseAt w ttid t).1.intoData.unusedIndexKeys) :
    obj ∈ indexPartKeys ((w.moment t).bucket.blobs ttid) := by
  unfold parseAt at h
  split at h
  · exact h
  · unfold parseBlobs at h
    split at h <;> exact (mem_filter.mp h).1

theorem parseAt_highest {n : UInt32}
    (h : (parseAt w ttid t).1.intoData.blobData = .parsed index (.valid n) layers) :
    exists blob, HighestIndex ((w.moment t).bucket.blobs ttid) blob (.valid n) := by
  obtain ⟨obj, hselect⟩ := parseAt_parsed h
  obtain ⟨hobj, hg, hmax⟩ := selectIndexPart_spec hselect
  obtain ⟨⟨blob, hblob, rfl⟩, -⟩ := mem_indexPartKeys.mp hobj
  have hsuffix : blob.listing.key.suffix = some n := ofSuffix_injective hg.symm
  refine ⟨blob, hblob, ObjectKey.generation_of_suffix hsuffix, ?_⟩
  intro other hother g hgen
  obtain ⟨name, hkey, rfl⟩ := ObjectKey.eq_index_of_generation hgen
  exact hmax other.listing (listing_mem_indexPartKeys hother hgen)

theorem parseAt_of_highest (h : HighestIndex ((w.moment t).bucket.blobs ttid) blob g)
    (hnamed : Named ((w.moment t).bucket.blobs ttid)) :
    parseAt w ttid t = (parseBlobs ((w.moment t).bucket.blobs ttid) blob.listing g
      ((w.moment (t + 1)).fetch ttid blob.listing.key), t + 2) := by
  unfold parseAt
  rw [h.selected hnamed (Bucket.distinct_blobs _ _)]

/-- The data of a timeline, listed at one moment and, if the index is missing, once more. -/
inductive Attempt (w : World) (ttid : TenantShardTimelineId) (n : Nat) :
    Nat -> RemoteTimelineBlobData -> Prop where
  | first (data : RemoteTimelineBlobData) (h : (parseAt w ttid n).1 = .ready data) :
      Attempt w ttid n n data
  | second (missing : RemoteTimelineBlobData)
      (h : (parseAt w ttid n).1 = .missingIndexPart missing) :
      Attempt w ttid n (parseAt w ttid n).2 (parseAt w ttid (parseAt w ttid n).2).1.intoData

theorem Attempt.data_eq (h : Attempt w ttid n t data) :
    n <= t ∧ data = (parseAt w ttid t).1.intoData := by
  cases h with
  | first data h => exact ⟨Nat.le_refl n, by rw [h]; rfl⟩
  | second missing h => exact ⟨(lt_parseAt w ttid n).le, rfl⟩

theorem wp_operation :
    wp (operation w) post fail s <->
      post (w.moment s.moment) { s with moment := s.moment + 1 } :=
  Iff.rfl

theorem wp_list (hpost : post (w.moment s.moment) { s with moment := s.moment + 1 })
    (hfail : forall e, fail e { s with moment := s.moment + 1 }) :
    wp (list w) post fail s := by
  refine wp_bind.mpr (wp_operation.mpr (wp_ite.mpr ?_))
  split
  · exact hpost
  · exact hfail _

theorem wp_listTimelineBlobsImpl {post : ListTimelineBlobsResult -> Scrub -> Prop}
    (hpost : post (parseAt w ttid s.moment).1 { s with moment := (parseAt w ttid s.moment).2 })
    (hfail : forall e t, fail e { s with moment := t }) :
    wp (listTimelineBlobsImpl w ttid) post fail s := by
  refine wp_bind.mpr (wp_list ?_ (fun e => hfail e _))
  unfold parseAt at hpost
  split at hpost
  next hselect =>
    dsimp only
    rw [hselect]
    exact wp_pure.mpr hpost
  next selected generation hselect =>
    dsimp only
    rw [hselect]
    exact wp_bind.mpr (wp_operation.mpr (wp_pure.mpr hpost))

theorem wp_listTimelineBlobs {post : RemoteTimelineBlobData -> Scrub -> Prop}
    (hpost : forall t data, Attempt w ttid s.moment t data ->
      post data { s with moment := (parseAt w ttid t).2 })
    (hfail : forall e t, fail e { s with moment := t }) :
    wp (listTimelineBlobs w ttid) post fail s := by
  refine wp_bind.mpr (wp_listTimelineBlobsImpl ?_ hfail)
  cases hparse : (parseAt w ttid s.moment).1 with
  | ready data => exact wp_pure.mpr (hpost _ data (.first data hparse))
  | missingIndexPart missing =>
    refine wp_bind.mpr (wp_listTimelineBlobsImpl ?_ hfail)
    exact wp_pure.mpr (hpost _ _ (.second missing hparse))

/-!
## What must not be deleted
-/

def Current (w : World) (id : TenantShardId) : Prop :=
  exists shards, w.describe id.tenantId = some shards ∧
    id.shard ∈ shards.map ShardDescription.shard

/-- Meanwhile the current shards only drop references to layers of other shards. -/
def OnlyDrops (w : World) : Prop :=
  forall id, Current w id -> forall timelineId (path : RemoteLayerPath),
    path.shard ≠ id.shard -> forall t t', t <= t' ->
      References (w.moment t').bucket ⟨id, timelineId⟩ path ->
        References (w.moment t).bucket ⟨id, timelineId⟩ path

/-- No index of a current shard of the tenant refers to a deleted layer.  The path of a
layer names its timeline, so only the indices of that timeline can refer to it. -/
def Unreferenced (w : World) (d : Deletion) : Prop :=
  forall name generation, d.key = .layer name generation ->
    exists shards, w.describe d.id.tenantShardId.tenantId = some shards ∧
      forall shard, shard ∈ shards.map ShardDescription.shard ->
        ¬ References (w.moment d.moment).bucket
          ⟨⟨d.id.tenantShardId.tenantId, shard⟩, d.id.timelineId⟩
          ⟨d.id.tenantShardId.shard, name, generation⟩

/-- A deleted index is neither of the highest generation nor of the one before, when
it is listed and as long as the highest generation does not go down. -/
def Outdated (w : World) (d : Deletion) : Prop :=
  forall g, d.key.generation = some g ->
    exists t blob latest, t <= d.moment ∧
      HighestIndex ((w.moment t).bucket.blobs d.id) blob latest ∧
      forall later, latest.rank <= later.rank -> g ≠ later ∧ g ≠ later.previous

def Safe (w : World) (s : Scrub) : Prop :=
  forall d, d ∈ s.deleted -> Unreferenced w d ∧ Outdated w d

/-- The index that is the newest at a listing can be read after it, and then lists what
the newest index lists of other shards. -/
def Reads (w : World) (ttid : TenantShardTimelineId) (t : Nat) : Prop :=
  forall blob g, HighestIndex ((w.moment t).bucket.blobs ttid) blob g ->
    exists index, (w.moment (t + 1)).fetch ttid blob.listing.key = .parsed index ∧
      forall path, path.shard ≠ ttid.tenantShardId.shard ->
        References (w.moment (t + 1)).bucket ttid path -> index.Lists path

def Misses (w : World) (ttid : TenantShardTimelineId) (t : Nat) : Prop :=
  forall blob g, HighestIndex ((w.moment t).bucket.blobs ttid) blob g ->
    (w.moment (t + 1)).fetch ttid blob.listing.key = .failed

/-- Every index of a current shard that refers to layers of other shards can be read,
at the second attempt at the latest, and has the name page servers give it; no timeline
has both a legacy index and generation 0 as its highest. -/
structure Legible (w : World) : Prop where
  named : forall t ttid, Current w ttid.tenantShardId -> Named ((w.moment t).bucket.blobs ttid)
  read : forall t ttid path, Current w ttid.tenantShardId ->
    path.shard ≠ ttid.tenantShardId.shard -> References (w.moment t).bucket ttid path ->
      Reads w ttid t ∨ Misses w ttid t ∧ Reads w ttid (t + 2)
  numbered : forall t ttid blob other,
    HighestIndex ((w.moment t).bucket.blobs ttid) blob (.valid 0) ->
      other ∈ (w.moment t).bucket.blobs ttid -> other.listing.key.generation ≠ some .none

/-- All references to other shards at some moment are in what was read. -/
def Noted (w : World) (ttid : TenantShardTimelineId) (t : Nat)
    (data : RemoteTimelineBlobData) : Prop :=
  forall path, path.shard ≠ ttid.tenantShardId.shard ->
    References (w.moment t).bucket ttid path ->
      exists index g layers, data.blobData = .parsed index g layers ∧ index.Lists path

theorem Reads.noted (h : Reads w ttid t) (hnamed : Named ((w.moment t).bucket.blobs ttid)) :
    exists t', t' < (parseAt w ttid t).2 ∧ Noted w ttid t' (parseAt w ttid t).1.intoData := by
  by_cases hsome : exists blob g, HighestIndex ((w.moment t).bucket.blobs ttid) blob g
  · obtain ⟨blob, g, hhighest⟩ := hsome
    obtain ⟨index, hfetch, hlists⟩ := h blob g hhighest
    rw [parseAt_of_highest hhighest hnamed, hfetch]
    exact ⟨t + 1, Nat.lt_succ_self _, fun path hshard href =>
      ⟨index, g, _, rfl, hlists path hshard href⟩⟩
  · refine ⟨t, lt_parseAt w ttid t, ?_⟩
    rintro path - ⟨blob, g, hhighest, -⟩
    exact absurd ⟨blob, g, hhighest⟩ hsome

theorem Attempt.lists (h : Legible w) (hcurrent : Current w ttid.tenantShardId)
    (hattempt : Attempt w ttid n t data) :
    exists t', t' < (parseAt w ttid t).2 ∧ Noted w ttid t' data := by
  by_cases hsome : exists path, path.shard ≠ ttid.tenantShardId.shard ∧
      References (w.moment n).bucket ttid path
  · obtain ⟨path, hshard, href⟩ := hsome
    obtain ⟨blob, g, hhighest, -⟩ := id href
    have hparse := parseAt_of_highest hhighest (h.named n ttid hcurrent)
    -- which attempt it was is known from the first download
    rcases h.read n ttid path hcurrent hshard href with hn | ⟨hn, hnext⟩
    · obtain ⟨index, hfetch, -⟩ := hn blob g hhighest
      cases hattempt with
      | first data hready =>
        obtain ⟨t', ht', hnoted⟩ := hn.noted (h.named n ttid hcurrent)
        rw [hready] at hnoted
        exact ⟨t', ht', hnoted⟩
      | second missing hmissing =>
        rw [hparse, hfetch] at hmissing
        cases hmissing
    · rw [hn blob g hhighest] at hparse
      cases hattempt with
      | first data hready =>
        rw [hparse] at hready
        cases hready
      | second missing hmissing =>
        rw [hparse]
        exact hnext.noted (h.named (n + 2) ttid hcurrent)
  · exact ⟨n, Nat.lt_of_le_of_lt hattempt.data_eq.1 (lt_parseAt w ttid t),
      fun path hshard href => absurd ⟨path, hshard, href⟩ hsome⟩

/-!
## Indices
-/

theorem ne_of_outdated {later : Generation} (hlt : g.rank < latest.rank)
    (hnext : g.next ≠ latest) (hzero : latest = .valid 0 -> g ≠ .none)
    (hlater : latest.rank <= later.rank) : g ≠ later ∧ g ≠ later.previous := by
  constructor
  · rintro rfl
    omega
  · rintro rfl
    cases later with
    | none => exact absurd hlater (Nat.not_le_of_lt hlt)
    | valid m =>
      by_cases hm : m = 0
      · subst hm
        have hlatest : latest = .valid 0 :=
          rank_injective (Nat.le_antisymm hlater (Nat.succ_le_of_lt hlt))
        exact hzero hlatest rfl
      · have hprevious : (Generation.valid m).previous = .valid (m - 1) := if_neg hm
        rw [hprevious] at hlt hnext
        have hpos : 0 < m.toNat := by
          rw [Nat.pos_iff_ne_zero]
          exact fun h => hm (UInt32.toNat_inj.mp h)
        have hrank : (Generation.valid (m - 1)).rank = m.toNat := by
          have hsub : (m - 1).toNat = m.toNat - 1 :=
            UInt32.toNat_sub_of_le _ _ (UInt32.le_iff_toNat_le.mpr hpos)
          rw [Generation.rank, hsub]
          exact Nat.sub_add_cancel hpos
        have hlatest : latest = .valid m :=
          rank_injective (Nat.le_antisymm hlater (Nat.succ_le_of_lt (hrank ▸ hlt)))
        apply hnext
        rw [hlatest, Generation.next, UInt32.sub_add_cancel]

/-- What a program may change while it deletes. -/
structure Later (s s' : Scrub) : Prop where
  moment : s.moment <= s'.moment
  seen : s'.shardsSeen = s.shardsSeen
  refs : s'.ancestorRefs = s.ancestorRefs

instance instReflLater : Std.Refl Later :=
  ⟨fun _ => ⟨Nat.le_refl _, rfl, rfl⟩⟩

/-- Since some state, only deletions have been made, and safe ones. -/
def Deleting (w : World) (s₀ s : Scrub) : Prop :=
  Safe w s ∧ Later s₀ s

variable {s₀ : Scrub} {fail : GcError -> Scrub -> Prop} {minAge : Nat} {mode : GcMode}

theorem Deleting.start (h : Safe w s) : Deleting w s s :=
  ⟨h, refl s⟩

theorem Deleting.advance (h : Deleting w s₀ s) (ht : s.moment <= t) :
    Deleting w s₀ { s with moment := t } :=
  ⟨h.1, h.2.moment.trans ht, h.2.seen, h.2.refs⟩

theorem deleting_operation : Maintains (Deleting w s₀) fail (operation w) :=
  fun _ hs => hs.advance (Nat.le_succ _)

theorem deleting_tally {f : GcSummary -> GcSummary} : Maintains (Deleting w s₀) fail (tally f) :=
  fun _ hs => ⟨hs.1, hs.2.moment, hs.2.seen, hs.2.refs⟩

theorem deleting_isOldEnough {now : Nat} :
    Maintains (Deleting w s₀) fail (isOldEnough minAge now obj) :=
  .ite (fun _ => .bind deleting_tally (fun _ => .pure false)) (fun _ => .pure _)

theorem deleting_delete {done : GcSummary -> GcSummary} (hkey : forall n, s₀.moment <= n ->
      Unreferenced w ⟨n, ttid, key⟩ ∧ Outdated w ⟨n, ttid, key⟩) :
    Maintains (Deleting w s₀) fail (delete w ttid key done) := by
  refine .bind (.modify (fun s hs => ?_))
    (fun _ => .bind deleting_operation (fun _ => deleting_tally))
  exact ⟨forall_mem_concat hs.1 (hkey _ hs.2.moment), hs.2.moment, hs.2.seen, hs.2.refs⟩

/-- What has to hold of the newest generation that a candidate is compared with. -/
def Newest (w : World) (ttid : TenantShardTimelineId) (t : Nat) (latest : Generation) : Prop :=
  forall n, latest = .valid n ->
    exists blob, HighestIndex ((w.moment t).bucket.blobs ttid) blob latest

theorem safe_index (h : Legible w) (hlatest : Newest w ttid t latest)
    (hobj : obj ∈ indexPartKeys ((w.moment t).bucket.blobs ttid))
    (hgen : obj.key.generation = some g) (hrank : g.rank < latest.rank)
    (hnext : g.next ≠ latest) (ht : t <= n) :
    Unreferenced w ⟨n, ttid, obj.key⟩ ∧ Outdated w ⟨n, ttid, obj.key⟩ := by
  constructor
  · intro name generation hkey
    have hlayer : obj.key = .layer name generation := hkey
    rw [hlayer] at hgen
    cases hgen
  · intro g' hg'
    cases hgen.symm.trans hg'
    cases latest with
    | none => cases hrank
    | valid m =>
      obtain ⟨blob, hhighest⟩ := hlatest m rfl
      refine ⟨t, blob, .valid m, ht, hhighest, fun later hlater => ?_⟩
      refine ne_of_outdated hrank hnext (fun hzero hnone => ?_) hlater
      obtain ⟨⟨other, hother, hlisting⟩, -⟩ := mem_indexPartKeys.mp hobj
      refine h.numbered t ttid blob other (hzero ▸ hhighest) hother ?_
      rw [hlisting, hgen, hnone]

theorem deleting_maybeDeleteIndex (h : Legible w) (ht : t <= s₀.moment)
    (hlatest : Newest w ttid t latest)
    (hobj : obj ∈ indexPartKeys ((w.moment t).bucket.blobs ttid)) :
    Maintains (Deleting w s₀) fail (maybeDeleteIndex w minAge latest ttid mode obj) := by
  unfold maybeDeleteIndex
  cases hgen : obj.key.generation with
  | none => exact .pure ()
  | some g =>
    refine .ite (fun _ => .pure ()) (fun hrank => .ite (fun _ => .pure ()) (fun hnext => ?_))
    refine .bind deleting_operation (fun _ => .bind deleting_isOldEnough (fun _ => ?_))
    refine .ite (fun _ => deleting_delete (fun n hn => ?_)) (fun _ => .pure ())
    exact safe_index h hlatest hobj hgen (Nat.lt_of_not_le hrank) hnext (ht.trans hn)

/-!
## The scan

The references in the index of a timeline, as it was at some moment, are all noted.
-/

def Covered (w : World) (ttid : TenantShardTimelineId) (s : Scrub) : Prop :=
  Current w ttid.tenantShardId -> exists t, t < s.moment ∧
    forall path, path.shard ≠ ttid.tenantShardId.shard ->
      References (w.moment t).bucket ttid path ->
        (ttid.asTenantTimelineId, path.shard, path.name) ∈ s.ancestorRefs

structure Beyond (s s' : Scrub) : Prop where
  moment : s.moment <= s'.moment
  refs : s.ancestorRefs ⊆ s'.ancestorRefs

instance instReflBeyond : Std.Refl Beyond :=
  ⟨fun _ => ⟨Nat.le_refl _, List.Subset.refl _⟩⟩

instance instIsTransBeyond : IsTrans Scrub Beyond :=
  ⟨fun _ _ _ h h' => ⟨h.moment.trans h'.moment, List.Subset.trans h.refs h'.refs⟩⟩

theorem Later.beyond (h : Later s s') : Beyond s s' :=
  ⟨h.moment, fun _ hr => h.refs ▸ hr⟩

theorem Covered.beyond (h : Covered w ttid s) (hs' : Beyond s s') : Covered w ttid s' := by
  intro hcurrent
  obtain ⟨t, ht, hrefs⟩ := h hcurrent
  exact ⟨t, Nat.lt_of_lt_of_le ht hs'.moment,
    fun path hshard href => hs'.refs (hrefs path hshard href)⟩

/-- While the scan goes on, only shards to be scanned have been seen. -/
def Scanning (w : World) (tenants : List TenantShardId) (s : Scrub) : Prop :=
  Safe w s ∧ forall id, id ∈ s.shardsSeen -> id ∈ tenants

theorem mem_update (hlists : index.Lists path) (hshard : path.shard ≠ ttid.tenantShardId.shard) :
    (ttid.asTenantTimelineId, path.shard, path.name) ∈ (s.update ttid index).ancestorRefs := by
  obtain ⟨metadata, hlookup, hpath⟩ := hlists
  have hmetadata : metadata.shard = path.shard := congrArg RemoteLayerPath.shard hpath
  refine mem_append_right _ (mem_map.mpr ⟨(path.name, metadata), ?_, ?_⟩)
  · obtain ⟨front, back, heq, -⟩ := lookup_eq_some_iff.mp hlookup
    refine mem_filter.mpr ⟨by simp [heq], ?_⟩
    simpa [hmetadata] using hshard
  · rw [← hmetadata]

section

variable (hlists : Current w ttid.tenantShardId -> exists t, t < s.moment ∧ Noted w ttid t data)
include hlists

theorem covered_of_unparsed (h : forall index g layers, data.blobData ≠ .parsed index g layers) :
    Covered w ttid s := by
  intro hcurrent
  obtain ⟨t, ht, hnoted⟩ := hlists hcurrent
  refine ⟨t, ht, fun path hshard href => ?_⟩
  obtain ⟨index, g, layers, hparsed, -⟩ := hnoted path hshard href
  exact absurd hparsed (h index g layers)

theorem covered_update {layers : List (LayerName × Generation)}
    (h : data.blobData = .parsed index g layers) : Covered w ttid (s.update ttid index) := by
  intro hcurrent
  obtain ⟨t, ht, hnoted⟩ := hlists hcurrent
  refine ⟨t, ht, fun path hshard href => ?_⟩
  obtain ⟨index', g', layers', hparsed, hlisted⟩ := hnoted path hshard href
  rw [h] at hparsed
  cases hparsed
  exact mem_update hlisted hshard

end

theorem Scanning.update (hs : Scanning w tenants s) (hid : ttid.tenantShardId ∈ tenants)
    (index : IndexPart) : Scanning w tenants (s.update ttid index) := by
  refine ⟨hs.1, fun id hmem => ?_⟩
  rcases mem_insert_iff.mp hmem with rfl | hmem
  · exact hid
  · exact hs.2 id hmem

theorem wp_gcTimeline (h : Legible w) (hid : ttid.tenantShardId ∈ tenants)
    (hs : Scanning w tenants s) :
    wp (gcTimeline w minAge mode ttid)
      (fun _ s' => Scanning w tenants s' ∧ Beyond s s' ∧ Covered w ttid s')
      (fun _ => Safe w) s := by
  refine wp_bind.mpr (wp_listTimelineBlobs ?_ (fun _ _ => hs.1))
  intro t data hattempt
  obtain ⟨hmoment, hdata⟩ := hattempt.data_eq
  have hlists := hattempt.lists h
  have hlt := lt_parseAt w ttid t
  generalize (parseAt w ttid t).2 = stop at hlists hlt
  cases hblobs : data.blobData with
  | parsed index g layers =>
    refine wp_bind.mpr (wp_list ?_ (fun _ => hs.1))
    refine wp_bind.mpr (Prog.wp_modify.mpr ?_)
    have hnewest : Newest w ttid t g := by
      rintro n rfl
      rw [hdata] at hblobs
      exact parseAt_highest hblobs
    have hkeys : forall obj, obj ∈ data.unusedIndexKeys ->
        obj ∈ indexPartKeys ((w.moment t).bucket.blobs ttid) := by
      rw [hdata]
      exact fun obj hobj => mem_unusedIndexKeys hobj
    let noted : Scrub := Scrub.update ttid index { s with moment := stop + 1 }
    have hscanning : Scanning w tenants noted :=
      Scanning.update (s := { s with moment := stop + 1 }) hs hid index
    have hbeyond : Beyond s noted :=
      ⟨(hmoment.trans hlt.le).trans (Nat.le_succ stop), subset_append_left _ _⟩
    have hcovered : Covered w ttid noted := by
      refine covered_update (fun hcurrent => ?_) hblobs
      obtain ⟨t', ht', hnoted⟩ := hlists hcurrent
      exact ⟨t', Nat.lt_succ_of_lt ht', hnoted⟩
    have hloop : Maintains (Deleting w noted) (fun _ => Safe w)
        (data.unusedIndexKeys.forM (maybeDeleteIndex w minAge g ttid mode)) :=
      .forM (fun obj hobj =>
        deleting_maybeDeleteIndex h (Nat.le_succ_of_le hlt.le) hnewest (hkeys obj hobj))
    refine wp_imp (hloop _ (.start hscanning.1)) ?_
    rintro - s' ⟨hsafe, hlater⟩
    exact ⟨⟨hsafe, hlater.seen ▸ hscanning.2⟩, IsTrans.trans _ _ _ hbeyond hlater.beyond,
      hcovered.beyond hlater.beyond⟩
  | _ =>
    exact ⟨hs, ⟨hmoment.trans hlt.le, List.Subset.refl _⟩,
      covered_of_unparsed hlists (by simp [hblobs])⟩

/-- A shard is swept when all timelines listed at some moment are covered. -/
def Swept (w : World) (id : TenantShardId) (s : Scrub) : Prop :=
  exists t, t < s.moment ∧
    forall ttid, ttid ∈ (w.moment t).bucket.timelines id -> Covered w ttid s

theorem Swept.beyond (h : Swept w id s) (hs' : Beyond s s') : Swept w id s' := by
  obtain ⟨t, ht, hcovered⟩ := h
  exact ⟨t, Nat.lt_of_lt_of_le ht hs'.moment, fun ttid httid => (hcovered ttid httid).beyond hs'⟩

theorem wp_gcTenantShard (h : Legible w) (hid : id ∈ tenants) (hs : Scanning w tenants s) :
    wp (gcTenantShard w minAge mode id)
      (fun _ s' => Scanning w tenants s' ∧ Beyond s s' ∧ Swept w id s')
      (fun _ => Safe w) s := by
  refine wp_bind.mpr (wp_bind.mpr (wp_list ?_ (fun _ => hs.1)))
  have hloop : wp (((w.moment s.moment).bucket.timelines id).forM (gcTimeline w minAge mode))
      (fun _ s' => Scanning w tenants s' ∧ Beyond { s with moment := s.moment + 1 } s' ∧
        forall ttid, ttid ∈ (w.moment s.moment).bucket.timelines id -> Covered w ttid s')
      (fun _ => Safe w) { s with moment := s.moment + 1 } := by
    refine wp_forM_each (fun ttid _ _ hc hb => hc.beyond hb) (fun ttid httid mid hmid => ?_) hs
    have hshard : ttid.tenantShardId = id := by simpa using (mem_filter.mp httid).2
    exact wp_gcTimeline h (hshard ▸ hid) hmid
  refine wp_pure.mpr (wp_imp hloop ?_)
  rintro - s' ⟨hscanning, hbeyond, hcovered⟩
  exact ⟨hscanning, ⟨(Nat.le_succ _).trans hbeyond.moment, hbeyond.refs⟩, s.moment,
    Nat.lt_of_lt_of_le (Nat.lt_succ_self _) hbeyond.moment, hcovered⟩

theorem Swept.noted (h : Swept w id s) (hdrops : OnlyDrops w) (hcurrent : Current w id)
    (ht : s.moment <= t) {timelineId : TimelineId} (hshard : path.shard ≠ id.shard)
    (href : References (w.moment t).bucket ⟨id, timelineId⟩ path) :
    ((id.tenantId, timelineId), path.shard, path.name) ∈ s.ancestorRefs := by
  obtain ⟨t₀, ht₀, hcovered⟩ := h
  -- a timeline that refers to a layer now had an index when its shard was listed
  have hearlier := hdrops id hcurrent timelineId path hshard t₀ t (by omega) href
  obtain ⟨blob, g, hhighest, -⟩ := hearlier
  obtain ⟨t₁, ht₁, hnoted⟩ :=
    hcovered ⟨id, timelineId⟩ (Bucket.mem_timelines_of_blob hhighest.mem) hcurrent
  exact hnoted path hshard (hdrops id hcurrent timelineId path hshard t₁ t (by omega) href)

/-!
## Ancestor shards
-/

/-- The controller reports only shards of the tenant that were seen, and not this one. -/
def Ancestor (w : World) (s : Scrub) (id : TenantShardId) : Prop :=
  exists shards, w.describe id.tenantId = some shards ∧
    forall shard, shard ∈ shards.map ShardDescription.shard ->
      ⟨id.tenantId, shard⟩ ∈ s.shardsSeen ∧ id.shard ≠ shard

theorem mem_shardIndices {shard : ShardIndex} :
    shard ∈ s.shardIndices tenantId <-> ⟨tenantId, shard⟩ ∈ s.shardsSeen := by
  simp only [Scrub.shardIndices, mem_map, mem_filter, decide_eq_true_eq]
  constructor
  · rintro ⟨id, ⟨hid, rfl⟩, rfl⟩
    exact hid
  · intro hid
    exact ⟨_, ⟨hid, rfl⟩, rfl⟩

theorem ancestor_of_latest {shards : List ShardDescription}
    (hdescribe : w.describe tenantId = some shards)
    (hlatest : shards.map ShardDescription.shard = latestShards (s.shardIndices tenantId))
    {ancestor : ShardIndex} (hancestor : ancestor ∈ ancestorShards (s.shardIndices tenantId)) :
    Ancestor w s ⟨tenantId, ancestor⟩ := by
  refine ⟨shards, hdescribe, fun shard hshard => ?_⟩
  rw [hlatest, latestShards, mem_insertionSort, mem_filter] at hshard
  refine ⟨mem_shardIndices.mp hshard.1, ?_⟩
  rintro rfl
  have hcount := (mem_filter.mp hancestor).2
  simp_all

theorem wp_gcAncestorsOf (hs : Deleting w s₀ s) :
    wp (gcAncestorsOf w tenantId (s₀.shardIndices tenantId))
      (fun ancestors s' => Deleting w s₀ s' ∧ forall id, id ∈ ancestors -> Ancestor w s₀ id)
      fail s := by
  have hnothing : Deleting w s₀ s ∧ forall id, id ∈ [] -> Ancestor w s₀ id :=
    ⟨hs, by simp⟩
  refine wp_ite.mpr ?_
  split
  · exact hnothing
  · refine wp_ite.mpr ?_
    split
    · exact hnothing
    · cases hdescribe : w.describe tenantId with
      | none => exact ⟨⟨hs.1, hs.2.moment, hs.2.seen, hs.2.refs⟩, by simp⟩
      | some shards =>
        refine wp_ite.mpr ?_
        split
        · exact hnothing
        next hlatest =>
          refine wp_ite.mpr ?_
          split
          · exact hnothing
          · refine ⟨hs, fun id hid => ?_⟩
            obtain ⟨ancestor, hancestor, rfl⟩ := mem_map.mp hid
            exact ancestor_of_latest hdescribe (not_not.mp hlatest) hancestor

theorem wp_intoGcAncestors (hsafe : Safe w s) :
    wp (intoGcAncestors w)
      (fun ancestors s' => Deleting w s s' ∧ forall id, id ∈ ancestors -> Ancestor w s id)
      fail s := by
  have hloop : forall (tenants : List TenantId) found s', Deleting w s s' ->
      (forall id, id ∈ found -> Ancestor w s id) ->
      wp (tenants.foldlM (fun found tenantId => do
          let more <- gcAncestorsOf w tenantId (s.shardIndices tenantId)
          pure (found ++ more)) found)
        (fun ancestors s' => Deleting w s s' ∧ forall id, id ∈ ancestors -> Ancestor w s id)
        fail s' := by
    intro tenants
    induction tenants with
    | nil => exact fun found s' hs' hfound => ⟨hs', hfound⟩
    | cons tenantId rest ih =>
      intro found s' hs' hfound
      refine wp_bind.mpr (wp_then (wp_gcAncestorsOf hs') ?_)
      rintro more mid ⟨hmid, hmore⟩
      exact ih _ mid hmid (forall_mem_append.mpr ⟨hfound, hmore⟩)
  exact hloop _ [] s (.start hsafe) (by simp)

theorem deleting_checkIsOldEnough :
    Maintains (Deleting w s₀) fail (checkIsOldEnough w minAge ttid key) := by
  refine .bind deleting_operation (fun m => ?_)
  split
  · exact .ite (fun _ => .bind deleting_isOldEnough (fun _ => .pure _)) (fun _ => .pure none)
  · exact .pure none

section Ancestors

variable (hdrops : OnlyDrops w) (hswept : forall id, id ∈ s₀.shardsSeen -> Swept w id s₀)
include hdrops hswept

theorem unreferenced_layer (hancestor : Ancestor w s₀ ttid.tenantShardId) {name : LayerName}
    (hcount : (ttid.asTenantTimelineId, ttid.tenantShardId.shard, name) ∉ s₀.ancestorRefs)
    (generation : Generation) (hn : s₀.moment <= n) :
    Unreferenced w ⟨n, ttid, .layer name generation⟩ := by
  intro name' generation' heq
  cases heq
  obtain ⟨shards, hdescribe, hseen⟩ := hancestor
  refine ⟨shards, hdescribe, fun shard hshard href => hcount ?_⟩
  obtain ⟨hmem, hne⟩ := hseen shard hshard
  exact (hswept _ hmem).noted hdrops ⟨shards, hdescribe, hshard⟩ hn hne href

theorem deleting_gcAncestorLayer (hancestor : Ancestor w s₀ ttid.tenantShardId)
    (layer : LayerName × Generation) :
    Maintains (Deleting w s₀) fail (gcAncestorLayer w minAge mode ttid layer) := by
  refine .get_bind (fun s hs => ?_)
  refine Maintains.ite (fun _ => .pure ()) (fun hcount => ?_) s hs
  have hnot : (ttid.asTenantTimelineId, ttid.tenantShardId.shard, layer.1) ∉ s₀.ancestorRefs := by
    rw [← hs.2.refs]
    exact fun hmem => hcount (count_pos_iff.mpr hmem)
  refine .bind deleting_checkIsOldEnough (fun _ => .ite (fun _ => ?_) (fun _ => .pure ()))
  exact deleting_delete (fun n hn => ⟨unreferenced_layer hdrops hswept hancestor hnot _ hn,
    fun g hg => by cases hg⟩)

theorem deleting_gcAncestor (hancestor : Ancestor w s₀ id) :
    Maintains (Deleting w s₀) (fun _ => Safe w) (gcAncestor w minAge mode id) := by
  intro s hs
  refine wp_bind.mpr (wp_bind.mpr (wp_list ?_ (fun _ => hs.1)))
  refine wp_pure.mpr (Maintains.forM (fun ttid httid mid hmid => ?_) _ (hs.advance (Nat.le_succ _)))
  have hshard : ttid.tenantShardId = id := by simpa using (mem_filter.mp httid).2
  refine wp_bind.mpr (wp_listTimelineBlobs ?_ (fun _ _ => hmid.1))
  intro t data hattempt
  have hmid' := hmid.advance (hattempt.data_eq.1.trans (lt_parseAt w ttid t).le)
  cases data.blobData with
  | parsed index g layers =>
    exact Maintains.forM (fun layer _ =>
      deleting_gcAncestorLayer hdrops hswept (hshard ▸ hancestor) layer) _ hmid'
  | _ => exact hmid'

theorem wp_gcAncestors (hsafe : Safe w s₀) :
    wp (gcAncestors w minAge mode) (fun _ => Safe w) (fun _ => Safe w) s₀ := by
  refine wp_then (wp_intoGcAncestors hsafe) ?_
  rintro ancestors s ⟨hs, hancestors⟩
  have hloop : Maintains (Deleting w s₀) (fun _ => Safe w)
      (ancestors.forM (gcAncestor w minAge mode)) :=
    .forM (fun id hid => deleting_gcAncestor hdrops hswept (hancestors id hid))
  exact wp_imp (hloop s hs) (fun _ _ hs' => hs'.1)

end Ancestors

/-!
## Whole runs
-/

theorem wp_scan (hdrops : OnlyDrops w) (h : Legible w) {controller : Bool}
    (tenants : List TenantShardId) (hsafe : Safe w s) (hseen : s.shardsSeen = []) :
    wp (tenants.forM (gcTenantShard w minAge mode) >>= fun _ =>
        if controller then gcAncestors w minAge mode else pure ())
      (fun _ => Safe w) (fun _ => Safe w) s := by
  have hscanning : Scanning w tenants s := ⟨hsafe, by simp [hseen]⟩
  have hloop : wp (tenants.forM (gcTenantShard w minAge mode))
      (fun _ s' => Scanning w tenants s' ∧ Beyond s s' ∧ forall id, id ∈ tenants -> Swept w id s')
      (fun _ => Safe w) s :=
    wp_forM_each (fun id _ _ hswept hb => hswept.beyond hb)
      (fun id hid mid hmid => wp_gcTenantShard h hid hmid) hscanning
  refine wp_then hloop ?_
  rintro - s' ⟨hs', -, hswept⟩
  refine wp_ite.mpr ?_
  split
  · exact wp_gcAncestors hdrops (fun id hid => hswept id (hs'.2 id hid)) hs'.1
  · exact hs'.1

/-- Nothing that a run deletes, whether it ends well or fails, was referred to or recent,
if the indices that refer to other shards can be read. -/
theorem physicalGc_safe (w : World) (controller : Bool) (tenantShardIds : List TenantShardId)
    (minAge : Nat) (mode : GcMode) (hdrops : OnlyDrops w) (h : Legible w) :
    Safe w (Prog.exec (pageserverPhysicalGc w controller tenantShardIds minAge mode)
      Scrub.start).2 := by
  have hstart : Safe w Scrub.start := by
    intro d hd
    cases hd
  refine exec_snd (wp_bind.mpr (wp_ite.mpr ?_))
  split
  · refine wp_bind.mpr (wp_list ?_ (fun _ => hstart))
    exact wp_pure.mpr (wp_scan hdrops h _ hstart rfl)
  · exact wp_pure.mpr (wp_scan hdrops h _ hstart rfl)

/-!
A bucket in which one shard has been split in two.  Timeline 7 of the first child refers
to a layer of its parent; the only thing wrong is that this index cannot be downloaded.
-/

def parentShard : TenantShardId := ⟨1, ⟨0, 1⟩⟩
def firstChild : TenantShardId := ⟨1, ⟨0, 2⟩⟩
def secondChild : TenantShardId := ⟨1, ⟨1, 2⟩⟩

def imageLayer (lsn : Lsn) : LayerName :=
  .image ⟨⟨⟨0, 0, 0, 0, 0, 0⟩, ⟨0, 0, 0, 0, 0, 1⟩⟩, lsn⟩

def layerBlob (lsn : Lsn) : Blob :=
  ⟨⟨.layer (imageLayer lsn) (.valid 1), 0⟩, ⟨[], 0⟩⟩

def indexBlob (suffix : Option UInt32) (content : IndexPart) : Blob :=
  ⟨⟨.index (remoteIndexName suffix) suffix, 0⟩, content⟩

/-- The index of a child that still needs the layer at 10 of its parent. -/
def inheritingIndex : IndexPart :=
  ⟨[(imageLayer 10, ⟨8192, .valid 1, parentShard.shard⟩)], 20⟩

def splitBucket : Bucket :=
  [⟨⟨parentShard, 7⟩, [indexBlob (some 1) ⟨[], 20⟩, layerBlob 10, layerBlob 20], by decide⟩,
   ⟨⟨firstChild, 7⟩, [indexBlob (some 1) inheritingIndex], by decide⟩,
   ⟨⟨firstChild, 8⟩, [indexBlob (some 1) ⟨[], 20⟩], by decide⟩,
   ⟨⟨secondChild, 8⟩, [indexBlob (some 1) ⟨[], 20⟩], by decide⟩]

/-- A timeline with an index from before generations and one of generation 0. -/
def upgradedBucket : Bucket :=
  [⟨⟨firstChild, 7⟩, [indexBlob none ⟨[], 10⟩, indexBlob (some 0) ⟨[], 20⟩], by decide⟩]

/-- A bucket at rest, where the given downloads fail. -/
def atRest (bucket : Bucket) (failing : List TenantShardTimelineId) : World :=
  { moment := fun _ =>
      { bucket := bucket, now := 1000, lists := true, heads := true, deletes := true,
        download := fun ttid => if ttid ∈ failing then .failed else .complete }
    describe := fun tenantId =>
      if tenantId = 1 then some [⟨firstChild.shard, false⟩, ⟨secondChild.shard, false⟩]
      else none }

def deletions (w : World) : List Deletion :=
  (Prog.exec (pageserverPhysicalGc w true [] 100 .full) Scrub.start).2.deleted

theorem onlyDrops_atRest (bucket : Bucket) (failing : List TenantShardTimelineId) :
    OnlyDrops (atRest bucket failing) :=
  fun _ _ _ _ _ _ _ _ href => href

theorem physicalGc_deletes_referenced :
    (OnlyDrops (atRest splitBucket [⟨firstChild, 7⟩]) ∧
      exists d, d ∈ deletions (atRest splitBucket [⟨firstChild, 7⟩]) ∧
        ¬ Unreferenced (atRest splitBucket [⟨firstChild, 7⟩]) d) ∧
    OnlyDrops (atRest upgradedBucket []) ∧
      exists d, d ∈ deletions (atRest upgradedBucket []) ∧
        ¬ Outdated (atRest upgradedBucket []) d := by
  refine ⟨⟨onlyDrops_atRest _ _, ⟨21, ⟨parentShard, 7⟩, .layer (imageLayer 10) (.valid 1)⟩,
    by decide +kernel, fun h => ?_⟩, onlyDrops_atRest _ _,
    ⟨6, ⟨firstChild, 7⟩, .index (remoteIndexName none) none⟩, by decide +kernel, fun h => ?_⟩
  · obtain ⟨shards, hdescribe, hunreferenced⟩ := h _ _ rfl
    cases hdescribe
    refine hunreferenced firstChild.shard (by decide)
      ⟨indexBlob (some 1) inheritingIndex, .valid 1, ⟨mem_singleton_self _, rfl, ?_⟩, ?_⟩
    · intro other hother g hg
      rw [mem_singleton.mp hother] at hg
      cases hg
      exact Nat.le_refl _
    · exact ⟨_, rfl, rfl⟩
  · obtain ⟨t, blob, latest, -, hhighest, hlater⟩ := h .none rfl
    have hblob : blob ∈ [indexBlob none ⟨[], 10⟩, indexBlob (some 0) ⟨[], 20⟩] := hhighest.mem
    rcases mem_pair.mp hblob with rfl | rfl
    · have hle := hhighest.highest (indexBlob (some 0) ⟨[], 20⟩)
        (mem_cons_of_mem _ (mem_singleton_self _)) (.valid 0) rfl
      cases hhighest.generation
      exact absurd hle (by decide)
    · cases hhighest.generation
      exact (hlater (.valid 0) (Nat.le_refl _)).2 rfl

theorem eq_of_mem_splitBucket (h : blob ∈ splitBucket.blobs ttid) :
    (exists content, blob = indexBlob (some 1) content) ∨ exists lsn, blob = layerBlob lsn := by
  obtain ⟨dir, hdir, -, hblob⟩ := Bucket.exists_directory h
  simp only [splitBucket, mem_cons, not_mem_nil, or_false] at hdir
  rcases hdir with rfl | rfl | rfl | rfl <;> grind

theorem named_splitBucket (ttid : TenantShardTimelineId) : Named (splitBucket.blobs ttid) := by
  intro blob hblob name suffix hkey
  rcases eq_of_mem_splitBucket hblob with ⟨content, rfl⟩ | ⟨lsn, rfl⟩
  · cases hkey
    rfl
  · cases hkey

theorem fetch_complete {m : Moment} (hdownload : m.download ttid = .complete)
    (hfind : (m.bucket.blobs ttid).find? (fun blob => blob.listing.key = key) = some blob) :
    m.fetch ttid key = .parsed blob.content := by
  unfold Moment.fetch
  rw [hdownload, hfind]

theorem reads_atRest (hnamed : Named (b.blobs ttid)) (t : Nat) : Reads (atRest b []) ttid t := by
  intro blob g hhighest
  have hsame : forall other, other ∈ b.blobs ttid ->
      other.listing.key = blob.listing.key -> other = blob :=
    fun other hother hkey => inj_on_of_nodup_map (Bucket.distinct_blobs b ttid) hother
      hhighest.mem hkey
  have hfind : (b.blobs ttid).find? (fun other => other.listing.key = blob.listing.key) =
      some blob := by
    cases hfind : (b.blobs ttid).find? (fun other => other.listing.key = blob.listing.key) with
    | none => exact absurd (find?_eq_none.mp hfind blob hhighest.mem) (by simp)
    | some other =>
      rw [hsame other (mem_of_find?_eq_some hfind) (by simpa using find?_some hfind)]
  refine ⟨blob.content, fetch_complete rfl hfind, ?_⟩
  rintro path - ⟨other, g', hother, hlists⟩
  have heq := (hother.selected hnamed (Bucket.distinct_blobs b ttid)).symm.trans
    (hhighest.selected hnamed (Bucket.distinct_blobs b ttid))
  have hlisting : other.listing = blob.listing := congrArg Prod.fst (Option.some.inj heq)
  rw [← hsame other hother.mem (congrArg _ hlisting)]
  exact hlists

theorem legible_splitBucket : Legible (atRest splitBucket []) where
  named := fun _ ttid _ => named_splitBucket ttid
  read := fun t ttid _ _ _ _ => .inl (reads_atRest (named_splitBucket ttid) t)
  numbered := by
    intro t ttid blob other hhighest
    rcases eq_of_mem_splitBucket hhighest.mem with ⟨content, rfl⟩ | ⟨lsn, rfl⟩
    · cases hhighest.generation
    · cases hhighest.generation

/-- With all indices readable the layer that the child needs stays and the other goes. -/
theorem physicalGc_safe_splitBucket :
    (deletions (atRest splitBucket [])).map Deletion.key = [.layer (imageLayer 20) (.valid 1)] ∧
      Safe (atRest splitBucket []) (Prog.exec
        (pageserverPhysicalGc (atRest splitBucket []) true [] 100 .full) Scrub.start).2 :=
  ⟨by decide +kernel, physicalGc_safe _ _ _ _ _ (onlyDrops_atRest _ _) legible_splitBucket⟩

end Scrubber
end OpenNeon

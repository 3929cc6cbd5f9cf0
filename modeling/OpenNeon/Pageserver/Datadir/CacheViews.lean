import OpenNeon.Pageserver.Datadir.Changes
import OpenNeon.Pageserver.Datadir.Commit

/-!
# Views at an LSN

The versions of a key, committed or not, say what any reader sees: the modification
sees its own LSN, other readers a committed one.  A cached size may be used at an LSN
if the relation exists there with that size.
-/

namespace OpenNeon
namespace Pageserver
namespace Datadir

open Base WalDecoder Version

theorem versionAt_append_of_lt {alpha : Type} {newer older : List (Lsn × alpha)} {x : Lsn}
    (h : forall v, v ∈ newer -> x < v.1) :
    versionAt (newer ++ older) x = versionAt older x := by
  unfold versionAt
  rw [List.find?_append, List.find?_eq_none.mpr, Option.none_or]
  intro v hv
  simpa using h v hv

namespace State

variable {s : State} {x : Lsn}

theorem viewAt_of_le (hwf : s.WF) (hlast : s.tline.lastRecordLsn ≤ s.lsn) (hx : s.lsn ≤ x)
    (k : MetaKey) : s.viewAt k x = s.cur k := by
  rw [hwf.cur_eq]
  refine versionAt_of_le (fun v hv => ?_)
  rcases List.mem_append.mp hv with hpending | hcommitted
  · exact (hwf.pending_le k v hpending).trans hx
  · exact ((hwf.committed_le k v hcommitted).trans hlast).trans hx

theorem viewAt_committed (hwf : s.WF) (hx : x ≤ s.tline.lastRecordLsn) (k : MetaKey) :
    s.viewAt k x = versionAt (s.tline.metadata k) x :=
  versionAt_append_of_lt (fun v hv => Nat.lt_of_le_of_lt hx (hwf.pending_lt k v hv))

structure ExistsAt (s : State) (rel : RelTag) (x : Lsn) : Prop where
  dbdir : exists d, s.viewAt .dbdir x = some d ∧ d.contains (rel.spcnode, rel.dbnode) = true
  relDir : ¬ s.UsesSparse x -> exists d, s.viewAt (.relDir rel.spcnode rel.dbnode) x = some d ∧
    d.contains rel = true
  sparse : s.UsesSparse x -> s.viewAt (.relTagSparse rel) x = some .existing

structure Present (s : State) (rel : RelTag) (x : Lsn) (n : BlockNumber) : Prop where
  representable : (MetaKey.relSize rel).toKey.isI128Representable = true
  found : s.ExistsAt rel x
  size : s.viewAt (.relSize rel) x = some n

variable {s' : State} {rel : RelTag} {y : Lsn}

theorem ExistsAt.congr (h : s.ExistsAt rel x) (hviews : forall k, s'.viewAt k y = s.viewAt k x)
    (hsparse : s'.UsesSparse y <-> s.UsesSparse x) : s'.ExistsAt rel y where
  dbdir := by
    rw [hviews]
    exact h.dbdir
  relDir := by
    rw [hviews, hsparse]
    exact h.relDir
  sparse := by
    rw [hviews, hsparse]
    exact h.sparse

theorem Present.congr {n : BlockNumber} (h : s.Present rel x n)
    (hviews : forall k, s'.viewAt k y = s.viewAt k x)
    (hsparse : s'.UsesSparse y <-> s.UsesSparse x) : s'.Present rel y n :=
  ⟨h.representable, h.found.congr hviews hsparse, (hviews _).trans h.size⟩

theorem existsAt_lsn_iff (hwf : s.WF) (hlast : s.tline.lastRecordLsn ≤ s.lsn) (rel : RelTag) :
    s.ExistsAt rel s.lsn <-> s.Listed rel := by
  have hview := s.viewAt_of_le hwf hlast (Nat.le_refl s.lsn)
  constructor
  · rintro ⟨hdbdir, hrelDir, hsparse⟩
    rw [hview] at hdbdir hrelDir hsparse
    exact ⟨hdbdir, hrelDir, hsparse⟩
  · rintro ⟨hdbdir, hrelDir, hsparse⟩
    rw [← hview] at hdbdir hrelDir hsparse
    exact ⟨hdbdir, hrelDir, hsparse⟩

end State

/-!
## Readers
-/

/-- The modification, or a reader of a committed LSN. -/
def Version.Valid (s : State) : Version -> Prop
  | lsnRange effectiveLsn _ => effectiveLsn ≤ s.tline.lastRecordLsn
  | modified => True

variable {s : State} {version : Version}

theorem Version.get_eq (hwf : s.WF) (hlast : s.tline.lastRecordLsn ≤ s.lsn)
    (hvalid : version.Valid s) (k : MetaKey) :
    version.get s k = toCompact k.toKey >>= fun _ =>
      match s.viewAt k (version.getLsn s) with
      | some v => .ok v
      | none => .error (.missingKey k) := by
  cases version with
  | lsnRange effective request =>
    rw [show getLsn s (.lsnRange effective request) = effective from rfl,
      State.viewAt_committed hwf hvalid]
    rfl
  | modified =>
    rw [show getLsn s .modified = s.lsn from rfl, State.viewAt_of_le hwf hlast (Nat.le_refl _)]
    exact s.get_eq k

variable {k : MetaKey} {rel : RelTag}

section

variable (hwf : s.WF) (hlast : s.tline.lastRecordLsn ≤ s.lsn) (hvalid : version.Valid s)

include hwf hlast hvalid

theorem Version.get_eq_ok {v : k.Val} (hkey : k.toKey.isI128Representable = true)
    (hview : s.viewAt k (version.getLsn s) = some v) : version.get s k = .ok v := by
  rw [Version.get_eq hwf hlast hvalid, toCompact_eq, if_pos hkey, hview]
  rfl

theorem Version.viewAt_of_get {v : k.Val} (h : version.get s k = .ok v) :
    s.viewAt k (version.getLsn s) = some v := by
  rw [Version.get_eq hwf hlast hvalid] at h
  rcases bind_eq_ok_iff.mp h with ⟨_, _, hview⟩
  split at hview
  next w hw =>
    cases hview
    exact hw
  · cases hview

theorem existsAt_of_uncached (h : getRelExistsUncached s rel version none = .ok true) :
    s.ExistsAt rel (version.getLsn s) := by
  rcases bind_eq_ok_iff.mp h with ⟨d, hd, hrest⟩
  split at hrest
  next hcontains =>
    refine ⟨⟨d, viewAt_of_get hwf hlast hvalid hd, hcontains⟩, fun hnot => ?_, fun huses => ?_⟩
    · rw [getRelExistsInDirectory_old hnot] at hrest
      rcases map_eq_ok_iff.mp hrest with ⟨dir, hdir, hin⟩
      exact ⟨dir, viewAt_of_get hwf hlast hvalid hdir, hin⟩
    · rw [getRelExistsInDirectory_sparse huses] at hrest
      rcases map_eq_ok_iff.mp hrest with ⟨e, he, htrue⟩
      have hexisting : e = .existing := beq_iff_eq.mp htrue
      subst hexisting
      unfold State.sparseResult at he
      split at he
      · cases he
      · exact viewAt_of_get hwf hlast hvalid he
  · cases hrest

end

def State.withoutCaches (s : State) : State :=
  { s with tline := { s.tline with
      relSizeLatestCache := fun _ => none
      relSizeSnapshotCache := fun _ _ => none } }

theorem State.Present.getRelExistsUncached (hwf : s.WF) (hlast : s.tline.lastRecordLsn ≤ s.lsn)
    (hvalid : version.Valid s) {n : BlockNumber} (h : s.Present rel (version.getLsn s) n) :
    getRelExistsUncached s rel version none = .ok true := by
  rcases h.found.dbdir with ⟨d, hd, hcontains⟩
  unfold Datadir.getRelExistsUncached
  rw [Version.get_eq_ok hwf hlast hvalid rfl hd]
  show (if d.contains (rel.spcnode, rel.dbnode) = true then _ else _) = _
  rw [if_pos hcontains]
  by_cases huses : s.UsesSparse (version.getLsn s)
  · have hget := Version.get_eq_ok (k := .relTagSparse rel) hwf hlast hvalid
      h.representable (h.found.sparse huses)
    rw [getRelExistsInDirectory_sparse huses, getRelExistsInReldirV2, hget]
    rfl
  · rcases h.found.relDir huses with ⟨dir, hdir, hin⟩
    have hget := Version.get_eq_ok (k := .relDir rel.spcnode rel.dbnode) hwf hlast hvalid
      h.representable hdir
    rw [getRelExistsInDirectory_old huses, getRelExistsInReldirV1, hget]
    exact congrArg Except.ok hin

/-!
## Answers with and without the caches
-/

section Transparent

variable {s : State} {rel : RelTag} {version : Version}

theorem Version.get_withoutCaches (s : State) (version : Version) (k : MetaKey) :
    version.get s.withoutCaches k = version.get s k := by
  cases version <;> rfl

theorem getRelExistsUncached_withoutCaches (s : State) (rel : RelTag) (version : Version) :
    getRelExistsUncached s.withoutCaches rel version none =
      getRelExistsUncached s rel version none := by
  cases version <;> rfl

theorem getRelExists_withoutCaches (hrel : rel.relnode ≠ 0) :
    getRelExists s.withoutCaches rel version = getRelExistsUncached s rel version none := by
  unfold getRelExists getRelExistsInReldir
  rw [if_neg hrel]
  exact getRelExistsUncached_withoutCaches s rel version

/-- Every cached size that the version may use is that of a present relation. -/
def CachedPresent (s : State) (rel : RelTag) (version : Version) : Prop :=
  forall n, getCachedRelSize s rel version = some n -> s.Present rel (version.getLsn s) n

variable (hwf : s.WF) (hlast : s.tline.lastRecordLsn ≤ s.lsn) (hvalid : version.Valid s)
  (hcached : CachedPresent s rel version)

include hwf hlast hvalid hcached

theorem getRelExists_transparent :
    getRelExists s rel version = getRelExists s.withoutCaches rel version := by
  by_cases hrel : rel.relnode = 0
  · unfold getRelExists getRelExistsInReldir
    rw [if_pos hrel, if_pos hrel]
  · rw [getRelExists_withoutCaches hrel]
    unfold getRelExists getRelExistsInReldir
    rw [if_neg hrel]
    cases hget : getCachedRelSize s rel version with
    | none => rfl
    | some n => exact ((hcached n hget).getRelExistsUncached hwf hlast hvalid).symm

theorem lookupRelSize_of_cached {n : BlockNumber} (hrel : rel.relnode ≠ 0)
    (hget : getCachedRelSize s rel version = some n) :
    lookupRelSize s.withoutCaches rel version none false = .ok (.fetched n) := by
  have hpresent := hcached n hget
  have hfound : getRelExistsInReldir s.withoutCaches rel version none = .ok true :=
    (getRelExists_withoutCaches hrel).trans (hpresent.getRelExistsUncached hwf hlast hvalid)
  have hif : forall (c : Prop) [Decidable c],
      getRelExistsIf c s.withoutCaches rel version none = .ok true := by
    intro c _
    unfold getRelExistsIf
    split
    · exact hfound
    · rfl
  have hsize : version.get s.withoutCaches (.relSize rel) = .ok n :=
    (get_withoutCaches s version _).trans
      (Version.get_eq_ok hwf hlast hvalid hpresent.representable hpresent.size)
  unfold lookupRelSize
  rw [if_neg hrel]
  rw [hif, hif, hsize]
  rfl

theorem lookupRelSize_of_not_cached (hget : getCachedRelSize s rel version = none) :
    lookupRelSize s rel version none false =
      lookupRelSize s.withoutCaches rel version none false := by
  have hfound : getRelExistsInReldir s rel version none =
      getRelExistsInReldir s.withoutCaches rel version none :=
    getRelExists_transparent hwf hlast hvalid hcached
  unfold lookupRelSize getRelExistsIf
  rw [hget, hfound, show getCachedRelSize s.withoutCaches rel version = none from rfl,
    get_withoutCaches]

def RelSizeLookup.result : RelSizeLookup -> Except WalIngestError BlockNumber
  | done (some n) => .ok n
  | done none => .error (.panic .allowMissing)
  | fetched n => .ok n

omit hwf hlast hvalid hcached in
theorem exec_getRelSize (s : State) (rel : RelTag) (version : Version) :
    (Prog.exec (getRelSize rel version) s).1 =
      lookupRelSize s rel version none false >>= RelSizeLookup.result := by
  refine Prog.exec_fst (Prog.wp_bind.mpr (Prog.wp_bind.mpr (Prog.wp_read.mpr ?_)))
  cases hlookup : lookupRelSize s rel version none false with
  | error e => rfl
  | ok lookup =>
    cases lookup with
    | fetched n => rfl
    | done res =>
      cases res with
      | none => rfl
      | some n => rfl

theorem getRelSize_transparent :
    (Prog.exec (getRelSize rel version) s).1 =
      (Prog.exec (getRelSize rel version) s.withoutCaches).1 := by
  rw [exec_getRelSize, exec_getRelSize]
  cases hget : getCachedRelSize s rel version with
  | none => rw [lookupRelSize_of_not_cached hwf hlast hvalid hcached hget]
  | some n =>
    by_cases hrel : rel.relnode = 0
    · unfold lookupRelSize
      rw [if_pos hrel, if_pos hrel]
    · rw [lookupRelSize_of_cached hwf hlast hvalid hcached hrel hget]
      unfold lookupRelSize
      rw [if_neg hrel, hget]
      rfl

end Transparent

end Datadir
end Pageserver
end OpenNeon

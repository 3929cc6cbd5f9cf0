import OpenNeon.Pageserver.Datadir.WalIngest

/-!
# The view of the modification

What the functions of a modification read and write, stated on its view: the
newest value of each metadata key, committed or not, and the versions of each
block.  One lemma a function says what a call that returns has changed.
-/

namespace OpenNeon
namespace Pageserver
namespace Datadir

open Base WalDecoder Function

/-!
## Versions
-/

section Versions

variable {alpha : Type} {lsn x : Lsn} {v : alpha} {versions : List (Lsn × alpha)}

theorem putVersion_eq (lsn : Lsn) (v : alpha) (versions : List (Lsn × alpha)) :
    exists rest, putVersion lsn v versions = (lsn, v) :: rest ∧
      (versions = rest ∨ exists w, versions = (lsn, w) :: rest) := by
  cases versions with
  | nil => exact ⟨[], rfl, .inl rfl⟩
  | cons head rest =>
    rcases head with ⟨last, w⟩
    by_cases heq : last = lsn
    · subst heq
      exact ⟨rest, by simp [putVersion], .inr ⟨w, rfl⟩⟩
    · exact ⟨(last, w) :: rest, by simp [putVersion, heq], .inl rfl⟩

theorem putVersion_suffix (lsn : Lsn) (v : alpha) (versions : List (Lsn × alpha)) :
    exists rest, putVersion lsn v versions = (lsn, v) :: rest ∧ rest <:+ versions ∧
      forall p, p ∈ versions -> p.1 ≠ lsn -> p ∈ rest := by
  rcases putVersion_eq lsn v versions with ⟨rest, heq, rfl | ⟨w, rfl⟩⟩
  · exact ⟨_, heq, List.suffix_refl _, fun _ hp _ => hp⟩
  · refine ⟨rest, heq, List.suffix_cons _ _, fun p hp hne => ?_⟩
    exact (List.mem_cons.mp hp).resolve_left (fun hfirst => hne (congrArg Prod.fst hfirst))

theorem mem_putVersion {p : Lsn × alpha} (h : p ∈ putVersion lsn v versions) :
    p = (lsn, v) ∨ p ∈ versions := by
  rcases putVersion_suffix lsn v versions with ⟨rest, heq, hsuffix, _⟩
  rw [heq] at h
  exact (List.mem_cons.mp h).imp_right (hsuffix.mem ·)

theorem self_mem_putVersion : (lsn, v) ∈ putVersion lsn v versions := by
  rcases putVersion_eq lsn v versions with ⟨rest, heq, _⟩
  rw [heq]
  exact List.mem_cons_self

theorem mem_putVersion_of_ne {p : Lsn × alpha} (h : p ∈ versions) (hne : p.1 ≠ lsn) :
    p ∈ putVersion lsn v versions := by
  rcases putVersion_suffix lsn v versions with ⟨rest, heq, _, hothers⟩
  rw [heq]
  exact List.mem_cons_of_mem _ (hothers p h hne)

end Versions

/-!
## Directories
-/

namespace DbDirectory

theorem get?_remove (d : DbDirectory) (db x : Oid × Oid) :
    (d.remove db).get? x = if x = db then none else d.get? x := by
  rw [get?, get?, ← lookup_filter_ne x db d.dbdirs, remove]
  simp only [bne, ne_eq, decide_not, beq_eq_decide]

theorem get?_insert (d : DbDirectory) (db : Oid × Oid) (relmap : Bool) (x : Oid × Oid) :
    (d.insert db relmap).get? x = if x = db then some relmap else d.get? x := by
  by_cases hx : x = db
  · subst hx
    simp [get?, insert]
  · have hremove := get?_remove d db x
    rw [if_neg hx] at hremove ⊢
    exact (lookup_cons_ne hx _ _).trans hremove

end DbDirectory

theorem RelDirectory.contains_insert (d : RelDirectory) (rel r : RelTag) :
    (d.insert rel).contains r =
      ((r.relnode, r.forknum) == (rel.relnode, rel.forknum) || d.contains r) := by
  unfold contains insert
  rw [List.contains_cons]

/-!
## The newest values
-/

namespace State

section

variable (s : State)

def cur (k : MetaKey) : Option k.Val :=
  match s.modification.pendingMetadataPages k with
  | v :: _ => some v.2
  | [] => versionAt (s.tline.metadata k) (max s.tline.lastRecordLsn s.modification.lsn)

abbrev sizeOf (rel : RelTag) : Option BlockNumber :=
  s.cur (.relSize rel)

def versions : Int -> List (Lsn × Bool) :=
  applyWrites s.pendingWrites s.tline.blocks

abbrev lsn : Lsn :=
  s.modification.lsn

abbrev cache : RelTag -> Option (Lsn × BlockNumber) :=
  s.tline.relSizeLatestCache

abbrev belowSince : RelTag -> BlockNumber -> Lsn :=
  s.modification.belowSince

theorem get_eq (k : MetaKey) :
    s.get k = toCompact k.toKey >>= fun _ =>
      match s.cur k with
      | some v => .ok v
      | none => .error (.missingKey k) := by
  unfold get cur Timeline.get
  cases toCompact k.toKey with
  | error e => rfl
  | ok c =>
    cases s.modification.pendingMetadataPages k with
    | nil => rfl
    | cons v rest => rfl

end

theorem get_eq_ok {s : State} {k : MetaKey} {v : k.Val} (h : s.get k = .ok v) :
    s.cur k = some v := by
  rw [get_eq] at h
  rcases bind_eq_ok_iff.mp h with ⟨_, _, hcur⟩
  split at hcur
  next w hw =>
    cases hcur
    exact hw
  · cases hcur

@[simp] theorem cur_putMetadata (s : State) (k : MetaKey) (v : k.Val) :
    (s.putMetadata k v).cur = Function.update s.cur k (some v) := by
  funext j
  by_cases hj : j = k
  · subst hj
    rcases putVersion_eq s.modification.lsn v (s.modification.pendingMetadataPages j)
      with ⟨rest, heq, _⟩
    simp [cur, putMetadata, heq]
  · simp [cur, putMetadata, update_of_ne hj]

theorem cur_put_self (s : State) (k : MetaKey) (v : k.Val) :
    (s.putMetadata k v).cur k = some v := by
  rw [cur_putMetadata, update_self]

theorem cur_put_of_ne {s : State} {j k : MetaKey} (h : j ≠ k) (v : k.Val) :
    (s.putMetadata k v).cur j = s.cur j := by
  rw [cur_putMetadata, update_of_ne h]

def viewAt (s : State) (k : MetaKey) (x : Lsn) : Option k.Val :=
  versionAt (s.modification.pendingMetadataPages k ++ s.tline.metadata k) x

theorem viewAt_putMetadata_of_lt (s : State) (k : MetaKey) (v : k.Val) {x : Lsn}
    (hx : x < s.lsn) (j : MetaKey) : (s.putMetadata k v).viewAt j x = s.viewAt j x := by
  unfold viewAt putMetadata
  dsimp only
  by_cases hj : j = k
  · subst hj
    have hnot : ¬ s.modification.lsn ≤ x := Nat.not_le.mpr hx
    rcases putVersion_eq s.modification.lsn v (s.modification.pendingMetadataPages j) with
      ⟨rest, heq, hrest | ⟨w, hrest⟩⟩
    · rw [heq, hrest]
      simp [versionAt, hnot]
    · rw [heq, hrest]
      simp [versionAt, hnot]
  · rw [update_of_ne hj]

end State

theorem MetaKey.relDir_ne {spc dbn : Oid} {db : Oid × Oid} (h : (spc, dbn) ≠ db) :
    MetaKey.relDir spc dbn ≠ .relDir db.1 db.2 := by
  intro heq
  injection heq with hspc hdbn
  exact h (Prod.ext hspc hdbn)

/-- The versions of metadata keys are ordered, pending ones after committed ones. -/
structure State.WF (s : State) : Prop where
  pending : forall k, (s.modification.pendingMetadataPages k).Pairwise (fun v w => w.1 < v.1)
  committed : forall k, (s.tline.metadata k).Pairwise (fun v w => w.1 < v.1)
  pending_lt : forall k v, v ∈ s.modification.pendingMetadataPages k ->
    s.tline.lastRecordLsn < v.1
  pending_le : forall k v, v ∈ s.modification.pendingMetadataPages k -> v.1 ≤ s.lsn
  committed_le : forall k v, v ∈ s.tline.metadata k -> v.1 ≤ s.tline.lastRecordLsn

theorem pairwise_putVersion {alpha : Type} {lsn : Lsn} {v : alpha}
    {versions : List (Lsn × alpha)} (h : versions.Pairwise (fun v w => w.1 < v.1))
    (hle : forall w, w ∈ versions -> w.1 ≤ lsn) :
    (putVersion lsn v versions).Pairwise (fun v w => w.1 < v.1) := by
  cases versions with
  | nil => exact List.pairwise_singleton _ _
  | cons head tail =>
    rcases head with ⟨last, w⟩
    have hhead := List.pairwise_cons.mp h
    by_cases heq : last = lsn
    · subst heq
      rw [show putVersion last v ((last, w) :: tail) = (last, v) :: tail by
        simp [putVersion]]
      exact List.pairwise_cons.mpr ⟨hhead.1, hhead.2⟩
    · have hlt : last < lsn := Nat.lt_of_le_of_ne (hle (last, w) List.mem_cons_self) heq
      rw [show putVersion lsn v ((last, w) :: tail) = (lsn, v) :: (last, w) :: tail by
        simp [putVersion, heq]]
      refine List.pairwise_cons.mpr ⟨fun p hp => ?_, h⟩
      rcases List.mem_cons.mp hp with rfl | hp
      · exact hlt
      · exact Nat.lt_trans (hhead.1 p hp) hlt

variable {s : State} {rel : RelTag} {found : Bool}

theorem mem_pending_putMetadata {k j : MetaKey} {v : k.Val} {w : Lsn × j.Val}
    (hw : w ∈ (s.putMetadata k v).modification.pendingMetadataPages j) :
    w.1 = s.lsn ∨ w ∈ s.modification.pendingMetadataPages j := by
  change w ∈ Function.update s.modification.pendingMetadataPages k _ j at hw
  by_cases hj : j = k
  · subst hj
    rw [update_self] at hw
    exact (mem_putVersion hw).imp_left (congrArg Prod.fst)
  · rw [update_of_ne hj] at hw
    exact .inr hw

theorem State.WF.putMetadata (h : s.WF) (hlsn : s.tline.lastRecordLsn < s.lsn) (k : MetaKey)
    (v : k.Val) :
    (s.putMetadata k v).WF where
  pending := by
    intro j
    show (Function.update s.modification.pendingMetadataPages k _ j).Pairwise _
    by_cases hj : j = k
    · subst hj
      rw [update_self]
      exact pairwise_putVersion (h.pending j) (h.pending_le j)
    · rw [update_of_ne hj]
      exact h.pending j
  committed := h.committed
  pending_lt := by
    intro j w hw
    rcases mem_pending_putMetadata hw with heq | hold
    · exact heq ▸ hlsn
    · exact h.pending_lt j w hold
  pending_le := by
    intro j w hw
    rcases mem_pending_putMetadata hw with heq | hold
    · exact heq.le
    · exact h.pending_le j w hold
  committed_le := h.committed_le

theorem yields_put (k : MetaKey) (v : k.Val) (s : State) :
    Prog.Yields (put k v) s (fun _ s' => s' = s.putMetadata k v) := by
  have hkey : Prog.Yields (liftExcept (toCompact k.toKey) : Op Int) s (fun _ s' => s' = s) := by
    cases toCompact k.toKey with
    | error e => exact trivial
    | ok c => exact rfl
  refine hkey.bind ?_
  rintro _ s' rfl
  exact rfl

/-!
## Existence
-/

/-- The sparse directory is the one to read at an LSN. -/
def State.UsesSparse (s : State) (lsn : Lsn) : Prop :=
  s.tline.relSizeV2Status = .migrated ∧ s.tline.relSizeMigratedAt.getD 0 ≤ lsn

/-- The directories of the modification's view list the relation. -/
structure State.Listed (s : State) (rel : RelTag) : Prop where
  dbdir : exists d, s.cur .dbdir = some d ∧ d.contains (rel.spcnode, rel.dbnode) = true
  relDir : ¬ s.UsesSparse s.lsn ->
    exists d, s.cur (.relDir rel.spcnode rel.dbnode) = some d ∧ d.contains rel = true
  sparse : s.UsesSparse s.lsn -> s.cur (.relTagSparse rel) = some .existing

theorem toCompact_eq (k : Key) :
    toCompact k =
      if k.isI128Representable then .ok (k.packI128 : Int)
      else .error (.panic .invalidKey) := by
  unfold toCompact Key.toCompact Key.toI128
  split <;> rfl

theorem get_sparse {e : RelDirExists} (h : State.sparseResult (s.get (.relTagSparse rel)) = .ok e) :
    e = .existing <-> s.cur (.relTagSparse rel) = some .existing := by
  rw [State.get_eq, toCompact_eq] at h
  split at h
  · cases hcur : s.cur (.relTagSparse rel) with
    | none =>
      rw [hcur] at h
      cases h
      exact iff_of_false nofun nofun
    | some v =>
      rw [hcur] at h
      cases h
      exact ⟨fun hv => congrArg some hv, fun hv => Option.some.inj hv⟩
  · cases h

theorem getRelExistsInReldirV1_modified
    (h : getRelExistsInReldirV1 s rel .modified none = .ok found) :
    found = true <-> exists d, s.cur (.relDir rel.spcnode rel.dbnode) = some d ∧
      d.contains rel = true := by
  rcases map_eq_ok_iff.mp h with ⟨d, hd, hfound⟩
  have hcur := State.get_eq_ok hd
  constructor
  · intro htrue
    exact ⟨d, hcur, hfound.trans htrue⟩
  · rintro ⟨d', hd', hcontains⟩
    cases hcur.symm.trans hd'
    exact hfound.symm.trans hcontains

theorem getRelExistsInReldirV2_modified (h : getRelExistsInReldirV2 s rel .modified = .ok found) :
    found = true <-> s.cur (.relTagSparse rel) = some .existing := by
  rcases map_eq_ok_iff.mp h with ⟨e, he, hfound⟩
  rw [← hfound, ← get_sparse he]
  exact beq_iff_eq

section

variable {version : Version} {reldir : DeserializedReldir}

theorem getRelExistsInDirectory_sparse (h : s.UsesSparse (version.getLsn s)) :
    getRelExistsInDirectory s rel version reldir = getRelExistsInReldirV2 s rel version := by
  unfold getRelExistsInDirectory
  rw [h.1]
  exact if_neg (Nat.not_lt.mpr h.2)

theorem getRelExistsInDirectory_old (h : ¬ s.UsesSparse (version.getLsn s)) :
    getRelExistsInDirectory s rel version reldir = getRelExistsInReldirV1 s rel version reldir := by
  unfold getRelExistsInDirectory
  split
  · rfl
  · rfl
  next hstatus => exact if_pos (Nat.lt_of_not_le (fun hge => h ⟨hstatus, hge⟩))

end

theorem getRelExistsUncached_modified (h : getRelExistsUncached s rel .modified none = .ok found) :
    found = true <-> s.Listed rel := by
  rcases bind_eq_ok_iff.mp h with ⟨d, hd, hrest⟩
  have hdbdir := State.get_eq_ok hd
  by_cases hcontains : d.contains (rel.spcnode, rel.dbnode) = true
  · rw [if_pos hcontains] at hrest
    by_cases hsparse : s.UsesSparse s.lsn
    · have hiff :=
        getRelExistsInReldirV2_modified ((getRelExistsInDirectory_sparse hsparse).symm.trans hrest)
      exact ⟨fun htrue => ⟨⟨d, hdbdir, hcontains⟩, fun hnot => absurd hsparse hnot,
        fun _ => hiff.mp htrue⟩, fun hlisted => hiff.mpr (hlisted.sparse hsparse)⟩
    · have hiff :=
        getRelExistsInReldirV1_modified ((getRelExistsInDirectory_old hsparse).symm.trans hrest)
      exact ⟨fun htrue => ⟨⟨d, hdbdir, hcontains⟩, fun _ => hiff.mp htrue,
        fun hyes => absurd hyes hsparse⟩, fun hlisted => hiff.mpr (hlisted.relDir hsparse)⟩
  · rw [if_neg hcontains] at hrest
    cases hrest
    refine iff_of_false nofun (fun hlisted => ?_)
    rcases hlisted.dbdir with ⟨d', hd', hcontains'⟩
    cases hdbdir.symm.trans hd'
    exact hcontains hcontains'

/-!
## Caches
-/

/-- Latest cached sizes are those in the store; no snapshot is at the modification's LSN. -/
structure State.Coherent (s : State) : Prop where
  size : forall rel l n, s.cache rel = some (l, n) -> s.sizeOf rel = some n
  lsn_le : forall rel l n, s.cache rel = some (l, n) -> l ≤ s.lsn
  snapshot : forall rel, s.tline.relSizeSnapshotCache s.lsn rel = none

theorem State.Coherent.getCachedRelSize (h : s.Coherent) (rel : RelTag) :
    getCachedRelSize s rel .modified = (s.cache rel).map Prod.snd := by
  unfold Datadir.getCachedRelSize
  dsimp only
  split
  next l n hcache =>
    have hle : l ≤ s.lsn := h.lsn_le rel l n hcache
    rw [if_pos (show l ≤ Version.modified.getLsn s from hle)]
    show some n = (s.tline.relSizeLatestCache rel).map Prod.snd
    rw [hcache]
    rfl
  next hcache =>
    show s.tline.relSizeSnapshotCache s.lsn rel = (s.tline.relSizeLatestCache rel).map Prod.snd
    rw [hcache, h.snapshot]
    rfl

def State.Known (s : State) (rel : RelTag) : Prop :=
  (s.cache rel).isSome ∨ s.Listed rel

theorem State.Coherent.getRelExists_iff (h : s.Coherent)
    (hexists : getRelExists s rel .modified = .ok found) :
    found = true <-> s.Known rel := by
  unfold getRelExists getRelExistsInReldir at hexists
  rw [h.getCachedRelSize, Option.isSome_map] at hexists
  split at hexists
  · cases hexists
  · split at hexists
    next hcache =>
      cases hexists
      exact iff_of_true rfl (.inl hcache)
    next hcache =>
      rw [getRelExistsUncached_modified hexists]
      exact ⟨.inr, fun hknown => hknown.resolve_left hcache⟩

end Datadir
end Pageserver
end OpenNeon

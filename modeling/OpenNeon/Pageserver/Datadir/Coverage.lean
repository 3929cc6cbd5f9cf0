import OpenNeon.Pageserver.Datadir.Changes

/-!
# Versions that blocks can be rebuilt from

A block below the size of its relation is covered if it has a version that needs no
earlier one and that is not too old.  What counts as too old, and which relations
are watched, is a parameter; so is whether every version of a block has to rest on
an older one.  Within a record the versions from before the record stay, so the
metadata part of a record uncovers no block; it may only make a relation smaller, or
write the blocks that it adds.
-/

namespace OpenNeon
namespace Pageserver
namespace Datadir

open Base WalDecoder List

/-!
## Writes of blocks
-/

section Writes

variable {ws : List BlockWrite} {blocks : Int -> List (Lsn × Bool)} {key : Int}

theorem applyWrites_append (ws ws' : List BlockWrite) (blocks : Int -> List (Lsn × Bool)) :
    applyWrites (ws ++ ws') blocks = applyWrites ws' (applyWrites ws blocks) :=
  foldl_append

theorem applyWrites_cons (w : BlockWrite) (ws : List BlockWrite)
    (blocks : Int -> List (Lsn × Bool)) :
    applyWrites (w :: ws) blocks = applyWrites ws (applyWrites [w] blocks) :=
  rfl

theorem applyWrites_singleton (w : BlockWrite) (blocks : Int -> List (Lsn × Bool)) (key : Int) :
    applyWrites [w] blocks key =
      if key = w.key then putVersion w.lsn w.willInit (blocks key) else blocks key := by
  show Function.update blocks w.key _ key = _
  by_cases hkey : key = w.key
  · subst hkey
    rw [Function.update_self, if_pos rfl]
  · rw [Function.update_of_ne hkey, if_neg hkey]

variable {v : Lsn × Bool} {lsn : Lsn}

theorem mem_applyWrites (h : v ∈ applyWrites ws blocks key) :
    v ∈ blocks key ∨ exists w, w ∈ ws ∧ w.key = key ∧ v = (w.lsn, w.willInit) := by
  induction ws generalizing blocks with
  | nil => exact .inl h
  | cons w rest ih =>
    rw [applyWrites_cons] at h
    rcases ih h with hold | ⟨w', hw', hkey, hv⟩
    · rw [applyWrites_singleton] at hold
      split at hold
      next hkey =>
        rcases mem_putVersion hold with hv | hv
        · exact .inr ⟨w, by simp, hkey.symm, hv⟩
        · exact .inl hv
      · exact .inl hold
    · exact .inr ⟨w', by simp [hw'], hkey, hv⟩

theorem mem_applyWrites_of_ne (h : v ∈ blocks key) (hne : forall w, w ∈ ws -> w.lsn ≠ v.1) :
    v ∈ applyWrites ws blocks key := by
  induction ws generalizing blocks with
  | nil => exact h
  | cons w rest ih =>
    rw [applyWrites_cons]
    refine ih ?_ (fun w' hw' => hne w' (by simp [hw']))
    rw [applyWrites_singleton]
    split
    · exact mem_putVersion_of_ne h (hne w (by simp)).symm
    · exact h

theorem fresh_applyWrites (hws : forall w, w ∈ ws -> w.key = key -> w.lsn = lsn ∧ w.willInit = true)
    (h : (lsn, true) ∈ blocks key ∨ exists w, w ∈ ws ∧ w.key = key) :
    (lsn, true) ∈ applyWrites ws blocks key := by
  induction ws generalizing blocks with
  | nil =>
    rcases h with h | ⟨w, hw, _⟩
    · exact h
    · exact nomatch hw
  | cons w rest ih =>
    rw [applyWrites_cons]
    refine ih (fun w' hw' => hws w' (by simp [hw'])) ?_
    by_cases hkey : w.key = key
    · rcases hws w (by simp) hkey with ⟨hlsn, hinit⟩
      refine .inl ?_
      rw [applyWrites_singleton, if_pos hkey.symm, hlsn, hinit]
      exact self_mem_putVersion
    · rcases h with h | ⟨w', hw', hkey'⟩
      · refine .inl ?_
        rw [applyWrites_singleton, if_neg (fun heq => hkey heq.symm)]
        exact h
      · rcases mem_cons.mp hw' with rfl | hw'
        · exact absurd hkey' hkey
        · exact .inr ⟨w', hw', hkey'⟩

def Based (blocks : Int -> List (Lsn × Bool)) : Prop :=
  forall key v, (blocks key).getLast? = some v -> v.2 = true

theorem getLast?_putVersion (lsn : Lsn) (b : Bool) (versions : List (Lsn × Bool)) :
    (putVersion lsn b versions).getLast? = versions.getLast? ∨
      putVersion lsn b versions = [(lsn, b)] ∧ forall v, v ∈ versions -> v.1 = lsn := by
  rcases putVersion_suffix lsn b versions with ⟨rest, heq, ⟨front, rfl⟩, hothers⟩
  cases rest with
  | nil => exact .inr ⟨heq, fun v hv => by_contra (fun hne => nomatch hothers v hv hne)⟩
  | cons head tail =>
    rw [heq, getLast?_append_of_ne_nil _ (cons_ne_nil _ _), getLast?_cons_cons]
    exact .inl rfl

theorem Based.applyWrites (h : Based blocks) (hws : forall w, w ∈ ws -> w.lsn = lsn ∧
      (w.willInit = true ∨ exists v, v ∈ blocks w.key ∧ v.1 < lsn)) :
    Based (applyWrites ws blocks) := by
  induction ws generalizing blocks with
  | nil => exact h
  | cons w rest ih =>
    rw [applyWrites_cons]
    rcases hws w (by simp) with ⟨hlsn, hbase⟩
    refine ih ?_ ?_
    · intro key v hv
      rw [applyWrites_singleton] at hv
      split at hv
      next hkey =>
        subst hkey
        rcases getLast?_putVersion w.lsn w.willInit (blocks w.key) with hlast | ⟨hone, hsame⟩
        · exact h w.key v (hlast ▸ hv)
        · rw [hone] at hv
          cases hv
          refine hbase.resolve_right ?_
          rintro ⟨u, hu, hlt⟩
          exact absurd ((hsame u hu).trans hlsn) (Nat.ne_of_lt hlt)
      · exact h key v hv
    · intro w' hw'
      rcases hws w' (by simp [hw']) with ⟨hlsn', hbase'⟩
      refine ⟨hlsn', hbase'.imp_right ?_⟩
      rintro ⟨u, hu, hlt⟩
      refine ⟨u, mem_applyWrites_of_ne hu ?_, hlt⟩
      intro w'' hw''
      rw [mem_singleton] at hw''
      subst hw''
      rw [hlsn]
      exact (Nat.ne_of_lt hlt).symm

end Writes

namespace State

theorem versions_putBlock (s : State) (key : Int) (val : WalDecoder.Value) :
    (s.putBlock key val).versions = applyWrites [⟨key, s.lsn, val.willInit⟩] s.versions := by
  show applyWrites (((s.modification.pendingDataBatch.getD {}).put key val s.lsn).writes)
    s.tline.blocks = _
  rw [SerializedValueBatch.writes_put, applyWrites_append]
  unfold versions pendingWrites
  cases s.modification.pendingDataBatch <;> rfl

theorem versions_addBatch {s : State} {batch : SerializedValueBatch}
    (h : batch.hasData = false -> batch.writes = []) :
    (s.addBatch batch).versions = applyWrites batch.writes s.versions := by
  unfold versions pendingWrites addBatch
  cases s.modification.pendingDataBatch with
  | some pending =>
    show applyWrites (pending.extend batch).writes s.tline.blocks = _
    rw [SerializedValueBatch.writes_extend, applyWrites_append]
  | none =>
    cases hdata : batch.hasData with
    | true => rfl
    | false =>
      rw [h hdata]
      rfl

end State

theorem yields_putData (key : Key) (val : WalDecoder.Value) (s : State) :
    Prog.Yields (putData key val) s (fun _ s' => s' = s.putBlock key.packI128 val) := by
  have hkey : Prog.Yields (liftExcept (toCompact key) : Op Int) s
      (fun c s' => c = key.packI128 ∧ s' = s) := by
    rw [toCompact_eq]
    split
    · exact ⟨rfl, rfl⟩
    · exact trivial
  refine hkey.bind ?_
  rintro c s' ⟨rfl, rfl⟩
  exact rfl

theorem yields_putPageImage (key : Key) (img : List UInt8) (s : State) :
    Prog.Yields (putPageImage key img) s
      (fun _ s' => s' = s.putBlock key.packI128 (.image img)) := by
  exact Prog.Yields.refuse_bind (fun _ => yields_putData key _ s)

/-!
## Covered blocks
-/

/-- Which relations are watched, how old a covering version may be for a block that
came below the size at an LSN, and whether all versions have to rest on others. -/
structure CoverRule where
  rels : RelTag -> Prop
  floor : Lsn -> Lsn
  floor_le : forall lsn, floor lsn ≤ lsn
  strict : Prop

def blockKey (rel : RelTag) (blk : BlockNumber) : Int :=
  (relBlockToKey rel blk).packI128

def State.Below (s : State) (rel : RelTag) (blk : BlockNumber) : Prop :=
  exists n, s.sizeOf rel = some n ∧ blk < n

def State.Backed (rule : CoverRule) (s : State) (rel : RelTag) (blk : BlockNumber) : Prop :=
  exists v, v ∈ s.versions (blockKey rel blk) ∧ v.2 = true ∧ v.1 < s.lsn ∧
    rule.floor (s.belowSince rel blk) ≤ v.1

def State.Fresh (s : State) (rel : RelTag) (blk : BlockNumber) : Prop :=
  (s.lsn, true) ∈ s.versions (blockKey rel blk)

/-- What holds, apart from the blocks, while the record of an LSN is applied. -/
structure Ready (shard : ShardIdentity) (lsn : Lsn) (s : State) : Prop where
  coherent : s.Coherent
  wf : s.WF
  snapshot : forall l rel, s.tline.relSizeSnapshotCache l rel = none
  lsn_eq : s.lsn = lsn
  last_lt : s.tline.lastRecordLsn < s.lsn
  shard_eq : s.tline.shard = shard
  since_le : forall rel blk, s.belowSince rel blk ≤ s.lsn

variable {shard : ShardIdentity} {lsn : Lsn} {s s' : State}

theorem Ready.steady (h : Ready shard lsn s) (hsteady : Steady s s') (hcoherent : s'.Coherent)
    (hsince : forall rel blk, s'.belowSince rel blk ≤ s.lsn) : Ready shard lsn s' where
  coherent := hcoherent
  wf := hsteady.wf h.last_lt h.wf
  snapshot := by
    rw [hsteady.snapshot]
    exact h.snapshot
  lsn_eq := hsteady.lsn.trans h.lsn_eq
  last_lt := by
    rw [hsteady.lastRecordLsn, hsteady.lsn]
    exact h.last_lt
  shard_eq := hsteady.shard.trans h.shard_eq
  since_le := by
    rw [hsteady.lsn]
    exact hsince

theorem Ready.quiet (h : Ready shard lsn s) (hquiet : Quiet s s') : Ready shard lsn s' :=
  h.steady hquiet.toSteady (h.coherent.quiet hquiet)
    (fun rel blk => hquiet.belowSince ▸ h.since_le rel blk)

theorem Ready.resized {rel : RelTag} {old n : BlockNumber} (h : Ready shard lsn s)
    (hresized : Resized s s' rel old n) : Ready shard lsn s' := by
  refine h.steady hresized.toSteady (h.coherent.resized hresized) (fun r blk => ?_)
  rw [hresized.belowSince]
  split
  · exact Nat.le_refl _
  · exact h.since_le r blk

/-- What holds while the record of an LSN is applied.  Some blocks may be excepted. -/
structure Mid (rule : CoverRule) (shard : ShardIdentity) (lsn : Lsn)
    (excepted : RelTag -> BlockNumber -> Prop) (s : State) : Prop extends Ready shard lsn s where
  versions_le : forall key v, v ∈ s.versions key -> v.1 ≤ s.lsn
  backed : forall rel blk, rule.rels rel -> shard.isKeyLocal (relBlockToKey rel blk) = true ->
    s.Below rel blk -> s.Backed rule rel blk ∨ excepted rel blk
  based : rule.strict -> Based s.versions

namespace Mid

variable {rule : CoverRule} {excepted excepted' : RelTag -> BlockNumber -> Prop}

theorem mono (h : Mid rule shard lsn excepted s)
    (himp : forall rel blk, shard.isKeyLocal (relBlockToKey rel blk) = true ->
      excepted rel blk -> excepted' rel blk) : Mid rule shard lsn excepted' s :=
  { h with
    backed := fun rel blk hrel hlocal hbelow =>
      (h.backed rel blk hrel hlocal hbelow).imp_right (himp rel blk hlocal) }

theorem quiet (h : Mid rule shard lsn excepted s) (hquiet : Quiet s s') :
    Mid rule shard lsn excepted s' where
  toReady := h.toReady.quiet hquiet
  versions_le := by
    rw [hquiet.versions, hquiet.lsn]
    exact h.versions_le
  backed := by
    intro rel blk hrel hlocal hbelow
    unfold State.Backed
    rw [hquiet.versions, hquiet.lsn, hquiet.belowSince]
    refine h.backed rel blk hrel hlocal ?_
    unfold State.Below at hbelow ⊢
    rwa [hquiet.sizes] at hbelow
  based := by
    rw [hquiet.versions]
    exact h.based

variable {rel : RelTag}

section

variable {old n : BlockNumber} (h : Mid rule shard lsn excepted s)
  (hresized : Resized s s' rel old n)
  (hold : forall blk, blk < old -> blk < n -> s.Below rel blk)

include h hresized hold

theorem resize :
    Mid rule shard lsn (fun r blk => excepted r blk ∨ r = rel ∧ old ≤ blk ∧ blk < n) s' where
  toReady := h.toReady.resized hresized
  versions_le := by
    rw [hresized.versions, hresized.lsn]
    exact h.versions_le
  backed := by
    intro r blk hrel hlocal hbelow
    unfold State.Backed
    rw [hresized.versions, hresized.lsn, hresized.belowSince]
    rcases hbelow with ⟨m, hm, hlt⟩
    rw [hresized.sizes] at hm
    by_cases hr : r = rel
    · subst hr
      rw [if_pos rfl] at hm
      cases hm
      by_cases hge : old ≤ blk
      · exact .inr (.inr ⟨rfl, hge, hlt⟩)
      · rw [if_neg (fun hand => hge hand.2)]
        exact (h.backed r blk hrel hlocal (hold blk (UInt32.not_le.mp hge) hlt)).imp_right Or.inl
    · rw [if_neg hr] at hm
      rw [if_neg (fun hand => hr hand.1)]
      exact (h.backed r blk hrel hlocal ⟨m, hm, hlt⟩).imp_right Or.inl
  based := by
    rw [hresized.versions]
    exact h.based

theorem shrink (hle : rule.rels rel -> n ≤ old) : Mid rule shard lsn excepted s' :=
  { h.resize hresized hold with
    backed := by
      intro r blk hrel hlocal hbelow
      rcases (h.resize hresized hold).backed r blk hrel hlocal hbelow with
        hbacked | hexcepted | ⟨rfl, hge, hlt⟩
      · exact .inl hbacked
      · exact .inr hexcepted
      · exact absurd (UInt32.lt_of_le_of_lt hge hlt) (UInt32.not_lt.mpr (hle hrel)) }

end

theorem backed_applyWrites {ws : List BlockWrite} {blk : BlockNumber}
    (hws : forall w, w ∈ ws -> w.lsn = s.lsn) (hbacked : s.Backed rule rel blk)
    (hversions : s'.versions = applyWrites ws s.versions) (hlsn : s'.lsn = s.lsn)
    (hsince : s'.belowSince rel blk = s.belowSince rel blk) : s'.Backed rule rel blk := by
  rcases hbacked with ⟨v, hv, hinit, hlt, hfloor⟩
  refine ⟨v, ?_, hinit, by rw [hlsn]; exact hlt, by rw [hsince]; exact hfloor⟩
  rw [hversions]
  exact mem_applyWrites_of_ne hv (fun w hw => by rw [hws w hw]; exact (Nat.ne_of_lt hlt).symm)

theorem putBlock {key : Int} {val : WalDecoder.Value} (h : Mid rule shard lsn excepted s)
    (hbase : val.willInit = true ∨ (rule.strict -> exists v, v ∈ s.versions key ∧ v.1 < s.lsn)) :
    Mid rule shard lsn excepted (s.putBlock key val) where
  coherent := { h.coherent with }
  wf := { h.wf with }
  snapshot := h.snapshot
  lsn_eq := h.lsn_eq
  last_lt := h.last_lt
  shard_eq := h.shard_eq
  versions_le := by
    intro k v hv
    rw [State.versions_putBlock] at hv
    rcases mem_applyWrites hv with hold | ⟨w, hw, _, rfl⟩
    · exact h.versions_le k v hold
    · rw [mem_singleton] at hw
      subst hw
      exact Nat.le_refl _
  since_le := h.since_le
  backed := by
    intro rel blk hrel hlocal hbelow
    refine (h.backed rel blk hrel hlocal hbelow).imp_left (fun hbacked => ?_)
    refine backed_applyWrites ?_ hbacked (State.versions_putBlock s key val) rfl rfl
    intro w hw
    rw [mem_singleton] at hw
    rw [hw]
  based := by
    intro hstrict
    have hwrites : forall w, w ∈ [(⟨key, s.lsn, val.willInit⟩ : BlockWrite)] ->
        w.lsn = s.lsn ∧ (w.willInit = true ∨ exists v, v ∈ s.versions w.key ∧ v.1 < s.lsn) := by
      intro w hw
      rw [mem_singleton] at hw
      subst hw
      exact ⟨rfl, hbase.imp_right (fun hb => hb hstrict)⟩
    rw [State.versions_putBlock]
    exact (h.based hstrict).applyWrites hwrites

end Mid

end Datadir
end Pageserver
end OpenNeon

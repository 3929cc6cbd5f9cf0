import OpenNeon.Pageserver.Datadir.View

/-!
# Moving to another LSN and committing

The view of a modification is the newest of all versions of a key, pending or
committed.  Moving the modification to a later LSN and committing it keep the
versions, and so the view.
-/

namespace OpenNeon
namespace Pageserver
namespace Datadir

open Base WalDecoder

variable {alpha : Type}

theorem versionAt_of_le {versions : List (Lsn × alpha)} {x : Lsn}
    (h : forall v, v ∈ versions -> v.1 ≤ x) :
    versionAt versions x = versions.head?.map Prod.snd := by
  cases versions with
  | nil => rfl
  | cons v rest => simp [versionAt, h v (by simp)]

theorem putVersion_of_lt {versions : List (Lsn × alpha)} {lsn : Lsn}
    (h : forall v, v ∈ versions -> v.1 < lsn) (a : alpha) :
    putVersion lsn a versions = (lsn, a) :: versions := by
  cases versions with
  | nil => rfl
  | cons v rest => exact if_neg (Nat.ne_of_lt (h v (by simp)))

theorem foldl_putVersion {pending committed : List (Lsn × alpha)}
    (hpending : pending.Pairwise (fun v w => w.1 < v.1))
    (hlt : forall v, v ∈ pending -> forall w, w ∈ committed -> w.1 < v.1) :
    pending.reverse.foldl (fun versions v => putVersion v.1 v.2 versions) committed =
      pending ++ committed := by
  rw [List.foldl_reverse]
  induction pending with
  | nil => rfl
  | cons v rest ih =>
    rw [List.pairwise_cons] at hpending
    rw [List.foldr_cons, ih hpending.2 (fun w hw => hlt w (by simp [hw]))]
    exact putVersion_of_lt (List.forall_mem_append.mpr ⟨hpending.1, hlt v (by simp)⟩) v.2

namespace State

variable {s : State}

theorem WF.cur_eq (h : s.WF) (k : MetaKey) :
    s.cur k = (s.modification.pendingMetadataPages k ++ s.tline.metadata k).head?.map Prod.snd := by
  unfold cur
  cases hpending : s.modification.pendingMetadataPages k with
  | cons v rest => rfl
  | nil =>
    exact versionAt_of_le (fun v hv => (h.committed_le k v hv).trans (Nat.le_max_left _ _))

def withLsn (s : State) (lsn : Lsn) : State :=
  { s with modification := { s.modification with
      pendingLsns := s.modification.pendingLsns ++ [s.modification.lsn]
      lsn := lsn } }

def afterCommit (s : State) : State :=
  { s with
    tline := s.committed
    modification := { s.modification with
      pendingLsns := []
      pendingMetadataPages := fun _ => []
      pendingDataBatch := none
      pendingNblocks := 0 } }

theorem WF.withLsn (h : s.WF) {lsn : Lsn} (hle : s.lsn ≤ lsn) : (s.withLsn lsn).WF :=
  ⟨h.pending, h.committed, h.pending_lt, fun k v hv => (h.pending_le k v hv).trans hle,
    h.committed_le⟩

theorem cur_withLsn (h : s.WF) {lsn : Lsn} (hle : s.lsn ≤ lsn) : (s.withLsn lsn).cur = s.cur := by
  funext k
  rw [(h.withLsn hle).cur_eq, h.cur_eq]
  rfl

theorem metadata_afterCommit (h : s.WF) (k : MetaKey) :
    s.afterCommit.tline.metadata k = s.modification.pendingMetadataPages k ++ s.tline.metadata k :=
  foldl_putVersion (h.pending k) (fun v hv w hw =>
    Nat.lt_of_le_of_lt (h.committed_le k w hw) (h.pending_lt k v hv))

theorem foldl_max_le_iff {lsns : List Lsn} {last bound : Lsn} :
    lsns.foldl max last ≤ bound <-> last ≤ bound ∧ forall x, x ∈ lsns -> x ≤ bound := by
  induction lsns generalizing last with
  | nil => simp
  | cons lsn rest ih => rw [List.foldl_cons, ih, Nat.max_le, List.forall_mem_cons, and_assoc]

theorem lastRecordLsn_afterCommit (s : State) :
    s.tline.lastRecordLsn ≤ s.afterCommit.tline.lastRecordLsn ∧
      s.lsn ≤ s.afterCommit.tline.lastRecordLsn := by
  rcases foldl_max_le_iff.mp (Nat.le_refl s.afterCommit.tline.lastRecordLsn) with ⟨hlast, hall⟩
  exact ⟨hlast, hall s.lsn (by simp)⟩

theorem WF.afterCommit (h : s.WF) : s.afterCommit.WF where
  pending := fun _ => List.Pairwise.nil
  committed := by
    intro k
    rw [metadata_afterCommit h]
    exact List.pairwise_append.mpr ⟨h.pending k, h.committed k, fun v hv w hw =>
      Nat.lt_of_le_of_lt (h.committed_le k w hw) (h.pending_lt k v hv)⟩
  pending_lt := nofun
  pending_le := nofun
  committed_le := by
    intro k v hv
    rw [metadata_afterCommit h] at hv
    rcases List.mem_append.mp hv with hpending | hcommitted
    · exact (h.pending_le k v hpending).trans s.lastRecordLsn_afterCommit.2
    · exact (h.committed_le k v hcommitted).trans s.lastRecordLsn_afterCommit.1

theorem cur_afterCommit (h : s.WF) : s.afterCommit.cur = s.cur := by
  funext k
  rw [h.afterCommit.cur_eq, h.cur_eq, metadata_afterCommit h]
  rfl

end State

theorem yields_setLsn {s : State} {lsn : Lsn} (h : s.lsn < lsn) :
    Prog.Yields (setLsn lsn) s (fun _ s' => s' = s.withLsn lsn) := by
  refine Prog.Yields.refuse_bind (fun _ => Prog.Yields.onlyIf (fun _ => ?_) (fun hnot => ?_))
  · exact Prog.Yields.modify rfl
  · exact absurd h hnot

theorem yields_commit (s : State) : Prog.Yields commit s (fun _ s' => s' = s.afterCommit) := by
  exact Prog.Yields.ite (fun _ => rfl) (fun _ => Prog.Yields.throw)

end Datadir
end Pageserver
end OpenNeon

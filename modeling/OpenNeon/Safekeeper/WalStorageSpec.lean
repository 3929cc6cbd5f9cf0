import Mathlib.Data.List.GetD
import OpenNeon.Safekeeper.WalStorage

/-!
# What the storage operations do

Each operation is described once by a relation between the storage before and
after it, for its success and for its failures.
-/

namespace OpenNeon
namespace Safekeeper

open Base Prog List
open Prog (wp_bind wp_mono wp_pure wp_get wp_throw)

def StorageIo.Writes (io : StorageIo) : Prop :=
  forall piece, io.writeInSegment piece = true

namespace PhysicalStorage

/-!
## Patches
-/

theorem patch_nil (disk : Lsn -> UInt8) (pos : Lsn) : patch disk pos [] = disk := by
  funext x
  simp [patch]

theorem patch_append (disk : Lsn -> UInt8) (pos : Lsn) (a b : List UInt8) :
    patch (patch disk pos a) (pos + a.length) b = patch disk pos (a ++ b) := by
  funext x
  unfold patch
  rcases Nat.lt_or_ge x pos with hlt | hge
  · rw [if_neg (by lia), if_neg (by lia), if_neg (by lia)]
  · rcases Nat.lt_or_ge x (pos + a.length) with hin | hout
    · rw [if_neg (by lia), getD_append _ _ _ _ (by lia)]
    · rw [getD_append_right _ _ _ _ (by lia), getD_eq_default a _ (by lia)]
      lia

/-!
## The order of the positions

A storage without WAL can be truncated to any position, and a decoder that failed
before may then find the end of a record below it.  So the order of the positions
is only known above such a position `low`.
-/

structure Ok (low : Lsn) (s : PhysicalStorage) : Prop where
  seg_pos : 0 < s.walSegSize
  flush_le : s.flushRecordLsn ≤ max low s.writeRecordLsn
  /-- A record that is not flushed has been written in part at least. -/
  flush_lt : s.flushRecordLsn = s.writeRecordLsn ∨ s.flushRecordLsn < s.writeLsn ∨
    s.flushRecordLsn ≤ low
  decoder_ge : s.decoder.available = 0 ∨ s.writeRecordLsn ≤ max low s.decoder.lsn
  /-- Only a decoder that goes on knows of a record end beyond the written WAL. -/
  fed : s.writeRecordLsn ≤ max low s.writeLsn ∨ s.decoder.available = s.writeLsn
  empty : s.writeLsn = 0 -> s.writeRecordLsn = 0
  write_le : s.writeLsn ≤ s.diskEnd
  record_le : s.writeRecordLsn ≤ s.diskEnd

theorem Ok.mono {low' : Lsn} (hok : Ok low s) (hle : low ≤ low') : Ok low' s := by
  have hmax : forall {a b : Lsn}, a ≤ max low b -> a ≤ max low' b := by lia
  refine { hok with
    flush_le := hmax hok.flush_le
    flush_lt := hok.flush_lt.imp_right (.imp_right (Nat.le_trans · hle))
    decoder_ge := hok.decoder_ge.imp_right hmax
    fed := hok.fed.imp_left hmax }

/-!
## The relations
-/

/-- At most the file has been closed. -/
def Closed (s s' : PhysicalStorage) : Prop :=
  exists file, s' = { s with file := file }

/-- Bytes have been put into the files from a position on, of which the first are noted. -/
structure Wrote (s : PhysicalStorage) (pos : Lsn) (buf : List UInt8) (noted put : Nat)
    (s' : PhysicalStorage) : Prop where
  noted_le : noted ≤ put
  put_le : put ≤ buf.length
  writeLsn : s'.writeLsn = pos + noted
  disk : s'.disk = patch s.disk pos (buf.take put)
  diskEnd : s'.diskEnd = max s.diskEnd (pos + put)
  walSegSize : s'.walSegSize = s.walSegSize
  writeRecordLsn : s'.writeRecordLsn = s.writeRecordLsn
  flushRecordLsn : s'.flushRecordLsn = s.flushRecordLsn
  decoder : s'.decoder = s.decoder
  pending : s'.pendingWalTruncation = s.pendingWalTruncation

structure Appended (low : Lsn) (s : PhysicalStorage) (pos : Lsn) (buf : List UInt8)
    (s' : PhysicalStorage) : Prop where
  clean : s.pendingWalTruncation = false
  startpos : s.writeLsn = pos ∨ s.writeLsn = 0
  ok : Ok low s'
  writeLsn : s'.writeLsn = pos + buf.length
  disk : s'.disk = patch s.disk pos buf
  diskEnd_le : s'.diskEnd ≤ max low (max (max s.diskEnd (pos + buf.length)) s'.writeRecordLsn)
  pending : s'.pendingWalTruncation = false
  record_mono : s.writeRecordLsn ≤ max low s'.writeRecordLsn
  record_zero : s'.writeRecordLsn = 0 -> s.writeRecordLsn = 0
  flush_mono : s.flushRecordLsn ≤ max low s'.flushRecordLsn

def Torn (s : PhysicalStorage) (pos : Lsn) (buf : List UInt8) (s' : PhysicalStorage) : Prop :=
  (s.writeLsn = pos ∨ s.writeLsn = 0) ∧ exists noted put, Wrote s pos buf noted put s'

def Flushed (s s' : PhysicalStorage) : Prop :=
  exists flushed,
    s' = { s with flushedLsn := flushed, flushRecordLsn := s.writeRecordLsn }

def Reaches (s : PhysicalStorage) (endPos : Lsn) : Prop :=
  s.writeRecordLsn = 0 ∨ endPos ≤ s.writeRecordLsn

/-- The WAL ends at a position, because it has been truncated or did so before. -/
def Truncated (s : PhysicalStorage) (endPos : Lsn) (s' : PhysicalStorage) : Prop :=
  s.Reaches endPos ∧
    (s' = s ∧ s.pendingWalTruncation = false ∧ endPos = s.writeLsn ∧ endPos = s.flushRecordLsn ∨
      s' = (s.resetLsns endPos).cutFiles endPos)

/-!
## Writing
-/

variable {io : StorageIo} {low : Lsn} {s s' : PhysicalStorage}

variable {pos : Lsn} {mid : PhysicalStorage} {buf : List UInt8}

theorem Wrote.zero (buf : List UInt8) (hpos : s.writeLsn = pos) (hend : pos ≤ s.diskEnd) :
    Wrote s pos buf 0 0 s where
  noted_le := Nat.le_refl 0
  put_le := Nat.zero_le _
  writeLsn := hpos
  disk := by rw [take_zero, patch_nil]
  diskEnd := (Nat.max_eq_left hend).symm
  walSegSize := rfl
  writeRecordLsn := rfl
  flushRecordLsn := rfl
  decoder := rfl
  pending := rfl

theorem Wrote.trans {k noted put : Nat} (hfirst : Wrote s pos buf k k mid)
    (hrest : Wrote mid (pos + k) (buf.drop k) noted put s') :
    Wrote s pos buf (k + noted) (k + put) s' := by
  have hk : (buf.take k).length = k := by
    rw [length_take]
    have := hfirst.put_le
    lia
  have hle : k + put ≤ buf.length := by
    have hput := hrest.put_le
    rw [length_drop] at hput
    have := hfirst.put_le
    lia
  constructor
  · exact Nat.add_le_add_left hrest.noted_le k
  · exact hle
  · rw [hrest.writeLsn, Nat.add_assoc]
  · rw [hrest.disk, hfirst.disk]
    have hpatch := patch_append s.disk pos (buf.take k) ((buf.drop k).take put)
    rw [hk] at hpatch
    rw [hpatch, ← take_add]
  · rw [hrest.diskEnd, hfirst.diskEnd]
    lia
  · rw [hrest.walSegSize, hfirst.walSegSize]
  · rw [hrest.writeRecordLsn, hfirst.writeRecordLsn]
  · rw [hrest.flushRecordLsn, hfirst.flushRecordLsn]
  · rw [hrest.decoder, hfirst.decoder]
  · rw [hrest.pending, hfirst.pending]

theorem Wrote.piece (s : PhysicalStorage) (pos : Lsn) (file : Bool) (flushed : Lsn)
    {noted k : Nat} (hnoted : noted ≤ k) (hk : k ≤ buf.length) :
    Wrote s pos buf noted k
      { s with
        writeLsn := pos + noted
        disk := patch s.disk pos (buf.take k)
        diskEnd := max s.diskEnd (pos + k)
        file := file
        flushedLsn := flushed } where
  noted_le := hnoted
  put_le := hk
  writeLsn := rfl
  disk := rfl
  diskEnd := rfl
  walSegSize := rfl
  writeRecordLsn := rfl
  flushRecordLsn := rfl
  decoder := rfl
  pending := rfl

theorem bytesWrite_pos (hseg : 0 < s.walSegSize) (hne : buf ≠ []) :
    0 < s.bytesWrite buf.length := by
  have hoff : s.writeLsn % s.walSegSize < s.walSegSize := Nat.mod_lt _ hseg
  have hlen : 0 < buf.length := length_pos_iff.mpr hne
  unfold bytesWrite
  split <;> lia

theorem bytesWrite_le {len : Nat} : s.bytesWrite len ≤ len := by
  unfold bytesWrite
  split <;> lia

theorem writePieces_spec (fuel piece : Nat) (buf : List UInt8) :
    forall s : PhysicalStorage, 0 < s.walSegSize -> s.writeLsn ≤ s.diskEnd ->
      buf.length ≤ fuel ->
      wp (writePieces io fuel piece buf)
        (fun _ s' => Wrote s s.writeLsn buf buf.length buf.length s')
        (fun _ s' => ¬ io.Writes ∧
          exists noted put, Wrote s s.writeLsn buf noted put s') s := by
  induction fuel generalizing piece buf with
  | zero =>
    intro s _ hend hfuel
    have hnil : buf = [] := eq_nil_of_length_eq_zero (by lia)
    subst hnil
    exact Wrote.zero [] rfl hend
  | succ fuel ih =>
    intro s hseg hend hfuel
    rw [writePieces]
    split
    case isTrue hnil =>
      subst hnil
      exact Wrote.zero [] rfl hend
    case isFalse hne =>
      have hkpos : 0 < s.bytesWrite buf.length := bytesWrite_pos hseg hne
      have hkle : s.bytesWrite buf.length ≤ buf.length := bytesWrite_le
      have htake : (buf.take (s.bytesWrite buf.length)).length = s.bytesWrite buf.length := by
        rw [length_take, Nat.min_eq_left hkle]
      have hrest : forall file flushed,
          wp (writePieces io fuel (piece + 1) (buf.drop (s.bytesWrite buf.length)))
            (fun _ s' => Wrote s s.writeLsn buf buf.length buf.length s')
            (fun _ s' => ¬ io.Writes ∧
              exists noted put, Wrote s s.writeLsn buf noted put s')
            { s with
              writeLsn := s.writeLsn + s.bytesWrite buf.length
              disk := patch s.disk s.writeLsn (buf.take (s.bytesWrite buf.length))
              diskEnd := max s.diskEnd (s.writeLsn + s.bytesWrite buf.length)
              file := file
              flushedLsn := flushed } := by
        intro file flushed
        have hfirst := Wrote.piece s s.writeLsn file flushed (Nat.le_refl _) hkle
        refine wp_mono (ih (piece + 1) _ _ hseg (Nat.le_max_right _ _) ?_) ?_ ?_
        · rw [length_drop]
          lia
        · intro _ s' hwrote
          have hall := hfirst.trans hwrote
          rw [length_drop, Nat.add_sub_cancel' hkle] at hall
          exact hall
        · intro _ s' hfail
          rcases hfail with ⟨hio, noted, put, hwrote⟩
          exact ⟨hio, _, _, hfirst.trans hwrote⟩
      simp only [writeInSegment, wp_bind, wp_get, htake]
      split
      case isTrue hio =>
        split
        · exact hrest _ _
        · exact hrest _ _
      case isFalse hio =>
        constructor
        · intro hwrites
          exact hio (hwrites piece)
        · exact ⟨0, _, Wrote.piece s _ _ _ (Nat.zero_le _) hkle⟩

theorem writeExact_spec (buf : List UInt8) (hok : Ok low s)
    (hpos : s.writeLsn = pos ∨ s.writeLsn = 0) :
    wp (writeExact io pos buf) (fun _ s' => Wrote s pos buf buf.length buf.length s')
      (fun _ s' => Closed s s' ∨ ¬ io.Writes ∧ Torn s pos buf s') s := by
  have hpieces : forall t : PhysicalStorage, t.writeLsn = pos -> pos ≤ t.diskEnd ->
      0 < t.walSegSize ->
      (forall noted put s', Wrote t pos buf noted put s' -> Wrote s pos buf noted put s') ->
      wp (writePieces io buf.length 0 buf) (fun _ s' => Wrote s pos buf buf.length buf.length s')
        (fun _ s' => Closed s s' ∨ ¬ io.Writes ∧ Torn s pos buf s') t := by
    intro t hwrite hend hseg hmove
    refine wp_mono (writePieces_spec _ 0 buf t hseg (by lia) (Nat.le_refl _)) ?_ ?_
    · intro _ s' hwrote
      rw [hwrite] at hwrote
      exact hmove _ _ _ hwrote
    · intro _ s' hfail
      rcases hfail with ⟨hio, noted, put, hwrote⟩
      rw [hwrite] at hwrote
      exact Or.inr ⟨hio, hpos, noted, put, hmove _ _ _ hwrote⟩
  have hmoved : forall (file : Bool) noted put s',
      Wrote { s with writeLsn := pos, diskEnd := max s.diskEnd pos, file := file }
        pos buf noted put s' -> Wrote s pos buf noted put s' := by
    intro file noted put s' hwrote
    refine { hwrote with diskEnd := ?_ }
    have hend := hwrote.diskEnd
    lia
  simp only [writeExact, wp_bind, wp_get]
  split
  case isTrue hne =>
    split
    · split
      · exact Or.inl ⟨false, rfl⟩
      · exact hpieces _ rfl (Nat.le_max_right _ _) hok.seg_pos (hmoved _)
    · exact hpieces _ rfl (Nat.le_max_right _ _) hok.seg_pos (hmoved _)
  case isFalse heq =>
    have hwrite : s.writeLsn = pos := not_not.mp heq
    have hend := hok.write_le
    exact hpieces s hwrite (by lia) hok.seg_pos (fun _ _ _ hwrote => hwrote)

/-!
## Finding the ends of records
-/

/-- Records have been taken over from a decoder that got its input. -/
structure Polled (low : Lsn) (s s' : PhysicalStorage) : Prop where
  flush_lt : s'.flushRecordLsn = s'.writeRecordLsn ∨ s'.flushRecordLsn < s'.writeLsn ∨
    s'.flushRecordLsn ≤ low
  flush_le : s'.flushRecordLsn ≤ max low s'.writeRecordLsn
  decoder_ge : s'.writeRecordLsn ≤ max low s'.decoder.lsn
  available : s'.decoder.available = s.decoder.available
  writeLsn : s'.writeLsn = s.writeLsn
  disk : s'.disk = s.disk
  record_le : s'.writeRecordLsn ≤ s'.diskEnd
  diskEnd_mono : s.diskEnd ≤ s'.diskEnd
  diskEnd_le : s'.diskEnd ≤ max low (max s.diskEnd s'.writeRecordLsn)
  walSegSize : s'.walSegSize = s.walSegSize
  pending : s'.pendingWalTruncation = s.pendingWalTruncation
  record_mono : s.writeRecordLsn ≤ max low s'.writeRecordLsn
  record_zero : s'.writeRecordLsn = 0 -> s.writeRecordLsn = 0
  flush_mono : s.flushRecordLsn ≤ max low s'.flushRecordLsn
  input : s'.writeRecordLsn = s.writeRecordLsn ∨ 0 < s.decoder.available

theorem Polled.refl (hlt : s.flushRecordLsn = s.writeRecordLsn ∨ s.flushRecordLsn < s.writeLsn ∨
      s.flushRecordLsn ≤ low)
    (hle : s.flushRecordLsn ≤ max low s.writeRecordLsn)
    (hdec : s.writeRecordLsn ≤ max low s.decoder.lsn)
    (hend : s.writeRecordLsn ≤ s.diskEnd) : Polled low s s where
  flush_lt := hlt
  flush_le := hle
  decoder_ge := hdec
  available := rfl
  writeLsn := rfl
  disk := rfl
  record_le := hend
  diskEnd_mono := Nat.le_refl _
  diskEnd_le := by lia
  walSegSize := rfl
  pending := rfl
  record_mono := Nat.le_max_right _ _
  record_zero := fun hzero => hzero
  flush_mono := Nat.le_max_right _ _
  input := Or.inl rfl

theorem Polled.trans (hfirst : Polled low s mid) (hrest : Polled low mid s') : Polled low s s' := by
  have hrecord := hrest.record_mono
  have hflush := hrest.flush_mono
  refine { hrest with
    available := hrest.available.trans hfirst.available
    writeLsn := hrest.writeLsn.trans hfirst.writeLsn
    disk := hrest.disk.trans hfirst.disk
    diskEnd_mono := Nat.le_trans hfirst.diskEnd_mono hrest.diskEnd_mono
    diskEnd_le := ?_
    walSegSize := hrest.walSegSize.trans hfirst.walSegSize
    pending := hrest.pending.trans hfirst.pending
    record_mono := ?_
    record_zero := fun hzero => hfirst.record_zero (hrest.record_zero hzero)
    flush_mono := ?_
    input := ?_ }
  · have := hfirst.diskEnd_le
    have := hrest.diskEnd_le
    lia
  · have := hfirst.record_mono
    lia
  · have := hfirst.flush_mono
    lia
  · have hsame := hfirst.available
    rcases hrest.input with heq | hpos
    · rw [heq]
      exact hfirst.input
    · lia

theorem Polled.endRecord (len : Nat) (hpolled : Polled low s s)
    (havail : s.decoder.available = s.writeLsn)
    (hinput : s.decoder.lsn < s.decoder.available) :
    Polled low s (s.endRecord (s.decoder.lsn + len + 1)) := by
  have hle := hpolled.flush_le
  have hdec := hpolled.decoder_ge
  constructor
  · show (if _ then _ else _) = _ ∨ (if _ then _ else _) < s.writeLsn ∨
      (if _ then _ else _) ≤ low
    split
    · exact Or.inl rfl
    · lia
  · show (if _ then _ else _) ≤ max low (s.decoder.lsn + len + 1)
    split <;> lia
  · exact Nat.le_max_right _ _
  · rfl
  · rfl
  · rfl
  · exact Nat.le_max_right _ _
  · exact Nat.le_max_left _ _
  · exact Nat.le_max_right _ _
  · rfl
  · rfl
  · show s.writeRecordLsn ≤ max low (s.decoder.lsn + len + 1)
    lia
  · intro hzero
    cases hzero
  · show s.flushRecordLsn ≤ max low (if _ then _ else _)
    split <;> lia
  · exact Or.inr (Nat.lt_of_le_of_lt (Nat.zero_le _) hinput)

theorem pollRecords_spec (lens : List Nat) :
    forall s : PhysicalStorage, Polled low s s -> s.decoder.available = s.writeLsn ->
      wp (pollRecords lens) (fun _ s' => Polled low s s') (fun _ _ => False) s := by
  induction lens with
  | nil =>
    intro s hpolled _
    exact hpolled
  | cons len rest ih =>
    intro s hpolled havail
    simp only [pollRecords, wp_bind, wp_get]
    split
    case isTrue =>
      exact hpolled
    case isFalse hinput =>
      have hone := hpolled.endRecord len havail (Nat.lt_of_not_le hinput)
      have hself : Polled low (s.endRecord (s.decoder.lsn + len + 1))
          (s.endRecord (s.decoder.lsn + len + 1)) :=
        Polled.refl hone.flush_lt hone.flush_le hone.decoder_ge (Nat.le_max_right _ _)
      refine wp_mono (ih _ hself havail) ?_ ?_
      · intro _ s' hrest
        exact hone.trans hrest
      · intro _ _ hfalse
        exact hfalse

theorem Wrote.polled_feed (hok : Ok low s) (hpos : s.writeLsn = pos ∨ s.writeLsn = 0)
    (hwrote : Wrote s pos buf buf.length buf.length s') :
    Polled low (s'.feed pos buf.length) (s'.feed pos buf.length) ∧
      (s'.feed pos buf.length).decoder.available = s'.writeLsn := by
  have hrecord := hwrote.writeRecordLsn
  have hflush := hwrote.flushRecordLsn
  have hwrite := hwrote.writeLsn
  have hle := hok.flush_le
  constructor
  · apply Polled.refl
    · show (if _ then _ else _) = _ ∨ (if _ then _ else _) < s'.writeLsn ∨
        (if _ then _ else _) ≤ low
      split
      · exact Or.inl rfl
      · show s'.flushRecordLsn = s'.writeRecordLsn ∨ _
        have hlt := hok.flush_lt
        lia
    · show (if _ then _ else _) ≤ max low s'.writeRecordLsn
      split <;> lia
    · show s'.writeRecordLsn ≤ max low (if _ then _ else _ : WalStreamDecoder).lsn
      rw [hwrote.decoder]
      split
      case isTrue hne =>
        show s'.writeRecordLsn ≤ max low pos
        rcases hok.fed with hfed | hfed
        · lia
        · have hzero : s.writeLsn = 0 := by lia
          have := hok.empty hzero
          lia
      case isFalse heq =>
        rcases hok.decoder_ge with hzero | hge
        · have := hok.empty (by lia)
          lia
        · lia
    · show s'.writeRecordLsn ≤ s'.diskEnd
      have hend := hok.record_le
      rw [hwrote.diskEnd]
      lia
  · show (if _ then _ else _ : WalStreamDecoder).available + buf.length = s'.writeLsn
    split
    · exact hwrite.symm
    · lia

theorem Appended.of_polled (hok : Ok low s) (hclean : s.pendingWalTruncation = false)
    (hpos : s.writeLsn = pos ∨ s.writeLsn = 0)
    (hwrote : Wrote s pos buf buf.length buf.length mid)
    (hpolled : Polled low (mid.feed pos buf.length) s') {available : Lsn}
    (havail : available = s'.writeLsn ∨ s'.writeRecordLsn ≤ max low s'.writeLsn) :
    Appended low s pos buf { s' with decoder := ⟨s'.decoder.lsn, available⟩ } := by
  have hwrite : s'.writeLsn = pos + buf.length := hpolled.writeLsn.trans hwrote.writeLsn
  have hend : s'.diskEnd ≤ max low (max mid.diskEnd s'.writeRecordLsn) :=
    hpolled.diskEnd_le
  have hend' : mid.diskEnd ≤ s'.diskEnd := hpolled.diskEnd_mono
  have hmid := hwrote.diskEnd
  have hrecord : mid.writeRecordLsn ≤ max low s'.writeRecordLsn := hpolled.record_mono
  have hrecord0 := hwrote.writeRecordLsn
  have hflush0 := hwrote.flushRecordLsn
  have hflush : mid.flushRecordLsn ≤ max low s'.flushRecordLsn := by
    have hmono := hpolled.flush_mono
    have hfeed : (mid.feed pos buf.length).flushRecordLsn =
        if mid.writeRecordLsn ≤ mid.flushedLsn then mid.writeRecordLsn
        else mid.flushRecordLsn := rfl
    have hle := hok.flush_le
    rw [hfeed] at hmono
    split at hmono <;> lia
  constructor
  · exact hclean
  · exact hpos
  · constructor
    · rw [hpolled.walSegSize]
      show 0 < mid.walSegSize
      rw [hwrote.walSegSize]
      exact hok.seg_pos
    · exact hpolled.flush_le
    · exact hpolled.flush_lt
    · exact Or.inr hpolled.decoder_ge
    · exact havail.symm
    · intro hzero
      have hfeed := (hwrote.polled_feed hok hpos).2
      have hempty := hok.empty (by lia)
      have hnoted := hwrote.writeLsn
      rcases hpolled.input with heq | hinput
      · rw [heq]
        show mid.writeRecordLsn = 0
        lia
      · lia
    · lia
    · exact hpolled.record_le
  · exact hwrite
  · rw [hpolled.disk]
    show mid.disk = _
    rw [hwrote.disk, take_length]
  · lia
  · rw [hpolled.pending]
    show mid.pendingWalTruncation = false
    rw [hwrote.pending, hclean]
  · lia
  · intro hzero
    have hmid : mid.writeRecordLsn = 0 := hpolled.record_zero hzero
    lia
  · lia

theorem writeWal_spec (buf : List UInt8) (hok : Ok low s) :
    wp (writeWal io pos buf) (fun _ s' => Appended low s pos buf s')
      (fun _ s' => Closed s s' ∨ Appended low s pos buf s' ∨
        ¬ io.Writes ∧ s.pendingWalTruncation = false ∧ Torn s pos buf s') s := by
  simp only [writeWal, wp_bind, wp_get, wp_ite]
  split
  · exact Or.inl ⟨s.file, rfl⟩
  split
  · exact Or.inl ⟨s.file, rfl⟩
  split
  · exact Or.inl ⟨s.file, rfl⟩
  rename_i hrewrite hgap hpending
  have hclean : s.pendingWalTruncation = false := by simpa using hpending
  have hpos : s.writeLsn = pos ∨ s.writeLsn = 0 := by lia
  refine wp_mono (writeExact_spec buf hok hpos) ?_ ?_
  · intro _ mid hwrote
    have hfeed := hwrote.polled_feed hok hpos
    simp only [decodeRecords, wp_bind, Prog.wp_modify]
    refine wp_mono (pollRecords_spec _ _ hfeed.1 hfeed.2) ?_ ?_
    · intro _ s' hpolled
      simp only [wp_bind, wp_get]
      have havail : s'.decoder.available = s'.writeLsn := by
        rw [hpolled.available, hfeed.2, hpolled.writeLsn]
        rfl
      split
      case isTrue herror =>
        have hge := hpolled.decoder_ge
        exact Or.inr (Or.inl (Appended.of_polled hok hclean hpos hwrote hpolled (Or.inr (by lia))))
      case isFalse => exact Appended.of_polled hok hclean hpos hwrote hpolled (Or.inl havail)
    · intro _ _ hfalse
      exact hfalse.elim
  · intro _ s' hfail
    rcases hfail with hclosed | ⟨hio, htorn⟩
    · exact Or.inl hclosed
    · exact Or.inr (Or.inr ⟨hio, hclean, htorn⟩)

/-!
## Flushing and truncating
-/

theorem flushWal_spec :
    wp (flushWal io) (fun _ s' => Flushed s s') (fun _ s' => Closed s s') s := by
  simp only [flushWal, wp_bind, wp_get]
  split
  case isTrue heq =>
    refine ⟨s.flushedLsn, ?_⟩
    cases s
    cases heq
    rfl
  case isFalse =>
    split
    · split
      · exact ⟨s.writeLsn, rfl⟩
      · exact ⟨false, rfl⟩
    · exact ⟨s.file, rfl⟩

theorem truncateWal_spec (endPos : Lsn) :
    wp (truncateWal io endPos) (fun _ s' => Truncated s endPos s')
      (fun _ s' => s' = s ∨ ¬ (io.truncateSync = true ∧ io.truncateFiles = true) ∧
        s.Reaches endPos ∧ s' = s.resetLsns endPos) s := by
  simp only [truncateWal, wp_bind, wp_get, wp_ite, wp_throw, wp_set]
  split
  case isTrue =>
    exact Or.inl trivial
  case isFalse hreach =>
    have hreaches : s.Reaches endPos := by
      unfold Reaches
      lia
    split
    case isTrue hquick =>
      exact ⟨hreaches, Or.inl ⟨rfl, hquick⟩⟩
    case isFalse =>
      split
      next hsync =>
        exact Or.inr ⟨fun hworks => by simp [hworks.1] at hsync, hreaches, trivial⟩
      · split
        next hfiles =>
          exact Or.inr ⟨fun hworks => by simp [hworks.2] at hfiles, hreaches, trivial⟩
        · exact ⟨hreaches, Or.inr rfl⟩

theorem initializeFirstSegment_spec :
    wp (initializeFirstSegment io) (fun _ s' => s' = s) (fun _ s' => s' = s) s := by
  simp only [initializeFirstSegment]
  split <;> trivial

/-!
## The order is kept
-/

theorem Closed.ok (hclosed : Closed s s') (hok : Ok low s) : Ok low s' := by
  rcases hclosed with ⟨file, rfl⟩
  exact { hok with }

theorem Flushed.ok (hflushed : Flushed s s') (hok : Ok low s) : Ok low s' := by
  rcases hflushed with ⟨flushed, rfl⟩
  exact ⟨hok.seg_pos, Nat.le_max_right _ _, Or.inl rfl, hok.decoder_ge, hok.fed,
    hok.empty, hok.write_le, hok.record_le⟩

theorem Truncated.ok {endPos : Lsn} (htrunc : Truncated s endPos s') (hok : Ok low s)
    (hempty : s.writeRecordLsn = 0 -> endPos ≤ low) : Ok low s' := by
  rcases htrunc with ⟨hreach, ⟨rfl, _⟩ | rfl⟩
  · exact hok
  · constructor
    · exact hok.seg_pos
    · exact Nat.le_max_right _ _
    · exact Or.inl rfl
    · show s.decoder.available = 0 ∨ endPos ≤ max low s.decoder.lsn
      unfold Reaches at hreach
      have hdec := hok.decoder_ge
      lia
    · exact Or.inl (Nat.le_max_right _ _)
    · exact fun hzero => hzero
    · exact Nat.le_refl _
    · exact Nat.le_refl _

theorem new_ok {commitLsn endOfWal diskEnd : Lsn} {walSegSize : Nat}
    {disk : Lsn -> UInt8} (hseg : 0 < walSegSize)
    (hnew : new commitLsn walSegSize disk diskEnd endOfWal = .ok s) :
    Ok 0 s ∧ commitLsn ≤ s.flushRecordLsn ∧ s.flushRecordLsn = s.writeRecordLsn := by
  simp only [new] at hnew
  generalize (if commitLsn = 0 then 0 else endOfWal) = writeLsn at hnew
  split at hnew
  · cases hnew
  next hle =>
    cases hnew
    refine ⟨⟨hseg, ?_, Or.inl rfl, Or.inr ?_, Or.inr rfl, fun hzero => hzero, ?_, ?_⟩,
      Nat.le_of_not_lt hle, rfl⟩
    all_goals exact Nat.le_max_right _ _

end PhysicalStorage

end Safekeeper
end OpenNeon

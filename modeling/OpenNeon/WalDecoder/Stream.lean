import OpenNeon.Base.Codec
import OpenNeon.Base.Incremental

/-!
# The WAL stream decoder

The decoder is fed WAL in chunks.  It validates the page headers, puts records together
that cross page boundaries, and skips padding and what follows an `XLOG_SWITCH` record.
A record that lies on one page and has arrived in full is taken at once.
-/

namespace OpenNeon
namespace WalDecoder

open Base

/-! ## The decoder -/

def WAL_SEGMENT_SIZE : Nat := 16 * 1024 * 1024
def XLOG_BLCKSZ : Nat := 8192
def XLOG_SIZE_OF_XLOG_SHORT_PHD : Nat := 24
def XLOG_SIZE_OF_XLOG_LONG_PHD : Nat := 40
def XLOG_SIZE_OF_XLOG_RECORD : Nat := 24
def XLOG_RECORD_CRC_OFFS : Nat := 20

/-- What depends on the PostgreSQL version, and the checksum. -/
structure WalFormat where
  XLOG_PAGE_MAGIC : Nat
  crc32c : List UInt8 -> Nat

namespace WalStreamDecoder

inductive State where
  | waitingForRecord
  | reassemblingRecord (recordbuf : List UInt8) (contlen : Nat) (nonzero : contlen ≠ 0)
  | skippingEverything (skipUntilLsn : Nat)

inductive Message where
  | xlpMagic (found : Nat)
  | xlpPageaddr (found : Nat)
  | unexpectedContrecord
  | remLenWithoutContrecord (found : Nat)
  | contrecordExpected
  | xlpRemLen (found expected : Nat)
  | xlTotLen (found : Nat)
  | crcMismatch

/-- A `WalDecodeError`, or a panic of an LSN addition or the assertion on skipping. -/
inductive Failure where
  | walDecodeError (msg : Message) (lsn : Nat)
  | panicked

end WalStreamDecoder

structure WalStreamDecoder where
  lsn : Nat
  inputbuf : List UInt8
  state : WalStreamDecoder.State

namespace WalStreamDecoder

def new (lsn : Nat) : WalStreamDecoder :=
  { lsn, inputbuf := [], state := .waitingForRecord }

def available (d : WalStreamDecoder) : Nat :=
  d.lsn + d.inputbuf.length

def feedBytes (d : WalStreamDecoder) (buf : List UInt8) : WalStreamDecoder :=
  { d with inputbuf := d.inputbuf ++ buf }

/-- A turn of the loop may deliver a record with the LSN of the next one. -/
abbrev Turn := Step WalStreamDecoder (Nat × List UInt8) Failure

def field (bytes : List UInt8) (offset width : Nat) : Nat :=
  beValue ((bytes.drop offset).take width).reverse

def takeBytes (d : WalStreamDecoder) (n : Nat)
    (k : List UInt8 -> WalStreamDecoder -> Turn) : Turn :=
  if d.inputbuf.length < n then .more
  else if 2 ^ 64 ≤ d.lsn + n then .fail .panicked
  else k (d.inputbuf.take n) { d with lsn := d.lsn + n, inputbuf := d.inputbuf.drop n }

section

variable (fmt : WalFormat)

def validatePageHeader (d : WalStreamDecoder) (hdr : List UInt8) : Except Message Unit :=
  let xlpMagic := field hdr 0 2
  let contrecord := field hdr 2 2 % 2 = 1
  let xlpPageaddr := field hdr 8 8
  let xlpRemLen := field hdr 16 4
  if xlpMagic ≠ fmt.XLOG_PAGE_MAGIC then .error (.xlpMagic xlpMagic)
  else if xlpPageaddr ≠ d.lsn then .error (.xlpPageaddr xlpPageaddr)
  else
    match d.state with
    | .waitingForRecord =>
      if contrecord then .error .unexpectedContrecord
      else if xlpRemLen ≠ 0 then .error (.remLenWithoutContrecord xlpRemLen)
      else .ok ()
    | .reassemblingRecord _ contlen _ =>
      if ¬ contrecord then .error .contrecordExpected
      else if xlpRemLen ≠ contlen then .error (.xlpRemLen xlpRemLen contlen)
      else .ok ()
    | .skippingEverything _ => .ok ()

def headerSize (d : WalStreamDecoder) : Nat :=
  match d.state with
  | .skippingEverything _ => 0
  | _ =>
    if d.lsn % WAL_SEGMENT_SIZE = 0 then XLOG_SIZE_OF_XLOG_LONG_PHD
    else if d.lsn % XLOG_BLCKSZ = 0 then XLOG_SIZE_OF_XLOG_SHORT_PHD
    else 0

def readHeader (d : WalStreamDecoder) : Turn :=
  d.takeBytes d.headerSize fun hdr d' =>
    match validatePageHeader fmt d hdr with
    | .error msg => .fail (.walDecodeError msg d.lsn)
    | .ok () => .next d' none

def isXlogSwitchRecord (recordbuf : List UInt8) : Bool :=
  field recordbuf 16 1 = 0x40 && field recordbuf 17 1 = 0

def completeRecord (recordbuf : List UInt8) (d : WalStreamDecoder) : Turn :=
  if fmt.crc32c (recordbuf.drop (XLOG_RECORD_CRC_OFFS + 4) ++
      recordbuf.take XLOG_RECORD_CRC_OFFS) ≠ field recordbuf XLOG_RECORD_CRC_OFFS 4 then
    .fail (.walDecodeError .crcMismatch d.lsn)
  else if isXlogSwitchRecord recordbuf then
    let next := d.lsn + (WAL_SEGMENT_SIZE - d.lsn % WAL_SEGMENT_SIZE) % WAL_SEGMENT_SIZE
    if 2 ^ 64 ≤ next then .fail .panicked
    else .next { d with state := .skippingEverything next } (some (next, recordbuf))
  else
    let next := (d.lsn + 7) % 2 ^ 64 / 8 * 8
    .next { d with state := .skippingEverything next } (some (next, recordbuf))

def remainingInBlock (lsn : Nat) : Nat :=
  XLOG_BLCKSZ - lsn % XLOG_BLCKSZ

/-- Reads page contents.  The source has the fast path. -/
def readContents (fastPath : Bool) (d : WalStreamDecoder) : Turn :=
  match d.state with
  | .waitingForRecord =>
    if d.inputbuf.length < 4 then .more
    else
      let xlTotLen := field d.inputbuf 0 4
      if h : xlTotLen < XLOG_SIZE_OF_XLOG_RECORD then
        .fail (.walDecodeError (.xlTotLen xlTotLen) d.lsn)
      else if fastPath ∧ xlTotLen ≤ d.inputbuf.length ∧
          xlTotLen ≤ remainingInBlock d.lsn then
        d.takeBytes xlTotLen (completeRecord fmt)
      else
        .next { d with state := .reassemblingRecord [] xlTotLen (by
          rintro h0
          exact h (h0 ▸ (by decide))) } none
  | .reassemblingRecord recordbuf contlen _ =>
    let n := min contlen (remainingInBlock d.lsn)
    d.takeBytes n fun bytes d' =>
      if h : contlen - n ≠ 0 then
        .next { d' with
          state := .reassemblingRecord (recordbuf ++ bytes) (contlen - n) h } none
      else completeRecord fmt (recordbuf ++ bytes) d'
  | .skippingEverything skipUntilLsn =>
    if skipUntilLsn < d.lsn then .fail .panicked
    else
      d.takeBytes (skipUntilLsn - d.lsn) fun _ d' =>
        .next { d' with state := .waitingForRecord } none

/-- A turn of `poll_decode_internal`; the contents after a header are the next turn here. -/
def turn (fastPath : Bool) (d : WalStreamDecoder) : Turn :=
  if d.headerSize = 0 then d.readContents fmt fastPath else d.readHeader fmt

end

/-! ## Every turn makes progress and keeps the position -/

def rank (d : WalStreamDecoder) : Nat :=
  3 * d.inputbuf.length +
    match d.state with
    | .waitingForRecord => 1
    | .reassemblingRecord _ _ _ => 0
    | .skippingEverything _ => 2

/-- The input still lies between the same positions, and there is less to do. -/
structure Follows (d d' : WalStreamDecoder) : Prop where
  available : d'.available = d.available
  rank : d'.rank < d.rank

variable {fmt : WalFormat} {d d' : WalStreamDecoder} {n : Nat} {fastPath : Bool}
  {o : Option (Nat × List UInt8)} {k : List UInt8 -> WalStreamDecoder -> Turn}

theorem takeBytes_next (h : d.takeBytes n k = .next d' o) :
    n ≤ d.inputbuf.length ∧
      k (d.inputbuf.take n) { d with lsn := d.lsn + n, inputbuf := d.inputbuf.drop n } =
        .next d' o := by
  unfold takeBytes at h
  split_ifs at h with h1 h2
  exact ⟨Nat.le_of_not_lt h1, h⟩

theorem completeRecord_next {recordbuf : List UInt8}
    (h : completeRecord fmt recordbuf d = .next d' o) :
    exists next, d' = { d with state := .skippingEverything next } := by
  unfold completeRecord at h
  dsimp only at h
  split_ifs at h <;> cases h <;> exact ⟨_, rfl⟩

theorem remainingInBlock_pos (lsn : Nat) : 0 < remainingInBlock lsn :=
  Nat.sub_pos_of_lt (Nat.mod_lt _ (by decide))

theorem readHeader_follows (hsize : d.headerSize ≠ 0) (h : d.readHeader fmt = .next d' o) :
    Follows d d' := by
  obtain ⟨hle, hk⟩ := takeBytes_next h
  split at hk
  · cases hk
  · cases hk
    constructor <;> simp [available, WalStreamDecoder.rank] <;> omega

theorem readContents_follows (h : d.readContents fmt fastPath = .next d' o) : Follows d d' := by
  unfold readContents at h
  dsimp only at h
  split at h
  next hs =>
    split_ifs at h with h1 h2 h3
    · obtain ⟨hle, hk⟩ := takeBytes_next h
      obtain ⟨next, rfl⟩ := completeRecord_next hk
      simp only [XLOG_SIZE_OF_XLOG_RECORD] at h2
      constructor <;> simp [available, WalStreamDecoder.rank] <;> omega
    · cases h
      constructor <;> simp [available, WalStreamDecoder.rank, hs]
  next recordbuf contlen hpos hs =>
    obtain ⟨hle, hk⟩ := takeBytes_next h
    have hn := remainingInBlock_pos d.lsn
    split_ifs at hk
    · cases hk
      constructor <;> simp [available, WalStreamDecoder.rank] <;> omega
    · obtain ⟨next, rfl⟩ := completeRecord_next hk
      constructor <;> simp [available, WalStreamDecoder.rank] <;> omega
  next skip hs =>
    split_ifs at h
    obtain ⟨hle, hk⟩ := takeBytes_next h
    cases hk
    constructor <;> simp [available, WalStreamDecoder.rank, hs] <;> omega

theorem turn_follows (h : d.turn fmt fastPath = .next d' o) : Follows d d' := by
  unfold turn at h
  split_ifs at h with hsize
  · exact readContents_follows h
  · exact readHeader_follows hsize h

def machine (fmt : WalFormat) (fastPath : Bool) :
    Machine WalStreamDecoder (Nat × List UInt8) Failure where
  step := turn fmt fastPath
  rank := rank
  rank_lt h := (turn_follows h).rank

def pollDecode (fmt : WalFormat) (d : WalStreamDecoder) :
    Except Failure (Option (Nat × List UInt8) × WalStreamDecoder) :=
  (machine fmt true).poll d

theorem drain_eq_pollDecode (d : WalStreamDecoder) :
    (machine fmt true).drain d = Machine.pollOn (machine fmt true).drain (d.pollDecode fmt) :=
  Machine.drain_eq_poll d

def decodeChunks (fmt : WalFormat) (lsn : Nat) (chunks : List (List UInt8)) :
    Drained WalStreamDecoder (Nat × List UInt8) Failure :=
  runPieces (machine fmt true).drain feedBytes (new lsn) chunks

/-! ## Without the fast path, input only adds turns -/

@[simp]
theorem feedBytes_headerSize (d : WalStreamDecoder) (c : List UInt8) :
    (d.feedBytes c).headerSize = d.headerSize := rfl

theorem takeBytes_feed {k' : List UInt8 -> WalStreamDecoder -> Turn} {c : List UInt8}
    (hk : forall bytes d', k' bytes (feedBytes d' c) = (k bytes d').map fun s => s.feedBytes c) :
    d.takeBytes n k = .more ∨
      (d.feedBytes c).takeBytes n k' = (d.takeBytes n k).map fun s => s.feedBytes c := by
  by_cases hn : d.inputbuf.length < n
  · exact .inl (if_pos hn)
  · right
    have hle : n ≤ d.inputbuf.length := Nat.le_of_not_lt hn
    have hfed : ¬ (d.feedBytes c).inputbuf.length < n := by
      simp only [feedBytes, List.length_append]
      omega
    unfold takeBytes
    rw [if_neg hn, if_neg hfed]
    by_cases hlsn : 2 ^ 64 ≤ d.lsn + n
    · rw [if_pos hlsn]
      exact if_pos hlsn
    · rw [if_neg hlsn, ← hk]
      refine (if_neg hlsn).trans ?_
      simp only [feedBytes, List.take_append_of_le_length hle, List.drop_append_of_le_length hle]

theorem completeRecord_feed (recordbuf c : List UInt8) (d : WalStreamDecoder) :
    completeRecord fmt recordbuf (d.feedBytes c) =
      (completeRecord fmt recordbuf d).map fun s => s.feedBytes c := by
  unfold completeRecord
  dsimp only [feedBytes]
  split_ifs <;> rfl

theorem readHeader_feed (d : WalStreamDecoder) (c : List UInt8) :
    d.readHeader fmt = .more ∨
      (d.feedBytes c).readHeader fmt = (d.readHeader fmt).map fun s => s.feedBytes c := by
  refine takeBytes_feed fun hdr d' => ?_
  have hvalid : validatePageHeader fmt (d.feedBytes c) hdr = validatePageHeader fmt d hdr :=
    rfl
  rw [hvalid]
  cases validatePageHeader fmt d hdr <;> rfl

theorem field_append {bytes c : List UInt8} {offset width : Nat}
    (h : offset + width ≤ bytes.length) :
    field (bytes ++ c) offset width = field bytes offset width := by
  unfold field
  rw [List.drop_append_of_le_length (by omega),
    List.take_append_of_le_length (by rw [List.length_drop]; omega)]

theorem readContents_feed (d : WalStreamDecoder) (c : List UInt8) :
    d.readContents fmt false = .more ∨
      (d.feedBytes c).readContents fmt false =
        (d.readContents fmt false).map fun s => s.feedBytes c := by
  obtain ⟨lsn, inputbuf, state⟩ := d
  cases state with
  | waitingForRecord =>
    by_cases h4 : inputbuf.length < 4
    · exact .inl (if_pos h4)
    · right
      have hlen : field (inputbuf ++ c) 0 4 = field inputbuf 0 4 :=
        field_append (Nat.le_of_not_lt h4)
      have hfed : ¬ (inputbuf ++ c).length < 4 := by
        rw [List.length_append]
        omega
      dsimp only [readContents, feedBytes]
      simp only [hlen, Bool.false_eq_true, false_and, if_false]
      split_ifs <;> rfl
  | reassemblingRecord recordbuf contlen hpos =>
    dsimp only [readContents]
    refine takeBytes_feed fun bytes d' => ?_
    by_cases hrest : contlen - min contlen (remainingInBlock lsn) ≠ 0
    · rw [dif_pos hrest]
      exact dif_pos hrest
    · rw [dif_neg hrest, ← completeRecord_feed]
      exact dif_neg hrest
  | skippingEverything skip =>
    dsimp only [readContents, feedBytes]
    split_ifs
    · exact .inr rfl
    · exact takeBytes_feed fun _ _ => rfl

theorem turn_feed (d : WalStreamDecoder) (c : List UInt8) :
    d.turn fmt false = .more ∨
      (d.feedBytes c).turn fmt false = (d.turn fmt false).map fun s => s.feedBytes c := by
  unfold turn
  rw [feedBytes_headerSize]
  split_ifs
  · exact readContents_feed d c
  · exact readHeader_feed d c

def feeding (fmt : WalFormat) : Feeding (machine fmt false) UInt8 where
  feed := feedBytes
  feed_nil d := by simp [feedBytes]
  feed_append d a b := by simp [feedBytes]
  feed_step := turn_feed

/-! ## The fast path is a short cut -/

theorem completeRecord_ne_more (recordbuf : List UInt8) (d : WalStreamDecoder) :
    completeRecord fmt recordbuf d ≠ .more := by
  unfold completeRecord
  dsimp only
  split_ifs <;> simp

theorem readContents_whole {lsn tot : Nat} {inputbuf : List UInt8} (hpos : tot ≠ 0)
    (htot : tot ≤ remainingInBlock lsn) :
    readContents fmt false ⟨lsn, inputbuf, .reassemblingRecord [] tot hpos⟩ =
      takeBytes ⟨lsn, inputbuf, .waitingForRecord⟩ tot (completeRecord fmt) := by
  dsimp only [readContents]
  simp only [Nat.min_eq_left htot, Nat.sub_self]
  rfl

theorem turn_detour (d : WalStreamDecoder) :
    d.turn fmt false = d.turn fmt true ∨ d.turn fmt true ≠ .more ∧
      exists t, d.turn fmt false = .next t none ∧ t.turn fmt false = d.turn fmt true := by
  unfold turn
  split_ifs with hsize
  swap
  · exact .inl rfl
  obtain ⟨lsn, inputbuf, state⟩ := d
  cases state with
  | waitingForRecord =>
    dsimp only [readContents]
    simp only [Bool.false_eq_true, false_and, if_false, true_and]
    split_ifs with h4 h24 hfast
    · exact .inl rfl
    · exact .inl rfl
    · refine .inr ⟨?_, _, rfl, (if_pos hsize).trans (readContents_whole _ hfast.2)⟩
      unfold takeBytes
      rw [if_neg (Nat.not_lt.mpr hfast.1)]
      split_ifs
      · simp
      · exact completeRecord_ne_more _ _
    · exact .inl rfl
  | _ => exact .inl rfl

/-! ## Chunks -/

/-- Decoding depends on the bytes only, not on how they are cut into chunks. -/
theorem decodeChunks_eq (fmt : WalFormat) (lsn : Nat) (chunks : List (List UInt8)) :
    decodeChunks fmt lsn chunks =
      (machine fmt true).drain ((new lsn).feedBytes chunks.flatten) := by
  have hdrain : (machine fmt false).drain = (machine fmt true).drain :=
    funext (Machine.drain_eq_of_detour turn_detour)
  have hwaits : (machine fmt false).step (new lsn) = .more := by
    show turn fmt false (new lsn) = .more
    unfold turn
    split_ifs with hsize
    · rfl
    · exact if_pos (Nat.pos_of_ne_zero hsize)
  rw [decodeChunks, ← hdrain]
  exact (feeding fmt).run_eq_drain hwaits chunks

/-- Two ways to cut the same bytes into chunks deliver the same records, and fail alike
or wait alike; while the decoder waits, its buffer ends where the input ends. -/
theorem decodeChunks_independent (fmt : WalFormat) (lsn : Nat) :
    (forall chunks chunks' : List (List UInt8), chunks.flatten = chunks'.flatten ->
      decodeChunks fmt lsn chunks = decodeChunks fmt lsn chunks') ∧
    forall (chunks : List (List UInt8)) (d : WalStreamDecoder),
      (decodeChunks fmt lsn chunks).2 = .ok d ->
        d.available = lsn + chunks.flatten.length := by
  constructor
  · intro chunks chunks' hbytes
    rw [decodeChunks_eq, decodeChunks_eq, hbytes]
  · intro chunks d hd
    rw [decodeChunks_eq] at hd
    simpa [available, feedBytes, new] using
      Machine.drain_preserves (fun h => (turn_follows h).available) hd

/-- A record of 24 bytes that starts at LSN 8, in two chunks and in one. -/
theorem decodeChunks_independent_cut :
    let record : List UInt8 := 24 :: List.replicate 23 0
    let fmt : WalFormat := { XLOG_PAGE_MAGIC := 0xD116, crc32c := fun _ => 0 }
    decodeChunks fmt 8 [record.take 10, record.drop 10] = decodeChunks fmt 8 [record] ∧
      (decodeChunks fmt 8 [record]).1 = [(32, record)] :=
  ⟨(decodeChunks_independent _ 8).1 _ _ (by decide), by decide +kernel⟩

end WalStreamDecoder
end WalDecoder
end OpenNeon

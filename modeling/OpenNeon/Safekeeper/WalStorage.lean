import OpenNeon.Base.Prog
import OpenNeon.Utils.Lsn

/-!
# WAL on disk

The storage writes WAL into segment files and keeps track of how far it has been
written and synced, by bytes and by whole records.  What the file system does in
a call, and at which lengths the decoder finds the ends of records, is given from
outside.
-/

namespace OpenNeon
namespace Safekeeper

open Base

structure StorageIo where
  /-- Is the open file synced? -/
  fdatasync : Bool
  /-- Is the piece of the given number written (and synced at a segment's end)? -/
  writeInSegment : Nat -> Bool
  initializeFirstSegment : Bool
  /-- Is the open file synced at the beginning of a truncation? -/
  truncateSync : Bool
  /-- Are the segments removed and the rest filled with zeros? -/
  truncateFiles : Bool
  /-- The lengths, less one, of the records that the decoder completes. -/
  recordLens : List Nat
  /-- Does the decoder fail after these records? -/
  decodeError : Bool
  /-- The end of the decoder's input after a failure. -/
  availableAfterError : Lsn

inductive StorageError where
  | io
  | rewritesWal
  | createsGap
  | pendingTruncation
  | decode
  | noOpenFile
  | truncateOnNonWritten
  | potentialDataLoss
  deriving DecidableEq

/-- The decoder: where the next record starts, and where its input ends. -/
structure WalStreamDecoder where
  lsn : Lsn
  available : Lsn

def WalStreamDecoder.new (lsn : Lsn) : WalStreamDecoder :=
  { lsn := lsn, available := lsn }

structure PhysicalStorage where
  walSegSize : Nat
  /-- Written to disk, possibly in the middle of a record. -/
  writeLsn : Lsn
  /-- The end of the last record written to disk. -/
  writeRecordLsn : Lsn
  /-- Flushed to disk, possibly in the middle of a record. -/
  flushedLsn : Lsn
  /-- The end of the last record flushed to disk. -/
  flushRecordLsn : Lsn
  decoder : WalStreamDecoder
  /-- Is the file of the last segment open? -/
  file : Bool
  pendingWalTruncation : Bool
  /-- The bytes in the segment files. -/
  disk : Lsn -> UInt8
  /-- Up to where the segment files may hold WAL. -/
  diskEnd : Lsn

namespace PhysicalStorage

/-- Open the storage; the end of the WAL is searched from the commit position on. -/
def new (commitLsn : Lsn) (walSegSize : Nat) (disk : Lsn -> UInt8)
    (diskEnd endOfWal : Lsn) : Except StorageError PhysicalStorage :=
  let writeLsn := if commitLsn = 0 then 0 else endOfWal
  if writeLsn < commitLsn then .error .potentialDataLoss
  else .ok
    { walSegSize := walSegSize
      writeLsn := writeLsn
      writeRecordLsn := writeLsn
      flushedLsn := writeLsn
      flushRecordLsn := writeLsn
      decoder := WalStreamDecoder.new writeLsn
      file := false
      pendingWalTruncation := true
      disk := disk
      diskEnd := max diskEnd writeLsn }

variable (s : PhysicalStorage)

def flushLsn : Lsn :=
  s.flushRecordLsn

def patch (disk : Lsn -> UInt8) (pos : Lsn) (buf : List UInt8) : Lsn -> UInt8 :=
  fun x => if pos ≤ x then buf.getD (x - pos) (disk x) else disk x

variable (io : StorageIo)

abbrev Op := Prog PhysicalStorage StorageError

def initializeFirstSegment : Op Unit :=
  if io.initializeFirstSegment then pure () else throw .io

/-- Write bytes in one segment; the flag tells whether it is completed, synced and closed. -/
def writeInSegment (piece xlogoff : Nat) (buf : List UInt8) : Op Bool := do
  let s <- get
  set { s with
    file := false
    disk := patch s.disk s.writeLsn buf
    diskEnd := max s.diskEnd (s.writeLsn + buf.length) }
  if io.writeInSegment piece then
    if xlogoff + buf.length = s.walSegSize then return true
    else
      modify (fun s => { s with file := true })
      return false
  else throw .io

/-- The size of the next piece, which does not cross the end of a segment. -/
def bytesWrite (len : Nat) : Nat :=
  if s.walSegSize < s.writeLsn % s.walSegSize + len
  then s.walSegSize - s.writeLsn % s.walSegSize else len

/-- Write the bytes segment by segment; each round writes one piece. -/
def writePieces : Nat -> Nat -> List UInt8 -> Op Unit
  | 0, _, _ => pure ()
  | fuel + 1, piece, buf =>
    if buf = [] then pure ()
    else do
      let s <- get
      let bytesWrite := s.bytesWrite buf.length
      let flushed <- writeInSegment io piece (s.writeLsn % s.walSegSize)
        (buf.take bytesWrite)
      modify (fun s => { s with writeLsn := s.writeLsn + bytesWrite })
      if flushed then modify (fun s => { s with flushedLsn := s.writeLsn })
      writePieces fuel (piece + 1) (buf.drop bytesWrite)

def writeExact (pos : Lsn) (buf : List UInt8) : Op Unit := do
  let s <- get
  if s.writeLsn ≠ pos then
    if s.file then
      set { s with file := false }
      if !io.fdatasync then throw .io
    modify (fun s => { s with writeLsn := pos, diskEnd := max s.diskEnd pos })
  writePieces io buf.length 0 buf

/-- Take over the record that ends at a position. -/
def endRecord (lsn : Lsn) : PhysicalStorage :=
  { s with
    decoder := { s.decoder with lsn := lsn }
    writeRecordLsn := lsn
    flushRecordLsn := if lsn ≤ s.flushedLsn then lsn else s.flushRecordLsn
    diskEnd := max s.diskEnd lsn }

/-- Take over the records that the decoder finds, as long as there is input. -/
def pollRecords : List Nat -> Op Unit
  | [] => pure ()
  | len :: rest => do
    let s <- get
    if s.decoder.available ≤ s.decoder.lsn then pure ()
    else
      set (s.endRecord (s.decoder.lsn + len + 1))
      pollRecords rest

/--
Feed the decoder, which starts anew where its input does not go on.  A record
written before may have been flushed with the end of a segment.
-/
def feed (startpos : Lsn) (len : Nat) : PhysicalStorage :=
  let decoder :=
    if s.decoder.available ≠ startpos then WalStreamDecoder.new startpos else s.decoder
  { s with
    decoder := { decoder with available := decoder.available + len }
    flushRecordLsn :=
      if s.writeRecordLsn ≤ s.flushedLsn then s.writeRecordLsn else s.flushRecordLsn }

def decodeRecords (startpos : Lsn) (len : Nat) : Op Unit := do
  modify (fun s => s.feed startpos len)
  pollRecords io.recordLens
  let s <- get
  -- the decoder waits for more input while it skips to the start of a record
  if io.decodeError ∧ s.decoder.lsn ≤ s.decoder.available then
    set { s with decoder := { s.decoder with available := io.availableAfterError } }
    throw .decode

def writeWal (startpos : Lsn) (buf : List UInt8) : Op Unit := do
  let s <- get
  if startpos < s.writeLsn then throw .rewritesWal
  else if s.writeLsn < startpos ∧ s.writeLsn ≠ 0 then throw .createsGap
  else if s.pendingWalTruncation then throw .pendingTruncation
  else
    writeExact io startpos buf
    decodeRecords io startpos buf.length

def flushWal : Op Unit := do
  let s <- get
  if s.flushRecordLsn = s.writeRecordLsn then pure ()
  else if s.file then
    if io.fdatasync then
      set { s with flushedLsn := s.writeLsn, flushRecordLsn := s.writeRecordLsn }
    else
      set { s with file := false }
      throw .io
  else throw .noOpenFile

def resetLsns (endPos : Lsn) : PhysicalStorage :=
  { s with
    pendingWalTruncation := true
    writeLsn := endPos
    flushedLsn := endPos
    writeRecordLsn := endPos
    flushRecordLsn := endPos
    diskEnd := max s.diskEnd endPos
    file := false }

/-- The segments are removed and the rest of the last one is filled with zeros. -/
def cutFiles (endPos : Lsn) : PhysicalStorage :=
  { s with
    disk := fun x => if x < endPos then s.disk x else 0
    diskEnd := endPos
    pendingWalTruncation := false }

def truncateWal (endPos : Lsn) : Op Unit := do
  let s <- get
  if s.writeRecordLsn ≠ 0 ∧ s.writeRecordLsn < endPos then throw .truncateOnNonWritten
  else if s.pendingWalTruncation = false ∧ endPos = s.writeLsn ∧
      endPos = s.flushRecordLsn then pure ()
  else
    set (s.resetLsns endPos)
    if s.file ∧ io.truncateSync = false then throw .io
    else if io.truncateFiles = false then throw .io
    else
      modify (fun s => s.cutFiles endPos)

end PhysicalStorage

end Safekeeper
end OpenNeon

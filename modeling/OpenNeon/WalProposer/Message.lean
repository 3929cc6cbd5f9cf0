import Mathlib.Data.List.TakeWhile
import OpenNeon.Base.Reader

/-!
# Messages of the walproposer

The structs of the C side and its codec for protocol version 3: what it writes to
a safekeeper, and how it reads an answer.
-/

namespace OpenNeon
namespace WalProposer

open Base

/-- The size of a connection string buffer, with its terminating NUL. -/
def MAXCONNINFO : Nat := 1024

/-- A C string: the bytes before the terminating NUL. -/
structure CString where
  bytes : List UInt8
  noNul : (0 : UInt8) ∉ bytes

/-- A string in a buffer of fixed size. -/
structure Host extends CString where
  fits : bytes.length < MAXCONNINFO

structure SafekeeperId where
  nodeId : UInt64
  host : Host
  port : UInt16

structure MemberSet where
  len : UInt32
  m : List SafekeeperId
  length_m : m.length = len.toNat

structure MembershipConfiguration where
  generation : UInt32
  members : MemberSet
  newMembers : MemberSet

structure TermSwitchEntry where
  term : UInt64
  lsn : UInt64

structure TermHistory where
  nEntries : UInt32
  entries : List TermSwitchEntry
  length_entries : entries.length = nEntries.toNat

/-!
## Proposer to acceptor
-/

structure ProposerGreeting where
  tenantId : CString
  timelineId : CString
  mconf : MembershipConfiguration
  pgVersion : UInt32
  systemId : UInt64
  walSegSize : UInt32

structure VoteRequest where
  generation : UInt32
  term : UInt64

structure ProposerElected where
  generation : UInt32
  term : UInt64
  startStreamingAt : UInt64
  termHistory : TermHistory

structure AppendRequestHeader where
  generation : UInt32
  term : UInt64
  beginLsn : UInt64
  endLsn : UInt64
  commitLsn : UInt64
  truncateLsn : UInt64

inductive ProposerAcceptorMessage where
  | greeting (m : ProposerGreeting)
  | voteRequest (m : VoteRequest)
  | elected (m : ProposerElected)
  | appendRequest (m : AppendRequestHeader)

def tagGreeting : UInt8 := 103
def tagVote : UInt8 := 118
def tagElected : UInt8 := 101
def tagAppend : UInt8 := 97

def pqSendint8 (i : UInt8) : List UInt8 := beBytes 1 i.toNat
def pqSendint16 (i : UInt16) : List UInt8 := beBytes 2 i.toNat
def pqSendint32 (i : UInt32) : List UInt8 := beBytes 4 i.toNat
def pqSendint64 (i : UInt64) : List UInt8 := beBytes 8 i.toNat

/-- A character with the high bit set is replaced by a question mark. -/
def pqSendAsciiString (str : CString) : List UInt8 :=
  str.bytes.map (fun ch => if ch &&& 0x80 ≠ 0 then 63 else ch) ++ [0]

def SafekeeperId.serialize (sk : SafekeeperId) : List UInt8 :=
  pqSendint64 sk.nodeId ++ (pqSendAsciiString sk.host.toCString ++ pqSendint16 sk.port)

def MemberSet.serialize (mset : MemberSet) : List UInt8 :=
  pqSendint32 mset.len ++ mset.m.flatMap SafekeeperId.serialize

/-- An absent set of new members is written as an empty one. -/
def MembershipConfiguration.serialize (mconf : MembershipConfiguration) : List UInt8 :=
  pqSendint32 mconf.generation ++ (mconf.members.serialize ++ mconf.newMembers.serialize)

def TermSwitchEntry.serialize (entry : TermSwitchEntry) : List UInt8 :=
  pqSendint64 entry.term ++ pqSendint64 entry.lsn

/-- Of an append request only the header is written. -/
def paMessageSerialize : ProposerAcceptorMessage -> List UInt8
  | .greeting m =>
    pqSendint8 tagGreeting ++ (pqSendAsciiString m.tenantId ++
      (pqSendAsciiString m.timelineId ++ (m.mconf.serialize ++
      (pqSendint32 m.pgVersion ++ (pqSendint64 m.systemId ++
      pqSendint32 m.walSegSize)))))
  | .voteRequest m => pqSendint8 tagVote ++ (pqSendint32 m.generation ++ pqSendint64 m.term)
  | .elected m =>
    pqSendint8 tagElected ++ (pqSendint32 m.generation ++ (pqSendint64 m.term ++
      (pqSendint64 m.startStreamingAt ++ (pqSendint32 m.termHistory.nEntries ++
      m.termHistory.entries.flatMap TermSwitchEntry.serialize))))
  | .appendRequest m =>
    pqSendint8 tagAppend ++ (pqSendint32 m.generation ++ (pqSendint64 m.term ++
      (pqSendint64 m.beginLsn ++ (pqSendint64 m.endLsn ++ (pqSendint64 m.commitLsn ++
      pqSendint64 m.truncateLsn)))))

/-- The buffer that is sent: the WAL of an append request follows its header. -/
def outbuf : ProposerAcceptorMessage -> List UInt8 -> List UInt8
  | .appendRequest m, wal => paMessageSerialize (.appendRequest m) ++ wal
  | msg, _ => paMessageSerialize msg

/-!
## Acceptor to proposer
-/

structure AcceptorGreeting where
  nodeId : UInt64
  mconf : MembershipConfiguration
  term : UInt64

structure VoteResponse where
  generation : UInt32
  term : UInt64
  voteGiven : UInt8
  flushLsn : UInt64
  truncateLsn : UInt64
  termHistory : TermHistory

structure HotStandbyFeedback where
  ts : Int64
  xmin : UInt64
  catalogXmin : UInt64

structure PageserverFeedback where
  present : Bool := false
  currentClusterSize : UInt64 := 0
  lastReceivedLsn : UInt64 := 0
  diskConsistentLsn : UInt64 := 0
  remoteConsistentLsn : UInt64 := 0
  replytime : Int64 := 0
  shardNumber : UInt32 := 0
  corruptionDetected : Bool := false

structure AppendResponse where
  generation : UInt32
  term : UInt64
  flushLsn : UInt64
  commitLsn : UInt64
  hs : HotStandbyFeedback
  psFeedback : PageserverFeedback

inductive AcceptorProposerMessage where
  | greeting (msg : AcceptorGreeting)
  | voteResponse (msg : VoteResponse)
  | appendResponse (msg : AppendResponse)

/-- Why a message is not read.  All but the unexpected tag end the process. -/
inductive ReadError where
  | noDataLeft
  | insufficientData
  | invalidString
  | invalidMsgFormat
  | assertion
  | unexpectedTag (tag : UInt8)

abbrev MsgReader := Reader ReadError

def pqGetmsgbyte : MsgReader UInt8 := Reader.u8 (fun _ => .noDataLeft)
def pqGetmsgint16 : MsgReader UInt16 := Reader.u16 (fun _ => .insufficientData)
def pqGetmsgint32 : MsgReader UInt32 := Reader.u32 (fun _ => .insufficientData)
def pqGetmsgint64 : MsgReader UInt64 := Reader.u64 (fun _ => .insufficientData)
def pqGetmsgrawstring : MsgReader (List UInt8) := Reader.cstring .invalidString

/-- The length is an `int`: from 2^31 on it is negative. -/
def pqGetmsgbytes (datalen : UInt32) : MsgReader (List UInt8) :=
  if 2 ^ 31 ≤ datalen.toNat then throw .insufficientData
  else Reader.take datalen.toNat (fun _ => .insufficientData)

def pqGetmsgend : MsgReader Unit :=
  fun input => if input.isEmpty then .ok ((), input) else .error .invalidMsgFormat

/-- Copies up to the end of the string or of the buffer. -/
def strlcpy (src : List UInt8) : Host :=
  { bytes := (src.takeWhile (fun b => b != 0)).take (MAXCONNINFO - 1)
    noNul := by
      intro h
      simpa using List.mem_takeWhile_imp (List.mem_of_mem_take h)
    fits := by
      rw [List.length_take]
      exact lt_of_le_of_lt (min_le_left _ _) (by decide) }

def SafekeeperId.deserialize : MsgReader SafekeeperId := do
  let nodeId <- pqGetmsgint64
  let bufHost <- pqGetmsgrawstring
  let port <- pqGetmsgint16
  return { nodeId := nodeId, host := strlcpy bufHost, port := port }

def MemberSet.deserialize : MsgReader MemberSet := do
  let len <- pqGetmsgint32
  let m <- Reader.many (fun _ => SafekeeperId.deserialize) len.toNat 0
  return { len := len, m := m.1, length_m := m.2 }

def MembershipConfiguration.deserialize : MsgReader MembershipConfiguration := do
  let generation <- pqGetmsgint32
  let members <- MemberSet.deserialize
  let newMembers <- MemberSet.deserialize
  return { generation := generation, members := members, newMembers := newMembers }

def TermSwitchEntry.deserialize : MsgReader TermSwitchEntry := do
  let term <- pqGetmsgint64
  let lsn <- pqGetmsgint64
  return { term := term, lsn := lsn }

def keyBytes (key : String) : List UInt8 :=
  key.toList.map (fun c => UInt8.ofNat c.toNat)

def assert (c : Bool) : MsgReader Unit :=
  if c then pure () else throw .assertion

/-- The value of a key; unknown keys are skipped. -/
def parseFeedbackValue (fb : PageserverFeedback) (key : List UInt8) (valueLen : UInt32) :
    MsgReader PageserverFeedback := do
  if key = keyBytes "current_timeline_size" then
    assert (valueLen == 8)
    let value <- pqGetmsgint64
    return { fb with currentClusterSize := value }
  else if key = keyBytes "ps_writelsn" ∨ key = keyBytes "last_received_lsn" then
    assert (valueLen == 8)
    let value <- pqGetmsgint64
    return { fb with lastReceivedLsn := value }
  else if key = keyBytes "ps_flushlsn" ∨ key = keyBytes "disk_consistent_lsn" then
    assert (valueLen == 8)
    let value <- pqGetmsgint64
    return { fb with diskConsistentLsn := value }
  else if key = keyBytes "ps_applylsn" ∨ key = keyBytes "remote_consistent_lsn" then
    assert (valueLen == 8)
    let value <- pqGetmsgint64
    return { fb with remoteConsistentLsn := value }
  else if key = keyBytes "ps_replytime" ∨ key = keyBytes "replytime" then
    assert (valueLen == 8)
    let value <- pqGetmsgint64
    return { fb with replytime := value.toInt64 }
  else if key = keyBytes "shard_number" then
    assert (valueLen == 4)
    let value <- pqGetmsgint32
    return { fb with shardNumber := value }
  else if key = keyBytes "corruption_detected" then
    assert (valueLen == 1)
    let value <- pqGetmsgbyte
    return { fb with corruptionDetected := value != 0 }
  else
    let _ <- pqGetmsgbytes valueLen
    return fb

def parseFeedbackKey (fb : PageserverFeedback) : MsgReader PageserverFeedback := do
  let key <- pqGetmsgrawstring
  let valueLen <- pqGetmsgint32
  parseFeedbackValue fb key valueLen

def parseFeedbackKeys : Nat -> PageserverFeedback -> MsgReader PageserverFeedback
  | 0, fb => pure fb
  | n + 1, fb => do
    let fb <- parseFeedbackKey fb
    parseFeedbackKeys n fb

def parsePageserverFeedbackMessage : MsgReader PageserverFeedback := do
  let nkeys <- pqGetmsgbyte
  parseFeedbackKeys nkeys.toNat { present := true }

def readGreeting : MsgReader AcceptorGreeting := do
  let nodeId <- pqGetmsgint64
  let mconf <- MembershipConfiguration.deserialize
  let term <- pqGetmsgint64
  return { nodeId := nodeId, mconf := mconf, term := term }

def readVoteResponse : MsgReader VoteResponse := do
  let generation <- pqGetmsgint32
  let term <- pqGetmsgint64
  let voteGiven <- pqGetmsgbyte
  let flushLsn <- pqGetmsgint64
  let truncateLsn <- pqGetmsgint64
  let nEntries <- pqGetmsgint32
  let entries <- Reader.many (fun _ => TermSwitchEntry.deserialize) nEntries.toNat 0
  return {
    generation := generation
    term := term
    voteGiven := voteGiven
    flushLsn := flushLsn
    truncateLsn := truncateLsn
    termHistory :=
      { nEntries := nEntries, entries := entries.1, length_entries := entries.2 } }

def readAppendHeader : MsgReader AppendResponse := do
  let generation <- pqGetmsgint32
  let term <- pqGetmsgint64
  let flushLsn <- pqGetmsgint64
  let commitLsn <- pqGetmsgint64
  let ts <- pqGetmsgint64
  let xmin <- pqGetmsgint64
  let catalogXmin <- pqGetmsgint64
  return {
    generation := generation
    term := term
    flushLsn := flushLsn
    commitLsn := commitLsn
    hs := { ts := ts.toInt64, xmin := xmin, catalogXmin := catalogXmin }
    psFeedback := { present := false } }

/-- The feedback is there when bytes are left. -/
def readAppendResponse : MsgReader AppendResponse := do
  let msg <- readAppendHeader
  let rest <- get
  if rest.isEmpty then
    return msg
  else
    let fb <- parsePageserverFeedbackMessage
    return { msg with psFeedback := fb }

def whole {alpha : Type} (p : MsgReader alpha) : MsgReader alpha := do
  let msg <- p
  pqGetmsgend
  return msg

/-- Reads the message of the expected kind; nothing may be left over. -/
def readMessage (expected : UInt8) : MsgReader AcceptorProposerMessage := do
  let tag <- pqGetmsgbyte
  if tag ≠ expected then
    throw (.unexpectedTag tag)
  else if tag = tagGreeting then
    AcceptorProposerMessage.greeting <$> whole readGreeting
  else if tag = tagVote then
    AcceptorProposerMessage.voteResponse <$> whole readVoteResponse
  else if tag = tagAppend then
    AcceptorProposerMessage.appendResponse <$> whole readAppendResponse
  else
    throw (.unexpectedTag tag)

def asyncReadMessage (expected : UInt8) (buf : List UInt8) :
    Except ReadError AcceptorProposerMessage :=
  (readMessage expected buf).map Prod.fst

end WalProposer
end OpenNeon

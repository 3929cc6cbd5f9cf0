import OpenNeon.Base.Reader

/-!
# Messages of the safekeeper on the wire

The Rust side of protocol version 3: parsing a proposer's message and writing the
answer.  Strings are UTF-8, ids are hexadecimal, and a parsed configuration has
no safekeeper twice.
-/

namespace OpenNeon
namespace Safekeeper
namespace Codec

open Base

structure SafekeeperId where
  id : UInt64
  host : String
  pgPort : UInt16

structure MemberSet where
  m : List SafekeeperId

structure Configuration where
  generation : UInt32
  members : MemberSet
  newMembers : Option MemberSet

structure TermLsn where
  term : UInt64
  lsn : UInt64

structure Id where
  bytes : List UInt8
  length_bytes : bytes.length = 16

def asBytes (s : String) : List UInt8 :=
  s.toUTF8.data.toList

/-!
## Errors
-/

inductive FromHexError where
  | invalidHexCharacter (c : UInt8) (index : Nat)
  | oddLength
  | invalidStringLength

inductive ParseError where
  | bytesLeft (left expected : Nat) (context : String)
  | missingTerminator (context : String)
  | invalidUtf8 (context : String)
  | id (reason : FromHexError)
  | emptyMembersLen
  | alreadyMember (id : UInt64)
  | beginAboveEnd
  | longerThanMaxSendSize
  | walLeft (left wanted : Nat)
  | unknownTag (tag : UInt8)
  /-- A panic, not an error. -/
  | invalidPgVersion (version : UInt32)

abbrev MsgReader := Reader ParseError

/-!
## Ids
-/

def hexVal (c : UInt8) (index : Nat) : Except FromHexError UInt8 :=
  if 65 ≤ c ∧ c ≤ 70 then .ok (c - 65 + 10)
  else if 97 ≤ c ∧ c ≤ 102 then .ok (c - 97 + 10)
  else if 48 ≤ c ∧ c ≤ 57 then .ok (c - 48)
  else .error (.invalidHexCharacter c index)

/-- Decodes digits in pairs, from an index on. -/
def hexDecode : Nat -> List UInt8 -> Except FromHexError (List UInt8)
  | index, hi :: lo :: rest => do
    let high <- hexVal hi index
    let low <- hexVal lo (index + 1)
    let bytes <- hexDecode (index + 2) rest
    return ((high <<< 4) ||| low) :: bytes
  | _, [] => .ok []
  | _, [_] => .error .oddLength

def Id.fromHex (data : List UInt8) : Except FromHexError Id :=
  if data.length % 2 ≠ 0 then .error .oddLength
  else if data.length / 2 ≠ 16 then .error .invalidStringLength
  else do
    let bytes <- hexDecode 0 data
    if h : bytes.length = 16 then return { bytes := bytes, length_bytes := h }
    else .error .invalidStringLength

/-!
## Proposer to acceptor
-/

structure ProposerGreeting where
  tenantId : Id
  timelineId : Id
  mconf : Configuration
  pgVersion : UInt32
  systemId : UInt64
  walSegSize : UInt32

structure VoteRequest where
  generation : UInt32
  term : UInt64

structure ProposerElected where
  generation : UInt32
  term : UInt64
  startStreamingAt : UInt64
  termHistory : List TermLsn

structure AppendRequestHeader where
  generation : UInt32
  term : UInt64
  beginLsn : UInt64
  endLsn : UInt64
  commitLsn : UInt64
  truncateLsn : UInt64

structure AppendRequest where
  h : AppendRequestHeader
  walData : List UInt8

/-- The messages that have a form on the wire. -/
inductive ProposerAcceptorMessage where
  | greeting (g : ProposerGreeting)
  | voteRequest (v : VoteRequest)
  | elected (msg : ProposerElected)
  | appendRequest (msg : AppendRequest)

def XLOG_BLCKSZ : Nat := 8192
def MAX_SEND_SIZE : Nat := XLOG_BLCKSZ * 16

variable (context : String)

def getU8F : MsgReader UInt8 :=
  Reader.u8 (fun left => .bytesLeft left 1 context)

def getU16F : MsgReader UInt16 :=
  Reader.u16 (fun left => .bytesLeft left 2 context)

def getU32F : MsgReader UInt32 :=
  Reader.u32 (fun left => .bytesLeft left 4 context)

def getU64F : MsgReader UInt64 :=
  Reader.u64 (fun left => .bytesLeft left 8 context)

def fromUtf8 (bytes : List UInt8) (context : String) : Except ParseError String :=
  match String.fromUTF8? bytes.toByteArray with
  | some s => .ok s
  | none => .error (.invalidUtf8 context)

def getCstr : MsgReader String := do
  let result <- (Reader.cstring (.missingTerminator context) : MsgReader (List UInt8))
  Reader.check (fromUtf8 result context)

namespace MemberSet

def empty : MemberSet := { m := [] }

def contains (s : MemberSet) (sk : UInt64) : Bool :=
  s.m.any (fun m => m.id == sk)

def add (s : MemberSet) (sk : SafekeeperId) : Except ParseError MemberSet :=
  if s.contains sk.id then .error (.alreadyMember sk.id)
  else .ok { m := s.m ++ [sk] }

end MemberSet

def getMember (what : String) (i : Nat) : MsgReader SafekeeperId := do
  let id <- getU64F s!"reading {what} {i} node_id"
  let host <- getCstr s!"reading {what} {i} host"
  let pgPort <- getU16F s!"reading {what} {i} port"
  return { id := id, host := host, pgPort := pgPort }

def getMembers (what : String) : (n i : Nat) -> MemberSet -> MsgReader MemberSet
  | 0, _, members => pure members
  | n + 1, i, members => do
    let sk <- getMember what i
    let members <- Reader.check (members.add sk)
    getMembers what n (i + 1) members

def INVALID_GENERATION : UInt32 := 0

def getMconf : MsgReader Configuration := do
  let generation <- getU32F "reading generation"
  let membersLen <- getU32F "reading members_len"
  if generation ≠ INVALID_GENERATION ∧ membersLen = 0 then
    throw .emptyMembersLen
  else
    let members <- getMembers "member" membersLen.toNat 0 MemberSet.empty
    let newMembersLen <- getU32F "reading new_members_len"
    if newMembersLen = 0 then
      return { generation := generation, members := members, newMembers := none }
    else
      let newMembers <- getMembers "new member" newMembersLen.toNat 0 MemberSet.empty
      return { generation := generation, members := members
               newMembers := some newMembers }

/-- A full version number; zero is an unknown version. -/
def fromFullPgVersion (version : UInt32) : Except ParseError UInt32 :=
  if version = 0 then .ok version
  else if 140000 ≤ version ∧ version < 180000 then .ok version
  else .error (.invalidPgVersion version)

def getTermLsn (i : Nat) : MsgReader TermLsn := do
  let term <- getU64F s!"TermHistory pos {i} misses term"
  let lsn <- getU64F s!"TermHistory pos {i} misses lsn"
  return { term := term, lsn := lsn }

def getTermHistory : MsgReader (List TermLsn) := do
  let nEntries <- getU32F "TermHistory misses len"
  let entries <- Reader.many getTermLsn nEntries.toNat 0
  return entries.1

def parseGreeting : MsgReader ProposerGreeting := do
  let tenantIdStr <- getCstr "reading tenant_id"
  let tenantId <- Reader.check ((Id.fromHex (asBytes tenantIdStr)).mapError .id)
  let timelineIdStr <- getCstr "reading timeline_id"
  let timelineId <- Reader.check ((Id.fromHex (asBytes timelineIdStr)).mapError .id)
  let mconf <- getMconf
  let pgVersion <- getU32F "reading pg_version"
  let systemId <- getU64F "reading system_id"
  let walSegSize <- getU32F "reading wal_seg_size"
  let pgVersion <- Reader.check (fromFullPgVersion pgVersion)
  return {
    tenantId := tenantId
    timelineId := timelineId
    mconf := mconf
    pgVersion := pgVersion
    systemId := systemId
    walSegSize := walSegSize }

def parseVoteRequest : MsgReader VoteRequest := do
  let generation <- getU32F "reading generation"
  let term <- getU64F "reading term"
  return { generation := generation, term := term }

def parseElected : MsgReader ProposerElected := do
  let generation <- getU32F "reading generation"
  let term <- getU64F "reading term"
  let startStreamingAt <- getU64F "reading start_streaming_at"
  let termHistory <- getTermHistory
  return {
    generation := generation
    term := term
    startStreamingAt := startStreamingAt
    termHistory := termHistory }

def parseAppendHeader : MsgReader AppendRequestHeader := do
  let generation <- getU32F "reading generation"
  let term <- getU64F "reading term"
  let beginLsn <- getU64F "reading begin_lsn"
  let endLsn <- getU64F "reading end_lsn"
  let commitLsn <- getU64F "reading commit_lsn"
  let truncateLsn <- getU64F "reading truncate_lsn"
  return {
    generation := generation
    term := term
    beginLsn := beginLsn
    endLsn := endLsn
    commitLsn := commitLsn
    truncateLsn := truncateLsn }

def recSize (h : AppendRequestHeader) : Except ParseError Nat :=
  if h.endLsn < h.beginLsn then .error .beginAboveEnd
  else
    let recSize := (h.endLsn - h.beginLsn).toNat
    if MAX_SEND_SIZE < recSize then .error .longerThanMaxSendSize
    else .ok recSize

def parseAppendRequest : MsgReader AppendRequest := do
  let h <- parseAppendHeader
  let recSize <- Reader.check (recSize h)
  let walData <- Reader.take recSize (fun left => .walLeft left recSize)
  return { h := h, walData := walData }

/-- What is left of the bytes is dropped by `parse`. -/
def parseRest : MsgReader ProposerAcceptorMessage := do
  let tag <- getU8F "ProposerAcceptorMessage is not complete: missing tag"
  if tag = 103 then
    return .greeting (<- parseGreeting)
  else if tag = 118 then
    return .voteRequest (<- parseVoteRequest)
  else if tag = 101 then
    return .elected (<- parseElected)
  else if tag = 97 then
    return .appendRequest (<- parseAppendRequest)
  else
    throw (.unknownTag tag)

def parse (msgBytes : List UInt8) : Except ParseError ProposerAcceptorMessage :=
  (parseRest msgBytes).map Prod.fst

/-!
## Acceptor to proposer
-/

structure AcceptorGreeting where
  nodeId : UInt64
  mconf : Configuration
  term : UInt64

structure VoteResponse where
  generation : UInt32
  term : UInt64
  voteGiven : Bool
  flushLsn : UInt64
  truncateLsn : UInt64
  termHistory : List TermLsn

structure HotStandbyFeedback where
  ts : Int64
  xmin : UInt64
  catalogXmin : UInt64

/-- Feedback of a pageserver; the reply time in nanoseconds since the Postgres epoch. -/
structure PageserverFeedback where
  currentTimelineSize : UInt64
  lastReceivedLsn : UInt64
  diskConsistentLsn : UInt64
  remoteConsistentLsn : UInt64
  replytime : Int
  shardNumber : UInt32
  corruptionDetected : Bool

structure AppendResponse where
  generation : UInt32
  term : UInt64
  flushLsn : UInt64
  commitLsn : UInt64
  hsFeedback : HotStandbyFeedback
  pageserverFeedback : Option PageserverFeedback

inductive AcceptorProposerMessage where
  | greeting (msg : AcceptorGreeting)
  | voteResponse (msg : VoteResponse)
  | appendResponse (msg : AppendResponse)

/-- A reply time before the epoch cannot be written: the writer panics. -/
inductive SerializePanic where
  | replytimeBeforeEpoch

def putU8 (x : UInt8) : List UInt8 := beBytes 1 x.toNat
def putU16 (x : UInt16) : List UInt8 := beBytes 2 x.toNat
def putU32 (x : UInt32) : List UInt8 := beBytes 4 x.toNat
def putU64 (x : UInt64) : List UInt8 := beBytes 8 x.toNat
def putI64 (x : Int64) : List UInt8 := putU64 x.toUInt64

def putCstr (s : String) : List UInt8 := asBytes s ++ [0]

def serializeMember (sk : SafekeeperId) : List UInt8 :=
  putU64 sk.id ++ (putCstr sk.host ++ putU16 sk.pgPort)

def serializeMembers (s : MemberSet) : List UInt8 :=
  putU32 (UInt32.ofNat s.m.length) ++ s.m.flatMap serializeMember

def serializeMconf (mconf : Configuration) : List UInt8 :=
  putU32 mconf.generation ++ (serializeMembers mconf.members ++
    match mconf.newMembers with
    | some newMembers => serializeMembers newMembers
    | none => putU32 0)

def putKey (key : String) (len : UInt32) (value : List UInt8) : List UInt8 :=
  putCstr key ++ (putU32 len ++ value)

namespace PageserverFeedback

variable (fb : PageserverFeedback)

/-- Whole microseconds since the epoch, cut to 64 bits. -/
def timestamp : Except SerializePanic Int64 :=
  if fb.replytime < 0 then .error .replytimeBeforeEpoch
  else .ok (Int64.ofNat (fb.replytime.toNat / 1000))

def keys (timestamp : Int64) : List (List UInt8) :=
  [putKey "current_timeline_size" 8 (putU64 fb.currentTimelineSize),
    putKey "ps_writelsn" 8 (putU64 fb.lastReceivedLsn),
    putKey "ps_flushlsn" 8 (putU64 fb.diskConsistentLsn),
    putKey "ps_applylsn" 8 (putU64 fb.remoteConsistentLsn),
    putKey "ps_replytime" 8 (putI64 timestamp)] ++
  (if 0 < fb.shardNumber then [putKey "shard_number" 4 (putU32 fb.shardNumber)] else []) ++
  (if fb.corruptionDetected then [putKey "corruption_detected" 1 (putU8 1)] else [])

def serialize : Except SerializePanic (List UInt8) :=
  fb.timestamp.map (fun timestamp =>
    putU8 (UInt8.ofNat (fb.keys timestamp).length) ++ (fb.keys timestamp).flatten)

end PageserverFeedback

def serializeTermLsn (e : TermLsn) : List UInt8 :=
  putU64 e.term ++ putU64 e.lsn

def serializeFeedback : Option PageserverFeedback -> Except SerializePanic (List UInt8)
  | some fb => fb.serialize
  | none => .ok []

def serialize : AcceptorProposerMessage -> Except SerializePanic (List UInt8)
  | .greeting msg =>
    .ok (putU8 103 ++ (putU64 msg.nodeId ++ (serializeMconf msg.mconf ++ putU64 msg.term)))
  | .voteResponse msg =>
    .ok (putU8 118 ++ (putU32 msg.generation ++ (putU64 msg.term ++
      (putU8 (if msg.voteGiven then 1 else 0) ++ (putU64 msg.flushLsn ++
      (putU64 msg.truncateLsn ++ (putU32 (UInt32.ofNat msg.termHistory.length) ++
      msg.termHistory.flatMap serializeTermLsn)))))))
  | .appendResponse msg =>
    (serializeFeedback msg.pageserverFeedback).map (fun feedback =>
      putU8 97 ++ (putU32 msg.generation ++ (putU64 msg.term ++ (putU64 msg.flushLsn ++
        (putU64 msg.commitLsn ++ (putI64 msg.hsFeedback.ts ++
        (putU64 msg.hsFeedback.xmin ++ (putU64 msg.hsFeedback.catalogXmin ++
        feedback))))))))

end Codec
end Safekeeper
end OpenNeon

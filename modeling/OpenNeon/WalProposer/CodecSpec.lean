import OpenNeon.WalProposer.Message
import OpenNeon.Safekeeper.Codec

/-!
# What agreement of the codecs means

The walproposer and the safekeeper keep a message in structs of their own.  A
message of one side is the same as a message of the other when their fields are,
and each side limits what it accepts.
-/

namespace OpenNeon
namespace WalProposer

open Base Safekeeper

/-!
## The same data on both sides
-/

structure SameMember (c : SafekeeperId) (r : Codec.SafekeeperId) : Prop where
  id : r.id = c.nodeId
  host : Codec.asBytes r.host = c.host.bytes
  port : r.pgPort = c.port

def newMemberList (r : Codec.Configuration) : List Codec.SafekeeperId :=
  (r.newMembers.getD Codec.MemberSet.empty).m

structure SameConf (c : MembershipConfiguration) (r : Codec.Configuration) : Prop where
  generation : r.generation = c.generation
  members : List.Forall₂ SameMember c.members.m r.members.m
  newMembers : List.Forall₂ SameMember c.newMembers.m (newMemberList r)

structure SameEntry (c : TermSwitchEntry) (r : Codec.TermLsn) : Prop where
  term : r.term = c.term
  lsn : r.lsn = c.lsn

structure SameGreeting (c : ProposerGreeting) (r : Codec.ProposerGreeting) : Prop where
  tenantId : Codec.Id.fromHex c.tenantId.bytes = .ok r.tenantId
  timelineId : Codec.Id.fromHex c.timelineId.bytes = .ok r.timelineId
  mconf : SameConf c.mconf r.mconf
  absent : r.mconf.newMembers = none <-> c.mconf.newMembers.m = []
  pgVersion : r.pgVersion = c.pgVersion
  systemId : r.systemId = c.systemId
  walSegSize : r.walSegSize = c.walSegSize

structure SameVoteRequest (c : VoteRequest) (r : Codec.VoteRequest) : Prop where
  generation : r.generation = c.generation
  term : r.term = c.term

structure SameElected (c : ProposerElected) (r : Codec.ProposerElected) : Prop where
  generation : r.generation = c.generation
  term : r.term = c.term
  startStreamingAt : r.startStreamingAt = c.startStreamingAt
  termHistory : List.Forall₂ SameEntry c.termHistory.entries r.termHistory

structure SameAppend (c : AppendRequestHeader) (wal : List UInt8)
    (r : Codec.AppendRequest) : Prop where
  generation : r.h.generation = c.generation
  term : r.h.term = c.term
  beginLsn : r.h.beginLsn = c.beginLsn
  endLsn : r.h.endLsn = c.endLsn
  commitLsn : r.h.commitLsn = c.commitLsn
  truncateLsn : r.h.truncateLsn = c.truncateLsn
  walData : r.walData = wal

/-- A proposer's message, with the WAL behind an append request. -/
def SameRequest (wal : List UInt8) :
    ProposerAcceptorMessage -> Codec.ProposerAcceptorMessage -> Prop
  | .greeting c, .greeting r => SameGreeting c r
  | .voteRequest c, .voteRequest r => SameVoteRequest c r
  | .elected c, .elected r => SameElected c r
  | .appendRequest c, .appendRequest r => SameAppend c wal r
  | _, _ => False

structure SameAcceptorGreeting (r : Codec.AcceptorGreeting) (c : AcceptorGreeting) :
    Prop where
  nodeId : c.nodeId = r.nodeId
  mconf : SameConf c.mconf r.mconf
  term : c.term = r.term

structure SameVoteResponse (r : Codec.VoteResponse) (c : VoteResponse) : Prop where
  generation : c.generation = r.generation
  term : c.term = r.term
  voteGiven : c.voteGiven = if r.voteGiven then 1 else 0
  flushLsn : c.flushLsn = r.flushLsn
  truncateLsn : c.truncateLsn = r.truncateLsn
  termHistory : List.Forall₂ SameEntry c.termHistory.entries r.termHistory

structure SameFeedback (r : Codec.PageserverFeedback) (c : PageserverFeedback) :
    Prop where
  present : c.present = true
  currentClusterSize : c.currentClusterSize = r.currentTimelineSize
  lastReceivedLsn : c.lastReceivedLsn = r.lastReceivedLsn
  diskConsistentLsn : c.diskConsistentLsn = r.diskConsistentLsn
  remoteConsistentLsn : c.remoteConsistentLsn = r.remoteConsistentLsn
  replytime : c.replytime.toInt = r.replytime / 1000
  shardNumber : c.shardNumber = r.shardNumber
  corruptionDetected : c.corruptionDetected = r.corruptionDetected

def SameOptFeedback : Option Codec.PageserverFeedback -> PageserverFeedback -> Prop
  | some r, c => SameFeedback r c
  | none, c => c.present = false

structure SameAppendResponse (r : Codec.AppendResponse) (c : AppendResponse) : Prop where
  generation : c.generation = r.generation
  term : c.term = r.term
  flushLsn : c.flushLsn = r.flushLsn
  commitLsn : c.commitLsn = r.commitLsn
  ts : c.hs.ts = r.hsFeedback.ts
  xmin : c.hs.xmin = r.hsFeedback.xmin
  catalogXmin : c.hs.catalogXmin = r.hsFeedback.catalogXmin
  psFeedback : SameOptFeedback r.pageserverFeedback c.psFeedback

def SameResponse : Codec.AcceptorProposerMessage -> AcceptorProposerMessage -> Prop
  | .greeting r, .greeting c => SameAcceptorGreeting r c
  | .voteResponse r, .voteResponse c => SameVoteResponse r c
  | .appendResponse r, .appendResponse c => SameAppendResponse r c
  | _, _ => False

/-!
## Messages that the other side accepts
-/

def Ascii (bytes : List UInt8) : Prop :=
  forall b, b ∈ bytes -> b < 128

def IsHexDigit (b : UInt8) : Prop :=
  48 ≤ b ∧ b ≤ 57 ∨ 65 ≤ b ∧ b ≤ 70 ∨ 97 ≤ b ∧ b ≤ 102

structure IsHexId (bytes : List UInt8) : Prop where
  length_eq : bytes.length = 32
  digits : forall b, b ∈ bytes -> IsHexDigit b

/-- A set of distinct safekeepers at hosts with plain names. -/
structure AcceptedMembers (mset : MemberSet) : Prop where
  ascii : forall sk, sk ∈ mset.m -> Ascii sk.host.bytes
  nodup : (mset.m.map SafekeeperId.nodeId).Nodup

structure AcceptedConf (mconf : MembershipConfiguration) : Prop where
  members : AcceptedMembers mconf.members
  newMembers : AcceptedMembers mconf.newMembers
  nonempty : mconf.generation ≠ 0 -> mconf.members.m ≠ []

structure AcceptedGreeting (m : ProposerGreeting) : Prop where
  tenantId : IsHexId m.tenantId.bytes
  timelineId : IsHexId m.timelineId.bytes
  mconf : AcceptedConf m.mconf
  pgVersion : m.pgVersion = 0 ∨ 140000 ≤ m.pgVersion ∧ m.pgVersion < 180000

structure AcceptedAppend (m : AppendRequestHeader) (wal : List UInt8) : Prop where
  ordered : m.beginLsn ≤ m.endLsn
  fits : (m.endLsn - m.beginLsn).toNat ≤ Codec.MAX_SEND_SIZE
  length_wal : wal.length = (m.endLsn - m.beginLsn).toNat

def Accepted (wal : List UInt8) : ProposerAcceptorMessage -> Prop
  | .greeting m => AcceptedGreeting m
  | .voteRequest _ => True
  | .elected _ => True
  | .appendRequest m => AcceptedAppend m wal

/-- A set that the C structs can hold. -/
structure FittingMembers (s : Codec.MemberSet) : Prop where
  length_lt : s.m.length < 2 ^ 32
  noNul : forall sk, sk ∈ s.m -> (0 : UInt8) ∉ Codec.asBytes sk.host
  fits : forall sk, sk ∈ s.m -> (Codec.asBytes sk.host).length < MAXCONNINFO

structure FittingConf (mconf : Codec.Configuration) : Prop where
  members : FittingMembers mconf.members
  newMembers : forall s, mconf.newMembers = some s -> FittingMembers s

/-- A reply time that the 64 bits of a timestamp hold. -/
structure FittingFeedback (fb : Codec.PageserverFeedback) : Prop where
  epoch : 0 ≤ fb.replytime
  fits : fb.replytime / 1000 < 2 ^ 63

def Fitting : Codec.AcceptorProposerMessage -> Prop
  | .greeting msg => FittingConf msg.mconf
  | .voteResponse msg => msg.termHistory.length < 2 ^ 32
  | .appendResponse msg => forall fb, msg.pageserverFeedback = some fb -> FittingFeedback fb

end WalProposer
end OpenNeon

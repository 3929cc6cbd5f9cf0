import OpenNeon.Safekeeper.State
import OpenNeon.Safekeeper.WalStorage

/-!
# The acceptor

A safekeeper answers the messages of proposers from its control file and its WAL
storage.  An error ends the connection that the message came from; what has been
changed before it stays changed.
-/

namespace OpenNeon
namespace Safekeeper

open Base PhysicalStorage

/-!
## Messages
-/

structure ProposerGreeting where
  tenantId : Nat
  timelineId : Nat
  mconf : Configuration
  pgVersion : PgVersionId
  systemId : Nat
  walSegSize : Nat

structure AcceptorGreeting where
  nodeId : NodeId
  mconf : Configuration
  term : Term

structure VoteRequest where
  generation : SafekeeperGeneration
  term : Term

structure VoteResponse where
  generation : SafekeeperGeneration
  term : Term
  voteGiven : Bool
  flushLsn : Lsn
  truncateLsn : Lsn
  termHistory : TermHistory

structure ProposerElected where
  generation : SafekeeperGeneration
  term : Term
  startStreamingAt : Lsn
  termHistory : TermHistory

structure AppendRequest where
  generation : SafekeeperGeneration
  term : Term
  beginLsn : Lsn
  endLsn : Lsn
  commitLsn : Lsn
  truncateLsn : Lsn
  walData : List UInt8

structure AppendResponse where
  generation : SafekeeperGeneration
  term : Term
  flushLsn : Lsn
  commitLsn : Lsn

/-- A refusal that tells the term only. -/
def AppendResponse.termOnly (generation : SafekeeperGeneration) (term : Term) : AppendResponse :=
  { generation := generation, term := term, flushLsn := 0, commitLsn := 0 }

inductive ProposerAcceptorMessage where
  | greeting (msg : ProposerGreeting)
  | voteRequest (msg : VoteRequest)
  | elected (msg : ProposerElected)
  | appendRequest (msg : AppendRequest)
  | noFlushAppendRequest (msg : AppendRequest)
  | flushWAL

inductive AcceptorProposerMessage where
  | greeting (msg : AcceptorGreeting)
  | voteResponse (msg : VoteResponse)
  | appendResponse (msg : AppendResponse)

structure SafekeeperTimelineInfo where
  lastLogTerm : Term
  commitLsn : Lsn

/-!
## Errors
-/

inductive SkPanic where
  | termHistory (reason : TermHistory.Panic)
  | truncateCommitted (startStreamingAt commitLsn : Lsn)
  | commitLsnMonotonicity (old new : Lsn)
  deriving DecidableEq

inductive SkError where
  | emptyTimelineId
  | invalidPgVersion
  | incompatibleServerVersion
  | invalidTenantId
  | invalidTimelineId
  | invalidWalSegSize
  | notAMember
  | generationMismatch
  | emptyTermHistory
  | unexpectedTruncationPoint
  | appendBeforeElected
  | appendRewrites
  | appendCreatesGap
  | storage (reason : StorageError)
  | state (reason : StateError)
  | panic (reason : SkPanic)
  deriving DecidableEq

/-- The places at which a handler persists the control file. -/
inductive PersistSite where
  | systemId
  | mconf
  | term
  | termHistory
  | commitLsn

/-- What happens to the file operations of one message. -/
structure SkIo where
  storage : StorageIo
  persist : PersistSite -> Bool

structure SafeKeeper where
  /-- Where the term of the proposer starts, cached from its last message. -/
  termStartLsn : Lsn
  state : TimelineState
  walStore : PhysicalStorage
  nodeId : NodeId

namespace SafeKeeper

def new (state : TimelineState) (walStore : PhysicalStorage) (nodeId : NodeId) :
    Except SkError SafeKeeper :=
  if state.pers.tenantId = 0 ∨ state.pers.timelineId = 0 then .error .emptyTimelineId
  else .ok
    { termStartLsn := 0, state := state, walStore := walStore, nodeId := nodeId }

/-- Start a safekeeper from its control file and its WAL. -/
def load (pers : TimelinePersistentState) (disk : Lsn -> UInt8)
    (diskEnd endOfWal : Lsn) (nodeId : NodeId) : Except SkError SafeKeeper :=
  match PhysicalStorage.new pers.commitLsn pers.server.walSegSize disk diskEnd
    endOfWal with
  | .error reason => .error (.storage reason)
  | .ok walStore => new (TimelineState.new pers) walStore nodeId

variable (sk : SafeKeeper)

/-- The end of the WAL; a timeline without WAL ends where it starts. -/
def flushLsn : Lsn :=
  max sk.walStore.flushLsn sk.state.pers.timelineStartLsn

def getTermHistory : TermHistory :=
  sk.state.pers.acceptorState.termHistory.upTo sk.flushLsn

def getLastLogTerm : Term :=
  sk.state.pers.acceptorState.getLastLogTerm sk.flushLsn

abbrev Op := Prog SafeKeeper SkError

def onStore {alpha : Type} (m : PhysicalStorage.Op alpha) : Op alpha :=
  Prog.zoom (fun sk => sk.walStore) (fun w sk => { sk with walStore := w })
    (m.adapt SkError.storage)

def onState {alpha : Type} (m : TimelineState.Op alpha) : Op alpha :=
  Prog.zoom (fun sk => sk.state) (fun t sk => { sk with state := t }) (m.adapt SkError.state)

variable (io : SkIo)

/-- Start a change of the persistent state and finish it. -/
def change (site : PersistSite)
    (f : TimelinePersistentState -> TimelinePersistentState) : Op Unit := do
  let sk <- get
  onState (TimelineState.finishChange (io.persist site) (f sk.state.startChange))

/-!
## Handlers
-/

def checkGreeting (msg : ProposerGreeting) (pers : TimelinePersistentState) : Except SkError Unit :=
  match pgMajorVersion msg.pgVersion, pgMajorVersion pers.server.pgVersion with
  | some theirs, some ours =>
    if theirs ≠ ours ∧ pers.server.pgVersion ≠ UNKNOWN_SERVER_VERSION then
      .error .incompatibleServerVersion
    else if msg.tenantId ≠ pers.tenantId then .error .invalidTenantId
    else if msg.timelineId ≠ pers.timelineId then .error .invalidTimelineId
    else if pers.server.walSegSize ≠ msg.walSegSize then .error .invalidWalSegSize
    else .ok ()
  | _, _ => .error .invalidPgVersion

def handleGreeting (msg : ProposerGreeting) : Op (Option AcceptorProposerMessage) := do
  let pers := (<- get).state.pers
  liftExcept (checkGreeting msg pers)
  if pers.server.systemId ≠ msg.systemId ∧ msg.systemId ≠ 0 then
    change io .systemId (fun state => { state with
      server := { state.server with
        systemId := msg.systemId
        pgVersion :=
          if msg.pgVersion ≠ UNKNOWN_SERVER_VERSION then msg.pgVersion
          else state.server.pgVersion } })
  let sk <- get
  if sk.state.pers.mconf.generation < msg.mconf.generation ∧
      msg.mconf.contains sk.nodeId = false then
    throw .notAMember
  let _ <- onState (TimelineState.membershipSwitch (io.persist .mconf) msg.mconf)
  let sk <- get
  return some (.greeting
    { nodeId := sk.nodeId
      mconf := sk.state.pers.mconf
      term := sk.state.pers.acceptorState.term })

def raiseTerm (term : Term) : Op Unit :=
  change io .term (fun state => { state with
    acceptorState := { state.acceptorState with term := term } })

/-- Give a vote for a term that is higher than any before. -/
def handleVoteRequest (msg : VoteRequest) : Op (Option AcceptorProposerMessage) := do
  if (<- get).state.pers.mconf.generation ≠ msg.generation then
    throw .generationMismatch
  onStore (flushWal io.storage)
  let sk <- get
  let resp : VoteResponse :=
    { generation := sk.state.pers.mconf.generation
      term := sk.state.pers.acceptorState.term
      voteGiven := false
      flushLsn := sk.flushLsn
      truncateLsn := sk.state.inmem.peerHorizonLsn
      termHistory := sk.getTermHistory }
  if sk.state.pers.acceptorState.term < msg.term then
    raiseTerm io msg.term
    let sk <- get
    return some (.voteResponse
      { resp with term := sk.state.pers.acceptorState.term, voteGiven := true })
  else return some (.voteResponse resp)

def appendResponse : AppendResponse :=
  { generation := sk.state.pers.mconf.generation
    term := sk.state.pers.acceptorState.term
    flushLsn := sk.flushLsn
    commitLsn := sk.state.pers.commitLsn }

section

variable (msg : ProposerElected)

/-- The point up to which the WAL is kept for a proposer. -/
def lastCommonPoint (sk : SafeKeeper) : Except SkError TermLsn :=
  match TermHistory.findHighestCommonPoint msg.termHistory sk.getTermHistory
    sk.flushLsn with
  | .error reason => .error (.panic (.termHistory reason))
  | .ok (some lcp) => .ok lcp
  | .ok none =>
    match msg.termHistory.head? with
    | some first => .ok first
    | none => .error .emptyTermHistory

/-- The persistent state with the history of the proposer. -/
def adoptHistory (state : TimelinePersistentState) : TimelinePersistentState :=
  let timelineStartLsn :=
    match msg.termHistory.head? with
    | some start =>
      if state.timelineStartLsn = 0 then start.lsn else state.timelineStartLsn
    | none => state.timelineStartLsn
  { state with
    timelineStartLsn := timelineStartLsn
    peerHorizonLsn :=
      if state.peerHorizonLsn = 0 then timelineStartLsn else state.peerHorizonLsn
    localStartLsn :=
      if state.localStartLsn = 0 then msg.startStreamingAt else state.localStartLsn
    commitLsn := max state.commitLsn timelineStartLsn
    backupLsn := max state.backupLsn timelineStartLsn
    remoteConsistentLsn := max state.remoteConsistentLsn timelineStartLsn
    acceptorState := { state.acceptorState with termHistory := msg.termHistory } }

/-- The last part of the handler: truncate WAL and adopt the history. -/
def truncateAndAdopt : Op (Option AcceptorProposerMessage) := do
  onStore (truncateWal io.storage msg.startStreamingAt)
  change io .termHistory (adoptHistory msg)
  match msg.termHistory.getLast? with
  | none => throw .emptyTermHistory
  | some termLsnStart =>
    modify (fun sk => { sk with termStartLsn := termLsnStart.lsn })
    return none

def handleElected : Op (Option AcceptorProposerMessage) := do
  if (<- get).state.pers.mconf.generation ≠ msg.generation then
    throw .generationMismatch
  if (<- get).state.pers.acceptorState.term < msg.term then raiseTerm io msg.term
  if msg.term < (<- get).state.pers.acceptorState.term then return none
  let sk <- get
  let lcp <- liftExcept (lastCommonPoint msg sk)
  if lcp.lsn ≠ msg.startStreamingAt then throw .unexpectedTruncationPoint
  if msg.startStreamingAt < sk.state.inmem.commitLsn then
    throw (.panic (.truncateCommitted msg.startStreamingAt sk.state.inmem.commitLsn))
  if sk.walStore.flushLsn = 0 then
    onStore (initializeFirstSegment io.storage)
  truncateAndAdopt io msg

end

def updateCommitLsn (candidate : Lsn) : Op Unit := do
  let sk <- get
  let commitLsn := min (max candidate sk.state.inmem.commitLsn) sk.flushLsn
  if commitLsn < sk.state.inmem.commitLsn then
    throw (.panic (.commitLsnMonotonicity sk.state.inmem.commitLsn commitLsn))
  set { sk with
    state := { sk.state with inmem := { sk.state.inmem with commitLsn := commitLsn } } }
  if sk.termStartLsn ≤ commitLsn ∧ sk.state.pers.commitLsn < sk.termStartLsn then
    onState (TimelineState.flush (io.persist .commitLsn))

def handleAppendRequest (msg : AppendRequest) (requireFlush : Bool) :
    Op (Option AcceptorProposerMessage) := do
  let sk <- get
  let term := sk.state.pers.acceptorState.term
  if sk.state.pers.mconf.generation ≠ msg.generation then throw .generationMismatch
  if term < msg.term then throw .appendBeforeElected
  if msg.term < term then
    return some (.appendResponse (AppendResponse.termOnly sk.state.pers.mconf.generation term))
  let writeLsn := sk.walStore.writeLsn
  let flushLsn := sk.walStore.flushLsn
  if msg.beginLsn < writeLsn then throw .appendRewrites
  if writeLsn < msg.beginLsn ∧ writeLsn ≠ 0 then throw .appendCreatesGap
  if msg.walData ≠ [] then
    onStore (writeWal io.storage msg.beginLsn msg.walData)
  if requireFlush then onStore (flushWal io.storage)
  if msg.commitLsn ≠ 0 then updateCommitLsn io msg.commitLsn
  modify (fun sk => { sk with
    state := { sk.state with
      inmem := { sk.state.inmem with
        peerHorizonLsn := max sk.state.inmem.peerHorizonLsn msg.truncateLsn } } })
  let sk <- get
  if requireFlush = false ∧ flushLsn = sk.flushLsn then return none
  else return some (.appendResponse sk.appendResponse)

def handleFlush : Op (Option AcceptorProposerMessage) := do
  onStore (flushWal io.storage)
  let sk <- get
  return some (.appendResponse sk.appendResponse)

def processMsg : ProposerAcceptorMessage -> Op (Option AcceptorProposerMessage)
  | .greeting msg => handleGreeting io msg
  | .voteRequest msg => handleVoteRequest io msg
  | .elected msg => handleElected io msg
  | .appendRequest msg => handleAppendRequest io msg true
  | .noFlushAppendRequest msg => handleAppendRequest io msg false
  | .flushWAL => handleFlush io

def recordSafekeeperInfo (info : SafekeeperTimelineInfo) : Op Unit := do
  if info.commitLsn ≠ 0 then
    let sk <- get
    if info.lastLogTerm = sk.getLastLogTerm then updateCommitLsn io info.commitLsn

end SafeKeeper

end Safekeeper
end OpenNeon

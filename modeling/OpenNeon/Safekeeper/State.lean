import OpenNeon.Base.Prog
import OpenNeon.Safekeeper.Membership
import OpenNeon.Safekeeper.TermHistory

/-!
# The control file and its copy in memory

Some fields are kept in memory ahead of the control file.  A change starts from
the persistent state with the fields of the memory, and is persisted as a whole.
-/

namespace OpenNeon
namespace Safekeeper

open Base

abbrev PgVersionId := Nat

def UNKNOWN_SERVER_VERSION : PgVersionId := 0

def pgMajorVersion (v : PgVersionId) : Option Nat :=
  if 14 ≤ v / 10000 ∧ v / 10000 ≤ 17 then some (v / 10000) else none

structure ServerInfo where
  pgVersion : PgVersionId
  systemId : Nat
  walSegSize : Nat
  deriving DecidableEq

structure TenantTimelineId where
  tenantId : Nat
  timelineId : Nat
  deriving DecidableEq

structure TimelinePersistentState where
  tenantId : Nat
  timelineId : Nat
  mconf : Configuration
  acceptorState : AcceptorState
  server : ServerInfo
  timelineStartLsn : Lsn
  localStartLsn : Lsn
  commitLsn : Lsn
  backupLsn : Lsn
  peerHorizonLsn : Lsn
  remoteConsistentLsn : Lsn
  deriving DecidableEq

inductive TimelineError where
  | uninitializedWalSegSize (ttid : TenantTimelineId)
  | uninitializedPgVersion (ttid : TenantTimelineId)
  | commitLsnBelowStartLsn (commitLsn startLsn : Lsn)
  deriving DecidableEq

def TimelinePersistentState.new (ttid : TenantTimelineId) (mconf : Configuration)
    (serverInfo : ServerInfo) (startLsn commitLsn : Lsn) :
    Except TimelineError TimelinePersistentState :=
  if serverInfo.walSegSize = 0 then .error (.uninitializedWalSegSize ttid)
  else if serverInfo.pgVersion = UNKNOWN_SERVER_VERSION then
    .error (.uninitializedPgVersion ttid)
  else if commitLsn < startLsn then .error (.commitLsnBelowStartLsn commitLsn startLsn)
  else .ok
    { tenantId := ttid.tenantId
      timelineId := ttid.timelineId
      mconf := mconf
      acceptorState :=
        { term := INITIAL_TERM
          termHistory := if commitLsn ≠ 0 then [⟨INITIAL_TERM, startLsn⟩] else [] }
      server := serverInfo
      timelineStartLsn := startLsn
      localStartLsn := startLsn
      commitLsn := commitLsn
      backupLsn := startLsn
      peerHorizonLsn := startLsn
      remoteConsistentLsn := 0 }

structure TimelineMemState where
  commitLsn : Lsn
  backupLsn : Lsn
  peerHorizonLsn : Lsn
  remoteConsistentLsn : Lsn

structure TimelineState where
  inmem : TimelineMemState
  pers : TimelinePersistentState

inductive StateError where
  | persist
  deriving DecidableEq

namespace TimelineState

def memOf (s : TimelinePersistentState) : TimelineMemState :=
  { commitLsn := s.commitLsn
    backupLsn := s.backupLsn
    peerHorizonLsn := s.peerHorizonLsn
    remoteConsistentLsn := s.remoteConsistentLsn }

def new (state : TimelinePersistentState) : TimelineState :=
  { inmem := memOf state, pers := state }

def startChange (t : TimelineState) : TimelinePersistentState :=
  { t.pers with
    commitLsn := t.inmem.commitLsn
    backupLsn := t.inmem.backupLsn
    peerHorizonLsn := t.inmem.peerHorizonLsn
    remoteConsistentLsn := t.inmem.remoteConsistentLsn }

abbrev Op := Prog TimelineState StateError

/-- Persist a state, where `persisted` tells whether the file is written. -/
def finishChange (persisted : Bool) (s : TimelinePersistentState) : Op Unit := do
  let t <- get
  if s = t.pers then set { t with inmem := memOf s }
  else if persisted then set (TimelineState.mk (memOf s) s)
  else throw .persist

def flush (persisted : Bool) : Op Unit := do
  let t <- get
  finishChange persisted t.startChange

/-- Switch into a configuration if it is higher than the current one. -/
def membershipSwitch (persisted : Bool) (toConf : Configuration) :
    Op (Configuration × Configuration) := do
  let t <- get
  let before := t.pers.mconf
  if t.pers.mconf.generation < toConf.generation then
    finishChange persisted { t.startChange with mconf := toConf }
  let t <- get
  return (before, t.pers.mconf)

end TimelineState

end Safekeeper
end OpenNeon

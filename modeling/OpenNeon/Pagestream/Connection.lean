import OpenNeon.Base.System
import OpenNeon.Pagestream.RoundTrip

/-!
# The connection of a compute to a page server

A connection is opened for one protocol version.  The compute starts with its own setting
and steps down from version 4 to version 3, for good, when the page server rejects the
handshake.  A request is packed before the connection is made, for the version known by
then, so it must not be that the handshake made afterwards steps down.
-/

namespace OpenNeon
namespace Pagestream

open Base

inductive ConnectionState where
  | disconnected
  | connectingStartup
  | connectingPageStream
  | connected
  deriving DecidableEq

/-- The connection to a page server; `opened` is the version of the command that opened it. -/
structure PageServer where
  state : ConnectionState
  negotiatedProtocolVersion : Option ProtocolVersion
  opened : ProtocolVersion

namespace PageServer

def cleanupAndDisconnect (shard : PageServer) : PageServer :=
  { shard with state := .disconnected }

/-- The version for the next message or connection; `setting` is the compute's own. -/
def version (setting : ProtocolVersion) (shard : PageServer) : ProtocolVersion :=
  shard.negotiatedProtocolVersion.getD setting

def startPageStream (setting : ProtocolVersion) (shard : PageServer) : PageServer :=
  { state := .connectingPageStream
    negotiatedProtocolVersion := some (shard.version setting)
    opened := shard.version setting }

end PageServer

/-- How a call of `pageserver_connect` goes; after an interruption the next one goes on. -/
inductive Outcome where
  | startupFails
  | startupInterrupted
  | handshakeLost
  | handshakeInterrupted
  | rejected
  | accepted
  deriving DecidableEq

structure Attempt where
  /-- The shard map has changed, so that the connection is closed first. -/
  remapped : Bool
  outcome : Outcome

inductive ConnectResult where
  | connected
  | failed
  /-- An error was thrown. -/
  | thrown

def handshake (outcome : Outcome) (shard : PageServer) : ConnectResult × PageServer :=
  match outcome with
  | .accepted => (.connected, { shard with state := .connected })
  | .handshakeInterrupted => (.thrown, shard)
  | .rejected =>
    if shard.negotiatedProtocolVersion = some .v4 then
      (.failed, { shard with negotiatedProtocolVersion := some .v3 }.cleanupAndDisconnect)
    else (.failed, shard.cleanupAndDisconnect)
  | _ => (.failed, shard.cleanupAndDisconnect)

def pageserverConnect (setting : ProtocolVersion) (attempt : Attempt) (shard : PageServer) :
    ConnectResult × PageServer :=
  let shard := if attempt.remapped then shard.cleanupAndDisconnect else shard
  if shard.state = .connectingPageStream then handshake attempt.outcome shard
  else
    match attempt.outcome with
    | .startupFails => (.failed, shard.cleanupAndDisconnect)
    | .startupInterrupted => (.thrown, { shard with state := .connectingStartup })
    | outcome => handshake outcome (shard.startPageStream setting)

/-- Attempts until one succeeds; after the last one an error is thrown. -/
def reconnect (setting : ProtocolVersion) : List Attempt -> PageServer -> ConnectResult × PageServer
  | [], shard => (.thrown, shard)
  | attempt :: rest, shard =>
    match pageserverConnect setting attempt shard with
    | (.failed, next) => reconnect setting rest next
    | result => result

/-- What happens around one call of `pageserver_send`: the id given to the request, the
trace context of the current query, whether the connection turns out to be lost, the
attempts to connect and whether the data can be put on the connection. -/
structure SendCall where
  msg : FeMessage
  reqid : UInt64
  current : Option TraceContext
  lost : Bool
  attempts : List Attempt
  put : Bool

def SendCall.request (call : SendCall) : FeMessage :=
  { call.msg with
    hdr :=
      { call.msg.hdr with
        reqid := call.reqid
        traceContext := call.msg.hdr.traceContext <|> call.current } }

/-- A request on a connection, and the version that the connection was opened with. -/
structure Sent where
  msg : FeMessage
  bytes : List UInt8
  version : ProtocolVersion

def SendCall.found (call : SendCall) (shard : PageServer) : PageServer :=
  if call.lost = true ∧ shard.state = .connected then shard.cleanupAndDisconnect else shard

def connectIfNeeded (setting : ProtocolVersion) (attempts : List Attempt) (shard : PageServer) :
    ConnectResult × PageServer :=
  if shard.state = .connected then (.connected, shard) else reconnect setting attempts shard

def pageserverSend (setting : ProtocolVersion) (call : SendCall) (shard : PageServer) :
    PageServer × Option Sent :=
  let shard := call.found shard
  match nmPackRequest call.request (shard.version setting) with
  | none => (shard, none)
  | some bytes =>
    match connectIfNeeded setting call.attempts shard with
    | (.connected, shard) =>
      if call.put then (shard, some ⟨call.request, bytes, shard.opened⟩)
      else (shard.cleanupAndDisconnect, none)
    | (_, shard) => (shard, none)

/-!
## Runs
-/

inductive Event where
  | send (call : SendCall)
  | disconnect

structure Compute where
  shard : PageServer
  sent : List Sent

def Compute.start (setting : ProtocolVersion) : Compute :=
  { shard := { state := .disconnected, negotiatedProtocolVersion := none, opened := setting }
    sent := [] }

def Compute.next (setting : ProtocolVersion) (c : Compute) : Event -> Option Compute
  | .send call =>
    some { shard := (pageserverSend setting call c.shard).1
           sent := c.sent ++ (pageserverSend setting call c.shard).2.toList }
  | .disconnect => some { c with shard := c.shard.cleanupAndDisconnect }

/-- No request is packed for version 4 while a handshake of the same call is rejected. -/
def PackedForConnection (setting : ProtocolVersion) (c : Compute) : Event -> Prop
  | .send call =>
    (call.found c.shard).state ≠ .connected -> c.shard.version setting = .v4 ->
      forall attempt, attempt ∈ call.attempts -> attempt.outcome ≠ .rejected
  | .disconnect => True

/-!
## The version of a connection
-/

/-- Connections have the negotiated version: the compute's setting, or 3 instead of 4. -/
structure Settled (setting : ProtocolVersion) (shard : PageServer) : Prop where
  opened : shard.state = .connectingPageStream ∨ shard.state = .connected ->
    shard.negotiatedProtocolVersion = some shard.opened
  version : shard.version setting = setting ∨ setting = .v4 ∧ shard.version setting = .v3

variable {setting : ProtocolVersion} {shard shard' : PageServer}

theorem Settled.cleanup (h : Settled setting shard) :
    Settled setting shard.cleanupAndDisconnect where
  opened := by
    rintro (hstate | hstate) <;> cases hstate
  version := h.version

/-- What attempts leave: a settled connection, up if they say so, and at the version
before, if version 4 is not `stepped` down from. -/
structure Attempted (setting : ProtocolVersion) (shard : PageServer) (stepped : Prop)
    (out : ConnectResult × PageServer) : Prop where
  settled : Settled setting out.2
  connected : out.1 = .connected -> out.2.state = .connected
  version : (shard.version setting = .v4 -> ¬ stepped) ->
    out.2.version setting = shard.version setting

section

variable (h : Settled setting shard)

include h

theorem attempted_handshake (hstate : shard.state = .connectingPageStream) (outcome : Outcome) :
    Attempted setting shard (outcome = .rejected) (handshake outcome shard) := by
  have hcleanup : forall stepped, Attempted setting shard stepped
      (.failed, shard.cleanupAndDisconnect) :=
    fun _ => ⟨h.cleanup, by simp, fun _ => rfl⟩
  cases outcome with
  | accepted =>
    exact ⟨⟨fun _ => h.opened (.inl hstate), h.version⟩, fun _ => rfl, fun _ => rfl⟩
  | handshakeInterrupted => exact ⟨h, (fun hconnected => by cases hconnected), fun _ => rfl⟩
  | rejected =>
    unfold handshake
    dsimp only
    split
    next hv4 =>
      have hversion : shard.version setting = .v4 := by simp [PageServer.version, hv4]
      have hsetting : setting = .v4 := by
        rcases h.version with hv | ⟨hv, -⟩
        · exact hv.symm.trans hversion
        · exact hv
      refine ⟨⟨?_, .inr ⟨hsetting, rfl⟩⟩, (fun hconnected => by cases hconnected),
        fun hstepped => absurd rfl (hstepped hversion)⟩
      rintro (hs | hs) <;> cases hs
    · exact hcleanup _
  | _ => exact hcleanup _

theorem attempted_pageserverConnect (attempt : Attempt) :
    Attempted setting shard (attempt.outcome = .rejected)
      (pageserverConnect setting attempt shard) := by
  obtain ⟨remapped, outcome⟩ := attempt
  -- closing the connection first changes nothing that matters
  obtain ⟨first, hfirst, hsettled, hversion⟩ : exists first,
      first = (if remapped then shard.cleanupAndDisconnect else shard) ∧
        Settled setting first ∧ first.version setting = shard.version setting := by
    cases remapped with
    | true => exact ⟨_, rfl, h.cleanup, rfl⟩
    | false => exact ⟨_, rfl, h, rfl⟩
  have hopen : Settled setting (first.startPageStream setting) := ⟨fun _ => rfl, hsettled.version⟩
  unfold pageserverConnect
  dsimp only
  rw [← hfirst]
  split
  next hstate =>
    have hout := attempted_handshake hsettled hstate outcome
    exact ⟨hout.settled, hout.connected, hversion ▸ hout.version⟩
  · have hout := attempted_handshake hopen rfl outcome
    have hout' : Attempted setting shard (outcome = .rejected)
        (handshake outcome (first.startPageStream setting)) :=
      ⟨hout.settled, hout.connected, hversion ▸ hout.version⟩
    cases outcome with
    | startupFails =>
      exact ⟨hsettled.cleanup, (fun hconnected => by cases hconnected), fun _ => hversion⟩
    | startupInterrupted =>
      refine ⟨⟨?_, hsettled.version⟩, (fun hconnected => by cases hconnected), fun _ => hversion⟩
      rintro (hs | hs) <;> cases hs
    | _ => exact hout'

theorem attempted_reconnect (attempts : List Attempt) :
    Attempted setting shard (exists attempt, attempt ∈ attempts ∧ attempt.outcome = .rejected)
      (reconnect setting attempts shard) := by
  induction attempts generalizing shard with
  | nil => exact ⟨h, (fun hconnected => by cases hconnected), fun _ => rfl⟩
  | cons attempt rest ih =>
    have hfirst := attempted_pageserverConnect h attempt
    unfold reconnect
    rcases hout : pageserverConnect setting attempt shard with ⟨result, next⟩
    rw [hout] at hfirst
    have hversion : (shard.version setting = .v4 ->
        ¬ exists a, a ∈ attempt :: rest ∧ a.outcome = .rejected) ->
        next.version setting = shard.version setting :=
      fun hnot => hfirst.version (fun hv hrejected => hnot hv ⟨attempt, by simp, hrejected⟩)
    cases result with
    | failed =>
      have hrest := ih hfirst.settled
      refine ⟨hrest.settled, hrest.connected, fun hnot => ?_⟩
      refine (hrest.version (fun hv => ?_)).trans (hversion hnot)
      rintro ⟨a, ha, hrejected⟩
      exact hnot ((hversion hnot).symm.trans hv) ⟨a, by simp [ha], hrejected⟩
    | _ => exact ⟨hfirst.settled, hfirst.connected, hversion⟩

theorem attempted_connectIfNeeded (attempts : List Attempt) :
    Attempted setting shard (shard.state ≠ .connected ∧
        exists attempt, attempt ∈ attempts ∧ attempt.outcome = .rejected)
      (connectIfNeeded setting attempts shard) := by
  unfold connectIfNeeded
  split
  next hstate => exact ⟨h, fun _ => hstate, fun _ => rfl⟩
  next hstate =>
    have hout := attempted_reconnect h attempts
    exact ⟨hout.settled, hout.connected,
      fun hnot => hout.version (fun hv hrejected => hnot hv ⟨hstate, hrejected⟩)⟩

theorem settled_found (call : SendCall) :
    Settled setting (call.found shard) ∧
      (call.found shard).version setting = shard.version setting := by
  unfold SendCall.found
  split
  · exact ⟨h.cleanup, rfl⟩
  · exact ⟨h, rfl⟩

end

/-!
## What is sent is parsed
-/

/-- The page server parses it, at the connection's version, into the same request. -/
def Understood (s : Sent) : Prop :=
  FeMessage.parse s.version s.bytes = .ok (s.msg.seen s.version)

theorem settled_pageserverSend (h : Settled setting shard) (call : SendCall) :
    Settled setting (pageserverSend setting call shard).1 := by
  obtain ⟨hfound, -⟩ := settled_found h call
  have hout := attempted_connectIfNeeded hfound call.attempts
  unfold pageserverSend
  dsimp only
  split
  · exact hfound
  · split
    next hconnect =>
      rw [hconnect] at hout
      split
      · exact hout.settled
      · exact hout.settled.cleanup
    next hconnect =>
      rw [hconnect] at hout
      exact hout.settled

theorem understood_pageserverSend (h : Settled setting shard) {call : SendCall} {sent : Sent}
    (hpacked : (call.found shard).state ≠ .connected -> shard.version setting = .v4 ->
      forall attempt, attempt ∈ call.attempts -> attempt.outcome ≠ .rejected)
    (hsent : (pageserverSend setting call shard).2 = some sent) : Understood sent := by
  obtain ⟨hfound, hversion⟩ := settled_found h call
  have hout := attempted_connectIfNeeded hfound call.attempts
  unfold pageserverSend at hsent
  dsimp only at hsent
  split at hsent
  · cases hsent
  next bytes hbytes =>
    split at hsent
    next connected hconnect =>
      rw [hconnect] at hout
      split at hsent
      · cases hsent
        have hopened := hout.settled.opened (.inr (hout.connected rfl))
        have hsame : connected.version setting = (call.found shard).version setting := by
          refine hout.version ?_
          rintro hv ⟨hstate, attempt, hattempt, hrejected⟩
          exact hpacked hstate (hversion ▸ hv) attempt hattempt hrejected
        have heq : connected.opened = (call.found shard).version setting := by
          rw [← hsame, PageServer.version, hopened]
          rfl
        rw [heq]
        exact parse_pack hbytes
      · cases hsent
    · cases hsent

structure Sound (setting : ProtocolVersion) (c : Compute) : Prop where
  settled : Settled setting c.shard
  sent : forall sent, sent ∈ c.sent -> Understood sent

theorem sound_start : Sound setting (.start setting) where
  settled := ⟨fun hstate => by simp [Compute.start] at hstate, .inl rfl⟩
  sent := by
    intro sent hmem
    cases hmem

theorem sound_next {c c' : Compute} {e : Event} (h : Sound setting c)
    (hok : PackedForConnection setting c e) (hnext : Compute.next setting c e = some c') :
    Sound setting c' := by
  cases e with
  | send call =>
    cases hnext
    refine ⟨settled_pageserverSend h.settled call, fun sent hmem => ?_⟩
    rcases List.mem_append.mp hmem with hmem | hmem
    · exact h.sent sent hmem
    · exact understood_pageserverSend h.settled hok (Option.mem_toList.mp hmem)
  | disconnect =>
    cases hnext
    exact ⟨h.settled.cleanup, h.sent⟩

/-- In calls that meet the condition, requests and responses are read as they were meant. -/
theorem pagestream_agrees (setting : ProtocolVersion) (c : Compute)
    (h : Reached (Compute.next setting) (PackedForConnection setting) (.start setting) c) :
    (forall sent, sent ∈ c.sent -> Understood sent) ∧
      (c.shard.state = .connected -> forall msg : BeMessage, msg.resp.Proper ->
        nmUnpackResponse setting (msg.serialize c.shard.opened) =
          .ok (msg.seen c.shard.opened)) := by
  have hsound : Sound setting c :=
    h.invariant sound_start (fun _ _ _ hs hok hnext => sound_next hs hok hnext)
  refine ⟨hsound.sent, fun hstate msg hproper => unpack_serialize hproper ?_⟩
  have hversion : c.shard.version setting = c.shard.opened := by
    simp [PageServer.version, hsound.settled.opened (.inr hstate)]
  rw [← hversion]
  rcases hsound.settled.version with hv | ⟨rfl, hv⟩
  · rw [hv]
  · rw [hv]
    rfl

def existsCall (attempts : List Attempt) : SendCall where
  msg :=
    { hdr := { reqid := 0, lsn := 16, notModifiedSince := 16, traceContext := none }
      req := .relExists ⟨1663, 5, 1259, 0⟩ }
  reqid := 7
  current := none
  lost := false
  attempts := attempts
  put := true

/-- A page server that knows version 4 gets the request as it was meant. -/
theorem pagestream_agrees_accepted :
    exists c, Reached (Compute.next .v4) (PackedForConnection .v4) (.start .v4) c ∧
      c.sent.length = 1 ∧ forall sent, sent ∈ c.sent -> Understood sent := by
  have hreached : Reached (Compute.next .v4) (PackedForConnection .v4) (.start .v4)
      { shard := ⟨.connected, some .v4, .v4⟩
        sent := [] ++ (pageserverSend .v4 (existsCall [⟨false, .accepted⟩])
          (Compute.start .v4).shard).2.toList } := by
    refine .step (.send (existsCall [⟨false, .accepted⟩])) .start ?_ rfl
    rintro - - attempt hattempt
    cases List.mem_singleton.mp hattempt
    decide
  exact ⟨_, hreached, by decide +kernel, (pagestream_agrees .v4 _ hreached).1⟩

/-- A handshake is rejected, and the request packed for version 4 goes to a connection for version
3. -/
theorem pageserverSend_packed_before_rejection :
    exists c, Reached (Compute.next .v4) (fun _ _ => True) (.start .v4) c ∧
      exists sent, sent ∈ c.sent ∧ ¬ Understood sent := by
  have hsent : (pageserverSend .v4 (existsCall [⟨false, .rejected⟩, ⟨false, .accepted⟩])
      (Compute.start .v4).shard).2 = some ⟨(existsCall []).request,
          ((nmPackRequest (existsCall []).request .v4).getD []), .v3⟩ := by
    rfl
  refine ⟨_, .step (.send (existsCall [⟨false, .rejected⟩, ⟨false, .accepted⟩])) .start
    trivial rfl, _, List.mem_append_right _ (Option.mem_toList.mpr hsent), fun hparse => ?_⟩
  have hreqid := congrArg (fun r => r.toOption.map (fun m => m.hdr.reqid)) hparse
  revert hreqid
  decide +kernel

end Pagestream
end OpenNeon

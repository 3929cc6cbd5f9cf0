import OpenNeon.WalProposer.ParseRequests
import OpenNeon.WalProposer.ReadResponses

/-!
# The two codecs agree

What one side writes, the other side reads as a message with the same fields, and
it reads all bytes of it.  A proper prefix of a message is never read as that
message.
-/

namespace OpenNeon
namespace WalProposer

open Base Safekeeper

/-- For protocol version 3 both directions agree: every message within the limits of
the reader is read back with the same fields, all its bytes are read, and no proper
prefix is accepted as the message. -/
theorem codecs_agree :
    (forall msg wal, Accepted wal msg ->
      exists r, SameRequest wal msg r ∧
        Codec.parse (outbuf msg wal) = .ok r ∧
        Codec.parseRest (outbuf msg wal) = .ok (r, []) ∧
        forall pre, pre <+: outbuf msg wal -> pre ≠ outbuf msg wal ->
          forall r', Codec.parse pre ≠ .ok r') ∧
    (forall m, Fitting m ->
      exists bytes c, Codec.serialize m = .ok bytes ∧ SameResponse m c ∧
        asyncReadMessage (tagOf m) bytes = .ok c ∧
        readMessage (tagOf m) bytes = .ok (c, []) ∧
        forall pre, pre <+: bytes -> pre ≠ bytes ->
          asyncReadMessage (tagOf m) pre ≠ .ok c) := by
  constructor
  · intro msg wal h
    have hreads := reads_parseRest h
    obtain ⟨r, hr, hrun⟩ := hreads.run_eq
    refine ⟨r, hr, by rw [Codec.parse, hrun]; rfl, hrun, fun pre hpre hne r' hok => ?_⟩
    obtain ⟨out, hout, _⟩ := map_eq_ok_iff.mp hok
    exact hreads.not_prefix extends_parseRest hpre hne out hout
  · intro m h
    obtain ⟨bytes, c, hser, hc, hrun, hprefix⟩ := readMessage_serialize h
    refine ⟨bytes, c, hser, hc, by rw [asyncReadMessage, hrun]; rfl, hrun, ?_⟩
    intro pre hpre hne hok
    obtain ⟨out, hout, heq⟩ := map_eq_ok_iff.mp hok
    subst heq
    exact hprefix pre hpre hne out.2 hout

/-!
Some messages of the walproposer are outside the limits: a configuration with a
generation but without members is refused, and a host with a character beyond
ASCII arrives with question marks.
-/

def sampleId : CString :=
  { bytes := List.replicate 32 48, noNul := by decide }

def sampleHost : Host :=
  { bytes := [0xC3, 0xA9], noNul := by decide, fits := by decide }

def plainHost : Host :=
  { bytes := keyBytes "sk", noNul := by decide, fits := by decide }

def noMembers : MemberSet :=
  { len := 0, m := [], length_m := rfl }

def oneMember (host : Host) : MemberSet :=
  { len := 1, m := [{ nodeId := 7, host := host, port := 5454 }], length_m := rfl }

def sampleGreeting (members newMembers : MemberSet) : ProposerGreeting :=
  { tenantId := sampleId
    timelineId := sampleId
    mconf := { generation := 1, members := members, newMembers := newMembers }
    pgVersion := 160003
    systemId := 42
    walSegSize := 16777216 }

def parsedHosts (bytes : List UInt8) : Except Codec.ParseError (List (List UInt8)) :=
  (Codec.parse bytes).map (fun
    | .greeting g => g.mconf.members.m.map (fun sk => Codec.asBytes sk.host)
    | _ => [])

theorem isHexId_sampleId : IsHexId sampleId.bytes := by
  refine ⟨rfl, ?_⟩
  intro b hb
  rw [List.eq_of_mem_replicate hb]
  exact Or.inl ⟨by decide, by decide⟩

theorem acceptedMembers_plainHost : AcceptedMembers (oneMember plainHost) := by
  refine ⟨?_, by decide⟩
  intro sk hsk
  rw [List.mem_singleton.mp hsk]
  unfold Ascii
  decide +kernel

def sampleVote : Codec.AcceptorProposerMessage :=
  .voteResponse
    { generation := 1, term := 3, voteGiven := true, flushLsn := 48, truncateLsn := 16
      termHistory := [⟨1, 16⟩, ⟨2, 32⟩] }

theorem codecs_agree_sampleGreeting :
    (exists r, SameRequest []
        (.greeting (sampleGreeting (oneMember plainHost) (oneMember plainHost))) r ∧
      Codec.parse (outbuf
        (.greeting (sampleGreeting (oneMember plainHost) (oneMember plainHost))) []) =
        .ok r) ∧
    exists bytes c, Codec.serialize sampleVote = .ok bytes ∧ SameResponse sampleVote c ∧
      asyncReadMessage (tagOf sampleVote) bytes = .ok c := by
  obtain ⟨r, hsame, hparse, _⟩ :=
    codecs_agree.1 (.greeting (sampleGreeting (oneMember plainHost) (oneMember plainHost)))
      [] { tenantId := isHexId_sampleId
           timelineId := isHexId_sampleId
           mconf := ⟨acceptedMembers_plainHost, acceptedMembers_plainHost, nofun⟩
           pgVersion := Or.inr ⟨by decide, by decide⟩ }
  obtain ⟨bytes, c, hbytes, hresponse, hread, _⟩ :=
    codecs_agree.2 sampleVote (show 2 < 2 ^ 32 by decide)
  exact ⟨⟨r, hsame, hparse⟩, bytes, c, hbytes, hresponse, hread⟩

theorem parse_outside_limits :
    parsedHosts (outbuf (.greeting (sampleGreeting noMembers noMembers)) []) =
      .error .emptyMembersLen ∧
    parsedHosts (outbuf (.greeting (sampleGreeting (oneMember sampleHost) noMembers)) []) =
      .ok [[63, 63]] := by
  exact ⟨rfl, rfl⟩

end WalProposer
end OpenNeon

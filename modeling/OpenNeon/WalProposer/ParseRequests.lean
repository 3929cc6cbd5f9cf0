import Mathlib.Data.Nat.Bitwise
import OpenNeon.WalProposer.CodecSpec

/-!
# Requests of the walproposer

The safekeeper parses what the walproposer writes into the same message, and
reads no more than its bytes.
-/

namespace OpenNeon
namespace WalProposer

open Base Safekeeper Codec Reader List

/-!
## Strings and ids
-/

variable {b : UInt8} {bytes : List UInt8}

theorem utf8EncodeChar_ofUInt8 (h : b < 128) : String.utf8EncodeChar (Char.ofUInt8 b) = [b] := by
  have hb : (Char.ofUInt8 b).val.toNat = b.toNat := UInt8.toNat_toUInt32 b
  have hlt : b.toNat < 128 := UInt8.lt_iff_toNat_lt.mp h
  unfold String.utf8EncodeChar
  rw [hb]
  simp [show b.toNat ≤ 127 by omega]

theorem isValidUTF8_ascii (h : Ascii bytes) : bytes.toByteArray.IsValidUTF8 := by
  refine ⟨bytes.map Char.ofUInt8, ?_⟩
  rw [List.utf8Encode, flatMap_map]
  congr 1
  induction bytes with
  | nil => rfl
  | cons b bytes ih =>
    rw [flatMap_cons, utf8EncodeChar_ofUInt8 (h b mem_cons_self),
      ← ih (fun b' hb' => h b' (mem_cons_of_mem _ hb'))]
    rfl

theorem fromUtf8_ascii (h : Ascii bytes) (context : String) :
    exists s, fromUtf8 bytes context = .ok s ∧ asBytes s = bytes := by
  have hvalid := isValidUTF8_ascii h
  refine ⟨String.fromUTF8 bytes.toByteArray hvalid, ?_, ?_⟩
  · unfold fromUtf8 String.fromUTF8?
    rw [dif_pos hvalid]
  · exact toList_data_toByteArray

theorem and_highbit_eq_zero (h : b < 128) : b &&& 128 = 0 := by
  have hlt : b.toNat < 2 ^ 7 := UInt8.lt_iff_toNat_lt.mp h
  have hand : b.toNat &&& 2 ^ 7 = 0 := by
    rw [Nat.and_two_pow, Nat.testBit_lt_two_pow hlt]
    rfl
  exact UInt8.toNat.inj (by simpa using hand)

theorem pqSendAsciiString_eq {s : CString} (h : Ascii s.bytes) :
    pqSendAsciiString s = s.bytes ++ [0] := by
  unfold pqSendAsciiString
  rw [map_congr_left (g := id), map_id]
  intro b hb
  simp [and_highbit_eq_zero (h b hb)]

theorem reads_getCstr {s : CString} (h : Ascii s.bytes) (context : String) :
    Reader.Reads (getCstr context) (pqSendAsciiString s) (fun r => asBytes r = s.bytes) := by
  obtain ⟨r, hr, hbytes⟩ := fromUtf8_ascii h context
  rw [pqSendAsciiString_eq h, ← append_nil (s.bytes ++ [0])]
  refine (reads_cstring s.noNul _).seq ?_
  exact (reads_check hr).mono (by rintro _ rfl; exact hbytes)

theorem hexVal_ok (h : IsHexDigit b) (index : Nat) : exists v, hexVal b index = .ok v := by
  unfold hexVal
  rcases h with h | h | h
  · by_cases hupper : 65 ≤ b ∧ b ≤ 70
    · exact ⟨_, if_pos hupper⟩
    · by_cases hlower : 97 ≤ b ∧ b ≤ 102
      · exact ⟨_, by rw [if_neg hupper, if_pos hlower]⟩
      · exact ⟨_, by rw [if_neg hupper, if_neg hlower, if_pos h]⟩
  · exact ⟨_, if_pos h⟩
  · by_cases hupper : 65 ≤ b ∧ b ≤ 70
    · exact ⟨_, if_pos hupper⟩
    · exact ⟨_, by rw [if_neg hupper, if_pos h]⟩

theorem hexDecode_ok {n : Nat} (hlength : bytes.length = 2 * n)
    (hdigits : forall b, b ∈ bytes -> IsHexDigit b) (index : Nat) :
    exists out, Codec.hexDecode index bytes = .ok out ∧ out.length = n := by
  induction n generalizing bytes index with
  | zero =>
    rw [length_eq_zero_iff.mp hlength]
    exact ⟨[], rfl, rfl⟩
  | succ n ih =>
    match bytes, hlength with
    | hi :: lo :: rest, hlength =>
      obtain ⟨high, hhigh⟩ := hexVal_ok (hdigits hi (by simp)) index
      obtain ⟨low, hlow⟩ := hexVal_ok (hdigits lo (by simp)) (index + 1)
      have hrest : rest.length = 2 * n := by
        simp only [length_cons] at hlength
        omega
      obtain ⟨out, hout, hlen⟩ :=
        ih hrest (fun b hb => hdigits b (by simp [hb])) (index + 2)
      refine ⟨((high <<< 4) ||| low) :: out, ?_, by simp [hlen]⟩
      rw [Codec.hexDecode, hhigh, hlow, hout]
      rfl

theorem fromHex_ok (h : IsHexId bytes) : exists id, Codec.Id.fromHex bytes = .ok id := by
  obtain ⟨out, hout, hlen⟩ := hexDecode_ok (n := 16) h.length_eq h.digits 0
  refine ⟨⟨out, hlen⟩, ?_⟩
  unfold Codec.Id.fromHex
  rw [h.length_eq, hout]
  exact dif_pos hlen

theorem IsHexId.ascii (h : IsHexId bytes) : Ascii bytes := by
  intro b hb
  have hdigit := h.digits b hb
  simp only [IsHexDigit, UInt8.le_iff_toNat_le] at hdigit
  rw [UInt8.lt_iff_toNat_lt]
  simp only [UInt8.reduceToNat] at hdigit ⊢
  omega

/-!
## Parsing what the walproposer writes
-/

section Parse

open Reader (Reads Extends)

theorem reads_getMember {sk : SafekeeperId} (h : Ascii sk.host.bytes) (what : String)
    (i : Nat) : Reads (getMember what i) sk.serialize (SameMember sk) := by
  refine (reads_u64 sk.nodeId _).seq ?_
  refine (reads_getCstr h _).bind (fun host hhost => ?_)
  refine (reads_u16 sk.port _).seq_pure ?_
  exact ⟨rfl, hhost, rfl⟩

theorem reads_getMembers {sks : List SafekeeperId}
    (hascii : forall sk, sk ∈ sks -> Ascii sk.host.bytes)
    (hnodup : (sks.map SafekeeperId.nodeId).Nodup) {members : Codec.MemberSet}
    (hnew : forall m, m ∈ members.m -> forall sk, sk ∈ sks -> m.id ≠ sk.nodeId)
    (what : String) (i : Nat) :
    Reads (getMembers what sks.length i members) (sks.flatMap SafekeeperId.serialize)
      (fun r => exists added, r.m = members.m ++ added ∧
        List.Forall₂ SameMember sks added) := by
  induction sks generalizing members i with
  | nil => exact Reads.pure ⟨[], (append_nil _).symm, List.Forall₂.nil⟩
  | cons sk sks ih =>
    rw [map_cons, nodup_cons] at hnodup
    refine (reads_getMember (hascii sk mem_cons_self) what i).bind (fun r hr => ?_)
    have hadd : members.add r = .ok { m := members.m ++ [r] } := by
      refine if_neg ?_
      rw [Codec.MemberSet.contains, any_eq_true]
      rintro ⟨m, hm, hid⟩
      exact hnew m hm sk mem_cons_self ((beq_iff_eq.mp hid).trans hr.id)
    refine (reads_check hadd).seq ?_
    refine (ih (fun s hs => hascii s (mem_cons_of_mem _ hs)) hnodup.2 ?_ _).mono ?_
    · refine forall_mem_concat (fun m hm s hs => hnew m hm s (mem_cons_of_mem _ hs)) ?_
      intro s hs heq
      exact hnodup.1 (hr.id ▸ heq ▸ mem_map_of_mem hs)
    · rintro out ⟨added, hout, hsame⟩
      exact ⟨r :: added, by rw [hout, append_assoc]; rfl, hsame.cons hr⟩

theorem reads_memberSet {mset : MemberSet} (h : AcceptedMembers mset) (what : String) :
    Reads (getMembers what mset.len.toNat 0 Codec.MemberSet.empty)
      (mset.m.flatMap SafekeeperId.serialize)
      (fun r => List.Forall₂ SameMember mset.m r.m) := by
  rw [← mset.length_m]
  refine (reads_getMembers h.ascii h.nodup (fun m hm => ?_) what 0).mono ?_
  · cases hm
  · rintro out ⟨added, hout, hsame⟩
    rw [hout]
    exact hsame

theorem MemberSet.m_eq_nil_iff (mset : MemberSet) : mset.m = [] <-> mset.len = 0 := by
  rw [← length_eq_zero_iff, mset.length_m]
  exact ⟨fun h => UInt32.toNat.inj h, fun h => by rw [h]; rfl⟩

theorem reads_getMconf {mconf : MembershipConfiguration} (h : AcceptedConf mconf) :
    Reads getMconf mconf.serialize (fun r => SameConf mconf r ∧
      (r.newMembers = none <-> mconf.newMembers.m = [])) := by
  refine (reads_u32 mconf.generation _).seq ?_
  refine (reads_u32 mconf.members.len _).seq ?_
  rw [if_neg (fun hempty => h.nonempty hempty.1 ((MemberSet.m_eq_nil_iff _).mpr hempty.2))]
  refine (reads_memberSet h.members _).bind (fun members hmembers => ?_)
  refine (reads_u32 mconf.newMembers.len _).seq ?_
  by_cases hlen : mconf.newMembers.len = 0
  · have hnil := (MemberSet.m_eq_nil_iff _).mpr hlen
    rw [if_pos hlen, hnil]
    refine Reads.pure ⟨⟨rfl, hmembers, ?_⟩, iff_of_true rfl rfl⟩
    rw [hnil]
    exact List.Forall₂.nil
  · rw [if_neg hlen]
    refine (reads_memberSet h.newMembers _).bind_pure (fun newMembers hnew => ?_)
    refine ⟨⟨rfl, hmembers, hnew⟩, iff_of_false nofun ?_⟩
    exact fun hnil => hlen ((MemberSet.m_eq_nil_iff _).mp hnil)

theorem reads_getId {s : CString} (h : IsHexId s.bytes) (context : String)
    {next : Codec.Id -> Codec.MsgReader alpha} {more : List UInt8} {post : alpha -> Prop}
    (hnext : forall id, Codec.Id.fromHex s.bytes = .ok id -> Reads (next id) more post) :
    Reads (getCstr context >>= fun str =>
      Reader.check ((Codec.Id.fromHex (asBytes str)).mapError .id) >>= next)
      (pqSendAsciiString s ++ more) post := by
  obtain ⟨id, hid⟩ := fromHex_ok h
  refine (reads_getCstr h.ascii context).bind (fun str hstr => ?_)
  rw [hstr]
  refine (reads_check (a := id) (by rw [hid]; rfl)).seq ?_
  exact hnext _ hid

theorem reads_parseGreeting {m : ProposerGreeting} (h : AcceptedGreeting m) :
    Reads parseGreeting (pqSendAsciiString m.tenantId ++ (pqSendAsciiString m.timelineId ++
        (m.mconf.serialize ++ (pqSendint32 m.pgVersion ++ (pqSendint64 m.systemId ++
        pqSendint32 m.walSegSize))))) (SameGreeting m) := by
  refine reads_getId h.tenantId _ (fun tenantId htenant => ?_)
  refine reads_getId h.timelineId _ (fun timelineId htimeline => ?_)
  refine (reads_getMconf h.mconf).bind (fun mconf hmconf => ?_)
  refine (reads_u32 m.pgVersion _).seq ?_
  refine (reads_u64 m.systemId _).seq ?_
  refine (reads_u32 m.walSegSize _).seq ?_
  have hversion : fromFullPgVersion m.pgVersion = .ok m.pgVersion := by
    unfold fromFullPgVersion
    rcases h.pgVersion with hzero | hrange
    · rw [if_pos hzero]
    · rw [if_pos hrange, ite_self]
  refine (reads_check hversion).seq_pure ?_
  exact ⟨htenant, htimeline, hmconf.1, hmconf.2, rfl, rfl, rfl⟩

theorem reads_parseVoteRequest (m : VoteRequest) :
    Reads parseVoteRequest (pqSendint32 m.generation ++ pqSendint64 m.term)
      (SameVoteRequest m) := by
  refine (reads_u32 m.generation _).seq ?_
  refine (reads_u64 m.term _).seq_pure ?_
  exact ⟨rfl, rfl⟩

theorem reads_getTermLsn (entry : TermSwitchEntry) (i : Nat) :
    Reads (getTermLsn i) entry.serialize (SameEntry entry) := by
  refine (reads_u64 entry.term _).seq ?_
  refine (reads_u64 entry.lsn _).seq_pure ?_
  exact ⟨rfl, rfl⟩

theorem reads_getTermHistory (th : TermHistory) :
    Reads Codec.getTermHistory
      (pqSendint32 th.nEntries ++ th.entries.flatMap TermSwitchEntry.serialize)
      (List.Forall₂ SameEntry th.entries) := by
  refine (reads_u32 th.nEntries _).seq ?_
  rw [← th.length_entries]
  refine (reads_many (fun entry _ i => reads_getTermLsn entry i) 0).bind_pure ?_
  exact fun _ hsame => hsame

theorem reads_parseElected (m : ProposerElected) :
    Reads parseElected (pqSendint32 m.generation ++ (pqSendint64 m.term ++
        (pqSendint64 m.startStreamingAt ++ (pqSendint32 m.termHistory.nEntries ++
        m.termHistory.entries.flatMap TermSwitchEntry.serialize)))) (SameElected m) := by
  refine (reads_u32 m.generation _).seq ?_
  refine (reads_u64 m.term _).seq ?_
  refine (reads_u64 m.startStreamingAt _).seq ?_
  refine (reads_getTermHistory m.termHistory).bind_pure (fun th hth => ?_)
  exact ⟨rfl, rfl, rfl, hth⟩

/-- The header of the safekeeper with the fields of the walproposer's. -/
def sameHeader (m : AppendRequestHeader) : Codec.AppendRequestHeader :=
  { generation := m.generation
    term := m.term
    beginLsn := m.beginLsn
    endLsn := m.endLsn
    commitLsn := m.commitLsn
    truncateLsn := m.truncateLsn }

theorem reads_parseAppendHeader (m : AppendRequestHeader) :
    Reads parseAppendHeader
      (pqSendint32 m.generation ++ (pqSendint64 m.term ++ (pqSendint64 m.beginLsn ++
        (pqSendint64 m.endLsn ++ (pqSendint64 m.commitLsn ++
        pqSendint64 m.truncateLsn))))) (fun r => r = sameHeader m) := by
  refine (reads_u32 m.generation _).seq ?_
  refine (reads_u64 m.term _).seq ?_
  refine (reads_u64 m.beginLsn _).seq ?_
  refine (reads_u64 m.endLsn _).seq ?_
  refine (reads_u64 m.commitLsn _).seq ?_
  refine (reads_u64 m.truncateLsn _).seq_pure ?_
  rfl

theorem reads_parseAppendRequest {m : AppendRequestHeader} {wal : List UInt8}
    (h : AcceptedAppend m wal) :
    Reads parseAppendRequest
      ((pqSendint32 m.generation ++ (pqSendint64 m.term ++ (pqSendint64 m.beginLsn ++
        (pqSendint64 m.endLsn ++ (pqSendint64 m.commitLsn ++
        pqSendint64 m.truncateLsn))))) ++ wal) (SameAppend m wal) := by
  refine (reads_parseAppendHeader m).seq ?_
  have hsize : recSize (sameHeader m) = .ok wal.length := by
    dsimp only [recSize, sameHeader]
    rw [if_neg (UInt64.not_lt.mpr h.ordered), h.length_wal, if_neg (Nat.not_lt.mpr h.fits)]
  refine (reads_check hsize).seq ?_
  refine (reads_take wal _).seq_pure ?_
  exact ⟨rfl, rfl, rfl, rfl, rfl, rfl, rfl⟩

theorem reads_parseRest {msg : ProposerAcceptorMessage} {wal : List UInt8} (h : Accepted wal msg) :
    Reads parseRest (outbuf msg wal) (SameRequest wal msg) := by
  cases msg with
  | greeting m =>
    refine (reads_u8 tagGreeting _).seq ?_
    exact (reads_parseGreeting h).bind_pure (fun _ hsame => hsame)
  | voteRequest m =>
    refine (reads_u8 tagVote _).seq ?_
    exact (reads_parseVoteRequest m).bind_pure (fun _ hsame => hsame)
  | elected m =>
    refine (reads_u8 tagElected _).seq ?_
    exact (reads_parseElected m).bind_pure (fun _ hsame => hsame)
  | appendRequest m =>
    refine (reads_u8 tagAppend _).seq ?_
    exact (reads_parseAppendRequest h).bind_pure (fun _ hsame => hsame)

/-!
Nothing that is parsed depends on the bytes behind it.
-/

theorem extends_getMember (what : String) (i : Nat) : Extends (getMember what i) :=
  .bind (.u64 _) fun _ => .bind (.bind (.cstring _) fun _ => .check _) fun _ =>
    .bind (.u16 _) fun _ => .pure _

theorem extends_getMembers (what : String) (n i : Nat) (members : Codec.MemberSet) :
    Extends (getMembers what n i members) := by
  induction n generalizing i members with
  | zero => exact .pure _
  | succ n ih =>
    exact .bind (extends_getMember what i) fun _ => .bind (.check _) fun _ => ih _ _

theorem extends_getMconf : Extends getMconf := by
  refine .bind (.u32 _) fun _ => .bind (.u32 _) fun _ => .ite (.throw _) ?_
  refine .bind (extends_getMembers _ _ _ _) fun _ => .bind (.u32 _) fun _ => ?_
  exact .ite (.pure _) (.bind (extends_getMembers _ _ _ _) fun _ => .pure _)

theorem extends_getCstr (context : String) : Extends (getCstr context) :=
  .bind (.cstring _) fun _ => .check _

theorem extends_parseGreeting : Extends parseGreeting := by
  refine .bind (extends_getCstr _) fun _ => .bind (.check _) fun _ => ?_
  refine .bind (extends_getCstr _) fun _ => .bind (.check _) fun _ => ?_
  refine .bind extends_getMconf fun _ => .bind (.u32 _) fun _ => .bind (.u64 _) fun _ => ?_
  exact .bind (.u32 _) fun _ => .bind (.check _) fun _ => .pure _

theorem extends_parseElected : Extends parseElected := by
  refine .bind (.u32 _) fun _ => .bind (.u64 _) fun _ => .bind (.u64 _) fun _ => ?_
  refine .bind (.bind (.u32 _) fun _ => .bind (.many (fun _ => ?_) _ _) fun _ => .pure _)
    fun _ => .pure _
  exact .bind (.u64 _) fun _ => .bind (.u64 _) fun _ => .pure _

theorem extends_parseAppendRequest : Extends parseAppendRequest := by
  refine .bind ?_ fun _ => .bind (.check _) fun _ => .bind (.take _ _) fun _ => .pure _
  refine .bind (.u32 _) fun _ => .bind (.u64 _) fun _ => .bind (.u64 _) fun _ => ?_
  exact .bind (.u64 _) fun _ => .bind (.u64 _) fun _ => .bind (.u64 _) fun _ => .pure _

theorem extends_parseRest : Extends parseRest := by
  refine .bind (.u8 _) fun _ => .ite (.bind extends_parseGreeting fun _ => .pure _) ?_
  refine .ite (.bind (.bind (.u32 _) fun _ => .bind (.u64 _) fun _ => .pure _) fun _ => .pure _) ?_
  refine .ite (.bind extends_parseElected fun _ => .pure _) ?_
  exact .ite (.bind extends_parseAppendRequest fun _ => .pure _) (.throw _)

end Parse

end WalProposer
end OpenNeon

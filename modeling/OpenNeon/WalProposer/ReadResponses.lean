import OpenNeon.WalProposer.CodecSpec

/-!
# Responses of the safekeeper

The walproposer reads what the safekeeper writes as the same message.
-/

namespace OpenNeon
namespace WalProposer

open Base Safekeeper Codec Reader List

/-!
## Reading what the safekeeper writes
-/

section Read

open Reader (Reads Extends)

theorem strlcpy_bytes {src : List UInt8} (hnul : (0 : UInt8) ∉ src)
    (hfits : src.length < MAXCONNINFO) : (strlcpy src).bytes = src := by
  have hall : src.takeWhile (fun b => b != 0) = src := by
    rw [takeWhile_eq_self_iff]
    intro b hb
    exact bne_iff_ne.mpr (fun hzero => hnul (hzero ▸ hb))
  dsimp only [strlcpy]
  rw [hall]
  exact take_of_length_le (Nat.le_sub_one_of_lt hfits)

theorem reads_deserialize_member {sk : Codec.SafekeeperId} (hnul : (0 : UInt8) ∉ asBytes sk.host)
    (hfits : (asBytes sk.host).length < MAXCONNINFO) :
    Reads SafekeeperId.deserialize (serializeMember sk) (fun c => SameMember c sk) := by
  refine (reads_u64 sk.id _).seq ?_
  refine (reads_cstring hnul _).seq ?_
  refine (reads_u16 sk.pgPort _).seq_pure ?_
  exact ⟨rfl, (strlcpy_bytes hnul hfits).symm, rfl⟩

variable {alpha : Type} {bytes : List UInt8}

theorem toNat_ofNat_length {l : List alpha} (h : l.length < 2 ^ 32) :
    (UInt32.ofNat l.length).toNat = l.length :=
  UInt32.toNat_ofNat_of_lt' h

theorem reads_deserialize_members {s : Codec.MemberSet} (h : FittingMembers s) :
    Reads MemberSet.deserialize (serializeMembers s)
      (fun c => List.Forall₂ SameMember c.m s.m) := by
  refine (reads_u32 _ _).seq ?_
  have hread := reads_many (p := fun _ => SafekeeperId.deserialize)
    (fun sk hsk _ => reads_deserialize_member (h.noNul sk hsk) (h.fits sk hsk)) 0
  rw [← toNat_ofNat_length h.length_lt] at hread
  exact hread.bind_pure (fun _ hsame => hsame.flip)

theorem fittingMembers_empty : FittingMembers Codec.MemberSet.empty :=
  ⟨by decide, nofun, nofun⟩

theorem reads_deserialize_mconf {mconf : Codec.Configuration} (h : FittingConf mconf) :
    Reads MembershipConfiguration.deserialize (serializeMconf mconf)
      (fun c => SameConf c mconf) := by
  refine (reads_u32 mconf.generation _).seq ?_
  refine (reads_deserialize_members h.members).bind (fun members hmembers => ?_)
  refine Reads.bind_pure ?_ (fun newMembers hnewMembers => ⟨rfl, hmembers, hnewMembers⟩)
  unfold newMemberList
  -- an absent set is written like an empty one
  cases hset : mconf.newMembers with
  | none => exact reads_deserialize_members fittingMembers_empty
  | some newMembers => exact reads_deserialize_members (h.newMembers newMembers hset)

theorem reads_readGreeting {msg : Codec.AcceptorGreeting} (h : FittingConf msg.mconf) :
    Reads readGreeting (putU64 msg.nodeId ++ (serializeMconf msg.mconf ++ putU64 msg.term))
      (SameAcceptorGreeting msg) := by
  refine (reads_u64 msg.nodeId _).seq ?_
  refine (reads_deserialize_mconf h).bind (fun mconf hmconf => ?_)
  refine (reads_u64 msg.term _).seq_pure ?_
  exact ⟨rfl, hmconf, rfl⟩

theorem reads_deserialize_entry (e : Codec.TermLsn) :
    Reads TermSwitchEntry.deserialize (serializeTermLsn e) (fun c => SameEntry c e) := by
  refine (reads_u64 e.term _).seq ?_
  refine (reads_u64 e.lsn _).seq_pure ?_
  exact ⟨rfl, rfl⟩

theorem reads_readVoteResponse {msg : Codec.VoteResponse} (h : msg.termHistory.length < 2 ^ 32) :
    Reads readVoteResponse (putU32 msg.generation ++ (putU64 msg.term ++
        (putU8 (if msg.voteGiven then 1 else 0) ++ (putU64 msg.flushLsn ++
        (putU64 msg.truncateLsn ++
        (putU32 (UInt32.ofNat msg.termHistory.length) ++
        msg.termHistory.flatMap serializeTermLsn))))))
      (SameVoteResponse msg) := by
  refine (reads_u32 msg.generation _).seq ?_
  refine (reads_u64 msg.term _).seq ?_
  refine (reads_u8 _ _).seq ?_
  refine (reads_u64 msg.flushLsn _).seq ?_
  refine (reads_u64 msg.truncateLsn _).seq ?_
  refine (reads_u32 _ _).seq ?_
  have hread := reads_many (p := fun _ => TermSwitchEntry.deserialize)
    (fun e (_ : e ∈ msg.termHistory) _ => reads_deserialize_entry e) 0
  rw [← toNat_ofNat_length h] at hread
  refine hread.bind_pure (fun entries hentries => ?_)
  exact ⟨rfl, rfl, rfl, rfl, rfl, hentries.flip⟩

/-!
Every key of the feedback sets its field; the keys are read in the order in which
they were written.
-/

variable {c : Bool} {p : MsgReader alpha} {post : alpha -> Prop}

theorem reads_assert (h : c = true) : Reads (assert c) [] (fun _ => True) := by
  subst h
  exact Reads.pure trivial

theorem reads_assert_bind {beta : Type} (h : c = true) {x : alpha}
    (hp : Reads p bytes (fun a => a = x)) (f : alpha -> beta) :
    Reads (assert c >>= fun _ => p >>= fun a => (pure (f a) : MsgReader beta)) bytes
      (fun b => b = f x) := by
  refine (reads_assert h).bind (fun _ _ => hp.bind_pure ?_)
  rintro _ rfl
  rfl

/-- The bytes of a key change the feedback in this way. -/
def SetsField (bytes : List UInt8) (set : PageserverFeedback -> PageserverFeedback) : Prop :=
  forall fb, Reads (parseFeedbackKey fb) bytes (fun c => c = set fb)

theorem setsField_putKey {key : String} {len : UInt32} {value : List UInt8} {x : alpha}
    (set : PageserverFeedback -> alpha -> PageserverFeedback) (hkey : (0 : UInt8) ∉ asBytes key)
    (hparse : forall fb, parseFeedbackValue fb (asBytes key) len =
      assert true >>= fun _ => p >>= fun a => pure (set fb a))
    (hp : Reads p value (fun a => a = x)) :
    SetsField (putKey key len value) (fun fb => set fb x) := by
  intro fb
  refine (reads_cstring hkey _).seq ?_
  refine (reads_u32 len _).seq ?_
  rw [hparse]
  exact reads_assert_bind rfl hp _

theorem reads_parseFeedbackKeys {keys : List (List UInt8)}
    {sets : List (PageserverFeedback -> PageserverFeedback)}
    (h : List.Forall₂ SetsField keys sets) (fb : PageserverFeedback) :
    Reads (parseFeedbackKeys keys.length fb) keys.flatten
      (fun c => c = sets.foldl (fun fb set => set fb) fb) := by
  induction h generalizing fb with
  | nil => exact Reads.pure rfl
  | cons hkey _ ih =>
    refine (hkey fb).seq ?_
    exact ih _

/-- The fields that the keys of the feedback set, in their order. -/
def fieldSets (fb : Codec.PageserverFeedback) (timestamp : Int64) :
    List (PageserverFeedback -> PageserverFeedback) :=
  [(fun c => { c with currentClusterSize := fb.currentTimelineSize }),
    (fun c => { c with lastReceivedLsn := fb.lastReceivedLsn }),
    (fun c => { c with diskConsistentLsn := fb.diskConsistentLsn }),
    (fun c => { c with remoteConsistentLsn := fb.remoteConsistentLsn }),
    (fun c => { c with replytime := timestamp })] ++
  (if 0 < fb.shardNumber then [fun c => { c with shardNumber := fb.shardNumber }] else []) ++
  (if fb.corruptionDetected then [fun c => { c with corruptionDetected := true }] else [])

section

variable (fb : Codec.PageserverFeedback) (timestamp : Int64)

include fb timestamp

theorem setsField_keys : List.Forall₂ SetsField (fb.keys timestamp) (fieldSets fb timestamp) := by
  have hlsn : forall {key : String} (set : PageserverFeedback -> UInt64 -> PageserverFeedback)
      (x : UInt64), (0 : UInt8) ∉ asBytes key ->
      (forall fb, parseFeedbackValue fb (asBytes key) 8 =
        assert true >>= fun _ => pqGetmsgint64 >>= fun a => pure (set fb a)) ->
      SetsField (putKey key 8 (putU64 x)) (fun fb => set fb x) :=
    fun set x hkey hparse => setsField_putKey set hkey hparse (reads_u64 x _)
  refine rel_append (rel_append ?_ ?_) ?_
  · refine .cons ?_ (.cons ?_ (.cons ?_ (.cons ?_ (.cons ?_ .nil))))
    · exact hlsn (fun c x => { c with currentClusterSize := x }) _ (by decide) (fun _ => rfl)
    · exact hlsn (fun c x => { c with lastReceivedLsn := x }) _ (by decide) (fun _ => rfl)
    · exact hlsn (fun c x => { c with diskConsistentLsn := x }) _ (by decide) (fun _ => rfl)
    · exact hlsn (fun c x => { c with remoteConsistentLsn := x }) _ (by decide) (fun _ => rfl)
    · exact hlsn (fun c x => { c with replytime := x.toInt64 }) _ (by decide) (fun _ => rfl)
  · split
    · refine .cons ?_ .nil
      exact setsField_putKey (fun c x => { c with shardNumber := x }) (by decide)
        (fun _ => rfl) (reads_u32 _ _)
    · exact .nil
  · split
    · refine .cons ?_ .nil
      exact setsField_putKey (x := (1 : UInt8)) (fun c x => { c with corruptionDetected := x != 0 })
        (by decide) (fun _ => rfl) (reads_u8 1 _)
    · exact .nil

theorem length_keys_lt : (fb.keys timestamp).length < 2 ^ 8 := by
  unfold Codec.PageserverFeedback.keys
  split <;> split <;> simp

theorem foldl_fieldSets : (fieldSets fb timestamp).foldl (fun c set => set c) { present := true } =
      { present := true
        currentClusterSize := fb.currentTimelineSize
        lastReceivedLsn := fb.lastReceivedLsn
        diskConsistentLsn := fb.diskConsistentLsn
        remoteConsistentLsn := fb.remoteConsistentLsn
        replytime := timestamp
        shardNumber := fb.shardNumber
        corruptionDetected := fb.corruptionDetected } := by
  unfold fieldSets
  by_cases hshard : 0 < fb.shardNumber
  · cases hcorrupt : fb.corruptionDetected <;> simp [hshard]
  · have hzero : fb.shardNumber = 0 := by simpa using hshard
    cases hcorrupt : fb.corruptionDetected <;> simp [hzero]

end

theorem reads_parsePageserverFeedbackMessage {fb : Codec.PageserverFeedback}
    (h : FittingFeedback fb) :
    exists bytes, fb.serialize = .ok bytes ∧ bytes ≠ [] ∧
      Reads parsePageserverFeedbackMessage bytes (SameFeedback fb) := by
  have htime : fb.timestamp = .ok (Int64.ofNat (fb.replytime.toNat / 1000)) :=
    if_neg (Int.not_lt.mpr h.epoch)
  refine ⟨_, by rw [Codec.PageserverFeedback.serialize, htime]; rfl, ?_, ?_⟩
  · simp [putU8, beBytes]
  · refine (reads_u8 _ _).seq ?_
    rw [UInt8.toNat_ofNat_of_lt' (length_keys_lt fb _)]
    refine (reads_parseFeedbackKeys (setsField_keys fb _) _).mono ?_
    rintro _ rfl
    rw [foldl_fieldSets]
    refine ⟨rfl, rfl, rfl, rfl, rfl, ?_, rfl, rfl⟩
    have hnat : fb.replytime.toNat / 1000 < 2 ^ 63 := by
      have := h.fits
      omega
    have hcast : ((fb.replytime.toNat / 1000 : Nat) : Int) = fb.replytime / 1000 := by
      have := h.epoch
      omega
    rw [← hcast]
    exact Int64.toInt_ofNat_of_lt hnat

theorem reads_readAppendHeader (msg : Codec.AppendResponse) :
    Reads readAppendHeader (putU32 msg.generation ++ (putU64 msg.term ++
        (putU64 msg.flushLsn ++ (putU64 msg.commitLsn ++
        (putI64 msg.hsFeedback.ts ++ (putU64 msg.hsFeedback.xmin ++
        putU64 msg.hsFeedback.catalogXmin))))))
      (SameAppendResponse { msg with pageserverFeedback := none }) := by
  refine (reads_u32 msg.generation _).seq ?_
  refine (reads_u64 msg.term _).seq ?_
  refine (reads_u64 msg.flushLsn _).seq ?_
  refine (reads_u64 msg.commitLsn _).seq ?_
  refine (reads_u64 msg.hsFeedback.ts.toUInt64 _).seq ?_
  refine (reads_u64 msg.hsFeedback.xmin _).seq ?_
  refine (reads_u64 msg.hsFeedback.catalogXmin _).seq_pure ?_
  exact ⟨rfl, rfl, rfl, rfl, rfl, rfl, rfl, rfl⟩

/-!
The readers of the parts of a message do not depend on the bytes behind them.  The
reader of an append response does: it takes the feedback to be absent when the
bytes end.
-/

theorem extends_deserialize_members : Extends MemberSet.deserialize := by
  refine .bind (.u32 _) fun _ => .bind (.many (fun _ => ?_) _ _) fun _ => .pure _
  exact .bind (.u64 _) fun _ => .bind (.cstring _) fun _ => .bind (.u16 _) fun _ => .pure _

theorem extends_readGreeting : Extends readGreeting := by
  refine .bind (.u64 _) fun _ => .bind (.bind (.u32 _) fun _ => ?_) fun _ =>
    .bind (.u64 _) fun _ => .pure _
  exact .bind extends_deserialize_members fun _ =>
    .bind extends_deserialize_members fun _ => .pure _

theorem extends_readVoteResponse : Extends readVoteResponse := by
  refine .bind (.u32 _) fun _ => .bind (.u64 _) fun _ => .bind (.u8 _) fun _ => ?_
  refine .bind (.u64 _) fun _ => .bind (.u64 _) fun _ => .bind (.u32 _) fun _ => ?_
  refine .bind (.many (fun _ => ?_) _ _) fun _ => .pure _
  exact .bind (.u64 _) fun _ => .bind (.u64 _) fun _ => .pure _

theorem extends_readAppendHeader : Extends readAppendHeader := by
  refine .bind (.u32 _) fun _ => .bind (.u64 _) fun _ => .bind (.u64 _) fun _ => ?_
  refine .bind (.u64 _) fun _ => .bind (.u64 _) fun _ => .bind (.u64 _) fun _ => ?_
  exact .bind (.u64 _) fun _ => .pure _

theorem extends_assert (c : Bool) : Extends (assert c) :=
  .ite (.pure _) (.throw _)

theorem extends_parseFeedbackValue (fb : PageserverFeedback) (key : List UInt8)
    (valueLen : UInt32) : Extends (parseFeedbackValue fb key valueLen) := by
  have h64 : forall f : UInt64 -> PageserverFeedback,
      Extends (assert (valueLen == 8) >>= fun _ => pqGetmsgint64 >>= fun value =>
        (pure (f value) : MsgReader PageserverFeedback)) :=
    fun _ => .bind (extends_assert _) fun _ => .bind (.u64 _) fun _ => .pure _
  refine .ite (h64 _) (.ite (h64 _) (.ite (h64 _) (.ite (h64 _) (.ite (h64 _) ?_))))
  refine .ite (.bind (extends_assert _) fun _ => .bind (.u32 _) fun _ => .pure _) ?_
  refine .ite (.bind (extends_assert _) fun _ => .bind (.u8 _) fun _ => .pure _) ?_
  exact .bind (.ite (.throw _) (.take _ _)) fun _ => .pure _

theorem extends_parseFeedbackKeys (n : Nat) (fb : PageserverFeedback) :
    Extends (parseFeedbackKeys n fb) := by
  induction n generalizing fb with
  | zero => exact .pure _
  | succ n ih =>
    refine .bind (.bind (.cstring _) fun _ => .bind (.u32 _) fun _ => ?_) fun _ => ih _
    exact extends_parseFeedbackValue _ _ _

theorem extends_parsePageserverFeedbackMessage : Extends parsePageserverFeedbackMessage :=
  .bind (.u8 _) fun _ => extends_parseFeedbackKeys _ _

/-!
## Whole messages
-/

def tagOf : Codec.AcceptorProposerMessage -> UInt8
  | .greeting _ => tagGreeting
  | .voteResponse _ => tagVote
  | .appendResponse _ => tagAppend

theorem whole_eq_ok_iff {input : List UInt8} {out : alpha × List UInt8} :
    whole p input = .ok out <-> p input = .ok out ∧ out.2 = [] := by
  unfold whole
  rw [bind_apply, bind_eq_ok_iff]
  constructor
  · rintro ⟨mid, hp, hend⟩
    obtain ⟨u, hu, hout⟩ := bind_eq_ok_iff.mp hend
    unfold pqGetmsgend at hu
    split at hu
    next hempty =>
      cases hu
      cases hout
      exact ⟨hp, isEmpty_iff.mp hempty⟩
    · cases hu
  · rintro ⟨hp, hnil⟩
    refine ⟨out, hp, ?_⟩
    obtain ⟨a, rest⟩ := out
    cases hnil
    rfl

theorem whole_of_reads (h : Reads p bytes post) :
    exists a, post a ∧ whole p bytes = .ok (a, []) := by
  obtain ⟨a, ha, hrun⟩ := h.run_eq
  exact ⟨a, ha, whole_eq_ok_iff.mpr ⟨hrun, rfl⟩⟩

theorem whole_not_prefix {pre : List UInt8} (h : Reads p bytes post) (hext : Extends p)
    (hpre : pre <+: bytes) (hne : pre ≠ bytes) (out : alpha × List UInt8) :
    whole p pre ≠ .ok out :=
  fun hrun => h.not_prefix hext hpre hne out (whole_eq_ok_iff.mp hrun).1

theorem readAppendResponse_eq_ok_iff {input : List UInt8}
    {out : AppendResponse × List UInt8} :
    readAppendResponse input = .ok out <->
      (readAppendHeader input = .ok out ∧ out.2 = []) ∨
      exists msg rest fb, readAppendHeader input = .ok (msg, rest) ∧ rest ≠ [] ∧
        parsePageserverFeedbackMessage rest = .ok (fb, out.2) ∧
        out.1 = { msg with psFeedback := fb } := by
  unfold readAppendResponse
  rw [bind_apply, bind_eq_ok_iff]
  constructor
  · rintro ⟨⟨msg, rest⟩, hhead, hrest⟩
    cases rest with
    | nil =>
      cases hrest
      exact Or.inl ⟨hhead, rfl⟩
    | cons b rest =>
      obtain ⟨⟨fb, rest'⟩, hfb, hout⟩ := bind_eq_ok_iff.mp hrest
      cases hout
      exact Or.inr ⟨msg, b :: rest, fb, hhead, nofun, hfb, rfl⟩
  · rintro (⟨hhead, hnil⟩ | ⟨msg, rest, fb, hhead, hne, hfb, hout⟩)
    · refine ⟨out, hhead, ?_⟩
      obtain ⟨a, rest⟩ := out
      cases hnil
      rfl
    · refine ⟨(msg, rest), hhead, ?_⟩
      cases rest with
      | nil => exact absurd rfl hne
      | cons b rest =>
        obtain ⟨a, rest'⟩ := out
        cases hout
        exact bind_eq_ok_iff.mpr ⟨_, hfb, rfl⟩

theorem whole_readAppendResponse {msg : Codec.AppendResponse} {head feedback : List UInt8}
    (hhead : Reads readAppendHeader head
      (SameAppendResponse { msg with pageserverFeedback := none }))
    (hfeedback : (msg.pageserverFeedback = none ∧ feedback = []) ∨
      exists fb, msg.pageserverFeedback = some fb ∧ feedback ≠ [] ∧
        Reads parsePageserverFeedbackMessage feedback (SameFeedback fb)) :
    exists c, SameAppendResponse msg c ∧
      whole readAppendResponse (head ++ feedback) = .ok (c, []) ∧
      forall pre, pre <+: head ++ feedback -> pre ≠ head ++ feedback ->
        forall rest, whole readAppendResponse pre ≠ .ok (c, rest) := by
  obtain ⟨h, hsame, hread⟩ := hhead
  -- a header in front of a proper prefix is the header of the message
  have hcut : forall {pre suffix out}, pre ++ suffix = head ++ feedback ->
      readAppendHeader pre = .ok out -> out.1 = h ∧ out.2 ++ suffix = feedback := by
    intro pre suffix out heq hrun
    have hmore := extends_readAppendHeader pre out.1 out.2 hrun suffix
    rw [heq, hread] at hmore
    cases hmore
    exact ⟨rfl, rfl⟩
  rcases hfeedback with ⟨hnone, rfl⟩ | ⟨fb, hsome, hne, hreads⟩
  · refine ⟨h, ?_, ?_, ?_⟩
    · obtain ⟨h1, h2, h3, h4, h5, h6, h7, h8⟩ := hsame
      exact ⟨h1, h2, h3, h4, h5, h6, h7, hnone ▸ h8⟩
    · exact whole_eq_ok_iff.mpr ⟨readAppendResponse_eq_ok_iff.mpr (Or.inl ⟨hread [], rfl⟩), rfl⟩
    · rintro pre ⟨suffix, hsuffix⟩ hproper rest hrun
      obtain ⟨hrun, rfl⟩ := whole_eq_ok_iff.mp hrun
      have hnil : suffix = [] := by
        rcases readAppendResponse_eq_ok_iff.mp hrun with ⟨hhead, _⟩ | ⟨_, _, _, hhead, _⟩
        · exact (append_eq_nil_iff.mp (hcut hsuffix hhead).2).2
        · exact (append_eq_nil_iff.mp (hcut hsuffix hhead).2).2
      exact hproper (by rw [← hsuffix, hnil, append_nil])
  · obtain ⟨c, hsameFb, hread'⟩ := hreads
    refine ⟨{ h with psFeedback := c }, ?_, ?_, ?_⟩
    · obtain ⟨h1, h2, h3, h4, h5, h6, h7, _⟩ := hsame
      exact ⟨h1, h2, h3, h4, h5, h6, h7, hsome ▸ hsameFb⟩
    · have hfb : parsePageserverFeedbackMessage feedback = .ok (c, []) := by
        simpa using hread' []
      exact whole_eq_ok_iff.mpr ⟨readAppendResponse_eq_ok_iff.mpr
        (Or.inr ⟨h, feedback, c, hread feedback, hne, hfb, rfl⟩), rfl⟩
    · rintro pre ⟨suffix, hsuffix⟩ hproper rest hrun
      obtain ⟨hrun, rfl⟩ := whole_eq_ok_iff.mp hrun
      rcases readAppendResponse_eq_ok_iff.mp hrun with
        ⟨hhead, _⟩ | ⟨m, r, fb', hhead, _, hfb', _⟩
      · -- the bytes end behind the header: the message is another one
        have habsent : h.psFeedback.present = false := hsame.psFeedback
        rw [← (hcut hsuffix hhead).1] at habsent
        exact absurd (hsameFb.present.symm.trans habsent) nofun
      · have hmore := extends_parsePageserverFeedbackMessage _ _ _ hfb' suffix
        have hfull := hread' []
        rw [append_nil, ← (hcut hsuffix hhead).2, hmore] at hfull
        have hnil : suffix = [] := by
          simp only [Except.ok.injEq, Prod.mk.injEq] at hfull
          exact hfull.2
        exact hproper (by rw [← hsuffix, hnil, append_nil])

theorem putU8_append (x : UInt8) (rest : List UInt8) : putU8 x ++ rest = x :: rest := by
  simp [putU8, beBytes]

theorem readMessage_whole {tag : UInt8} {wrap : alpha -> AcceptorProposerMessage}
    (htag : forall rest, readMessage tag (tag :: rest) = (wrap <$> whole p) rest)
    {body : List UInt8} {c : alpha} (hrun : whole p body = .ok (c, []))
    (hcut : forall {pre c' rest}, pre <+: body -> pre ≠ body -> wrap c' = wrap c ->
      whole p pre ≠ .ok (c', rest)) :
    readMessage tag (tag :: body) = .ok (wrap c, []) ∧
      forall pre, pre <+: tag :: body -> pre ≠ tag :: body ->
        forall rest, readMessage tag pre ≠ .ok (wrap c, rest) := by
  refine ⟨(htag _).trans (map_run_eq_ok_iff.mpr ⟨c, hrun, rfl⟩), ?_⟩
  intro pre hpre hne rest hok
  cases pre with
  | nil => cases hok
  | cons b pre =>
    obtain ⟨rfl, hbody⟩ := cons_prefix_cons.mp hpre
    obtain ⟨_, hok, heq⟩ := map_run_eq_ok_iff.mp ((htag _).symm.trans hok)
    exact hcut hbody (fun heq => hne (by rw [heq])) heq hok

/-- What the safekeeper writes is read back whole, and no proper prefix is. -/
theorem readMessage_serialize {m : Codec.AcceptorProposerMessage} (h : Fitting m) :
    exists bytes c, Codec.serialize m = .ok bytes ∧ SameResponse m c ∧
      readMessage (tagOf m) bytes = .ok (c, []) ∧
      forall pre, pre <+: bytes -> pre ≠ bytes ->
        forall rest, readMessage (tagOf m) pre ≠ .ok (c, rest) := by
  cases m with
  | greeting msg =>
    have hreads := reads_readGreeting h
    obtain ⟨c, hc, hrun⟩ := whole_of_reads hreads
    exact ⟨_, .greeting c, congrArg _ (putU8_append _ _), hc, readMessage_whole (fun _ => rfl)
      hrun (fun hpre hne _ => whole_not_prefix hreads extends_readGreeting hpre hne _)⟩
  | voteResponse msg =>
    have hreads := reads_readVoteResponse h
    obtain ⟨c, hc, hrun⟩ := whole_of_reads hreads
    exact ⟨_, .voteResponse c, congrArg _ (putU8_append _ _), hc,
      readMessage_whole (fun _ => rfl) hrun
        (fun hpre hne _ => whole_not_prefix hreads extends_readVoteResponse hpre hne _)⟩
  | appendResponse msg =>
    have hfeedback : exists feedback,
        serializeFeedback msg.pageserverFeedback = .ok feedback ∧
        ((msg.pageserverFeedback = none ∧ feedback = []) ∨
          exists fb, msg.pageserverFeedback = some fb ∧ feedback ≠ [] ∧
            Reads parsePageserverFeedbackMessage feedback (SameFeedback fb)) := by
      cases hfb : msg.pageserverFeedback with
      | none => exact ⟨[], rfl, Or.inl ⟨rfl, rfl⟩⟩
      | some fb =>
        obtain ⟨bytes, hser, hne, hreads⟩ :=
          reads_parsePageserverFeedbackMessage (h fb hfb)
        exact ⟨bytes, hser, Or.inr ⟨fb, rfl, hne, hreads⟩⟩
    obtain ⟨feedback, hser, hcases⟩ := hfeedback
    obtain ⟨c, hc, hrun, hprefix⟩ :=
      whole_readAppendResponse (reads_readAppendHeader msg) hcases
    refine ⟨_, .appendResponse c, ?_, hc, readMessage_whole (fun _ => rfl) hrun ?_⟩
    · rw [Codec.serialize, hser]
      exact congrArg _ (putU8_append _ _)
    · rintro pre _ rest hpre hne ⟨⟩
      exact hprefix pre hpre hne rest

end Read

end WalProposer
end OpenNeon

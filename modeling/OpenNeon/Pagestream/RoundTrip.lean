import OpenNeon.Pagestream.Message

/-!
# Messages are read as they were written

At one protocol version, the page server parses a packed request into the same request
and the compute unpacks a serialized response into the same response, as far as the
version has its fields.
-/

namespace OpenNeon
namespace Pagestream

open Base Reader List

/-!
## Trace contexts
-/

theorem decodeHexByte_hexByte (b : UInt8) :
    decodeHexByte (hexLower (b.toNat / 16)) (hexLower (b.toNat % 16)) = .ok b := by
  have hall : forall n : Fin 256,
      decodeHexByte (hexLower (n.val / 16)) (hexLower (n.val % 16)) = .ok (UInt8.ofNat n) := by
    decide +kernel
  simpa using hall ⟨b.toNat, b.toNat_lt⟩

variable {n : Nat} {bytes : List UInt8} {version : ProtocolVersion}

theorem decodeHexBytes_append (h : bytes.length = n) (rest : List UInt8) :
    decodeHexBytes n (bytes.flatMap hexByte ++ rest) = .ok ⟨bytes, h⟩ := by
  induction bytes generalizing n with
  | nil =>
    subst h
    rfl
  | cons b bytes ih =>
    cases n with
    | zero => cases h
    | succ n =>
      have hfirst : (b :: bytes).flatMap hexByte ++ rest = hexLower (b.toNat / 16) ::
          hexLower (b.toNat % 16) :: (bytes.flatMap hexByte ++ rest) := by
        simp [hexByte]
      rw [hfirst, decodeHexBytes, decodeHexByte_hexByte, ih (Nat.succ.inj h)]
      rfl

theorem parseId_append {id : List UInt8} (hlength : id.length = n)
    (hid : exists b, b ∈ id ∧ b ≠ 0) (rest : List UInt8) (zero : FeError) :
    parseId n (id.flatMap hexByte ++ rest) zero = .ok ⟨id, hlength, hid⟩ := by
  unfold parseId
  rw [decodeHexBytes_append hlength]
  exact dif_pos hid

theorem parseWire_append {tc : TraceContext} (hversion : tc.version = 0)
    {front middle wire : List UInt8}
    (hfront : front = [48, 48, dash] ++ tc.traceId.flatMap hexByte)
    (hmiddle : middle = [dash] ++ tc.parentId.flatMap hexByte)
    (hwire : wire = front ++ (middle ++ ([dash] ++ hexByte tc.traceFlags))) :
    wire.length = traceContextWireLen ∧ TraceContext.parseWire wire = .ok tc := by
  have hlength : front.length = 35 := by
    simp [hfront, hexByte, tc.traceId_length]
  have hlength' : middle.length = 17 := by
    simp [hmiddle, hexByte, tc.parentId_length]
  have hall : wire.length = traceContextWireLen := by
    simp [hwire, hlength, hlength', hexByte, traceContextWireLen]
  have hdashes : wire[2]? = some dash ∧ wire[35]? = some dash ∧ wire[52]? = some dash := by
    refine ⟨by rw [hwire, hfront]; rfl, ?_, ?_⟩
    · rw [hwire, getElem?_append_right (by omega), hlength, hmiddle]
      rfl
    · rw [hwire, getElem?_append_right (by omega), hlength,
        getElem?_append_right (by omega), hlength']
      rfl
  have hversion' : parseVersion wire = .ok tc.version := by
    rw [hversion, hwire, hfront]
    rfl
  have htraceId : parseId 16 (wire.drop 3) .traceIdZero =
      .ok ⟨tc.traceId, tc.traceId_length, tc.traceId_nonzero⟩ := by
    rw [hwire, hfront]
    exact parseId_append tc.traceId_length tc.traceId_nonzero _ _
  have hparentId : parseId 8 (wire.drop 36) .parentIdZero =
      .ok ⟨tc.parentId, tc.parentId_length, tc.parentId_nonzero⟩ := by
    rw [hwire, drop_append, drop_of_length_le (by omega), hlength, hmiddle]
    exact parseId_append tc.parentId_length tc.parentId_nonzero _ _
  have hflags : decodeHexBytes 1 (wire.drop 53) = .ok ⟨[tc.traceFlags], rfl⟩ := by
    rw [hwire, drop_append, drop_of_length_le (by omega), hlength, drop_append,
      drop_of_length_le (by omega), hlength']
    exact decodeHexBytes_append (rfl : [tc.traceFlags].length = 1) []
  refine ⟨hall, ?_⟩
  unfold TraceContext.parseWire
  rw [if_neg (by omega), if_neg (by simp [hdashes]), hversion', htraceId, hparentId, hflags]
  rfl

theorem parseWire_serialize {tc : TraceContext} {wire : List UInt8}
    (h : traceContextSerialize tc = some wire) :
    wire.length = traceContextWireLen ∧ TraceContext.parseWire wire = .ok tc := by
  unfold traceContextSerialize at h
  split at h
  · cases h
  next hversion =>
    exact parseWire_append (not_not.mp hversion) rfl rfl (Option.some.inj h).symm

/-!
## Requests
-/

/-- A request as far as the version has its fields. -/
def FeMessage.seen (version : ProtocolVersion) (msg : FeMessage) : FeMessage :=
  { msg with
    hdr :=
      { msg.hdr with
        reqid := if version.hasRequestId then msg.hdr.reqid else 0
        traceContext := if version = .v4 then msg.hdr.traceContext else none } }

theorem reads_rel {error : Type} (rel : RelTag) (e : Nat -> error) :
    Reads (readRel e) (relBytes rel) (fun r => r = rel) := by
  refine (reads_u32 rel.spcnode e).seq ?_
  refine (reads_u32 rel.dbnode e).seq ?_
  refine (reads_u32 rel.relnode e).seq ?_
  refine (reads_u8 rel.forknum e).seq_pure ?_
  rfl

theorem reads_request (req : Request) :
    Reads (parseRequest (requestTag req)) (requestBytes req) (fun r => r = req) := by
  cases req with
  | relExists rel => exact (reads_rel rel eof).map (by rintro _ rfl; rfl)
  | nblocks rel => exact (reads_rel rel eof).map (by rintro _ rfl; rfl)
  | getPage rel blkno =>
    refine (reads_rel rel eof).seq ?_
    exact (reads_u32 blkno eof).seq_pure rfl
  | dbSize dbnode => exact (reads_u32 dbnode eof).map (by rintro _ rfl; rfl)
  | getSlruSegment kind segno =>
    refine (reads_u8 kind eof).seq ?_
    exact (reads_u32 segno eof).seq_pure rfl

theorem reads_trace {tc : Option TraceContext} (h : traceBytes version tc = some bytes) :
    Reads (parseTrace version) bytes (fun r => r = if version = .v4 then tc else none) := by
  unfold traceBytes at h
  unfold parseTrace
  split at h
  next hversion =>
    cases h
    rw [if_pos hversion, if_neg hversion]
    exact Reads.pure rfl
  next hversion =>
    rw [if_neg hversion, if_pos (not_not.mp hversion)]
    cases tc with
    | none =>
      cases h
      refine (reads_u8 0 eof).seq ?_
      exact Reads.pure rfl
    | some tc =>
      obtain ⟨wire, hwire, rfl⟩ := Option.map_eq_some_iff.mp h
      obtain ⟨hlength, hparse⟩ := parseWire_serialize hwire
      refine (reads_u8 1 eof).seq ?_
      rw [← append_nil wire, ← hlength]
      refine (reads_take wire eof).seq ?_
      exact (reads_check hparse).seq_pure rfl

theorem reads_reqid (version : ProtocolVersion) (hdr : Header) :
    Reads (parseReqid version) (reqidBytes version hdr)
      (fun r => r = if version.hasRequestId then hdr.reqid else 0) := by
  unfold parseReqid reqidBytes
  split
  · exact reads_u64 hdr.reqid eof
  · exact Reads.pure rfl

/-- What the compute packs for a version, the page server parses at that version. -/
theorem parse_pack {msg : FeMessage} (h : nmPackRequest msg version = some bytes) :
    FeMessage.parse version bytes = .ok (msg.seen version) := by
  obtain ⟨trace, htrace, rfl⟩ := Option.map_eq_some_iff.mp h
  have hreads : Reads (readFeMessage version) (beBytes 1 (requestTag msg.req).toNat ++
        (trace ++ (reqidBytes version msg.hdr ++ (lsnBytes msg.hdr ++ requestBytes msg.req))))
      (fun r => r = msg.seen version) := by
    refine (reads_u8 _ eof).seq ?_
    refine (reads_trace htrace).seq ?_
    refine (reads_reqid version msg.hdr).seq ?_
    refine (reads_u64 msg.hdr.lsn eof).seq ?_
    refine (reads_u64 msg.hdr.notModifiedSince eof).seq ?_
    exact (reads_request msg.req).seq_pure rfl
  obtain ⟨_, rfl, hrun⟩ := hreads.run_eq
  rw [FeMessage.parse, hrun]
  rfl

/-!
## Responses
-/

def Response.withoutEcho : Response -> Response
  | .relExists _ found => .relExists noRel found
  | .nblocks _ nBlocks => .nblocks noRel nBlocks
  | .getPage _ _ page => .getPage noRel 0 page
  | .error message => .error message
  | .dbSize _ size => .dbSize 0 size
  | .getSlruSegment _ _ segment => .getSlruSegment 0 0 segment

/-- The response as far as the version has its fields, without the trace context. -/
def BeMessage.seen (version : ProtocolVersion) (msg : BeMessage) : BeMessage :=
  if version.hasRequestId then
    { hdr := { msg.hdr with traceContext := none }, resp := msg.resp }
  else { hdr := noHeader, resp := msg.resp.withoutEcho }

/-- Pages of 8 KiB, whole SLRU segments at most, and error texts without NUL bytes. -/
def Response.Proper : Response -> Prop
  | .getPage _ _ page => page.length = BLCKSZ
  | .error message => (0 : UInt8) ∉ message
  | .getSlruSegment _ _ segment =>
    exists n, n <= SLRU_PAGES_PER_SEGMENT ∧ segment.length = n * BLCKSZ
  | _ => True

theorem reads_ifEchoed {alpha : Type} {p : NmReader alpha} {a : alpha}
    (h : Reads p bytes (fun r => r = a)) (echoed : Bool) (absent : alpha) :
    Reads (ifEchoed echoed p absent) (if echoed then bytes else [])
      (fun r => r = if echoed then a else absent) := by
  cases echoed with
  | true => exact h
  | false => exact Reads.pure rfl

theorem reads_header (hdr : Header) :
    Reads unpackHeader (beBytes 8 hdr.reqid.toNat ++ lsnBytes hdr)
      (fun r => r = { hdr with traceContext := none }) := by
  refine (reads_u64 hdr.reqid short).seq ?_
  refine (reads_u64 hdr.lsn short).seq ?_
  exact (reads_u64 hdr.notModifiedSince short).seq_pure rfl

theorem reads_segment {segment : List UInt8} (hn : n <= SLRU_PAGES_PER_SEGMENT)
    (hsegment : segment.length = n * BLCKSZ) :
    Reads unpackSegment (beBytes 4 (segment.length / BLCKSZ) ++ segment)
      (fun r => r = segment) := by
  have hblocks : segment.length / BLCKSZ = (UInt32.ofNat n).toNat := by
    rw [hsegment, Nat.mul_div_cancel n (by decide)]
    exact (Nat.mod_eq_of_lt (Nat.lt_of_le_of_lt hn (by decide))).symm
  have hn' : (UInt32.ofNat n).toNat = n := by
    rw [← hblocks, hsegment, Nat.mul_div_cancel n (by decide)]
  rw [hblocks]
  refine (reads_u32 _ short).seq ?_
  rw [if_neg (by rw [hn']; exact Nat.not_lt.mpr hn), hn', ← hsegment]
  exact reads_take segment short

theorem reads_response {resp : Response} (h : resp.Proper) (echoed : Bool) :
    Reads (unpackResponse echoed (responseTag resp))
      ((if echoed then echoBytes resp else []) ++ resultBytes resp)
      (fun r => r = if echoed then resp else resp.withoutEcho) := by
  cases resp with
  | relExists rel found =>
    refine (reads_ifEchoed (reads_rel rel short) echoed noRel).seq ?_
    have hbyte : beBytes 1 found.toNat = beBytes 1 (UInt8.ofNat found.toNat).toNat := by
      cases found <;> rfl
    rw [resultBytes, hbyte]
    refine (reads_u8 _ short).seq_pure ?_
    cases echoed <;> cases found <;> rfl
  | nblocks rel nBlocks =>
    refine (reads_ifEchoed (reads_rel rel short) echoed noRel).seq ?_
    refine (reads_u32 nBlocks short).seq_pure ?_
    cases echoed <;> rfl
  | getPage rel blkno page =>
    have haddress : Reads unpackPageAddress (relBytes rel ++ beBytes 4 blkno.toNat)
        (fun r => r = (rel, blkno)) := by
      refine (reads_rel rel short).seq ?_
      exact (reads_u32 blkno short).seq_pure rfl
    refine (reads_ifEchoed haddress echoed (noRel, 0)).seq ?_
    have hpage : page.length = BLCKSZ := h
    rw [← hpage]
    refine (reads_take page short).seq_pure ?_
    cases echoed <;> rfl
  | error message =>
    have hbytes : (if echoed then echoBytes (.error message) else []) ++
        resultBytes (.error message) = message ++ [0] := by
      cases echoed <;> rfl
    rw [hbytes]
    refine (reads_cstring h NmError.insufficientData).map ?_
    rintro _ rfl
    cases echoed <;> rfl
  | dbSize dbnode size =>
    refine (reads_ifEchoed (reads_u32 dbnode short) echoed 0).seq ?_
    refine (reads_u64 size short).seq_pure ?_
    cases echoed <;> rfl
  | getSlruSegment kind segno segment =>
    have haddress : Reads unpackSegmentAddress (beBytes 1 kind.toNat ++ beBytes 4 segno.toNat)
        (fun r => r = (kind, segno)) := by
      refine (reads_u8 kind short).seq ?_
      exact (reads_u32 segno short).seq_pure rfl
    obtain ⟨n, hn, hsegment⟩ := h
    refine (reads_ifEchoed haddress echoed (0, 0)).seq ?_
    refine (reads_segment hn hsegment).seq_pure ?_
    cases echoed <;> rfl

/-- The compute unpacks what is serialized, if both agree on whether there are request ids. -/
theorem unpack_serialize {msg : BeMessage} (h : msg.resp.Proper) {setting : ProtocolVersion}
    (hsetting : setting.hasRequestId = version.hasRequestId) :
    nmUnpackResponse setting (msg.serialize version) = .ok (msg.seen version) := by
  have hreads : Reads (readBeMessage version.hasRequestId) (msg.serialize version)
      (fun r => r = msg.seen version) := by
    have hbytes : msg.serialize version = beBytes 1 (responseTag msg.resp).toNat ++
        ((if version.hasRequestId then beBytes 8 msg.hdr.reqid.toNat ++ lsnBytes msg.hdr
          else []) ++
        ((if version.hasRequestId then echoBytes msg.resp else []) ++ resultBytes msg.resp)) := by
      cases version <;> simp [BeMessage.serialize, ProtocolVersion.hasRequestId]
    rw [hbytes]
    refine (reads_u8 _ short).seq ?_
    refine (reads_ifEchoed (reads_header msg.hdr) _ noHeader).seq ?_
    refine (reads_response h _).seq_pure ?_
    cases version <;> rfl
  obtain ⟨_, rfl, hrun⟩ := hreads.run_eq
  rw [nmUnpackResponse, hsetting, hrun]
  rfl

end Pagestream
end OpenNeon

import OpenNeon.Base.Reader

/-!
# Messages of the page stream

The compute packs requests in C and the page server parses them in Rust; the responses go
the other way.  The structs of the two sides have the same fields, so both sides share one
type here.  The protocol version decides which of the fields are on the wire: version 3
adds the request id and echoes the request in the response, version 4 adds a trace
context to the request.
-/

namespace OpenNeon
namespace Pagestream

open Base
open Reader (u8 u32 u64 take)

inductive ProtocolVersion where
  | v2
  | v3
  | v4
  deriving DecidableEq

def ProtocolVersion.hasRequestId : ProtocolVersion -> Bool
  | .v2 => false
  | _ => true

/-- The parsers of both sides accept no other trace contexts. -/
structure TraceContext where
  version : UInt8
  traceId : List UInt8
  parentId : List UInt8
  traceFlags : UInt8
  traceId_length : traceId.length = 16
  traceId_nonzero : exists b, b ∈ traceId ∧ b ≠ 0
  parentId_length : parentId.length = 8
  parentId_nonzero : exists b, b ∈ parentId ∧ b ≠ 0

structure Header where
  reqid : UInt64
  lsn : UInt64
  notModifiedSince : UInt64
  traceContext : Option TraceContext

structure RelTag where
  spcnode : UInt32
  dbnode : UInt32
  relnode : UInt32
  forknum : UInt8

inductive Request where
  | relExists (rel : RelTag)
  | nblocks (rel : RelTag)
  | getPage (rel : RelTag) (blkno : UInt32)
  | dbSize (dbnode : UInt32)
  | getSlruSegment (kind : UInt8) (segno : UInt32)

structure FeMessage where
  hdr : Header
  req : Request

/-- A response with the request it echoes; a database size is given by its 64 bits. -/
inductive Response where
  | relExists (rel : RelTag) (found : Bool)
  | nblocks (rel : RelTag) (nBlocks : UInt32)
  | getPage (rel : RelTag) (blkno : UInt32) (page : List UInt8)
  | error (message : List UInt8)
  | dbSize (dbnode : UInt32) (size : UInt64)
  | getSlruSegment (kind : UInt8) (segno : UInt32) (segment : List UInt8)

structure BeMessage where
  hdr : Header
  resp : Response

def BLCKSZ : Nat := 8192
def SLRU_PAGES_PER_SEGMENT : Nat := 32

/-!
## The trace context on the wire
-/

def dash : UInt8 := 45

def hexLower (nibble : Nat) : UInt8 :=
  if nibble < 10 then UInt8.ofNat (48 + nibble) else UInt8.ofNat (87 + nibble)

def hexByte (b : UInt8) : List UInt8 :=
  [hexLower (b.toNat / 16), hexLower (b.toNat % 16)]

/-- What the compute writes: always version 0, so another version is refused. -/
def traceContextSerialize (tc : TraceContext) : Option (List UInt8) :=
  if tc.version ≠ 0 then none
  else some ([48, 48, dash] ++ tc.traceId.flatMap hexByte ++
    ([dash] ++ tc.parentId.flatMap hexByte ++ ([dash] ++ hexByte tc.traceFlags)))

inductive FeError where
  | unexpectedEof
  | tracePresent (b : UInt8)
  | traceTooShort
  | traceDelimiters
  | traceHexChar (c : UInt8)
  | traceVersion
  | traceIdZero
  | parentIdZero
  | invalidTag (tag : UInt8)
  deriving DecidableEq

def nibble (c : UInt8) : Except FeError Nat :=
  if 48 ≤ c ∧ c ≤ 57 then .ok (c.toNat - 48)
  else if 97 ≤ c ∧ c ≤ 102 then .ok (c.toNat - 97 + 10)
  else if 65 ≤ c ∧ c ≤ 70 then .ok (c.toNat - 65 + 10)
  else .error (.traceHexChar c)

def decodeHexByte (hi lo : UInt8) : Except FeError UInt8 := do
  let high <- nibble hi
  let low <- nibble lo
  return UInt8.ofNat (high * 16 + low)

def decodeHexBytes : (n : Nat) -> List UInt8 -> Except FeError { l : List UInt8 // l.length = n }
  | 0, _ => .ok ⟨[], rfl⟩
  | n + 1, hi :: lo :: rest => do
    let b <- decodeHexByte hi lo
    let more <- decodeHexBytes n rest
    return ⟨b :: more.1, congrArg (· + 1) more.2⟩
  | _ + 1, _ => .error .traceTooShort

def traceContextWireLen : Nat := 55

def parseVersion (wire : List UInt8) : Except FeError UInt8 := do
  let version <- decodeHexBytes 1 wire
  if version.1 = [0xff] then throw .traceVersion else pure (version.1.headD 0)

def parseId (n : Nat) (digits : List UInt8) (zero : FeError) :
    Except FeError { l : List UInt8 // l.length = n ∧ exists b, b ∈ l ∧ b ≠ 0 } := do
  let id <- decodeHexBytes n digits
  if h : exists b, b ∈ id.1 ∧ b ≠ 0 then pure ⟨id.1, id.2, h⟩ else throw zero

def TraceContext.parseWire (wire : List UInt8) : Except FeError TraceContext :=
  if wire.length < traceContextWireLen then .error .traceTooShort
  else if wire[2]? ≠ some dash ∨ wire[35]? ≠ some dash ∨ wire[52]? ≠ some dash then
    .error .traceDelimiters
  else do
    let version <- parseVersion wire
    let traceId <- parseId 16 (wire.drop 3) .traceIdZero
    let parentId <- parseId 8 (wire.drop 36) .parentIdZero
    let flags <- decodeHexBytes 1 (wire.drop 53)
    return { version := version, traceId := traceId.1, parentId := parentId.1,
             traceFlags := flags.1.headD 0, traceId_length := traceId.2.1,
             traceId_nonzero := traceId.2.2, parentId_length := parentId.2.1,
             parentId_nonzero := parentId.2.2 }

/-!
## Parts that both sides write and read alike
-/

def relBytes (rel : RelTag) : List UInt8 :=
  beBytes 4 rel.spcnode.toNat ++ (beBytes 4 rel.dbnode.toNat ++
    (beBytes 4 rel.relnode.toNat ++ beBytes 1 rel.forknum.toNat))

def readRel {error : Type} (short : Nat -> error) : Reader error RelTag := do
  let spcnode <- u32 short
  let dbnode <- u32 short
  let relnode <- u32 short
  let forknum <- u8 short
  return { spcnode, dbnode, relnode, forknum }

def lsnBytes (hdr : Header) : List UInt8 :=
  beBytes 8 hdr.lsn.toNat ++ beBytes 8 hdr.notModifiedSince.toNat

variable (version : ProtocolVersion)

def reqidBytes (hdr : Header) : List UInt8 :=
  if version.hasRequestId then beBytes 8 hdr.reqid.toNat else []

/-!
## Requests: packed by the compute, parsed by the page server
-/

def requestTag : Request -> UInt8
  | .relExists _ => 0
  | .nblocks _ => 1
  | .getPage _ _ => 2
  | .dbSize _ => 3
  | .getSlruSegment _ _ => 4

def requestBytes : Request -> List UInt8
  | .relExists rel => relBytes rel
  | .nblocks rel => relBytes rel
  | .getPage rel blkno => relBytes rel ++ beBytes 4 blkno.toNat
  | .dbSize dbnode => beBytes 4 dbnode.toNat
  | .getSlruSegment kind segno => beBytes 1 kind.toNat ++ beBytes 4 segno.toNat

/-- The optional trace context of version 4; nothing if it cannot be written. -/
def traceBytes (traceContext : Option TraceContext) : Option (List UInt8) :=
  if version ≠ .v4 then some []
  else
    match traceContext with
    | none => some (beBytes 1 0)
    | some tc => (traceContextSerialize tc).map (fun wire => beBytes 1 1 ++ wire)

/-- A trace context that cannot be written is the end of the compute. -/
def nmPackRequest (msg : FeMessage) (version : ProtocolVersion) : Option (List UInt8) :=
  (traceBytes version msg.hdr.traceContext).map (fun trace =>
    beBytes 1 (requestTag msg.req).toNat ++
      (trace ++ (reqidBytes version msg.hdr ++ (lsnBytes msg.hdr ++ requestBytes msg.req))))

abbrev FeReader := Reader FeError

def eof : Nat -> FeError :=
  fun _ => .unexpectedEof

def parseTrace : FeReader (Option TraceContext) :=
  if version ≠ .v4 then pure none
  else do
    let tracePresent <- u8 eof
    if tracePresent = 0 then pure none
    else if tracePresent = 1 then do
      let wire <- take traceContextWireLen eof
      let tc <- Reader.check (TraceContext.parseWire wire)
      pure (some tc)
    else throw (.tracePresent tracePresent)

def parseReqid : FeReader UInt64 :=
  if version.hasRequestId then u64 eof else pure 0

def parseRequest (tag : UInt8) : FeReader Request :=
  if tag = 0 then Request.relExists <$> readRel eof
  else if tag = 1 then Request.nblocks <$> readRel eof
  else if tag = 2 then do
    let rel <- readRel eof
    let blkno <- u32 eof
    pure (.getPage rel blkno)
  else if tag = 3 then Request.dbSize <$> u32 eof
  else if tag = 4 then do
    let kind <- u8 eof
    let segno <- u32 eof
    pure (.getSlruSegment kind segno)
  else throw (.invalidTag tag)

def readFeMessage : FeReader FeMessage := do
  let tag <- u8 eof
  let traceContext <- parseTrace version
  let reqid <- parseReqid version
  let lsn <- u64 eof
  let notModifiedSince <- u64 eof
  let req <- parseRequest tag
  return { hdr := { reqid, lsn, notModifiedSince, traceContext }, req }

/-- Bytes behind the message are not looked at. -/
def FeMessage.parse (body : List UInt8) : Except FeError FeMessage :=
  (readFeMessage version body).map Prod.fst

/-!
## Responses: serialized by the page server, unpacked by the compute
-/

def responseTag : Response -> UInt8
  | .relExists _ _ => 100
  | .nblocks _ _ => 101
  | .getPage _ _ _ => 102
  | .error _ => 103
  | .dbSize _ _ => 104
  | .getSlruSegment _ _ _ => 105

def echoBytes : Response -> List UInt8
  | .relExists rel _ => relBytes rel
  | .nblocks rel _ => relBytes rel
  | .getPage rel blkno _ => relBytes rel ++ beBytes 4 blkno.toNat
  | .error _ => []
  | .dbSize dbnode _ => beBytes 4 dbnode.toNat
  | .getSlruSegment kind segno _ => beBytes 1 kind.toNat ++ beBytes 4 segno.toNat

def resultBytes : Response -> List UInt8
  | .relExists _ found => beBytes 1 found.toNat
  | .nblocks _ nBlocks => beBytes 4 nBlocks.toNat
  | .getPage _ _ page => page
  | .error message => message ++ [0]
  | .dbSize _ size => beBytes 8 size.toNat
  | .getSlruSegment _ _ segment => beBytes 4 (segment.length / BLCKSZ) ++ segment

def BeMessage.serialize (msg : BeMessage) (version : ProtocolVersion) : List UInt8 :=
  beBytes 1 (responseTag msg.resp).toNat ++
    (if version.hasRequestId then
      beBytes 8 msg.hdr.reqid.toNat ++ (lsnBytes msg.hdr ++
        (echoBytes msg.resp ++ resultBytes msg.resp))
    else resultBytes msg.resp)

/-- How unpacking ends other than with a response. -/
inductive NmError where
  | insufficientData
  | invalidFormat
  | unexpectedTag (tag : UInt8)
  /-- The segment does not fit the buffer, which is not checked. -/
  | bufferOverrun

abbrev NmReader := Reader NmError

def short : Nat -> NmError :=
  fun _ => .insufficientData

def noRel : RelTag := ⟨0, 0, 0, 0⟩
def noHeader : Header := ⟨0, 0, 0, none⟩

/-- A part that is only there in responses with request ids. -/
def ifEchoed {alpha : Type} (echoed : Bool) (p : NmReader alpha) (absent : alpha) :
    NmReader alpha :=
  if echoed then p else pure absent

def unpackHeader : NmReader Header := do
  let reqid <- u64 short
  let lsn <- u64 short
  let notModifiedSince <- u64 short
  return { reqid, lsn, notModifiedSince, traceContext := none }

def unpackPageAddress : NmReader (RelTag × UInt32) := do
  let rel <- readRel short
  let blkno <- u32 short
  pure (rel, blkno)

def unpackSegmentAddress : NmReader (UInt8 × UInt32) := do
  let kind <- u8 short
  let segno <- u32 short
  pure (kind, segno)

def unpackSegment : NmReader (List UInt8) := do
  let nBlocks <- u32 short
  if SLRU_PAGES_PER_SEGMENT < nBlocks.toNat then throw .bufferOverrun
  else take (nBlocks.toNat * BLCKSZ) short

def unpackResponse (echoed : Bool) (tag : UInt8) : NmReader Response :=
  if tag = 100 then do
    let rel <- ifEchoed echoed (readRel short) noRel
    let found <- u8 short
    pure (.relExists rel (found != 0))
  else if tag = 101 then do
    let rel <- ifEchoed echoed (readRel short) noRel
    let nBlocks <- u32 short
    pure (.nblocks rel nBlocks)
  else if tag = 102 then do
    let address <- ifEchoed echoed unpackPageAddress (noRel, 0)
    let page <- take BLCKSZ short
    pure (.getPage address.1 address.2 page)
  else if tag = 103 then Response.error <$> Reader.cstring .insufficientData
  else if tag = 104 then do
    let dbnode <- ifEchoed echoed (u32 short) 0
    let size <- u64 short
    pure (.dbSize dbnode size)
  else if tag = 105 then do
    let address <- ifEchoed echoed unpackSegmentAddress (0, 0)
    let segment <- unpackSegment
    pure (.getSlruSegment address.1 address.2 segment)
  else throw (.unexpectedTag tag)

def readBeMessage (echoed : Bool) : NmReader BeMessage := do
  let tag <- u8 short
  let hdr <- ifEchoed echoed unpackHeader noHeader
  let resp <- unpackResponse echoed tag
  return { hdr, resp }

/-- The compute unpacks by its own setting, not by the version of the connection. -/
def nmUnpackResponse (neonProtocolVersion : ProtocolVersion) (s : List UInt8) :
    Except NmError BeMessage := do
  let (msg, rest) <- readBeMessage neonProtocolVersion.hasRequestId s
  if rest ≠ [] then throw .invalidFormat else pure msg

end Pagestream
end OpenNeon

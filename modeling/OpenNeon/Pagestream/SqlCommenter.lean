import OpenNeon.Pagestream.Connection

/-!
# Trace contexts from SQL comments

A client names the trace of a query in a block comment at the end of the SQL text.  The
trace context found there is attached to the page requests of the query.  The parser of
the comment accepts trace contexts of every version, but requests are packed with version
0 only.
-/

namespace OpenNeon
namespace Pagestream

open Base Option

/-!
## The trailing comment
-/

def slash : UInt8 := 47
def star : UInt8 := 42
def quote : UInt8 := 39

variable (c : UInt8)

def isspace : Bool :=
  c == 32 || (9 ≤ c && c ≤ 13)

def isTrailer : Bool :=
  c == 32 || c == 9 || c == 10 || c == 13 || c == 59

/-- The body of the comment, read backwards from its closing; comments nest. -/
def findOpener (depth : Nat) (body : List UInt8) : List UInt8 -> Option (List UInt8)
  | b :: a :: before =>
    if a = star ∧ b = slash then findOpener (depth + 1) (a :: b :: body) before
    else if a = slash ∧ b = star then
      if depth = 1 then some body else findOpener (depth - 1) (a :: b :: body) before
    else findOpener depth (b :: body) (a :: before)
  | _ => none

variable (sql : List UInt8)

def locateTrailingBlockComment : Option (List UInt8) :=
  match sql.reverse.dropWhile isTrailer with
  | b :: a :: before =>
    if 2 ≤ before.length ∧ a = star ∧ b = slash then findOpener 1 [] before else none
  | _ => none

/-!
## Key-value pairs
-/

def hexNibble : Option Nat :=
  if 48 ≤ c ∧ c ≤ 57 then some (c.toNat - 48)
  else if 97 ≤ c ∧ c ≤ 102 then some (10 + (c.toNat - 97))
  else if 65 ≤ c ∧ c ≤ 70 then some (10 + (c.toNat - 65))
  else none

def hexDecodeByte (hi lo : UInt8) : Option UInt8 := do
  let high <- hexNibble hi
  let low <- hexNibble lo
  return UInt8.ofNat (high * 16 + low)

def urlDecode : List UInt8 -> Option (List UInt8)
  | [] => some []
  | c :: rest =>
    if c = 37 then
      match rest with
      | hi :: lo :: rest => do
        let b <- hexDecodeByte hi lo
        let out <- urlDecode rest
        return b :: out
      | _ => none
    else (urlDecode rest).map (fun out => c :: out)

def isUpper : Bool :=
  65 ≤ c && c ≤ 90

def isKeyChar : Bool :=
  isUpper c || (97 ≤ c && c ≤ 122) || (48 ≤ c && c ≤ 57) || c == 95 || c == 45

def lowercase : UInt8 :=
  if isUpper c then c + 32 else c

/-- What follows `c`, if that is what comes first after white space. -/
def skipTo (body : List UInt8) : Option (List UInt8) :=
  match body.dropWhile isspace with
  | b :: rest => if b = c then some rest else none
  | [] => none

/-- A key, its value as it stands between the quotes, and the rest of the body. -/
def nextKv (body : List UInt8) : Option (List UInt8 × List UInt8 × List UInt8) := do
  let start := body.dropWhile (fun c => isspace c || c == 44)
  let key := start.takeWhile isKeyChar
  guard (key ≠ [])
  let afterEquals <- skipTo 61 (start.drop key.length)
  let text <- skipTo quote afterEquals
  let value := text.takeWhile (fun c => c ≠ quote)
  guard (value.length < text.length)
  return (key, value, text.drop (value.length + 1))

theorem length_skipTo {c : UInt8} {body rest : List UInt8} (h : skipTo c body = some rest) :
    rest.length < body.length := by
  have hle := (List.dropWhile_suffix isspace (l := body)).length_le
  unfold skipTo at h
  split at h
  next heq =>
    split at h
    · cases h
      rw [heq] at hle
      exact hle
    · cases h
  · cases h

theorem length_nextKv {body key value rest : List UInt8}
    (h : nextKv body = some (key, value, rest)) : rest.length < body.length := by
  have hstart := (List.dropWhile_suffix (fun c => isspace c || c == 44) (l := body)).length_le
  simp only [nextKv, bind_eq_bind, bind_eq_some_iff] at h
  obtain ⟨-, -, afterEquals, hequals, text, htext, -, -, heq⟩ := h
  cases heq
  have hequals := length_skipTo hequals
  have htext := length_skipTo htext
  simp only [List.length_drop] at hequals ⊢
  omega

/-- All pairs of the body; one whose value cannot be decoded is skipped. -/
def iterateKvs (body : List UInt8) : List (List UInt8 × List UInt8) :=
  match h : nextKv body with
  | none => []
  | some (key, value, rest) =>
    have := length_nextKv h
    match urlDecode value with
    | none => iterateKvs rest
    | some value => (key.map lowercase, value) :: iterateKvs rest
  termination_by body.length

/-!
## Extraction
-/

def hexDecode : (n : Nat) -> List UInt8 -> Option { l : List UInt8 // l.length = n }
  | 0, _ => some ⟨[], rfl⟩
  | n + 1, hi :: lo :: rest => do
    let b <- hexDecodeByte hi lo
    let more <- hexDecode n rest
    return ⟨b :: more.1, congrArg (· + 1) more.2⟩
  | _ + 1, _ => none

/-- A decoded value is read up to its first NUL byte. -/
def cString (value : List UInt8) : List UInt8 :=
  value.takeWhile (fun c => c ≠ 0)

def parseCommon (value : List UInt8) : Option TraceContext :=
  let input := cString value
  if input.length ≠ traceContextWireLen then none
  else if input[2]? ≠ some dash ∨ input[35]? ≠ some dash ∨ input[52]? ≠ some dash then none
  else do
    let version <- hexDecode 1 input
    let traceId <- hexDecode 16 (input.drop 3)
    let parentId <- hexDecode 8 (input.drop 36)
    let flags <- hexDecode 1 (input.drop 53)
    if h : (exists b, b ∈ traceId.1 ∧ b ≠ 0) ∧ exists b, b ∈ parentId.1 ∧ b ≠ 0 then
      some { version := version.1.headD 0, traceId := traceId.1, parentId := parentId.1,
             traceFlags := flags.1.headD 0, traceId_length := traceId.2,
             traceId_nonzero := h.1, parentId_length := parentId.2, parentId_nonzero := h.2 }
    else none

def traceContextParseLenient (value : List UInt8) : Option TraceContext := do
  let out <- parseCommon value
  if out.version = 0xff then none else some out

def traceparentKey : List UInt8 :=
  ['t', 'r', 'a', 'c', 'e', 'p', 'a', 'r', 'e', 'n', 't'].map Char.toUInt8

def tracestateKey : List UInt8 :=
  ['t', 'r', 'a', 'c', 'e', 's', 't', 'a', 't', 'e'].map Char.toUInt8

structure ExtractCtx where
  out : Option TraceContext
  tracestate : Option (List UInt8)

def extractVisit (ctx : ExtractCtx) (kv : List UInt8 × List UInt8) : ExtractCtx :=
  if kv.1 = traceparentKey ∧ ctx.out.isNone then
    { ctx with out := traceContextParseLenient kv.2 }
  else if kv.1 = tracestateKey ∧ ctx.tracestate.isNone then
    { ctx with tracestate := some (cString kv.2) }
  else ctx

/-- The trace context and the trace state of an SQL text, given up to its NUL byte. -/
def sqlcommenterExtractTraceparent : Option (TraceContext × Option (List UInt8)) := do
  let body <- locateTrailingBlockComment sql
  let ctx := (iterateKvs body).foldl extractVisit ⟨none, none⟩
  let out <- ctx.out
  return (out, ctx.tracestate)

/-!
## The version of the accepted value
-/

def traceparents : List (List UInt8) :=
  match locateTrailingBlockComment sql with
  | none => []
  | some body => ((iterateKvs body).filter (fun kv => kv.1 = traceparentKey)).map Prod.snd

def firstTraceparent : Option (List UInt8) :=
  (traceparents sql).find? (fun value => (traceContextParseLenient value).isSome)

theorem out_extractVisit (ctx : ExtractCtx) (key value : List UInt8) :
    (extractVisit ctx (key, value)).out =
      (ctx.out <|> if key = traceparentKey then traceContextParseLenient value else none) := by
  unfold extractVisit
  split
  next h =>
    obtain ⟨rfl, hnone⟩ := h
    simp [isNone_iff_eq_none.mp hnone]
  next h =>
    have hout : ctx.out = (ctx.out <|>
        if key = traceparentKey then traceContextParseLenient value else none) := by
      cases hout : ctx.out with
      | none => simp_all
      | some out => rfl
    split <;> exact hout

theorem out_foldl_extractVisit (kvs : List (List UInt8 × List UInt8)) (ctx : ExtractCtx) :
    (kvs.foldl extractVisit ctx).out = (ctx.out <|>
      ((kvs.filter (fun kv => kv.1 = traceparentKey)).map Prod.snd).findSome?
        traceContextParseLenient) := by
  induction kvs generalizing ctx with
  | nil => cases h : ctx.out <;> simp [h]
  | cons kv kvs ih =>
    obtain ⟨key, value⟩ := kv
    rw [List.foldl_cons, ih, out_extractVisit]
    by_cases hkey : key = traceparentKey
    · cases ctx.out <;> cases hvalue : traceContextParseLenient value <;> simp [hkey, hvalue]
    · cases ctx.out <;> simp [hkey]

variable {tc : TraceContext}

theorem firstTraceparent_of_extract {sql : List UInt8} {tracestate : Option (List UInt8)}
    (h : sqlcommenterExtractTraceparent sql = some (tc, tracestate)) :
    exists value, firstTraceparent sql = some value ∧
      traceContextParseLenient value = some tc := by
  obtain ⟨body, hbody, hrest⟩ := bind_eq_some_iff.mp h
  obtain ⟨out, hout, heq⟩ := bind_eq_some_iff.mp hrest
  cases heq
  rw [out_foldl_extractVisit] at hout
  have htraceparents : traceparents sql =
      ((iterateKvs body).filter (fun kv => kv.1 = traceparentKey)).map Prod.snd := by
    simp [traceparents, hbody]
  obtain ⟨before, value, after, hsplit, hvalue, hbefore⟩ :=
    List.findSome?_eq_some_iff.mp hout
  refine ⟨value, List.find?_eq_some_iff_append.mpr ⟨by simp [hvalue], before, after, ?_⟩, hvalue⟩
  exact ⟨htraceparents.trans hsplit, fun earlier hmem => by simp [hbefore earlier hmem]⟩

theorem hexNibble_zero {c : UInt8} {n : Nat} (h : hexNibble c = some n) :
    n < 16 ∧ (n = 0 <-> c = 48) := by
  have hc : c = 48 <-> c.toNat = 48 := UInt8.toNat_inj.symm
  unfold hexNibble at h
  simp only [UInt8.le_iff_toNat_le, UInt8.reduceToNat] at h
  rw [hc]
  split_ifs at h <;> cases h <;> omega

theorem hexDecodeByte_zero {hi lo b : UInt8} (h : hexDecodeByte hi lo = some b) :
    b = 0 <-> hi = 48 ∧ lo = 48 := by
  obtain ⟨high, hhigh, h⟩ := bind_eq_some_iff.mp h
  obtain ⟨low, hlow, h⟩ := bind_eq_some_iff.mp h
  cases h
  obtain ⟨hhigh, hhi⟩ := hexNibble_zero hhigh
  obtain ⟨hlow, hlo⟩ := hexNibble_zero hlow
  rw [← hhi, ← hlo, ← UInt8.toNat_inj, UInt8.toNat_ofNat', UInt8.toNat_zero]
  omega

theorem version_parseCommon {value : List UInt8} (h : parseCommon value = some tc) :
    tc.version = 0 <-> exists rest, value = 48 :: 48 :: rest := by
  unfold parseCommon at h
  dsimp only at h
  split_ifs at h
  obtain ⟨version, hversion, h⟩ := bind_eq_some_iff.mp h
  obtain ⟨traceId, -, h⟩ := bind_eq_some_iff.mp h
  obtain ⟨parentId, -, h⟩ := bind_eq_some_iff.mp h
  obtain ⟨flags, -, h⟩ := bind_eq_some_iff.mp h
  split_ifs at h
  cases h
  obtain ⟨after, hprefix⟩ := List.takeWhile_prefix (fun c => decide (c ≠ 0)) (l := value)
  change cString value ++ after = value at hprefix
  rcases hvalue : cString value with _ | ⟨hi, _ | ⟨lo, more⟩⟩ <;> rw [hvalue] at hversion
  · cases hversion
  · cases hversion
  · obtain ⟨b, hb, heq⟩ := bind_eq_some_iff.mp hversion
    cases heq
    rw [← hprefix, hvalue]
    simpa using hexDecodeByte_zero hb

/-!
## Requests with the accepted context
-/

/-- It is packed for version 4, and the page server reads ids and flags from it. -/
def Carries (msg : FeMessage) (tc : TraceContext) : Prop :=
  exists bytes, nmPackRequest msg .v4 = some bytes ∧
    exists parsed seen, FeMessage.parse .v4 bytes = .ok parsed ∧
      parsed.hdr.traceContext = some seen ∧ seen.traceId = tc.traceId ∧
      seen.parentId = tc.parentId ∧ seen.traceFlags = tc.traceFlags

theorem carries_iff {msg : FeMessage} (h : msg.hdr.traceContext = some tc) :
    Carries msg tc <-> tc.version = 0 := by
  constructor
  · rintro ⟨bytes, hbytes, -⟩
    by_contra hversion
    simp [nmPackRequest, traceBytes, h, traceContextSerialize, hversion] at hbytes
  · intro hversion
    obtain ⟨bytes, hbytes⟩ : exists bytes, nmPackRequest msg .v4 = some bytes := by
      simp [nmPackRequest, traceBytes, h, traceContextSerialize, hversion]
    exact ⟨bytes, hbytes, _, tc, parse_pack hbytes, by simp [FeMessage.seen, h], rfl, rfl, rfl⟩

/-- The requests sent while the trace context of an SQL text is current carry it exactly
if the value accepted from the comment has version 00. -/
theorem extracted_carried_iff (tc : TraceContext) (tracestate : Option (List UInt8))
    (h : sqlcommenterExtractTraceparent sql = some (tc, tracestate)) :
    (forall call : SendCall, call.msg.hdr.traceContext = none -> call.current = some tc ->
        Carries call.request tc) <->
      exists rest, firstTraceparent sql = some (48 :: 48 :: rest) := by
  obtain ⟨value, hfirst, hvalue⟩ := firstTraceparent_of_extract h
  obtain ⟨parsed, hparsed, hlenient⟩ := bind_eq_some_iff.mp hvalue
  split_ifs at hlenient
  cases hlenient
  have hrequest : forall call : SendCall, call.msg.hdr.traceContext = none ->
      call.current = some tc -> call.request.hdr.traceContext = some tc := by
    intro call hnone hcurrent
    simp [SendCall.request, hnone, hcurrent]
  have hcarried : (forall call : SendCall, call.msg.hdr.traceContext = none ->
      call.current = some tc -> Carries call.request tc) <-> tc.version = 0 := by
    constructor
    · intro hall
      have hcall := hrequest { existsCall [] with current := some tc } rfl rfl
      exact (carries_iff hcall).mp (hall _ rfl rfl)
    · intro hversion call hnone hcurrent
      exact (carries_iff (hrequest call hnone hcurrent)).mpr hversion
  rw [hcarried, version_parseCommon hparsed, hfirst]
  simp

def commented (version : List Char) : List UInt8 :=
  (['S', 'E', 'L', 'E', 'C', 'T', ' ', '1', '/', '*', 't', 'r', 'a', 'c', 'e', 'p', 'a', 'r',
    'e', 'n', 't', '='].map Char.toUInt8) ++ [quote] ++
  ((version ++ ['-'] ++ List.replicate 32 'a' ++ ['-'] ++ List.replicate 16 'b' ++
    ['-', '0', '1']).map Char.toUInt8) ++ [quote, star, slash]

theorem commented_carried :
    exists tc tracestate,
      sqlcommenterExtractTraceparent (commented ['0', '0']) = some (tc, tracestate) ∧
      forall call : SendCall, call.msg.hdr.traceContext = none -> call.current = some tc ->
        Carries call.request tc := by
  have hextract : (sqlcommenterExtractTraceparent (commented ['0', '0'])).isSome := by
    decide +kernel
  obtain ⟨⟨tc, tracestate⟩, hextract⟩ := isSome_iff_exists.mp hextract
  refine ⟨tc, tracestate, hextract, (extracted_carried_iff _ tc tracestate hextract).mpr ?_⟩
  refine ⟨(commented ['0', '0']).drop 25 |>.take 53, ?_⟩
  decide +kernel

/-- Version 01 is accepted from the comment; a page request then is the end of the compute. -/
theorem commented_not_packed :
    exists tc tracestate,
      sqlcommenterExtractTraceparent (commented ['0', '1']) = some (tc, tracestate) ∧
      exists call : SendCall, call.msg.hdr.traceContext = none ∧ call.current = some tc ∧
        nmPackRequest call.request .v4 = none := by
  have hextract : (sqlcommenterExtractTraceparent (commented ['0', '1'])).map
      (fun out => out.1.version) = some 1 := by
    decide +kernel
  obtain ⟨⟨tc, tracestate⟩, hextract, hversion⟩ := map_eq_some_iff.mp hextract
  refine ⟨tc, tracestate, hextract, { existsCall [] with current := some tc }, rfl, rfl, ?_⟩
  simp_all [nmPackRequest, traceBytes, traceContextSerialize, SendCall.request, existsCall]

end Pagestream
end OpenNeon

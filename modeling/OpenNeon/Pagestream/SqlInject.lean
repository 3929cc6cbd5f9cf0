import Mathlib.Data.List.DropRight
import OpenNeon.Pagestream.SqlCommenter

/-!
# Trace comments that are put into SQL texts

The comment that is put at the end of an SQL text is read back, whatever the text and the
trace state are.  A comment that the text had there is replaced if it looks like pairs of
keys and values, although it need not name a trace, and what follows it is lost.
-/

namespace OpenNeon
namespace Pagestream

open Base List

/-!
## Injection
-/

def isUnreserved (c : UInt8) : Bool :=
  isUpper c || (97 ≤ c && c ≤ 122) || (48 ≤ c && c ≤ 57) || c == 45 || c == 95 || c == 46 ||
    c == 126

def urlEncode (src : List UInt8) : List UInt8 :=
  src.flatMap (fun c => if isUnreserved c then [c] else 37 :: hexByte c)

def isBlank (c : UInt8) : Bool :=
  c == 32 || c == 9 || c == 10 || c == 13

def trim (body : List UInt8) : List UInt8 :=
  (body.dropWhile isspace).rdropWhile isspace

def looksLikeSc : List UInt8 -> Bool
  | a :: b :: rest => (a == 61 && b == quote) || looksLikeSc (b :: rest)
  | _ => false

def beforeComment (sql body : List UInt8) : List UInt8 :=
  let openIdx := (sql.rdropWhile isTrailer).length - (body.length + 4)
  (sql.take openIdx).rdropWhile isBlank

def stripTrailingBlock (sql : List UInt8) : List UInt8 :=
  match locateTrailingBlockComment sql with
  | none => sql
  | some body => if looksLikeSc (trim body) then beforeComment sql body else sql

def separated (base : List UInt8) : List UInt8 :=
  match base.getLast? with
  | none => base
  | some tail => if isBlank tail then base else base ++ [32]

def pair (key value : List UInt8) : List UInt8 :=
  key ++ 61 :: quote :: (value ++ [quote])

def tracestatePair : Option (List UInt8) -> List UInt8
  | none => []
  | some tracestate => 44 :: pair tracestateKey (urlEncode tracestate)

def blockComment (body : List UInt8) : List UInt8 :=
  [slash, star] ++ body ++ [star, slash]

def sqlcommenterInjectTraceparent (sql : List UInt8) (tc : TraceContext)
    (tracestate : Option (List UInt8)) : Option (List UInt8) :=
  (traceContextSerialize tc).map (fun wire => separated (stripTrailingBlock sql) ++
    blockComment (pair traceparentKey wire ++ tracestatePair tracestate))

/-!
## Encoded values
-/

theorem isUnreserved_hexByte (b : UInt8) : (hexByte b).all isUnreserved := by
  have hall : forall n : Fin 256, (hexByte (UInt8.ofNat n)).all isUnreserved := by
    decide +kernel
  simpa using hall ⟨b.toNat, b.toNat_lt⟩

variable {tc : TraceContext} {wire src body rest : List UInt8} {c : UInt8}
  {tracestate : Option (List UInt8)}

theorem not_mem_urlEncode (hc : isUnreserved c = false) (hne : c ≠ 37) : c ∉ urlEncode src := by
  intro h
  rcases mem_flatMap.mp h with ⟨b, -, hb⟩
  split at hb
  next hunreserved =>
    rw [mem_singleton.mp hb, hunreserved] at hc
    cases hc
  · have hmem := (mem_cons.mp hb).resolve_left hne
    cases hc.symm.trans (all_eq_true.mp (isUnreserved_hexByte b) c hmem)

theorem urlEncode_eq_self (h : wire.all isUnreserved) : urlEncode wire = wire := by
  induction wire with
  | nil => rfl
  | cons c rest ih =>
    rcases Bool.and_eq_true_iff.mp h with ⟨hc, hrest⟩
    rw [urlEncode, flatMap_cons, if_pos hc]
    exact congrArg _ (ih hrest)

theorem hexNibble_eq (c : UInt8) : hexNibble c = (nibble c).toOption := by
  unfold hexNibble nibble
  split_ifs <;> simp [Except.toOption, Nat.add_comm]

theorem hexDecodeByte_eq (hi lo : UInt8) :
    hexDecodeByte hi lo = (decodeHexByte hi lo).toOption := by
  unfold hexDecodeByte decodeHexByte
  rw [hexNibble_eq, hexNibble_eq]
  cases nibble hi <;> cases nibble lo <;> rfl

theorem urlDecode_urlEncode (src : List UInt8) : urlDecode (urlEncode src) = some src := by
  induction src with
  | nil => rfl
  | cons c rest ih =>
    rw [urlEncode, flatMap_cons, ← urlEncode]
    split
    next hc =>
      have hne : c ≠ 37 := by
        rintro rfl
        cases hc
      rw [singleton_append, urlDecode.eq_def]
      dsimp only
      rw [if_neg hne, ih]
      rfl
    · change (hexDecodeByte _ _ >>= fun b => urlDecode (urlEncode rest) >>= _) = _
      rw [hexDecodeByte_eq, decodeHexByte_hexByte, ih]
      rfl

/-!
## The new comment is found
-/

theorem findOpener_append {rev : List UInt8} (hstar : star ∉ rev) (hslash : slash ∉ rev)
    (body before : List UInt8) :
    findOpener 1 body (rev ++ star :: slash :: before) = some (rev.reverse ++ body) := by
  induction rev generalizing body with
  | nil => rfl
  | cons b rev ih =>
    obtain ⟨a, rest, hrest⟩ : exists a rest, rev ++ star :: slash :: before = a :: rest := by
      cases rev <;> exact ⟨_, _, rfl⟩
    rw [mem_cons, not_or] at hstar hslash
    rw [cons_append, hrest, findOpener, if_neg (fun h => hslash.1 h.2.symm),
      if_neg (fun h => hstar.1 h.2.symm), ← hrest, ih hstar.2 hslash.2]
    simp

theorem locate_blockComment (hstar : star ∉ body) (hslash : slash ∉ body) (front : List UInt8) :
    locateTrailingBlockComment (front ++ blockComment body) = some body := by
  have hreverse : (front ++ blockComment body).reverse.dropWhile isTrailer =
      slash :: star :: (body.reverse ++ star :: slash :: front.reverse) := by
    simp [blockComment, show isTrailer slash = false from rfl]
  unfold locateTrailingBlockComment
  rw [hreverse]
  dsimp only
  rw [if_pos ⟨by simp; omega, rfl, rfl⟩, findOpener_append (by simpa) (by simpa)]
  simp

/-!
## Its pairs are read
-/

theorem iterateKvs_pair (key : List UInt8) {value : List UInt8} (hvalue : value = urlEncode src)
    (hstart : body.dropWhile (fun c => isspace c || c == 44) = pair key value ++ rest)
    (hne : key ≠ []) (hkey : key.all isKeyChar) :
    iterateKvs body = (key.map lowercase, src) :: iterateKvs rest := by
  subst hvalue
  have hpair : pair key (urlEncode src) ++ rest =
      key ++ 61 :: quote :: (urlEncode src ++ quote :: rest) := by
    simp [pair]
  have htake : (key ++ 61 :: quote :: (urlEncode src ++ quote :: rest)).takeWhile isKeyChar =
      key := by
    rw [takeWhile_append_of_pos (all_eq_true.mp hkey)]
    exact append_nil key
  have hquote : forall c, c ∈ urlEncode src -> decide (c ≠ quote) = true := fun c hc =>
    decide_eq_true (ne_of_mem_of_not_mem hc (not_mem_urlEncode rfl (by decide)))
  have htext : (urlEncode src ++ quote :: rest).takeWhile (fun c => c ≠ quote) =
      urlEncode src := by
    rw [takeWhile_append_of_pos hquote]
    simp
  have hskip : forall c text, isspace c = false -> skipTo c (c :: text) = some text := by
    intro c text hc
    simp [skipTo, hc]
  have hnext : nextKv body = some (key, urlEncode src, rest) := by
    unfold nextKv
    simp only [hstart, hpair, htake, drop_left, hskip 61 _ rfl, hskip quote _ rfl, htext,
      Option.bind_eq_bind, Option.bind_some]
    simp [hne]
  rw [iterateKvs]
  split
  next hnone => cases hnext.symm.trans hnone
  next hsome =>
    cases hnext.symm.trans hsome
    rw [urlDecode_urlEncode]

theorem iterateKvs_pairs (h : urlEncode wire = wire) :
    iterateKvs (pair traceparentKey wire ++ tracestatePair tracestate) =
      (traceparentKey, wire) :: (tracestate.map (fun src => (tracestateKey, src))).toList := by
  have hempty : iterateKvs [] = [] := by
    rw [iterateKvs]
    rfl
  have hparent : iterateKvs (pair traceparentKey wire ++ tracestatePair tracestate) =
      (traceparentKey, wire) :: iterateKvs (tracestatePair tracestate) :=
    iterateKvs_pair traceparentKey h.symm rfl (by decide) (by decide)
  rw [hparent]
  cases tracestate with
  | none => exact congrArg _ hempty
  | some src =>
    have hstate : iterateKvs (tracestatePair (some src)) = [(tracestateKey, src)] := by
      rw [iterateKvs_pair tracestateKey rfl (append_nil _).symm (by decide) (by decide), hempty]
      rfl
    exact congrArg _ hstate

theorem not_mem_pairs (h : urlEncode wire = wire) (hc : isUnreserved c = false)
    (hne : c ≠ 37 ∧ c ≠ 44 ∧ c ≠ 61 ∧ c ≠ quote) :
    c ∉ pair traceparentKey wire ++ tracestatePair tracestate := by
  have hpair : forall key src, key.all isUnreserved -> c ∉ pair key (urlEncode src) := by
    intro key src hkey
    have hnot : c ∉ key := fun hmem =>
      Bool.false_ne_true (hc.symm.trans (all_eq_true.mp hkey c hmem))
    simp [pair, hnot, hne, not_mem_urlEncode hc hne.1]
  rw [mem_append, not_or, ← h]
  refine ⟨hpair _ _ (by decide), ?_⟩
  cases tracestate with
  | none => exact not_mem_nil
  | some src => exact not_mem_cons_of_ne_of_not_mem hne.2.1 (hpair _ _ (by decide))

/-!
## The trace context is parsed
-/

theorem urlEncode_serialize (h : traceContextSerialize tc = some wire) :
    urlEncode wire = wire := by
  unfold traceContextSerialize at h
  split at h
  · cases h
  · cases h
    have hids : forall id : List UInt8, (id.flatMap hexByte).all isUnreserved := by
      intro id
      rw [all_flatMap]
      exact all_eq_true.mpr (fun b _ => isUnreserved_hexByte b)
    refine urlEncode_eq_self ?_
    simp only [all_append, hids, isUnreserved_hexByte]
    rfl

theorem hexDecode_eq (n : Nat) (digits : List UInt8) :
    hexDecode n digits = (decodeHexBytes n digits).toOption := by
  fun_induction decodeHexBytes n digits with
  | case1 => rfl
  | case2 n hi lo rest ih =>
    have hstep : hexDecode (n + 1) (hi :: lo :: rest) = (do
        let b <- hexDecodeByte hi lo
        let more <- hexDecode n rest
        return ⟨b :: more.1, congrArg (· + 1) more.2⟩) := rfl
    rw [hstep, hexDecodeByte_eq, ih]
    cases decodeHexByte hi lo with
    | error e => rfl
    | ok b => cases decodeHexBytes n rest <;> rfl
  | case3 n digits hshort =>
    rcases digits with _ | ⟨hi, _ | ⟨lo, rest⟩⟩
    · rfl
    · rfl
    · exact absurd rfl (hshort hi lo rest)

theorem hexDecode_of_parseId {n : Nat} {digits : List UInt8} {zero : FeError}
    {id : { l : List UInt8 // l.length = n ∧ exists b, b ∈ l ∧ b ≠ 0 }}
    (h : parseId n digits zero = .ok id) : hexDecode n digits = some ⟨id.1, id.2.1⟩ := by
  rcases bind_eq_ok_iff.mp h with ⟨bytes, hbytes, h⟩
  split_ifs at h
  cases h
  rw [hexDecode_eq, hbytes]
  rfl

theorem cString_eq_self {value : List UInt8} (h : 0 ∉ value) : cString value = value :=
  takeWhile_eq_self_iff.mpr (fun _ hc => decide_eq_true (ne_of_mem_of_not_mem hc h))

theorem parseCommon_of_parseWire (hlength : wire.length = traceContextWireLen)
    (hzero : 0 ∉ wire) (h : TraceContext.parseWire wire = .ok tc) :
    parseCommon wire = some tc := by
  unfold TraceContext.parseWire at h
  split_ifs at h with hshort hdashes
  rcases bind_eq_ok_iff.mp h with ⟨version, hversion, h⟩
  rcases bind_eq_ok_iff.mp h with ⟨traceId, htraceId, h⟩
  rcases bind_eq_ok_iff.mp h with ⟨parentId, hparentId, h⟩
  rcases bind_eq_ok_iff.mp h with ⟨flags, hflags, h⟩
  cases h
  rcases bind_eq_ok_iff.mp hversion with ⟨bytes, hbytes, hversion⟩
  split_ifs at hversion
  cases hversion
  unfold parseCommon
  rw [cString_eq_self hzero, if_neg (not_not.mpr hlength), if_neg hdashes,
    hexDecode_of_parseId htraceId, hexDecode_of_parseId hparentId, hexDecode_eq, hbytes,
    hexDecode_eq, hflags]
  exact dif_pos ⟨traceId.2.2, parentId.2.2⟩

theorem traceContextParseLenient_serialize (h : traceContextSerialize tc = some wire) :
    traceContextParseLenient wire = some tc := by
  have hzero : 0 ∉ wire := urlEncode_serialize h ▸ not_mem_urlEncode rfl (by decide)
  rcases parseWire_serialize h with ⟨hlength, hparse⟩
  have hversion : tc.version ≠ 0xff := by
    intro heq
    rw [traceContextSerialize, heq] at h
    cases h
  simp [traceContextParseLenient, parseCommon_of_parseWire hlength hzero hparse, hversion]

theorem extract_blockComment (h : traceContextSerialize tc = some wire)
    (htracestate : forall src, tracestate = some src -> 0 ∉ src)
    (hbody : body = pair traceparentKey wire ++ tracestatePair tracestate) (front : List UInt8) :
    locateTrailingBlockComment (front ++ blockComment body) = some body ∧
      sqlcommenterExtractTraceparent (front ++ blockComment body) = some (tc, tracestate) := by
  have hwire := urlEncode_serialize h
  have hnot : forall c, isUnreserved c = false -> c ≠ 37 ∧ c ≠ 44 ∧ c ≠ 61 ∧ c ≠ quote ->
      c ∉ body := fun c hc hne => hbody ▸ not_mem_pairs hwire hc hne
  have hlocate := locate_blockComment (hnot star rfl (by decide)) (hnot slash rfl (by decide)) front
  refine ⟨hlocate, ?_⟩
  unfold sqlcommenterExtractTraceparent
  rw [hlocate, hbody]
  dsimp only [Option.bind_eq_bind, Option.bind_some]
  rw [iterateKvs_pairs hwire]
  have hlenient := traceContextParseLenient_serialize h
  cases tracestate with
  | none => simp [extractVisit, hlenient]
  | some src =>
    have hkeys : tracestateKey ≠ traceparentKey := by decide
    simp [extractVisit, hlenient, cString_eq_self (htracestate src rfl), hkeys]

/-!
## What stays of the text
-/

/-- The text, or what is around its trailing comment if that names a trace. -/
def statement (sql : List UInt8) : List UInt8 :=
  match locateTrailingBlockComment sql with
  | none => sql
  | some body =>
    if traceparents sql = [] then sql else beforeComment sql body ++ sql.rtakeWhile isTrailer

/-- A trailing comment looks like one with a trace exactly if it is one, and then nothing follows
but the one blank that goes before the new comment in any case. -/
def Recognized (sql : List UInt8) : Prop :=
  forall body, body ∈ locateTrailingBlockComment sql ->
    (looksLikeSc (trim body) = true <-> traceparents sql ≠ []) ∧
      (traceparents sql ≠ [] -> sql.rtakeWhile isTrailer = [] ∨
        sql.rtakeWhile isTrailer = [32] ∧ beforeComment sql body ≠ [])

/-- What the new comment follows is the text and at most one blank. -/
def Spaced (base text : List UInt8) : Prop :=
  exists gap, (gap = [] ∨ gap = [32]) ∧ separated base = text ++ gap

theorem spaced_self (base : List UInt8) : Spaced base base := by
  unfold Spaced separated
  split
  · exact ⟨[], .inl rfl, (append_nil base).symm⟩
  · split
    · exact ⟨[], .inl rfl, (append_nil base).symm⟩
    · exact ⟨[32], .inr rfl, rfl⟩

theorem Spaced.length_le {base text : List UInt8} (h : Spaced base text) :
    base.length ≤ text.length + 1 ∧ text.length ≤ base.length + 1 := by
  rcases h with ⟨gap, hgap, htext⟩
  rcases spaced_self base with ⟨gap', hgap', hbase⟩
  have hlength := congrArg length (hbase.symm.trans htext)
  rcases hgap with rfl | rfl <;> rcases hgap' with rfl | rfl <;> simp at hlength <;> omega

theorem length_beforeComment {sql : List UInt8} (h : locateTrailingBlockComment sql = some body) :
    (beforeComment sql body ++ sql.rtakeWhile isTrailer).length + 4 ≤ sql.length := by
  have hsplit := congrArg length (rdropWhile_append_rtakeWhile (p := isTrailer) (l := sql))
  have hlong : 4 ≤ (sql.rdropWhile isTrailer).length := by
    unfold locateTrailingBlockComment at h
    split at h
    next b a before heq =>
      split_ifs at h with hcond
      rw [rdropWhile, length_reverse, heq]
      simpa using hcond.1
    · cases h
  have hbefore : (beforeComment sql body).length ≤
      (sql.rdropWhile isTrailer).length - (body.length + 4) :=
    ( rdropWhile_prefix _ _).length_le.trans (length_take_le _ _)
  rw [length_append] at hsplit ⊢
  omega

theorem spaced_beforeComment_iff {sql : List UInt8} (trailer : List UInt8) :
    Spaced (beforeComment sql body) (beforeComment sql body ++ trailer) <->
      trailer = [] ∨ trailer = [32] ∧ beforeComment sql body ≠ [] := by
  by_cases hnil : beforeComment sql body = []
  · simp [Spaced, separated, hnil]
  · have hlast : isBlank ((beforeComment sql body).getLast hnil) = false :=
      Bool.not_eq_true _ ▸ rdropWhile_last_not _ _ hnil
    simp only [Spaced, separated, getLast?_eq_some_getLast hnil, hlast, append_assoc,
      append_cancel_left_eq, singleton_eq_append_iff, Bool.false_eq_true, if_false]
    simp [or_and_right, exists_or, hnil, or_comm]

theorem spaced_strip_iff (sql : List UInt8) :
    Spaced (stripTrailingBlock sql) (statement sql) <-> Recognized sql := by
  unfold stripTrailingBlock statement Recognized
  cases hlocate : locateTrailingBlockComment sql with
  | none => exact iff_of_true (spaced_self sql) (by simp)
  | some body =>
    have hlength := length_beforeComment hlocate
    rw [length_append] at hlength
    simp only [Option.mem_some, forall_eq']
    by_cases hlooks : looksLikeSc (trim body) = true <;> by_cases hnone : traceparents sql = []
    · refine iff_of_false (fun h => ?_) (fun h => h.1.mp hlooks hnone)
      rw [if_pos hlooks, if_pos hnone] at h
      have hle := h.length_le
      omega
    · simp [hlooks, hnone, spaced_beforeComment_iff]
    · simp [hlooks, hnone, spaced_self]
    · refine iff_of_false (fun h => ?_) (fun h => hlooks (h.1.mpr hnone))
      rw [if_neg hlooks, if_neg hnone] at h
      have hle := h.length_le
      rw [length_append] at hle
      omega

/-- The injection keeps the statement and puts one comment after it, from which the trace
context and the trace state are read back. -/
def Preserves (sql : List UInt8) (tc : TraceContext) (tracestate : Option (List UInt8)) : Prop :=
  exists out gap body, sqlcommenterInjectTraceparent sql tc tracestate = some out ∧
    (gap = [] ∨ gap = [32]) ∧ out = statement sql ++ gap ++ blockComment body ∧
    locateTrailingBlockComment out = some body ∧
    sqlcommenterExtractTraceparent out = some (tc, tracestate)

theorem inject_preserves (sql : List UInt8) (tc : TraceContext) (tracestate : Option (List UInt8))
    (hversion : tc.version = 0) (htracestate : forall src, tracestate = some src -> 0 ∉ src) :
    Preserves sql tc tracestate <-> Recognized sql := by
  obtain ⟨wire, hwire⟩ : exists wire, traceContextSerialize tc = some wire :=
    ⟨_, if_neg (not_not.mpr hversion)⟩
  have hextract := extract_blockComment hwire htracestate rfl
  rw [← spaced_strip_iff, Preserves, sqlcommenterInjectTraceparent, hwire, Option.map_some]
  constructor
  · rintro ⟨out, gap, body, hout, hgap, htext, hbody, -⟩
    cases hout
    cases (hextract _).1.symm.trans hbody
    exact ⟨gap, hgap, append_cancel_right htext⟩
  · rintro ⟨gap, hgap, htext⟩
    exact ⟨_, gap, _, rfl, hgap, by rw [htext], hextract _⟩

def twosTrace : TraceContext :=
  { version := 0, traceId := replicate 16 2, parentId := replicate 8 2, traceFlags := 1,
    traceId_length := rfl, traceId_nonzero := ⟨2, mem_cons_self, by decide⟩,
    parentId_length := rfl, parentId_nonzero := ⟨2, mem_cons_self, by decide⟩ }

theorem inject_preserves_commented :
    Preserves (commented ['0', '1'] ++ [32]) twosTrace (some [quote]) := by
  refine (inject_preserves _ twosTrace (some [quote]) rfl ?_).mpr ?_
  · rintro src ⟨⟩
    decide
  · unfold Recognized
    decide +kernel

def annotated : List UInt8 :=
  ['S', 'E', 'L', 'E', 'C', 'T', ' ', '1', ' ', '/', '*', 'r', 'o', 'u', 't', 'e', '='].map
    Char.toUInt8 ++ [quote, slash, quote, star, slash]

theorem inject_drops_comment :
    statement annotated = annotated ∧
      exists out, sqlcommenterInjectTraceparent annotated twosTrace none = some out ∧
        ¬ annotated <+: out := by
  refine ⟨by decide +kernel, _, rfl, ?_⟩
  decide +kernel

end Pagestream
end OpenNeon

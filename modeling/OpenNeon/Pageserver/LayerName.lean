import OpenNeon.Base.Text
import OpenNeon.Pageserver.Checks

/-!
# The names of layer files

The name of a layer file is the name of the layer, possibly followed by a generation, and
by the version of the naming before that.  Both parsers are tried on a file name.  That of
delta layers takes the generation of an image layer for the end of an LSN range.

File names are ASCII here, so that bytes and characters count alike.
-/

namespace OpenNeon
namespace Pageserver

open Base Text Checks List

def hexField (width : Nat) (s : List Char) : Option (Nat × List Char) :=
  (fromStrRadix (4 * width) (s.take width)).map (fun n => (n, s.drop width))

def Key.fromHex (s : List Char) : Option Key := do
  guard (s.length = 36)
  let (field1, s) ← hexField 2 s
  let (field2, s) ← hexField 8 s
  let (field3, s) ← hexField 8 s
  let (field4, s) ← hexField 8 s
  let (field5, s) ← hexField 2 s
  let (field6, _) ← hexField 8 s
  return ⟨.ofNat field1, .ofNat field2, .ofNat field3, .ofNat field4, .ofNat field5, .ofNat field6⟩

def lsnFromHex (s : List Char) : Option Lsn :=
  fromStrRadix 64 s

/-- The last LSN of a name, without the generation that may follow it. -/
def dropGeneration (s : List Char) : Option (List Char) :=
  match splitOnce ['-'] s with
  | some (lsn, maybeGeneration) =>
    if maybeGeneration.head? = some 'v' then some lsn
    else if maybeGeneration.length = 8 then some lsn
    else none
  | none => some s

def DeltaLayerName.parseStr (fname : List Char) : Option DeltaLayerName := do
  let (keyParts, lsnGenerationParts) ← splitOnce ['_', '_'] fname
  let (keyStartStr, keyEndStr) ← splitOnce ['-'] keyParts
  let (lsnStartStr, lsnEndGenerationParts) ← splitOnce ['-'] lsnGenerationParts
  let lsnEndStr ← dropGeneration lsnEndGenerationParts
  let keyStart ← Key.fromHex keyStartStr
  let keyEnd ← Key.fromHex keyEndStr
  let startLsn ← lsnFromHex lsnStartStr
  let endLsn ← lsnFromHex lsnEndStr
  if endLsn ≤ startLsn then none
  else if keyEnd ≤ keyStart then none
  else return ⟨⟨keyStart, keyEnd⟩, ⟨startLsn, endLsn⟩⟩

namespace ImageLayerName

def parseStr (fname : List Char) : Option ImageLayerName := do
  let (keyParts, lsnGenerationParts) ← splitOnce ['_', '_'] fname
  let (keyStartStr, keyEndStr) ← splitOnce ['-'] keyParts
  let lsnStr ← dropGeneration lsnGenerationParts
  let keyStart ← Key.fromHex keyStartStr
  let keyEnd ← Key.fromHex keyEndStr
  let lsn ← lsnFromHex lsnStr
  return ⟨⟨keyStart, keyEnd⟩, lsn⟩

def display (layer : ImageLayerName) : String :=
  layer.keyRange.start.display ++ "-" ++ layer.keyRange.stop.display ++ "__" ++ hex 16 layer.lsn

end ImageLayerName

namespace LayerName

/-- A text that names no layer, or a panic. -/
inductive FromStrError where
  | neither (value : List Char)
  | unreachable
  deriving DecidableEq

def fromStr (value : List Char) : Except FromStrError LayerName :=
  match DeltaLayerName.parseStr value, ImageLayerName.parseStr value with
  | none, none => .error (.neither value)
  | some layer, none => .ok (.delta layer)
  | none, some layer => .ok (.image layer)
  | some _, some _ => .error .unreachable

def display : LayerName -> String
  | .image layer => layer.display
  | .delta layer => layer.display

end LayerName

/-!
## Reading printed names
-/

section Printed

variable {n w bits : Nat} {c : Char}

theorem numeral_hex (hlt : n < 2 ^ bits) : Numeral bits n (hex w n).toList := by
  rw [hex, String.toList_ofList]
  exact Numeral.padded _ hlt

theorem length_hex (hw : 0 < w) (hlt : n < 16 ^ w) : (hex w n).toList.length = w := by
  have hlength := (Nat.length_toDigits_le_iff (b := 16) (by decide) hw).mpr hlt
  simp only [hex, String.toList_ofList, length_append, length_replicate, length_map]
  omega

theorem hexField_hex (hw : 0 < w) (hlt : n < 16 ^ w) (s : List Char) :
    hexField w ((hex w n).toList ++ s) = some (n, s) := by
  have hlength := length_hex hw hlt
  have hbits : n < 2 ^ (4 * w) := by
    rw [Nat.pow_mul]
    exact hlt
  rw [hexField, take_left' hlength, drop_left' hlength, (numeral_hex hbits).fromStrRadix_eq]
  rfl

theorem not_mem_display (hc : toDigit c = none) (k : Key) : c ∉ k.display.toList := by
  have hhex : forall w n, c ∉ (hex w n).toList :=
    fun w n => (numeral_hex (Nat.lt_two_pow_self (n := n))).not_mem hc
  simp [Key.display, hhex]

theorem fromHex_display (k : Key) : Key.fromHex k.display.toList = some k := by
  have hbyte (x : UInt8) := hexField_hex (w := 2) (by decide) x.toNat_lt
  have hword (x : UInt32) := hexField_hex (w := 8) (by decide) x.toNat_lt
  have hbyteLen (x : UInt8) := length_hex (w := 2) (by decide) x.toNat_lt
  have hwordLen (x : UInt32) := length_hex (w := 8) (by decide) x.toNat_lt
  have hlast := hword k.field6 []
  rw [append_nil] at hlast
  simp only [Key.fromHex, Key.display, String.toList_append, append_assoc, length_append, hbyteLen,
    hwordLen]
  simp [hbyte, hword, hlast]

def keyText (r : Range Key) : List Char :=
  r.start.display.toList ++ '-' :: r.stop.display.toList

theorem splitOnce_keyText (r : Range Key) (lsns : List Char) :
    splitOnce ['_', '_'] (keyText r ++ '_' :: '_' :: lsns) = some (keyText r, lsns) := by
  have hkeys : '_' ∉ keyText r := by
    have hkey := fun k => not_mem_display (c := '_') (by decide) k
    simp [keyText, hkey]
  exact splitOnce_append hkeys lsns

theorem splitOnce_keys (r : Range Key) :
    splitOnce ['-'] (keyText r) = some (r.start.display.toList, r.stop.display.toList) := by
  rw [keyText, splitOnce_char (not_mem_display (by decide) r.start)]

theorem DeltaLayerName.parseStr_keyText (r : Range Key) (lsns : List Char) :
    DeltaLayerName.parseStr (keyText r ++ '_' :: '_' :: lsns) = do
      let (start, parts) ← splitOnce ['-'] lsns
      let stop ← dropGeneration parts
      let startLsn ← lsnFromHex start
      let endLsn ← lsnFromHex stop
      if endLsn ≤ startLsn then none
      else if r.stop ≤ r.start then none
      else return ⟨r, ⟨startLsn, endLsn⟩⟩ := by
  simp [parseStr, splitOnce_keyText, splitOnce_keys, fromHex_display]

theorem ImageLayerName.parseStr_keyText (r : Range Key) (lsns : List Char) :
    ImageLayerName.parseStr (keyText r ++ '_' :: '_' :: lsns) = do
      let lsnStr ← dropGeneration lsns
      let lsn ← lsnFromHex lsnStr
      return ⟨r, lsn⟩ := by
  simp [parseStr, splitOnce_keyText, splitOnce_keys, fromHex_display]

end Printed

/-!
## Reading the names of files
-/

/-- What follows the name of the layer in the name of a file. -/
inductive Suffix where
  | bare
  | generation (digits : List Char)
  | versioned (digits : List Char)

namespace Suffix

def text : Suffix -> List Char
  | bare => []
  | generation digits => '-' :: digits
  | versioned digits => '-' :: 'v' :: '1' :: '-' :: digits

/-- A generation has eight digits. -/
def Proper : Suffix -> Prop
  | bare => True
  | generation digits | versioned digits => digits.length = 8 ∧ exists n, Numeral 64 n digits

end Suffix

theorem dropGeneration_dash {lsn : List Char} (h : '-' ∉ lsn) (generation : List Char) :
    dropGeneration (lsn ++ '-' :: generation) =
      if generation.head? = some 'v' ∨ generation.length = 8 then some lsn else none := by
  rw [dropGeneration, splitOnce_char h, ite_or]

theorem dropGeneration_suffix {suffix : Suffix} (hsuffix : suffix.Proper) {lsn : List Char}
    (h : '-' ∉ lsn) : dropGeneration (lsn ++ suffix.text) = some lsn := by
  cases suffix with
  | bare => rw [Suffix.text, append_nil, dropGeneration, splitOnce_eq_none h]
  | generation digits => rw [Suffix.text, dropGeneration_dash h, if_pos (.inr hsuffix.1)]
  | versioned digits => rw [Suffix.text, dropGeneration_dash h, if_pos (.inl rfl)]

namespace LayerName

/-- The ranges of the name are not empty, and its LSNs have 64 bits. -/
def Proper : LayerName -> Prop
  | .image layer => layer.keyRange.start < layer.keyRange.stop ∧ layer.lsn < 2 ^ 64
  | .delta layer => layer.keyRange.start < layer.keyRange.stop ∧
    layer.lsnRange.start < layer.lsnRange.stop ∧ layer.lsnRange.stop < 2 ^ 64

/-- The name of an image at a lower LSN than its generation, read as a number. -/
def LooksLikeDelta : LayerName -> Suffix -> Prop
  | .image layer, .generation digits => exists n, Numeral 64 n digits ∧ layer.lsn < n
  | _, _ => False

section

variable {suffix : Suffix} (hsuffix : suffix.Proper)
include hsuffix

theorem fromStr_delta {layer : DeltaLayerName} (hlayer : (LayerName.delta layer).Proper) :
    fromStr ((LayerName.delta layer).display.toList ++ suffix.text) = .ok (.delta layer) := by
  rcases hlayer with ⟨hkeys, hlsns, hstop⟩
  have hfirst := numeral_hex (w := 16) (hlsns.trans hstop)
  have hlast := numeral_hex (w := 16) hstop
  have hdash := hfirst.not_mem (c := '-') (by decide)
  have htext : (LayerName.delta layer).display.toList ++ suffix.text =
      keyText layer.keyRange ++ '_' :: '_' :: ((hex 16 layer.lsnRange.start).toList ++
        '-' :: ((hex 16 layer.lsnRange.stop).toList ++ suffix.text)) := by
    simp [display, DeltaLayerName.display, keyText]
  have hhead : ((hex 16 layer.lsnRange.stop).toList ++ suffix.text).head? ≠ some 'v' := by
    rw [head?_append_of_ne_nil _ hlast.ne_nil]
    intro h
    exact hlast.not_mem (by decide) (mem_of_mem_head? h)
  have hlong : ((hex 16 layer.lsnRange.stop).toList ++ suffix.text).length ≠ 8 := by
    rw [length_append, length_hex (by decide) hstop]
    omega
  have hend := dropGeneration_suffix hsuffix (hlast.not_mem (c := '-') (by decide))
  rw [htext, fromStr, DeltaLayerName.parseStr_keyText, ImageLayerName.parseStr_keyText,
    dropGeneration_dash hdash, if_neg (not_or.mpr ⟨hhead, hlong⟩), splitOnce_char hdash]
  simp [hend, lsnFromHex, hfirst.fromStrRadix_eq, hlast.fromStrRadix_eq, hlsns.not_ge,
    hkeys.not_ge]

theorem fromStr_image_iff {layer : ImageLayerName} (hlayer : (LayerName.image layer).Proper) :
    fromStr ((LayerName.image layer).display.toList ++ suffix.text) = .ok (.image layer) <->
      Not (LooksLikeDelta (.image layer) suffix) := by
  rcases hlayer with ⟨hkeys, hlsn⟩
  have hnumeral := numeral_hex (w := 16) hlsn
  have hdash := hnumeral.not_mem (c := '-') (by decide)
  have htext : (LayerName.image layer).display.toList ++ suffix.text =
      keyText layer.keyRange ++ '_' :: '_' :: ((hex 16 layer.lsn).toList ++ suffix.text) := by
    simp [display, ImageLayerName.display, keyText]
  rw [htext, fromStr, DeltaLayerName.parseStr_keyText, ImageLayerName.parseStr_keyText,
    dropGeneration_suffix hsuffix hdash]
  cases suffix with
  | bare =>
    rw [Suffix.text, append_nil, splitOnce_eq_none hdash]
    simp [lsnFromHex, hnumeral.fromStrRadix_eq, LooksLikeDelta]
  | generation digits =>
    rcases hsuffix with ⟨-, n, hdigits⟩
    have hlooks : LooksLikeDelta (.image layer) (.generation digits) <-> layer.lsn < n := by
      refine ⟨?_, fun hlt => ⟨n, hdigits, hlt⟩⟩
      rintro ⟨m, hm, hlt⟩
      cases hm.value.symm.trans hdigits.value
      exact hlt
    have hnone : splitOnce ['-'] digits = none :=
      splitOnce_eq_none (hdigits.not_mem (by decide))
    rw [Suffix.text, splitOnce_char hdash, hlooks, not_lt]
    by_cases hn : n ≤ layer.lsn <;>
      simp [lsnFromHex, hnumeral.fromStrRadix_eq, dropGeneration, hnone, hdigits.fromStrRadix_eq,
        hn, hkeys.not_ge]
  | versioned digits =>
    have hversion : dropGeneration ('v' :: '1' :: '-' :: digits) = some ['v', '1'] :=
      @dropGeneration_suffix (.generation digits) hsuffix ['v', '1'] (by decide)
    have hrefused : fromStrRadix 64 ['v', '1'] = none := rfl
    rw [Suffix.text, splitOnce_char hdash]
    simp [lsnFromHex, hnumeral.fromStrRadix_eq, hversion, hrefused, LooksLikeDelta]

end

/-- A layer name is read back from the name of its file, unless an image looks like a delta. -/
theorem fromStr_display (name : LayerName) (suffix : Suffix) (hname : name.Proper)
    (hsuffix : suffix.Proper) :
    fromStr (name.display.toList ++ suffix.text) = .ok name <->
      Not (LooksLikeDelta name suffix) := by
  cases name with
  | image layer => exact fromStr_image_iff hsuffix hname
  | delta layer => exact iff_of_true (fromStr_delta hsuffix hname) not_false

def imageAt (lsn : Lsn) : LayerName :=
  .image ⟨⟨⟨0, 0, 0, 0, 0, 0⟩, ⟨1, 0, 0, 0, 0, 0⟩⟩, lsn⟩

theorem fromStr_display_image :
    fromStr ((imageAt 1).display.toList ++ "-00000001".toList) = .ok (imageAt 1) := by
  have hdigits : Numeral 64 1 "00000001".toList := ⟨by decide, by decide⟩
  refine (fromStr_display (imageAt 1) (.generation "00000001".toList)
    ⟨by decide, by decide⟩ ⟨rfl, 1, hdigits⟩).mpr ?_
  rintro ⟨n, hn, hlt⟩
  have heq := Option.some.inj (hn.value.symm.trans hdigits.value)
  exact absurd (heq ▸ hlt) (by decide)

/-- The generation of the image is a greater number than its LSN. -/
theorem fromStr_unreachable :
    (imageAt 0).Proper ∧ (Suffix.generation "00000001".toList).Proper ∧
      fromStr ((imageAt 0).display.toList ++ "-00000001".toList) = .error .unreachable :=
  ⟨⟨by decide, by decide⟩, ⟨rfl, 1, by decide, by decide⟩, by decide +kernel⟩

end LayerName

end Pageserver
end OpenNeon

import OpenNeon.Pageserver.DiskBtree

/-!
# Pages of the on-disk B-tree

A page holds a list of rows, each a key and a value.  Appending a row, cutting
off the common start of the keys, and writing the page out and reading it back
all agree on the rows.
-/

namespace OpenNeon
namespace Pageserver

open Base List UInt8

/-!
## Values
-/

namespace Value

theorem length_bytes (v : Value) : v.bytes.length = VALUE_SZ := rfl

theorem fromSlice_bytes (v : Value) : fromSlice v.bytes = .ok v := rfl

def weigh (b0 b1 b2 b3 b4 : Nat) : Nat :=
  b0 * 2 ^ 32 + b1 * 2 ^ 24 + b2 * 2 ^ 16 + b3 * 2 ^ 8 + b4

theorem or_eq_weigh {b0 b1 b2 b3 b4 : Nat} (h1 : b1 < 256) (h2 : b2 < 256)
    (h3 : b3 < 256) (h4 : b4 < 256) :
    b0 <<< 32 ||| b1 <<< 24 ||| b2 <<< 16 ||| b3 <<< 8 ||| b4 = weigh b0 b1 b2 b3 b4 := by
  simp only [Nat.shiftLeft_eq]
  have e1 : b0 * 2 ^ 32 ||| b1 * 2 ^ 24 = b0 * 2 ^ 32 + b1 * 2 ^ 24 :=
    or_eq_add (i := 32) (by omega) (by omega)
  have e2 : (b0 * 2 ^ 32 + b1 * 2 ^ 24) ||| b2 * 2 ^ 16 = b0 * 2 ^ 32 + b1 * 2 ^ 24 + b2 * 2 ^ 16 :=
    or_eq_add (i := 24) (by omega) (by omega)
  have e3 : (b0 * 2 ^ 32 + b1 * 2 ^ 24 + b2 * 2 ^ 16) ||| b3 * 2 ^ 8 =
      b0 * 2 ^ 32 + b1 * 2 ^ 24 + b2 * 2 ^ 16 + b3 * 2 ^ 8 :=
    or_eq_add (i := 16) (by omega) (by omega)
  rw [e1, e2, e3]
  exact or_eq_add (i := 8) (by omega) (by omega)

theorem toU64_eq (v : Value) :
    v.toU64 = weigh v.b0.toNat v.b1.toNat v.b2.toNat v.b3.toNat v.b4.toNat :=
  or_eq_weigh v.b1.toNat_lt v.b2.toNat_lt v.b3.toNat_lt v.b4.toNat_lt

theorem fromU64_spec {x : Nat} (h : x ≤ MAX_VALUE) : exists v, fromU64 x = .ok v ∧ v.toU64 = x := by
  have hx : x ≤ 0x007fffffffff := h
  refine ⟨_, if_pos hx, ?_⟩
  rw [toU64_eq]
  simp only [toNat_ofNat', weigh]
  omega

theorem toBlknum_fromBlknum {x : Nat} (h : x < 2 ^ 32) : (fromBlknum x).toBlknum = .ok x := by
  have hor := toU64_eq { fromBlknum x with b0 := 0 }
  simp only [toU64, show toNat 0 = 0 from rfl, Nat.zero_shiftLeft, Nat.zero_or] at hor
  refine (if_pos rfl).trans (congrArg _ (hor.trans ?_))
  simp only [fromBlknum, toNat_ofNat', weigh]
  omega

end Value

theorem slice_middle {a b c : List UInt8} {off len : Nat} (hoff : off = a.length)
    (hlen : len = b.length) : slice (a ++ (b ++ c)) off len = .ok b := by
  simp [slice, hoff, hlen]

theorem slice_flatten {size : Nat} {records : List (List UInt8)}
    (h : forall r, r ∈ records -> r.length = size) {i : Nat} {r : List UInt8}
    (hr : records[i]? = some r) :
    slice records.flatten (i * size) size = .ok r := by
  have hi : i < records.length := (List.getElem?_eq_some_iff.mp hr).1
  unfold slice
  rw [if_pos (record_end_le h hi), take_drop_flatten_records h hr]

/-!
## Pages under construction
-/

abbrev Row := List UInt8 × Value

namespace BuildNode

/-- The page holds these rows.  A page with one row is not compressed. -/
structure Holds (keyLen : Nat) (n : BuildNode) (rows : List Row) : Prop where
  count : n.numChildren = rows.length
  nonempty : rows ≠ []
  keyLens : forall r, r ∈ rows -> r.1.length = keyLen
  prefixes : forall r, r ∈ rows -> n.keyPrefix <+: r.1
  suffix : n.keyPrefix.length + n.suffixLen = keyLen
  keys : n.keys = (rows.map (fun r => r.1.drop n.keyPrefix.length)).flatten
  values : n.values = (rows.map (fun r => r.2.bytes)).flatten
  size : n.size = NODE_HDR_SIZE + n.keyPrefix.length + rows.length * (n.suffixLen + VALUE_SZ)
  fits : n.size < NODE_SIZE
  single : rows.length ≤ 1 -> n.keyPrefix = []

section Holds

variable {keyLen : Nat} {n : BuildNode} {rows : List Row}

theorem Holds.suffix_length (h : Holds keyLen n rows) :
    forall s, s ∈ rows.map (fun r => r.1.drop n.keyPrefix.length) ->
      s.length = n.suffixLen := by
  intro s hs
  rcases mem_map.mp hs with ⟨r, hr, rfl⟩
  have hlen := h.keyLens r hr
  have hsuffix := h.suffix
  simp only [length_drop]
  omega

theorem value_length : forall s, s ∈ rows.map (fun r => r.2.bytes) -> s.length = VALUE_SZ := by
  intro s hs
  rcases mem_map.mp hs with ⟨r, _, rfl⟩
  exact Value.length_bytes r.2

theorem Holds.keys_length (h : Holds keyLen n rows) :
    n.keys.length = rows.length * n.suffixLen := by
  rw [h.keys, length_flatten_records h.suffix_length, length_map]

theorem Holds.values_length (h : Holds keyLen n rows) :
    n.values.length = rows.length * VALUE_SZ := by
  rw [h.values, length_flatten_records value_length, length_map]

theorem checkSizes_of (hkeys : n.keys.length = n.numChildren * n.suffixLen)
    (hvalues : n.values.length = n.numChildren * VALUE_SZ) :
    n.checkSizes = .ok () := by
  simp [checkSizes, hkeys, hvalues]

theorem Holds.checkSizes (h : Holds keyLen n rows) : n.checkSizes = .ok () := by
  apply checkSizes_of
  · rw [h.keys_length, h.count]
  · rw [h.values_length, h.count]

variable {key : List UInt8} {r first last : Row}

theorem push_new (hkeyLen : keyLen ≤ 255) (level : UInt8) (hkey : key.length = keyLen)
    (value : Value) :
    exists n', (new level).push key value = .ok (true, n') ∧
      Holds keyLen n' [(key, value)] ∧ n'.level = level := by
  have hroom : Not (NODE_SIZE ≤ NODE_HDR_SIZE + key.length + VALUE_SZ) := by
    simp only [NODE_SIZE, PAGE_SZ, NODE_HDR_SIZE, VALUE_SZ]
    omega
  refine ⟨{ new level with
      numChildren := 1, suffixLen := key.length, keys := key
      values := value.bytes, size := NODE_HDR_SIZE + key.length + VALUE_SZ },
    ?_, ?_, rfl⟩
  · simp [push, new, hroom, checkSizes, Value.length_bytes]
  · constructor
    · rfl
    · simp
    · simpa using hkey
    · simp [new]
    · simpa [new] using hkey
    · simp [new]
    · simp
    · simp only [new, length_nil, length_singleton]
      omega
    · exact not_le.mp hroom
    · simp [new]

theorem Holds.push (h : Holds keyLen n rows) (hkeyLen : keyLen ≤ 255)
    (hkey : key.length = keyLen) (value : Value) :
    (n.push key value = .ok (false, n) ∧ 2 ≤ rows.length) ∨
      exists n', n.push key value = .ok (true, n') ∧
        Holds keyLen n' (rows ++ [(key, value)]) ∧ n'.level = n.level := by
  have hpos : 0 < rows.length := length_pos_iff.mpr h.nonempty
  have hcount : 0 < n.numChildren := by rw [h.count]; exact hpos
  have hsize := h.size
  have hsuffix := h.suffix
  unfold BuildNode.push
  simp only [hcount, true_and, if_true]
  by_cases hprefix : n.keyPrefix <+: key
  · rw [if_neg (not_not.mpr hprefix)]
    by_cases hfull : NODE_SIZE ≤ n.size + n.suffixLen + VALUE_SZ
    · left
      rw [if_pos hfull]
      refine ⟨rfl, ?_⟩
      -- one row alone does not fill a page
      by_contra hfew
      have hone : rows.length = 1 := by omega
      rw [hone] at hsize
      simp only [NODE_HDR_SIZE, VALUE_SZ, NODE_SIZE, PAGE_SZ] at hsize hfull
      omega
    · right
      have hkeys : (n.keys ++ key.drop n.keyPrefix.length).length =
          (n.numChildren + 1) * n.suffixLen := by
        rw [length_append, h.keys_length, h.count, length_drop, Nat.add_mul]
        omega
      have hvalues : (n.values ++ value.bytes).length = (n.numChildren + 1) * VALUE_SZ := by
        rw [length_append, h.values_length, h.count, Value.length_bytes, Nat.add_mul]
        omega
      rw [if_neg hfull, checkSizes_of hkeys hvalues]
      refine ⟨_, rfl, ?_, rfl⟩
      constructor
      · simp [h.count]
      · simp
      · exact forall_mem_concat h.keyLens hkey
      · exact forall_mem_concat h.prefixes hprefix
      · exact hsuffix
      · simp [h.keys]
      · simp [h.values]
      · simp only [length_append, length_singleton, Nat.add_mul]
        omega
      · exact not_le.mp hfull
      · intro hle
        simp only [length_append, length_singleton] at hle
        omega
  · left
    rw [if_pos hprefix]
    refine ⟨rfl, ?_⟩
    by_contra hfew
    rw [h.single (by omega)] at hprefix
    exact hprefix nil_prefix

theorem commonPrefixLen_spec (a b : List UInt8) :
    commonPrefixLen a b ≤ a.length ∧
      a.take (commonPrefixLen a b) = b.take (commonPrefixLen a b) := by
  induction a generalizing b with
  | nil => simp [commonPrefixLen]
  | cons x as ih =>
    cases b with
    | nil => simp [commonPrefixLen]
    | cons y bs =>
      by_cases hxy : x = y
      · simp [commonPrefixLen, hxy, ih bs]
      · simp [commonPrefixLen, hxy]

theorem stripKeys_flatten {suffixLen prefixLen : Nat} (hpos : 0 < suffixLen)
    {suffixes : List (List UInt8)} (h : forall s, s ∈ suffixes -> s.length = suffixLen)
    {fuel : Nat} (hfuel : suffixes.length ≤ fuel) :
    stripKeys suffixLen prefixLen fuel suffixes.flatten =
      (suffixes.map (fun s => s.drop prefixLen)).flatten := by
  induction suffixes generalizing fuel with
  | nil => cases fuel <;> simp [stripKeys]
  | cons s rest ih =>
    have hs := h s (by simp)
    cases fuel with
    | zero => simp at hfuel
    | succ fuel =>
      have hne : s ++ rest.flatten ≠ [] := by
        intro heq
        rw [(append_eq_nil_iff.mp heq).1] at hs
        simp at hs
        omega
      have hrest := ih (fun x hx => h x (by simp [hx])) (Nat.le_of_succ_le_succ hfuel)
      simp only [flatten_cons, stripKeys, if_neg hne, map_cons]
      rw [← hs, take_left, drop_left, hs, hrest]

section

variable (h : Holds keyLen n rows)

include h

theorem Holds.slice_keys {i : Nat} (hr : rows[i]? = some r) :
    slice n.keys (i * n.suffixLen) n.suffixLen = .ok (r.1.drop n.keyPrefix.length) := by
  rw [h.keys]
  apply slice_flatten h.suffix_length
  simp [hr]

theorem Holds.slice_values {i : Nat} (hr : rows[i]? = some r) :
    slice n.values (i * VALUE_SZ) VALUE_SZ = .ok r.2.bytes := by
  rw [h.values]
  apply slice_flatten value_length
  simp [hr]

theorem Holds.firstSuffix (hfirst : rows.head? = some first) :
    n.firstSuffix = .ok (first.1.drop n.keyPrefix.length) := by
  have hslice := h.slice_keys (i := 0) (by rw [← head?_eq_getElem?, hfirst])
  simpa [BuildNode.firstSuffix] using hslice

theorem Holds.lastSuffix (hlast : rows.getLast? = some last) :
    n.lastSuffix = .ok (last.1.drop n.keyPrefix.length) := by
  have hpos : 0 < rows.length := length_pos_iff.mpr h.nonempty
  have hslice := h.slice_keys (i := rows.length - 1) (by rw [← getLast?_eq_getElem?, hlast])
  have hlen : n.keys.length - n.suffixLen = (rows.length - 1) * n.suffixLen := by
    rw [h.keys_length, Nat.sub_mul, Nat.one_mul]
  have hle : n.suffixLen ≤ n.keys.length := by
    rw [h.keys_length]
    exact Nat.le_mul_of_pos_left _ hpos
  unfold BuildNode.lastSuffix
  rw [if_neg (not_lt.mpr hle), hlen]
  exact hslice

theorem Holds.prefix_append_drop (hr : r ∈ rows) :
    n.keyPrefix ++ r.1.drop n.keyPrefix.length = r.1 := by
  rcases h.prefixes r hr with ⟨rest, hrest⟩
  rw [← hrest, drop_left]

end

def Sorted (rows : List Row) : Prop :=
  rows.Pairwise (fun a b => a.1 < b.1)

theorem Sorted.between (h : Sorted rows) (hfirst : rows.head? = some first)
    (hlast : rows.getLast? = some last) (hr : r ∈ rows) : first.1 ≤ r.1 ∧ r.1 ≤ last.1 := by
  constructor
  · rcases head?_eq_some_iff.mp hfirst with ⟨rest, rfl⟩
    rcases mem_cons.mp hr with rfl | hr
    · exact le_refl _
    · exact le_of_lt (rel_of_pairwise_cons h hr)
  · rcases getLast?_eq_some_iff.mp hlast with ⟨front, rfl⟩
    rcases mem_append.mp hr with hr | hr
    · exact le_of_lt ((pairwise_append.mp h).2.2 r hr last (by simp))
    · rw [mem_singleton.mp hr]

theorem Sorted.le_iff (h : Sorted rows) {i j : Nat} {a b : Row} (ha : rows[i]? = some a)
    (hb : rows[j]? = some b) : a.1 ≤ b.1 <-> i ≤ j := by
  rcases List.getElem?_eq_some_iff.mp ha with ⟨hi, rfl⟩
  rcases List.getElem?_eq_some_iff.mp hb with ⟨hj, rfl⟩
  have hlt := pairwise_iff_getElem.mp h
  rcases lt_trichotomy i j with hij | rfl | hij
  · exact iff_of_true (le_of_lt (hlt i j hi hj hij)) (le_of_lt hij)
  · exact iff_of_true (le_refl _) (le_refl _)
  · exact iff_of_false (not_le.mpr (hlt j i hj hi hij)) (not_le.mpr hij)

/-- The page with a number of bytes moved from its keys to the prefix. -/
def strip (n : BuildNode) (prefixLen : Nat) : BuildNode :=
  { n with
    keyPrefix := n.keyPrefix ++ n.keys.take prefixLen
    keys := stripKeys n.suffixLen prefixLen n.keys.length n.keys
    suffixLen := n.suffixLen - prefixLen
    size := n.size - prefixLen * n.numChildren + prefixLen }

section

variable (h : Holds keyLen n rows)

include h

theorem Holds.strip (htwo : 2 ≤ rows.length) {k : Nat} (hpos : 0 < k) (hle : k ≤ n.suffixLen)
    (hprefixes : forall r, r ∈ rows -> n.keyPrefix ++ n.keys.take k <+: r.1) :
    Holds keyLen (n.strip k) rows := by
  have hrowsLe : rows.length * 1 ≤ rows.length * n.suffixLen :=
    Nat.mul_le_mul_left _ (by omega)
  have hsuffixLe : 1 * n.suffixLen ≤ rows.length * n.suffixLen :=
    Nat.mul_le_mul_right _ (by omega)
  have hkeysLen := h.keys_length
  have hsuffix := h.suffix
  have hsize := h.size
  have hfits := h.fits
  have hlen : (n.strip k).keyPrefix.length = n.keyPrefix.length + k := by
    simp only [BuildNode.strip, length_append, length_take]
    omega
  have hsplit : rows.length * (n.suffixLen + VALUE_SZ) =
      k * rows.length + rows.length * (n.suffixLen - k + VALUE_SZ) := by
    obtain ⟨rest, hrest⟩ := Nat.exists_eq_add_of_le hle
    rw [hrest, Nat.add_sub_cancel_left, Nat.add_assoc, Nat.mul_add, Nat.mul_comm rows.length k]
  have hsizeEq : (n.strip k).size = NODE_HDR_SIZE + (n.keyPrefix.length + k) +
      rows.length * (n.suffixLen - k + VALUE_SZ) := by
    simp only [BuildNode.strip, h.count]
    omega
  constructor
  · exact h.count
  · exact h.nonempty
  · exact h.keyLens
  · exact hprefixes
  · rw [hlen]
    simp only [BuildNode.strip]
    omega
  · rw [hlen]
    simp only [BuildNode.strip]
    rw [hkeysLen, h.keys, stripKeys_flatten (by omega) h.suffix_length (by rw [length_map]; omega)]
    simp [Function.comp_def]
  · exact h.values
  · rw [hlen]
    exact hsizeEq
  · have hk : k * 1 ≤ k * rows.length := Nat.mul_le_mul_left _ (by omega)
    omega
  · intro hone
    omega

theorem Holds.common_prefixes (hsorted : Sorted rows)
    (hfirst : rows.head? = some first) (hlast : rows.getLast? = some last) {k : Nat}
    (hle : k ≤ n.suffixLen) (htake : (first.1.drop n.keyPrefix.length).take k =
      (last.1.drop n.keyPrefix.length).take k) :
    forall r, r ∈ rows -> n.keyPrefix ++ n.keys.take k <+: r.1 := by
  have hkeys : n.keys.take k = (first.1.drop n.keyPrefix.length).take k := by
    rcases head?_eq_some_iff.mp hfirst with ⟨rest, hrows⟩
    have hlen := h.suffix_length (first.1.drop n.keyPrefix.length) (by simp [hrows])
    rw [h.keys, hrows, map_cons, flatten_cons, take_append_of_le_length (by omega)]
  have hstart : forall r, r ∈ rows ->
      n.keyPrefix ++ (r.1.drop n.keyPrefix.length).take k <+: r.1 := by
    intro r hr
    have hr' := h.prefix_append_drop hr
    nth_rewrite 2 [← hr']
    exact (prefix_append_right_inj _).mpr (List.take_prefix _ _)
  intro r hr
  have hbetween := hsorted.between hfirst hlast hr
  rw [hkeys]
  apply isPrefix_of_between (hstart first (mem_of_head? hfirst)) _ hbetween.1 hbetween.2
  rw [htake]
  exact hstart last (mem_of_getLast? hlast)

theorem Holds.compress (hsorted : Sorted rows) (htwo : 2 ≤ rows.length) :
    exists b n', n.compress = .ok (b, n') ∧ Holds keyLen n' rows ∧
      n'.level = n.level := by
  obtain ⟨first, hfirst⟩ : exists first, rows.head? = some first :=
    Option.isSome_iff_exists.mp (by simp [h.nonempty])
  obtain ⟨last, hlast⟩ : exists last, rows.getLast? = some last :=
    Option.isSome_iff_exists.mp (by simp [h.nonempty])
  have hspec := commonPrefixLen_spec (first.1.drop n.keyPrefix.length)
    (last.1.drop n.keyPrefix.length)
  have hlen := h.suffix_length (first.1.drop n.keyPrefix.length)
    (mem_map.mpr ⟨first, mem_of_head? hfirst, rfl⟩)
  unfold BuildNode.compress
  rw [h.firstSuffix hfirst, h.lastSuffix hlast]
  simp only [bind, Except.bind]
  generalize commonPrefixLen (first.1.drop n.keyPrefix.length)
    (last.1.drop n.keyPrefix.length) = k at hspec
  rw [hlen] at hspec
  rcases Nat.eq_zero_or_pos k with hzero | hpos
  · rw [if_pos hzero]
    exact ⟨false, n, rfl, h, rfl⟩
  · have hstrip := h.strip htwo hpos hspec.1
      (h.common_prefixes hsorted hfirst hlast hspec.1 hspec.2)
    have hcheck := hstrip.checkSizes
    rw [if_neg (by omega)]
    change exists b n', (Except.bind (n.strip k).checkSizes _) = _ ∧ _
    rw [hcheck]
    exact ⟨true, n.strip k, rfl, hstrip, rfl⟩

theorem Holds.pushCompressed (hsorted : Sorted rows)
    (hkeyLen : keyLen ≤ 255) (hkey : key.length = keyLen) (value : Value) :
    (exists n', DiskBtreeBuilder.pushCompressed n key value = .ok (true, n') ∧
      Holds keyLen n' (rows ++ [(key, value)]) ∧ n'.level = n.level) ∨
      exists n', DiskBtreeBuilder.pushCompressed n key value = .ok (false, n') ∧
        Holds keyLen n' rows ∧ n'.level = n.level ∧ 2 ≤ rows.length := by
  unfold DiskBtreeBuilder.pushCompressed
  rcases h.push hkeyLen hkey value with ⟨hfull, htwo⟩ | ⟨n', hpush, hholds, hlevel⟩
  · rcases h.compress hsorted htwo with ⟨b, n1, hcompress, hholds, hlevel⟩
    simp only [hfull, hcompress, bind, Except.bind]
    cases b with
    | false => exact .inr ⟨n1, rfl, hholds, hlevel, htwo⟩
    | true =>
      rcases hholds.push hkeyLen hkey value with
        ⟨hfull1, _⟩ | ⟨n2, hpush, hholds2, hlevel2⟩
      · exact .inr ⟨n1, hfull1, hholds, hlevel, htwo⟩
      · exact .inl ⟨n2, hpush, hholds2, hlevel2.trans hlevel⟩
  · left
    rw [hpush]
    exact ⟨n', rfl, hholds, hlevel⟩

end

theorem pushCompressed_new (hkeyLen : keyLen ≤ 255) (level : UInt8)
    (hkey : key.length = keyLen) (value : Value) :
    exists n', DiskBtreeBuilder.pushCompressed (new level) key value =
        .ok (true, n') ∧
      Holds keyLen n' [(key, value)] ∧ n'.level = level := by
  rcases push_new hkeyLen level hkey value with ⟨n', hpush, hholds, hlevel⟩
  refine ⟨n', ?_, hholds, hlevel⟩
  unfold DiskBtreeBuilder.pushCompressed
  rw [hpush]
  rfl

theorem startNode_spec (hkeyLen : keyLen ≤ 255) (level : UInt8) (hkey : key.length = keyLen)
    (value : Value) :
    exists n', DiskBtreeBuilder.startNode level key value = .ok n' ∧
      Holds keyLen n' [(key, value)] ∧ n'.level = level := by
  rcases push_new hkeyLen level hkey value with ⟨n', hpush, hholds, hlevel⟩
  refine ⟨n', ?_, hholds, hlevel⟩
  unfold DiskBtreeBuilder.startNode
  rw [hpush]
  rfl

theorem Holds.firstKey (h : Holds keyLen n rows) (hfirst : rows.head? = some first) :
    n.firstKey keyLen = .ok first.1 := by
  have hmem := mem_of_head? hfirst
  have hlen := h.keyLens first hmem
  have hkey := h.prefix_append_drop hmem
  unfold BuildNode.firstKey
  rw [h.firstSuffix hfirst]
  change (if _ = _ then _ else _) = _
  rw [if_pos (by rw [← length_append, hkey, hlen]), hkey]
  rfl

end Holds

end BuildNode

/-!
## Pages on disk
-/

namespace OnDiskNode

structure HasRows (node : OnDiskNode) (rows : List Row) : Prop where
  count : node.numChildren = rows.length
  key : forall {i : Nat} {r : Row}, rows[i]? = some r -> node.key i = .ok r.1
  value : forall {i : Nat} {r : Row}, rows[i]? = some r -> node.value i = .ok r.2

end OnDiskNode

namespace BuildNode

variable {keyLen : Nat} {n : BuildNode} {rows : List Row}

def onDisk (n : BuildNode) : OnDiskNode where
  numChildren := n.numChildren
  level := n.level
  prefixLen := n.keyPrefix.length
  suffixLen := n.suffixLen
  keyPrefix := n.keyPrefix
  keys := n.keys
  values := n.values

theorem Holds.onDisk_hasRows (h : Holds keyLen n rows) : n.onDisk.HasRows rows := by
  constructor
  · exact h.count
  · intro i r hr
    unfold OnDiskNode.key
    rw [show slice n.onDisk.keys (i * n.onDisk.suffixLen) n.onDisk.suffixLen =
      .ok (r.1.drop n.keyPrefix.length) from h.slice_keys hr]
    change Except.ok (n.keyPrefix ++ _) = _
    rw [h.prefix_append_drop (mem_of_getElem? hr)]
  · intro i r hr
    unfold OnDiskNode.value
    rw [show slice n.onDisk.values (i * VALUE_SZ) VALUE_SZ = .ok r.2.bytes from
      h.slice_values hr]
    exact Value.fromSlice_bytes r.2

def header (n : BuildNode) : List UInt8 :=
  [UInt8.ofNat (n.numChildren >>> 8), UInt8.ofNat n.numChildren, n.level,
    UInt8.ofNat n.keyPrefix.length, UInt8.ofNat n.suffixLen]

theorem Holds.numChildren_lt (h : Holds keyLen n rows) : n.numChildren < 65536 := by
  have hsize := h.size
  have hfits := h.fits
  have hle : rows.length * VALUE_SZ ≤ rows.length * (n.suffixLen + VALUE_SZ) :=
    Nat.mul_le_mul_left _ (by omega)
  rw [h.count]
  simp only [VALUE_SZ, NODE_SIZE, PAGE_SZ] at hsize hfits hle
  omega

theorem count_of_bytes {x : Nat} (h : x < 65536) :
    (UInt8.ofNat (x >>> 8)).toNat <<< 8 ||| (UInt8.ofNat x).toNat = x := by
  rw [or_eq_add (i := 8) (by omega) (toNat_lt _)]
  simp only [toNat_ofNat']
  omega

def body (n : BuildNode) : List UInt8 :=
  n.header ++ n.keyPrefix ++ n.keys ++ n.values

theorem Holds.deparse (h : Holds keyLen n rows) (hkeyLen : keyLen ≤ 255)
    (fill : List UInt8) : OnDiskNode.deparse (n.body ++ fill) = .ok n.onDisk := by
  have hsuffix := h.suffix
  have hprefixLen : (UInt8.ofNat n.keyPrefix.length).toNat = n.keyPrefix.length := by
    rw [toNat_ofNat']
    omega
  have hsuffixLen : (UInt8.ofNat n.suffixLen).toNat = n.suffixLen := by
    rw [toNat_ofNat']
    omega
  have hkeys : n.numChildren * n.suffixLen = n.keys.length := by
    rw [h.keys_length, h.count]
  have hvalues : n.numChildren * VALUE_SZ = n.values.length := by
    rw [h.values_length, h.count]
  have hprefixSlice : slice (n.body ++ fill) NODE_HDR_SIZE n.keyPrefix.length =
      .ok n.keyPrefix := by
    simp only [body, append_assoc]
    exact slice_middle rfl rfl
  have hkeysSlice : slice (n.body ++ fill) (NODE_HDR_SIZE + n.keyPrefix.length)
      (n.numChildren * n.suffixLen) = .ok n.keys := by
    simp only [body, append_assoc]
    rw [← append_assoc]
    exact slice_middle (by rw [length_append]; rfl) hkeys
  have hvaluesSlice : slice (n.body ++ fill)
      (NODE_HDR_SIZE + n.keyPrefix.length + n.numChildren * n.suffixLen)
      (n.numChildren * VALUE_SZ) = .ok n.values := by
    rw [body, append_assoc (n.header ++ n.keyPrefix ++ n.keys)]
    exact slice_middle (by rw [length_append, length_append, hkeys]; rfl) hvalues
  unfold OnDiskNode.deparse
  split
  next heq =>
    cases heq
    simp only [hprefixLen, hsuffixLen, count_of_bytes h.numChildren_lt, hprefixSlice, hkeysSlice,
      hvaluesSlice]
    rfl
  next hshort => exact absurd rfl (hshort _ _ _ _ _ _)

theorem Holds.pack (h : Holds keyLen n rows) (hkeyLen : keyLen ≤ 255) :
    exists buf, n.pack = .ok buf ∧ buf.length = PAGE_SZ ∧
      OnDiskNode.deparse buf = .ok n.onDisk := by
  have hpos : 0 < rows.length := length_pos_iff.mpr h.nonempty
  have hfits : n.size < PAGE_SZ := h.fits
  have hlen : n.body.length = n.size := by
    simp only [body, length_append, h.keys_length, h.values_length, h.size, Nat.mul_add]
    simp only [header, length_cons, length_nil, NODE_HDR_SIZE]
    omega
  refine ⟨n.body ++ List.replicate (PAGE_SZ - n.body.length) 0, ?_, ?_, h.deparse hkeyLen _⟩
  · unfold BuildNode.pack
    rw [h.checkSizes]
    change (if n.numChildren = 0 then _ else if n.body.length ≠ n.size then _ else
      if PAGE_SZ < n.body.length then _ else _) = _
    rw [if_neg (by rw [h.count]; omega), if_neg (not_not.mpr hlen),
      if_neg (by rw [hlen]; omega)]
    rfl
  · rw [length_append, length_replicate]
    omega

end BuildNode

/-!
## Search within a page
-/

namespace OnDiskNode

open BuildNode (Sorted)

/-- The index of a key in the rows, or the index at which it would stand. -/
def Located (rows : List Row) (searchKey : List UInt8) : Except Nat Nat -> Prop
  | .ok idx => exists r, rows[idx]? = some r ∧ r.1 = searchKey
  | .error idx => idx ≤ rows.length ∧
      forall i r, rows[i]? = some r ->
        (i < idx -> r.1 < searchKey) ∧ (idx ≤ i -> searchKey < r.1)

variable {node : OnDiskNode} {rows : List Row}

theorem Located.sides {searchKey : List UInt8} {idx i : Nat} {r : Row}
    (h : Located rows searchKey (.error idx)) (hr : rows[i]? = some r) :
    (searchKey ≤ r.1 <-> idx ≤ i) ∧ (r.1 ≤ searchKey <-> i < idx) := by
  rcases lt_or_ge i idx with hi | hi
  · have hlt := (h.2 i r hr).1 hi
    exact ⟨iff_of_false (not_le.mpr hlt) (not_le.mpr hi), iff_of_true (le_of_lt hlt) hi⟩
  · have hlt := (h.2 i r hr).2 hi
    exact ⟨iff_of_true (le_of_lt hlt) hi, iff_of_false (not_le.mpr hlt) (not_lt.mpr hi)⟩

/-- The range between `low` and `high` shrinks around the searched key. -/
theorem binarySearchLoop_spec (h : node.HasRows rows) (hsorted : Sorted rows)
    (searchKey : List UInt8) (fuel : Nat) {low high : Nat} (hfuel : high - low ≤ fuel)
    (hle : low ≤ high) (hhigh : high ≤ rows.length)
    (hbelow : forall i r, rows[i]? = some r -> i < low -> r.1 < searchKey)
    (habove : forall i r, rows[i]? = some r -> high ≤ i -> searchKey < r.1) :
    exists res, node.binarySearchLoop searchKey fuel (high - low) low high = .ok res ∧
      Located rows searchKey res := by
  induction fuel generalizing low high with
  | zero =>
    refine ⟨.error low, rfl, by omega, ?_⟩
    intro i r hr
    exact ⟨hbelow i r hr, fun hi => habove i r hr (by omega)⟩
  | succ fuel ih =>
    by_cases hlt : low < high
    · have hmid : low + (high - low) / 2 < rows.length := by omega
      obtain ⟨r, hr⟩ : exists r, rows[low + (high - low) / 2]? = some r :=
        ⟨_, getElem?_eq_getElem hmid⟩
      simp only [binarySearchLoop, if_pos hlt, h.key hr, bind, Except.bind]
      rcases lt_trichotomy r.1 searchKey with hrs | hrs | hrs
      · rw [if_pos hrs]
        apply ih (by omega) (by omega) hhigh _ habove
        intro i a ha hi
        exact lt_of_le_of_lt ((hsorted.le_iff ha hr).mpr (by omega)) hrs
      · rw [if_neg (by rw [hrs]; exact lt_irrefl _),
          if_neg (by rw [hrs]; exact lt_irrefl _)]
        exact ⟨.ok _, rfl, r, hr, hrs⟩
      · rw [if_neg (lt_asymm hrs), if_pos hrs]
        apply ih (by omega) (by omega) (by omega) hbelow
        intro i a ha hi
        exact lt_of_lt_of_le hrs ((hsorted.le_iff hr ha).mpr hi)
    · refine ⟨.error low, by simp [binarySearchLoop, hlt], by omega, ?_⟩
      intro i r hr
      exact ⟨hbelow i r hr, fun hi => habove i r hr (by omega)⟩

theorem binarySearch_spec (h : node.HasRows rows) (hsorted : Sorted rows) (searchKey : List UInt8) :
    exists res, node.binarySearch searchKey = .ok res ∧
      Located rows searchKey res := by
  unfold binarySearch
  rw [h.count]
  apply binarySearchLoop_spec h hsorted searchKey rows.length (Nat.le_refl _) (Nat.zero_le _)
    (Nat.le_refl _)
  · intro i r _ hi
    omega
  · intro i r hr hi
    have hlt := (List.getElem?_eq_some_iff.mp hr).1
    omega

end OnDiskNode

end Pageserver
end OpenNeon

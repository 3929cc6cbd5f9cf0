import Mathlib.Data.List.Nodup
import OpenNeon.Pageserver.KeyLayout

/-!
# Placement of keys on shards

A tenant's keys are spread over its shards.  Relation blocks go to the shard that
a hash of the relation and of the block's stripe selects; every other key, and
the init forks, go to shard zero.  Whatever the hash is, each key has exactly one
shard among all shards of a count.
-/

namespace OpenNeon
namespace Pageserver

open List UInt8

/-- The parameters of one shard; a count of zero is a tenant that is not shard-aware. -/
structure ShardIdentity where
  number : UInt8
  count : UInt8
  stripeSize : UInt32
  valid : number = 0 ∧ count = 0 ∨ number < count
  stripe_ne_zero : stripeSize ≠ 0
  deriving DecidableEq

def DEFAULT_STRIPE_SIZE : UInt32 := 16 * 1024 / 8

def murmurhash32 (h : UInt32) : UInt32 :=
  let h := h ^^^ (h >>> 16)
  let h := h * 0x85ebca6b
  let h := h ^^^ (h >>> 13)
  let h := h * 0xc2b2ae35
  h ^^^ (h >>> 16)

def hashCombine (a b : UInt32) : UInt32 :=
  let b := b + 0x9e3779b9
  let b := b + (a <<< 6)
  let b := b + (a >>> 2)
  a ^^^ b

/-- Keys that are always held on shard zero. -/
def keyIsShard0 (key : Key) : Bool :=
  let isInitfork := key.field5 == INIT_FORKNUM
  !key.isRelBlockKey || isInitfork

def keyToShardNumber (count : UInt8) (stripeSize : UInt32) (key : Key) : UInt8 :=
  if count < 2 || keyIsShard0 key then
    0
  else
    let hash := murmurhash32 key.field4
    let hash := hashCombine hash (murmurhash32 (key.field6 / stripeSize))
    (hash % count.toUInt32).toUInt8

namespace ShardIdentity

def unsharded : ShardIdentity where
  number := 0
  count := 0
  stripeSize := DEFAULT_STRIPE_SIZE
  valid := by decide
  stripe_ne_zero := by decide

variable (s : ShardIdentity)

def isShardZero : Bool :=
  s.number == 0

def getShardNumber (key : Key) : UInt8 :=
  keyToShardNumber s.count s.stripeSize key

def isKeyLocal (key : Key) : Bool :=
  if s.count < 2 || (keyIsShard0 key && s.number == 0) then
    true
  else
    keyToShardNumber s.count s.stripeSize key == s.number

def isKeyGlobal (key : Key) : Bool :=
  if key.isSlruBlockKey || key.isSlruSegmentSizeKey || key.isAuxFileKey || key.isSlruDirKey then
    -- only stored on shard zero
    false
  else if key.isRelBlockKey then false
  else if key.isRelSizeKey then true
  else true

def isKeyDisposable (key : Key) : Bool :=
  if s.count < 2 then false
  else if isKeyGlobal key then false
  else !s.isKeyLocal key

/-!
## Every key has one shard
-/

variable {count : UInt8}

theorem keyToShardNumber_of_count_lt_two (h : count < 2) (stripeSize : UInt32) (key : Key) :
    keyToShardNumber count stripeSize key = 0 := by
  simp [keyToShardNumber, h]

theorem toNat_hash_mod (hash : UInt32) (hcount : 0 < count) :
    (hash % count.toUInt32).toUInt8.toNat = hash.toNat % count.toNat := by
  have hmod : hash.toNat % count.toNat < count.toNat :=
    Nat.mod_lt _ (lt_iff_toNat_lt.mp hcount)
  exact Nat.mod_eq_of_lt (hmod.trans count.toNat_lt)

theorem keyToShardNumber_lt (hcount : 0 < count) (stripeSize : UInt32) (key : Key) :
    keyToShardNumber count stripeSize key < count := by
  unfold keyToShardNumber
  split
  · exact hcount
  · rw [lt_iff_toNat_lt, toNat_hash_mod _ hcount]
    exact Nat.mod_lt _ (lt_iff_toNat_lt.mp hcount)

theorem isKeyLocal_iff (key : Key) :
    s.isKeyLocal key = true <->
      keyToShardNumber s.count s.stripeSize key = s.number := by
  unfold isKeyLocal
  by_cases hcount : s.count < 2
  · have hnumber : s.number = 0 := by
      rcases s.valid with ⟨hzero, _⟩ | hlt
      · exact hzero
      · rw [UInt8.lt_iff_toNat_lt] at hcount hlt
        apply UInt8.toNat_inj.mp
        change s.number.toNat = 0
        change s.count.toNat < 2 at hcount
        omega
    simp [hnumber, keyToShardNumber_of_count_lt_two hcount]
  · by_cases hzero : keyIsShard0 key
    · have hplace : keyToShardNumber s.count s.stripeSize key = 0 := by
        simp [keyToShardNumber, hzero]
      have hiff : (0 : UInt8) = s.number <-> s.number = 0 := eq_comm
      simp [hcount, hplace, hiff]
    · simp [hcount, hzero]

def AllShards (count : UInt8) (stripeSize : UInt32) (shards : List ShardIdentity) : Prop :=
  forall s, s ∈ shards <-> s.count = count ∧ s.stripeSize = stripeSize

theorem existsUnique_isKeyLocal {stripeSize : UInt32} {shards : List ShardIdentity}
    (hcount : 0 < count) (hstripe : stripeSize ≠ 0) (hall : AllShards count stripeSize shards)
    (key : Key) :
    ∃! s, s ∈ shards ∧ s.isKeyLocal key = true := by
  let owner : ShardIdentity :=
    ⟨keyToShardNumber count stripeSize key, count, stripeSize,
      .inr (keyToShardNumber_lt hcount stripeSize key), hstripe⟩
  refine ⟨owner, ⟨(hall owner).mpr ⟨rfl, rfl⟩, (isKeyLocal_iff owner key).mpr rfl⟩, ?_⟩
  rintro ⟨number, c, size, hvalid, hne⟩ ⟨hmem, hlocal⟩
  obtain ⟨rfl, rfl⟩ := (hall _).mp hmem
  have hnumber := (isKeyLocal_iff _ key).mp hlocal
  simp only [owner, mk.injEq, and_true]
  exact hnumber.symm

theorem AllShards.zero_unique {stripeSize : UInt32} {shards : List ShardIdentity}
    (hall : AllShards count stripeSize shards) {s s' : ShardIdentity} (hs : s ∈ shards)
    (hs' : s' ∈ shards) (hzero : s.isShardZero = true) (hzero' : s'.isShardZero = true) :
    s = s' := by
  obtain ⟨number, c, size, _, _⟩ := s
  obtain ⟨number', c', size', _, _⟩ := s'
  obtain ⟨rfl, rfl⟩ := (hall _).mp hs
  obtain ⟨hc, hsize⟩ := (hall _).mp hs'
  simp only [isShardZero, beq_iff_eq] at hzero hzero'
  simp only at hc hsize
  simp [hzero, hzero', hc, hsize]

theorem isKeyDisposable_eq_false_iff (key : Key) :
    s.isKeyDisposable key = false <-> isKeyGlobal key = true ∨ s.isKeyLocal key = true := by
  unfold isKeyDisposable
  by_cases hcount : s.count < 2
  · simp [hcount, isKeyLocal]
  · by_cases hglobal : isKeyGlobal key = true
    · simp [hglobal]
    · simp [hcount, hglobal]

theorem existsUnique_not_disposable (count : UInt8) {stripeSize : UInt32} (hstripe : stripeSize ≠ 0)
    {key : Key} (hglobal : isKeyGlobal key = false) :
    ∃! s : ShardIdentity, s.count = count ∧ s.stripeSize = stripeSize ∧
      s.isKeyDisposable key = false := by
  have hvalid : keyToShardNumber count stripeSize key = 0 ∧ count = 0 ∨
      keyToShardNumber count stripeSize key < count := by
    by_cases hzero : count = 0
    · exact .inl ⟨keyToShardNumber_of_count_lt_two (by rw [hzero]; decide) _ _, hzero⟩
    · exact .inr (keyToShardNumber_lt (UInt8.pos_iff_ne_zero.mpr hzero) _ _)
  refine ⟨⟨_, count, stripeSize, hvalid, hstripe⟩, ⟨rfl, rfl, ?_⟩, ?_⟩
  · exact (isKeyDisposable_eq_false_iff _ key).mpr (.inr ((isKeyLocal_iff _ key).mpr rfl))
  · rintro ⟨number, c, size, hv, hne⟩ ⟨rfl, rfl, hkept⟩
    rcases (isKeyDisposable_eq_false_iff _ key).mp hkept with hyes | hlocal
    · rw [hglobal] at hyes
      cases hyes
    · simp only [mk.injEq, and_true]
      exact ((isKeyLocal_iff _ key).mp hlocal).symm

theorem isKeyLocal_unsharded (key : Key) : unsharded.isKeyLocal key = true := by
  rw [isKeyLocal_iff]
  exact keyToShardNumber_of_count_lt_two (by decide) _ key

end ShardIdentity

/-!
## Splitting a tenant

Every shard is replaced by those of the new count that have its number modulo the old one.
-/

structure TenantShardId where
  tenantId : Nat
  shardNumber : UInt8
  shardCount : UInt8

namespace TenantShardId

def numbers (count : Nat) : List UInt8 :=
  (List.range count).map UInt8.ofNat

def shards (tenantId : Nat) (count : UInt8) : List TenantShardId :=
  (numbers (max count.toNat 1)).map (fun number => ⟨tenantId, number, count⟩)

def split (id : TenantShardId) (newShardCount : UInt8) : List TenantShardId :=
  let effectiveOldShardCount := max id.shardCount 1
  ((numbers newShardCount.toNat).filter
    (fun shardNumber => shardNumber % effectiveOldShardCount == id.shardNumber)).map
    (fun shardNumber => ⟨id.tenantId, shardNumber, newShardCount⟩)

variable {id child : TenantShardId} {tenantId : Nat} {m n : UInt8}

theorem toNat_max_one (m : UInt8) : (max m 1).toNat = max m.toNat 1 :=
  toNat_max m 1

theorem mem_numbers {count : Nat} (hcount : count < 2 ^ 8) {number : UInt8} :
    number ∈ numbers count <-> number.toNat < count := by
  unfold numbers
  rw [mem_map]
  constructor
  · rintro ⟨i, hi, rfl⟩
    rw [mem_range] at hi
    rw [toNat_ofNat_of_lt' (hi.trans hcount)]
    exact hi
  · intro hlt
    exact ⟨number.toNat, mem_range.mpr hlt, UInt8.ofNat_toNat⟩

theorem nodup_numbers {count : Nat} (hcount : count < 2 ^ 8) : (numbers count).Nodup := by
  refine List.Nodup.map_on (fun i hi j hj h => ?_) nodup_range
  rw [mem_range] at hi hj
  rw [← toNat_ofNat_of_lt' (hi.trans hcount), h, toNat_ofNat_of_lt' (hj.trans hcount)]

theorem max_one_lt (n : UInt8) : max n.toNat 1 < 2 ^ 8 := by
  have hlt := n.toNat_lt
  omega

theorem mem_shards_iff :
    id ∈ shards tenantId n <->
      id.tenantId = tenantId ∧ id.shardNumber.toNat < max n.toNat 1 ∧ id.shardCount = n := by
  obtain ⟨tenant, number, count⟩ := id
  simp only [shards, mem_map, mem_numbers (max_one_lt n), mk.injEq]
  constructor
  · rintro ⟨i, hi, rfl, rfl, rfl⟩
    exact ⟨rfl, hi, rfl⟩
  · rintro ⟨rfl, hlt, rfl⟩
    exact ⟨number, hlt, rfl, rfl, rfl⟩

theorem mem_split_iff :
    child ∈ id.split n <->
      child.tenantId = id.tenantId ∧ child.shardNumber.toNat < n.toNat ∧ child.shardCount = n ∧
        child.shardNumber.toNat % max id.shardCount.toNat 1 = id.shardNumber.toNat := by
  obtain ⟨tenant, number, count⟩ := child
  simp only [split, mem_map, mem_filter, mem_numbers n.toNat_lt, mk.injEq, beq_iff_eq,
    ← UInt8.toNat_inj, UInt8.toNat_mod, toNat_max_one]
  constructor
  · rintro ⟨i, ⟨hi, hmod⟩, rfl, hnumber, hcount⟩
    rw [← hnumber]
    exact ⟨rfl, hi, hcount.symm, hmod⟩
  · rintro ⟨rfl, hlt, hcount, hmod⟩
    exact ⟨number, ⟨hlt, hmod⟩, rfl, rfl, hcount.symm⟩

theorem mk_injective (tenantId : Nat) (n : UInt8) :
    Function.Injective (fun number => (⟨tenantId, number, n⟩ : TenantShardId)) :=
  fun _ _ h => (mk.inj h).2.1

theorem perm_children (tenantId : Nat) (hn : 0 < n) (hdvd : max m.toNat 1 ∣ n.toNat) :
    ((shards tenantId m).flatMap (fun parent => parent.split n)).Perm (shards tenantId n) := by
  have hpos : 0 < n.toNat := lt_iff_toNat_lt.mp hn
  refine (perm_ext_iff_of_nodup ?_ ?_).mpr (fun child => ?_)
  · refine nodup_flatMap.mpr ⟨fun parent _ => ?_, ?_⟩
    · exact ((nodup_numbers n.toNat_lt).filter _).map (mk_injective _ _)
    · refine ((nodup_numbers (max_one_lt m)).map (mk_injective _ _)).imp_of_mem ?_
      intro a b ha hb hne child hchildA hchildB
      obtain ⟨hta, _, hca⟩ := mem_shards_iff.mp ha
      obtain ⟨htb, _, hcb⟩ := mem_shards_iff.mp hb
      obtain ⟨_, _, _, hmodA⟩ := mem_split_iff.mp hchildA
      obtain ⟨_, _, _, hmodB⟩ := mem_split_iff.mp hchildB
      obtain ⟨tenantA, numberA, countA⟩ := a
      simp only at hta htb hca hcb hmodA hmodB
      subst hta htb hca hcb
      exact hne (by rw [UInt8.toNat_inj.mp (hmodA.symm.trans hmodB)])
  · exact (nodup_numbers (max_one_lt n)).map (mk_injective _ _)
  · rw [mem_flatMap, mem_shards_iff, max_eq_left hpos]
    constructor
    · rintro ⟨parent, hparent, hchild⟩
      obtain ⟨htenant, hlt, hcount, _⟩ := mem_split_iff.mp hchild
      exact ⟨htenant.trans (mem_shards_iff.mp hparent).1, hlt, hcount⟩
    · rintro ⟨htenant, hlt, hcount⟩
      have hmod : child.shardNumber.toNat % max m.toNat 1 < max m.toNat 1 :=
        Nat.mod_lt _ (by omega)
      refine ⟨⟨tenantId, UInt8.ofNat (child.shardNumber.toNat % max m.toNat 1), m⟩, ?_, ?_⟩
      · refine mem_shards_iff.mpr ⟨rfl, ?_, rfl⟩
        rwa [toNat_ofNat_of_lt' (hmod.trans (max_one_lt m))]
      · refine mem_split_iff.mpr ⟨htenant, hlt, hcount, ?_⟩
        rw [toNat_ofNat_of_lt' (hmod.trans (max_one_lt m))]

theorem keyToShardNumber_mod (hn : 0 < n) (hdvd : max m.toNat 1 ∣ n.toNat) (stripeSize : UInt32)
    (key : Key) :
    (keyToShardNumber n stripeSize key).toNat % max m.toNat 1 =
      (keyToShardNumber m stripeSize key).toNat := by
  unfold keyToShardNumber
  by_cases hzero : keyIsShard0 key
  · simp [hzero]
  · by_cases hold : m < 2
    · have hone : max m.toNat 1 = 1 := max_eq_right (Nat.le_of_lt_succ hold)
      simp [hold, hone, Nat.mod_one]
    · have htwo : 2 ≤ m.toNat := not_lt.mp hold
      have hmax : max m.toNat 1 = m.toNat := max_eq_left (by omega)
      have hle : m.toNat ≤ n.toNat := by
        rw [hmax] at hdvd
        exact Nat.le_of_dvd hn hdvd
      have hnew : ¬ n < 2 := not_lt.mpr (htwo.trans hle)
      have hm : 0 < m := Nat.lt_of_lt_of_le Nat.two_pos htwo
      rw [hmax] at hdvd ⊢
      simp only [hold, hnew, hzero, decide_false, Bool.or_self, Bool.false_eq_true, if_false,
        ShardIdentity.toNat_hash_mod _ hn, ShardIdentity.toNat_hash_mod _ hm]
      exact Nat.mod_mod_of_dvd _ hdvd

/-- After a split a key is on a child of the shard that had it and of no other; the children
are the new shards; and the shards that keep a key are one of them or all. -/
theorem split_keeps_keys_findable (tenantId : Nat) (hn : 0 < n) (hdvd : max m.toNat 1 ∣ n.toNat)
    (stripeSize : UInt32) (key : Key) :
    ⟨tenantId, keyToShardNumber m stripeSize key, m⟩ ∈ shards tenantId m ∧
    (forall parent, parent ∈ shards tenantId m ->
      (⟨tenantId, keyToShardNumber n stripeSize key, n⟩ ∈ parent.split n <->
        parent.shardNumber = keyToShardNumber m stripeSize key)) ∧
    ((shards tenantId m).flatMap (fun parent => parent.split n)).Perm (shards tenantId n) ∧
    forall count : UInt8, stripeSize ≠ 0 ->
      if ShardIdentity.isKeyGlobal key = true then
        forall s : ShardIdentity, s.isKeyDisposable key = false
      else
        ∃! s : ShardIdentity, s.count = count ∧ s.stripeSize = stripeSize ∧
          s.isKeyDisposable key = false := by
  have hmod := keyToShardNumber_mod hn hdvd stripeSize key
  refine ⟨mem_shards_iff.mpr ⟨rfl, ?_, rfl⟩, fun parent hparent => ?_,
    perm_children tenantId hn hdvd, fun count hstripe => ?_⟩
  · rw [← hmod]
    exact Nat.mod_lt _ (by omega)
  · obtain ⟨htenant, _, hcount⟩ := mem_shards_iff.mp hparent
    have hlt := lt_iff_toNat_lt.mp (ShardIdentity.keyToShardNumber_lt hn stripeSize key)
    rw [mem_split_iff, hcount, hmod]
    exact ⟨fun h => UInt8.toNat_inj.mp h.2.2.2.symm, fun h => ⟨htenant.symm, hlt, rfl, by rw [h]⟩⟩
  · split
    next hglobal =>
      exact fun s => (ShardIdentity.isKeyDisposable_eq_false_iff s key).mpr (.inl hglobal)
    next hglobal =>
      exact ShardIdentity.existsUnique_not_disposable count hstripe (by simpa using hglobal)

theorem split_keeps_keys_findable_six :
    ((shards 1 2).flatMap (fun parent => parent.split 6)).Perm (shards 1 6) :=
  (split_keeps_keys_findable 1 (m := 2) (n := 6) (by decide) (by decide) 2048
    ⟨0, 1663, 5, 16384, 0, 7⟩).2.2.1

end TenantShardId

end Pageserver
end OpenNeon

import OpenNeon.Compute.LwLsnCache
import OpenNeon.Pageserver.Shard

/-!
# Where a compute looks for a page

The compute hashes the tag of a buffer to the number of a shard.  The page server places
the key of the page by the same hash, but keeps some keys on shard zero.
-/

namespace OpenNeon
namespace Compute

open Pageserver

/-- The shard map that a backend loads: how many shards, and the blocks of a stripe. -/
structure ShardMap where
  numShards : UInt16
  stripeSize : UInt64

/-- The hash functions of PostgreSQL that the compute is linked with. -/
structure HashFn where
  murmurhash32 : UInt32 -> UInt32
  hashCombine : UInt32 -> UInt32 -> UInt32

/-- They compute what the page server's own versions do. -/
structure HashFn.Matches (fn : HashFn) : Prop where
  murmurhash32 : fn.murmurhash32 = Pageserver.murmurhash32
  hashCombine : fn.hashCombine = Pageserver.hashCombine

def getShardNumber (fn : HashFn) (shardMap : ShardMap) (tag : BufferTag) : UInt16 :=
  let hash := fn.murmurhash32 tag.rel.relNumber
  let hash := fn.hashCombine hash
    (fn.murmurhash32 (tag.blockNum.toUInt64 / shardMap.stripeSize).toUInt32)
  (hash % shardMap.numShards.toUInt32).toUInt16

def bufferTag (rel : RelTag) (blknum : BlockNumber) : BufferTag :=
  { rel :=
      { spcOid := rel.spcnode
        dbOid := rel.dbnode
        relNumber := rel.relnode
        forkNum := rel.forknum.toUInt32 }
    blockNum := blknum }

variable {fn : HashFn} {count : UInt8} {stripeSize : UInt32}

/-- Both sides have the same count of shards and the same stripe size. -/
def shardMapOf (count : UInt8) (stripeSize : UInt32) : ShardMap :=
  ⟨count.toUInt16, stripeSize.toUInt64⟩

theorem stripe_eq (blknum : BlockNumber) (stripeSize : UInt32) :
    (blknum.toUInt64 / stripeSize.toUInt64).toUInt32 = blknum / stripeSize := by
  refine UInt32.toNat_inj.mp ?_
  have hlt := blknum.toNat_lt
  exact Nat.mod_eq_of_lt ((Nat.div_le_self _ _).trans_lt hlt)

/-- The hash of a relation and a stripe of it. -/
def pageHash (stripeSize : UInt32) (rel : RelTag) (blknum : BlockNumber) : UInt32 :=
  hashCombine (murmurhash32 rel.relnode) (murmurhash32 (blknum / stripeSize))

theorem toNat_getShardNumber (hfn : fn.Matches) (hcount : 1 ≤ count) (rel : RelTag)
    (blknum : BlockNumber) :
    (getShardNumber fn (shardMapOf count stripeSize) (bufferTag rel blknum)).toNat =
      (pageHash stripeSize rel blknum).toNat % count.toNat := by
  have hpos : 0 < count.toNat := UInt8.le_iff_toNat_le.mp hcount
  have hlt := count.toNat_lt
  simp only [getShardNumber, shardMapOf, stripe_eq, hfn.murmurhash32, hfn.hashCombine,
    UInt32.toNat_toUInt16, UInt32.toNat_mod]
  exact Nat.mod_eq_of_lt ((Nat.mod_lt _ hpos).trans (by omega))

/-- Both sides agree on a page, unless it is kept on shard zero against its hash. -/
theorem getShardNumber_eq_keyToShardNumber_iff (hfn : fn.Matches) (hcount : 1 ≤ count)
    (rel : RelTag) (blknum : BlockNumber) :
    (getShardNumber fn (shardMapOf count stripeSize) (bufferTag rel blknum)).toNat =
        (keyToShardNumber count stripeSize (relBlockToKey rel blknum)).toNat <->
      rel.forknum ≠ INIT_FORKNUM ∧ rel.relnode ≠ 0 ∧ blknum ≠ 0xffffffff ∨
        count.toNat ∣ (pageHash stripeSize rel blknum).toNat := by
  have hzero : keyIsShard0 (relBlockToKey rel blknum) = false <->
      rel.forknum ≠ INIT_FORKNUM ∧ rel.relnode ≠ 0 ∧ blknum ≠ 0xffffffff := by
    simp [keyIsShard0, relBlockToKey, Key.isRelBlockKey, and_comm]
  have hpos : 0 < count := UInt8.lt_iff_toNat_lt.mpr (UInt8.le_iff_toNat_le.mp hcount)
  rw [← hzero, toNat_getShardNumber hfn hcount, Nat.dvd_iff_mod_eq_zero]
  cases hkey : keyIsShard0 (relBlockToKey rel blknum) with
  | true =>
    have hplace : keyToShardNumber count stripeSize (relBlockToKey rel blknum) = 0 := by
      simp [keyToShardNumber, hkey]
    rw [hplace]
    exact (or_iff_right (by decide)).symm
  | false =>
    refine iff_of_true ?_ (.inl rfl)
    unfold keyToShardNumber
    split
    next hone =>
      have hlt : count < 2 := by simpa [hkey] using hone
      have heq : count.toNat = 1 := le_antisymm (Nat.le_of_lt_succ hlt) hpos
      rw [heq, Nat.mod_one]
      rfl
    · exact (ShardIdentity.toNat_hash_mod _ hpos).symm

def hashfn : HashFn :=
  ⟨murmurhash32, hashCombine⟩

theorem getShardNumber_eq_keyToShardNumber_iff_main :
    hashfn.Matches ∧ (1 : UInt8) ≤ 8 ∧
      (getShardNumber hashfn (shardMapOf 8 2048) (bufferTag ⟨0, 1663, 5, 16384⟩ 7)).toNat =
        (keyToShardNumber 8 2048 (relBlockToKey ⟨0, 1663, 5, 16384⟩ 7)).toNat :=
  ⟨⟨rfl, rfl⟩, by decide,
    (getShardNumber_eq_keyToShardNumber_iff ⟨rfl, rfl⟩ (by decide) _ _).mpr (.inl (by decide))⟩

theorem init_fork_elsewhere :
    hashfn.Matches ∧
      (getShardNumber hashfn (shardMapOf 8 2048)
        (bufferTag ⟨INIT_FORKNUM, 1663, 5, 16384⟩ 0)).toNat ≠
      (keyToShardNumber 8 2048 (relBlockToKey ⟨INIT_FORKNUM, 1663, 5, 16384⟩ 0)).toNat :=
  ⟨⟨rfl, rfl⟩, by decide⟩

end Compute
end OpenNeon

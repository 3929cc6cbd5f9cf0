import OpenNeon.Base.Codec
import OpenNeon.Utils.Lsn

/-!
# Values of the storage engine

A value is a full image of a page or a record that has to be replayed over an
earlier version.  Values are stored in a fixed big-endian format: enumerations by
a four-byte number, byte strings after an eight-byte length.
-/

namespace OpenNeon
namespace WalDecoder

open Base

abbrev TransactionId := UInt32
abbrev MultiXactId := UInt32
abbrev MultiXactOffset := UInt32

structure MultiXactMember where
  xid : TransactionId
  status : UInt32

inductive NeonWalRecord where
  | postgres (willInit : Bool) (rec : List UInt8)
  | clearVisibilityMapFlags (newHeapBlkno oldHeapBlkno : Option UInt32)
      (flags : UInt8)
  | clogSetCommitted (xids : List TransactionId) (timestamp : UInt64)
  | clogSetAborted (xids : List TransactionId)
  | multixactOffsetCreate (mid : MultiXactId) (moff : MultiXactOffset)
  | multixactMembersCreate (moff : MultiXactOffset) (members : List MultiXactMember)
  | auxFile (filePath : List UInt8) (content : Option (List UInt8))
  | truncateVisibilityMap (truncByte truncOffs : UInt64)

namespace NeonWalRecord

/-- Replaying the record needs no earlier version of the page. -/
def willInit : NeonWalRecord -> Bool
  | postgres willInit _ => willInit
  | _ => false

end NeonWalRecord

inductive Value where
  | image (page : List UInt8)
  | walRecord (rec : NeonWalRecord)

/-!
## The storage format
-/

def serU32 (x : UInt32) : List UInt8 :=
  beBytes 4 x.toNat

def serU64 (x : UInt64) : List UInt8 :=
  beBytes 8 x.toNat

def serBytes (bytes : List UInt8) : List UInt8 :=
  beBytes 8 bytes.length ++ bytes

def serOption {alpha : Type} (ser : alpha -> List UInt8) : Option alpha -> List UInt8
  | none => [0]
  | some x => 1 :: ser x

def serVec {alpha : Type} (ser : alpha -> List UInt8) (xs : List alpha) : List UInt8 :=
  beBytes 8 xs.length ++ xs.flatMap ser

def MultiXactMember.ser (m : MultiXactMember) : List UInt8 :=
  serU32 m.xid ++ serU32 m.status

def NeonWalRecord.ser : NeonWalRecord -> List UInt8
  | postgres willInit rec => beBytes 4 0 ++ (if willInit then 1 else 0) :: serBytes rec
  | clearVisibilityMapFlags newHeapBlkno oldHeapBlkno flags =>
    beBytes 4 1 ++ serOption serU32 newHeapBlkno ++ serOption serU32 oldHeapBlkno ++ [flags]
  | clogSetCommitted xids timestamp => beBytes 4 2 ++ serVec serU32 xids ++ serU64 timestamp
  | clogSetAborted xids => beBytes 4 3 ++ serVec serU32 xids
  | multixactOffsetCreate mid moff => beBytes 4 4 ++ serU32 mid ++ serU32 moff
  | multixactMembersCreate moff members =>
    beBytes 4 5 ++ serU32 moff ++ serVec MultiXactMember.ser members
  | auxFile filePath content => beBytes 4 6 ++ serBytes filePath ++ serOption serBytes content
  | truncateVisibilityMap truncByte truncOffs =>
    beBytes 4 7 ++ serU64 truncByte ++ serU64 truncOffs

namespace Value

def willInit : Value -> Bool
  | image _ => true
  | walRecord rec => rec.willInit

def ser : Value -> List UInt8
  | image page => beBytes 4 0 ++ serBytes page
  | walRecord rec => beBytes 4 1 ++ rec.ser

example : (image [0x66, 0x6f]).ser = [0, 0, 0, 0, 0, 0, 0, 0, 0, 0, 0, 2, 0x66, 0x6f] := by
  decide

end Value

end WalDecoder
end OpenNeon

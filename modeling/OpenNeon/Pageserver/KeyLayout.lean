import OpenNeon.Pageserver.Key

/-!
# Layout of the key address space

Relation blocks, relation sizes and the directories that list them share one key
space.  The size of a relation fork is stored under the block number after its
last possible block.
-/

namespace OpenNeon
namespace Pageserver

abbrev Oid := UInt32

abbrev BlockNumber := UInt32

def MAIN_FORKNUM : UInt8 := 0
def FSM_FORKNUM : UInt8 := 1
def VISIBILITYMAP_FORKNUM : UInt8 := 2
def INIT_FORKNUM : UInt8 := 3

structure RelTag where
  forknum : UInt8
  spcnode : Oid
  dbnode : Oid
  relnode : Oid
  deriving DecidableEq

def relBlockToKey (rel : RelTag) (blknum : BlockNumber) : Key :=
  { field1 := 0x00
    field2 := rel.spcnode
    field3 := rel.dbnode
    field4 := rel.relnode
    field5 := rel.forknum
    field6 := blknum }

namespace Key

variable (k : Key)

def isValidKeyOnWritePath : Bool :=
  k.isI128Representable

def isRelBlockKey : Bool :=
  k.field1 == 0x00 && k.field4 != 0 && k.field6 != 0xffffffff

def isRelSizeKey : Bool :=
  k.field1 == 0 && k.field6 == 0xffffffff

def isSlruBlockKey : Bool :=
  k.field1 == 0x01 && k.field3 == 0x00000001 && k.field6 != 0xffffffff

def isSlruSegmentSizeKey : Bool :=
  k.field1 == 0x01 && k.field2 < 0x03 && k.field3 == 0x01 && k.field5 == 0 && k.field6 == 0xffffffff

def isSlruDirKey : Bool :=
  k.field1 == 0x01 && k.field3 == 0 && k.field4 == 0 && k.field5 == 0 && k.field6 == 0

def AUX_KEY_PREFIX : UInt8 := 0x62

def isAuxFileKey : Bool :=
  k.field1 == AUX_KEY_PREFIX

abbrev toCompact : Except Panic Int :=
  k.toI128

end Key

end Pageserver
end OpenNeon

import OpenNeon.Base.Bytes
import OpenNeon.Base.Run

/-!
# The on-disk B-tree

A tree of pages with keys of one length.  It is built in one go from entries in
increasing order: a stack holds one unfinished page for each level, and a page
that is full is written out and linked from the page above it.  The keys of a
page have their common start cut off when the page is full.
-/

namespace OpenNeon
namespace Pageserver

def VALUE_SZ : Nat := 5
def MAX_VALUE : Nat := 0x007fffffffff
def PAGE_SZ : Nat := 8192
def NODE_SIZE : Nat := PAGE_SZ
def NODE_HDR_SIZE : Nat := 2 + 1 + 1 + 1

inductive DiskBtreePanic where
  | valueTooLarge
  | notABlockNumber
  | sliceOutOfRange
  | keysSize
  | valuesSize
  | noChildren
  | nodeSize
  | pageSize
  | emptyStack
  deriving DecidableEq

inductive DiskBtreeError where
  | appendOverflow (value : Nat)
  | unsortedInput (key lastKey : List UInt8)
  | failedToPushToNewLeafNode
  | io
  | panic (reason : DiskBtreePanic)
  /-- The traversal has not ended within the given number of steps. -/
  | stillRunning
  deriving DecidableEq

def slice (buf : List UInt8) (off len : Nat) : Except DiskBtreeError (List UInt8) :=
  if off + len ≤ buf.length then .ok ((buf.drop off).take len)
  else .error (.panic .sliceOutOfRange)

/-!
## Values
-/

/-- A value of a leaf, or the block number of a child. -/
structure Value where
  b0 : UInt8
  b1 : UInt8
  b2 : UInt8
  b3 : UInt8
  b4 : UInt8

namespace Value

def bytes (v : Value) : List UInt8 :=
  [v.b0, v.b1, v.b2, v.b3, v.b4]

def fromSlice : List UInt8 -> Except DiskBtreeError Value
  | [b0, b1, b2, b3, b4] => .ok ⟨b0, b1, b2, b3, b4⟩
  | _ => .error (.panic .sliceOutOfRange)

def fromU64 (x : Nat) : Except DiskBtreeError Value :=
  if x ≤ 0x007fffffffff then
    .ok ⟨UInt8.ofNat (x >>> 32), UInt8.ofNat (x >>> 24), UInt8.ofNat (x >>> 16),
      UInt8.ofNat (x >>> 8), UInt8.ofNat x⟩
  else .error (.panic .valueTooLarge)

def fromBlknum (x : Nat) : Value :=
  ⟨0x80, UInt8.ofNat (x >>> 24), UInt8.ofNat (x >>> 16), UInt8.ofNat (x >>> 8), UInt8.ofNat x⟩

def toU64 (v : Value) : Nat :=
  v.b0.toNat <<< 32 ||| v.b1.toNat <<< 24 ||| v.b2.toNat <<< 16 ||| v.b3.toNat <<< 8 ||| v.b4.toNat

def toBlknum (v : Value) : Except DiskBtreeError Nat :=
  if v.b0 = 0x80 then
    .ok (v.b1.toNat <<< 24 ||| v.b2.toNat <<< 16 ||| v.b3.toNat <<< 8 ||| v.b4.toNat)
  else .error (.panic .notABlockNumber)

end Value

/-!
## Pages under construction
-/

structure BuildNode where
  numChildren : Nat
  level : UInt8
  keyPrefix : List UInt8
  suffixLen : Nat
  keys : List UInt8
  values : List UInt8
  size : Nat
  deriving DecidableEq

namespace BuildNode

def new (level : UInt8) : BuildNode :=
  { numChildren := 0
    level := level
    keyPrefix := []
    suffixLen := 0
    keys := []
    values := []
    size := NODE_HDR_SIZE }

variable (n : BuildNode)

def checkSizes : Except DiskBtreeError Unit :=
  if n.keys.length ≠ n.numChildren * n.suffixLen then .error (.panic .keysSize)
  else if n.values.length ≠ n.numChildren * VALUE_SZ then
    .error (.panic .valuesSize)
  else .ok ()

/-- Try to append an entry; the flag tells whether it fitted. -/
def push (key : List UInt8) (value : Value) : Except DiskBtreeError (Bool × BuildNode) :=
  if 0 < n.numChildren ∧ Not (n.keyPrefix <+: key) then .ok (false, n)
  else
    let n1 := if 0 < n.numChildren then n else { n with suffixLen := key.length }
    if NODE_SIZE ≤ n1.size + n1.suffixLen + VALUE_SZ then .ok (false, n1)
    else do
      let n2 := { n1 with
        numChildren := n1.numChildren + 1
        keys := n1.keys ++ key.drop n1.keyPrefix.length
        values := n1.values ++ value.bytes }
      n2.checkSizes
      return (true, { n2 with size := n2.size + n2.suffixLen + VALUE_SZ })

def firstSuffix : Except DiskBtreeError (List UInt8) :=
  slice n.keys 0 n.suffixLen

def lastSuffix : Except DiskBtreeError (List UInt8) :=
  if n.keys.length < n.suffixLen then .error (.panic .sliceOutOfRange)
  else slice n.keys (n.keys.length - n.suffixLen) n.suffixLen

def commonPrefixLen : List UInt8 -> List UInt8 -> Nat
  | a :: as, b :: bs => if a ≠ b then 0 else commonPrefixLen as bs + 1
  | _, _ => 0

/-- Cut a number of bytes off every key; each round takes one key. -/
def stripKeys (suffixLen prefixLen : Nat) : Nat -> List UInt8 -> List UInt8
  | 0, _ => []
  | fuel + 1, keys =>
    if keys = [] then []
    else (keys.take suffixLen).drop prefixLen ++
      stripKeys suffixLen prefixLen fuel (keys.drop suffixLen)

/-- Cut off what all keys start with; the flag tells whether there is anything. -/
def compress : Except DiskBtreeError (Bool × BuildNode) := do
  let firstSuffix <- n.firstSuffix
  let lastSuffix <- n.lastSuffix
  let prefixLen := commonPrefixLen firstSuffix lastSuffix
  if prefixLen = 0 then return (false, n)
  else
    let n1 := { n with
      keyPrefix := n.keyPrefix ++ n.keys.take prefixLen
      keys := stripKeys n.suffixLen prefixLen n.keys.length n.keys
      suffixLen := n.suffixLen - prefixLen
      size := n.size - prefixLen * n.numChildren + prefixLen }
    n1.checkSizes
    return (true, n1)

def pack : Except DiskBtreeError (List UInt8) := do
  n.checkSizes
  if n.numChildren = 0 then throw (.panic .noChildren)
  let buf := [UInt8.ofNat (n.numChildren >>> 8), UInt8.ofNat n.numChildren, n.level,
    UInt8.ofNat n.keyPrefix.length, UInt8.ofNat n.suffixLen] ++ n.keyPrefix ++
    n.keys ++ n.values
  if buf.length ≠ n.size then throw (.panic .nodeSize)
  if PAGE_SZ < buf.length then throw (.panic .pageSize)
  return buf ++ List.replicate (PAGE_SZ - buf.length) 0

def firstKey (keyLen : Nat) (n : BuildNode) : Except DiskBtreeError (List UInt8) := do
  let suffix <- n.firstSuffix
  if n.keyPrefix.length + suffix.length = keyLen then
    return n.keyPrefix ++ suffix
  else throw (.panic .sliceOutOfRange)

end BuildNode

/-!
## The builder
-/

/-- A buffer of blocks; the number of a block is its position in 32 bits. -/
def writeBlk (blocks : List (List UInt8)) (buf : List UInt8) :
    Except DiskBtreeError (Nat × List (List UInt8)) :=
  if buf.length = PAGE_SZ then .ok (blocks.length % 2 ^ 32, blocks ++ [buf])
  else .error (.panic .pageSize)

/-- The unfinished pages from the leaf up to the root. -/
structure DiskBtreeBuilder where
  writer : List (List UInt8)
  stack : List BuildNode
  lastKey : Option (List UInt8)

namespace DiskBtreeBuilder

def new : DiskBtreeBuilder :=
  { writer := [], stack := [BuildNode.new 0], lastKey := none }

/-- Append to a page that has not been compressed yet, compressing it if full. -/
def pushCompressed (last : BuildNode) (key : List UInt8) (value : Value) :
    Except DiskBtreeError (Bool × BuildNode) := do
  let (pushed, last1) <- last.push key value
  if pushed then return (true, last1)
  else
    let (compressed, last2) <- last1.compress
    if compressed then last2.push key value else return (false, last2)

def startNode (level : UInt8) (key : List UInt8) (value : Value) :
    Except DiskBtreeError BuildNode := do
  let (pushed, node) <- (BuildNode.new level).push key value
  if pushed then return node else throw .failedToPushToNewLeafNode

/--
Append an entry to the lowest page of a stack.  A page that is full is written
out and linked from the page above it, and a new page takes its place.  Above
the root this is the first entry of a new root.
-/
def appendInternal (keyLen : Nat) (last : BuildNode) (parents : List BuildNode)
    (writer : List (List UInt8)) (key : List UInt8) (value : Value) :
    Except DiskBtreeError (List BuildNode × List (List UInt8)) := do
  let (pushed, last) <- pushCompressed last key value
  if pushed then return (last :: parents, writer)
  else
    let buf <- last.pack
    let downlinkKey <- last.firstKey keyLen
    let (downlinkPtr, writer) <- writeBlk writer buf
    let (parents, writer) <-
      match parents with
      | [] => do
        let (pushed, root) <- pushCompressed (BuildNode.new (last.level + 1))
          downlinkKey (Value.fromBlknum downlinkPtr)
        if pushed then pure ([root], writer)
        else throw .failedToPushToNewLeafNode
      | parent :: above =>
        appendInternal keyLen parent above writer downlinkKey (Value.fromBlknum downlinkPtr)
    let node <- startNode last.level key value
    return (node :: parents, writer)

def flushNode (keyLen : Nat) (last parent : BuildNode) (above : List BuildNode)
    (writer : List (List UInt8)) :
    Except DiskBtreeError (List BuildNode × List (List UInt8)) := do
  let buf <- last.pack
  let downlinkKey <- last.firstKey keyLen
  let (downlinkPtr, writer) <- writeBlk writer buf
  appendInternal keyLen parent above writer downlinkKey (Value.fromBlknum downlinkPtr)

def append (keyLen : Nat) (b : DiskBtreeBuilder) (key : List UInt8)
    (value : Nat) : Except DiskBtreeError DiskBtreeBuilder := do
  if MAX_VALUE < value then throw (.appendOverflow value)
  match b.lastKey with
  | some lastKey => if key ≤ lastKey then throw (.unsortedInput key lastKey)
  | none => pure ()
  let value <- Value.fromU64 value
  match b.stack with
  | [] => throw (.panic .emptyStack)
  | last :: parents => do
    let (stack, writer) <- appendInternal keyLen last parents b.writer key value
    return { writer := writer, stack := stack, lastKey := some key }

def finishLoop (keyLen : Nat) : Nat -> List BuildNode -> List (List UInt8) ->
    Except DiskBtreeError (BuildNode × List (List UInt8))
  | _, [], _ => .error (.panic .emptyStack)
  | _, [root], writer => .ok (root, writer)
  | 0, _, _ => .error .stillRunning
  | fuel + 1, last :: parent :: above, writer => do
    let (stack, writer) <- flushNode keyLen last parent above writer
    finishLoop keyLen fuel stack writer

/--
Flush everything and return the block number of the root.  A flush takes a level
off the stack, except for one that makes a new root.
-/
def finish (keyLen : Nat) (b : DiskBtreeBuilder) :
    Except DiskBtreeError (Nat × List (List UInt8)) := do
  let (root, writer) <- finishLoop keyLen b.stack.length b.stack b.writer
  let buf <- root.pack
  writeBlk writer buf

def build (keyLen : Nat) (entries : List (List UInt8 × Nat)) :
    Except DiskBtreeError (Nat × List (List UInt8)) := do
  let b <- entries.foldlM (fun b e => append keyLen b e.1 e.2) new
  b.finish keyLen

end DiskBtreeBuilder

/-!
## Pages on disk
-/

structure OnDiskNode where
  numChildren : Nat
  level : UInt8
  prefixLen : Nat
  suffixLen : Nat
  keyPrefix : List UInt8
  keys : List UInt8
  values : List UInt8

namespace OnDiskNode

def deparse (buf : List UInt8) : Except DiskBtreeError OnDiskNode :=
  match buf with
  | n1 :: n0 :: level :: prefixLen :: suffixLen :: _ => do
    let numChildren := n1.toNat <<< 8 ||| n0.toNat
    let prefixOff := NODE_HDR_SIZE
    let keysOff := prefixOff + prefixLen.toNat
    let keysLen := numChildren * suffixLen.toNat
    let valuesOff := keysOff + keysLen
    let valuesLen := numChildren * VALUE_SZ
    let keyPrefix <- slice buf prefixOff prefixLen.toNat
    let keys <- slice buf keysOff keysLen
    let values <- slice buf valuesOff valuesLen
    return {
      numChildren := numChildren
      level := level
      prefixLen := prefixLen.toNat
      suffixLen := suffixLen.toNat
      keyPrefix := keyPrefix
      keys := keys
      values := values }
  | _ => .error .io

def key (n : OnDiskNode) (idx : Nat) : Except DiskBtreeError (List UInt8) := do
  let suffix <- slice n.keys (idx * n.suffixLen) n.suffixLen
  return n.keyPrefix ++ suffix

def value (n : OnDiskNode) (idx : Nat) : Except DiskBtreeError Value := do
  let valueSlice <- slice n.values (idx * VALUE_SZ) VALUE_SZ
  Value.fromSlice valueSlice

/-- The loop of the binary search; a round halves the range. -/
def binarySearchLoop (n : OnDiskNode) (searchKey : List UInt8) :
    Nat -> Nat -> Nat -> Nat -> Except DiskBtreeError (Except Nat Nat)
  | 0, _, low, _ => .ok (.error low)
  | fuel + 1, size, low, high =>
    if low < high then do
      let mid := low + size / 2
      let key <- n.key mid
      if key < searchKey then
        binarySearchLoop n searchKey fuel (high - (mid + 1)) (mid + 1) high
      else if searchKey < key then
        binarySearchLoop n searchKey fuel (mid - low) low mid
      else return .ok mid
    else .ok (.error low)

def binarySearch (n : OnDiskNode) (searchKey : List UInt8) :
    Except DiskBtreeError (Except Nat Nat) :=
  binarySearchLoop n searchKey n.numChildren n.numChildren 0 n.numChildren

end OnDiskNode

/-!
## The reader
-/

inductive VisitDirection where
  | forwards
  | backwards

/-- The blocks of a file, where the tree starts in it, and its root. -/
structure DiskBtreeReader where
  startBlk : Nat
  rootBlk : Nat
  reader : List (List UInt8)

namespace DiskBtreeReader

def readNode (r : DiskBtreeReader) (blknum : Nat) : Except DiskBtreeError OnDiskNode :=
  match r.reader[r.startBlk + blknum]? with
  | none => .error .io
  | some buf => do
    let node <- OnDiskNode.deparse buf
    if node.numChildren = 0 then throw (.panic .noChildren)
    return node

section

variable (node : OnDiskNode) (searchKey : List UInt8)

def forwardsStart : Except DiskBtreeError Nat := do
  match <- node.binarySearch searchKey with
  | .ok idx => return idx
  | .error idx => return if node.level = 0 then idx else idx - 1

def backwardsStart : Except DiskBtreeError (Option Nat) := do
  match <- node.binarySearch searchKey with
  | .ok idx => return some idx
  | .error 0 => return none
  | .error (idx + 1) => return some idx

/-- The indexes that a fresh scan of a node visits, in order. -/
def freshIter :
    VisitDirection -> Except DiskBtreeError (Option (List Nat))
  | .forwards => do
    let idx <- forwardsStart node searchKey
    return some (List.range' idx (node.numChildren - idx))
  | .backwards => do
    match <- backwardsStart node searchKey with
    | none => return none
    | some idx => return some (List.range (idx + 1)).reverse

end

section Visit

variable {state : Type}
variable (visitor : state -> List UInt8 -> Nat -> state × Bool)

def visitLeaf (node : OnDiskNode) :
    List Nat -> state -> Except DiskBtreeError (state × Bool)
  | [], s => .ok (s, true)
  | idx :: iter, s => do
    let key <- node.key idx
    let value <- node.value idx
    match visitor s key value.toU64 with
    | (s', true) => visitLeaf node iter s'
    | (s', false) => return (s', false)

/--
The loop of a visit.  The stack holds the nodes to visit, those already begun
with the indexes still to come.
-/
def visitLoop (r : DiskBtreeReader) (searchKey : List UInt8)
    (dir : VisitDirection) : Nat -> List (Nat × Option (List Nat)) -> state ->
      Except DiskBtreeError (state × Bool)
  | _, [], s => .ok (s, true)
  | 0, _ :: _, _ => .error .stillRunning
  | fuel + 1, (nodeBlknum, optIter) :: stack, s => do
    let node <- r.readNode nodeBlknum
    let iter <-
      match optIter with
      | some iter => pure (some iter)
      | none => freshIter node searchKey dir
    match iter with
    | none => return (s, false)
    | some iter =>
      if node.level = 0 then do
        match <- visitLeaf visitor node iter s with
        | (s', true) => visitLoop r searchKey dir fuel stack s'
        | (s', false) => return (s', false)
      else
        match iter with
        | [] => visitLoop r searchKey dir fuel stack s
        | idx :: rest => do
          let value <- node.value idx
          let child <- value.toBlknum
          visitLoop r searchKey dir fuel ((child, none) :: (nodeBlknum, some rest) :: stack) s

/-- Scan the tree from a key, with a limit on the number of nodes taken up. -/
def visit (r : DiskBtreeReader) (fuel : Nat) (searchKey : List UInt8)
    (dir : VisitDirection) (s : state) : Except DiskBtreeError (state × Bool) :=
  visitLoop visitor r searchKey dir fuel [(r.rootBlk, none)] s

end Visit

/-- Remember the value of the first entry if it has the key. -/
def getVisitor (searchKey : List UInt8) (result : Option Nat)
    (key : List UInt8) (value : Nat) : Option Nat × Bool :=
  (if key = searchKey then some value else result, false)

def get (r : DiskBtreeReader) (fuel : Nat) (searchKey : List UInt8) :
    Except DiskBtreeError (Option Nat) := do
  let (result, _) <-
    r.visit (getVisitor searchKey) fuel searchKey .forwards none
  return result

def streamLeaf (node : OnDiskNode) :
    List Nat -> Except DiskBtreeError (List (List UInt8 × Nat))
  | [] => .ok []
  | idx :: iter => do
    let key <- node.key idx
    let value <- node.value idx
    let rest <- streamLeaf node iter
    return (key, value.toU64) :: rest

def streamLoop (r : DiskBtreeReader) (startKey : List UInt8) :
    Nat -> List (Nat × Option (List Nat)) -> List (List UInt8 × Nat) ->
      Except DiskBtreeError (List (List UInt8 × Nat))
  | _, [], yielded => .ok yielded
  | 0, _ :: _, _ => .error .stillRunning
  | fuel + 1, (nodeBlknum, optIter) :: stack, yielded => do
    let node <- r.readNode nodeBlknum
    let iter <-
      match optIter with
      | some iter => pure iter
      | none => do
        let idx <- forwardsStart node startKey
        pure (List.range' idx (node.numChildren - idx))
    if node.level = 0 then do
      let entries <- streamLeaf node iter
      streamLoop r startKey fuel stack (yielded ++ entries)
    else
      match iter with
      | [] => streamLoop r startKey fuel stack yielded
      | idx :: rest => do
        let value <- node.value idx
        let child <- value.toBlknum
        streamLoop r startKey fuel ((child, none) :: (nodeBlknum, some rest) :: stack) yielded

def intoStream (r : DiskBtreeReader) (fuel : Nat) (startKey : List UInt8) :
    Except DiskBtreeError (List (List UInt8 × Nat)) :=
  streamLoop r startKey fuel [(r.rootBlk, none)] []

end DiskBtreeReader
end Pageserver
end OpenNeon

import Mathlib.Data.List.Dedup
import OpenNeon.Pageserver.Datadir.Store
import OpenNeon.WalDecoder.Batch

/-!
# Relations of the data directory

Whether a relation exists and how large it is, and the functions of a modification
that create, extend, truncate and drop relations.  Directories are read in the old
format, one value a database, or in the sparse one, one key a relation, according
to the state of the migration between them.
-/

namespace OpenNeon
namespace Pageserver
namespace Datadir

open Base WalDecoder
open Prog (read onlyIf refuse attempt)

/-!
## Reading
-/

/-- A directory that the caller has already decoded, with its database. -/
abbrev DeserializedReldir := Option ((Oid × Oid) × RelDirectory)

section

variable (s : State) (tag : RelTag) (version : Version)

variable (reldir : DeserializedReldir)

def getRelExistsInReldirV1 : Except WalIngestError Bool :=
  let fetched := (version.get s (.relDir tag.spcnode tag.dbnode)).map
    (fun dir => dir.contains tag)
  match reldir with
  | some (db, dir) =>
    if db = (tag.spcnode, tag.dbnode) then .ok (dir.contains tag) else fetched
  | none => fetched

def getRelExistsInReldirV2 : Except WalIngestError Bool :=
  (State.sparseResult (version.get s (.relTagSparse tag))).map (fun e => e == .existing)

/-- During the migration the sparse directory is only compared with the old one. -/
def getRelExistsInDirectory : Except WalIngestError Bool :=
  match s.tline.relSizeV2Status with
  | .legacy => getRelExistsInReldirV1 s tag version reldir
  | .migrating => getRelExistsInReldirV1 s tag version reldir
  | .migrated =>
    if version.getLsn s < s.tline.relSizeMigratedAt.getD 0 then
      getRelExistsInReldirV1 s tag version reldir
    else
      getRelExistsInReldirV2 s tag version

def getRelExistsUncached : Except WalIngestError Bool := do
  let dbdirs ← version.get s .dbdir
  if dbdirs.contains (tag.spcnode, tag.dbnode) then
    getRelExistsInDirectory s tag version reldir
  else
    .ok false

def getRelExistsInReldir : Except WalIngestError Bool :=
  if tag.relnode = 0 then
    .error .invalidRelnode
  else if (getCachedRelSize s tag version).isSome then
    .ok true
  else
    getRelExistsUncached s tag version reldir

def getRelExists : Except WalIngestError Bool :=
  getRelExistsInReldir s tag version none

end

inductive RelSizeLookup where
  /-- The answer, which is not cached again. -/
  | done (nblocks : Option BlockNumber)
  /-- The value of the size key, for the caches. -/
  | fetched (nblocks : BlockNumber)

def getRelExistsIf (check : Prop) [Decidable check] (s : State) (tag : RelTag)
    (version : Version) (reldir : DeserializedReldir) : Except WalIngestError Bool :=
  if check then getRelExistsInReldir s tag version reldir else .ok true

/-- Reading a size, before the update of the caches; a missing map fork has size zero. -/
def lookupRelSize (s : State) (tag : RelTag) (version : Version)
    (reldir : DeserializedReldir) (allowMissing : Bool) :
    Except WalIngestError RelSizeLookup :=
  if tag.relnode = 0 then
    .error .invalidRelnode
  else
    match getCachedRelSize s tag version with
    | some nblocks => .ok (.done (some nblocks))
    | none => do
      let found ← getRelExistsIf (allowMissing = true) s tag version reldir
      if !found then
        .ok (.done none)
      else
        let mapFound ← getRelExistsIf
          (tag.forknum = FSM_FORKNUM ∨ tag.forknum = VISIBILITYMAP_FORKNUM) s tag version
          reldir
        if !mapFound then
          .ok (.done (some 0))
        else
          (version.get s (.relSize tag)).map .fetched

def getRelSizeInReldir (tag : RelTag) (version : Version) (reldir : DeserializedReldir)
    (allowMissing : Bool) : Op (Option BlockNumber) := do
  match ← read (fun s => lookupRelSize s tag version reldir allowMissing) with
  | .done nblocks => pure nblocks
  | .fetched nblocks => do
    modify (State.updateCachedRelSize tag version nblocks)
    pure (some nblocks)

def getRelSize (tag : RelTag) (version : Version) : Op BlockNumber := do
  match ← getRelSizeInReldir tag version none false with
  | some nblocks => pure nblocks
  | none => throw (.panic .allowMissing)

section

variable (s : State) (spcnode dbnode : Oid) (version : Version)

def listRelsV1 : Except WalIngestError (List RelTag) :=
  (version.get s (.relDir spcnode dbnode)).map
    (fun dir => dir.rels.map (fun rel => ⟨rel.2, spcnode, dbnode, rel.1⟩))

/-- A scan of the sparse directory, which does not see the modification. -/
def listRelsV2 : Except WalIngestError (List RelTag) := do
  let _ ← toCompact ⟨REL_DIR_KEY_PREFIX, spcnode, dbnode, 0, 0, 0⟩
  .ok (s.sparseRels.dedup.filter (fun rel =>
    rel.spcnode == spcnode && rel.dbnode == dbnode &&
      versionAt (s.tline.metadata (.relTagSparse rel)) (version.getLsn s) == some .existing))

def listRels : Except WalIngestError (List RelTag) :=
  match s.tline.relSizeV2Status with
  | .legacy => listRelsV1 s spcnode dbnode version
  | .migrating => listRelsV1 s spcnode dbnode version
  | .migrated =>
    if version.getLsn s < s.tline.relSizeMigratedAt.getD 0 then
      listRelsV1 s spcnode dbnode version
    else
      listRelsV2 s spcnode dbnode version

end

def addRelSize (version : Version) (reldir : DeserializedReldir) (total : Nat)
    (rel : RelTag) : Op Nat := do
  match ← getRelSizeInReldir rel version reldir false with
  | some nblocks => pure (total + nblocks.toNat)
  | none => throw (.panic .allowMissing)

def getDbSize (spcnode dbnode : Oid) (version : Version) : Op Nat := do
  let rels ← read (fun s => listRels s spcnode dbnode version)
  if rels.isEmpty then
    pure 0
  else do
    let reldir ← read (fun s => version.get s (.relDir spcnode dbnode))
    rels.foldlM (addRelSize version (some ((spcnode, dbnode), reldir))) 0

/-!
## Directories
-/

/-- The state of the migration for a write, and whether it has to be initialized first. -/
def maybeEnableRelSizeV2 (s : State) (isCreate : Bool) : RelSizeMigration × Bool :=
  match s.tline.relSizeV2Enabled, s.tline.relSizeV2Status with
  | true, .legacy => (.legacy, isCreate && !s.modification.isImportingPgdata)
  | _, status => (status, false)

variable (rel : RelTag)

def putRelTag (entry : RelDirExists) : Op Unit := do
  put (.relTagSparse rel) entry
  modify (fun s => { s with sparseRels := rel :: s.sparseRels })

def updateRelSizeV2Status (status : RelSizeMigration) (s : State) : State :=
  { s with tline := { s.tline with
      relSizeV2Status := status
      relSizeMigratedAt := some s.modification.lsn } }

def initializeRelSizeV2Keyspace (dbdir : DbDirectory) : Op Unit := do
  dbdir.dbdirs.forM (fun entry => do
    let relDir ← read (fun s => s.get (.relDir entry.1.1 entry.1.2))
    relDir.rels.forM (fun rel =>
      putRelTag ⟨rel.2, entry.1.1, entry.1.2, rel.1⟩ .existing))
  modify (updateRelSizeV2Status .migrating)

def putRelmapFile (spcnode dbnode : Oid) (img : List UInt8) : Op Unit := do
  let dbdir ← read (fun s => s.get .dbdir)
  let old := dbdir.get? (spcnode, dbnode)
  onlyIf (old = none ∨ old = some false) (put .dbdir (dbdir.insert (spcnode, dbnode) true))
  onlyIf (old = none) (put (.relDir spcnode dbnode) RelDirectory.empty)
  put (.relmapFile spcnode dbnode) img

/-- Drop a database.  The sizes of its relations are read before, for the count. -/
def dropDbdir (spcnode dbnode : Oid) : Op Unit := do
  let totalBlocks ← getDbSize spcnode dbnode .modified
  let dir ← read (fun s => s.get .dbdir)
  onlyIf (dir.contains (spcnode, dbnode) = true) (put .dbdir (dir.remove (spcnode, dbnode)))
  modify (State.addNblocks (-totalBlocks))

def relDirForCreation (dbdirExists : Bool) (s : State) : Except WalIngestError RelDirectory :=
  if dbdirExists then s.get (.relDir rel.spcnode rel.dbnode) else .ok RelDirectory.empty

def putRelCreationV1 (dbdirExists : Bool) : Op Unit := do
  let relDir ← read (relDirForCreation rel dbdirExists)
  refuse (relDir.contains rel = true) (.relationAlreadyExists rel)
  put (.relDir rel.spcnode rel.dbnode) (relDir.insert rel)

def putRelCreationV2 : Op Unit := do
  let entry ← read (fun s => State.sparseResult (s.get (.relTagSparse rel)))
  refuse (entry = .existing) (.relationAlreadyExists rel)
  putRelTag rel .existing

/-!
## Sizes
-/

/-- Record that blocks from `old` on were at or beyond the size until now. -/
def State.noteBelow (old : BlockNumber) (s : State) : State :=
  { s with modification := { s.modification with
      belowSince := fun tag blk =>
        if tag = rel ∧ old ≤ blk then s.modification.lsn
        else s.modification.belowSince tag blk } }

def putSize (old nblocks : BlockNumber) : Op Unit := do
  put (.relSize rel) nblocks
  modify (fun s => ((s.setCachedRelSize rel s.modification.lsn nblocks).noteBelow rel
    old).addNblocks (nblocks.toNat - old.toNat))

/-- Enter the database of a relation; whether it was there, and the directory. -/
def enterDbdir : Op (Bool × DbDirectory) := do
  let dbdir ← read (fun s => s.get .dbdir)
  if dbdir.contains (rel.spcnode, rel.dbnode) then
    pure (true, dbdir)
  else do
    let dbdir' := dbdir.insert (rel.spcnode, rel.dbnode) false
    put .dbdir dbdir'
    pure (false, dbdir')

/-- The state of the migration for a creation, once it is initialized where due. -/
def relDirModeForCreation (dbdir : DbDirectory) : Op RelSizeMigration := do
  let mode ← read (fun s => .ok (maybeEnableRelSizeV2 s true))
  if mode.2 then
    match ← attempt (initializeRelSizeV2Keyspace dbdir) with
    | .ok _ => pure .migrating
    | .error _ => pure mode.1
  else
    pure mode.1

def putRelDirEntries (dbdirExists : Bool) (status : RelSizeMigration) : Op Unit := do
  onlyIf (status ≠ .migrated) (putRelCreationV1 rel dbdirExists)
  onlyIf (status ≠ .legacy) (do
    match ← attempt (putRelCreationV2 rel) with
    | .ok _ => pure ()
    | .error e => refuse (status = .migrated) e)

def putRelCreation (nblocks : BlockNumber) : Op Unit := do
  refuse (rel.relnode = 0) (.logicalError "invalid relnode")
  let entered ← enterDbdir rel
  let status ← relDirModeForCreation entered.2
  putRelDirEntries rel entered.1 status
  putSize rel 0 nblocks

def putRelTruncation (nblocks : BlockNumber) : Op Unit := do
  refuse (rel.relnode = 0) .invalidRelnode
  let found ← read (fun s => getRelExists s rel .modified)
  onlyIf (found = true) (do
    let oldSize ← read (fun s => s.get (.relSize rel))
    putSize rel oldSize nblocks)

def putRelExtend (nblocks : BlockNumber) : Op Unit := do
  refuse (rel.relnode = 0) .invalidRelnode
  let oldSize ← read (fun s => s.get (.relSize rel))
  onlyIf (oldSize < nblocks) (putSize rel oldSize nblocks)

/-!
## Drops
-/

abbrev DropRelations := List ((Oid × Oid) × List RelTag)

def dropFromReldir (acc : RelDirectory × Bool) (rel : RelTag) : Op (RelDirectory × Bool) :=
  if acc.1.contains rel then do
    let oldSize ← read (fun s => s.get (.relSize rel))
    modify (fun s => (s.addNblocks (-oldSize.toNat)).removeCachedRelSize rel)
    pure (acc.1.remove rel, true)
  else
    pure acc

variable (dropRelations : DropRelations)

def putRelDropV1 : Op Unit :=
  dropRelations.forM (fun entry => do
    let dir ← read (fun s => s.get (.relDir entry.1.1 entry.1.2))
    let acc ← entry.2.foldlM dropFromReldir (dir, false)
    onlyIf (acc.2 = true) (put (.relDir entry.1.1 entry.1.2) acc.1))

def putRelDropV2 : Op Unit :=
  dropRelations.forM (fun entry =>
    entry.2.forM (fun rel => do
      let tag : RelTag := { rel with spcnode := entry.1.1, dbnode := entry.1.2 }
      let found ← read (fun s => State.sparseResult (s.get (.relTagSparse tag)))
      onlyIf (found = .existing) (putRelTag tag .removed)))

def putRelDrops : Op Unit := do
  let mode ← read (fun s => .ok (maybeEnableRelSizeV2 s false))
  match mode.1 with
  | .legacy => putRelDropV1 dropRelations
  | .migrating => do
    putRelDropV1 dropRelations
    let _ ← attempt (putRelDropV2 dropRelations)
    pure ()
  | .migrated => putRelDropV2 dropRelations

end Datadir
end Pageserver
end OpenNeon

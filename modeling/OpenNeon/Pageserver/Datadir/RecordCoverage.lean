import OpenNeon.Pageserver.Datadir.Coverage

/-!
# The metadata part of a record keeps blocks covered

One lemma for each kind of metadata record.  Truncations and drops make relations
smaller; the records that the ingest itself makes for visibility maps are put on
blocks within the size of the map; a new database gets a copy of every block of the
shard.
-/

namespace OpenNeon
namespace Pageserver
namespace Datadir

open Base WalDecoder RelFileNode
open Prog (Keeps Yields)

variable {blk : BlockNumber} {rel : RelTag} {ingest : WalIngest}

theorem not_lt_succ_of_lt {n : BlockNumber} (h : blk < n) : ¬ n < blk + 1 := by
  rw [UInt32.lt_iff_toNat_lt] at h ⊢
  rw [UInt32.toNat_add, UInt32.toNat_one]
  omega

theorem mem_blockRange {start stop : BlockNumber} :
    blk ∈ blockRange start stop <-> start ≤ blk ∧ blk < stop := by
  unfold blockRange
  rw [List.mem_map, UInt32.le_iff_toNat_le, UInt32.lt_iff_toNat_lt]
  constructor
  · rintro ⟨m, hm, rfl⟩
    have hstop := stop.toNat_lt
    rw [List.mem_range'_1] at hm
    rw [UInt32.toNat_ofNat']
    omega
  · rintro ⟨hge, hlt⟩
    exact ⟨blk.toNat, List.mem_range'_1.mpr (by omega), UInt32.ofNat_toNat⟩

abbrev NoBlocks : RelTag -> BlockNumber -> Prop :=
  fun _ _ => False

variable {rule : CoverRule} {shard : ShardIdentity} {lsn : Lsn} {s : State}

/-!
## Sizes
-/

theorem mid_putRelCreation_zero (h : Mid rule shard lsn NoBlocks s) (rel : RelTag) :
    Yields (putRelCreation rel 0) s (fun _ => Mid rule shard lsn NoBlocks) := by
  refine (yields_putRelCreation rel 0 s).mono ?_
  rintro _ s' ⟨hresized, _⟩
  exact h.shrink hresized (fun blk hlt => absurd hlt UInt32.not_lt_zero) (fun _ => UInt32.le_refl 0)

def OtherSizes (rel : RelTag) (s s' : State) : Prop :=
  forall r, r ≠ rel -> s'.sizeOf r = s.sizeOf r

section

variable (h : Mid rule shard lsn NoBlocks s)
include h

theorem mid_putRelTruncation (rel : RelTag) (n : BlockNumber)
    (hle : rule.rels rel -> s.Known rel -> forall old, s.sizeOf rel = some old -> n ≤ old) :
    Yields (putRelTruncation rel n) s (fun _ s' =>
      Mid rule shard lsn NoBlocks s' ∧ OtherSizes rel s s') := by
  refine (yields_putRelTruncation rel n s).mono ?_
  rintro _ s' (rfl | ⟨hexists, old, hsize, rfl⟩)
  · exact ⟨h, fun _ _ => rfl⟩
  · have hresized := resized_withSize s rel old n
    have hknown := (h.coherent.getRelExists_iff hexists).mp rfl
    refine ⟨h.shrink hresized (fun blk hlt _ => ⟨old, hsize, hlt⟩)
      (fun hrel => hle hrel hknown old hsize), fun r hr => ?_⟩
    rw [hresized.sizes, if_neg hr]

/-!
## Visibility maps
-/

theorem quiet_handleRelExtend {n : BlockNumber}
    (hknown : s.Known rel) (hsize : s.sizeOf rel = some n) (hlt : blk < n) :
    Yields (handleRelExtend shard rel blk) s (fun _ s' =>
      Quiet s s' ∧ forall r, s.Known r -> s'.Known r) := by
  refine (yields_createRelationIfRequired h.coherent rel).bind ?_
  rintro m s' ⟨hmono, ⟨_, hm, hquiet⟩ | ⟨hunknown, _⟩⟩
  · cases hsize.symm.trans hm
    exact Yields.onlyIf (fun hgrow => absurd hgrow (not_lt_succ_of_lt hlt))
      (fun _ => ⟨hquiet, hmono⟩)
  · exact absurd hknown hunknown

theorem Mid.older (hrel : rule.rels rel)
    (hlocal : shard.isKeyLocal (relBlockToKey rel blk) = true) (hbelow : s.Below rel blk) :
    exists v, v ∈ s.versions (blockKey rel blk) ∧ v.1 < s.lsn := by
  rcases h.backed rel blk hrel hlocal hbelow with ⟨v, hv, _, hlt, _⟩ | hfalse
  · exact ⟨v, hv, hlt⟩
  · exact hfalse.elim

theorem mid_putRelWalRecord (rel : RelTag)
    (blk : BlockNumber) (rec : NeonWalRecord)
    (hbase : rule.strict -> exists v, v ∈ s.versions (blockKey rel blk) ∧ v.1 < s.lsn) :
    Yields (putRelWalRecord rel blk rec) s (fun _ s' =>
      Mid rule shard lsn NoBlocks s' ∧ s'.sizeOf = s.sizeOf ∧
        forall r, s.Known r -> s'.Known r) := by
  refine Yields.refuse_bind (fun _ => (yields_putData _ _ s).mono ?_)
  rintro _ s' rfl
  refine ⟨h.putBlock (.inr hbase), rfl, fun r hr => ?_⟩
  exact hr.imp_right (fun hl => { hl with })

end

theorem mem_clearVmRecords {bits : ClearVmBits} {vmSize : BlockNumber}
    {update : BlockNumber × NeonWalRecord} (h : update ∈ clearVmRecords bits vmSize) :
    update.1 < vmSize ∧
      exists blk, (bits.newHeapBlkno = some blk ∨ bits.oldHeapBlkno = some blk) ∧
        update.1 = HEAPBLK_TO_MAPBLOCK blk := by
  have hwithin : forall {blk : Option BlockNumber},
      (forall b, blk = some b -> bits.newHeapBlkno = some b ∨ bits.oldHeapBlkno = some b) ->
      forall page, (blk.map HEAPBLK_TO_MAPBLOCK).filter (fun page => page < vmSize) = some page ->
      page < vmSize ∧ exists b, (bits.newHeapBlkno = some b ∨ bits.oldHeapBlkno = some b) ∧
        page = HEAPBLK_TO_MAPBLOCK b := by
    intro blk hblk page hpage
    rcases Option.filter_eq_some_iff.mp hpage with ⟨hmap, hlt⟩
    rcases Option.map_eq_some_iff.mp hmap with ⟨b, hb, heq⟩
    exact ⟨of_decide_eq_true hlt, b, hblk b hb, heq.symm⟩
  have hnew := hwithin (fun _ => .inl)
  have hold := hwithin (fun _ => .inr)
  unfold clearVmRecords at h
  dsimp only at h
  split at h
  · exact nomatch h
  next page hpage _ =>
    rw [List.mem_singleton] at h
    subst h
    exact hnew page hpage
  next page _ hpage =>
    rw [List.mem_singleton] at h
    subst h
    exact hold page hpage
  next newPage oldPage hnewPage holdPage =>
    split at h
    · rw [List.mem_singleton] at h
      subst h
      exact hnew newPage hnewPage
    · rcases List.mem_cons.mp h with rfl | h
      · exact hnew newPage hnewPage
      · rw [List.mem_singleton] at h
        subst h
        exact hold oldPage holdPage

/-- The bits to clear are those of a watched map, on pages of this shard. -/
def VmLocal (rule : CoverRule) (shard : ShardIdentity) (bits : ClearVmBits) : Prop :=
  rule.rels bits.vmRel ∧ forall blk,
    bits.newHeapBlkno = some blk ∨ bits.oldHeapBlkno = some blk ->
    shard.isKeyLocal (relBlockToKey bits.vmRel (HEAPBLK_TO_MAPBLOCK blk)) = true

theorem mid_ingestClearVmBits (h : Mid rule shard lsn NoBlocks s) (bits : ClearVmBits)
    (hvm : rule.strict -> VmLocal rule shard bits) :
    Yields (ingestClearVmBits shard bits) s (fun _ => Mid rule shard lsn NoBlocks) := by
  refine (yields_getRelsize h.coherent bits.vmRel).bind ?_
  rintro res s1 ⟨hquiet, hmono, hres⟩
  cases res with
  | none => exact Yields.pure (h.quiet hquiet)
  | some vmSize =>
    rcases hres vmSize rfl with ⟨hknown, hsize⟩
    -- the size of the map stays while its records are put
    have hround : Yields ((clearVmRecords bits vmSize).forM (fun update =>
        putRelWalRecordExtending shard bits.vmRel update.1 update.2)) s1 (fun _ s' =>
          Mid rule shard lsn NoBlocks s' ∧ s'.Known bits.vmRel ∧
            s'.sizeOf bits.vmRel = some vmSize) := by
      refine Yields.forM ?_ ⟨h.quiet hquiet, hmono _ hknown, ?_⟩
      · rintro update hupdate s2 ⟨hmid, hknown2, hsize2⟩
        rcases mem_clearVmRecords hupdate with ⟨hlt, blk, hblk, hpage⟩
        refine (quiet_handleRelExtend hmid hknown2 hsize2 hlt).bind ?_
        rintro _ s3 ⟨hquiet3, hmono3⟩
        have hmid3 := hmid.quiet hquiet3
        have hsize3 : s3.sizeOf bits.vmRel = some vmSize := by
          rw [hquiet3.sizes]
          exact hsize2
        refine (mid_putRelWalRecord hmid3 bits.vmRel update.1 update.2 ?_).mono ?_
        · intro hstrict
          have hlocal := (hvm hstrict).2 blk hblk
          rw [← hpage] at hlocal
          exact hmid3.older (hvm hstrict).1 hlocal ⟨vmSize, hsize3, hlt⟩
        · rintro _ s4 ⟨hmid4, hsizes4, hmono4⟩
          exact ⟨hmid4, hmono4 _ (hmono3 _ hknown2), by rw [hsizes4]; exact hsize3⟩
      · rw [hquiet.sizes]
        exact hsize
    exact hround.mono (fun _ _ hs => hs.1)

/-!
## Truncation
-/

theorem mid_truncateMap (h : Mid rule shard lsn NoBlocks s) (rel : RelTag) (page : BlockNumber) :
    Yields (truncateMap rel page) s (fun _ s' =>
      Mid rule shard lsn NoBlocks s' ∧ OtherSizes rel s s') := by
  refine (yields_getRelsize h.coherent rel).bind ?_
  rintro res s1 ⟨hquiet, _, hres⟩
  have h1 := h.quiet hquiet
  have hsame : OtherSizes rel s s1 := fun r _ => by rw [hquiet.sizes]
  refine Yields.onlyIf (fun hlt => ?_) (fun _ => ⟨h1, hsame⟩)
  refine (mid_putRelTruncation h1 rel page (fun _ _ old hold => ?_)).mono ?_
  · cases res with
    | none => exact absurd hlt UInt32.not_lt_zero
    | some n =>
      rw [hquiet.sizes] at hold
      cases (hres n rfl).2.symm.trans hold
      exact UInt32.le_of_lt hlt
  · rintro _ s2 ⟨h2, hother⟩
    exact ⟨h2, fun r hr => (hother r hr).trans (hsame r hr)⟩

theorem yields_putRelPageImage (rel : RelTag) (blk : BlockNumber) (img : List UInt8) (s : State) :
    Yields (putRelPageImage rel blk img) s
      (fun _ s' => s' = s.putBlock (blockKey rel blk) (.image img)) :=
  Yields.refuse_bind (fun _ => yields_putPageImage _ img s)

theorem mid_truncateFsm (h : Mid rule shard lsn NoBlocks s) (trunc : XlSmgrTruncate) :
    Yields (truncateFsm shard trunc) s (fun _ s' =>
      Mid rule shard lsn NoBlocks s' ∧ OtherSizes (fork trunc.rnode FSM_FORKNUM) s s') := by
  refine Yields.ite (fun _ => ?_) (fun _ => mid_truncateMap h _ _)
  refine (yields_putRelPageImage _ _ ZERO_PAGE s).bind ?_
  rintro _ s1 rfl
  exact mid_truncateMap (h.putBlock (.inl rfl)) _ _

/-- The last page of the visibility map is cleared by this shard. -/
def ClearsVmTail (shard : ShardIdentity) (trunc : XlSmgrTruncate) : Prop :=
  (vmTruncByte trunc.blkno ≠ 0 ∨ vmTruncOffs trunc.blkno ≠ 0) ∧
    shard.isKeyLocal (relBlockToKey (fork trunc.rnode VISIBILITYMAP_FORKNUM)
      (vmTruncPage trunc.blkno)) = true

/-- The page to clear is below the size of the map, which is watched. -/
def VmTailBelow (rule : CoverRule) (shard : ShardIdentity) (s : State)
    (trunc : XlSmgrTruncate) : Prop :=
  ClearsVmTail shard trunc ->
    rule.rels (fork trunc.rnode VISIBILITYMAP_FORKNUM) ∧
      s.Below (fork trunc.rnode VISIBILITYMAP_FORKNUM) (vmTruncPage trunc.blkno)

theorem mid_truncateVm (h : Mid rule shard lsn NoBlocks s) (trunc : XlSmgrTruncate)
    (hvm : rule.strict -> VmTailBelow rule shard s trunc) :
    Yields (truncateVm shard trunc) s (fun _ => Mid rule shard lsn NoBlocks) := by
  have hcut : forall s1 page, Mid rule shard lsn NoBlocks s1 ->
      Yields (truncateMap (fork trunc.rnode VISIBILITYMAP_FORKNUM) page) s1
        (fun _ => Mid rule shard lsn NoBlocks) :=
    fun s1 page h1 => (mid_truncateMap h1 _ page).mono (fun _ _ h2 => h2.1)
  refine Yields.ite (fun hclears => ?_) (fun _ => hcut s _ h)
  refine (mid_putRelWalRecord h _ _ _ ?_).bind (fun _ s1 h1 => hcut s1 _ h1.1)
  intro hstrict
  rcases hvm hstrict hclears with ⟨hrel, hbelow⟩
  exact h.older hrel hclears.2 hbelow

structure TruncateOk (rule : CoverRule) (shard : ShardIdentity) (s : State)
    (trunc : XlSmgrTruncate) : Prop where
  main_le : trunc.flags &&& SMGR_TRUNCATE_HEAP ≠ 0 ->
    rule.rels (fork trunc.rnode MAIN_FORKNUM) ->
    s.Known (fork trunc.rnode MAIN_FORKNUM) ->
    forall n, s.sizeOf (fork trunc.rnode MAIN_FORKNUM) = some n ->
    trunc.blkno ≤ n
  vm_tail : rule.strict -> trunc.flags &&& SMGR_TRUNCATE_VM ≠ 0 ->
    VmTailBelow rule shard s trunc

theorem mid_ingestXlogSmgrTruncate (h : Mid rule shard lsn NoBlocks s)
    {trunc : XlSmgrTruncate} (hok : TruncateOk rule shard s trunc) :
    Yields (ingestXlogSmgrTruncate shard trunc) s (fun _ => Mid rule shard lsn NoBlocks) := by
  have hfork : forall f, f ≠ VISIBILITYMAP_FORKNUM ->
      fork trunc.rnode VISIBILITYMAP_FORKNUM ≠ fork trunc.rnode f :=
    fun f hne heq => hne (congrArg RelTag.forknum heq).symm
  -- the first two parts leave the size of the visibility map
  have hmain : Yields (Prog.onlyIf (trunc.flags &&& SMGR_TRUNCATE_HEAP ≠ 0)
      (putRelTruncation (fork trunc.rnode MAIN_FORKNUM) trunc.blkno)) s
      (fun _ s' => Mid rule shard lsn NoBlocks s' ∧
        OtherSizes (fork trunc.rnode MAIN_FORKNUM) s s') :=
    Yields.onlyIf (fun hflag => mid_putRelTruncation h _ _ (hok.main_le hflag))
      (fun _ => ⟨h, fun _ _ => rfl⟩)
  refine hmain.bind ?_
  rintro _ s1 ⟨h1, hother1⟩
  have hfsm : Yields (Prog.onlyIf (trunc.flags &&& SMGR_TRUNCATE_FSM ≠ 0)
      (truncateFsm shard trunc)) s1
      (fun _ s' => Mid rule shard lsn NoBlocks s' ∧
        OtherSizes (fork trunc.rnode FSM_FORKNUM) s1 s') :=
    Yields.onlyIf (fun _ => mid_truncateFsm h1 trunc) (fun _ => ⟨h1, fun _ _ => rfl⟩)
  refine hfsm.bind ?_
  rintro _ s2 ⟨h2, hother2⟩
  refine Yields.onlyIf (fun hflag => mid_truncateVm h2 trunc ?_) (fun _ => h2)
  intro hstrict hclears
  rcases hok.vm_tail hstrict hflag hclears with ⟨hrel, n, hsize, hlt⟩
  refine ⟨hrel, n, ?_, hlt⟩
  rw [hother2 _ (hfork FSM_FORKNUM (by decide)), hother1 _ (hfork MAIN_FORKNUM (by decide))]
  exact hsize

/-!
## Databases
-/

/-- Blocks that are not backed have been written by the record itself. -/
abbrev Mended (rule : CoverRule) (shard : ShardIdentity) (lsn : Lsn) (s : State) : Prop :=
  Mid rule shard lsn s.Fresh s

theorem Mid.mended (h : Mid rule shard lsn NoBlocks s) : Mended rule shard lsn s :=
  h.mono (fun _ _ _ hfalse => hfalse.elim)

theorem State.Fresh.congr {s' : State} (h : s.Fresh rel blk)
    (hversions : s'.versions = s.versions) (hlsn : s'.lsn = s.lsn) :
    s'.Fresh rel blk := by
  unfold State.Fresh at h ⊢
  rwa [hversions, hlsn]

theorem State.fresh_putBlock {key : Int} {img : List UInt8}
    (h : s.Fresh rel blk ∨ key = blockKey rel blk) :
    (s.putBlock key (.image img)).Fresh rel blk := by
  unfold State.Fresh
  rw [State.versions_putBlock]
  refine fresh_applyWrites ?_ (h.imp_right (fun hkey => ⟨_, List.mem_singleton_self _, hkey⟩))
  intro w hw _
  rw [List.mem_singleton] at hw
  subst hw
  exact ⟨rfl, rfl⟩

theorem mended_of_quiet {s' : State} (h : Mended rule shard lsn s) (hquiet : Quiet s s') :
    Mended rule shard lsn s' :=
  (Mid.quiet h hquiet).mono (fun _ _ _ hfresh => hfresh.congr hquiet.versions hquiet.lsn)

theorem quiet_getRelPageAtLsn (ingest : WalIngest) (rel : RelTag) (blk : BlockNumber) :
    Keeps Quiet (getRelPageAtLsn ingest rel blk .modified) := by
  refine (Keeps.refuse _).bind (fun _ => (quiet_getRelSize rel).bind (fun n => ?_))
  refine Keeps.ite (Keeps.pure _) ?_
  refine (Keeps.liftExcept _).bind (fun compact s => ?_)
  exact Keeps.ite (Keeps.pure _) (Keeps.throw _) s

theorem isKeyLocal_copy (shard : ShardIdentity) (rel : RelTag) (spcnode dbnode : Oid)
    (blk : BlockNumber) :
    shard.isKeyLocal (relBlockToKey { rel with spcnode := spcnode, dbnode := dbnode } blk) =
      shard.isKeyLocal (relBlockToKey rel blk) :=
  rfl

theorem mended_copyBlocks {src dst : RelTag} (blks : List BlockNumber)
    (hplace : forall blk, ingest.shard.isKeyLocal (relBlockToKey dst blk) =
      ingest.shard.isKeyLocal (relBlockToKey src blk))
    (h : Mid rule ingest.shard lsn (fun r blk => s.Fresh r blk ∨ r = dst ∧ blk ∈ blks) s) :
    Yields (blks.forM (copyBlock ingest src dst)) s (fun _ => Mended rule ingest.shard lsn) := by
  induction blks generalizing s with
  | nil =>
    refine h.mono ?_
    rintro r blk _ (hfresh | ⟨_, hmem⟩)
    · exact hfresh
    · exact nomatch hmem
  | cons blk rest ih =>
    have hcopied : Yields (copyBlock ingest src dst blk) s (fun _ s' =>
        Mid rule ingest.shard lsn (fun r b => s'.Fresh r b ∨ r = dst ∧ b ∈ rest) s') := by
      refine Yields.ite (fun hlocal => ?_) (fun hremote => ?_)
      · refine ((quiet_getRelPageAtLsn ingest src blk).yields s).bind ?_
        intro content s1 hquiet
        refine (yields_putRelPageImage dst blk content s1).mono ?_
        rintro _ s2 rfl
        refine ((h.quiet hquiet).putBlock (.inl rfl)).mono ?_
        rintro r b _ (hfresh | ⟨rfl, hmem⟩)
        · exact .inl (State.fresh_putBlock (.inl (hfresh.congr hquiet.versions hquiet.lsn)))
        · rcases List.mem_cons.mp hmem with rfl | hmem
          · exact .inl (State.fresh_putBlock (.inr rfl))
          · exact .inr ⟨rfl, hmem⟩
      · refine Yields.pure (h.mono ?_)
        rintro r b hlocal (hfresh | ⟨rfl, hmem⟩)
        · exact .inl hfresh
        · rcases List.mem_cons.mp hmem with rfl | hmem
          · rw [hplace] at hlocal
            exact absurd hlocal hremote
          · exact .inr ⟨rfl, hmem⟩
    exact hcopied.bind (fun _ s1 h1 => ih h1)

theorem mended_copyRelation (h : Mended rule ingest.shard lsn s) (dbId tablespaceId : Oid)
    (src : RelTag) :
    Yields (copyRelation ingest dbId tablespaceId src) s
      (fun _ => Mended rule ingest.shard lsn) := by
  refine ((quiet_getRelSize src).yields s).bind (fun n s1 hquiet => ?_)
  have h1 := mended_of_quiet h hquiet
  refine (yields_putRelCreation _ n s1).bind ?_
  rintro _ s2 ⟨hresized, _⟩
  refine mended_copyBlocks _ (isKeyLocal_copy ingest.shard src tablespaceId dbId) ?_
  refine (h1.resize hresized (fun blk hlt => absurd hlt UInt32.not_lt_zero)).mono ?_
  rintro r blk _ (hfresh | ⟨hr, hge, hlt⟩)
  · exact .inl (hfresh.congr hresized.versions hresized.lsn)
  · exact .inr ⟨hr, mem_blockRange.mpr ⟨hge, hlt⟩⟩

theorem mended_ingestXlogDbaseCreate (h : Mid rule ingest.shard lsn NoBlocks s)
    (dbId tablespaceId srcDbId srcTablespaceId : Oid) :
    Yields (ingestXlogDbaseCreate ingest dbId tablespaceId srcDbId srcTablespaceId) s
      (fun _ => Mended rule ingest.shard lsn) := by
  refine Yields.read_bind (fun rels _ => Yields.read_bind (fun filemap _ => ?_))
  refine ((calm_putRelmapFile tablespaceId dbId filemap).yields s).bind (fun _ s1 hcalm => ?_)
  exact Yields.forM (fun src _ s2 h2 => mended_copyRelation h2 dbId tablespaceId src)
    (mended_of_quiet h.mended hcalm.quiet)

theorem mid_of_quiet {m : Op Unit} (h : Mid rule shard lsn NoBlocks s) (hquiet : Keeps Quiet m) :
    Yields m s (fun _ => Mid rule shard lsn NoBlocks) :=
  (hquiet.yields s).mono (fun _ _ hq => h.quiet hq)

theorem mid_ingestXlogDbaseDrop (h : Mid rule shard lsn NoBlocks s) (dbId : Oid)
    (tablespaceIds : List Oid) :
    Yields (ingestXlogDbaseDrop dbId tablespaceIds) s (fun _ => Mid rule shard lsn NoBlocks) :=
  mid_of_quiet h (Keeps.forM (fun spcnode => quiet_dropDbdir spcnode dbId))

/-!
## Transactions and SLRUs
-/

def State.Older (s : State) (key : Int) : Prop :=
  exists v, v ∈ s.versions key ∧ v.1 < s.lsn

theorem State.Older.putBlock {key : Int} (h : s.Older key) (key' : Int)
    (val : WalDecoder.Value) : (s.putBlock key' val).Older key := by
  rcases h with ⟨v, hv, hlt⟩
  refine ⟨v, ?_, hlt⟩
  rw [State.versions_putBlock]
  refine mem_applyWrites_of_ne hv (fun w hw => ?_)
  rw [List.mem_singleton] at hw
  subst hw
  exact (Nat.ne_of_lt hlt).symm

def SlruUpdate.key (u : SlruUpdate) : Int :=
  (slruBlockToKey u.kind u.segno u.rpageno).packI128

/-- The pages that the updates are for have versions on shard zero. -/
def SlruBased (shard : ShardIdentity) (s : State) (updates : List SlruUpdate) : Prop :=
  shard.isShardZero = true -> forall u, u ∈ updates -> s.Older u.key

theorem mid_putSlruUpdates (h : Mid rule shard lsn NoBlocks s) {updates : List SlruUpdate}
    (hbased : rule.strict -> SlruBased shard s updates) :
    Yields (putSlruUpdates updates) s (fun _ => Mid rule shard lsn NoBlocks) := by
  have hround : Yields (putSlruUpdates updates) s (fun _ s' =>
      Mid rule shard lsn NoBlocks s' ∧ (rule.strict -> SlruBased shard s' updates)) := by
    refine Yields.forM ?_ ⟨h, hbased⟩
    rintro u hu s1 ⟨h1, hbased1⟩
    refine Yields.onlyIf (fun hzero => ?_) (fun _ => ⟨h1, hbased1⟩)
    rw [h1.shard_eq] at hzero
    refine (yields_putData _ _ s1).mono ?_
    rintro _ s2 rfl
    refine ⟨h1.putBlock (.inr (fun hstrict => hbased1 hstrict hzero u hu)), ?_⟩
    exact fun hstrict _ u' hu' => (hbased1 hstrict hzero u' hu').putBlock _ _
  exact hround.mono (fun _ _ hs => hs.1)

def xactUpdates : XactRecord -> List SlruUpdate
  | .prepare _ _ => []
  | .commit common => clogUpdates true common.parsed
  | .abort common => clogUpdates false common.parsed
  | .commitPrepared common => clogUpdates true common.parsed
  | .abortPrepared common => clogUpdates false common.parsed

theorem mid_ingestXactCommon (h : Mid rule shard lsn NoBlocks s) (isCommit : Bool)
    (common : XactCommon)
    (hbased : rule.strict -> SlruBased shard s (clogUpdates isCommit common.parsed)) :
    Yields (ingestXactCommon isCommit common) s (fun _ => Mid rule shard lsn NoBlocks) :=
  (mid_putSlruUpdates h hbased).bind (fun _ _ h1 => mid_of_quiet h1 (quiet_putRelDrops _))

theorem mid_ingestXactRecord (h : Mid rule shard lsn NoBlocks s) (rec : XactRecord)
    (hbased : rule.strict -> SlruBased shard s (xactUpdates rec)) :
    Yields (ingestXactRecord rec) s (fun _ => Mid rule shard lsn NoBlocks) := by
  cases rec with
  | prepare xid data => exact h
  | commit common => exact mid_ingestXactCommon h true common hbased
  | abort common => exact mid_ingestXactCommon h false common hbased
  | commitPrepared common => exact mid_ingestXactCommon h true common hbased
  | abortPrepared common => exact mid_ingestXactCommon h false common hbased

theorem calm_assertShardZero : Keeps Calm assertShardZero :=
  fun s => Keeps.refuse (R := Calm) (c := s.tline.shard.isShardZero = false)
    (WalIngestError.panic .shardZero) s

theorem calm_dropSlruSegment (kind : SlruKind) (segno : UInt32) :
    Keeps Calm (dropSlruSegment kind segno) :=
  (Keeps.read _).bind (fun _ => calm_put (.slruDir kind) trivial _)

theorem calm_createSegmentIfRequired (kind : SlruKind) (segno : UInt32) :
    Keeps Calm (createSegmentIfRequired kind segno) := by
  have hexists : Keeps Calm (slruSegmentExists kind segno) :=
    calm_assertShardZero.bind (fun _ => (Keeps.read _).bind (fun _ => Keeps.pure _))
  refine hexists.bind (fun found => Keeps.ite ?_ ?_)
  · exact calm_assertShardZero.bind (fun _ => Keeps.read _)
  · refine Keeps.bind (R := Calm) ?_ (fun _ => Keeps.pure _)
    refine calm_assertShardZero.bind (fun _ => (Keeps.read _).bind (fun dir => ?_))
    refine (Keeps.refuse _).bind (fun _ => ?_)
    exact (calm_put (.slruDir kind) trivial _).bind
      (fun _ => calm_put (.slruSegmentSize kind segno) trivial _)

theorem mid_putSlruPageImage (h : Mid rule shard lsn NoBlocks s) (kind : SlruKind)
    (segno : UInt32) (blk : BlockNumber) (img : List UInt8) :
    Yields (putSlruPageImage kind segno blk img) s (fun _ => Mid rule shard lsn NoBlocks) := by
  refine (calm_assertShardZero.yields s).bind (fun _ s1 hcalm => ?_)
  refine (yields_putPageImage _ img s1).mono ?_
  rintro _ s2 rfl
  exact (h.quiet hcalm.quiet).putBlock (.inl rfl)

theorem mid_putSlruPageImageExtending (h : Mid rule shard lsn NoBlocks s) (kind : SlruKind)
    (segno : UInt32) (blk : BlockNumber) (img : List UInt8) :
    Yields (putSlruPageImageExtending shard kind segno blk img) s
      (fun _ => Mid rule shard lsn NoBlocks) := by
  refine Yields.ite (fun _ => ?_) (fun _ => h)
  have hextend : Yields (handleSlruExtend kind segno blk) s
      (fun _ => Mid rule shard lsn NoBlocks) := by
    refine ((calm_createSegmentIfRequired kind segno).yields s).bind (fun n s1 hcalm => ?_)
    have h1 := h.quiet hcalm.quiet
    refine Yields.onlyIf (fun _ => ?_) (fun _ => h1)
    have hput : Keeps Calm (putSlruExtend kind segno (blk + 1)) :=
      calm_assertShardZero.bind (fun _ => calm_put (.slruSegmentSize kind segno) trivial _)
    refine (hput.yields s1).bind (fun _ s2 hcalm2 => ?_)
    exact Yields.forM (fun gap _ s3 h3 => mid_putSlruPageImage h3 kind segno gap _)
      (h1.quiet hcalm2.quiet)
  exact hextend.bind (fun _ _ h1 => mid_putSlruPageImage h1 kind segno blk img)

theorem calm_ingestClogTruncate (ingest : WalIngest) (pageno : UInt32) :
    Keeps Calm (ingestClogTruncate ingest pageno) := by
  refine (Keeps.read _).bind (fun _ => Keeps.ite (Keeps.pure _) (Keeps.ite ?_ (Keeps.pure _)))
  refine (Keeps.read _).bind (fun segments => Keeps.forM (fun segno => ?_))
  exact Keeps.ite (calm_dropSlruSegment .clog segno) (Keeps.pure _)

theorem mid_ingestMultixactCreate (h : Mid rule shard lsn NoBlocks s) (xlrec : XlMultiXactCreate)
    (hbased : rule.strict -> SlruBased shard s (multixactUpdates xlrec)) :
    Yields (ingestMultixactCreate xlrec) s (fun _ => Mid rule shard lsn NoBlocks) := by
  unfold ingestMultixactCreate
  generalize (membersUpdates (xlrec.members.length + 1) xlrec.moff xlrec.members).2 = next
  exact (mid_putSlruUpdates h hbased).bind (fun _ _ h1 => mid_of_quiet h1 (Keeps.refuse _))

theorem calm_ingestMultixactTruncate (shard : ShardIdentity) (xlrec : XlMultiXactTruncate) :
    Keeps Calm (ingestMultixactTruncate shard xlrec) :=
  Keeps.ite (Keeps.forM (fun segno => calm_dropSlruSegment _ segno)) (Keeps.pure _)

/-!
## All metadata records
-/

def MetadataOk (rule : CoverRule) (shard : ShardIdentity) (s : State) :
    Option MetadataRecord -> Prop
  | some (.heapam (.clearVmBits bits)) => rule.strict -> VmLocal rule shard bits
  | some (.neonrmgr (.clearVmBits bits)) => rule.strict -> VmLocal rule shard bits
  | some (.smgr (.truncate trunc)) => TruncateOk rule shard s trunc
  | some (.xact rec) => rule.strict -> SlruBased shard s (xactUpdates rec)
  | some (.multiXact (.create xlrec)) =>
    rule.strict -> SlruBased shard s (multixactUpdates xlrec)
  | _ => True

def CreatesDatabase : Option MetadataRecord -> Prop
  | some (.dbase (.create ..)) => True
  | _ => False

theorem mid_ingestMetadataRecord (h : Mid rule ingest.shard lsn NoBlocks s)
    {rec : Option MetadataRecord} (hok : MetadataOk rule ingest.shard s rec)
    (hcopy : ¬ CreatesDatabase rec) :
    Yields (ingestMetadataRecord ingest rec) s (fun _ => Mid rule ingest.shard lsn NoBlocks) := by
  unfold ingestMetadataRecord
  split
  · exact mid_ingestClearVmBits h _ hok
  · exact mid_ingestClearVmBits h _ hok
  · exact mid_putRelCreation_zero h _
  · exact mid_ingestXlogSmgrTruncate h hok
  · exact absurd trivial hcopy
  · exact mid_ingestXlogDbaseDrop h _ _
  · exact mid_putSlruPageImageExtending h _ _ _ _
  · exact mid_of_quiet h (Calm.keeps_quiet (calm_ingestClogTruncate _ _))
  · exact mid_ingestXactRecord h _ hok
  · exact mid_putSlruPageImageExtending h _ _ _ _
  · exact mid_ingestMultixactCreate h _ hok
  · exact mid_of_quiet h (Calm.keeps_quiet (calm_ingestMultixactTruncate _ _))
  · exact mid_of_quiet h (Calm.keeps_quiet (calm_putRelmapFile _ _ _))
  all_goals exact h

theorem mended_ingestMetadataRecord (h : Mid rule ingest.shard lsn NoBlocks s)
    {rec : Option MetadataRecord} (hcopy : CreatesDatabase rec) :
    Yields (ingestMetadataRecord ingest rec) s (fun _ => Mended rule ingest.shard lsn) := by
  unfold CreatesDatabase at hcopy
  split at hcopy
  · exact mended_ingestXlogDbaseCreate h _ _ _ _
  · exact hcopy.elim

end Datadir
end Pageserver
end OpenNeon

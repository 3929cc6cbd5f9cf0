import Mathlib.Data.List.Induction
import OpenNeon.Pageserver.HistoricLayerCoverage

/-!
# The meaning of layer coverage

A rebuild cuts the history at the first change and replays only the layers from
there on.  The result is the history that inserting all the layers in key order
would give, so every query has a meaning in terms of the set of layers alone:
the layer with the largest end LSN among the layers of its kind that contain the
key and start at or below the LSN.
-/

namespace OpenNeon
namespace Pageserver

open Base List OrdMap

namespace HistoricLayerCoverage

variable {Value : Type}

/-!
## Building a history from scratch
-/

def build (ls : List (LayerKey × Value)) : HistoricLayerCoverage Value :=
  ls.foldl (fun h e => h.record e.1 e.2) new

def StartOrder (ls : List (LayerKey × Value)) : Prop :=
  ls.Pairwise (fun a b => a.1.lsn.start ≤ b.1.lsn.start)

@[simp] theorem build_nil : build ([] : List (LayerKey × Value)) = new := rfl

theorem build_snoc (ls : List (LayerKey × Value)) (e : LayerKey × Value) :
    build (ls ++ [e]) = (build ls).record e.1 e.2 := by
  simp [build]

variable {ls : List (LayerKey × Value)}

variable {e : LayerKey × Value} {start : Lsn}

theorem startOrder_snoc (h : StartOrder (ls ++ [e])) :
    StartOrder ls ∧ forall x, x ∈ ls -> x.1.lsn.start ≤ e.1.lsn.start := by
  rcases pairwise_append.mp h with ⟨hls, _, hcross⟩
  exact ⟨hls, fun x hx => hcross x hx e (by simp)⟩

theorem build_historic_start {l : Lsn} {t : LayerCoverageTuple Value}
    (h : (build ls).historic.get? l = some t) :
    exists e, e ∈ ls ∧ e.1.lsn.start = l := by
  induction ls using List.reverseRecOn generalizing t with
  | nil => simp [new] at h
  | append_singleton ls e ih =>
    rw [build_snoc] at h
    simp only [record, get?_insert] at h
    split_ifs at h with hl
    · exact ⟨e, by simp, hl.symm⟩
    · rcases ih h with ⟨x, hx, hxl⟩
      exact ⟨x, by simp [hx], hxl⟩

theorem build_last? (h : StartOrder ls) :
    (build ls).historic.last?.map Prod.snd =
      if ls = [] then none else some (build ls).head := by
  induction ls using List.reverseRecOn with
  | nil => rfl
  | append_singleton ls e ih =>
    rcases startOrder_snoc h with ⟨_, hle⟩
    have hkeys : forall j w, (build ls).historic.get? j = some w ->
        j ≤ e.1.lsn.start := by
      intro j w hj
      rcases build_historic_start hj with ⟨x, hx, rfl⟩
      exact hle x hx
    rw [build_snoc]
    simp only [record, last?_insert_of_le hkeys]
    simp

theorem insert_build (h : forall x, x ∈ ls -> x.1.lsn.start ≤ e.1.lsn.start) :
    (build ls).insert e.1 e.2 = .ok (build (ls ++ [e])) := by
  unfold insert
  rw [build_snoc]
  cases hlast : (build ls).historic.last? with
  | none => rfl
  | some last =>
    rcases last with ⟨lastLsn, t⟩
    rcases build_historic_start (last?_eq_some_iff.mp hlast).1 with ⟨x, hx, rfl⟩
    simp [not_lt.mpr (h x hx)]

theorem foldlM_insert_build {pre suf : List (LayerKey × Value)} (h : StartOrder (pre ++ suf)) :
    suf.foldlM (fun h e => h.insert e.1 e.2) (build pre) =
      (.ok (build (pre ++ suf)) : Except Panic _) := by
  induction suf generalizing pre with
  | nil => simp [pure, Except.pure]
  | cons e rest ih =>
    have hstart : forall x, x ∈ pre -> x.1.lsn.start ≤ e.1.lsn.start :=
      fun x hx => (pairwise_append.mp h).2.2 x hx e (by simp)
    have hassoc : pre ++ e :: rest = (pre ++ [e]) ++ rest := by simp
    rw [hassoc] at h
    rw [foldlM_cons, insert_build hstart, hassoc]
    exact ih h

/-!
## Trimming

Cutting a built history at an LSN is the same as building only the layers that
start below it.
-/

theorem trim_build_all (h : StartOrder ls) (hbelow : forall x, x ∈ ls -> x.1.lsn.start < start) :
    (build ls).trim start = build ls := by
  have hkeep : (build ls).historic.filterKeys (fun l => l < start) = (build ls).historic := by
    apply ext_get?
    intro l
    rw [get?_filterKeys]
    cases hget : (build ls).historic.get? l with
    | none => simp
    | some t =>
      rcases build_historic_start hget with ⟨x, hx, rfl⟩
      simp [hbelow x hx]
  unfold trim
  simp only [hkeep, build_last? h]
  split_ifs with hnil
  · rw [hnil]
    rfl
  · rfl

theorem trim_record {h : HistoricLayerCoverage Value} {layerKey : LayerKey} {value : Value}
    (hstart : start ≤ layerKey.lsn.start) :
    (h.record layerKey value).trim start = h.trim start := by
  have hsame : (h.record layerKey value).historic.filterKeys
      (fun l => l < start) = h.historic.filterKeys (fun l => l < start) := by
    apply ext_get?
    intro l
    simp only [record, get?_filterKeys, get?_insert]
    by_cases hl : l < start
    · have hne : l ≠ layerKey.lsn.start := by lia
      simp [hne]
    · simp [hl]
  unfold trim
  rw [hsame]

theorem trim_build (h : StartOrder ls) (start : Lsn) :
    (build ls).trim start = build (ls.filter (fun e => e.1.lsn.start < start)) := by
  induction ls using List.reverseRecOn with
  | nil => rfl
  | append_singleton ls e ih =>
    rcases startOrder_snoc h with ⟨hls, hle⟩
    by_cases he : e.1.lsn.start < start
    · have hall : forall x, x ∈ ls ++ [e] -> x.1.lsn.start < start := by
        intro x hx
        rcases mem_append.mp hx with hx | hx
        · exact lt_of_le_of_lt (hle x hx) he
        · rwa [mem_singleton.mp hx]
      rw [trim_build_all h hall, filter_eq_self.mpr]
      simpa using hall
    · have hfilter : (ls ++ [e]).filter (fun e => e.1.lsn.start < start) =
          ls.filter (fun e => e.1.lsn.start < start) := by
        simp [he]
      rw [build_snoc, trim_record (not_lt.mp he), ih hls, hfilter]

theorem startOrder_filter (h : StartOrder ls) (p : LayerKey × Value -> Bool) :
    StartOrder (ls.filter p) :=
  List.Pairwise.filter p h

theorem getVersion_build (h : StartOrder ls) (lsn : Lsn) :
    (build ls).getVersion lsn =
      if ls.filter (fun e => e.1.lsn.start ≤ lsn) = [] then none
      else some (build (ls.filter (fun e => e.1.lsn.start ≤ lsn))).head := by
  have htrim := trim_build h (lsn + 1)
  have hhist : (build ls).historic.filterKeys (fun l => l ≤ lsn) =
      ((build ls).trim (lsn + 1)).historic := by
    simp only [trim, Nat.lt_succ_iff]
  unfold getVersion OrdMap.floor?
  rw [hhist, htrim]
  simp only [Nat.lt_succ_iff]
  exact build_last? (startOrder_filter h _)

end HistoricLayerCoverage

/-!
## The latest layer at a key and an LSN
-/

namespace LayerKey

def Candidate (lk : LayerKey) (isImage : Bool) (key : Int) (lsn : Lsn) : Prop :=
  lk.isImage = isImage ∧ key ∈ lk.key ∧ lk.lsn.start ≤ lsn

instance (lk : LayerKey) (isImage : Bool) (key : Int) (lsn : Lsn) :
    Decidable (lk.Candidate isImage key lsn) :=
  inferInstanceAs (Decidable (_ ∧ _))

end LayerKey

/-- A query result is the candidate with the largest end LSN, if there is one. -/
structure IsLatest {Value : Type} (layers : LayerKey -> Option Value)
    (isImage : Bool) (key : Int) (lsn : Lsn) (result : Option Value) : Prop where
  found : forall v, result = some v ->
    exists lk, layers lk = some v ∧ lk.Candidate isImage key lsn ∧
      forall lk' v', layers lk' = some v' -> lk'.Candidate isImage key lsn ->
        lk'.lsn.stop ≤ lk.lsn.stop
  missing : result = none <->
    forall lk v, layers lk = some v -> Not (lk.Candidate isImage key lsn)

namespace HistoricLayerCoverage

variable {Value : Type}

def TopOf (ls : List (LayerKey × Value)) (isImage : Bool) (key : Int) :
    Option (Lsn × Value) -> Prop
  | none => forall e, e ∈ ls -> e.1.isImage = isImage -> key ∉ e.1.key
  | some (h, v) =>
    (exists lk, (lk, v) ∈ ls ∧ lk.isImage = isImage ∧ key ∈ lk.key ∧ lk.lsn.stop = h) ∧
    forall e, e ∈ ls -> e.1.isImage = isImage -> key ∈ e.1.key ->
      e.1.lsn.stop ≤ h

variable {ls : List (LayerKey × Value)}

variable {e : LayerKey × Value} {isImage : Bool} {key : Int} {top : Option (Lsn × Value)}

theorem topOf_snoc_skip (htop : TopOf ls isImage key top)
    (hskip : e.1.isImage = isImage -> key ∈ e.1.key ->
      LayerCoverage.needsCover e.1.lsn.stop top = false) :
    TopOf (ls ++ [e]) isImage key top := by
  cases top with
  | none =>
    intro x hx hkind hkey
    rcases mem_append.mp hx with hx | hx
    · exact htop x hx hkind hkey
    · rw [mem_singleton.mp hx] at hkind hkey
      have := hskip hkind hkey
      simp [LayerCoverage.needsCover] at this
  | some t =>
    rcases htop with ⟨⟨lk, hlk, hrest⟩, hmax⟩
    refine ⟨⟨lk, by simp [hlk], hrest⟩, ?_⟩
    intro x hx hkind hkey
    rcases mem_append.mp hx with hx | hx
    · exact hmax x hx hkind hkey
    · rw [mem_singleton.mp hx] at hkind hkey ⊢
      simpa [LayerCoverage.needsCover] using hskip hkind hkey

theorem topOf_snoc_cover (htop : TopOf ls isImage key top) (hkind : e.1.isImage = isImage)
    (hkey : key ∈ e.1.key) (hcover : LayerCoverage.needsCover e.1.lsn.stop top = true) :
    TopOf (ls ++ [e]) isImage key (some (e.1.lsn.stop, e.2)) := by
  refine ⟨⟨e.1, by simp, hkind, hkey, rfl⟩, ?_⟩
  intro x hx hxkind hxkey
  rcases mem_append.mp hx with hx | hx
  · cases top with
    | none => exact absurd hxkey (htop x hx hxkind)
    | some t =>
      have hle := htop.2 x hx hxkind hxkey
      have hlt : t.1 < e.1.lsn.stop := by
        simpa [LayerCoverage.needsCover] using hcover
      exact hle.trans (le_of_lt hlt)
  · rw [mem_singleton.mp hx]

theorem topOf_build (ls : List (LayerKey × Value)) (isImage : Bool) (key : Int) :
    TopOf ls isImage key (((build ls).head.coverage isImage).topAt key) := by
  induction ls using List.reverseRecOn with
  | nil => simp [new, TopOf]
  | append_singleton ls e ih =>
    rw [build_snoc]
    simp only [record, LayerCoverageTuple.coverage_insert]
    split_ifs with hkind
    · rw [LayerCoverage.topAt_insert]
      split_ifs with hcover
      · exact topOf_snoc_cover ih hkind hcover.1 hcover.2
      · refine topOf_snoc_skip ih ?_
        intro _ hkey
        exact Bool.eq_false_iff.mpr (fun hneeds => hcover ⟨hkey, hneeds⟩)
    · exact topOf_snoc_skip ih (fun h => absurd h hkind)

theorem nodesAt_build {p : Int -> Prop}
    (h : forall e, e ∈ ls -> p e.1.key.start ∧ p e.1.key.stop) (isImage : Bool) :
    ((build ls).head.coverage isImage).NodesAt p := by
  induction ls using List.reverseRecOn with
  | nil => simpa [new] using LayerCoverage.nodesAt_new p
  | append_singleton ls e ih =>
    have hls := ih (fun x hx => h x (by simp [hx]))
    have he := h e (by simp)
    rw [build_snoc]
    simp only [record, LayerCoverageTuple.coverage_insert]
    split_ifs
    · exact hls.insert he.1 he.2 e.1.lsn e.2
    · exact hls

theorem isLatest_build (h : StartOrder ls) {layers : LayerKey -> Option Value}
    (hlayers : forall lk v, layers lk = some v <-> (lk, v) ∈ ls) (isImage : Bool) (key : Int)
    (lsn : Lsn) :
    IsLatest layers isImage key lsn (((build ls).getVersion lsn).bind
        (fun t => (t.coverage isImage).query key)) := by
  have hmem : forall lk v,
      (lk, v) ∈ ls.filter (fun e => e.1.lsn.start ≤ lsn) <->
        layers lk = some v ∧ lk.lsn.start ≤ lsn := by
    intro lk v
    rw [hlayers]
    simp
  have htop := topOf_build (ls.filter (fun e => e.1.lsn.start ≤ lsn)) isImage key
  rw [getVersion_build h]
  generalize hgen : ls.filter (fun e => e.1.lsn.start ≤ lsn) = below at hmem htop
  split_ifs with hnil
  · -- no layer starts at or below the LSN
    rw [hnil] at hmem
    refine ⟨by simp, ⟨fun _ lk v hlk hcand => ?_, fun _ => rfl⟩⟩
    simpa using (hmem lk v).mpr ⟨hlk, hcand.2.2⟩
  · simp only [Option.bind_some, LayerCoverage.query_eq_topAt]
    cases hres : ((build below).head.coverage isImage).topAt key with
    | none =>
      rw [hres] at htop
      refine ⟨by simp, ⟨fun _ lk v hlk hcand => ?_, fun _ => rfl⟩⟩
      exact htop (lk, v) ((hmem lk v).mpr ⟨hlk, hcand.2.2⟩) hcand.1 hcand.2.1
    | some t =>
      rcases t with ⟨stop, v⟩
      rw [hres] at htop
      rcases htop with ⟨⟨lk, hlk, hkind, hkey, hstop⟩, hmax⟩
      have hin := (hmem lk v).mp hlk
      refine ⟨?_, ⟨fun hnone => by simp at hnone, fun hall => ?_⟩⟩
      · intro w hw
        rw [← hw]
        refine ⟨lk, hin.1, ⟨hkind, hkey, hin.2⟩, ?_⟩
        intro lk' v' hlk' hcand
        rw [hstop]
        exact hmax (lk', v') ((hmem lk' v').mpr ⟨hlk', hcand.2.2⟩) hcand.1 hcand.2.1
      · exact absurd ⟨hkind, hkey, hin.2⟩ (hall lk v hin.1)

end HistoricLayerCoverage

/-!
## Rebuilding

The invariant of the buffered map: the history is the one built from the
layers, and no layer has an empty LSN range.  The layers a reader should see are
the stored ones with the buffered updates laid over them.
-/

namespace BufferedHistoricLayerCoverage

variable {Value : Type}

open HistoricLayerCoverage

/-- The layers with the buffered updates laid over them. -/
def current (b : BufferedHistoricLayerCoverage Value) (lk : LayerKey) : Option Value :=
  match b.buffer.get? lk with
  | some update => update
  | none => b.layers.get? lk

/-- The history is built from the stored layers, and no layer has an empty LSN range. -/
structure Inv (b : BufferedHistoricLayerCoverage Value) : Prop where
  built : b.historicCoverage = build b.layers.entries
  layersWf : forall lk v, b.layers.get? lk = some v -> lk.lsn.start < lk.lsn.stop
  bufferWf : forall lk v, b.buffer.get? lk = some (some v) ->
    lk.lsn.start < lk.lsn.stop

theorem inv_new : Inv (new : BufferedHistoricLayerCoverage Value) where
  built := rfl
  layersWf := by simp [new]
  bufferWf := by simp [new]

theorem startOrder_entries (m : OrdMap LayerKey Value) : StartOrder m.entries :=
  m.sorted.imp (fun h => LayerKey.start_le_of_lt h)

theorem get?_applyUpdate (m : OrdMap LayerKey Value)
    (update : LayerKey × Option Value) (lk : LayerKey) :
    (applyUpdate m update).get? lk =
      if lk = update.1 then update.2 else m.get? lk := by
  rcases update with ⟨k, value⟩
  unfold applyUpdate
  cases value with
  | none =>
    rw [get?_erase]
    by_cases hk : lk = k <;> simp [hk]
  | some v =>
    rw [get?_insert]
    by_cases hk : lk = k <;> simp [hk]

theorem get?_foldl_applyUpdate {updates : List (LayerKey × Option Value)}
    (hsorted : SortedEntries updates) (m : OrdMap LayerKey Value)
    (lk : LayerKey) :
    (forall r, (lk, r) ∈ updates ->
      (updates.foldl applyUpdate m).get? lk = r) ∧
    ((forall r, (lk, r) ∉ updates) ->
      (updates.foldl applyUpdate m).get? lk = m.get? lk) := by
  induction updates generalizing m with
  | nil => simp
  | cons first rest ih =>
    have hrest : SortedEntries rest := List.Pairwise.of_cons hsorted
    have hfirst : forall r, (first.1, r) ∉ rest := by
      intro r hr
      exact absurd (rel_of_pairwise_cons hsorted hr) (lt_irrefl first.1)
    rw [foldl_cons]
    constructor
    · intro r hr
      rcases mem_cons.mp hr with heq | hr
      · rw [← heq] at hfirst ⊢
        rw [(ih hrest _).2 hfirst, get?_applyUpdate, if_pos rfl]
      · exact (ih hrest _).1 r hr
    · intro hnone
      have hne : lk ≠ first.1 := by
        intro heq
        exact hnone first.2 (by simp [heq])
      have htail : forall r, (lk, r) ∉ rest :=
        fun r hr => hnone r (mem_cons_of_mem _ hr)
      rw [(ih hrest _).2 htail, get?_applyUpdate, if_neg hne]

theorem get?_applied (b : BufferedHistoricLayerCoverage Value) (lk : LayerKey) :
    (b.buffer.entries.foldl applyUpdate b.layers).get? lk = b.current lk := by
  have happly := get?_foldl_applyUpdate b.buffer.sorted b.layers lk
  unfold current
  cases hget : b.buffer.get? lk with
  | none => exact happly.2 (get?_eq_none_iff.mp hget)
  | some r => exact happly.1 r (get?_eq_some_iff.mp hget)

variable {b : BufferedHistoricLayerCoverage Value}

variable {lk : LayerKey}

theorem current_of_buffer_empty (h : b.buffer.entries = []) (lk : LayerKey) :
    b.current lk = b.layers.get? lk := by
  have hnone : b.buffer.get? lk = none :=
    get?_eq_none_iff.mpr (fun v hmem => by simp [h] at hmem)
  simp [current, hnone]

theorem current_lsn_lt (hinv : Inv b) {v : Value} (h : b.current lk = some v) :
    lk.lsn.start < lk.lsn.stop := by
  unfold current at h
  cases hget : b.buffer.get? lk with
  | none =>
    rw [hget] at h
    exact hinv.layersWf lk v h
  | some r =>
    rw [hget] at h
    exact hinv.bufferWf lk v (by rw [hget]; exact congrArg some h)

theorem rebuildBound_le_iff (h : lk.lsn.start < lk.lsn.stop) (since : Lsn) :
    rebuildBound since ≤ lk <-> Not (lk.lsn.start < since) := by
  rw [← not_lt, LayerKey.lt_iff]
  simp only [rebuildBound]
  constructor
  · exact fun hnot hlt => hnot (Or.inl hlt)
  · rintro hnot (hlt | ⟨_, hlt | ⟨heq, _⟩⟩)
    · exact hnot hlt
    · exact absurd hlt (Nat.not_lt_zero _)
    · lia

theorem rebuild_spec (hinv : Inv b) :
    exists b', b.rebuild = .ok b' ∧ Inv b' ∧ b'.buffer.entries = [] ∧
      forall lk, b'.layers.get? lk = b.current lk := by
  cases hbuf : b.buffer.entries with
  | nil =>
    exact ⟨b, by simp [rebuild, hbuf], hinv, hbuf, fun lk => (current_of_buffer_empty hbuf lk).symm⟩
  | cons first rest =>
    let since := first.1.lsn.start
    let layers := b.buffer.entries.foldl applyUpdate b.layers
    have happlied : forall lk, layers.get? lk = b.current lk := get?_applied b
    have hwf : forall lk v, layers.get? lk = some v ->
        lk.lsn.start < lk.lsn.stop := by
      intro lk v h
      exact current_lsn_lt hinv ((happlied lk) ▸ h)
    -- no update touches a layer that starts before the cut
    have hbefore : layers.filterKeys (fun k => k.lsn.start < since) =
        b.layers.filterKeys (fun k => k.lsn.start < since) := by
      apply ext_get?
      intro lk
      rw [get?_filterKeys, get?_filterKeys]
      by_cases hlt : lk.lsn.start < since
      · have hnone : b.buffer.get? lk = none := by
          rw [get?_eq_none_iff]
          intro r hmem
          rw [hbuf] at hmem
          rcases mem_cons.mp hmem with heq | hmem
          · exact absurd hlt (by simp [since, ← heq])
          · have hsorted := b.buffer.sorted
            rw [hbuf] at hsorted
            have hle := LayerKey.start_le_of_lt (rel_of_pairwise_cons hsorted hmem)
            exact absurd hlt (not_lt.mpr hle)
        simp [happlied, current, hnone]
      · simp [hlt]
    have hsplit : layers.entries =
        (layers.filterKeys (fun k => k.lsn.start < since)).entries ++
          (layers.filterKeys (fun k => rebuildBound since ≤ k)).entries := by
      apply entries_eq_append
      · intro x y hxy hy
        have hle := LayerKey.start_le_of_lt hxy
        have hlt : y.lsn.start < since := by simpa using hy
        simpa using lt_of_le_of_lt hle hlt
      · intro e he
        have hbound := rebuildBound_le_iff (hwf e.1 e.2 (get?_eq_some_iff.mpr he)) since
        rw [← decide_not]
        exact decide_eq_decide.mpr hbound
    have htrim : b.historicCoverage.trim since =
        build (layers.filterKeys (fun k => k.lsn.start < since)).entries := by
      rw [hinv.built, trim_build (startOrder_entries b.layers), hbefore]
      rfl
    have hfold := foldlM_insert_build (hsplit ▸ startOrder_entries layers)
    rw [← hsplit, ← htrim] at hfold
    refine ⟨{ historicCoverage := build layers.entries
              buffer := OrdMap.empty
              layers := layers }, ?_, ⟨rfl, hwf, by simp⟩, rfl, happlied⟩
    unfold rebuild
    simp only [since, layers, hbuf] at hfold
    simp only [hfold, layers, hbuf]

/-!
## Whole runs
-/

inductive Op (Value : Type) where
  | insert (layerKey : LayerKey) (value : Value)
  | remove (layerKey : LayerKey)
  | rebuild

def step (b : BufferedHistoricLayerCoverage Value) :
    Op Value -> Except Panic (BufferedHistoricLayerCoverage Value)
  | .insert layerKey value => .ok (b.insert layerKey value)
  | .remove layerKey => .ok (b.remove layerKey)
  | .rebuild => b.rebuild

def run (ops : List (Op Value)) : Except Panic (BufferedHistoricLayerCoverage Value) :=
  ops.foldlM step new

def applyOp (layers : LayerKey -> Option Value) :
    Op Value -> LayerKey -> Option Value
  | .insert layerKey value => Function.update layers layerKey (some value)
  | .remove layerKey => Function.update layers layerKey none
  | .rebuild => layers

/-- The layers in the map after a sequence of calls: the last call on a key decides. -/
def contents (ops : List (Op Value)) : LayerKey -> Option Value :=
  ops.foldl applyOp (fun _ => none)

/-- Every inserted layer covers at least one key and one LSN. -/
def WellFormedOps (ops : List (Op Value)) : Prop :=
  forall lk v, Op.insert lk v ∈ ops -> lk.WellFormed

theorem buffered_spec (hinv : Inv b) (layerKey : LayerKey) (update : Option Value)
    (hwf : forall v, update = some v -> layerKey.lsn.start < layerKey.lsn.stop) :
    let b' := { b with buffer := b.buffer.insert layerKey update }
    Inv b' ∧ b'.current = Function.update b.current layerKey update := by
  refine ⟨⟨hinv.built, hinv.layersWf, ?_⟩, ?_⟩
  · intro lk v h
    simp only [get?_insert] at h
    split_ifs at h with hlk
    · cases h
      exact hlk ▸ hwf v rfl
    · exact hinv.bufferWf lk v h
  · funext lk
    by_cases hlk : lk = layerKey <;> simp [current, get?_insert, hlk]

theorem step_spec (hinv : Inv b) {op : Op Value}
    (hop : forall lk v, op = .insert lk v -> lk.lsn.start < lk.lsn.stop) :
    exists b', step b op = .ok b' ∧ Inv b' ∧
      b'.current = applyOp b.current op := by
  cases op with
  | insert layerKey value =>
    exact ⟨_, rfl, buffered_spec hinv layerKey (some value) (fun _ _ => hop layerKey value rfl)⟩
  | remove layerKey =>
    exact ⟨_, rfl, buffered_spec hinv layerKey none (fun v h => by cases h)⟩
  | rebuild =>
    rcases rebuild_spec hinv with ⟨b', hok, hinv', hempty, hlayers⟩
    refine ⟨b', hok, hinv', ?_⟩
    funext lk
    rw [current_of_buffer_empty hempty, hlayers]
    rfl

theorem foldlM_step_spec (hinv : Inv b) {ops : List (Op Value)} (hops : WellFormedOps ops) :
    exists b', ops.foldlM step b = .ok b' ∧ Inv b' ∧
      b'.current = ops.foldl applyOp b.current := by
  induction ops generalizing b with
  | nil => exact ⟨b, rfl, hinv, rfl⟩
  | cons op rest ih =>
    have hop : forall lk v, op = .insert lk v -> lk.lsn.start < lk.lsn.stop :=
      fun lk v h => (hops lk v (by simp [h])).2
    have hrest : WellFormedOps rest :=
      fun lk v h => hops lk v (mem_cons_of_mem _ h)
    rcases step_spec hinv hop with ⟨b1, hstep, hinv1, hcur1⟩
    rcases ih hinv1 hrest with ⟨b2, hfold, hinv2, hcur2⟩
    refine ⟨b2, ?_, hinv2, by rw [hcur2, hcur1]; rfl⟩
    rw [foldlM_cons, hstep]
    exact hfold

/-- After a rebuild every query gives the latest layer of its kind. -/
theorem run_rebuild_query_isLatest (ops : List (Op Value)) (hops : WellFormedOps ops) :
    exists b h, run (ops ++ [.rebuild]) = .ok b ∧ b.get = .ok h ∧
      forall key lsn,
        IsLatest (contents ops) false key lsn
          ((h.getVersion lsn).bind (fun t => t.deltaCoverage.query key)) ∧
        IsLatest (contents ops) true key lsn
          ((h.getVersion lsn).bind (fun t => t.imageCoverage.query key)) := by
  rcases foldlM_step_spec inv_new hops with ⟨b, hrun, hinv, hcur⟩
  rcases rebuild_spec hinv with ⟨b', hok, hinv', hempty, hlayers⟩
  have hcontents : forall lk v, contents ops lk = some v <-> (lk, v) ∈ b'.layers.entries := by
    intro lk v
    have hlk : b'.layers.get? lk = contents ops lk := by
      rw [hlayers, hcur]
      rfl
    rw [← get?_eq_some_iff, hlk]
  have hlatest := fun isImage key lsn =>
    isLatest_build (startOrder_entries b'.layers) hcontents isImage key lsn
  refine ⟨b', b'.historicCoverage, ?_, by simp [get, hempty], ?_⟩
  · unfold run
    rw [foldlM_append, hrun]
    change List.foldlM step b [Op.rebuild] = _
    simp [step, hok]
  · intro key lsn
    rw [hinv'.built]
    exact ⟨hlatest false key lsn, hlatest true key lsn⟩

/-- Retroactive insertion, and a removal in the batch of its insertion. -/
def retroactiveOps : List (Op Nat) :=
  [.insert ⟨⟨0, 5⟩, ⟨100, 101⟩, true⟩ 1,
    .insert ⟨⟨3, 9⟩, ⟨110, 111⟩, true⟩ 2,
    .rebuild,
    .insert ⟨⟨0, 9⟩, ⟨104, 120⟩, false⟩ 3,
    .insert ⟨⟨2, 4⟩, ⟨90, 95⟩, false⟩ 4,
    .remove ⟨⟨0, 9⟩, ⟨104, 120⟩, false⟩]

theorem run_rebuild_query_isLatest_retroactive :
    exists b h, run (retroactiveOps ++ [.rebuild]) = .ok b ∧ b.get = .ok h ∧
      forall key lsn,
        IsLatest (contents retroactiveOps) false key lsn
          ((h.getVersion lsn).bind (fun t => t.deltaCoverage.query key)) ∧
        IsLatest (contents retroactiveOps) true key lsn
          ((h.getVersion lsn).bind (fun t => t.imageCoverage.query key)) := by
  refine run_rebuild_query_isLatest retroactiveOps ?_
  intro lk v h
  simp only [retroactiveOps, mem_cons, reduceCtorEq, not_mem_nil, or_false, false_or] at h
  rcases h with ⟨rfl, _⟩ | ⟨rfl, _⟩ | ⟨rfl, _⟩ | ⟨rfl, _⟩ <;> decide

end BufferedHistoricLayerCoverage
end Pageserver
end OpenNeon

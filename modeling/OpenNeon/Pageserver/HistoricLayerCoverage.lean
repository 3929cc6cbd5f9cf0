import OpenNeon.Pageserver.Key
import OpenNeon.Pageserver.LayerCoverage

/-!
# Historic layer coverage

One coverage for every LSN.  The historic map keeps the coverage after each
start LSN, so a query at an LSN reads the version at or below it.  Insertions
must come in order of start LSN; the buffered wrapper accepts any order by
cutting the history at the first change and building it up again.
-/

namespace OpenNeon
namespace Pageserver

open Base

/-!
## Layer keys
-/

structure LayerKey where
  key : Range Int
  lsn : Range Lsn
  isImage : Bool
  deriving DecidableEq

namespace LayerKey

def fields (a : LayerKey) : Nat ×ₗ Nat ×ₗ Int ×ₗ Int ×ₗ Bool :=
  toLex (a.lsn.start, toLex (a.lsn.stop, toLex (a.key.start, toLex (a.key.stop, a.isImage))))

theorem fields_injective : Function.Injective fields := by
  intro a b h
  rcases a with ⟨⟨ak1, ak2⟩, ⟨al1, al2⟩, ai⟩
  simp only [fields, EmbeddingLike.apply_eq_iff_eq, Prod.mk.injEq] at h
  simp [h]

instance : LinearOrder LayerKey :=
  LinearOrder.lift' fields fields_injective

theorem lt_iff {a b : LayerKey} :
    a < b <->
      a.lsn.start < b.lsn.start ∨ a.lsn.start = b.lsn.start ∧
      (a.lsn.stop < b.lsn.stop ∨ a.lsn.stop = b.lsn.stop ∧
      (a.key.start < b.key.start ∨ a.key.start = b.key.start ∧
      (a.key.stop < b.key.stop ∨ a.key.stop = b.key.stop ∧ a.isImage < b.isImage))) := by
  change fields a < fields b <-> _
  simp [fields, Prod.Lex.lt_iff]

theorem start_le_of_lt {a b : LayerKey} (h : a < b) : a.lsn.start ≤ b.lsn.start := by
  rcases lt_iff.mp h with h | h
  · exact le_of_lt h
  · exact le_of_eq h.1

def WellFormed (a : LayerKey) : Prop :=
  a.key.start < a.key.stop ∧ a.lsn.start < a.lsn.stop

instance (a : LayerKey) : Decidable a.WellFormed :=
  inferInstanceAs (Decidable (_ ∧ _))

end LayerKey

/-!
## Coverage at one LSN
-/

structure LayerCoverageTuple (Value : Type) where
  imageCoverage : LayerCoverage Value
  deltaCoverage : LayerCoverage Value

namespace LayerCoverageTuple

variable {Value : Type}

def default : LayerCoverageTuple Value :=
  { imageCoverage := LayerCoverage.new
    deltaCoverage := LayerCoverage.new }

variable (t : LayerCoverageTuple Value)

def coverage (isImage : Bool) : LayerCoverage Value :=
  if isImage then t.imageCoverage else t.deltaCoverage

def insert (layerKey : LayerKey) (value : Value) : LayerCoverageTuple Value :=
  if layerKey.isImage then
    { t with
      imageCoverage := t.imageCoverage.insert layerKey.key layerKey.lsn value }
  else
    { t with
      deltaCoverage := t.deltaCoverage.insert layerKey.key layerKey.lsn value }

@[simp] theorem coverage_default (isImage : Bool) :
    (default : LayerCoverageTuple Value).coverage isImage = LayerCoverage.new := by
  cases isImage <;> rfl

theorem coverage_insert (layerKey : LayerKey) (value : Value) (isImage : Bool) :
    (t.insert layerKey value).coverage isImage =
      if layerKey.isImage = isImage then
        (t.coverage isImage).insert layerKey.key layerKey.lsn value
      else t.coverage isImage := by
  unfold insert coverage
  cases hkind : layerKey.isImage <;> cases isImage <;> simp

end LayerCoverageTuple

/-!
## Coverage at every LSN
-/

/-- The latest coverage and the coverage after each start LSN. -/
structure HistoricLayerCoverage (Value : Type) where
  head : LayerCoverageTuple Value
  historic : OrdMap Lsn (LayerCoverageTuple Value)

namespace HistoricLayerCoverage

variable {Value : Type}

def new : HistoricLayerCoverage Value :=
  { head := LayerCoverageTuple.default
    historic := OrdMap.empty }

def record (h : HistoricLayerCoverage Value) (layerKey : LayerKey)
    (value : Value) : HistoricLayerCoverage Value :=
  let head := h.head.insert layerKey value
  { head := head
    historic := h.historic.insert layerKey.lsn.start head }

/-- Add a layer; the start LSN must not be older than the last version. -/
def insert (h : HistoricLayerCoverage Value) (layerKey : LayerKey)
    (value : Value) : Except Panic (HistoricLayerCoverage Value) :=
  match h.historic.last? with
  | some (lastLsn, _) =>
    if layerKey.lsn.start < lastLsn then
      .error .unexpectedRetroactiveInsert
    else .ok (h.record layerKey value)
  | none => .ok (h.record layerKey value)

def getVersion (h : HistoricLayerCoverage Value) (lsn : Lsn) : Option (LayerCoverageTuple Value) :=
  (h.historic.floor? lsn).map Prod.snd

def trim (h : HistoricLayerCoverage Value) (start : Lsn) : HistoricLayerCoverage Value :=
  let historic := h.historic.filterKeys (fun l => l < start)
  { head := (historic.last?.map Prod.snd).getD LayerCoverageTuple.default
    historic := historic }

end HistoricLayerCoverage

/-!
## Buffered updates
-/

/-- A history that is rebuilt from the layers when a batch of updates ends. -/
structure BufferedHistoricLayerCoverage (Value : Type) where
  historicCoverage : HistoricLayerCoverage Value
  buffer : OrdMap LayerKey (Option Value)
  layers : OrdMap LayerKey Value

namespace BufferedHistoricLayerCoverage

variable {Value : Type}

def new : BufferedHistoricLayerCoverage Value :=
  { historicCoverage := HistoricLayerCoverage.new
    buffer := OrdMap.empty
    layers := OrdMap.empty }

def insert (b : BufferedHistoricLayerCoverage Value) (layerKey : LayerKey)
    (value : Value) : BufferedHistoricLayerCoverage Value :=
  { b with buffer := b.buffer.insert layerKey (some value) }

def remove (b : BufferedHistoricLayerCoverage Value) (layerKey : LayerKey) :
    BufferedHistoricLayerCoverage Value :=
  { b with buffer := b.buffer.insert layerKey none }

def applyUpdate (layers : OrdMap LayerKey Value)
    (update : LayerKey × Option Value) : OrdMap LayerKey Value :=
  match update.2 with
  | some l => layers.insert update.1 l
  | none => layers.erase update.1

def rebuildBound (rebuildSince : Lsn) : LayerKey :=
  { key := ⟨0, 0⟩, lsn := ⟨rebuildSince, 0⟩, isImage := false }

section

variable (b : BufferedHistoricLayerCoverage Value)

/-- Apply the buffer and rebuild the history from the first change on. -/
def rebuild : Except Panic (BufferedHistoricLayerCoverage Value) :=
  match b.buffer.entries with
  | [] => .ok b
  | (first, _) :: _ =>
    let rebuildSince := first.lsn.start
    let layers := b.buffer.entries.foldl applyUpdate b.layers
    let suffix :=
      (layers.filterKeys (fun k => rebuildBound rebuildSince ≤ k)).entries
    let trimmed := b.historicCoverage.trim rebuildSince
    match suffix.foldlM (fun h e => h.insert e.1 e.2) trimmed with
    | .error p => .error p
    | .ok h => .ok { historicCoverage := h, buffer := OrdMap.empty, layers := layers }

def get : Except Panic (HistoricLayerCoverage Value) :=
  if b.buffer.entries.isEmpty then .ok b.historicCoverage
  else .error .rebuildRequired

def iter : Except Panic (List Value) :=
  if b.buffer.entries.isEmpty then .ok (b.layers.entries.map Prod.snd)
  else .error .rebuildRequired

end

end BufferedHistoricLayerCoverage
end Pageserver
end OpenNeon

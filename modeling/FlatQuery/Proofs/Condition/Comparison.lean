import FlatQuery.Condition.Match
import FlatQuery.Proofs.Number.Decimal

/-!
How the operators on a field are related to each other: on one cell each has an opposite, and on
several cells each asks for one that satisfies it. The main statement is
`Record.comparisons_complementary`.
-/

namespace FlatQuery

theorem cellNumber?_not_isNaN {cell : String} {x : Binary64} (h : cellNumber? cell = some x) :
    ¬x.isNaN :=
  Binary64.not_isNaN_of_isFinite (Decimal.of_read? h).left

namespace Operand

-- What a cell can be less or greater than.
inductive IsBound : Operand → Prop
  | number {x : Binary64} : ¬x.isNaN → IsBound (.number x)
  | text {s : String}     : IsBound (.text s)

inductive IsUnordered : Operand → Prop
  | null                         : IsUnordered .null
  | bool {b : Bool}              : IsUnordered (.bool b)
  | list {items : List Operand}  : IsUnordered (.list items)

variable {v : Operand}

-- A bound compares with every cell, as a number or else as a text.
theorem IsBound.compare?_isSome (h : v.IsBound) (cell : String) : (v.compare? cell).isSome := by
  cases h
  case number hx =>
    simp only [compare?]
    split
    case h_1 hc => exact Binary64.compare?_isSome (cellNumber?_not_isNaN hc) hx
    case h_2    => rfl
  case text =>
    simp only [compare?]
    split
    case h_1 hc hs =>
      exact Binary64.compare?_isSome (cellNumber?_not_isNaN hc) (cellNumber?_not_isNaN hs)
    case h_2       => rfl

theorem IsUnordered.compare?_eq_none (h : v.IsUnordered) (cell : String) :
    v.compare? cell = none := by
  cases h <;> rfl

end Operand

namespace Operator

variable {v : Operand} {cell : String}

theorem holds_ne : ne.holds cell v = !eq.holds cell v :=
  rfl

theorem holds_ge (h : v.IsBound) : ge.holds cell v = !lt.holds cell v := by
  obtain ⟨o, ho⟩ := Option.isSome_iff_exists.mp (h.compare?_isSome cell)
  cases o <;> simp [holds, ho]

theorem holds_le (h : v.IsBound) : le.holds cell v = !gt.holds cell v := by
  obtain ⟨o, ho⟩ := Option.isSome_iff_exists.mp (h.compare?_isSome cell)
  cases o <;> simp [holds, ho]

theorem not_holds_lt_and_gt : ¬(lt.holds cell v ∧ gt.holds cell v) := by
  rintro ⟨hl, hg⟩
  simp only [holds, beq_iff_eq] at hl hg
  cases hl.symm.trans hg

-- Where there is no order nothing is less or greater, nor is it less or equal or greater or equal.
theorem not_holds_of_isUnordered (h : v.IsUnordered) {op : Operator} (ho : op ∈ [lt, le, gt, ge]) :
    ¬op.holds cell v := by
  simp only [List.mem_cons, List.not_mem_nil, or_false] at ho
  rcases ho with rfl | rfl | rfl | rfl <;> simp [holds, h.compare?_eq_none]

end Operator

namespace Record

-- A field has a single cell, or it is the id, which counts as one if the record has no such field.
inductive HasCell (r : Record) (name cell : String) : Prop
  | single : r.get? name = some (.single cell) → HasCell r name cell
  | id     : r.get? name = none → name = "id" → cell = toString r.id → HasCell r name cell

variable {r : Record} {name cell : String} {cells : List String} {op : Operator} {v : Operand}

theorem HasCell.cells_eq (h : r.HasCell name cell) : r.cells name = [cell] := by
  cases h
  case single h    => simp only [Record.cells, h, FieldValue.cells]
  case id h hn hc  => simp only [Record.cells, h, if_pos hn, hc]

theorem cells_of_multi (h : r.get? name = some (.multi cells)) : r.cells name = cells := by
  simp only [Record.cells, h, FieldValue.cells]

theorem cells_of_absent (h : r.get? name = none) (hn : name ≠ "id") : r.cells name = [] := by
  simp only [Record.cells, h, if_neg hn]

theorem hasCell_insert_empty (id : Nat) (name cell : String) :
    ((empty id).insert name cell).HasCell name cell :=
  .single (by simp [empty, insert, insertField, get?])

theorem HasCell.holds_field (h : r.HasCell name cell) :
    (Condition.field name op v).holds r = op.holds cell v := by
  rw [Condition.holds, h.cells_eq, List.any_cons, List.any_nil, Bool.or_false]

theorem holds_field_iff :
    (Condition.field name op v).holds r ↔ ∃ cell ∈ r.cells name, op.holds cell v := by
  rw [Condition.holds, List.any_eq_true]

-- Comparisons of a field with one value by the different operators:
-- 1. None is satisfied by a field that is not there, except for the id.
-- 2. A single cell satisfies either `=` or `!=`. If the value is a bound it satisfies as well
--    either `<` or `>=`, and either `>` or `<=`, but not both `<` and `>`.
-- 3. A value that is neither a number nor a text has no cells below or above it.
-- 4. Several cells satisfy what one of them would satisfy alone.
theorem comparisons_complementary (r : Record) (name : String) (v : Operand) :
    let is (op : Operator) : Bool := (Condition.field name op v).holds r
    (r.get? name = none → name ≠ "id" → ∀ op, ¬is op) ∧
    (∀ cell, r.HasCell name cell → is .ne = !is .eq ∧
      (v.IsBound → is .ge = !is .lt ∧ is .le = !is .gt ∧ ¬(is .lt ∧ is .gt))) ∧
    (v.IsUnordered → ∀ op ∈ [.lt, .le, .gt, .ge], ¬is op) ∧
    (∀ cells, r.get? name = some (.multi cells) → ∀ op, is op ↔
      ∃ cell ∈ cells, (Condition.field name op v).holds ((empty r.id).insert name cell)) := by
  intro is
  refine ⟨?absent, ?single, ?unordered, ?multi⟩
  case absent =>
    intro h hn op
    simp [is, holds_field_iff, cells_of_absent h hn]
  case single =>
    intro cell h
    simp only [is, h.holds_field]
    exact ⟨Operator.holds_ne, fun hb =>
      ⟨Operator.holds_ge hb, Operator.holds_le hb, Operator.not_holds_lt_and_gt⟩⟩
  case unordered =>
    intro h op ho hi
    obtain ⟨cell, -, hc⟩ := holds_field_iff.mp hi
    exact Operator.not_holds_of_isUnordered h ho hc
  case multi =>
    intro cells h op
    simp only [is, holds_field_iff, cells_of_multi h, (hasCell_insert_empty ..).cells_eq,
      List.mem_singleton, exists_eq_left]

-- The cell `9` and the text `10` compare as numbers, and `x` comes behind `10` as a text.
theorem comparisons_complementary_numeric_texts :
    let r : Record := ⟨1, [("a", .single "9"), ("b", .multi ["9", "x"])]⟩
    let a (op : Operator) : Bool := (Condition.field "a" op (.text "10")).holds r
    let b (op : Operator) : Bool := (Condition.field "b" op (.text "10")).holds r
    a .lt ∧ a .ge = !a .lt ∧ a .le = !a .gt ∧ a .ne = !a .eq ∧ b .lt ∧ b .gt := by
  intro r a b
  have ha := (comparisons_complementary r "a" (.text "10")).2.1 "9" (.single rfl)
  have hb := (comparisons_complementary r "b" (.text "10")).2.2.2 ["9", "x"] rfl
  exact ⟨by decide +kernel, (ha.2 .text).1, (ha.2 .text).2.1, ha.1,
    (hb .lt).mpr ⟨"9", by decide +kernel⟩, (hb .gt).mpr ⟨"x", by decide +kernel⟩⟩

end Record
end FlatQuery

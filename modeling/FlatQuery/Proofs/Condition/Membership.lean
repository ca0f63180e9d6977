import FlatQuery.Proofs.Condition.Acceptance
import FlatQuery.Proofs.Condition.Comparison

/-!
Comparisons with a list as groups of comparisons with its items, which can stand for each other at
any place in a tree. The main statement is `Record.satisfies_expanded`.
-/

namespace FlatQuery

def Operand.IsScalar : Operand → Prop
  | list _ => False
  | _      => True

namespace Condition

-- Two trees that differ in one entry, which is `c` in the first and `d` in the second one.
-- It stands at their own level or in one of their groups, however deep.
inductive Replaced (c d : Condition) : List Condition → List Condition → Prop
  | here {tree}              : Replaced c d (c :: tree) (d :: tree)
  | behind {e tree tree'}    :
    Replaced c d tree tree' → Replaced c d (e :: tree) (e :: tree')
  | inAny {group group' tree} :
    Replaced c d group group' → Replaced c d (.any group :: tree) (.any group' :: tree)
  | inAll {group group' tree} :
    Replaced c d group group' → Replaced c d (.all group :: tree) (.all group' :: tree)

-- Equality with one of the values, as a group. The tree around the alternatives keeps them from
-- accepting the record by themselves.
def isOneOf (name : String) (vs : List Operand) : Condition :=
  .all [.any (vs.map (field name .eq))]

def isNoneOf (name : String) (vs : List Operand) : Condition :=
  .all (vs.map (field name .ne))

variable {r : Record} {c d : Condition} {tree tree' alternatives : List Condition}

theorem anyHolds_eq_any (alternatives : List Condition) :
    anyHolds r alternatives = alternatives.any (·.holds r) := by
  induction alternatives with
  | nil          => rfl
  | cons c cs ih => rw [anyHolds, List.any_cons, ih]

theorem treeHolds_cons (h : ¬c.isAny) (accepted : Bool) :
    treeHolds r accepted (c :: tree) = (c.holds r && treeHolds r accepted tree) := by
  cases c
  case any       => exact absurd rfl h
  case field     => rfl
  case all group => rfl

theorem treeHolds_any_cons (accepted : Bool) :
    treeHolds r accepted (.any alternatives :: tree) =
    (anyHolds r alternatives || treeHolds r false tree) :=
  rfl

-- A tree without alternatives asks for all its entries.
theorem treeHolds_eq_all (h : ∀ c ∈ tree, ¬c.isAny) :
    treeHolds r true tree = tree.all (·.holds r) := by
  induction tree with
  | nil           => rfl
  | cons c cs ih =>
    obtain ⟨hc, hcs⟩ := List.forall_mem_cons.mp h
    rw [treeHolds_cons hc, List.all_cons, ih hcs]

-- An entry counts by whether it holds, and by whether it is a group of alternatives.
theorem Replaced.congr (h : Replaced c d tree tree') (hc : ¬c.isAny) (hd : ¬d.isAny)
    (he : d.holds r = c.holds r) :
    anyHolds r tree' = anyHolds r tree ∧
    ∀ accepted, treeHolds r accepted tree' = treeHolds r accepted tree := by
  induction h with
  | here =>
    refine ⟨?any, fun accepted => ?tree⟩
    case any  => rw [anyHolds, anyHolds, he]
    case tree => rw [treeHolds_cons hc, treeHolds_cons hd, he]
  | @behind e tree tree' _ ih =>
    refine ⟨?any, fun accepted => ?tree⟩
    case any  => rw [anyHolds, anyHolds, ih.left]
    case tree =>
      by_cases ha : e.isAny
      case neg => rw [treeHolds_cons ha, treeHolds_cons ha, ih.right]
      case pos =>
        cases e
        case any => rw [treeHolds_any_cons, treeHolds_any_cons, ih.right]
        all_goals cases ha
  | inAny _ ih =>
    refine ⟨?any, fun accepted => ?tree⟩
    case any  => rw [anyHolds, anyHolds, holds, holds, ih.left]
    case tree => rw [treeHolds_any_cons, treeHolds_any_cons, ih.left]
  | @inAll group group' tree _ ih =>
    have hg : (all group').holds r = (all group).holds r := ih.right true
    refine ⟨?any, fun accepted => ?tree⟩
    case any  => rw [anyHolds, anyHolds, hg]
    case tree =>
      have ha {group : List Condition} : ¬(all group).isAny := Bool.false_ne_true
      rw [treeHolds_cons ha, treeHolds_cons ha, hg]

end Condition

theorem Operand.equalsAny_of_isScalar {v : Operand} (h : v.IsScalar) (cell : String) :
    v.equalsAny cell = v.equals cell := by
  cases v
  case list => exact h.elim
  all_goals rfl

namespace Record

open Condition

variable {r : Record} {name : String} {vs : List Operand}

theorem holds_eq_list :
    (field name .eq (.list vs)).holds r ↔ ∃ cell ∈ r.cells name, ∃ v ∈ vs, v.equals cell := by
  simp [holds_field_iff, Operator.holds, Operand.equalsAny]

theorem holds_ne_list :
    (field name .ne (.list vs)).holds r ↔ ∃ cell ∈ r.cells name, ∀ v ∈ vs, ¬v.equals cell := by
  simp [holds_field_iff, Operator.holds, Operand.equalsAny]

section

variable (h : ∀ v ∈ vs, v.IsScalar)
include h

theorem holds_isOneOf_iff :
    (isOneOf name vs).holds r ↔ ∃ v ∈ vs, ∃ cell ∈ r.cells name, v.equals cell := by
  rw [isOneOf, Condition.holds, treeHolds_any_cons, treeHolds, Bool.or_false, anyHolds_eq_any,
    List.any_map, List.any_eq_true]
  refine exists_congr fun v => and_congr_right fun hv => ?_
  simp only [Function.comp, holds_field_iff, Operator.holds, Operand.equalsAny_of_isScalar (h v hv)]

theorem holds_isNoneOf_iff :
    (isNoneOf name vs).holds r ↔ ∀ v ∈ vs, ∃ cell ∈ r.cells name, ¬v.equals cell := by
  have ha : ∀ c ∈ vs.map (field name .ne), ¬c.isAny := by simp [isAny]
  rw [isNoneOf, Condition.holds, treeHolds_eq_all ha, List.all_map, List.all_eq_true]
  refine forall₂_congr fun v hv => ?_
  simp only [Function.comp, holds_field_iff, Operator.holds, Operand.equalsAny_of_isScalar (h v hv),
    Bool.not_eq_true', Bool.not_eq_true]

-- Some item for some cell is some cell for some item.
theorem holds_isOneOf : (isOneOf name vs).holds r = (field name .eq (.list vs)).holds r := by
  rw [Bool.eq_iff_iff, holds_isOneOf_iff h, holds_eq_list]
  constructor
  case mp  => exact fun ⟨v, hv, cell, hc, he⟩ => ⟨cell, hc, v, hv, he⟩
  case mpr => exact fun ⟨cell, hc, v, hv, he⟩ => ⟨v, hv, cell, hc, he⟩

-- Not more than one cell is there, so that all items meet the same one.
theorem holds_isNoneOf (hn : vs ≠ [])
    (hr : r.get? name = none ∨ ∃ cell, r.get? name = some (.single cell)) :
    (isNoneOf name vs).holds r = (field name .ne (.list vs)).holds r := by
  have hc : r.cells name = [] ∨ ∃ cell, r.cells name = [cell] := by
    rcases hr with hr | ⟨cell, hr⟩
    case inl =>
      by_cases hi : name = "id"
      case pos => exact .inr ⟨_, (HasCell.id hr hi rfl).cells_eq⟩
      case neg => exact .inl (cells_of_absent hr hi)
    case inr => exact .inr ⟨cell, (HasCell.single hr).cells_eq⟩
  rw [Bool.eq_iff_iff, holds_isNoneOf_iff h, holds_ne_list]
  rcases hc with hc | ⟨cell, hc⟩
  case inl =>
    obtain ⟨v, hv⟩ := List.exists_mem_of_ne_nil vs hn
    simp only [hc, List.not_mem_nil, false_and, exists_false, iff_false]
    exact fun ha => ha v hv
  case inr => simp only [hc, List.mem_singleton, exists_eq_left]

end

-- A comparison with a list of values can be written out, wherever it stands in a tree:
-- 1. `=` as alternatives, one for each value, in a tree of their own.
-- 2. `!=` as a tree with one entry for each value, unless there are several cells or no values.
theorem satisfies_expanded (r : Record) (name : String) (vs : List Operand)
    (h : ∀ v ∈ vs, v.IsScalar) :
    (∀ tree tree', Replaced (field name .eq (.list vs)) (.all [.any (vs.map (field name .eq))])
      tree tree' → r.satisfies tree' = r.satisfies tree) ∧
    (vs ≠ [] → (r.get? name = none ∨ ∃ cell, r.get? name = some (.single cell)) →
      ∀ tree tree', Replaced (field name .ne (.list vs)) (.all (vs.map (field name .ne)))
        tree tree' → r.satisfies tree' = r.satisfies tree) := by
  constructor
  case left =>
    intro tree tree' hr
    exact (hr.congr Bool.false_ne_true Bool.false_ne_true (holds_isOneOf h)).right true
  case right =>
    intro hn hc tree tree' hr
    exact (hr.congr Bool.false_ne_true Bool.false_ne_true (holds_isNoneOf h hn hc)).right true

-- The comparison stands in a tree among alternatives, with a constraint that fails behind them.
-- Of the two cells of `a` one is in the list, and the one cell of `b` is not.
theorem satisfies_expanded_among_alternatives :
    let r : Record := ⟨1, [("a", .multi ["1", "2"]), ("b", .single "x")]⟩
    let vs : List Operand := [.text "2", .text "3"]
    let tree (c : Condition) : List Condition :=
      [.any [.all [.field "b" .eq (.text "x"), c]], .field "b" .eq (.text "y")]
    (∀ v ∈ vs, v.IsScalar) ∧ r.satisfies (tree (.field "a" .eq (.list vs))) ∧
    r.satisfies (tree (.all [.any (vs.map (field "a" .eq))])) =
      r.satisfies (tree (.field "a" .eq (.list vs))) ∧
    r.satisfies (tree (.all (vs.map (field "b" .ne)))) =
      r.satisfies (tree (.field "b" .ne (.list vs))) := by
  intro r vs tree
  have hs : ∀ v ∈ vs, v.IsScalar := by simp [vs, Operand.IsScalar]
  have hr (c d : Condition) : Replaced c d (tree c) (tree d) := .inAny (.inAll (.behind .here))
  exact ⟨hs, by decide, (satisfies_expanded r "a" vs hs).left _ _ (hr ..),
    (satisfies_expanded r "b" vs hs).right (by simp [vs]) (.inr ⟨"x", rfl⟩) _ _ (hr ..)⟩

-- Without a tree of their own the alternatives let the record pass whatever stands behind them.
example :
    let r : Record := ⟨1, [("a", .single "2"), ("b", .single "x")]⟩
    let is (name cell : String) : Condition := .field name .eq (.text cell)
    ¬r.satisfies [.field "a" .eq (.list [.text "2"]), is "b" "y"] ∧
    r.satisfies [.any [is "a" "2"], is "b" "y"] := by
  decide

end Record
end FlatQuery

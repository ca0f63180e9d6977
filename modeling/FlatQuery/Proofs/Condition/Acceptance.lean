import FlatQuery.Condition.Match

/-!
Which records a tree of conditions accepts, said without the order in which its entries are looked
at. The main statement is `Record.satisfies_closed_form`.
-/

namespace FlatQuery

namespace Condition

-- Whether an entry is a group of alternatives.
def isAny : Condition → Bool
  | any _ => true
  | _     => false

-- A nested tree is satisfied in one of two ways:
-- 1. `all`: it has no alternatives at its own level, and every entry is satisfied.
-- 2. `rescued`: one of the alternatives of some entry is satisfied, and so is every entry before
--    this one that is not a group of alternatives itself. What comes after it does not count.
inductive Satisfied (r : Record) : Condition → Prop
  | field {name op value} :
    ((r.cells name).any fun cell => op.holds cell value) → Satisfied r (.field name op value)
  | any {c alternatives} :
    (c ∈ alternatives) → (Satisfied r c) → Satisfied r (.any alternatives)
  | all {tree} :
    (∀ c ∈ tree, ¬c.isAny) → (∀ c ∈ tree, Satisfied r c) → Satisfied r (.all tree)
  | rescued {c before alternatives after} :
    (c ∈ alternatives) → (Satisfied r c) → (∀ d ∈ before, ¬d.isAny → Satisfied r d) →
    Satisfied r (.all (before ++ .any alternatives :: after))

end Condition

namespace Record

open Condition

-- A tree without alternatives of which every entry is satisfied.
def AcceptsPlainly (r : Record) (tree : List Condition) : Prop :=
  (∀ c ∈ tree, ¬c.isAny) ∧ (∀ c ∈ tree, c.Satisfied r)

-- A tree in which alternatives are satisfied, and every other entry before them.
def AcceptsByRescue (r : Record) (tree : List Condition) : Prop :=
  ∃ before alternatives after,
    tree = before ++ .any alternatives :: after ∧
    (∃ c ∈ alternatives, c.Satisfied r) ∧
    (∀ c ∈ before, ¬c.isAny → c.Satisfied r)

def Accepts (r : Record) (tree : List Condition) : Prop :=
  r.AcceptsPlainly tree ∨ r.AcceptsByRescue tree

variable {r : Record} {c : Condition} {tree alternatives : List Condition}

theorem not_acceptsByRescue_nil : ¬r.AcceptsByRescue [] := by
  rintro ⟨before, _, _, h, _⟩
  cases before <;> simp at h

theorem acceptsPlainly_nil : r.AcceptsPlainly [] := by
  simp [AcceptsPlainly]

theorem not_acceptsPlainly_any_cons : ¬r.AcceptsPlainly (.any alternatives :: tree) := by
  simp [AcceptsPlainly, isAny]

theorem acceptsPlainly_cons (h : ¬c.isAny) :
    r.AcceptsPlainly (c :: tree) ↔ c.Satisfied r ∧ r.AcceptsPlainly tree := by
  simp only [AcceptsPlainly, List.forall_mem_cons, h, Bool.false_eq_true, not_false_eq_true,
    true_and]
  exact and_left_comm

-- Alternatives that fail leave it to later ones to rescue the record.
theorem acceptsByRescue_any_cons :
    r.AcceptsByRescue (.any alternatives :: tree) ↔
    (∃ c ∈ alternatives, c.Satisfied r) ∨ r.AcceptsByRescue tree := by
  constructor
  case mp =>
    rintro ⟨before, alts, after, h, hs, hb⟩
    cases before
    case nil =>
      simp only [List.nil_append, List.cons.injEq, any.injEq] at h
      exact .inl (h.left ▸ hs)
    case cons hd before =>
      simp only [List.cons_append, List.cons.injEq] at h
      exact .inr ⟨before, alts, after, h.right, hs, fun c hc => hb c (.tail _ hc)⟩
  case mpr =>
    rintro (hs | ⟨before, alts, after, h, hs, hb⟩)
    case inl => exact ⟨[], alternatives, tree, rfl, hs, by simp⟩
    case inr =>
      refine ⟨.any alternatives :: before, alts, after, by simp [h], hs, ?_⟩
      simpa [isAny] using hb

theorem acceptsByRescue_cons (h : ¬c.isAny) :
    r.AcceptsByRescue (c :: tree) ↔ c.Satisfied r ∧ r.AcceptsByRescue tree := by
  constructor
  case mp =>
    rintro ⟨before, alts, after, ht, hs, hb⟩
    cases before
    case nil =>
      simp only [List.nil_append, List.cons.injEq] at ht
      simp [ht.left, isAny] at h
    case cons hd before =>
      simp only [List.cons_append, List.cons.injEq] at ht
      have hc := hb hd (.head _) (ht.left ▸ h)
      exact ⟨ht.left ▸ hc, before, alts, after, ht.right, hs, fun d hd => hb d (.tail _ hd)⟩
  case mpr =>
    rintro ⟨hc, before, alts, after, ht, hs, hb⟩
    refine ⟨c :: before, alts, after, by simp [ht], hs, ?_⟩
    simp only [List.forall_mem_cons]
    exact ⟨fun _ => hc, hb⟩

end Record

namespace Condition

open Record

variable {r : Record} {tree alternatives : List Condition}

theorem satisfied_field_iff {name : String} {op : Operator} {value : Operand} :
    (field name op value).Satisfied r ↔ (r.cells name).any fun cell => op.holds cell value where
  mp  := fun | .field h => h
  mpr := .field

theorem satisfied_any_iff :
    (any alternatives).Satisfied r ↔ ∃ c ∈ alternatives, c.Satisfied r where
  mp  := fun | .any hc hs => ⟨_, hc, hs⟩
  mpr := fun ⟨_, hc, hs⟩ => .any hc hs

theorem satisfied_all_iff : (all tree).Satisfied r ↔ r.Accepts tree := by
  constructor
  case mp =>
    intro h
    cases h
    case all hp hs        => exact .inl ⟨hp, hs⟩
    case rescued hc hs hb => exact .inr ⟨_, _, _, rfl, ⟨_, hc, hs⟩, hb⟩
  case mpr =>
    rintro (⟨hp, hs⟩ | ⟨_, _, _, rfl, ⟨_, hc, hs⟩, hb⟩)
    case inl => exact .all hp hs
    case inr => exact .rescued hc hs hb

end Condition

mutual

theorem Condition.holds_iff (r : Record) : (c : Condition) → (c.holds r ↔ c.Satisfied r)
  | .field ..         => by simp [Condition.holds, Condition.satisfied_field_iff]
  | .any alternatives => by
    simp [Condition.holds, Condition.satisfied_any_iff, anyHolds_iff r alternatives]
  | .all tree         => by
    simp [Condition.holds, Condition.satisfied_all_iff, Record.Accepts, treeHolds_iff r true tree]

theorem anyHolds_iff (r : Record) :
    (alternatives : List Condition) → (anyHolds r alternatives ↔ ∃ c ∈ alternatives, c.Satisfied r)
  | []      => by simp [anyHolds]
  | c :: cs => by simp [anyHolds, Condition.holds_iff r c, anyHolds_iff r cs]

-- Behind alternatives that have failed a tree is accepted by rescue only.
theorem treeHolds_iff (r : Record) (accepted : Bool) :
    (tree : List Condition) →
    (treeHolds r accepted tree ↔ (accepted ∧ r.AcceptsPlainly tree) ∨ r.AcceptsByRescue tree)
  | [] => by simp [treeHolds, Record.acceptsPlainly_nil, Record.not_acceptsByRescue_nil]
  | .any alternatives :: tree => by
    simp [treeHolds, anyHolds_iff r alternatives, treeHolds_iff r false tree,
      Record.not_acceptsPlainly_any_cons, Record.acceptsByRescue_any_cons]
  | .field name op value :: tree => by
    have h : ¬(Condition.field name op value).isAny := by simp [Condition.isAny]
    simp only [treeHolds, Bool.and_eq_true, Condition.holds_iff r (.field name op value),
      treeHolds_iff r accepted tree, Record.acceptsPlainly_cons h, Record.acceptsByRescue_cons h]
    rw [and_left_comm, ←and_or_left]
  | .all group :: tree => by
    have h : ¬(Condition.all group).isAny := by simp [Condition.isAny]
    simp only [treeHolds, Bool.and_eq_true, Condition.holds_iff r (.all group),
      treeHolds_iff r accepted tree, Record.acceptsPlainly_cons h, Record.acceptsByRescue_cons h]
    rw [and_left_comm, ←and_or_left]

end

namespace Record

theorem satisfies_iff (r : Record) (tree : List Condition) : r.satisfies tree ↔ r.Accepts tree := by
  simp [satisfies, Accepts, treeHolds_iff]

-- Which trees a record satisfies, and what it means for each kind of entry to be satisfied.
-- An entry that is no group of alternatives is required in front of whatever follows it.
theorem satisfies_closed_form (r : Record) :
    (∀ tree, r.satisfies tree ↔
      ((∀ c ∈ tree, ¬c.isAny) ∧ (∀ c ∈ tree, c.Satisfied r)) ∨
      (∃ before alternatives after, tree = before ++ .any alternatives :: after ∧
        (∃ c ∈ alternatives, c.Satisfied r) ∧ (∀ c ∈ before, ¬c.isAny → c.Satisfied r))) ∧
    (∀ c : Condition, c.holds r ↔ c.Satisfied r) ∧
    (∀ name op value, (Condition.field name op value).Satisfied r ↔
      (r.cells name).any fun cell => op.holds cell value) ∧
    (∀ tree, (Condition.all tree).Satisfied r ↔ r.satisfies tree) ∧
    (∀ alternatives, (Condition.any alternatives).Satisfied r ↔
      ∃ c ∈ alternatives, c.Satisfied r) ∧
    (∀ c tree, ¬c.isAny → r.satisfies (c :: tree) = (r.satisfies [c] && r.satisfies tree)) := by
  refine ⟨r.satisfies_iff, Condition.holds_iff r, ?field, ?all, ?any, ?cons⟩
  case field => exact fun _ _ _ => Condition.satisfied_field_iff
  case all   => exact fun tree => Condition.satisfied_all_iff.trans (r.satisfies_iff tree).symm
  case any   => exact fun _ => Condition.satisfied_any_iff
  case cons  =>
    intro c tree h
    rw [Bool.eq_iff_iff, Bool.and_eq_true, r.satisfies_iff, r.satisfies_iff, r.satisfies_iff]
    simp only [Accepts, acceptsPlainly_cons h, acceptsByRescue_cons h, acceptsPlainly_nil,
      not_acceptsByRescue_nil, and_true, and_false, or_false]
    rw [←and_or_left]

-- The first alternatives fail, the second ones rescue the record, and `x` is not looked at.
theorem satisfies_rescued_behind_constraint :
    let r : Record := ⟨1, [("x", .single "0"), ("y", .single "2")]⟩
    let is (name cell : String) : Condition := .field name .eq (.text cell)
    let tree := [.any [is "y" "3"], .any [.all [is "y" "2"]], is "x" "1"]
    ¬(is "y" "2").isAny ∧ r.satisfies tree ∧
    r.satisfies (is "y" "2" :: tree) = (r.satisfies [is "y" "2"] && r.satisfies tree) :=
  ⟨by decide, by decide, (satisfies_closed_form _).2.2.2.2.2 _ _ (by decide)⟩

end Record
end FlatQuery

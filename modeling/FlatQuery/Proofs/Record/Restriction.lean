import FlatQuery.Record
import Mathlib.Data.List.Basic

/-!
Records with some of their fields. A record that is made of the cells of some names alone is that of
all cells, restricted to these names.
-/

namespace FlatQuery

-- The names at the positions of cells, with these cells.
theorem Schema.filterMap_zipIdx (names cells : List String) (n : Nat) :
    ((names.zipIdx n).filterMap fun p => (cells[p.2]?).map (p.1, ·)) =
    names.zip (cells.drop n) := by
  induction names generalizing n with
  | nil => rfl
  | cons name names ih =>
    rw [List.zipIdx_cons, List.filterMap_cons, ih]
    cases hc : cells[n]?
    case none =>
      have hn : cells.length ≤ n := List.getElem?_eq_none_iff.mp hc
      simp [List.drop_of_length_le, hn, Nat.le_succ_of_le hn]
    case some cell =>
      obtain ⟨hn, rfl⟩ := List.getElem?_eq_some_iff.mp hc
      rw [List.drop_eq_getElem_cons hn]
      rfl

-- What stands at the positions of some names.
theorem Schema.filterMap_positionsOf (s : Schema) (requested cells : List String) :
    ((s.positionsOf requested).filterMap fun i => do return (← s.name? i, ← cells[i]?)) =
    (s.names.zip cells).filter (·.1 ∈ requested) := by
  have hz := filterMap_zipIdx s.names cells 0
  rw [List.drop_zero] at hz
  rw [←hz, positionsOf, List.filterMap_filterMap, List.filter_filterMap]
  refine List.filterMap_congr ?_
  rintro ⟨name, i⟩ hm
  have hn : s.name? i = some name := (List.mem_zipIdx_iff_getElem?).mp hm
  by_cases hr : name ∈ requested <;> cases hc : cells[i]? <;> simp [hr, hn, hc, Option.filter]

namespace Record

theorem id_ofPairs (id : Nat) (pairs : List (String × String)) : (ofPairs id pairs).id = id := by
  have h (r : Record) : (pairs.foldl (fun r p => r.insert p.1 p.2) r).id = r.id := by
    induction pairs generalizing r with
    | nil => rfl
    | cons p pairs ih => exact ih (r.insert p.1 p.2)
  exact h _

-- The fields of a record that have one of some names.
def restrict (names : List String) (r : Record) : Record :=
  { r with fields := r.fields.filter (·.1 ∈ names) }

theorem insertField_filter (names : List String) (name cell : String)
    (fs : List (String × FieldValue)) :
    (insertField name cell fs).filter (·.1 ∈ names) =
    if name ∈ names then insertField name cell (fs.filter (·.1 ∈ names))
    else fs.filter (·.1 ∈ names) := by
  induction fs with
  | nil => by_cases hn : name ∈ names <;> simp [insertField, hn]
  | cons f fs ih =>
    by_cases hf : f.1 = name
    case pos => by_cases hn : name ∈ names <;> simp [insertField, hf, hn]
    case neg =>
      simp only [insertField, hf, ↓reduceIte, List.filter_cons, ih]
      by_cases hm : f.1 ∈ names <;> by_cases hn : name ∈ names <;> simp [insertField, hf, hm, hn]

theorem restrict_insert (names : List String) (r : Record) (name cell : String) :
    (r.insert name cell).restrict names =
    if name ∈ names then (r.restrict names).insert name cell else r.restrict names := by
  simp only [restrict, insert, insertField_filter]
  split <;> rfl

-- The cells of other names make no difference.
theorem restrict_ofPairs (names : List String) (id : Nat) (pairs : List (String × String)) :
    (ofPairs id pairs).restrict names = ofPairs id (pairs.filter (·.1 ∈ names)) := by
  suffices h : ∀ r : Record, (pairs.foldl (fun r p => r.insert p.1 p.2) r).restrict names =
      (pairs.filter (·.1 ∈ names)).foldl (fun r p => r.insert p.1 p.2) (r.restrict names) from
    h (empty id)
  induction pairs with
  | nil => intro r; rfl
  | cons p pairs ih =>
    intro r
    rw [List.foldl_cons, ih, restrict_insert]
    by_cases hp : p.1 ∈ names <;> simp [hp]

theorem project_eq_restrict (id : Nat) (schema : Schema) (cells names : List String) :
    project id schema cells (schema.positionsOf names) =
    (decode id schema cells).restrict names := by
  rw [project, decode, restrict_ofPairs, schema.filterMap_positionsOf]

end Record
end FlatQuery

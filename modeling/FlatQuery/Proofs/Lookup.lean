import Mathlib.Data.List.Basic

/-!
Lists of things with names: what is found under a name.
-/

namespace FlatQuery

variable {α : Type} {name removed : String} {es : List (String × α)}

theorem lookup_cons_eq_ite (e : String × α) :
    (e :: es).lookup name = if name = e.1 then some e.2 else es.lookup name := by
  rw [List.lookup_cons]
  by_cases h : name = e.1
  case pos => simp [h]
  case neg => simp [h, beq_false_of_ne h]

theorem lookup_isSome_iff : (es.lookup name).isSome ↔ name ∈ es.map (·.1) := by
  induction es with
  | nil => simp
  | cons e es ih =>
    rw [lookup_cons_eq_ite, List.map_cons, List.mem_cons, ←ih]
    split <;> simp [*]

theorem lookup_filter_ne :
    (es.filter (·.1 ≠ removed)).lookup name = if name = removed then none else es.lookup name := by
  induction es with
  | nil => simp
  | cons e es ih =>
    rw [List.filter_cons, lookup_cons_eq_ite e]
    split
    case isTrue he =>
      have he : e.1 ≠ removed := by simpa using he
      rw [lookup_cons_eq_ite, ih]
      by_cases h : name = e.1 <;> simp [h, he]
    case isFalse he =>
      have he : e.1 = removed := by simpa using he
      rw [ih]
      by_cases h : name = removed <;> simp [h, he]

theorem mem_of_lookup {a : α} (h : es.lookup name = some a) : (name, a) ∈ es := by
  obtain ⟨before, behind, rfl, -⟩ := List.lookup_eq_some_iff.mp h
  exact List.mem_append_cons_self

end FlatQuery

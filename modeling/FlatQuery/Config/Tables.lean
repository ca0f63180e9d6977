import FlatQuery.Schema

/-!
Tables with a configured schema, in the order of their names.
-/

namespace FlatQuery

@[ext]
structure Tables where
  entries : List (String × Schema)
  sorted : entries.Pairwise (·.1 < ·.1)
  deriving DecidableEq, Repr

namespace Tables

def empty : Tables :=
  ⟨[], .nil⟩

def insertEntry (name : String) (schema : Schema) :
    List (String × Schema) → List (String × Schema)
  | [] => [(name, schema)]
  | e :: es =>
    if name < e.1 then (name, schema) :: e :: es
    else if name = e.1 then (name, schema) :: es
    else e :: insertEntry name schema es

theorem mem_insertEntry {name : String} {schema : Schema} {e : String × Schema}
    {es : List (String × Schema)} (h : e ∈ insertEntry name schema es) :
    e = (name, schema) ∨ e ∈ es := by
  induction es with
  | nil => simp_all [insertEntry]
  | cons f es ih =>
    simp only [insertEntry] at h
    split at h
    · simp_all
    · split at h
      · simp_all
        exact h.imp_right .inr
      · rcases List.mem_cons.mp h with rfl | h
        · simp
        · exact (ih h).imp_right (List.mem_cons_of_mem _)

theorem sorted_insertEntry {name : String} {schema : Schema} {es : List (String × Schema)}
    (h : es.Pairwise (·.1 < ·.1)) : (insertEntry name schema es).Pairwise (·.1 < ·.1) := by
  induction es with
  | nil => simp [insertEntry]
  | cons e es ih =>
    obtain ⟨he, hes⟩ := List.pairwise_cons.mp h
    simp only [insertEntry]
    split
    case isTrue hl =>
      refine List.pairwise_cons.mpr ⟨fun f hf => ?_, h⟩
      rcases List.mem_cons.mp hf with rfl | hf
      · exact hl
      · exact String.lt_trans hl (he f hf)
    case isFalse hl =>
      split
      case isTrue hn => exact List.pairwise_cons.mpr ⟨by simpa [hn] using he, hes⟩
      case isFalse hn =>
        refine List.pairwise_cons.mpr ⟨fun f hf => ?_, ih hes⟩
        rcases mem_insertEntry hf with rfl | hf
        · exact Std.lt_of_le_of_ne (String.not_lt.mp hl) (Ne.symm hn)
        · exact he f hf

-- Gives a table a schema, in place of the one it has.
def insert (t : Tables) (name : String) (schema : Schema) : Tables :=
  ⟨insertEntry name schema t.entries, sorted_insertEntry t.sorted⟩

def get? (t : Tables) (name : String) : Option Schema :=
  t.entries.lookup name

def size (t : Tables) : Nat :=
  t.entries.length

end Tables
end FlatQuery

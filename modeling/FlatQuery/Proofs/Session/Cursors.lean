import FlatQuery.Proofs.Lookup
import FlatQuery.Session.Basic

/-!
The cursors of a session as a table: what stands under a name when the cursor of one name has been
put or removed.
-/

namespace FlatQuery.Session

variable {table t : String} {c c' : Cursor} {cs : List (String × Cursor)}

theorem lookup_putCursor :
    (putCursor table c cs).lookup t = if t = table then some c else cs.lookup t := by
  induction cs with
  | nil => simp [putCursor, lookup_cons_eq_ite]
  | cons e cs ih =>
    simp only [putCursor]
    split
    case isTrue he =>
      by_cases h : t = table <;> simp [lookup_cons_eq_ite, h, he]
    case isFalse he =>
      by_cases h : t = e.1
      case pos => simp [lookup_cons_eq_ite, h, he]
      case neg => simp [lookup_cons_eq_ite, h, ih]

-- A table keeps its place, and a new one comes last.
theorem names_putCursor :
    (putCursor table c cs).map (·.1) =
      if (cs.lookup table).isSome then cs.map (·.1) else cs.map (·.1) ++ [table] := by
  induction cs with
  | nil => simp [putCursor]
  | cons e cs ih =>
    simp only [putCursor, lookup_cons_eq_ite e]
    by_cases he : e.1 = table
    case pos => simp [he]
    case neg =>
      simp only [he, Ne.symm he, ↓reduceIte, List.map_cons, ih, List.cons_append]
      split <;> rfl

theorem nodup_putCursor (h : (cs.map (·.1)).Nodup) :
    ((putCursor table c cs).map (·.1)).Nodup := by
  rw [names_putCursor]
  split
  case isTrue     => exact h
  case isFalse ho =>
    rw [lookup_isSome_iff] at ho
    exact List.nodup_append.mpr ⟨h, by simp, by grind⟩

theorem mem_putCursor {e : String × Cursor} (h : e ∈ putCursor table c cs) :
    e = (table, c) ∨ e ∈ cs := by
  induction cs with
  | nil => exact .inl (List.mem_singleton.mp h)
  | cons e' cs ih =>
    simp only [putCursor] at h
    split at h
    case isTrue  => exact (List.mem_cons.mp h).imp_right (List.mem_cons_of_mem _)
    case isFalse =>
      rcases List.mem_cons.mp h with rfl | h
      · exact .inr List.mem_cons_self
      · exact (ih h).imp_right (List.mem_cons_of_mem _)

-- Only the last cursor that is put for a table stays.
theorem putCursor_putCursor :
    putCursor table c' (putCursor table c cs) = putCursor table c' cs := by
  induction cs with
  | nil => simp [putCursor]
  | cons e cs ih =>
    simp only [putCursor]
    split
    case isTrue he  => simp [putCursor]
    case isFalse he => simp [putCursor, he, ih]

theorem length_putCursor :
    (putCursor table c cs).length =
      if (cs.lookup table).isSome then cs.length else cs.length + 1 := by
  have h : (putCursor table c cs).map (·.1) = _ := names_putCursor
  have hl := congrArg List.length h
  rw [List.length_map] at hl
  rw [hl]
  split <;> simp

-- A table that has one cursor only is gone without it.
theorem length_filter_ne (hn : (cs.map (·.1)).Nodup) (ho : (cs.lookup table).isSome) :
    (cs.filter (·.1 ≠ table)).length + 1 = cs.length := by
  have hm := lookup_isSome_iff.mp ho
  have he : (cs.filter (·.1 ≠ table)).map (·.1) = (cs.map (·.1)).erase table := by
    rw [hn.erase_eq_filter, List.filter_map]
    congr
    funext e
    by_cases h : e.1 = table <;> simp [h]
  have hl := congrArg List.length he
  have hp := List.length_pos_of_mem hm
  rw [List.length_erase_of_mem hm, List.length_map, List.length_map] at hl
  rw [List.length_map] at hp
  omega

end FlatQuery.Session

import FlatQuery.Proofs.Record.Grouping

/-!
What the JSON form of a record tells about a field, whether other fields are selected with it or
not. The main statement is `Record.project_agrees_iff`.
-/

namespace FlatQuery

theorem FieldValue.toJson_ne_ofNat (v : FieldValue) (n : Nat) : v.toJson ≠ .ofNat n := by
  cases v <;> exact nofun

namespace Record

variable {names : List String} {r : Record} {key : String} {v v' : Json}

theorem mem_members_iff :
    (key, v) ∈ r.members ↔
    "id" ∉ r.names ∧ key = "id" ∧ v = .ofNat r.id ∨ ∃ f ∈ r.fields, f.1 = key ∧ f.2.toJson = v := by
  by_cases hi : "id" ∈ r.names <;> simp [members, hi]

theorem mem_names_restrict : key ∈ (r.restrict names).names ↔ key ∈ r.names ∧ key ∈ names := by
  simp only [Record.names, restrict, List.mem_map, List.mem_filter, decide_eq_true_eq]
  constructor
  case mp  =>
    rintro ⟨f, ⟨hf, hn⟩, rfl⟩
    exact ⟨⟨f, hf, rfl⟩, hn⟩
  case mpr =>
    rintro ⟨⟨f, hf, rfl⟩, hn⟩
    exact ⟨f, ⟨hf, hn⟩, rfl⟩

-- Only the id can be there in the restricted record and not in the other one.
theorem mem_members_of_restrict (hk : key = "id" → "id" ∈ r.names → "id" ∈ names)
    (h : (key, v) ∈ (r.restrict names).members) : (key, v) ∈ r.members := by
  rw [mem_members_iff] at h ⊢
  obtain ⟨hi, rfl, rfl⟩ | ⟨f, hf, he⟩ := h
  case inl =>
    have hi : "id" ∉ r.names := fun hr => hi (mem_names_restrict.mpr ⟨hr, hk rfl hr⟩)
    exact .inl ⟨hi, rfl, rfl⟩
  case inr => exact .inr ⟨f, List.mem_of_mem_filter hf, he⟩

theorem eq_of_mem_members (hn : r.names.Nodup) (h : (key, v) ∈ r.members)
    (h' : (key, v') ∈ r.members) : v' = v := by
  have he := List.inj_on_of_nodup_map (nodup_members hn) h' h rfl
  exact congrArg Prod.snd he

-- An id of the schema that is not selected is replaced by the number of the line.
theorem exists_mem_members_of_not_mem (hi : "id" ∈ r.names) (hn : "id" ∉ names) :
    ∃ v v', ("id", v) ∈ r.members ∧ ("id", v') ∈ (r.restrict names).members ∧ v' ≠ v := by
  obtain ⟨f, hf, he⟩ := List.mem_map.mp hi
  have hp : "id" ∉ (r.restrict names).names := fun h => hn (mem_names_restrict.mp h).right
  exact ⟨f.2.toJson, .ofNat r.id, mem_members_iff.mpr (.inr ⟨f, hf, he, rfl⟩),
    mem_members_iff.mpr (.inl ⟨hp, rfl, rfl⟩), (f.2.toJson_ne_ofNat r.id).symm⟩

variable {schema : Schema} {cells : List String}

-- 1. The fields of a record that are selected have the same values as in the whole record.
-- 2. This is true of the id as well, and so of all members that are in both JSON forms, exactly if
--    the schema has no field named `id` or this field is selected.
theorem project_agrees_iff (id : Nat) (h : schema.width ≤ cells.length) (names : List String) :
    ∃ whole part, (decode id schema cells).toJson = .object whole ∧
      (project id schema cells (schema.positionsOf names)).toJson = .object part ∧
      (∀ key ≠ "id", ∀ v v', (key, v) ∈ whole → (key, v') ∈ part → v' = v) ∧
      ((∀ key v v', (key, v) ∈ whole → (key, v') ∈ part → v' = v) ↔
        ("id" ∈ schema.names → "id" ∈ names)) := by
  have hd : (decode id schema cells).names.Nodup := nodup_names_ofPairs ..
  have hi : "id" ∈ (decode id schema cells).names ↔ "id" ∈ schema.names := by
    rw [Record.names, (groups_decode id h).names, List.mem_eraseDups]
  refine ⟨_, _, toJson_eq_object _, toJson_eq_object _, ?fields, ?mp, ?mpr⟩
  all_goals rw [project_eq_restrict]
  case fields =>
    intro key hk v v' hv hv'
    exact eq_of_mem_members hd hv (mem_members_of_restrict (fun he => absurd he hk) hv')
  case mp =>
    intro ha hs
    by_contra hn
    obtain ⟨v, v', hv, hv', hne⟩ := exists_mem_members_of_not_mem (hi.mpr hs) hn
    exact hne (ha "id" v v' hv hv')
  case mpr =>
    intro hs key v v' hv hv'
    exact eq_of_mem_members hd hv (mem_members_of_restrict (fun _ hr => hs (hi.mp hr)) hv')

-- The id that the schema declares is selected together with another field.
theorem project_agrees_iff_selected_id :
    let schema : Schema := ⟨["id", "name"], by decide, by decide⟩
    let cells := ["A-17", "Ann"]
    schema.width ≤ cells.length ∧
    ∃ whole part, (decode 1 schema cells).toJson = .object whole ∧
      (project 1 schema cells (schema.positionsOf ["name", "id"])).toJson = .object part ∧
      ∀ key v v', (key, v) ∈ whole → (key, v') ∈ part → v' = v := by
  intro schema cells
  have hw : schema.width ≤ cells.length := by decide
  obtain ⟨whole, part, hd, hp, _, ha⟩ := project_agrees_iff 1 hw ["name", "id"]
  exact ⟨hw, whole, part, hd, hp, ha.mpr fun _ => by decide⟩

-- Where the other field alone is selected, the id is the number of the line.
theorem not_project_agrees_unselected_id :
    let schema : Schema := ⟨["id", "name"], by decide, by decide⟩
    let cells := ["A-17", "Ann"]
    ¬∀ whole part, (decode 1 schema cells).toJson = .object whole →
      (project 1 schema cells (schema.positionsOf ["name"])).toJson = .object part →
      ∀ key v v', (key, v) ∈ whole → (key, v') ∈ part → v' = v := by
  intro schema cells ha
  have he : Json.ofNat 1 = .string "A-17" :=
    ha _ _ rfl rfl "id" (.string "A-17") (.ofNat 1) List.mem_cons_self List.mem_cons_self
  cases he

end Record
end FlatQuery

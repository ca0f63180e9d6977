import FlatQuery.Proofs.Lookup
import FlatQuery.Proofs.Record.Restriction
import Mathlib.Data.List.Induction
import Mathlib.Data.List.Nodup

/-!
Records as groups of cells. The record of a row has one field for each name of the schema, and in it
are all cells under this name. The main statement is `Record.decode_groups`.
-/

namespace FlatQuery

-- The field that the cells under one name make up. Without cells there is none.
def FieldValue.ofCells? : List String → Option FieldValue
  | []     => none
  | [cell] => some (single cell)
  | cells  => some (multi cells)

theorem FieldValue.ofCells?_concat (cells : List String) (cell : String) :
    ofCells? (cells ++ [cell]) = some ((ofCells? cells).elim (single cell) (push cell)) := by
  cases cells
  case nil             => rfl
  case cons first rest => cases rest <;> rfl

theorem FieldValue.ofCells?_of_one_lt {cells : List String} (h : 1 < cells.length) :
    ofCells? cells = some (multi cells) := by
  cases cells
  case nil             => cases h
  case cons first rest =>
    cases rest
    case nil  => exact absurd h (Nat.lt_irrefl 1)
    case cons => rfl

-- The cells under a name.
def cellsUnder (name : String) (pairs : List (String × String)) : List String :=
  (pairs.filter (·.1 = name)).map (·.2)

theorem cellsUnder_concat (name : String) (pairs : List (String × String)) (p : String × String) :
    cellsUnder name (pairs ++ [p]) =
    if p.1 = name then cellsUnder name pairs ++ [p.2] else cellsUnder name pairs := by
  by_cases hp : p.1 = name <;> simp [cellsUnder, hp]

namespace Record

def names (r : Record) : List String :=
  r.fields.map (·.1)

-- The cells of all fields.
def allCells (r : Record) : List String :=
  r.fields.flatMap (·.2.cells)

-- The members of the JSON form of a record.
def members (r : Record) : List (String × Json) :=
  (if "id" ∈ r.names then [] else [("id", .ofNat r.id)]) ++ r.fields.map fun f => (f.1, f.2.toJson)

variable {id : Nat} {name cell : String} {fs : List (String × FieldValue)} {r : Record}
  {pairs : List (String × String)}

theorem toJson_eq_object (r : Record) : r.toJson = .object r.members := by
  have hm : (r.get? "id").isSome ↔ "id" ∈ r.names := lookup_isSome_iff
  by_cases h : "id" ∈ r.names
  case pos => simp [toJson, members, hm.mpr h, h]
  case neg => simp [toJson, members, hm.not.mpr h, h]

theorem names_insertField :
    (insertField name cell fs).map (·.1) =
    if name ∈ fs.map (·.1) then fs.map (·.1) else fs.map (·.1) ++ [name] := by
  induction fs with
  | nil => simp [insertField]
  | cons f fs ih =>
    by_cases hf : f.1 = name
    case pos => simp [insertField, hf]
    case neg =>
      simp only [insertField, hf, ↓reduceIte, List.map_cons, ih, List.mem_cons, Ne.symm hf,
        false_or]
      split <;> rfl

theorem lookup_insertField (n : String) :
    (insertField name cell fs).lookup n =
    if n = name then some ((fs.lookup name).elim (.single cell) (.push cell)) else fs.lookup n := by
  induction fs with
  | nil => simp [insertField, lookup_cons_eq_ite]
  | cons f fs ih =>
    by_cases hf : f.1 = name
    case pos => by_cases hn : n = name <;> simp [insertField, lookup_cons_eq_ite, hf, hn]
    case neg =>
      simp only [insertField, hf, ↓reduceIte, lookup_cons_eq_ite, ih, Ne.symm hf]
      by_cases hn : n = f.1 <;> simp [hn, hf]

theorem perm_cells_insertField :
    ((insertField name cell fs).flatMap (·.2.cells)).Perm (fs.flatMap (·.2.cells) ++ [cell]) := by
  induction fs with
  | nil => exact .refl _
  | cons f fs ih =>
    by_cases hf : f.1 = name
    case pos =>
      simp only [insertField, hf, ↓reduceIte, List.flatMap_cons, FieldValue.cells_push,
        List.append_assoc]
      exact .append_left _ List.perm_append_comm
    case neg =>
      simp only [insertField, hf, ↓reduceIte, List.flatMap_cons, List.append_assoc]
      exact ih.append_left _

theorem names_insert (r : Record) (name cell : String) :
    (r.insert name cell).names =
    if name ∈ r.names then r.names else r.names ++ [name] :=
  names_insertField

theorem get?_insert (r : Record) (name cell n : String) :
    (r.insert name cell).get? n =
    if n = name then some ((r.get? name).elim (.single cell) (.push cell)) else r.get? n :=
  lookup_insertField n

theorem ofPairs_concat (id : Nat) (pairs : List (String × String)) (p : String × String) :
    ofPairs id (pairs ++ [p]) = (ofPairs id pairs).insert p.1 p.2 :=
  List.foldl_concat ..

-- What one more cell does to the groups is what it does to the cells before it.
theorem names_ofPairs (id : Nat) (pairs : List (String × String)) :
    (ofPairs id pairs).names = (pairs.map (·.1)).eraseDups := by
  induction pairs using List.reverseRecOn with
  | nil => rfl
  | append_singleton pairs p ih =>
    have hm : p.1 ∈ (ofPairs id pairs).names ↔ p.1 ∈ pairs.map (·.1) := ih ▸ List.mem_eraseDups
    rw [ofPairs_concat, names_insert, List.map_append, List.eraseDups_append, ←ih]
    by_cases hp : p.1 ∈ pairs.map (·.1)
    case pos => simp [hm.mpr hp, List.removeAll, hp]
    case neg => simp [hm.not.mpr hp, List.removeAll, hp, List.eraseDups_cons]

theorem nodup_names_ofPairs (id : Nat) (pairs : List (String × String)) :
    (ofPairs id pairs).names.Nodup := by
  induction pairs using List.reverseRecOn with
  | nil => exact .nil
  | append_singleton pairs p ih =>
    rw [ofPairs_concat, names_insert]
    split
    case isTrue     => exact ih
    case isFalse hp => simpa using ih.concat hp

theorem get?_ofPairs (id : Nat) (pairs : List (String × String)) (name : String) :
    (ofPairs id pairs).get? name = FieldValue.ofCells? (cellsUnder name pairs) := by
  induction pairs using List.reverseRecOn with
  | nil => rfl
  | append_singleton pairs p ih =>
    rw [ofPairs_concat, get?_insert, cellsUnder_concat]
    by_cases hp : p.1 = name
    case pos => rw [if_pos hp.symm, if_pos hp, FieldValue.ofCells?_concat, ←ih, hp]
    case neg => rw [if_neg (Ne.symm hp), if_neg hp, ih]

theorem perm_allCells_ofPairs (id : Nat) (pairs : List (String × String)) :
    (ofPairs id pairs).allCells.Perm (pairs.map (·.2)) := by
  induction pairs using List.reverseRecOn with
  | nil => exact .refl _
  | append_singleton pairs p ih =>
    rw [ofPairs_concat, List.map_append, List.map_singleton]
    exact perm_cells_insertField.trans (ih.append_right _)

theorem names_members (r : Record) :
    r.members.map (·.1) = (if "id" ∈ r.names then [] else ["id"]) ++ r.names := by
  rw [members, List.map_append, List.map_map]
  split <;> rfl

theorem nodup_members (h : r.names.Nodup) : (r.members.map (·.1)).Nodup := by
  rw [names_members]
  split
  case isTrue     => exact h
  case isFalse hi => exact List.nodup_cons.mpr ⟨hi, h⟩

theorem id_mem_members (r : Record) : "id" ∈ r.members.map (·.1) := by
  rw [names_members]
  split
  case isTrue hi => exact hi
  case isFalse   => exact List.mem_cons_self

end Record

namespace Schema

variable {cells : List String}

theorem name?_of_mem_positionsOf (s : Schema) {name : String} {i : Nat}
    (h : i ∈ s.positionsOf [name]) : s.name? i = some name := by
  obtain ⟨⟨n, j⟩, hm, hi⟩ := List.mem_filterMap.mp h
  have hn : s.names[j]? = some n := List.mem_zipIdx_iff_getElem?.mp hm
  by_cases he : n = name
  case pos =>
    obtain rfl : j = i := by simpa [he] using hi
    exact he ▸ hn
  case neg => simp [he] at hi

-- What stands at the positions of one name.
theorem map_positionsOf (s : Schema) (name : String) (h : s.width ≤ cells.length) :
    (s.positionsOf [name]).map (cells[·]?) = (cellsUnder name (s.names.zip cells)).map some := by
  have hp : ∀ i ∈ s.positionsOf [name], ∃ cell, cells[i]? = some cell ∧ s.name? i = some name := by
    intro i hi
    have hn := s.name?_of_mem_positionsOf hi
    obtain ⟨hl, _⟩ := List.getElem?_eq_some_iff.mp hn
    exact ⟨_, List.getElem?_eq_getElem (Nat.lt_of_lt_of_le hl h), hn⟩
  calc (s.positionsOf [name]).map (cells[·]?)
    _ = ((s.positionsOf [name]).filterMap fun i => do return (← s.name? i, ← cells[i]?)).map
          (some ·.2) := by
      rw [List.map_filterMap, ←List.filterMap_eq_map]
      refine List.filterMap_congr fun i hi => ?_
      obtain ⟨cell, hc, hn⟩ := hp i hi
      simp [hc, hn]
    _ = (cellsUnder name (s.names.zip cells)).map some := by
      rw [s.filterMap_positionsOf]
      simp [cellsUnder]

-- Cells behind the last name have no name.
theorem zip_take_width (s : Schema) (h : s.width ≤ cells.length) :
    s.names.zip (cells.take s.width) = s.names.zip cells := by
  have hz := @List.zip_eq_zip_take_min _ _ s.names cells
  rw [←width, Nat.min_eq_left h, width, List.take_length] at hz
  exact hz.symm

theorem length_cellsUnder (s : Schema) (name : String) (h : s.width ≤ cells.length) :
    (cellsUnder name (s.names.zip cells)).length = s.names.count name := by
  have hz : (s.names.zip cells).map (·.1) = s.names := List.map_fst_zip h
  calc (cellsUnder name (s.names.zip cells)).length
    _ = (s.names.zip cells).countP (·.1 = name) := by
      rw [cellsUnder, List.length_map, List.countP_eq_length_filter]
    _ = ((s.names.zip cells).map (·.1)).count name := by
      rw [List.count, List.countP_map]
      exact List.countP_congr fun p _ => by simp
    _ = s.names.count name := by rw [hz]

end Schema

namespace Record

-- What is in the record of a row:
-- 1. one field for each name of the schema, in the order in which the names occur first,
-- 2. under a name that occurs once, its one cell,
-- 3. under a name that occurs several times, all its cells in the order of the schema,
-- 4. nothing under other names, and
-- 5. altogether each cell that has a name, once.
structure Groups (schema : Schema) (cells : List String) (r : Record) : Prop where
  names    : r.fields.map (·.1) = schema.names.eraseDups
  single   : ∀ name, schema.names.count name = 1 →
    ∃ i cell, schema.positionsOf [name] = [i] ∧ cells[i]? = some cell ∧
      r.get? name = some (.single cell)
  multi    : ∀ name, 1 < schema.names.count name →
    ∃ found, (schema.positionsOf [name]).map (cells[·]?) = found.map some ∧ 2 ≤ found.length ∧
      r.get? name = some (.multi found)
  other    : ∀ name ∉ schema.names, r.get? name = none
  allCells : r.allCells.Perm (cells.take schema.width)

variable {schema : Schema} {cells : List String}

theorem groups_decode (id : Nat) (h : schema.width ≤ cells.length) :
    Groups schema cells (decode id schema cells) := by
  have hz : (schema.names.zip cells).map (·.1) = schema.names := List.map_fst_zip h
  have hg (name : String) : (decode id schema cells).get? name = _ :=
    get?_ofPairs id (schema.names.zip cells) name
  constructor
  case names => exact hz ▸ names_ofPairs id (schema.names.zip cells)
  case single =>
    intro name hn
    have hp := schema.map_positionsOf name h
    have hl := schema.length_cellsUnder name h
    obtain ⟨cell, hc⟩ := List.length_eq_one_iff.mp (hl.trans hn)
    rw [hc] at hp
    obtain ⟨i, hi, hs⟩ := List.map_eq_singleton_iff.mp hp
    exact ⟨i, cell, hi, hs, by rw [hg, hc]; rfl⟩
  case multi =>
    intro name hn
    have hl := schema.length_cellsUnder name h
    refine ⟨_, schema.map_positionsOf name h, by omega, ?_⟩
    rw [hg, FieldValue.ofCells?_of_one_lt (by omega)]
  case other =>
    intro name hn
    have hl := schema.length_cellsUnder name h
    rw [List.count_eq_zero.mpr hn, List.length_eq_zero_iff] at hl
    rw [hg, hl]
    rfl
  case allCells =>
    have hs : (schema.names.zip cells).map (·.2) = cells.take schema.width := by
      rw [←schema.zip_take_width h]
      exact List.map_snd_zip (List.length_take_le ..)
    exact hs ▸ perm_allCells_ofPairs id (schema.names.zip cells)

-- A row has the record of its named cells, in which no cell is lost. In JSON form the names are
-- pairwise different, and one of them is that of the id, which comes first if the schema has no
-- field of this name.
theorem decode_groups (id : Nat) (h : schema.width ≤ cells.length) :
    let r := decode id schema cells
    Groups schema cells r ∧ r = decode id schema (cells.take schema.width) ∧
    ∃ members, r.toJson = .object members ∧ (members.map (·.1)).Nodup ∧
      (members.map (·.1)).count "id" = 1 ∧
      ("id" ∉ schema.names →
        members = ("id", .ofNat id) :: r.fields.map fun f => (f.1, f.2.toJson)) ∧
      ("id" ∈ schema.names → members = r.fields.map fun f => (f.1, f.2.toJson)) := by
  intro r
  have hg := groups_decode id h
  have hn : r.members.map (·.1) |>.Nodup := nodup_members (nodup_names_ofPairs ..)
  have hi : "id" ∈ r.names ↔ "id" ∈ schema.names := by
    rw [names, hg.names, List.mem_eraseDups]
  refine ⟨hg, ?take, r.members, toJson_eq_object r, hn, List.count_eq_one_of_mem hn
    r.id_mem_members, fun h => ?synthetic, fun h => ?declared⟩
  case take      => simp only [r, decode, schema.zip_take_width h]
  case synthetic =>
    have hr : r.id = id := id_ofPairs ..
    rw [members, if_neg (hi.not.mpr h), hr, List.singleton_append]
  case declared  => rw [members, if_pos (hi.mpr h), List.nil_append]

-- The third cell joins the first one under its name, and the fourth one has no name.
theorem decode_groups_repeated_name :
    let schema : Schema := ⟨["a", "b", "a"], by decide, by decide⟩
    let r := decode 7 schema ["1", "2", "3", "4"]
    schema.width ≤ ["1", "2", "3", "4"].length ∧ r.get? "a" = some (.multi ["1", "3"]) ∧
      r.get? "b" = some (.single "2") ∧ r.fields.map (·.1) = ["a", "b"] ∧
      ∃ members, r.toJson = .object members ∧ members.map (·.1) = ["id", "a", "b"] := by
  intro schema r
  have hw : schema.width ≤ ["1", "2", "3", "4"].length := by decide
  obtain ⟨hg, _, members, hj, _, _, hs, _⟩ := decode_groups 7 hw
  obtain ⟨found, hf, _, ha⟩ := hg.multi "a" (by decide)
  obtain ⟨i, cell, hi, hc, hb⟩ := hg.single "b" (by decide)
  have hf : ["1", "3"] = found := by
    have hp : (schema.positionsOf ["a"]).map (["1", "2", "3", "4"][·]?) = ["1", "3"].map some := rfl
    exact (List.map_inj_right fun _ _ => Option.some.inj).mp (hp.symm.trans hf)
  obtain rfl : i = 1 := (List.singleton_inj.mp hi).symm
  obtain rfl : cell = "2" := (Option.some_inj.mp hc).symm
  have hn : r.fields.map (·.1) = ["a", "b"] := hg.names
  refine ⟨hw, hf ▸ ha, hb, hn, members, hj, ?_⟩
  rw [hs (by decide), List.map_cons, List.map_map]
  exact congrArg _ hn

end Record
end FlatQuery

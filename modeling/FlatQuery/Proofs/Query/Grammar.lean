import FlatQuery.Query.Reader
import FlatQuery.Proofs.Condition.Grammar

/-!
Which JSON values are queries, and what is wrong with the others. The main statement is
`Query.read_grammar`.
-/

namespace FlatQuery.Query

inductive IsFields : Json → Prop
  | null          : IsFields .null
  | name {s}      : IsFields (.string s)
  | names {items} : (∀ v ∈ items, ∃ s, v = .string s) → IsFields (.array items)

-- Nothing is asked of members of other names.
inductive IsQuery : Json → Prop
  | object {members} :
    (∀ v, members.lookup "fields" = some v → IsFields v) →
    (∀ v, members.lookup "conditions" = some v → Condition.IsTree v) →
    IsQuery (.object members)

def nameOffences : Json → List QueryError
  | .string _ => []
  | _         => [.invalidFields]

def fieldsOffences : Json → List QueryError
  | .null | .string _ => []
  | .array items      => items.flatMap nameOffences
  | _                 => [.invalidFields]

-- The fields come before the conditions, wherever they are written.
def offences : Json → List QueryError
  | .object members =>
    ((members.lookup "fields").map fieldsOffences).getD [] ++
    ((members.lookup "conditions").map Condition.offences).getD []
  | _               => [.notAnObject]

variable {v : Json} {items : List Json} {members members' : List (String × Json)}

theorem readFields_cons {s : String} :
    readFields (.array (.string s :: items)) = (readFields (.array items)).map (s :: ·) := by
  have hs : (Json.array (.string s :: items)).strings? =
      (Json.array items).strings?.map (s :: ·) := by
    rw [Json.strings?, List.mapM_cons, Option.map_eq_bind]
    rfl
  rw [readFields, readFields, hs]
  · cases (Json.array items).strings? <;> rfl
  all_goals nofun

theorem readFields_reports (v : Json) : Reports (readFields v) (fieldsOffences v) := by
  cases v with
  | null        => exact .ok
  | string s    => exact .ok
  | array items =>
    induction items with
    | nil             => exact .ok
    | cons v items hi =>
      cases v with
      | string s =>
        rw [readFields_cons]
        exact hi.map
      | _        => exact .error
  | _           => exact .error

theorem nameOffences_eq_nil_iff : nameOffences v = [] ↔ ∃ s, v = .string s := by
  cases v <;> simp [nameOffences]

theorem fieldsOffences_eq_nil_iff : fieldsOffences v = [] ↔ IsFields v := by
  constructor
  case mp =>
    intro h
    cases v with
    | null        => exact .null
    | string s    => exact .name
    | array items =>
      simp only [fieldsOffences, List.flatMap_eq_nil_iff, nameOffences_eq_nil_iff] at h
      exact .names h
    | _           => simp [fieldsOffences] at h
  case mpr =>
    intro h
    cases h
    case names h => simpa only [fieldsOffences, List.flatMap_eq_nil_iff, nameOffences_eq_nil_iff]
    all_goals rfl

-- What is not there has no offences.
theorem offences_member_eq_nil_iff {name : String} {f : Json → List QueryError} :
    ((members.lookup name).map f).getD [] = [] ↔ ∀ v, members.lookup name = some v → f v = [] := by
  cases members.lookup name <;> simp

theorem read_reports (v : Json) : Reports (read v) (offences v) := by
  cases v with
  | object members =>
    rw [read, offences]
    refine Reports.bind ?_ fun fields => ?_
    case refine_1 =>
      cases members.lookup "fields" with
      | none   => exact .ok
      | some v => exact readFields_reports v
    case refine_2 =>
      cases members.lookup "conditions" with
      | none   => exact .ok
      | some v => exact (Condition.readTree_reports v).map
  | _              => exact .error

theorem offences_eq_nil_iff : offences v = [] ↔ IsQuery v := by
  constructor
  case mp =>
    intro h
    cases v with
    | object members =>
      rw [offences, List.append_eq_nil_iff, offences_member_eq_nil_iff,
        offences_member_eq_nil_iff] at h
      exact .object (fun v hv => fieldsOffences_eq_nil_iff.mp (h.left v hv))
        (fun v hv => Condition.offences_eq_nil_iff.mp (h.right v hv))
    | _              => simp [offences] at h
  case mpr =>
    intro h
    cases h
    case object hf hc =>
      rw [offences, List.append_eq_nil_iff, offences_member_eq_nil_iff, offences_member_eq_nil_iff]
      exact ⟨fun v hv => fieldsOffences_eq_nil_iff.mpr (hf v hv),
        fun v hv => Condition.offences_eq_nil_iff.mpr (hc v hv)⟩

-- The reader of queries accepts its grammar and nothing else, and what it does not accept it
-- refuses for the first thing that is wrong with it. Only `fields` and `conditions` count for that.
theorem read_grammar (v : Json) :
    ((∃ q, read v = .ok q) ↔ IsQuery v) ∧
    (∀ e, read v = .error e ↔ (offences v).head? = some e) ∧
    (∀ members members',
      members.lookup "fields" = members'.lookup "fields" →
      members.lookup "conditions" = members'.lookup "conditions" →
      ∀ e, read (.object members) = .error e ↔ read (.object members') = .error e) := by
  refine ⟨?accepts, ?refuses, ?other⟩
  case accepts => exact (read_reports v).ok_iff.trans offences_eq_nil_iff
  case refuses => exact fun e => (read_reports v).error_iff
  case other   =>
    intro members members' hf hc e
    rw [(read_reports _).error_iff, (read_reports _).error_iff, offences, offences, hf, hc]

example : offences (.object [
      ("conditions", .object [("age ~=", .array [.object []]), ("or", .null)]),
      ("fields", .bool true)]) =
    [.invalidFields, .unknownOperator "age ~=" "~=", .invalidValue "age ~=",
      .invalidGroup "or"] := by
  decide +kernel

end FlatQuery.Query

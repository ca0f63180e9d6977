import FlatQuery.Proofs.Condition.Reader

/-!
Which JSON values are trees of conditions, and what is wrong with the others. The reader of trees
stops where something is wrong. What it would find if it went on is listed here in the order in
which it is written, so that the reader reports the head of this list.
-/

namespace FlatQuery

-- A reader that accepts what has no offences and reports the first of those that there are.
inductive Reports {ε α : Type} : Except ε α → List ε → Prop
  | ok {a}       : Reports (.ok a) []
  | error {e es} : Reports (.error e) (e :: es)

namespace Reports

variable {ε α β : Type} {x : Except ε α} {f : α → Except ε β} {es es' : List ε} {e : ε}

theorem ok_iff (h : Reports x es) : (∃ a, x = .ok a) ↔ es = [] := by
  cases h <;> simp

theorem error_iff (h : Reports x es) : x = .error e ↔ es.head? = some e := by
  cases h <;> simp

theorem bind (h : Reports x es) (hf : ∀ a, Reports (f a) es') : Reports (x >>= f) (es ++ es') := by
  cases h
  case ok    => exact hf _
  case error => exact .error

theorem map {g : α → β} (h : Reports x es) : Reports (x.map g) es := by
  cases h
  case ok    => exact .ok
  case error => exact .error

theorem mapM {γ : Type} {f : γ → Except ε β} {offences : γ → List ε}
    (h : ∀ c, Reports (f c) (offences c)) (cs : List γ) :
    Reports (cs.mapM f) (cs.flatMap offences) := by
  induction cs with
  | nil          => exact .ok
  | cons c cs hi =>
    rw [List.mapM_cons, List.flatMap_cons]
    refine (h c).bind fun b => ?_
    rw [← List.append_nil (cs.flatMap offences)]
    exact hi.bind fun _ => .ok

end Reports

def Json.isObject : Json → Bool
  | .object _ => true
  | _         => false

namespace Condition

-- What names a field. If its last word looks like an operator, and another word stands before it,
-- then it is an operator.
def IsFieldKey (key : String) : Prop :=
  ∀ word, Text.trailingWord? (Text.trim key).toList = some word →
    isOperatorLike word → String.ofList word ∈ operators

inductive IsScalar : Json → Prop
  | null       : IsScalar .null
  | bool {b}   : IsScalar (.bool b)
  | number {n} : IsScalar (.number n)
  | string {s} : IsScalar (.string s)

inductive IsOperand : Json → Prop
  | scalar {v}   : (IsScalar v) → IsOperand v
  | list {items} : (∀ v ∈ items, IsScalar v) → IsOperand (.array items)

mutual

inductive IsTree : Json → Prop
  | null             : IsTree .null
  | empty            : IsTree (.array [])
  | object {members} : (∀ m ∈ members, IsEntry m.1 m.2) → IsTree (.object members)

inductive IsEntry : String → Json → Prop
  | group {key v}      : (isGroupKey key) → (v.isObject) → (IsTree v) → IsEntry key v
  | groups {key items} :
    (isGroupKey key) → (∀ v ∈ items, v.isObject) → (∀ v ∈ items, IsTree v) →
    IsEntry key (.array items)
  | field {key v}      : (¬isGroupKey key) → (IsFieldKey key) → (IsOperand v) → IsEntry key v

end

def keyOffences (key : String) : List QueryError :=
  match Text.trailingWord? (Text.trim key).toList with
  | none      => []
  | some word =>
    if isOperatorLike word && !operators.contains (.ofList word) then
      [.unknownOperator (Text.trim key) (.ofList word)]
    else []

def scalarOffences (key : String) : Json → List QueryError
  | .array _ | .object _ => [.invalidValue key]
  | _                    => []

def operandOffences (key : String) : Json → List QueryError
  | .array items => items.flatMap (scalarOffences key)
  | v            => scalarOffences key v

mutual

def groupOffences (key : String) : Json → List QueryError
  | .object members => memberOffences members
  | .array items    => itemOffences key items
  | _               => [.invalidGroup key]

def itemOffences (key : String) : List Json → List QueryError
  | []                       => []
  | .object members :: items => memberOffences members ++ itemOffences key items
  | _ :: items               => .invalidGroup key :: itemOffences key items

def memberOffences : List (String × Json) → List QueryError
  | []                  => []
  | (key, v) :: members =>
    (if isGroupKey key then groupOffences key v else keyOffences key ++ operandOffences key v) ++
      memberOffences members

end

def offences : Json → List QueryError
  | .null | .array [] => []
  | .object members   => memberOffences members
  | v                 => [.invalidConditions v.typeName]

variable {key : String} {v : Json}

theorem splitKey_reports (key : String) : Reports (splitKey key) (keyOffences key) := by
  have ht := splitLast?_of_isTrimmed (Text.isTrimmed_strip key.toList)
  simp only [splitKey, keyOffences, Text.trim, String.toList_ofList, ← ht]
  cases splitLast? (Text.strip Text.isBlank key.toList) with
  | none => exact .ok
  | some split =>
    obtain ⟨front, word⟩ := split
    by_cases hl : isOperatorLike word
    case pos =>
      have ho := ofToken?_of_isOperatorLike hl
      cases hw : Operator.ofToken? (.ofList word) with
      | none    => simpa [hl, ho.mp hw, hw] using .error
      | some op => simpa [hl, hw, not_not.mp (ho.not.mp (by simp [hw]))] using .ok
    case neg =>
      cases hw : Operator.ofToken? (.ofList word) <;> simpa [hl, hw] using .ok

theorem readScalar_reports (key : String) (v : Json) :
    Reports (readScalar key v) (scalarOffences key v) := by
  cases v with
  | array items    => exact .error
  | object members => exact .error
  | _              => exact .ok

theorem readOperand_reports (key : String) (v : Json) :
    Reports (readOperand key v) (operandOffences key v) := by
  cases v with
  | array items    => exact (Reports.mapM (readScalar_reports key) items).map
  | null           => exact readScalar_reports key .null
  | bool b         => exact readScalar_reports key (.bool b)
  | number n       => exact readScalar_reports key (.number n)
  | string s       => exact readScalar_reports key (.string s)
  | object members => exact readScalar_reports key (.object members)

theorem readField_reports (key : String) (v : Json) :
    Reports (readField key v) (keyOffences key ++ operandOffences key v) :=
  (splitKey_reports key).bind fun _ => (readOperand_reports key v).map

theorem readEntry_reports (key : String) (h : Reports (readGroup key v) (groupOffences key v)) :
    Reports (readEntry key v)
      (if isGroupKey key then groupOffences key v
      else keyOffences key ++ operandOffences key v) := by
  unfold readEntry isGroupKey
  cases isOr key with
  | true  => exact h.map
  | false =>
    cases isAnd key with
    | true  => exact h.map
    | false => exact readField_reports key v

mutual

theorem readGroup_reports (key : String) (v : Json) :
    Reports (readGroup key v) (groupOffences key v) := by
  cases v with
  | object members =>
    rw [readGroup, groupOffences]
    exact readMembers_reports members
  | array items    =>
    rw [readGroup, groupOffences]
    exact readTrees_reports key items
  | _              => exact .error

theorem readTrees_reports (key : String) (items : List Json) :
    Reports (readTrees key items) (itemOffences key items) := by
  match items with
  | []         => exact .ok
  | v :: items =>
    cases v with
    | object members =>
      rw [readTrees_cons, itemOffences]
      exact (readMembers_reports members).bind fun _ => (readTrees_reports key items).map
    | _              => exact .error

theorem readMembers_reports (members : List (String × Json)) :
    Reports (readMembers members) (memberOffences members) := by
  match members with
  | []                  => exact .ok
  | (key, v) :: members =>
    rw [readMembers_cons, memberOffences]
    exact (readEntry_reports key (readGroup_reports key v)).bind fun _ =>
      (readMembers_reports members).map

end

theorem readTree_reports (v : Json) : Reports (readTree v) (offences v) := by
  cases v with
  | null           => exact .ok
  | object members => exact readMembers_reports members
  | array items    =>
    cases items with
    | nil        => exact .ok
    | cons _ _ => exact .error
  | _              => exact .error

variable {members : List (String × Json)} {items : List Json}

theorem isTree_object_iff : IsTree (.object members) ↔ ∀ m ∈ members, IsEntry m.1 m.2 where
  mp  := fun | .object h => h
  mpr := .object

theorem isEntry_field_iff (hk : ¬isGroupKey key) :
    IsEntry key v ↔ IsFieldKey key ∧ IsOperand v := by
  constructor
  case mp =>
    intro h
    cases h
    case field hf hv => exact ⟨hf, hv⟩
    all_goals contradiction
  case mpr => exact fun ⟨hf, hv⟩ => .field hk hf hv

theorem isEntry_object_iff (hk : isGroupKey key) :
    IsEntry key (.object members) ↔ IsTree (.object members) := by
  constructor
  case mp =>
    intro h
    cases h
    case group ht => exact ht
    case field    => contradiction
  case mpr => exact .group hk rfl

theorem isEntry_array_iff (hk : isGroupKey key) :
    IsEntry key (.array items) ↔ ∀ v ∈ items, v.isObject ∧ IsTree v := by
  constructor
  case mp =>
    intro h
    cases h
    case group ho _   => simp [Json.isObject] at ho
    case groups ho ht => exact fun v hv => ⟨ho v hv, ht v hv⟩
    case field        => contradiction
  case mpr => exact fun h => .groups hk (fun v hv => (h v hv).left) (fun v hv => (h v hv).right)

-- A group is an object or an array.
theorem isEntry_other (hk : isGroupKey key) (ho : ¬v.isObject) (ha : ∀ items, v ≠ .array items) :
    ¬IsEntry key v := by
  intro h
  cases h
  case groups => exact ha _ rfl
  all_goals contradiction

theorem keyOffences_eq_nil_iff : keyOffences key = [] ↔ IsFieldKey key := by
  unfold keyOffences IsFieldKey
  cases Text.trailingWord? (Text.trim key).toList <;> simp

theorem scalarOffences_eq_nil_iff : scalarOffences key v = [] ↔ IsScalar v := by
  constructor
  case mp =>
    intro h
    cases v with
    | null     => exact .null
    | bool b   => exact .bool
    | number n => exact .number
    | string s => exact .string
    | _        => simp [scalarOffences] at h
  case mpr =>
    intro h
    cases h <;> rfl

theorem operandOffences_eq_nil_iff : operandOffences key v = [] ↔ IsOperand v := by
  constructor
  case mp =>
    intro h
    unfold operandOffences at h
    split at h
    case h_1 items =>
      simp only [List.flatMap_eq_nil_iff, scalarOffences_eq_nil_iff] at h
      exact .list h
    case h_2 => exact .scalar (scalarOffences_eq_nil_iff.mp h)
  case mpr =>
    intro h
    cases h
    case scalar hs =>
      have hv : scalarOffences key v = [] := scalarOffences_eq_nil_iff.mpr hs
      cases hs <;> exact hv
    case list hs =>
      simpa only [operandOffences, List.flatMap_eq_nil_iff, scalarOffences_eq_nil_iff] using hs

mutual

theorem groupOffences_eq_nil_iff {key : String} (hk : isGroupKey key) (v : Json) :
    groupOffences key v = [] ↔ IsEntry key v := by
  cases v with
  | object members =>
    rw [groupOffences, isEntry_object_iff hk, isTree_object_iff]
    exact memberOffences_eq_nil_iff members
  | array items    =>
    rw [groupOffences, isEntry_array_iff hk]
    exact itemOffences_eq_nil_iff key items
  | _              => exact iff_of_false (List.cons_ne_nil _ _) (isEntry_other hk nofun nofun)

theorem itemOffences_eq_nil_iff (key : String) (items : List Json) :
    itemOffences key items = [] ↔ ∀ v ∈ items, v.isObject ∧ IsTree v := by
  match items with
  | []         => simp [itemOffences]
  | v :: items =>
    rw [List.forall_mem_cons]
    cases v with
    | object members =>
      rw [itemOffences, List.append_eq_nil_iff, memberOffences_eq_nil_iff members,
        itemOffences_eq_nil_iff key items, isTree_object_iff]
      simp [Json.isObject]
    | _              => simp [itemOffences, Json.isObject]

theorem memberOffences_eq_nil_iff (members : List (String × Json)) :
    memberOffences members = [] ↔ ∀ m ∈ members, IsEntry m.1 m.2 := by
  match members with
  | []                  => simp [memberOffences]
  | (key, v) :: members =>
    rw [memberOffences, List.append_eq_nil_iff, List.forall_mem_cons,
      memberOffences_eq_nil_iff members]
    split
    case isTrue hk  => rw [groupOffences_eq_nil_iff hk v]
    case isFalse hk =>
      rw [isEntry_field_iff hk, List.append_eq_nil_iff, keyOffences_eq_nil_iff,
        operandOffences_eq_nil_iff]

end

theorem offences_eq_nil_iff : offences v = [] ↔ IsTree v := by
  cases v with
  | null           => exact iff_of_true rfl .null
  | object members => exact (memberOffences_eq_nil_iff members).trans isTree_object_iff.symm
  | array items    =>
    cases items with
    | nil      => exact iff_of_true rfl .empty
    | cons _ _ =>
      refine iff_of_false (List.cons_ne_nil _ _) fun h => ?_
      cases h
  | _              =>
    refine iff_of_false (List.cons_ne_nil _ _) fun h => ?_
    cases h

end Condition
end FlatQuery

import FlatQuery.Proofs.Condition.Reader
import Mathlib.Data.List.Forall2

/-!
The JSON forms of trees of conditions. A tree has many: keys have blanks and spellings of operators
to choose from, names of groups any case, and a group of nested trees is an object or a list. All of
them are read as the tree again. The main statement is `Condition.readTree_of_prints`.
-/

namespace FlatQuery

namespace Json

variable {k : String} {v : Json} {acc ms : List (String × Json)}

theorem put_of_not_mem (h : k ∉ acc.map Prod.fst) : put k v acc = acc ++ [(k, v)] := by
  induction acc with
  | nil           => rfl
  | cons m acc hi =>
    simp only [List.map_cons, List.mem_cons, not_or] at h
    rw [put, if_neg (Ne.symm h.left), hi h.right, List.cons_append]

-- Members of different names stay as they are.
theorem merge_of_nodup (h : (ms.map Prod.fst).Nodup) : merge ms = ms := by
  suffices hs : ∀ acc : List (String × Json), ((acc ++ ms).map Prod.fst).Nodup →
      ms.foldl (fun acc m => put m.1 m.2 acc) acc = acc ++ ms from hs [] h
  clear h
  induction ms with
  | nil          => simp
  | cons m ms hi =>
    intro acc h
    have hm : m.1 ∉ acc.map Prod.fst := by
      rw [List.map_append, List.nodup_append] at h
      exact fun hm => h.right.right _ hm _ (by simp) rfl
    rw [List.foldl_cons, put_of_not_mem hm, hi _ (by simpa using h)]
    simp

end Json

-- What a list may hold. The numbers are those of JSON.
inductive Operand.IsPlain : Operand → Prop
  | null       : IsPlain .null
  | bool {b}   : IsPlain (.bool b)
  | number {x} : (x.isFinite) → IsPlain (.number x)
  | text {s}   : IsPlain (.text s)

inductive Operand.IsPrintable : Operand → Prop
  | plain {value} : (value.IsPlain) → IsPrintable value
  | list {items}  : (∀ value ∈ items, value.IsPlain) → IsPrintable (.list items)

namespace Condition

inductive IsPrintable : Condition → Prop
  | field {name op value} :
    (IsFieldName name) → (value.IsPrintable) → IsPrintable (.field name op value)
  | any {alternatives}    : (∀ c ∈ alternatives, IsPrintable c) → IsPrintable (.any alternatives)
  | all {tree}            : (∀ c ∈ tree, IsPrintable c) → IsPrintable (.all tree)

inductive PrintsPlain : Operand → Json → Prop
  | null       : PrintsPlain .null .null
  | bool {b}   : PrintsPlain (.bool b) (.bool b)
  | number {n} : PrintsPlain (.number n.toBinary64) (.number n)
  | text {s}   : PrintsPlain (.text s) (.string s)

inductive PrintsOperand : Operand → Json → Prop
  | plain {value v}  : (PrintsPlain value v) → PrintsOperand value v
  | list {items vs}  : (List.Forall₂ PrintsPlain items vs) → PrintsOperand (.list items) (.array vs)

mutual

-- A tree is an object of its entries in order, no two of which have the same key.
inductive PrintsTree : List Condition → Json → Prop
  | object {tree members} :
    (List.Forall₂ PrintsEntry tree members) → (members.map Prod.fst).Nodup →
    PrintsTree tree (.object (Json.merge members))

inductive PrintsEntry : Condition → String × Json → Prop
  | field {name op value key v} :
    (KeyOf name op key) → (PrintsOperand value v) → PrintsEntry (.field name op value) (key, v)
  | any {alternatives key v} :
    (isOr key) → (PrintsGroup alternatives v) → PrintsEntry (.any alternatives) (key, v)
  | all {tree key v} :
    (isAnd key) → (PrintsGroup tree v) → PrintsEntry (.all tree) (key, v)

inductive PrintsGroup : List Condition → Json → Prop
  | object {cs v}   : (PrintsTree cs v) → PrintsGroup cs v
  | list {cs items} : (List.Forall₂ PrintsItem cs items) → PrintsGroup cs (.array items)

-- Only nested trees can be items of a list.
inductive PrintsItem : Condition → Json → Prop
  | all {tree v} : (PrintsTree tree v) → PrintsItem (.all tree) v

end

variable {key : String} {v : Json} {vs : List Json} {value : Operand} {items : List Operand}
variable {c : Condition} {tree : List Condition}

theorem readScalar_of_prints (h : PrintsPlain value v) : readScalar key v = .ok value := by
  cases h <;> rfl

theorem readScalars_of_prints (h : List.Forall₂ PrintsPlain items vs) :
    vs.mapM (readScalar key) = .ok items := by
  induction h with
  | nil          => rfl
  | cons h _ hi =>
    rw [List.mapM_cons, readScalar_of_prints h, hi]
    rfl

theorem readOperand_of_prints (h : PrintsOperand value v) : readOperand key v = .ok value := by
  cases h
  case plain h =>
    have hv : readScalar key v = .ok value := readScalar_of_prints h
    cases h <;> exact hv
  case list h  =>
    rw [readOperand, readScalars_of_prints h]
    rfl

theorem readField_of_prints {name : String} {op : Operator} (hn : IsFieldName name)
    (hk : KeyOf name op key) (hv : PrintsOperand value v) :
    readField key v = .ok (.field name op value) := by
  rw [readField, hk.splitKey_eq hn]
  show (do return field name op (← readOperand key v)) = _
  rw [readOperand_of_prints hv]
  rfl

theorem IsPrintable.of_all (h : (Condition.all tree).IsPrintable) : ∀ c ∈ tree, c.IsPrintable := by
  cases h
  assumption

theorem PrintsTree.exists_members (h : PrintsTree tree v) :
    ∃ members, v = .object members ∧ List.Forall₂ PrintsEntry tree members := by
  cases h
  case object members hn hm => exact ⟨members, by rw [Json.merge_of_nodup hn], hm⟩

theorem PrintsTree.of_members {members : List (String × Json)}
    (hm : List.Forall₂ PrintsEntry tree members) (hn : (members.map Prod.fst).Nodup) :
    PrintsTree tree (.object members) := by
  have h := PrintsTree.object hm hn
  rwa [Json.merge_of_nodup hn] at h

theorem PrintsItem.exists_members (h : PrintsItem c v) :
    ∃ tree members,
      c = .all tree ∧ v = .object members ∧ List.Forall₂ PrintsEntry tree members := by
  cases h
  case all tree h =>
    obtain ⟨members, hv, hm⟩ := h.exists_members
    exact ⟨tree, members, rfl, hv, hm⟩

-- A group is printed as an object or as a list.
theorem PrintsGroup.forms (h : PrintsGroup tree v) :
    (∃ members, v = .object members ∧ List.Forall₂ PrintsEntry tree members) ∨
    (∃ items, v = .array items ∧ List.Forall₂ PrintsItem tree items) := by
  cases h
  case object h   => exact .inl h.exists_members
  case list vs hi => exact .inr ⟨vs, rfl, hi⟩

theorem readEntry_of_prints (hc : c.IsPrintable) (h : PrintsEntry c (key, v))
    (hg : ∀ tree : List Condition, (∀ c ∈ tree, c.IsPrintable) → PrintsGroup tree v →
      readGroup key v = .ok tree) :
    readEntry key v = .ok c := by
  cases h
  case field hk hv =>
    cases hc
    case field hn _ => rw [readEntry_field hk.not_isGroupKey, readField_of_prints hn hk hv]
  case any hk h =>
    cases hc
    case any hc =>
      rw [readEntry_any hk, hg _ hc h]
      rfl
  case all hk h =>
    rw [readEntry_all hk, hg _ hc.of_all h]
    rfl

mutual

theorem readGroup_of_prints (key : String) (v : Json) (tree : List Condition)
    (hc : ∀ c ∈ tree, c.IsPrintable) (h : PrintsGroup tree v) : readGroup key v = .ok tree := by
  have hf := h.forms
  cases v with
  | object members =>
    rw [readGroup]
    exact readMembers_of_prints members tree hc (by simpa using hf)
  | array items    =>
    rw [readGroup]
    exact readTrees_of_prints key items tree hc (by simpa using hf)
  | _              => simp at hf

theorem readTrees_of_prints (key : String) (vs : List Json) (trees : List Condition)
    (hc : ∀ c ∈ trees, c.IsPrintable) (h : List.Forall₂ PrintsItem trees vs) :
    readTrees key vs = .ok trees := by
  match vs, trees with
  | [], []     => rw [readTrees]
  | v :: vs, c :: trees =>
    obtain ⟨hc, hcs⟩ := List.forall_mem_cons.mp hc
    obtain ⟨hv, hvs⟩ := List.forall₂_cons.mp h
    obtain ⟨tree, ms, rfl, hv', hm⟩ := hv.exists_members
    cases v with
    | object members =>
      obtain rfl := Json.object.inj hv'
      rw [readTrees_cons, readMembers_of_prints members tree hc.of_all hm]
      show (readTrees key vs).map (.all tree :: ·) = _
      rw [readTrees_of_prints key vs trees hcs hvs]
      rfl
    | _              => simp at hv'

theorem readMembers_of_prints (members : List (String × Json)) (tree : List Condition)
    (hc : ∀ c ∈ tree, c.IsPrintable) (h : List.Forall₂ PrintsEntry tree members) :
    readMembers members = .ok tree := by
  match members, tree with
  | [], []                         => rw [readMembers]
  | (key, v) :: members, c :: tree =>
    obtain ⟨hc, hcs⟩ := List.forall_mem_cons.mp hc
    obtain ⟨hm, hms⟩ := List.forall₂_cons.mp h
    rw [readMembers_cons, readEntry_of_prints hc hm (readGroup_of_prints key v)]
    show (readMembers members).map (c :: ·) = _
    rw [readMembers_of_prints members tree hcs hms]
    rfl

end

-- Every JSON form of a tree is read as this tree.
theorem readTree_of_prints (hc : ∀ c ∈ tree, c.IsPrintable) (h : PrintsTree tree v) :
    readTree v = .ok tree := by
  obtain ⟨members, rfl, hm⟩ := h.exists_members
  exact readMembers_of_prints members tree hc hm

-- Names that end like keys, both forms of groups, and spellings other than the usual ones.
theorem readTree_of_prints_nested :
    readTree (.object [
      ("or\t=", .string "x"),
      ("oR", .array [.object [("size in cm  >=", .number (.whole 10))], .object []]),
      ("AND", .object [("a = LiKe", .array [.null, .bool true])])]) =
    .ok [
      .field "or" .eq (.text "x"),
      .any [.all [.field "size in cm" .ge (.number (.ofInt 10))], .all []],
      .all [.field "a =" .like (.list [.null, .bool true])]] := by
  have key (name blanks token : String) {op : Operator} (hn : blanks ≠ "")
      (hb : blanks.toList.all Text.isBlank) (ht : Operator.ofToken? token = some op) :
      KeyOf name op (name ++ blanks ++ token) := .mk hn (List.all_eq_true.mp hb) ht
  refine readTree_of_prints ?printable
    (.of_members (.cons ?or (.cons ?any (.cons ?all .nil))) ?keys)
  case keys => decide
  case or   => exact .field (key "or" "\t" "=" (by decide) (by decide) rfl) (.plain .text)
  case any  =>
    refine .any rfl (.list (.cons (.all ?size) (.cons (.all ?empty) .nil)))
    case size  =>
      have hk := key "size in cm" "  " ">=" (by decide) (by decide) rfl
      have hv := @PrintsPlain.number (.whole 10)
      exact .of_members (.cons (.field hk (.plain hv)) .nil) (by decide)
    case empty => exact .of_members .nil .nil
  case all  =>
    have hk := key "a =" " " "LiKe" (by decide) (by decide) rfl
    refine .all rfl (.object (.of_members (.cons (.field hk ?list) .nil) (by decide)))
    exact .list (.cons .null (.cons .bool .nil))
  case printable =>
    have name (s : String) (hs : s ≠ "") (ht : Text.strip Text.isBlank s.toList = s.toList) :
        IsFieldName s := ⟨hs, ht ▸ Text.isTrimmed_strip s.toList⟩
    have hx : (Binary64.ofInt 10).isFinite := by decide +kernel
    simp only [List.forall_mem_cons]
    refine ⟨.field (name "or" (by decide) rfl) (.plain .text), .any ?any, .all ?all, nofun⟩
    case any =>
      have hs : (Condition.field "size in cm" .ge (.number (.ofInt 10))).IsPrintable :=
        .field (name "size in cm" (by decide) rfl) (.plain (.number hx))
      simp only [List.forall_mem_cons]
      exact ⟨.all (List.forall_mem_singleton.mpr hs), .all nofun, nofun⟩
    case all =>
      refine List.forall_mem_singleton.mpr (.field (name "a =" (by decide) rfl) (.list ?items))
      simp only [List.forall_mem_cons]
      exact ⟨.null, .bool, nofun⟩

end Condition
end FlatQuery

import FlatQuery.Log.Entry
import FlatQuery.Row.Lines
import FlatQuery.Proofs.Json.RoundTrip
import FlatQuery.Proofs.Text.ByteOrder
import Mathlib.Data.Bool.AllAny
import Mathlib.Data.List.Nodup

/-!
Entries of a log are told apart by their line feeds and read as JSON objects, whatever texts are put
into them. The main statement is `Entry.bytes_read_back`.
-/

namespace FlatQuery.Log.Entry

-- A character that is written as it is.
structure IsVerbatim (c : Char) : Prop where
  ne_quote     : c ≠ '"'
  ne_backslash : c ≠ '\\'
  not_control  : ¬isControl c

instance (c : Char) : Decidable (IsVerbatim c) :=
  decidable_of_iff (c ≠ '"' ∧ c ≠ '\\' ∧ ¬isControl c)
    ⟨fun h => ⟨h.1, h.2.1, h.2.2⟩, fun h => ⟨h.ne_quote, h.ne_backslash, h.not_control⟩⟩

-- The same fields in another order:
-- 1. The bytes of their keys ascend.
-- 2. Fields with the same key keep their order.
structure SortedByKey (fields sorted : List (String × String)) : Prop where
  perm    : sorted.Perm fields
  ascends : sorted.Pairwise fun a b =>
    Text.Utf8.encode a.1.toList ≤ Text.Utf8.encode b.1.toList
  ties    : ∀ key, sorted.filter (·.1 = key) = fields.filter (·.1 = key)

-- What an entry says, in the order in which its line says it.
def members (ts : String) (e : Entry) : List (String × String) :=
  [("event", e.event), ("severity", e.severity.name), ("ts", ts)] ++ sorted e.fields

section Order

variable {fields fields' : List (String × String)}

def isOrdered (a b : String × String) : Bool :=
  !(b.1 < a.1)

theorem isOrdered_iff {a b : String × String} :
    isOrdered a b ↔ Text.Utf8.encode a.1.toList ≤ Text.Utf8.encode b.1.toList := by
  rw [Text.Utf8.encode_le_iff, isOrdered, Bool.not_eq_true', decide_eq_false_iff_not]
  rfl

theorem isOrdered_trans (a b c : String × String) (hab : isOrdered a b) (hbc : isOrdered b c) :
    isOrdered a c := by
  rw [isOrdered_iff] at *
  exact List.le_trans hab hbc

theorem isOrdered_total (a b : String × String) : isOrdered a b || isOrdered b a := by
  rw [Bool.or_eq_true, isOrdered_iff, isOrdered_iff]
  exact List.le_total ..

theorem pairwise_sorted (fields : List (String × String)) :
    (sorted fields).Pairwise fun a b => isOrdered a b :=
  List.pairwise_mergeSort isOrdered_trans isOrdered_total fields

-- Fields with the same key are in order already, so that they stay as they are.
theorem filter_sorted (fields : List (String × String)) (key : String) :
    (sorted fields).filter (·.1 = key) = fields.filter (·.1 = key) := by
  have ho : (fields.filter (·.1 = key)).Pairwise fun a b => isOrdered a b := by
    refine List.pairwise_of_forall_mem_list fun a ha b hb => ?_
    obtain rfl : a.1 = key := by simpa using (List.mem_filter.mp ha).right
    have hb : b.1 = a.1 := by simpa using (List.mem_filter.mp hb).right
    rw [isOrdered_iff, hb]
    exact List.le_refl _
  have hs := List.sublist_mergeSort isOrdered_trans isOrdered_total ho List.filter_sublist
  have hf := hs.filter (·.1 = key)
  simp only [List.filter_filter, Bool.and_self] at hf
  have hl := ((List.mergeSort_perm fields isOrdered).filter (·.1 = key)).length_eq
  exact (hf.eq_of_length hl.symm).symm

theorem sortedByKey_sorted (fields : List (String × String)) :
    SortedByKey fields (sorted fields) where
  perm    := List.mergeSort_perm ..
  ascends := (pairwise_sorted fields).imp isOrdered_iff.mp
  ties    := filter_sorted fields

-- Different keys leave no choice in the order.
theorem sorted_eq_of_perm (h : fields'.Perm fields) (hn : (fields.map (·.1)).Nodup) :
    sorted fields' = sorted fields := by
  have hp : (sorted fields').Perm (sorted fields) :=
    ((List.mergeSort_perm ..).trans h).trans (List.mergeSort_perm ..).symm
  refine hp.eq_of_pairwise ?_ (pairwise_sorted fields') (pairwise_sorted fields)
  intro a b ha hb hab hba
  have ha : a ∈ fields := h.mem_iff.mp (List.mem_mergeSort.mp ha)
  have hb : b ∈ fields := List.mem_mergeSort.mp hb
  rw [isOrdered_iff] at hab hba
  have hk := Text.Utf8.encode_injective (List.le_antisymm hab hba)
  exact List.inj_on_of_nodup_map hn ha hb (String.toList_inj.mp hk)

end Order

section Text

variable {ts : String} {c : Char}

theorem not_isControl_hexDigit {n : Nat} (h : n < 16) : ¬isControl (Json.hexDigit n) := by
  revert n
  decide

theorem not_isControl_escape : ∀ d ∈ escape c, ¬isControl d := by
  simp only [escape]
  repeat (split; case isTrue => simp [isControl])
  split
  case isTrue    =>
    have hm (n : Nat) := not_isControl_hexDigit (Nat.mod_lt n (by decide : 0 < 16))
    simp [Json.unicodeEscape, hm]
    decide
  case isFalse h => simpa using h

theorem not_isControl_quote (t : String) : ∀ d ∈ quote t, ¬isControl d := by
  have hf : ∀ d ∈ t.toList.flatMap escape, ¬isControl d := by
    intro d hd
    obtain ⟨c, _, hc⟩ := List.mem_flatMap.mp hd
    exact not_isControl_escape d hc
  have hq : ¬isControl '"' := by decide
  rw [quote, List.forall_mem_cons, List.forall_mem_append, List.forall_mem_singleton]
  exact ⟨hq, hf, hq⟩

theorem not_isControl_member (m : String × String) : ∀ d ∈ member m, ¬isControl d := by
  have hc : ¬isControl ':' := by decide
  rw [member, List.forall_mem_append, List.forall_mem_cons]
  exact ⟨not_isControl_quote m.1, hc, not_isControl_quote m.2⟩

theorem char?_escape (c : Char) (s : List Char) : Json.char? (escape c ++ s) = some (c, s) := by
  simp only [escape]
  repeat (split; case isTrue h => simp [h, Json.char?, Json.escaped?])
  split
  case isTrue h  => exact Json.char?_unicodeEscape (by simp [isControl] at h; omega) s
  case isFalse h => exact Json.char?_plain (by simp [isControl] at h; omega) ‹_› ‹_› s

theorem escape_of_isVerbatim (h : IsVerbatim c) : escape c = [c] := by
  have hc {d : Char} (hd : isControl d) : c ≠ d := fun he => h.not_control (he ▸ hd)
  simp [escape, h.ne_quote, h.ne_backslash, h.not_control, hc (d := '\n') rfl, hc (d := '\r') rfl,
    hc (d := '\t') rfl]

theorem quote_of_isVerbatim (h : ∀ c ∈ ts.toList, IsVerbatim c) :
    quote ts = '"' :: (ts.toList ++ ['"']) := by
  have he : ts.toList.flatMap escape = ts.toList.flatMap ([·]) :=
    List.flatMap_congr fun c hc => escape_of_isVerbatim (h c hc)
  rw [quote, he, List.flatMap_singleton']

end Text

section Reading

open Json

variable {ts : String} {e : Entry} {s : List Char} {depth : Nat}
  {tidy : List (String × Json) → List (String × Json)}

def toJsonMember (m : String × String) : String × Json :=
  (m.1, .string m.2)

theorem quote_append (t : String) (s : List Char) :
    Entry.quote t ++ s = '"' :: (t.toList.flatMap Entry.escape ++ '"' :: s) := by
  simp [Entry.quote]

theorem value_quote (t : String) (s : List Char) :
    value tidy depth (Entry.quote t ++ s) = .ok (.string t, s) := by
  have hr := stringRest?_flatMap Entry.char?_escape t.toList s
  rw [quote_append, value_eq_ok_iff, ←@String.ofList_toList t]
  exact .string (skipBlank_of_not_isBlank rfl _) (by simpa using hr)

theorem member_member (m : String × String) (s : List Char) :
    Json.member (value tidy depth) (Entry.member m ++ s) = .ok (toJsonMember m, s) := by
  have ht : Entry.member m ++ s =
      '"' :: (m.1.toList.flatMap Entry.escape ++ '"' :: ':' :: (Entry.quote m.2 ++ s)) := by
    rw [Entry.member, List.append_assoc, quote_append, List.cons_append]
  rw [ht, member_eq_ok_iff]
  exact ⟨_, _, _, _, skipBlank_of_not_isBlank rfl _, stringRest?_flatMap Entry.char?_escape _ _,
    skipBlank_of_not_isBlank rfl _, value_quote m.2 s, String.ofList_toList.symm⟩

-- Where the time needs no escapes it is written like any other text.
theorem chars_eq (h : ∀ c ∈ ts.toList, IsVerbatim c) :
    e.chars ts = '\x7b' :: (joined ((e.members ts).map member) ++ ['\x7d']) := by
  have ht : Entry.quote "ts" ++ ':' :: '"' :: (ts.toList ++ ['"']) = member ("ts", ts) := by
    rw [member, quote_of_isVerbatim h]
  simp only [chars, ht]
  rfl

theorem value_chars (h : ∀ c ∈ ts.toList, IsVerbatim c) (s : List Char) :
    value tidy (depth + 1) (e.chars ts ++ s) =
    .ok (.object (tidy ((e.members ts).map toJsonMember)), s) := by
  have hb : bracket '\x7d' (Json.member (value tidy depth))
      (joined ((e.members ts).map Entry.member) ++ '\x7d' :: s) =
      .ok ((e.members ts).map toJsonMember, s) :=
    bracket_joined (.inr rfl) (fun m _ => ⟨'"', _, rfl, rfl, by decide, by decide⟩)
      (fun m _ s _ => member_member m s) s
  rw [chars_eq h, value_eq_ok_iff, List.cons_append, List.append_assoc]
  exact .object (skipBlank_of_not_isBlank rfl _) hb

theorem not_isControl_chars (h : ∀ c ∈ ts.toList, IsVerbatim c) :
    ∀ c ∈ e.chars ts, ¬isControl c := by
  have hm : ∀ t ∈ (e.members ts).map Entry.member, ∀ c ∈ t, ¬isControl c :=
    List.forall_mem_map.mpr fun m _ => not_isControl_member m
  rw [chars_eq h, List.forall_mem_cons, List.forall_mem_append, List.forall_mem_singleton]
  exact ⟨by decide, forall_mem_joined hm (by decide), by decide⟩

end Reading

-- An entry is written on a line of its own that can be read:
-- 1. Its bytes are those of a text without control characters, with a line feed behind it that is
--    the only one.
-- 2. This text is that of an object, whose members are the event, the severity, the time and the
--    fields in the order of their keys, each as it was given.
-- 3. If no two fields have the same key, it does not matter in which order they are given.
theorem bytes_read_back (ts : String) (e : Entry) (h : ∀ c ∈ ts.toList, IsVerbatim c) :
    Text.Utf8.decode? (e.bytes ts) = some (e.chars ts ++ ['\n']) ∧
    (∀ c ∈ e.chars ts, ¬isControl c) ∧
    (∃ front, e.bytes ts = front ++ [Row.lf] ∧ Row.lf ∉ front) ∧
    (∃ fields, SortedByKey e.fields fields ∧
      ∀ tidy, Json.parseWith tidy (.ofList (e.chars ts ++ ['\n'])) =
        .ok (.object (tidy (([("event", e.event), ("severity", e.severity.name), ("ts", ts)] ++
          fields).map fun m => (m.1, .string m.2))))) ∧
    ((e.fields.map (·.1)).Nodup → ∀ fields, fields.Perm e.fields →
      { e with fields }.bytes ts = e.bytes ts) := by
  have hc := not_isControl_chars (e := e) h
  have hb : e.bytes ts = Text.Utf8.encode (e.chars ts ++ ['\n']) := by
    rw [bytes, line, String.toList_ofList]
  refine ⟨?decoded, hc, ?ended, ⟨_, sortedByKey_sorted e.fields, ?parsed⟩, ?permuted⟩
  case decoded => rw [hb, Text.Utf8.decode?_encode]
  case ended   =>
    refine ⟨Text.Utf8.encode (e.chars ts), ?_, fun hm => ?_⟩
    case refine_1 =>
      rw [hb, Text.Utf8.encode_append]
      rfl
    case refine_2 =>
      have hn : '\n' ∈ e.chars ts := (Text.Utf8.mem_encode_iff (by decide)).mp hm
      exact hc _ hn (by decide)
  case parsed  =>
    intro tidy
    refine Json.parseWith_eq_ok_iff.mpr ⟨['\n'], ?_, List.forall_mem_singleton.mpr rfl⟩
    rw [String.toList_ofList]
    exact value_chars h ['\n']
  case permuted =>
    intro hn fields hp
    simp only [bytes, line, chars, sorted_eq_of_perm hp hn]

-- A value that looks like the end of a line and the beginning of another entry.
theorem bytes_read_back_line_in_value :
    let ts := "2024-01-01T00:00:00.000Z"
    let forged := "\"\x7d\n\x7b\"event\":\"FORGED"
    let e : Entry := ⟨.warn, "TEST", [("zebra", forged), ("apple", "\x85\\n")]⟩
    (∀ c ∈ ts.toList, IsVerbatim c) ∧
    (∃ front, e.bytes ts = front ++ [Row.lf] ∧ Row.lf ∉ front) ∧
    { e with fields := e.fields.reverse }.bytes ts = e.bytes ts ∧
    ∃ fields, SortedByKey e.fields fields ∧
      Json.parseWith id (.ofList (e.chars ts ++ ['\n'])) =
        .ok (.object ([("event", .string "TEST"), ("severity", .string "WARN"),
          ("ts", .string ts)] ++ fields.map fun m => (m.1, .string m.2))) := by
  intro ts forged e
  have hv : ∀ c ∈ ts.toList, IsVerbatim c := List.all_iff_forall_prop.mp (by decide)
  obtain ⟨-, -, hl, ⟨fields, hs, hp⟩, hr⟩ := bytes_read_back ts e hv
  refine ⟨hv, hl, hr (by decide) _ (List.reverse_perm _), fields, hs, ?_⟩
  rw [hp id, List.map_append]
  rfl

end FlatQuery.Log.Entry

import FlatQuery.Config.Reader
import FlatQuery.Proofs.Json.RoundTrip
import FlatQuery.Proofs.Session.History

/-!
Configurations that are written and read back. Reading trims names and refuses blank ones, and so
none of the names that it lets through is trimmed again or is blank. The main statement is
`Config.render_survives`.
-/

namespace FlatQuery

theorem Json.strings?_strings (ss : List String) : (strings ss).strings? = some ss := by
  simp only [strings, strings?]
  induction ss with
  | nil => rfl
  | cons s ss ih => simp [ih]

theorem Json.within_strings {P : Number → Prop} {depth : Nat} (ss : List String) :
    (strings ss).Within P (depth + 1) := by
  refine .array fun v hv => ?_
  obtain ⟨s, _, rfl⟩ := List.mem_map.mp hv
  exact .string s

namespace Tables

theorem insertEntry_of_forall_lt {name : String} {schema : Schema} {es : List (String × Schema)}
    (h : ∀ e ∈ es, e.1 < name) : insertEntry name schema es = es ++ [(name, schema)] := by
  induction es with
  | nil => rfl
  | cons e es ih =>
    obtain ⟨he, hes⟩ := List.forall_mem_cons.mp h
    have hl : ¬name < e.1 := String.lt_asymm he
    have hn : name ≠ e.1 := fun hn => String.lt_irrefl name (hn ▸ he)
    simp [insertEntry, hl, hn, ih hes]

end Tables

namespace Config

variable {c c' : Config}

theorem readSchema_strings (s : Schema) : readSchema (.strings s.names) = .ok s := by
  simp only [readSchema, Json.strings?_strings, Schema.ofNames_names]
  rfl

-- Tables are in the order of their names, so that each is put behind those before it.
theorem foldlM_tables (es : List (String × Schema)) (t : Tables)
    (h : (t.entries ++ es).Pairwise (·.1 < ·.1)) :
    (es.map fun e => (e.1, Json.strings e.2.names)).foldlM
      (fun t m => return t.insert m.1 (← readSchema m.2)) t =
    (.ok ⟨t.entries ++ es, h⟩ : Except ConfigShape Tables) := by
  induction es generalizing t with
  | nil =>
    simp only [List.append_nil]
    rfl
  | cons e es ih =>
    have hlt : ∀ f ∈ t.entries, f.1 < e.1 :=
      fun f hf => (List.pairwise_append.mp h).right.right f hf e List.mem_cons_self
    have he : (t.insert e.1 e.2).entries = t.entries ++ [e] := Tables.insertEntry_of_forall_lt hlt
    have ht := ih (t.insert e.1 e.2) (by simpa [he] using h)
    simp only [he, List.append_assoc, List.singleton_append] at ht
    simp only [List.map_cons, List.foldlM_cons, readSchema_strings]
    exact ht

theorem readTables_toJson (t : Tables) :
    readTables (.object (t.entries.map fun e => (e.1, .strings e.2.names))) = .ok t :=
  foldlM_tables t.entries .empty t.sorted

theorem readNat_ofNat (n : Nat) : readNat (.ofNat n) = .ok n := by
  simp [Json.ofNat, readNat]

theorem foldlM_readMember {m : String × Json} (h : readMember c m = .ok c')
    (ms : List (String × Json)) : (m :: ms).foldlM readMember c = ms.foldlM readMember c' := by
  rw [List.foldlM_cons, h]
  rfl

theorem readMember_default_limit (c : Config) (n : Nat) :
    readMember c ("default_limit", .ofNat n) = .ok { c with defaultLimit := n } := by
  have h : readMember c ("default_limit", .ofNat n) =
      (readNat (.ofNat n)).bind fun n => .ok { c with defaultLimit := n } := rfl
  rw [h, readNat_ofNat]
  rfl

theorem readMember_tables (c : Config) (t : Tables) :
    readMember c ("tables", .object (t.entries.map fun e => (e.1, .strings e.2.names))) =
      .ok { c with tables := t } := by
  have h (v : Json) : readMember c ("tables", v) =
      (readTables v).bind fun t => .ok { c with tables := t } := rfl
  rw [h, readTables_toJson]
  rfl

theorem ofJson_toJson (c : Config) : ofJson c.toJson = .ok c := by
  have hn : ["path", "extension", "readonly", "recursive", "delimiter", "default_limit",
    "tables"].Nodup := by decide
  simp only [ofJson, toJson, List.map_cons, List.map_nil, hn, ↓reduceIte]
  -- Texts and flags are read as they are.
  iterate 5 refine (foldlM_readMember rfl _).trans ?_
  refine (foldlM_readMember (readMember_default_limit _ _) _).trans ?_
  refine (foldlM_readMember (readMember_tables _ _) _).trans ?_
  rfl

theorem within_toJson (h : c.defaultLimit < UInt64.size) :
    c.toJson.Within Json.Number.IsWord Json.maxDepth := by
  have hw : (Json.Number.whole c.defaultLimit).IsWord := by
    simp only [Json.Number.IsWord, Json.Number.maxWord]
    omega
  refine .object ?_
  simp only [List.forall_mem_cons]
  refine ⟨.string _, .string _, .bool _, .bool _, .string _, .number hw, .object fun m hm => ?_,
    List.forall_mem_nil _⟩
  obtain ⟨e, _, rfl⟩ := List.mem_map.mp hm
  exact Json.within_strings e.2.names

theorem parse_of_ofJson {text : String} {v : Json} (h : Json.parseWith id text = .ok v)
    (hc : ofJson v = .ok c) : parse text = .ok c := by
  rw [parse, h]
  change (ofJson v).mapError ConfigError.shape = .ok c
  rw [hc]
  rfl

theorem parse_render (h : c.defaultLimit < UInt64.size) : parse c.render = .ok c :=
  parse_of_ofJson (Json.parseWith_render (within_toJson h)) (ofJson_toJson c)

theorem readNat_lt {v : Json} {n depth : Nat} (hv : v.Within Json.Number.Fits depth)
    (h : readNat v = .ok n) : n < UInt64.size := by
  cases hv
  case number n hn =>
    cases n
    case binary => cases h
    case whole n =>
      simp only [readNat] at h
      split at h
      case isFalse => cases h
      case isTrue =>
        cases h
        have hp : 0 < UInt64.size := by decide
        simp only [Json.Number.Fits, Json.Number.maxWord] at hn
        omega
  all_goals cases h

theorem readMember_limit_lt {m : String × Json} {depth : Nat}
    (hc : c.defaultLimit < UInt64.size) (hm : m.2.Within Json.Number.Fits depth)
    (h : readMember c m = .ok c') : c'.defaultLimit < UInt64.size := by
  simp only [readMember] at h
  split at h
  case h_2 => cases h
  case h_1 set hs =>
    obtain ⟨_, _, ho, _⟩ := List.lookup_eq_some_iff.mp hs
    have hs : (m.1, set) ∈ options := by simp [ho]
    simp only [options, List.mem_cons, List.not_mem_nil, Prod.mk.injEq, or_false] at hs
    rcases hs with ⟨_, rfl⟩ | ⟨_, rfl⟩ | ⟨_, rfl⟩ | ⟨_, rfl⟩ | ⟨_, rfl⟩ | ⟨_, rfl⟩ | ⟨_, rfl⟩
    all_goals
      obtain ⟨a, ha, h⟩ := exists_of_bind_eq_ok h
      cases h
      first | exact hc | exact readNat_lt hm ha

theorem foldlM_limit_lt {ms : List (String × Json)} {depth : Nat}
    (hc : c.defaultLimit < UInt64.size) (hm : ∀ m ∈ ms, m.2.Within Json.Number.Fits depth)
    (h : ms.foldlM readMember c = .ok c') : c'.defaultLimit < UInt64.size := by
  induction ms generalizing c with
  | nil =>
    cases h
    exact hc
  | cons m ms ih =>
    obtain ⟨hm, hms⟩ := List.forall_mem_cons.mp hm
    rw [List.foldlM_cons] at h
    obtain ⟨d, hd, h⟩ := exists_of_bind_eq_ok h
    exact ih (readMember_limit_lt hc hm hd) hms h

theorem ofJson_limit_lt {v : Json} {depth : Nat} (hv : v.Within Json.Number.Fits depth)
    (h : ofJson v = .ok c) : c.defaultLimit < UInt64.size := by
  have hd : ({} : Config).defaultLimit < UInt64.size := by decide
  cases hv
  case array values hvs =>
    simp only [ofJson] at h
    split at h
    case isTrue  => cases h
    case isFalse => exact foldlM_limit_lt hd (fun m hm => hvs m.2 (List.of_mem_zip hm).right) h
  case object members hms =>
    simp only [ofJson] at h
    split at h
    case isTrue  => exact foldlM_limit_lt hd hms h
    case isFalse => cases h
  all_goals cases h

-- A limit that is read from a text fits a word.
theorem parse_limit_lt {text : String} (h : parse text = .ok c) :
    c.defaultLimit < UInt64.size := by
  obtain ⟨v, hv, h⟩ := exists_of_bind_eq_ok h
  exact ofJson_limit_lt (Json.within_of_parseWith (eq_ok_of_mapError hv)) (eq_ok_of_mapError h)

-- What becomes of a configuration that is written and read back, and opened.
structure Survives (c : Config) : Prop where
  read  : ∀ j, ∃ j', read c.render j = .ok (c, j')
  start : ∀ id openedAt j, ∃ s, Session.start c id openedAt j = .ok s ∧ s.config = c ∧
    s.window.page = 1 ∧ s.window.limit = c.defaultLimit ∧ 1 ≤ c.defaultLimit

theorem survives_of_validate {delimiter : UInt8} (h : c.validate = .ok delimiter)
    (hl : c.defaultLimit < UInt64.size) : c.Survives where
  read j := by
    simp only [Config.read, parse_render hl, check, h, bind, Except.bind, pure, Except.pure]
    exact ⟨_, rfl⟩
  start id openedAt j := by
    obtain ⟨s, hs⟩ := Session.exists_start h id openedAt j
    obtain ⟨_, hc, hw, _, _⟩ := Session.start_eq_ok hs
    have hp := defaultLimit_pos h
    refine ⟨s, hs, hc, ?_, ?_, hp⟩
    · rw [hw]
      rfl
    · rw [hw, Window.start, if_neg (Nat.ne_of_gt hp)]

-- Configurations survive being written and read back:
-- (1) That holds for all that are read from a text, in either form and with any options left out.
-- (2) It also holds for all others that are valid, if their limit fits a word.
theorem render_survives :
    (∀ text j c j', Config.read text j = .ok (c, j') → c.Survives) ∧
    (∀ (c : Config) delimiter, c.validate = .ok delimiter → c.defaultLimit < UInt64.size →
      c.Survives) := by
  refine ⟨?_, fun c delimiter h hl => survives_of_validate h hl⟩
  intro text j c j' h
  obtain ⟨d, hd, h⟩ := exists_of_bind_eq_ok h
  obtain ⟨⟨delimiter, j''⟩, hc, h⟩ := exists_of_bind_eq_ok h
  cases h
  obtain ⟨delimiter', hv, _⟩ := exists_of_bind_eq_ok hc
  exact survives_of_validate hv (parse_limit_lt hd)

-- The array form, in which the names lose their quotes when they are read. The other configuration
-- has the largest limit.
theorem render_survives_quoted_names :
    let text := "[\"d\",\"\",false,false,\",\",5,\x7b\"t\":[\"\\\"a\\\"\",\"'b\"]\x7d]"
    let schema : Schema := ⟨["a", "b"], by decide, by decide⟩
    let c : Config := ⟨"d", "", false, false, ",", 5, ⟨[("t", schema)], by decide⟩⟩
    let largest : Config := { c with defaultLimit := Json.Number.maxWord }
    ((∃ j, Config.read text ⟨.fatal, []⟩ = .ok (c, j)) ∧ c.Survives) ∧
    (largest.validate = .ok 0x2C ∧ largest.Survives) := by
  intro text schema c largest
  let v : Json := .array [.string "d", .string "", .bool false, .bool false, .string ",",
    .ofNat 5, .object [("t", .strings ["\"a\"", "'b"])]]
  have ht : text = v.render := by decide
  have hw : v.Within Json.Number.IsWord Json.maxDepth := by
    refine .array ?_
    simp only [List.forall_mem_cons]
    refine ⟨.string _, .string _, .bool _, .bool _, .string _, .number ⟨by decide, by decide⟩,
      .object ?_, List.forall_mem_nil _⟩
    simpa using Json.within_strings ["\"a\"", "'b"]
  have hp : parse text = .ok c := by
    rw [ht]
    exact parse_of_ofJson (Json.parseWith_render hw) rfl
  have hd : c.delimiterByte? = some 0x2C := by decide
  have hv : c.validate = .ok 0x2C := by simp [validate, hd, c]
  have hr : Config.read text ⟨.fatal, []⟩ = .ok (c, ⟨.fatal, []⟩) := by
    simp only [Config.read, hp, bind, Except.bind, check, hv]
    rfl
  obtain ⟨ofRead, ofValid⟩ := render_survives
  have hl : largest.validate = .ok 0x2C := by
    have hl : largest.delimiterByte? = some 0x2C := hd
    simp only [validate, hl]
    rfl
  exact ⟨⟨⟨_, hr⟩, ofRead text _ c _ hr⟩, hl, ofValid largest _ hl (by decide)⟩

end Config

end FlatQuery

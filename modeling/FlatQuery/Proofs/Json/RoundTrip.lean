import FlatQuery.Json.Printer
import FlatQuery.Proofs.Json.Reader
import FlatQuery.Proofs.Number.Decimal

/-!
Compact JSON text reads as the value that it was printed from. Floating-point numbers are left out.
The main statement is `parseWith_render`.
-/

namespace FlatQuery.Json

-- Whole numbers that fit a word.
def Number.IsWord : Number → Prop
  | whole n => -(UInt64.size / 2) ≤ n ∧ n ≤ maxWord
  | binary _ => False

-- Nothing follows that could still belong to a number.
def EndsNumber (s : List Char) : Prop :=
  ∀ c ∈ s.head?, ¬c.isDigit ∧ c ≠ '.' ∧ c ≠ 'e' ∧ c ≠ 'E'

-- What is between the brackets of an array or an object.
def joined (texts : List (List Char)) : List Char :=
  [','].intercalate texts

section

variable {s r : List Char} {c : Char}

theorem hexValue?_hexDigit {n : Nat} (h : n < 16) : hexValue? (hexDigit n) = some n := by
  revert n
  decide

-- Codes below the surrogates are escaped by one unit.
theorem char?_unicodeEscape (h : c.toNat < 0xD800) (s : List Char) :
    char? (unicodeEscape c ++ s) = some (c, s) := by
  have hm (k : Nat) : k % 16 < 16 := Nat.mod_lt k (by decide)
  have hn : ((c.toNat / 4096 % 16 * 16 + c.toNat / 256 % 16) * 16 + c.toNat / 16 % 16) * 16 +
      c.toNat % 16 = c.toNat := by omega
  have hl : isLead c.toNat = false := by simp [isLead]; omega
  have ht : isTrail c.toNat = false := by simp [isTrail]; omega
  simp [unicodeEscape, char?, unit?, hexValue?_hexDigit (hm _), hn, ofUnit?, hl, ht]

theorem char?_plain (hc : 0x20 ≤ c.toNat) (hq : c ≠ '"') (hb : c ≠ '\\') (s : List Char) :
    char? (c :: s) = some (c, s) := by
  have hn : ¬c.toNat < 0x20 := by omega
  unfold char?
  split <;> simp_all

theorem char?_escape (c : Char) (s : List Char) : char? (escape c ++ s) = some (c, s) := by
  simp only [escape]
  repeat (split; case isTrue h => simp [h, char?, escaped?])
  split
  case isTrue h  => exact char?_unicodeEscape (by omega) s
  case isFalse h => exact char?_plain (by omega) ‹_› ‹_› s

theorem stringRest?_of_char? (h : char? s = some (c, r)) :
    stringRest? s = (stringRest? r).map fun (cs, r) => (c :: cs, r) := by
  rw [stringRest?.eq_def]
  split
  case h_1 => simp [char?] at h
  case h_2 => split <;> simp_all

-- A string is read back from any text that escapes its characters one by one.
theorem stringRest?_flatMap {escape : Char → List Char}
    (h : ∀ c s, char? (escape c ++ s) = some (c, s)) (cs r : List Char) :
    stringRest? (cs.flatMap escape ++ '"' :: r) = some (cs, r) := by
  induction cs with
  | nil => simp [stringRest?]
  | cons c cs ih =>
    rw [List.flatMap_cons, List.append_assoc, stringRest?_of_char? (h c _), ih]
    rfl

theorem skipBlank_of_not_isBlank (h : isBlank c = false) (s : List Char) :
    skipBlank (c :: s) = c :: s := by
  simp [skipBlank, h]

end

theorem digits?_eq_some_iff {s ds r : List Char} :
    digits? s = some (ds, r) ↔
    s = ds ++ r ∧ ds ≠ [] ∧ (∀ c ∈ ds, c.isDigit) ∧ ∀ c ∈ r.head?, ¬c.isDigit := by
  have hd : digits? s = if s.takeWhile Char.isDigit = [] then none
      else some (s.takeWhile Char.isDigit, s.dropWhile Char.isDigit) := by
    simp only [digits?, Decimal.digits]
    split <;> simp_all
  rw [hd]
  constructor
  case mp =>
    intro h
    split at h
    case isTrue     => cases h
    case isFalse hn =>
      cases h
      have hr := List.head?_dropWhile_not Char.isDigit s
      refine ⟨List.takeWhile_append_dropWhile.symm, hn, List.all_eq_true.mp List.all_takeWhile, ?_⟩
      intro c hc
      rw [hc] at hr
      simpa using hr
  case mpr =>
    rintro ⟨rfl, hn, hds, hr⟩
    rw [List.takeWhile_append_of_pos hds, List.dropWhile_append_of_pos hds]
    cases r
    case nil      => simp [hn]
    case cons c r =>
      have hc : ¬c.isDigit := hr c rfl
      simp [hc, hn]

namespace Number

theorem le_ofDigitChars (m : Nat) (ds : List Char) : m ≤ Nat.ofDigitChars 10 ds m := by
  rw [Nat.ofDigitChars_eq_ofDigitChars_zero]
  have hp : 0 < 10 ^ ds.length := Nat.pow_pos (by decide)
  have hm := Nat.le_mul_of_pos_left m hp
  omega

theorem absorb_of_le {m : Nat} {ds : List Char} (h : Nat.ofDigitChars 10 ds m ≤ maxWord) :
    absorb m ds = (Nat.ofDigitChars 10 ds m, []) := by
  induction ds generalizing m with
  | nil => simp [absorb]
  | cons d ds ih =>
    rw [Nat.ofDigitChars_cons] at h ⊢
    simp only [absorb]
    rw [if_pos (Nat.le_trans (le_ofDigitChars _ ds) h), ih h]

theorem exists_toDigits_eq_cons (n : Nat) :
    ∃ d ds, Nat.toDigits 10 n = d :: ds ∧ d.isDigit := by
  obtain ⟨d, ds, h⟩ := List.exists_cons_of_ne_nil (Nat.toDigits_ne_nil (n := n) (b := 10))
  have hd : d ∈ Nat.toDigits 10 n := h ▸ List.mem_cons_self
  exact ⟨d, ds, h, Nat.isDigit_of_mem_toDigits (by decide) (by decide) hd⟩

theorem head?_toDigits_ne {n : Nat} (h : 0 < n) : (Nat.toDigits 10 n).head? ≠ some '0' := by
  induction n using Nat.strongRecOn with
  | ind n ih =>
    rw [Nat.toDigits_eq_if (by decide)]
    split
    case isTrue hn =>
      have hd : ∀ k < 10, 0 < k → k.digitChar ≠ '0' := by decide
      simpa using hd n hn h
    case isFalse hn =>
      have hd := ih (n / 10) (Nat.div_lt_self h (by decide)) (by omega)
      obtain ⟨d, ds, hds, _⟩ := exists_toDigits_eq_cons (n / 10)
      rw [hds] at hd ⊢
      exact hd

theorem digits?_toDigits_append (n : Nat) {s : List Char} (h : EndsNumber s) :
    digits? (Nat.toDigits 10 n ++ s) = some (Nat.toDigits 10 n, s) := by
  refine digits?_eq_some_iff.mpr ⟨rfl, Nat.toDigits_ne_nil, ?_, fun c hc => (h c hc).left⟩
  exact fun c hc => Nat.isDigit_of_mem_toDigits (b := 10) (by decide) (by decide) hc

end Number

theorem fraction?_of_head? {s : List Char} (h : ∀ c ∈ s.head?, c ≠ '.') :
    fraction? s = some (none, s) := by
  unfold fraction?
  split
  case h_1 => exact absurd rfl (h '.' rfl)
  case h_2 => rfl

theorem exponent?_of_head? {s : List Char} (h : ∀ c ∈ s.head?, c ≠ 'e' ∧ c ≠ 'E') :
    exponent? s = some (none, s) := by
  cases s
  case nil       => rfl
  case cons c cs =>
    obtain ⟨he, hE⟩ := h c rfl
    simp [exponent?, he, hE]

-- The part of a number that follows its sign.
def magnitude? (negative : Bool) (s : List Char) : Option (Number × List Char) := do
  let (whole, s) ← digits? s
  let (fraction, s) ← fraction? s
  let (exponent, s) ← exponent? s
  if whole.head? == some '0' && whole.length != 1 then none
  else (Number.ofLiteral? negative whole fraction exponent).map (·, s)

theorem number?_minus (s : List Char) : number? ('-' :: s) = magnitude? true s :=
  rfl

theorem number?_of_head? {s : List Char} (h : s.head? ≠ some '-') :
    number? s = magnitude? false s := by
  cases s
  case nil       => rfl
  case cons c cs =>
    have hc : c ≠ '-' := fun hc => h (congrArg some hc)
    simp [number?, magnitude?, hc]

theorem magnitude?_toDigits_append (negative : Bool) (n : Nat) {s : List Char}
    (hs : EndsNumber s) :
    magnitude? negative (Nat.toDigits 10 n ++ s) =
      (Number.ofLiteral? negative (Nat.toDigits 10 n) none none).map (·, s) := by
  have hz : ((Nat.toDigits 10 n).head? == some '0' && (Nat.toDigits 10 n).length != 1) = false := by
    by_cases hn : n = 0
    case pos => simp [hn]
    case neg => simp [Number.head?_toDigits_ne (Nat.pos_of_ne_zero hn)]
  have hf := fraction?_of_head? fun c hc => (hs c hc).right.left
  have he := exponent?_of_head? fun c hc => (hs c hc).right.right
  simp only [magnitude?, Number.digits?_toDigits_append n hs, hf, he, bind, Option.bind_some, hz]
  rfl

namespace Number

theorem absorb_toDigits {n : Nat} (h : n ≤ maxWord) : absorb 0 (Nat.toDigits 10 n) = (n, []) := by
  rw [absorb_of_le (by simpa using h), Nat.ofDigitChars_ten_toDigits]

theorem ofLiteral?_of_le {ds : List Char} (h : Decimal.natOf ds ≤ maxWord) :
    ofLiteral? false ds none none = some (.whole (Decimal.natOf ds)) := by
  have ha : absorb 0 ds = (Decimal.natOf ds, []) := absorb_of_le h
  simp [ofLiteral?, ha]

theorem ofLiteral?_toDigits {n : Nat} (h : n ≤ maxWord) :
    ofLiteral? false (Nat.toDigits 10 n) none none = some (.whole n) := by
  rw [ofLiteral?_of_le (by rwa [Decimal.natOf_toDigits]), Decimal.natOf_toDigits]

theorem ofLiteral?_toDigits_negative {n : Nat} (h₀ : 0 < n) (h : 2 * n ≤ UInt64.size) :
    ofLiteral? true (Nat.toDigits 10 n) none none = some (.whole (-n)) := by
  have hn : n ≤ maxWord := by
    simp only [maxWord]
    omega
  simp [ofLiteral?, absorb_toDigits hn, h₀, h]

end Number

theorem text_ofNat (n : Nat) : (Number.whole (.ofNat n)).text = Nat.toDigits 10 n :=
  Nat.toList_repr

theorem text_negSucc (n : Nat) :
    (Number.whole (.negSucc n)).text = '-' :: Nat.toDigits 10 (n + 1) := by
  have hs : toString (Int.negSucc n) = "-" ++ toString (n + 1) := rfl
  rw [Number.text, hs, String.toList_append, Nat.toString_eq_ofList_toDigits]
  simp

theorem number?_text {n : Number} (h : n.IsWord) {s : List Char} (hs : EndsNumber s) :
    number? (n.text ++ s) = some (n, s) := by
  match n with
  | .binary x           => exact h.elim
  | .whole (.ofNat n)   =>
    have hm : (Nat.toDigits 10 n ++ s).head? ≠ some '-' := by
      obtain ⟨d, ds, hds, hd⟩ := Number.exists_toDigits_eq_cons n
      rw [hds]
      rintro he
      cases he
      cases hd
    rw [text_ofNat, number?_of_head? hm, magnitude?_toDigits_append false n hs,
      Number.ofLiteral?_toDigits (Int.ofNat_le.mp h.right)]
    rfl
  | .whole (.negSucc n) =>
    have hn : 2 * (n + 1) ≤ UInt64.size := by
      have hl := h.left
      omega
    rw [text_negSucc, List.cons_append, number?_minus, magnitude?_toDigits_append true (n + 1) hs,
      Number.ofLiteral?_toDigits_negative (Nat.succ_pos n) hn]
    rfl

theorem exists_text_eq_cons {n : Number} (h : n.IsWord) :
    ∃ c cs, n.text = c :: cs ∧ BeginsNumber c := by
  match n with
  | .binary x           => exact h.elim
  | .whole (.ofNat n)   =>
    obtain ⟨d, ds, hds, hd⟩ := Number.exists_toDigits_eq_cons n
    exact ⟨d, ds, (text_ofNat n).trans hds, .inr hd⟩
  | .whole (.negSucc n) => exact ⟨'-', _, text_negSucc n, .inl rfl⟩

-- The text of an item begins with a character of its own.
def BeginsItem (s : List Char) : Prop :=
  ∃ c t, s = c :: t ∧ isBlank c = false ∧ c ≠ ']' ∧ c ≠ '\x7d'

@[simp]
theorem joined_singleton (text : List Char) : joined [text] = text := by
  simp [joined, List.intercalate]

@[simp]
theorem joined_cons_cons (t u : List Char) (ts : List (List Char)) :
    joined (t :: u :: ts) = t ++ ',' :: joined (u :: ts) := by
  simp [joined, List.intercalate]

theorem forall_mem_joined {P : Char → Prop} {texts : List (List Char)}
    (h : ∀ t ∈ texts, ∀ c ∈ t, P c) (hc : P ',') : ∀ c ∈ joined texts, P c := by
  match texts with
  | []              => exact List.forall_mem_nil P
  | [t]             => simpa using h
  | t :: u :: texts =>
    obtain ⟨ht, hu⟩ := List.forall_mem_cons.mp h
    rw [joined_cons_cons, List.forall_mem_append, List.forall_mem_cons]
    exact ⟨ht, hc, forall_mem_joined hu hc⟩

theorem endsNumber_comma (s : List Char) : EndsNumber (',' :: s) := by
  simp [EndsNumber]

section

variable {α β : Type} {close : Char} {print : α → List Char} {f : α → β}
  {item : List Char → Reading β} {s r : List Char} {b : β}

theorem items_cons (h : item s = .ok (b, ',' :: r)) (hl : r.length < s.length) :
    items close item s = (items close item r).map fun (bs, t) => (b :: bs, t) := by
  rw [items.eq_def]
  simp only [h, skipBlank_of_not_isBlank (c := ',') rfl, if_pos hl]

variable (hc : close = ']' ∨ close = '\x7d')
include hc

theorem endsNumber_close (s : List Char) : EndsNumber (close :: s) := by
  obtain rfl | rfl := hc <;> simp [EndsNumber]

theorem isBlank_close : isBlank close = false := by
  obtain rfl | rfl := hc <;> rfl

theorem items_last (h : item s = .ok (b, close :: r)) : items close item s = .ok ([b], r) := by
  rw [items.eq_def]
  simp only [h, skipBlank_of_not_isBlank (isBlank_close hc)]
  obtain rfl | rfl := hc <;> rfl

theorem items_joined {as : List α} (hn : as ≠ [])
    (h : ∀ a ∈ as, ∀ s, EndsNumber s → item (print a ++ s) = .ok (f a, s)) (s : List Char) :
    items close item (joined (as.map print) ++ close :: s) = .ok (as.map f, s) := by
  match as with
  | []            => contradiction
  | [a]           =>
    have ha := h a (by simp) (close :: s) (endsNumber_close hc s)
    rw [List.map_singleton, joined_singleton, items_last hc ha]
    rfl
  | a :: a' :: as =>
    have ih := items_joined (List.cons_ne_nil a' as) (fun c hm => h c (.tail a hm)) s
    have ha := h a (by simp) (',' :: (joined ((a' :: as).map print) ++ close :: s))
      (endsNumber_comma _)
    rw [List.map_cons, List.map_cons, joined_cons_cons, ←List.map_cons, List.append_assoc,
      List.cons_append, items_cons ha (by simp; omega), ih]
    rfl

-- What is printed with commas between its parts is read back part by part.
theorem bracket_joined {as : List α}
    (hb : ∀ a ∈ as, BeginsItem (print a))
    (h : ∀ a ∈ as, ∀ s, EndsNumber s → item (print a ++ s) = .ok (f a, s)) (s : List Char) :
    bracket close item (joined (as.map print) ++ close :: s) = .ok (as.map f, s) := by
  cases as
  case nil       =>
    simp [bracket, joined, skipBlank_of_not_isBlank (isBlank_close hc)]
  case cons a as =>
    have hi := items_joined hc (List.cons_ne_nil a as) h s
    have ht : ∃ t, joined ((a :: as).map print) = print a ++ t := by
      cases as <;> simp
    obtain ⟨t, ht⟩ := ht
    obtain ⟨c, cs, hp, hw, hc₁, hc₂⟩ := hb a (by simp)
    have hne : c ≠ close := by
      obtain rfl | rfl := hc <;> assumption
    rw [ht, hp] at hi ⊢
    simp only [bracket, List.cons_append, skipBlank_of_not_isBlank hw] at hi ⊢
    rw [if_neg hne, hi]

end

-- The text of a member of an object.
def charsOfMember (m : String × Json) : List Char :=
  quote m.1 ++ ':' :: m.2.chars

theorem charsOfItems_eq (vs : List Json) : charsOfItems vs = joined (vs.map chars) := by
  induction vs with
  | nil => rfl
  | cons v vs ih => cases vs <;> simp_all [charsOfItems]

theorem charsOfMembers_eq (ms : List (String × Json)) :
    charsOfMembers ms = joined (ms.map charsOfMember) := by
  induction ms with
  | nil => rfl
  | cons m ms ih => cases ms <;> simp_all [charsOfMembers, charsOfMember]

theorem stringRest?_quote (k : String) (s : List Char) :
    stringRest? (k.toList.flatMap escape ++ '"' :: s) = some (k.toList, s) :=
  stringRest?_flatMap char?_escape k.toList s

theorem member_charsOfMember {value : List Char → Reading Json} {m : String × Json}
    {s : List Char} (h : value (m.2.chars ++ s) = .ok (m.2, s)) :
    member value (charsOfMember m ++ s) = .ok (m, s) := by
  have ht : charsOfMember m ++ s =
      '"' :: (m.1.toList.flatMap escape ++ '"' :: ':' :: (m.2.chars ++ s)) := by
    simp [charsOfMember, quote]
  rw [ht, member_eq_ok_iff]
  exact ⟨_, _, _, _, skipBlank_of_not_isBlank rfl _, stringRest?_quote m.1 _,
    skipBlank_of_not_isBlank rfl _, h, String.ofList_toList.symm⟩

theorem beginsItem_member (m : String × Json) : BeginsItem (charsOfMember m) :=
  ⟨'"', _, rfl, rfl, by decide, by decide⟩

theorem beginsItem_chars {depth : Nat} {v : Json} (h : Within Number.IsWord depth v) :
    BeginsItem v.chars := by
  cases h
  case null      => exact ⟨'n', _, rfl, rfl, by decide, by decide⟩
  case bool b    =>
    cases b
    case false => exact ⟨'f', _, rfl, rfl, by decide, by decide⟩
    case true  => exact ⟨'t', _, rfl, rfl, by decide, by decide⟩
  case number hn =>
    obtain ⟨c, cs, ht, hc⟩ := exists_text_eq_cons hn
    exact ⟨c, cs, ht, hc.not_isBlank, hc.ne (by decide) (by decide), hc.ne (by decide) (by decide)⟩
  case string s  => exact ⟨'"', _, rfl, rfl, by decide, by decide⟩
  case array     => exact ⟨'[', _, rfl, rfl, by decide, by decide⟩
  case object    => exact ⟨'\x7b', _, rfl, rfl, by decide, by decide⟩

-- A value is read back wherever what follows it is no part of a number.
theorem value_chars {depth : Nat} {v : Json} (h : Within Number.IsWord depth v) {s : List Char}
    (hs : EndsNumber s) : value id depth (v.chars ++ s) = .ok (v, s) := by
  rw [value_eq_ok_iff]
  induction h generalizing s with
  | null      => exact .null rfl
  | bool b    =>
    cases b
    case false => exact .false rfl
    case true  => exact .true rfl
  | number hn =>
    obtain ⟨c, cs, ht, hc⟩ := exists_text_eq_cons hn
    have hr := number?_text hn hs
    rw [ht] at hr
    rw [chars, ht]
    exact .number hc (skipBlank_of_not_isBlank hc.not_isBlank _) hr
  | string t  =>
    have ht : (string t).chars ++ s = '"' :: (t.toList.flatMap escape ++ '"' :: s) := by
      simp [chars, quote]
    rw [ht, ←@String.ofList_toList t]
    exact .string (skipBlank_of_not_isBlank rfl _) (by simpa using stringRest?_quote t s)
  | @array depth vs hvs ih =>
    have ht : (array vs).chars ++ s = '[' :: (joined (vs.map chars) ++ ']' :: s) := by
      simp [chars, charsOfItems_eq]
    have hb : bracket ']' (value id depth) (joined (vs.map chars) ++ ']' :: s) =
        .ok (vs.map id, s) :=
      bracket_joined (.inl rfl) (fun v hv => beginsItem_chars (hvs v hv))
        (fun v hv s hs => (ih v hv hs).value) s
    rw [List.map_id] at hb
    rw [ht]
    exact .array (skipBlank_of_not_isBlank rfl _) hb
  | @object depth ms hms ih =>
    have ht : (object ms).chars ++ s =
        '\x7b' :: (joined (ms.map charsOfMember) ++ '\x7d' :: s) := by
      simp [chars, charsOfMembers_eq]
    have hb : bracket '\x7d' (member (value id depth))
        (joined (ms.map charsOfMember) ++ '\x7d' :: s) = .ok (ms.map id, s) :=
      bracket_joined (.inr rfl) (fun m _ => beginsItem_member m)
        (fun m hm s hs => member_charsOfMember (ih m hm hs).value) s
    rw [List.map_id] at hb
    rw [ht]
    exact .object (skipBlank_of_not_isBlank rfl _) hb

theorem parseWith_render {v : Json} (h : Within Number.IsWord maxDepth v) :
    parseWith id v.render = .ok v := by
  have hv := value_chars (s := []) h (by simp [EndsNumber])
  rw [List.append_nil] at hv
  exact parseWith_eq_ok_iff.mpr ⟨[], by rw [render, String.toList_ofList, hv], by simp⟩

end FlatQuery.Json

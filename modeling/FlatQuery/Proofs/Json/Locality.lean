import FlatQuery.Proofs.Json.RoundTrip

/-!
What the reader of JSON text takes of a text does not depend on what stands behind that, as long as
this does not continue a number. Blanks are taken only in front of something else, so that those at
the end of a text make no difference. The main statement is `parse_append_blanks`.
-/

namespace FlatQuery.Json

-- The second text can stand in the place of the first one behind something that has been read.
def Replaces (r r' : List Char) : Prop :=
  r'.head? = r.head? ∨ EndsNumber r'

-- Something that is read takes a text away up to a rest. It is the same for all rests that can
-- stand in the place of this one, and the last character that is taken is not a blank.
def Takes (Reads : List Char → List Char → Prop) (s r : List Char) : Prop :=
  ∃ p c, s = p ++ c :: r ∧ ¬isBlank c ∧ ∀ r', Replaces r r' → Reads (p ++ c :: r') r'

-- Something that is read takes a text away or it takes nothing.
def MayTake (Reads : List Char → List Char → Prop) (s r : List Char) : Prop :=
  Takes Reads s r ∨ s = r ∧ ∀ r', Replaces r r' → Reads r' r'

variable {s t r r' : List Char} {c : Char} {R R₁ R₂ : List Char → List Char → Prop}

-- What the first character of a rest is not, that of the other rest is not either.
theorem Replaces.forall_head? {Q : Char → Prop} (h : Replaces r r')
    (hq : ∀ c, ¬c.isDigit ∧ c ≠ '.' ∧ c ≠ 'e' ∧ c ≠ 'E' → Q c) (hr : ∀ c ∈ r.head?, Q c) :
    ∀ c ∈ r'.head?, Q c := by
  cases h
  case inl h => exact h ▸ hr
  case inr h => exact fun c hc => hq c (h c hc)

theorem Replaces.behind (p : List Char) (c : Char) (r r' : List Char) :
    Replaces (p ++ c :: r) (p ++ c :: r') := by
  cases p <;> exact .inl rfl

namespace Takes

theorem mono (h : Takes R₁ s r) (hr : ∀ {s r}, R₁ s r → R s r) : Takes R s r := by
  obtain ⟨p, c, hs, hc, h⟩ := h
  exact ⟨p, c, hs, hc, fun r' hr' => hr (h r' hr')⟩

-- What a text begins with is taken.
theorem head? (h : Takes R s r) : Takes (fun t r => t.head? = s.head? ∧ R t r) s r := by
  obtain ⟨p, c, rfl, hc, h⟩ := h
  refine ⟨p, c, rfl, hc, fun r' hr' => ⟨?_, h r' hr'⟩⟩
  cases p <;> rfl

-- Some characters that are known.
theorem text (p : List Char) (hc : ¬isBlank c) (r : List Char) :
    Takes (fun s r => s = p ++ c :: r) (p ++ c :: r) r :=
  ⟨p, c, rfl, hc, fun _ _ => rfl⟩

-- Something that is read after something else.
theorem comp (h₁ : Takes R₁ s t) (h₂ : Takes R₂ t r)
    (h : ∀ {s t r}, t.length < s.length → R₁ s t → R₂ t r → R s r) : Takes R s r := by
  obtain ⟨p₁, c₁, rfl, -, hr₁⟩ := h₁
  obtain ⟨p₂, c₂, rfl, hc₂, hr₂⟩ := h₂
  refine ⟨p₁ ++ c₁ :: p₂, c₂, by simp, hc₂, fun r' hr' => ?_⟩
  rw [List.append_assoc, List.cons_append]
  exact h (by simp; omega) (hr₁ _ (.behind ..)) (hr₂ r' hr')

theorem comp_mayTake (h₁ : Takes R₁ s t) (h₂ : MayTake R₂ t r)
    (h : ∀ {s t r}, R₁ s t → R₂ t r → R s r) : Takes R s r := by
  obtain h₂ | ⟨rfl, h₂⟩ := h₂
  case inl => exact h₁.comp h₂ fun _ => h
  case inr =>
    obtain ⟨p, c, hs, hc, h₁⟩ := h₁
    exact ⟨p, c, hs, hc, fun r' hr' => h (h₁ r' hr') (h₂ r' hr')⟩

-- Something that is read behind blanks.
theorem behind_blanks (hs : skipBlank s = t) (h : Takes R₁ t r)
    (hr : ∀ {s t r}, skipBlank s = t → R₁ t r → R s r) : Takes R s r := by
  obtain ⟨p, c, rfl, hc, h⟩ := h
  refine ⟨s.takeWhile isBlank ++ p, c, ?_, hc, fun r' hr' => hr ?_ (h r' hr')⟩
  · rw [List.append_assoc, ←hs, skipBlank, List.takeWhile_append_dropWhile]
  · have hb : ∀ d ∈ s.takeWhile isBlank, isBlank d := List.all_eq_true.mp List.all_takeWhile
    have hd := List.head?_dropWhile_not isBlank s
    rw [←skipBlank, hs] at hd
    rw [skipBlank, List.append_assoc, List.dropWhile_append_of_pos hb]
    cases p <;> simp_all

end Takes

-- Some characters that are known and stand behind blanks.
theorem takes_word (p : List Char) (hc : ¬isBlank c) (h : skipBlank s = p ++ c :: r) :
    Takes (fun s r => skipBlank s = p ++ c :: r) s r :=
  .behind_blanks h (.text p hc r) fun hs ht => hs.trans ht

theorem takes_skipBlank (hc : ¬isBlank c) (h : skipBlank s = c :: r) :
    Takes (fun s r => skipBlank s = c :: r) s r :=
  takes_word [] hc h

section

variable {d : Char} {cs : List Char}

theorem ofUnit?_append {n : Nat} (h : ofUnit? n s = some (d, r)) :
    ∃ p, s = p ++ r ∧ ∀ r', ofUnit? n (p ++ r') = some (d, r') := by
  simp only [ofUnit?] at h
  split at h
  case isTrue hl =>
    split at h
    case h_2 => cases h
    case h_1 a b c d s =>
      simp only [bind, Option.bind_eq_some_iff] at h
      obtain ⟨m, hm, h⟩ := h
      split at h
      case isFalse   => cases h
      case isTrue ht =>
        obtain ⟨rfl, rfl⟩ := Prod.mk.inj (Option.some.inj h)
        exact ⟨['\\', 'u', a, b, c, d], rfl, fun r' => by simp [ofUnit?, hl, hm, ht]⟩
  case isFalse hl =>
    split at h
    case isTrue     => cases h
    case isFalse ht =>
      obtain ⟨rfl, rfl⟩ := Prod.mk.inj (Option.some.inj h)
      exact ⟨[], rfl, fun r' => by simp [ofUnit?, hl, ht]⟩

theorem char?_append (h : char? s = some (d, r)) :
    ∃ p, s = p ++ r ∧ ∀ r', char? (p ++ r') = some (d, r') := by
  unfold char? at h
  split at h
  case h_1 => cases h
  case h_2 a b c e s =>
    obtain ⟨n, hn, hu⟩ := Option.bind_eq_some_iff.mp h
    obtain ⟨p, rfl, hp⟩ := ofUnit?_append hu
    exact ⟨'\\' :: 'u' :: a :: b :: c :: e :: p, rfl, fun r' => by simp [char?, hn, hp]⟩
  case h_3 c s _ =>
    obtain ⟨e, he, hs⟩ := Option.map_eq_some_iff.mp h
    obtain ⟨rfl, rfl⟩ := Prod.mk.inj hs
    have hc : c ≠ 'u' := by
      rintro rfl
      cases he
    exact ⟨['\\', c], rfl, fun r' => by simp [char?, hc, he]⟩
  case h_4 c s _ _ =>
    split at h
    case isTrue     => cases h
    case isFalse hn =>
      obtain ⟨rfl, rfl⟩ := Prod.mk.inj (Option.some.inj h)
      simp only [Bool.or_eq_true, decide_eq_true_eq, beq_iff_eq, not_or] at hn
      obtain ⟨⟨hl, hb⟩, hq⟩ := hn
      exact ⟨[c], rfl, char?_plain (Nat.le_of_not_lt hl) hq hb⟩

theorem takes_stringRest? (h : stringRest? s = some (cs, r)) :
    Takes (fun s r => stringRest? s = some (cs, r)) s r := by
  suffices hs : ∃ p, s = p ++ '"' :: r ∧ ∀ r', stringRest? (p ++ '"' :: r') = some (cs, r') by
    obtain ⟨p, rfl, hp⟩ := hs
    exact ⟨p, '"', rfl, by decide, fun r' _ => hp r'⟩
  fun_induction stringRest? s generalizing cs r with
  | case1 s =>
    cases h
    exact ⟨[], rfl, fun r' => by simp [stringRest?]⟩
  | case2 => cases h
  | case3 s _ c t hc ih =>
    obtain ⟨⟨cs', u⟩, h, he⟩ := Option.map_eq_some_iff.mp h
    cases he
    obtain ⟨p, rfl, hp⟩ := char?_append hc
    obtain ⟨p', rfl, hp'⟩ := ih h
    refine ⟨p ++ p', (List.append_assoc ..).symm, fun r' => ?_⟩
    rw [List.append_assoc, stringRest?_of_char? (hp _), hp']
    rfl

end

section

variable {ds : List Char} {f : Option (List Char)} {e : Option Int} {n : Number} {negative : Bool}

theorem takes_digits? (h : digits? s = some (ds, r)) :
    Takes (fun s r => digits? s = some (ds, r)) s r := by
  obtain ⟨rfl, hn, hd, hr⟩ := digits?_eq_some_iff.mp h
  obtain ⟨p, c, rfl⟩ := (List.eq_nil_or_concat ds).resolve_left hn
  refine ⟨p, c, by simp, ?_, fun r' hr' => digits?_eq_some_iff.mpr ⟨by simp, hn, hd, ?_⟩⟩
  · simp [BeginsNumber.not_isBlank (.inr (hd c (by simp)))]
  · exact hr'.forall_head? (fun c h => h.left) hr

theorem takes_fraction? (h : fraction? s = some (f, r)) :
    MayTake (fun s r => fraction? s = some (f, r)) s r := by
  unfold fraction? at h
  split at h
  case h_1 s =>
    obtain ⟨⟨ds, u⟩, hd, he⟩ := Option.map_eq_some_iff.mp h
    cases he
    refine .inl ((Takes.text [] (by decide) s).comp (takes_digits? hd) ?_)
    rintro _ t r _ rfl hd
    simp [fraction?, hd]
  case h_2 hs =>
    cases h
    have hc : ∀ c ∈ s.head?, c ≠ '.' := by
      rintro c hc rfl
      obtain ⟨t, ht⟩ := List.head?_eq_some_iff.mp hc
      exact hs t ht
    exact .inr ⟨rfl, fun r' hr' =>
      fraction?_of_head? (hr'.forall_head? (fun c h => h.right.left) hc)⟩

theorem sign_of_digits? (h : digits? s = some (ds, r)) : Decimal.sign s = (false, s) := by
  obtain ⟨rfl, hn, hd, -⟩ := digits?_eq_some_iff.mp h
  obtain ⟨d, ds, rfl⟩ := List.exists_cons_of_ne_nil hn
  have hc : d.isDigit := hd d List.mem_cons_self
  rw [List.cons_append, Decimal.sign.eq_def]
  split
  case h_1 he => cases he; cases hc
  case h_2 he => cases he; cases hc
  case h_3    => rfl

theorem takes_sign (h : Decimal.sign s = (negative, t)) (hd : digits? t = some (ds, r)) :
    Takes (fun s r => ∃ t, Decimal.sign s = (negative, t) ∧ digits? t = some (ds, r)) s r := by
  have ht := takes_digits? hd
  simp only [Decimal.sign] at h
  split at h
  case h_1 | h_2 =>
    cases h
    refine (Takes.text [] (by decide) _).comp ht ?_
    rintro _ t r _ rfl hd
    exact ⟨t, rfl, hd⟩
  case h_3 =>
    cases h
    exact ht.mono fun hd => ⟨_, sign_of_digits? hd, hd⟩

theorem takes_exponent? (h : exponent? s = some (e, r)) :
    MayTake (fun s r => exponent? s = some (e, r)) s r := by
  have nothing (hr : ∀ c ∈ r.head?, c ≠ 'e' ∧ c ≠ 'E') :
      MayTake (fun s r => exponent? s = some (none, r)) r r :=
    .inr ⟨rfl, fun r' hr' =>
      exponent?_of_head? (hr'.forall_head? (fun c h => h.right.right) hr)⟩
  unfold exponent? at h
  split at h
  case h_2 =>
    cases h
    exact nothing (by simp)
  case h_1 c s =>
    split at h
    case isFalse hc =>
      cases h
      exact nothing (by simpa using hc)
    case isTrue hc =>
      obtain ⟨⟨ds, u⟩, hd, he⟩ := Option.map_eq_some_iff.mp h
      cases he
      have hb : ¬isBlank c := by
        obtain rfl | rfl : c = 'e' ∨ c = 'E' := by simpa using hc
        all_goals decide
      refine .inl ((Takes.text [] hb s).comp (takes_sign rfl hd) ?_)
      rintro _ t r _ rfl ⟨u, hs, hd⟩
      simp [exponent?, hc, hs, hd]

theorem takes_magnitude? (h : magnitude? negative s = some (n, r)) :
    Takes (fun s r => magnitude? negative s = some (n, r)) s r := by
  simp only [magnitude?, bind, Option.bind_eq_some_iff] at h
  obtain ⟨⟨ds, t⟩, hd, ⟨f, u⟩, hf, ⟨e, v⟩, he, h⟩ := h
  split at h
  case isTrue     => cases h
  case isFalse hz =>
    obtain ⟨n, hn, he'⟩ := Option.map_eq_some_iff.mp h
    cases he'
    have hr : Takes (fun s r => ∃ t, digits? s = some (ds, t) ∧ fraction? t = some (f, r)) s u :=
      (takes_digits? hd).comp_mayTake (takes_fraction? hf) fun hd hf => ⟨_, hd, hf⟩
    refine hr.comp_mayTake (takes_exponent? he) ?_
    rintro s u r ⟨t, hd, hf⟩ he
    simp only [magnitude?, hd, hf, he, bind, Option.bind_some]
    rw [if_neg hz, hn]
    rfl

theorem takes_number? (h : number? s = some (n, r)) :
    Takes (fun s r => number? s = some (n, r)) s r := by
  by_cases hm : s.head? = some '-'
  case pos =>
    obtain ⟨s, rfl⟩ := List.head?_eq_some_iff.mp hm
    refine (Takes.text [] (by decide) s).comp (takes_magnitude? h) ?_
    rintro _ t r _ rfl h
    exact h
  case neg =>
    refine (takes_magnitude? (number?_of_head? hm ▸ h)).head?.mono ?_
    rintro t r ⟨ht, h⟩
    exact (number?_of_head? (ht ▸ hm)).trans h

end

section

variable {α : Type} {close : Char} {item : List Char → Reading α} {as : List α}
  (hc : ¬isBlank close)
  (hi : ∀ {s a r}, item s = .ok (a, r) → Takes (fun s r => item s = .ok (a, r)) s r)
include hc hi

theorem takes_items (h : items close item s = .ok (as, r)) :
    Takes (fun s r => items close item s = .ok (as, r)) s r := by
  fun_induction items close item s generalizing as r with
  | case1 | case3 | case5 | case6 => cases h
  | case2 s a t hs u ht _ ih =>
    obtain ⟨⟨as', v⟩, h', he⟩ := exists_of_map_eq_ok h
    cases he
    have hr : Takes (fun t r => ∃ u, u.length < t.length ∧ skipBlank t = ',' :: u ∧
        items close item u = .ok (as', r)) t r :=
      (takes_skipBlank (by decide) ht).comp (ih h') fun hl ht h => ⟨_, hl, ht, h⟩
    refine (hi hs).comp hr ?_
    rintro s t r hl hs ⟨u, hl', ht, h⟩
    rw [items.eq_def]
    simp only [hs, ht, Nat.lt_trans hl' hl, ↓reduceIte, h]
    rfl
  | case4 s a t hs u _ ht =>
    cases h
    refine (hi hs).comp (takes_skipBlank hc ht) ?_
    intro s t r _ hs ht
    rw [items.eq_def]
    simp only [hs, ht, ↓reduceIte]

theorem takes_bracket (h : bracket close item s = .ok (as, r)) :
    Takes (fun s r => bracket close item s = .ok (as, r)) s r := by
  simp only [bracket] at h
  split at h
  case h_2 => cases h
  case h_1 c t ht =>
    split at h
    case isTrue he =>
      cases h
      subst he
      refine (takes_skipBlank hc ht).mono fun hs => ?_
      simp [bracket, hs]
    case isFalse he =>
      have hb : Takes (fun t r => t.head? = some c ∧ items close item t = .ok (as, r)) (c :: t) r :=
        (takes_items hc hi h).head?
      refine .behind_blanks ht hb ?_
      rintro s t r hs ⟨hd, h⟩
      obtain ⟨u, rfl⟩ := List.head?_eq_some_iff.mp hd
      simp only [bracket, hs, he, ↓reduceIte, h]

end

theorem takes_member {value : List Char → Reading Json} {m : String × Json}
    (hv : ∀ {s v r}, value s = .ok (v, r) → Takes (fun s r => value s = .ok (v, r)) s r)
    (h : member value s = .ok (m, r)) : Takes (fun s r => member value s = .ok (m, r)) s r := by
  obtain ⟨t, u, w, cs, ht, hk, hw, hx, he⟩ := member_eq_ok_iff.mp h
  have hn : Takes (fun s u => ∃ t, skipBlank s = '"' :: t ∧ stringRest? t = some (cs, u)) s u :=
    (takes_skipBlank (by decide) ht).comp (takes_stringRest? hk) fun _ ht hk => ⟨_, ht, hk⟩
  have hr : Takes (fun u r => ∃ w, skipBlank u = ':' :: w ∧ value w = .ok (m.2, r)) u r :=
    (takes_skipBlank (by decide) hw).comp (hv hx) fun _ hw hv => ⟨_, hw, hv⟩
  refine hn.comp hr ?_
  rintro s u r _ ⟨t, ht, hk⟩ ⟨w, hw, hv⟩
  exact member_eq_ok_iff.mpr ⟨t, u, w, cs, ht, hk, hw, hv, he⟩

variable {tidy : List (String × Json) → List (String × Json)}

theorem takes_value (depth : Nat) {s r : List Char} {v : Json}
    (h : value tidy depth s = .ok (v, r)) :
    Takes (fun s r => value tidy depth s = .ok (v, r)) s r := by
  suffices ht : Takes (fun s r => ReadsValue tidy depth s v r) s r from ht.mono ReadsValue.value
  cases value_eq_ok_iff.mp h with
  | null hs         => exact (takes_word _ (by decide) hs).mono .null
  | true hs         => exact (takes_word _ (by decide) hs).mono .true
  | false hs        => exact (takes_word _ (by decide) hs).mono .false
  | string hs hc    =>
    exact (takes_skipBlank (by decide) hs).comp (takes_stringRest? hc) fun _ => .string
  | array hs hb     =>
    have hb := takes_bracket (by decide) (takes_value _) hb
    exact (takes_skipBlank (by decide) hs).comp hb fun _ => .array
  | object hs hb    =>
    have hb := takes_bracket (by decide) (takes_member (takes_value _)) hb
    exact (takes_skipBlank (by decide) hs).comp hb fun _ => .object
  | number hc hs hn =>
    refine .behind_blanks hs (takes_number? hn).head? ?_
    rintro s t r hs ⟨hd, hn⟩
    obtain ⟨u, rfl⟩ := List.head?_eq_some_iff.mp hd
    exact .number hc hs hn

section

variable {w : List Char} (hw : ∀ c ∈ w, isBlank c)
include hw

theorem replaces_append_blanks (r : List Char) : Replaces r (r ++ w) ∧ Replaces (r ++ w) r := by
  have hw : EndsNumber w := by
    intro c hc
    have hb : isBlank c := hw c (List.mem_of_mem_head? hc)
    simp only [isBlank, Bool.or_eq_true, beq_iff_eq, or_assoc] at hb
    obtain rfl | rfl | rfl | rfl := hb <;> decide
  have hn : EndsNumber [] := by simp [EndsNumber]
  cases r
  case nil  => exact ⟨.inr hw, .inr hn⟩
  case cons => exact ⟨.inl rfl, .inl rfl⟩

theorem Takes.append_blanks (h : Takes R s r) : R (s ++ w) (r ++ w) := by
  obtain ⟨p, c, rfl, -, hp⟩ := h
  rw [List.append_assoc, List.cons_append]
  exact hp _ (replaces_append_blanks hw r).left

-- The last character that is taken is not a blank, so that none of the blanks at the end is taken.
theorem Takes.of_append_blanks (h : Takes R (s ++ w) r) : ∃ t, r = t ++ w ∧ R s t := by
  obtain ⟨p, c, hs, hc, hp⟩ := h
  obtain ⟨t, -, ht⟩ | ⟨t, rfl, ht⟩ := List.append_eq_append_iff.mp hs
  case inl => exact absurd (hw c (by simp [ht])) hc
  case inr =>
    cases t with
    | nil      =>
      obtain rfl : c :: r = w := ht
      exact absurd (hw c List.mem_cons_self) hc
    | cons d t =>
      cases ht
      exact ⟨t, rfl, hp t (replaces_append_blanks hw t).right⟩

-- Blanks at the end of a text make no difference, unless it is for how an error is put.
theorem parse_append_blanks (s : List Char) :
    (parse (.ofList (s ++ w))).toOption = (parse (.ofList s)).toOption := by
  suffices h : ∀ v, parse (.ofList (s ++ w)) = .ok v ↔ parse (.ofList s) = .ok v by
    cases hs : parse (.ofList s) with
    | ok v    => rw [(h v).mpr hs]
    | error e =>
      cases hsw : parse (.ofList (s ++ w)) with
      | ok v    => cases hs.symm.trans ((h v).mp hsw)
      | error e => rfl
  intro v
  rw [parse, parse, parseWith_eq_ok_iff, parseWith_eq_ok_iff, String.toList_ofList,
    String.toList_ofList]
  constructor
  case mp =>
    rintro ⟨r, hv, hr⟩
    obtain ⟨t, rfl, ht⟩ := (takes_value maxDepth hv).of_append_blanks hw
    exact ⟨t, ht, fun d hd => hr d (List.mem_append_left w hd)⟩
  case mpr =>
    rintro ⟨r, hv, hr⟩
    refine ⟨r ++ w, (takes_value maxDepth hv).append_blanks hw, fun d hd => ?_⟩
    exact (List.mem_append.mp hd).elim (hr d) (hw d)

end

end FlatQuery.Json

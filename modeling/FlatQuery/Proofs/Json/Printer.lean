import FlatQuery.Json.Printer

/-!
The compact text of a value has no control characters. So it is one line of text.
-/

namespace FlatQuery

namespace Json

-- A text in which no character lies below the space.
def Plain (cs : List Char) : Prop :=
  ∀ c ∈ cs, 0x20 ≤ c.toNat

namespace Plain

variable {c : Char} {cs ds : List Char}

@[simp]
theorem nil : Plain [] :=
  List.forall_mem_nil _

@[simp]
theorem cons_iff : Plain (c :: cs) ↔ 0x20 ≤ c.toNat ∧ Plain cs :=
  List.forall_mem_cons

@[simp]
theorem append_iff : Plain (cs ++ ds) ↔ Plain cs ∧ Plain ds :=
  List.forall_mem_append

theorem of_subset (h : cs ⊆ ds) (hd : Plain ds) : Plain cs :=
  fun c hc => hd c (h hc)

theorem lf_not_mem (h : Plain cs) : '\n' ∉ cs :=
  fun hc => absurd (h _ hc) (by decide)

end Plain

theorem plain_toDigits (n : Nat) : Plain (Nat.toDigits 10 n) := by
  intro c hc
  have h : 48 ≤ c.toNat ∧ c.toNat ≤ 57 :=
    Char.isDigit_iff_toNat.mp (Nat.isDigit_of_mem_toDigits (b := 10) (by decide) (by decide) hc)
  omega

theorem plain_nat (n : Nat) : Plain (toString n).toList := by
  simpa using plain_toDigits n

theorem plain_int (n : Int) : Plain (toString n).toList := by
  cases n
  case ofNat n   => exact plain_nat n
  case negSucc n =>
    have h : toString (Int.negSucc n) = "-" ++ toString (n + 1) := rfl
    rw [h, String.toList_append, Plain.append_iff]
    exact ⟨by simp, plain_nat (n + 1)⟩

-- Zeros and a point are all that is put around the digits.
theorem plain_positional (c : Nat) (e : Int) : Plain (Shortest.positional c e).toList := by
  have zeros (n : Nat) : Plain (.replicate n '0') := by
    intro c hc
    simp [(List.mem_replicate.mp hc).right]
  simp only [Shortest.positional]
  split
  case isTrue  => simp [plain_toDigits c, zeros]
  case isFalse =>
    generalize hd : List.replicate _ '0' ++ (toString c).toList = ds
    have hd : Plain ds := by simp [←hd, zeros, plain_toDigits c]
    simp [hd.of_subset (List.take_subset _ _), hd.of_subset (List.drop_subset _ _)]

theorem plain_decimal (c : Nat) (e : Int) : Plain (Number.decimal c e) := by
  simp only [Number.decimal]
  generalize hd : Nat.toDigits 10 c = ds
  have hd : Plain ds := hd ▸ plain_toDigits c
  split
  case isTrue =>
    have hp : Plain (Shortest.positional c e).toList := plain_positional c e
    split <;> simp [hp]
  case isFalse =>
    have hp : Plain (ds.take 1) := hd.of_subset (List.take_subset _ _)
    have hs : Plain (ds.drop 1) := hd.of_subset (List.drop_subset _ _)
    have he : Plain ('e' :: (toString (ds.length + e - 1)).toList) :=
      Plain.cons_iff.mpr ⟨by decide, plain_int _⟩
    rw [Plain.append_iff, Plain.append_iff]
    refine ⟨⟨hp, ?_⟩, he⟩
    split
    case isTrue  => exact Plain.cons_iff.mpr ⟨by decide, hs⟩
    case isFalse => exact Plain.nil

theorem plain_number (n : Number) : Plain n.text := by
  cases n
  case whole n  => exact plain_int n
  case binary x =>
    simp only [Number.text]
    split
    case isTrue  => simp
    case isFalse =>
      generalize hm : (if x.rank = 0 then "0.0".toList else _) = magnitude
      have hm : Plain magnitude := by
        subst hm
        split
        case isTrue  => simp
        case isFalse => exact plain_decimal _ _
      split
      case isTrue  => simp [hm]
      case isFalse => exact hm

theorem le_toNat_hexDigit {n : Nat} (h : n < 16) : 0x20 ≤ (hexDigit n).toNat := by
  revert n
  decide

-- What lies below the space is escaped.
theorem plain_escape (c : Char) : Plain (escape c) := by
  simp only [escape]
  repeat (split; case isTrue => simp)
  split
  case isTrue  => simp [unicodeEscape, le_toNat_hexDigit, Nat.mod_lt]
  case isFalse => simp; omega

theorem plain_quote (s : String) : Plain (quote s) := by
  have h : Plain (s.toList.flatMap escape) := by
    intro c hc
    obtain ⟨d, _, hd⟩ := List.mem_flatMap.mp hc
    exact plain_escape d c hd
  simp [quote, h]

mutual

theorem plain_chars (v : Json) : Plain v.chars := by
  cases v
  case null       => simp [chars]
  case bool b     => cases b <;> simp [chars]
  case number n   => exact plain_number n
  case string s   => exact plain_quote s
  case array vs   => simp [chars, plain_charsOfItems vs]
  case object ms  => simp [chars, plain_charsOfMembers ms]

theorem plain_charsOfItems (vs : List Json) : Plain (charsOfItems vs) := by
  match vs with
  | []          => simp [charsOfItems]
  | [v]         => exact plain_chars v
  | v :: w :: vs => simp [charsOfItems, plain_chars v, plain_charsOfItems (w :: vs)]

theorem plain_charsOfMembers (ms : List (String × Json)) : Plain (charsOfMembers ms) := by
  match ms with
  | []                => simp [charsOfMembers]
  | [(k, v)]          => simp [charsOfMembers, plain_quote k, plain_chars v]
  | (k, v) :: m :: ms =>
    simp [charsOfMembers, plain_quote k, plain_chars v, plain_charsOfMembers (m :: ms)]

end

end Json

end FlatQuery

import FlatQuery.Path

/-!
Paths by their components. The name of an entry of a directory, behind the path of the directory,
adds one component to those of this path. The main statement is `Path.components_join`.
-/

namespace FlatQuery.Path

-- The name of an entry of a directory. The names of the directory itself and of the one above it
-- are left out.
structure IsEntry (name : String) : Prop where
  ne_empty     : name ≠ ""
  ne_dot       : name ≠ "."
  ne_dots      : name ≠ ".."
  no_slash     : '/' ∉ name.toList
  no_backslash : '\\' ∉ name.toList

-- A path that leads from a directory to one of its entries.
def LiesIn (base path : String) : Prop :=
  ∃ name, IsEntry name ∧ path = join base name ∧ components path = components base ++ [name]

variable {base name : String} {a b : List Char}

theorem segments_ne_nil (s : List Char) : segments s ≠ [] := by
  cases s
  case nil       => simp [segments]
  case cons c cs =>
    simp only [segments]
    split
    case isTrue  => simp
    case isFalse => split <;> simp

theorem segments_of_not_mem (h : '/' ∉ a) : segments a = [a] := by
  induction a with
  | nil => rfl
  | cons c cs ih =>
    simp only [List.mem_cons, not_or] at h
    simp [segments, Ne.symm h.left, ih h.right]

theorem segments_append (a b : List Char) :
    segments (a ++ '/' :: b) = segments a ++ segments b := by
  induction a with
  | nil => simp [segments]
  | cons c cs ih =>
    simp only [List.cons_append, segments, ih]
    split
    case isTrue  => rfl
    case isFalse =>
      cases hs : segments cs
      case nil  => exact absurd hs (segments_ne_nil cs)
      case cons => rfl

-- The components of segments that count wherever they stand.
def inner (segments : List (List Char)) : List String :=
  (segments.filter fun s => s ≠ [] && s ≠ ['.']).map .ofList

-- What a path begins with, the root or the directory that it is relative to.
def origin (path : String) : List String :=
  if isAbsolute path then ["/"]
  else if (segments path.toList).head? = some ['.'] then ["."]
  else []

theorem components_eq (path : String) :
    components path = origin path ++ inner (segments path.toList) := by
  have ha : isAbsolute path ↔ ∃ cs, path.toList = '/' :: cs := by
    simp [isAbsolute, List.head?_eq_some_iff]
  simp only [components, origin]
  split
  case h_1 cs hs    => simp [ha, hs, inner]
  case h_2 ss hs hc =>
    have hn : ¬isAbsolute path := fun h => (ha.mp h).elim hc
    simp [hn, hs, inner]
  case h_3 hc hs    =>
    have hn : ¬isAbsolute path := fun h => (ha.mp h).elim hc
    have hd : (segments path.toList).head? ≠ some ['.'] := fun h =>
      (List.head?_eq_some_iff.mp h).elim hs
    simp [hn, hd, inner]

theorem inner_append (ss ts : List (List Char)) : inner (ss ++ ts) = inner ss ++ inner ts := by
  simp [inner]

theorem IsEntry.toList_ne_dot (h : IsEntry name) : name.toList ≠ ['.'] :=
  fun hd => h.ne_dot (String.toList_inj.mp hd)

theorem IsEntry.inner_segments (h : IsEntry name) : inner (segments name.toList) = [name] := by
  have hn : name.toList ≠ [] := by simpa using h.ne_empty
  simp [segments_of_not_mem h.no_slash, inner, hn, h.toList_ne_dot]

theorem IsEntry.not_isAbsolute (h : IsEntry name) : isAbsolute name = false := by
  simp only [isAbsolute, beq_eq_false_iff_ne]
  exact fun hh => h.no_slash (List.mem_of_mem_head? hh)

-- The slash between a directory and the name of its entry is either that at the end of the
-- directory or a new one.
theorem toList_join (h : IsEntry name) (hb : base ≠ "") :
    ∃ b, (join base name).toList = b ++ '/' :: name.toList ∧
      (base.toList = b ∧ b ≠ [] ∨ base.toList = b ++ ['/']) := by
  simp only [join, h.not_isAbsolute, hb, ↓reduceIte, Bool.false_eq_true]
  split
  case isTrue hl =>
    obtain ⟨b, hs⟩ := List.getLast?_eq_some_iff.mp hl
    exact ⟨b, by simp [hs], .inr hs⟩
  case isFalse => exact ⟨base.toList, by simp, .inl ⟨rfl, by simpa using hb⟩⟩

theorem head?_segments_append (a b : List Char) :
    (segments (a ++ '/' :: b)).head? = (segments a).head? := by
  obtain ⟨s, ss, hs⟩ := List.exists_cons_of_ne_nil (segments_ne_nil a)
  rw [segments_append, hs, List.cons_append, List.head?_cons, List.head?_cons]

theorem origin_join (h : IsEntry name) (hb : base ≠ "") :
    origin (join base name) = origin base := by
  obtain ⟨b, hj, ⟨hs, hn⟩ | hs⟩ := toList_join h hb
  case inl =>
    have hh : (b ++ '/' :: name.toList).head? = b.head? := by
      obtain ⟨c, cs, rfl⟩ := List.exists_cons_of_ne_nil hn
      rfl
    simp only [origin, isAbsolute, hj, hs, hh, head?_segments_append]
  case inr =>
    have hh : (b ++ '/' :: name.toList).head? = (b ++ ['/']).head? := by
      simp [List.head?_append]
    simp only [origin, isAbsolute, hj, hs, hh, head?_segments_append]

theorem join_empty (path : String) : join "" path = path := by
  simp [join]

theorem IsEntry.components_eq (h : IsEntry name) : components name = [name] := by
  have ho : origin name = [] := by
    simp [origin, h.not_isAbsolute, segments_of_not_mem h.no_slash, h.toList_ne_dot]
  rw [Path.components_eq, ho, h.inner_segments, List.nil_append]

-- The path of an entry has one component more than that of the directory.
theorem components_join (h : IsEntry name) :
    components (join base name) = components base ++ [name] := by
  by_cases hb : base = ""
  case pos => rw [hb, join_empty, h.components_eq]; rfl
  case neg =>
    have hi : inner (segments (join base name).toList) =
        inner (segments base.toList) ++ [name] := by
      obtain ⟨b, hj, ⟨hs, -⟩ | hs⟩ := toList_join h hb
      case inl => rw [hj, hs, segments_append, inner_append, h.inner_segments]
      case inr =>
        have he : inner (segments []) = [] := rfl
        rw [hj, hs, segments_append, segments_append, inner_append, inner_append, he,
          h.inner_segments, List.append_nil]
    rw [components_eq, components_eq, origin_join h hb, hi, List.append_assoc]

theorem IsEntry.liesIn (h : IsEntry name) : LiesIn base (join base name) :=
  ⟨name, h, rfl, components_join h⟩

end FlatQuery.Path

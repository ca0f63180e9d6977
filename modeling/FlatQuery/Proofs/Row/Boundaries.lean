import FlatQuery.Proofs.Row.Lines
import FlatQuery.Proofs.Row.Reader
import FlatQuery.Proofs.Row.Record

/-!
Where rows end and where records end. The reader of rows counts quotes, and the reader of cells
opens a quoted cell at the first byte of a cell only. The main statement,
`Reader.next_faithful_iff`, says for which rows the two agree.
-/

namespace FlatQuery.Row

variable {delimiter : UInt8} {bytes row : List UInt8} {ls : List (List UInt8)}

theorem after?_eq_quoted_iff (place : Place) (b : UInt8) :
    place.after? delimiter b = some .quoted ↔
    (b = quote ∧ (place = .start ∨ place = .closed)) ∨ (b ≠ quote ∧ place = .quoted) := by
  cases place
  all_goals
    simp only [Place.after?]
    split_ifs
    all_goals simp_all

-- A byte leads into a quoted cell or out of it just if it is a quote, and not a stray one.
theorem quote_moves (delimiter : UInt8) (place : Option Place) (b : UInt8) :
    ((if b = quote then 1 else 0) + if place = some .quoted then 1 else 0) % 2 =
    ((if b = quote ∧ (place = none ∨ place = some .bare) then 1 else 0) +
      if place.bind (·.after? delimiter b) = some .quoted then 1 else 0) % 2 := by
  cases place
  case none => simp
  case some place =>
    by_cases hb : b = quote <;> cases place <;> simp [after?_eq_quoted_iff, hb]

theorem count_quote_add (delimiter : UInt8) (place : Option Place) (bytes : List UInt8) :
    (bytes.count quote + if place = some .quoted then 1 else 0) % 2 =
    (strays delimiter place bytes +
      if follow delimiter place bytes = some .quoted then 1 else 0) % 2 := by
  induction bytes generalizing place with
  | nil => rfl
  | cons b bytes ih =>
    rw [follow_cons, strays, List.count_cons]
    have hm := quote_moves delimiter place b
    have := ih (place.bind (·.after? delimiter b))
    simp only [beq_iff_eq]
    omega

theorem count_dropMark (row : List UInt8) : (dropMark row).count quote = row.count quote := by
  simp only [dropMark]
  split
  case isTrue h =>
    obtain ⟨rest, hr⟩ := List.isPrefixOf_iff_prefix.mp h
    rw [←hr, List.drop_left, List.count_append]
    simp [byteOrderMark, quote]
  case isFalse => rfl

theorem count_dropWhile_isBreak (row : List UInt8) :
    (row.dropWhile isBreak).count quote = row.count quote := by
  induction row with
  | nil => rfl
  | cons b row ih =>
    by_cases hb : isBreak b
    case neg => simp [hb]
    case pos =>
      have hq : b ≠ quote := fun h => by simp [h, isBreak, quote, cr, lf] at hb
      simp [hb, ih, hq]

theorem count_recordText (row : List UInt8) : (recordText row).count quote = row.count quote := by
  rw [recordText, count_dropWhile_isBreak, count_dropMark]

-- The two readers agree on whether a cell is open if the stray quotes come in pairs.
theorem isOpen_iff_inQuotes_iff (delimiter : UInt8) (row : List UInt8) :
    (isOpen row ↔ InQuotes delimiter row) ↔ strayQuotes delimiter row % 2 = 0 := by
  have hc := count_quote_add delimiter (some .start) (recordText row)
  rw [count_recordText] at hc
  by_cases hq : InQuotes delimiter row
  all_goals
    simp only [InQuotes] at hq
    simp [hq] at hc
    simp [InQuotes, hq, isOpen, strayQuotes]
    omega

theorem isPrefixOf_append {b : UInt8} {post mark : List UInt8} (h : b ∉ mark) :
    mark.isPrefixOf (row ++ b :: post) = mark.isPrefixOf row := by
  induction mark generalizing row with
  | nil => rfl
  | cons a mark ih =>
    simp only [List.mem_cons, not_or] at h
    cases row
    case nil  => simp [List.isPrefixOf, Ne.symm h.left]
    case cons => simp [List.isPrefixOf, ih h.right]

theorem dropMark_append {b : UInt8} {post : List UInt8} (hb : isBreak b) :
    dropMark (row ++ b :: post) = dropMark row ++ b :: post := by
  have hm : b ∉ byteOrderMark := by
    intro hm
    simp only [byteOrderMark, List.mem_cons, List.not_mem_nil, or_false] at hm
    rcases hm with rfl | rfl | rfl <;> simp [isBreak, cr, lf] at hb
  simp only [dropMark]
  rw [isPrefixOf_append hm]
  split
  case isTrue h  =>
    have hle := (List.isPrefixOf_iff_prefix.mp h).length_le
    rw [List.drop_append_of_le_length hle]
  case isFalse h => rfl

-- A line break behind the first byte of a record is part of the text of this record.
theorem recordText_append {b : UInt8} (hb : isBreak b) (h : recordText row ≠ [])
    (post : List UInt8) : recordText (row ++ b :: post) = recordText row ++ b :: post := by
  rw [recordText] at h ⊢
  rw [dropMark_append hb, List.dropWhile_append]
  simp [h, recordText]

theorem recordText_suffix (row : List UInt8) : ∃ lead, lead ++ recordText row = row := by
  have hd : dropMark row <:+ row := by
    simp only [dropMark]
    split
    · exact List.drop_suffix ..
    · exact List.suffix_rfl
  exact (List.dropWhile_suffix _).trans hd

-- A line feed in the text of a row stands between two of its lines.
theorem extend_eq_append_lf {pre post : List UInt8} (hl : ∀ line ∈ ls, lf ∉ lineText line)
    (h : extend (some row) ls = pre ++ lf :: post) :
    (∃ post', row = pre ++ lf :: post') ∨ ∃ n < ls.length, pre = extend (some row) (ls.take n) := by
  induction ls generalizing row with
  | nil => exact .inl ⟨post, by simpa [extend] using h⟩
  | cons line ls ih =>
    rw [List.forall_mem_cons] at hl
    rw [extend_cons] at h
    cases ih hl.right h
    case inl hp =>
      obtain ⟨post', hp⟩ := hp
      simp only [extend, List.flatMap_cons, List.flatMap_nil, List.append_nil] at hp
      cases List.append_eq_append_iff.mp hp
      case inl hp =>
        obtain ⟨as, hp, ha⟩ := hp
        cases as
        case nil => exact .inr ⟨0, by simp, by simpa [extend] using hp⟩
        case cons b as =>
          simp only [List.cons_append, List.cons.injEq] at ha
          have : lf ∈ lineText line := by simp [ha.right]
          exact absurd this hl.left
      case inr hp =>
        obtain ⟨as, hp, ha⟩ := hp
        cases as
        case nil => exact .inr ⟨0, by simp, by simpa [extend] using hp.symm⟩
        case cons b as =>
          simp only [List.cons_append, List.cons.injEq] at ha
          exact .inl ⟨as, by rw [hp, ha.left]⟩
    case inr hn =>
      obtain ⟨n, hn, hp⟩ := hn
      exact .inr ⟨n + 1, by simpa using hn, by rw [hp, List.take_succ_cons, ←extend_cons]⟩

theorem rowText_eq_append_lf {pre post : List UInt8} (hl : ∀ line ∈ ls, lf ∉ lineText line)
    (h : rowText ls = pre ++ lf :: post) :
    ∃ n, 0 < n ∧ n < ls.length ∧ pre = rowText (ls.take n) := by
  cases ls
  case nil => simp [rowText] at h
  case cons line ls =>
    rw [List.forall_mem_cons] at hl
    have h : extend (some (lineText line)) ls = pre ++ lf :: post := h
    cases extend_eq_append_lf hl.right h
    case inl hp =>
      obtain ⟨_, hp⟩ := hp
      have : lf ∈ lineText line := by simp [hp]
      exact absurd this hl.left
    case inr hn =>
      obtain ⟨n, hn, hp⟩ := hn
      exact ⟨n + 1, by omega, by simpa using hn, hp⟩

-- What the next row is made up of.
theorem Reader.next_eq_row {r r' : Reader} {row : Row} (h : r.next delimiter = .row row r') :
    ∃ n, Completes none (lines r.source.bytes) n ∧ r'.line = r.line + n ∧
      r'.source.bytes = ((lines r.source.bytes).drop n).flatten ∧
      row.cells = split delimiter (rowText ((lines r.source.bytes).take n)) := by
  simp only [Reader.next] at h
  split at h
  case h_1 hg =>
    obtain ⟨hrow, hr⟩ := Reader.Next.row.inj h
    obtain ⟨n, hc, ht, hn, hb⟩ := gather_eq_row hg
    refine ⟨n, hc, by simp [←hr, hn], by simp [←hr, hb], ?_⟩
    simp [←hrow, ht, extend]
  all_goals simp at h

-- A row takes up at least one line.
theorem Reader.line_lt_of_next {r r' : Reader} {row : Row} (h : r.next delimiter = .row row r') :
    r.line < r'.line := by
  obtain ⟨n, hn, hl, _⟩ := r.next_eq_row h
  have := hn.pos rfl
  omega

-- What reading a row should come to: the row goes on behind a line just if a quoted cell is open
-- there, and its first record leaves nothing of the row unread. It is made up of `n` lines.
structure Faithful (delimiter : UInt8) (ls : List (List UInt8)) (n : Nat) : Prop where
  continues_iff : ∀ m, 0 < m → m ≤ n → m < ls.length →
    (m < n ↔ InQuotes delimiter (rowText (ls.take m)))
  all_read : (record delimiter (rowText (ls.take n))).2 = []

theorem Completes.lt_iff_isOpen {n m : Nat} (h : Completes none ls n) (h₀ : 0 < m) (hn : m ≤ n)
    (hl : m < ls.length) : m < n ↔ isOpen (rowText (ls.take m)) := by
  constructor
  case mp  => exact h.open_before m h₀
  case mpr =>
    intro ho
    by_contra hm
    have he : m = n := by omega
    exact h.closed_at (he ▸ hl) (he ▸ ho)

-- Line feeds in a row are never in the way of its record if they are all inside of quoted cells.
theorem all_read_iff {n : Nat} (hd : ¬isBreak delimiter) (hl : ∀ line ∈ ls, lf ∉ lineText line)
    (hq : ∀ m, 0 < m → m < n → InQuotes delimiter (rowText (ls.take m))) :
    (record delimiter (rowText (ls.take n))).2 = [] ↔
    ∀ pre post, recordText (rowText (ls.take n)) = pre ++ cr :: post → post ≠ [] →
      follow delimiter (some .start) pre = some .quoted := by
  rw [record, recordFrom_snd_eq_nil_iff hd]
  constructor
  case mp  => exact fun h pre post he hne => h pre cr post he hne rfl
  case mpr =>
    intro h pre b post he hne hb
    by_cases hc : b = cr
    case pos => exact h pre post (hc ▸ he) hne
    case neg =>
      have hb : b = lf := by simpa [isBreak, hc] using hb
      cases hb
      obtain ⟨lead, hs⟩ := recordText_suffix (rowText (ls.take n))
      rw [he, ←List.append_assoc] at hs
      have hl : ∀ line ∈ ls.take n, lf ∉ lineText line :=
        fun line h => hl line (List.mem_of_mem_take h)
      obtain ⟨m, h₀, hm, hp⟩ := rowText_eq_append_lf hl hs.symm
      rw [List.length_take] at hm
      rw [List.take_take, Nat.min_eq_left (by omega)] at hp
      have hq := hq m h₀ (by omega)
      rw [←hp] at hq
      have hne : recordText (lead ++ pre) ≠ [] := fun h => by simp [InQuotes, h, follow] at hq
      have ha := recordText_append hb hne post
      rw [hs, he] at ha
      rw [List.append_cancel_right ha]
      exact hq

-- A row is read as it should be just if
-- 1. the stray quotes up to the end of each of its lines come in pairs, and
-- 2. no carriage return in its record is outside of a quoted cell, unless it is the last byte.
theorem Reader.next_faithful_iff (hc : delimiter ≠ cr) (hl : delimiter ≠ lf) {r r' : Reader}
    {row : Row} (h : r.next delimiter = .row row r') :
    ∃ n, r'.line = r.line + n ∧
      r'.source.bytes = ((lines r.source.bytes).drop n).flatten ∧
      row.cells = (record delimiter (rowText ((lines r.source.bytes).take n))).1.map cellText ∧
      (Faithful delimiter (lines r.source.bytes) n ↔
        (∀ m, 0 < m → m ≤ n → m < (lines r.source.bytes).length →
          strayQuotes delimiter (rowText ((lines r.source.bytes).take m)) % 2 = 0) ∧
        (∀ pre post,
          recordText (rowText ((lines r.source.bytes).take n)) = pre ++ cr :: post → post ≠ [] →
          follow delimiter (some .start) pre = some .quoted)) := by
  obtain ⟨n, hn, hline, hrest, hcells⟩ := r.next_eq_row h
  have hd : ¬isBreak delimiter := by simp [isBreak, hc, hl]
  have hls : ∀ line ∈ lines r.source.bytes, lf ∉ lineText line := fun _ => lf_not_mem_lineText
  refine ⟨n, hline, hrest, by rw [hcells, record_fst, split], ?_⟩
  constructor
  case mp =>
    intro hf
    refine ⟨?_, ?_⟩
    · intro m h₀ hm hlt
      rw [←isOpen_iff_inQuotes_iff, ←hn.lt_iff_isOpen h₀ hm hlt]
      exact hf.continues_iff m h₀ hm hlt
    · apply (all_read_iff hd hls ?_).mp hf.all_read
      intro m h₀ hm
      have hlt := Nat.lt_of_lt_of_le hm hn.le_length
      exact (hf.continues_iff m h₀ (by omega) hlt).mp hm
  case mpr =>
    rintro ⟨hs, hr⟩
    have hi m (h₀ : 0 < m) (hm : m ≤ n) (hlt : m < (lines r.source.bytes).length) :
        m < n ↔ InQuotes delimiter (rowText ((lines r.source.bytes).take m)) := by
      rw [hn.lt_iff_isOpen h₀ hm hlt]
      exact (isOpen_iff_inQuotes_iff ..).mpr (hs m h₀ hm hlt)
    refine ⟨hi, (all_read_iff hd hls ?_).mpr hr⟩
    intro m h₀ hm
    have hlt := Nat.lt_of_lt_of_le hm hn.le_length
    exact (hi m h₀ (by omega) hlt).mp hm

-- The line feed inside of the quoted cell does not end the row, and the next one does.
theorem faithful_quoted_line_feed :
    (0x3B ≠ cr ∧ 0x3B ≠ lf) ∧
    Reader.next 0x3B ⟨⟨[quote, 0x61, lf, 0x62, quote, 0x3B, 0x63, lf, 0x64, lf], none⟩, 0⟩ =
      .row ⟨0, ["a\nb", "c"]⟩ ⟨⟨[0x64, lf], none⟩, 2⟩ ∧
    Faithful 0x3B (lines [quote, 0x61, lf, 0x62, quote, 0x3B, 0x63, lf, 0x64, lf]) 2 := by
  have h₁ : lf ∉ [quote, 0x61] := by decide
  have h₂ : lf ∉ [0x62, quote, 0x3B, 0x63] := by decide
  have hg : gather none 0 none [quote, 0x61, lf, 0x62, quote, 0x3B, 0x63, lf, 0x64, lf] =
      .row [quote, 0x61, lf, 0x62, quote, 0x3B, 0x63] 2 [0x64, lf] :=
    (gather_line h₁ 0 none).trans ((gather_line h₂ 1 none).trans rfl)
  have hc : rawCells 0x3B [quote, 0x61, lf, 0x62, quote, 0x3B, 0x63] =
      ["a\nb".toList, "c".toList].map Text.Utf8.encode := by decide
  have h : Reader.next 0x3B
      ⟨⟨[quote, 0x61, lf, 0x62, quote, 0x3B, 0x63, lf, 0x64, lf], none⟩, 0⟩ =
      .row ⟨0, ["a\nb", "c"]⟩ ⟨⟨[0x64, lf], none⟩, 2⟩ := by
    rw [Reader.next_of_gather hg, split_of_rawCells hc]
    rfl
  obtain ⟨n, hn, _, _, hf⟩ := Reader.next_faithful_iff (by decide) (by decide) h
  have hn : n = 2 := by simpa using hn.symm
  cases hn
  refine ⟨by decide, h, hf.mpr ⟨?_, ?_⟩⟩
  · intro m h₀ hm _
    have hm : m = 1 ∨ m = 2 := by omega
    cases hm <;> subst m <;> decide
  · intro pre post he
    have hm : cr ∈ pre ++ cr :: post := by simp
    rw [←he] at hm
    exact absurd hm (by decide)

-- A quote inside of a bare cell makes the row go on to the end of the stream. Its record ends with
-- the first line nevertheless, and the second line is lost.
theorem not_faithful_stray_quote :
    Reader.next 0x3B ⟨⟨[0x61, quote, 0x62, 0x3B, 0x63, lf, 0x64, lf], none⟩, 0⟩ =
      .row ⟨0, ["a\"b", "c"]⟩ ⟨⟨[], none⟩, 2⟩ ∧
    (record 0x3B (rowText
      ((lines [0x61, quote, 0x62, 0x3B, 0x63, lf, 0x64, lf]).take 2))).2 = [0x64] ∧
    ¬Faithful 0x3B (lines [0x61, quote, 0x62, 0x3B, 0x63, lf, 0x64, lf]) 2 := by
  have h₁ : lf ∉ [0x61, quote, 0x62, 0x3B, 0x63] := by decide
  have h₂ : lf ∉ [0x64] := by decide
  have hg : gather none 0 none [0x61, quote, 0x62, 0x3B, 0x63, lf, 0x64, lf] =
      .row [0x61, quote, 0x62, 0x3B, 0x63, lf, 0x64] 2 [] := by
    refine (gather_line h₁ 0 none).trans ((gather_line h₂ 1 none).trans ?_)
    conv => lhs; rw [gather.eq_def]
    rfl
  have hc : rawCells 0x3B [0x61, quote, 0x62, 0x3B, 0x63, lf, 0x64] =
      ["a\"b".toList, "c".toList].map Text.Utf8.encode := by decide
  refine ⟨?_, by decide, ?_⟩
  · rw [Reader.next_of_gather hg, split_of_rawCells hc]
    rfl
  · intro hf
    exact absurd hf.all_read (by decide)

end FlatQuery.Row

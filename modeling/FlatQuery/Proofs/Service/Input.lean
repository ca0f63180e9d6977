import FlatQuery.Proofs.Row.LineEnds
import FlatQuery.Proofs.Text.Utf8
import FlatQuery.Service.Serve

/-!
The lines that requests stand on. A stream that breaks loses the line that it breaks in, and what
has been read up to the end of a line does not depend on what follows.
-/

namespace FlatQuery.Source

variable {line rest a b : List UInt8} {fault : Option Fault}

theorem lines_cons (h : Row.lf ∉ line) :
    lines ⟨line ++ Row.lf :: rest, fault⟩ =
    Files.decodeText (Row.dropCr line) :: lines ⟨rest, fault⟩ := by
  rw [lines]
  simp only
  split
  case h_1 hs =>
    rw [Row.splitLine_append h] at hs
    cases hs
    rfl
  case h_2 hs =>
    rw [Row.splitLine_append h] at hs
    cases hs

theorem lines_of_not_mem (h : Row.lf ∉ line) :
    lines ⟨line, fault⟩ =
      match fault with
      | some f => [.error f]
      | none   => if line = [] then [] else [Files.decodeText line] := by
  rw [lines]
  simp only
  split
  case h_1 hs => exact absurd (by simp [(Row.splitLine_some hs).left]) h
  case h_2 hs =>
    obtain rfl := Row.splitLine_none hs
    rfl

theorem firstLine_cons (h : Row.lf ∉ line) :
    firstLine ⟨line ++ Row.lf :: rest, fault⟩ = Files.decodeText (line ++ [Row.lf]) := by
  simp only [firstLine, Row.splitLine_append h]

theorem firstLine_of_not_mem (h : Row.lf ∉ line) :
    firstLine ⟨line, none⟩ = Files.decodeText line := by
  simp only [firstLine]
  split
  case h_1 hs => exact absurd (by simp [(Row.splitLine_some hs).left]) h
  case h_2 hs => rw [Row.splitLine_none hs]

-- Lines that have come to their end do not depend on what stands behind them.
theorem lines_append (h : ∀ c ∈ a.getLast?, c = Row.lf) :
    lines ⟨a ++ b, fault⟩ = lines ⟨a, none⟩ ++ lines ⟨b, fault⟩ := by
  induction a using Row.line_induction
  case last line hn =>
    cases line.eq_nil_or_concat
    case inl hl =>
      rw [lines_of_not_mem hn]
      simp [hl]
    case inr hl =>
      obtain ⟨init, c, rfl⟩ := hl
      have hc : c = Row.lf := h c (by simp)
      simp [hc] at hn
  case cons line rest hn ih =>
    have hr : ∀ c ∈ rest.getLast?, c = Row.lf := by
      intro c hc
      apply h
      rw [List.getLast?_append, List.getLast?_cons, hc]
      rfl
    rw [List.append_assoc, List.cons_append, lines_cons hn, lines_cons hn, ih hr,
      List.cons_append]

theorem decodeText_encode (text : List Char) :
    Files.decodeText (Text.Utf8.encode text) = .ok (.ofList text) := by
  simp [Files.decodeText, Text.Utf8.decode?_encode]

theorem lf_not_mem_encode {text : List Char} (h : '\n' ∉ text) : Row.lf ∉ Text.Utf8.encode text :=
  fun hm => h ((Text.Utf8.mem_encode_iff (by decide)).mp hm)

-- Texts without line feeds and carriage returns can be read from the lines they are written on.
theorem lines_written {texts : List String}
    (h : ∀ text ∈ texts, '\n' ∉ text.toList ∧ '\r' ∉ text.toList) :
    lines ⟨(texts.flatMap fun text => Text.Utf8.encode text.toList ++ [Row.lf]) ++ b, fault⟩ =
    texts.map .ok ++ lines ⟨b, fault⟩ := by
  induction texts with
  | nil => rfl
  | cons text texts ih =>
    obtain ⟨hn, hr⟩ := h text List.mem_cons_self
    have hr : Row.cr ∉ Text.Utf8.encode text.toList :=
      fun hm => hr (Text.Utf8.mem_encode_iff (by decide) |>.mp hm)
    simp only [List.flatMap_cons, List.append_assoc, List.cons_append, List.nil_append,
      List.map_cons]
    rw [lines_cons (lf_not_mem_encode hn), Row.dropCr_of_not_mem hr, decodeText_encode,
      String.ofList_toList, ih fun text ht => h text (List.mem_cons_of_mem _ ht)]

end FlatQuery.Source

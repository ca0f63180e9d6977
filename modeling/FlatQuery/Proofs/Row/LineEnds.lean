import FlatQuery.Proofs.Row.Reader
import FlatQuery.Proofs.Row.Lines

/-!
Streams that differ in how their lines end. The reader of rows takes nothing but the texts of the
lines, so that it reads the same rows from all streams that have the same texts.
-/

namespace FlatQuery.Row

-- A stream with a carriage return in front of each line feed.
def withReturns (bytes : List UInt8) : List UInt8 :=
  bytes.flatMap fun b => if b = lf then [cr, lf] else [b]

-- Two streams with the same texts on their lines, and with the same fault if they break.
structure SameTexts (s t : Source) : Prop where
  fault : t.fault = s.fault
  texts : t.wholeLines.map lineText = s.wholeLines.map lineText

-- Two readers behind the same number of lines that have the same texts in front of them.
structure Reader.SameTexts (r t : Reader) : Prop where
  source : Row.SameTexts r.source t.source
  line   : t.line = r.line

-- What two such readers find next: the same row, behind which they are such readers again, or both
-- of them nothing, or the same break.
inductive Reader.SameNext (delimiter : UInt8) (r t : Reader) : Prop
  | row {row : Row} {r' t' : Reader} : r.next delimiter = .row row r' →
    t.next delimiter = .row row t' → r'.SameTexts t' → SameNext delimiter r t
  | done : r.next delimiter = .done → t.next delimiter = .done → SameNext delimiter r t
  | failed {e : ReadError} : r.next delimiter = .failed e → t.next delimiter = .failed e →
    SameNext delimiter r t

variable {bytes line rest : List UInt8} {ls : List (List UInt8)} {fault : Option Fault}

theorem dropCr_concat (line : List UInt8) : dropCr (line ++ [cr]) = line := by
  simp [dropCr]

theorem dropCr_of_not_mem (h : cr ∉ line) : dropCr line = line := by
  have hl : line.getLast? ≠ some cr := fun hl => h (List.mem_of_getLast? hl)
  simp [dropCr, hl]

theorem withReturns_of_not_mem (h : lf ∉ line) : withReturns line = line := by
  induction line with
  | nil => rfl
  | cons b line ih =>
    simp only [List.mem_cons, not_or] at h
    have ht : withReturns (b :: line) = b :: withReturns line := by
      simp [withReturns, Ne.symm h.left]
    rw [ht, ih h.right]

theorem withReturns_append_lf (h : lf ∉ line) (rest : List UInt8) :
    withReturns (line ++ lf :: rest) = line ++ [cr] ++ lf :: withReturns rest := by
  have hl : withReturns (line ++ lf :: rest) =
      withReturns line ++ ([cr, lf] ++ withReturns rest) := by simp [withReturns]
  rw [hl, withReturns_of_not_mem h]
  simp

namespace SameTexts

theorem cons {line line' rest rest' : List UInt8} (h : lf ∉ line) (h' : lf ∉ line')
    (hd : dropCr line' = dropCr line) (hr : SameTexts ⟨rest, fault⟩ ⟨rest', fault⟩) :
    SameTexts ⟨line ++ lf :: rest, fault⟩ ⟨line' ++ lf :: rest', fault⟩ where
  fault := rfl
  texts := by
    rw [Source.wholeLines_cons h, Source.wholeLines_cons h', List.map_cons, List.map_cons, hr.texts,
      lineText, lineText, dropLf_append, dropLf_append, hd]

-- A carriage return that comes with a line feed is no part of the text of a line.
theorem withReturns (h : cr ∉ bytes) (fault : Option Fault) :
    SameTexts ⟨bytes, fault⟩ ⟨withReturns bytes, fault⟩ := by
  induction bytes using line_induction with
  | last line hl =>
    rw [withReturns_of_not_mem hl]
    exact ⟨rfl, rfl⟩
  | cons line rest hl ih =>
    simp only [List.mem_append, List.mem_cons, not_or] at h
    have hl' : lf ∉ line ++ [cr] := by
      rw [List.mem_append, not_or]
      exact ⟨hl, by decide⟩
    rw [withReturns_append_lf hl]
    refine cons hl hl' ?_ (ih h.right.right)
    rw [dropCr_concat, dropCr_of_not_mem h.left]

-- A last line has the same text with a line feed as without one.
theorem append_lf (hn : bytes ≠ []) (hl : bytes.getLast? ≠ some lf) :
    SameTexts ⟨bytes, none⟩ ⟨bytes ++ [lf], none⟩ := by
  induction bytes using line_induction with
  | last line h =>
    refine ⟨rfl, ?_⟩
    rw [Source.wholeLines_cons h, Source.wholeLines_of_not_mem h]
    simp [hn, Source.wholeLines, lines, lineText, dropLf_append, dropLf_of_not_mem h]
  | cons line rest h ih =>
    have hr : rest ≠ [] := by
      rintro rfl
      simp at hl
    have hl' : rest.getLast? ≠ some lf := by
      intro he
      apply hl
      rw [List.getLast?_append, List.getLast?_cons, he]
      rfl
    rw [List.append_assoc, List.cons_append]
    exact cons h h rfl (ih hr hl')

end SameTexts

-- Where no further line ends nothing is read.
theorem gather_of_wholeLines_nil (h : Source.wholeLines ⟨bytes, fault⟩ = [])
    (row : Option (List UInt8)) (n : Nat) : gather row n fault bytes = gather row n fault [] := by
  induction bytes using line_induction with
  | last line hl =>
    rw [gather_of_not_mem hl, gather_of_not_mem List.not_mem_nil]
    cases fault
    case some => rfl
    case none =>
      have hn : line = [] := by simpa [Source.wholeLines_of_not_mem hl] using h
      rw [hn]
  | cons line rest hl =>
    rw [Source.wholeLines_cons hl] at h
    cases h

-- What one more line comes to, whether it ends with a line feed or with the stream.
theorem gather_of_wholeLines_cons (h : Source.wholeLines ⟨bytes, fault⟩ = line :: ls) :
    ∃ rest, Source.wholeLines ⟨rest, fault⟩ = ls ∧ ∀ row n, gather row n fault bytes =
      if isOpen (extend row [line]) then gather (some (extend row [line])) (n + 1) fault rest
      else .row (extend row [line]) (n + 1) rest := by
  induction bytes using line_induction with
  | last text hl =>
    rw [Source.wholeLines_of_not_mem hl] at h
    split at h
    case isTrue     => cases h
    case isFalse hn =>
      obtain ⟨hf, hne⟩ := not_or.mp hn
      obtain rfl : fault = none := by simpa using hf
      cases h
      refine ⟨[], by simp [Source.wholeLines, lines], fun row n => ?_⟩
      have hg (row : List UInt8) : gather (some row) (n + 1) none [] = .row row (n + 1) [] := by
        simp [gather_of_not_mem]
      rw [gather_of_not_mem hl, hg, ite_self, ←join_eq_extend_of_not_mem hl]
      exact if_pos hne
  | cons text rest hl =>
    rw [Source.wholeLines_cons hl] at h
    cases h
    refine ⟨rest, rfl, fun row n => ?_⟩
    rw [gather_line hl, join_eq_extend]

-- Nothing of a line but its text comes into a row.
theorem extend_singleton_congr {line line' : List UInt8} (h : lineText line' = lineText line)
    (row : Option (List UInt8)) : extend row [line'] = extend row [line] := by
  cases row <;> simp [extend, rowText, h]

-- What is found where a row should begin, in two streams with the same texts.
inductive Gathered.Alike (fault : Option Fault) : Gathered → Gathered → Prop
  | row {rest rest' : List UInt8} (text : List UInt8) (n : Nat) :
    SameTexts ⟨rest, fault⟩ ⟨rest', fault⟩ → Alike fault (.row text n rest) (.row text n rest')
  | done : Alike fault .done .done
  | broken (n : Nat) (f : Fault) : Alike fault (.broken n f) (.broken n f)

theorem Gathered.Alike.refl (g : Gathered) : Alike fault g g := by
  cases g
  case row text n rest => exact .row text n ⟨rfl, rfl⟩
  case done            => exact .done
  case broken n f      => exact .broken n f

theorem SameTexts.gather {bytes' : List UInt8} (h : SameTexts ⟨bytes, fault⟩ ⟨bytes', fault⟩)
    (row : Option (List UInt8)) (n : Nat) :
    Gathered.Alike fault (gather row n fault bytes) (gather row n fault bytes') := by
  generalize hw : Source.wholeLines ⟨bytes, fault⟩ = ls
  have ht := h.texts
  rw [hw] at ht
  induction ls generalizing bytes bytes' row n with
  | nil =>
    rw [gather_of_wholeLines_nil hw, gather_of_wholeLines_nil (List.map_eq_nil_iff.mp ht)]
    exact .refl _
  | cons line ls ih =>
    obtain ⟨line', ls', hw', hl, hls⟩ := List.map_eq_cons_iff.mp ht
    obtain ⟨rest, hr, hg⟩ := gather_of_wholeLines_cons hw
    obtain ⟨rest', hr', hg'⟩ := gather_of_wholeLines_cons hw'
    rw [←hr'] at hls
    have hs : SameTexts ⟨rest, fault⟩ ⟨rest', fault⟩ := ⟨rfl, by rw [hls, hr]⟩
    rw [hg, hg', extend_singleton_congr hl]
    split
    case isTrue  => exact ih hs _ _ hr hls
    case isFalse => exact .row _ _ hs

theorem Reader.SameTexts.next {r t : Reader} (h : r.SameTexts t) (delimiter : UInt8) :
    SameNext delimiter r t := by
  obtain ⟨⟨bytes, fault⟩, n⟩ := r
  obtain ⟨⟨bytes', fault'⟩, n'⟩ := t
  obtain ⟨hs, hn⟩ := h
  obtain rfl : fault' = fault := hs.fault
  obtain rfl : n' = n := hn
  have hg := hs.gather none n'
  generalize hb : gather none n' fault' bytes = g at hg
  generalize hb' : gather none n' fault' bytes' = g' at hg
  cases hg
  case row text n hr => exact .row (next_of_gather hb) (next_of_gather hb') ⟨hr, rfl⟩
  case done =>
    exact .done (by simp only [Reader.next, hb]) (by simp only [Reader.next, hb'])
  case broken n f =>
    exact .failed (e := ⟨n, f⟩) (by simp only [Reader.next, hb]) (by simp only [Reader.next, hb'])

end FlatQuery.Row

import FlatQuery.Proofs.Row.RawRows

/-!
Streams that break. The rows that end before the break are read as if there was none, and behind
them is a read error, with the number of the line on which the stream breaks.
-/

namespace FlatQuery.Row

-- The row of this number is complete: all its lines are ended by line feeds in the first `k` bytes,
-- and the number of its quotes is even.
def EndsWithin (bytes : List UInt8) (k i : Nat) : Prop :=
  ∃ row, (rawRows bytes)[i]? = some row ∧ row.getLast? = some lf ∧ ¬isOpen row ∧
    ((rawRows bytes).take (i + 1)).flatten.length ≤ k

variable {odd odd' : Bool} {b : UInt8} {bytes text : List UInt8} {row : Option (List UInt8)}

-- A row that goes on where the stream breaks is not read.
theorem gather_of_open (h : parity (isOpen (row.getD [])) bytes = some odd) (n : Nat) (f : Fault) :
    gather row n (some f) bytes = .broken (n + bytes.count lf) f := by
  induction bytes using line_induction generalizing row n with
  | last line hl => simp [gather_of_not_mem hl, List.count_eq_zero.mpr hl]
  | cons line rest hl ih =>
    obtain ⟨hg, hp⟩ := gather_of_open_line hl h n (some f)
    rw [hg, ih hp, add_count_lf, List.count_eq_zero.mpr hl, Nat.add_zero]

namespace Reader

variable {delimiter : UInt8}

theorem next_of_open (h : parity false bytes = some odd) (n : Nat) (f : Fault) :
    next delimiter ⟨⟨bytes, some f⟩, n⟩ = .failed ⟨n + bytes.count lf, f⟩ := by
  have hp : parity (isOpen (none.getD [])) bytes = some odd := h
  simp [next, gather_of_open hp n f]

-- A stream that breaks has a part of the rows that it would have had, and then an error.
theorem rows_of_break (pre post : List UInt8) (n : Nat) (f : Fault) (fault : Option Fault) :
    (rows delimiter ⟨⟨pre, some f⟩, n⟩).1 <+: (rows delimiter ⟨⟨pre ++ post, fault⟩, n⟩).1 ∧
    (rows delimiter ⟨⟨pre, some f⟩, n⟩).2 = some ⟨n + pre.count lf, f⟩ := by
  induction pre using row_induction generalizing n with
  | last pre odd h => simp [rows_of_failed (next_of_open h n f)]
  | cons text rest h ih =>
    obtain ⟨hp, he⟩ := ih (n + text.count lf + 1)
    rw [List.append_assoc, List.cons_append, rows_of_row (next_of_parity h n (some f) rest),
      rows_of_row (next_of_parity h n fault (rest ++ post))]
    exact ⟨(List.prefix_cons_inj _).mpr hp, by rw [he, add_count_lf]⟩

end Reader

-- A row goes on behind a line feed only if the number of its quotes is odd.
theorem isOpen_of_getLast? (h : parity false bytes = some odd) (hl : bytes.getLast? = some lf) :
    isOpen bytes := by
  obtain ⟨text, rfl⟩ := List.getLast?_eq_some_iff.mp hl
  obtain ⟨o, _, ho⟩ := Option.bind_eq_some_iff.mp (parity_append false text [lf] ▸ h)
  obtain ⟨hn, hp⟩ := parity_cons_eq_some_iff.mp ho
  have ho : o = true := by simpa using hn
  cases ho
  cases hp
  exact isOpen_of_parity h

theorem EndsWithin.length_le {first : List UInt8} {rows : List (List UInt8)} {k i : Nat}
    (h : EndsWithin bytes k i) (hr : rawRows bytes = first :: rows) : first.length ≤ k := by
  obtain ⟨_, _, _, _, hk⟩ := h
  rw [hr, List.take_succ_cons, List.flatten_cons, List.length_append] at hk
  omega

-- No row ends before a break on which it would go on.
theorem not_endsWithin_of_parity {pre : List UInt8} (h : parity false pre = some odd)
    (post : List UInt8) (i : Nat) : ¬EndsWithin (pre ++ post) pre.length i := by
  intro he
  cases hp : parity false (pre ++ post)
  case none =>
    obtain ⟨text, rest, ht, hf⟩ := exists_of_parity_eq_none hp
    have hk := he.length_le (ht ▸ rawRows_append hf rest)
    have hpre : text ++ [lf] <+: pre ++ post := ⟨rest, by simp [ht]⟩
    obtain ⟨bytes, rfl⟩ := List.prefix_of_prefix_length_le hpre ⟨post, rfl⟩ hk
    rw [List.append_assoc, parity_append, hf, Option.bind_some, List.singleton_append,
      parity_cons_eq_some_iff] at h
    simp at h
  case some =>
    obtain ⟨row, hr, hl, ho, hk⟩ := he
    by_cases hn : pre ++ post = []
    case pos => simp [hn, rawRows, rawRowsFrom] at hr
    case neg =>
      have hw : rawRows (pre ++ post) = [pre ++ post] := rawRowsFrom_of_parity hp hn
      obtain ⟨rfl, rfl⟩ : i = 0 ∧ row = pre ++ post := by
        rw [hw] at hr
        cases i <;> simp_all
      have hk : post.length = 0 := by
        rw [hw, List.take_succ_cons, List.take_nil, List.flatten_singleton, List.length_append] at hk
        omega
      rw [List.eq_nil_of_length_eq_zero hk] at hl ho
      rw [List.append_nil] at hl ho
      exact ho (isOpen_of_getLast? h hl)

variable {k i : Nat}

theorem endsWithin_cons_zero (h : parity false text = some false) (rest : List UInt8) :
    EndsWithin (text ++ lf :: rest) k 0 ↔ text.length < k := by
  have ho : ¬isOpen (text ++ [lf]) := by
    have hl : isOpen [lf] = false := rfl
    simp [isOpen_append, isOpen_of_parity h, hl]
  have hl : ((rawRows (text ++ lf :: rest)).take 1).flatten.length = text.length + 1 := by
    rw [rawRows_append h, List.take_succ_cons, List.take_zero, List.flatten_singleton,
      List.length_append, List.length_singleton]
  constructor
  case mp =>
    rintro ⟨_, _, _, _, hk⟩
    rw [hl] at hk
    exact hk
  case mpr =>
    intro hk
    have hr : (rawRows (text ++ lf :: rest))[0]? = some (text ++ [lf]) := by
      rw [rawRows_append h]
      rfl
    exact ⟨text ++ [lf], hr, List.getLast?_concat, ho, Nat.le_trans (Nat.le_of_eq hl) hk⟩

theorem endsWithin_cons_succ (h : parity false text = some false) (rest : List UInt8) :
    EndsWithin (text ++ lf :: rest) (text.length + 1 + k) (i + 1) ↔ EndsWithin rest k i := by
  rw [EndsWithin, EndsWithin, rawRows_append h, List.getElem?_cons_succ, List.take_succ_cons,
    List.flatten_cons, List.length_append, List.length_append, List.length_singleton,
    Nat.add_le_add_iff_left]

-- The rows that are read from a stream that breaks are those that are complete before the break.
theorem Reader.lt_length_rows_iff {delimiter : UInt8} (pre post : List UInt8) (n : Nat) (f : Fault)
    (i : Nat) :
    i < (rows delimiter ⟨⟨pre, some f⟩, n⟩).1.length ↔ EndsWithin (pre ++ post) pre.length i := by
  induction pre using row_induction generalizing n i with
  | last pre odd h =>
    simp [rows_of_failed (next_of_open h n f), not_endsWithin_of_parity h]
  | cons text rest h ih =>
    have hl : (text ++ lf :: rest).length = text.length + 1 + rest.length := by
      simp
      omega
    rw [List.append_assoc, List.cons_append, rows_of_row (next_of_parity h n (some f) rest), hl]
    cases i
    case zero   => simp [endsWithin_cons_zero h]; omega
    case succ i =>
      rw [endsWithin_cons_succ h, ←ih (n + text.count lf + 1) i, List.length_cons]
      exact Nat.succ_lt_succ_iff

end FlatQuery.Row

import FlatQuery.Proofs.Record.Restriction
import FlatQuery.Proofs.Scan.Pages

/-!
Views of a scan. The selected fields and the count mode of a query do not matter to what is found:
the output is made of that of the same scan with all fields. The main statement is
`Window.scan_views`.
-/

namespace FlatQuery

-- The same query, for the records as they are.
def Query.whole (q : Query) : Query :=
  { q with fields := [], countOnly := false }

-- The part of a whole record that a query selects.
def Query.part (q : Query) (r : Record) : Record :=
  if q.selectsAll then r else r.restrict q.fields

namespace Scan

-- The same plan with all fields.
def Plan.whole (p : Plan) : Plan :=
  { p with positions := none }

namespace Plan

@[simp] theorem whole_schema (p : Plan) : p.whole.schema = p.schema := rfl
@[simp] theorem whole_delimiter (p : Plan) : p.whole.delimiter = p.delimiter := rfl
@[simp] theorem whole_conditions (p : Plan) : p.whole.conditions = p.conditions := rfl
@[simp] theorem whole_page (p : Plan) : p.whole.page = p.page := rfl
@[simp] theorem whole_limit (p : Plan) : p.whole.limit = p.limit := rfl

theorem view_eq_part (schema : Schema) (delimiter : UInt8) (q : Query) (w : Window) (row : Row) :
    (Plan.of schema delimiter q w).view row =
    q.part ((Plan.of schema delimiter q w).whole.view row) := by
  by_cases h : q.selectsAll
  all_goals simp [Plan.of, Plan.whole, Plan.view, Query.part, Record.project_eq_restrict, h]

end Plan

def Progress.map (f : Record → Record) (s : Progress) : Progress :=
  { s with page := s.page.map f }

def Run.map (f : Record → Record) (r : Run) : Run :=
  { r with progress := r.progress.map f }

-- The outcome of a query, from that of the whole query.
def Outcome.view (q : Query) (o : Outcome) : Outcome :=
  match o with
  | records rs => if q.countOnly then count rs.length else records (rs.map q.part)
  | count n => count n

def Output.view (q : Query) (o : Output) : Output :=
  { o with outcome := o.outcome.view q }

variable {p : Plan} {f : Record → Record}

-- Which rows are matches, and on which page they are, is the same for each view.
theorem Progress.step_map (h : ∀ row, p.view row = f (p.whole.view row)) (s : Progress)
    (row : Row) : (s.map f).step p row = (s.step p.whole row).map f := by
  by_cases hw : row.cells.length < p.schema.width
  case pos => simp [step, map, Plan.whole, hw]
  case neg =>
    by_cases hc : (Record.decode row.line p.schema row.cells).satisfies p.conditions
    case pos =>
      by_cases hp : p.page ≤ s.matched / p.limit + 1 <;> simp [step, map, hw, hc, hp, h row]
    case neg => simp [step, map, hw, hc]

theorem Progress.isFull_map (f : Record → Record) (s : Progress) :
    (s.map f).isFull p = s.isFull p.whole := by
  simp only [isFull, map, Array.size_map]
  rfl

theorem collect_map (h : ∀ row, p.view row = f (p.whole.view row)) (s : Progress)
    (r : Row.Reader) : collect p (s.map f) r = (collect p.whole s r).map f := by
  fun_induction collect p.whole s r with
  | case1 s r hn =>
    have hn : r.next p.delimiter = .done := hn
    exact collect_of_done hn _
  | case2 s r e hn =>
    have hn : r.next p.delimiter = .failed e := hn
    exact collect_of_failed hn _
  | case3 s r row r' hn s' hf =>
    have hn : r.next p.delimiter = .row row r' := hn
    rw [collect_of_row hn, Progress.step_map h, Progress.isFull_map, if_pos hf]
    rfl
  | case4 s r row r' hn s' hf ih =>
    have hn : r.next p.delimiter = .row row r' := hn
    rw [collect_of_row hn, Progress.step_map h, Progress.isFull_map, if_neg hf]
    exact ih

theorem run_map (h : ∀ row, p.view row = f (p.whole.view row)) (source : Source) :
    run p source = (run p.whole source).map f := by
  simp only [run, Plan.whole_delimiter]
  split
  case h_1 | h_2 => simp [Run.map, Progress.map]
  case h_3 r _   => simpa [Progress.map] using collect_map h {} r

theorem Run.output_map (q : Query) (run : Run) :
    (run.map q.part).output q.countOnly = (run.output false).map (·.view q) := by
  simp only [output, map]
  split
  case h_1 => rfl
  case h_2 =>
    by_cases hq : q.countOnly
    all_goals simp [Except.map, Output.view, Outcome.view, Progress.map, hq]

theorem Run.records_of_output {run : Run} {o : Output} (h : run.output false = .ok o) :
    ∃ rs, o.outcome = .records rs := by
  simp only [output] at h
  split at h
  case h_1 => cases h
  case h_2 => cases h; exact ⟨_, rfl⟩

theorem Outcome.size_view (q : Query) (o : Outcome) : (o.view q).size = o.size := by
  cases o
  case count      => rfl
  case records rs => by_cases hq : q.countOnly <;> simp [view, size, hq]

end Scan

namespace Window

-- The scan of a query is a view of that of the whole query.
theorem scan_eq_view (w : Window) (schema : Schema) (delimiter : UInt8) (q : Query)
    (source : Source) :
    w.scan schema delimiter q source =
    ((w.scan schema delimiter q.whole source).1.map (·.view q), w.forQuery q) := by
  have hr := Scan.run_map (Scan.Plan.view_eq_part schema delimiter q (w.forQuery q)) source
  simp only [scan, hr, Scan.Run.output_map]
  rfl

-- Queries that agree on their conditions, page and limit, and differ in the selected fields and in
-- count mode only:
-- (1) They fail alike, or succeed with the same statistics, and leave the same window.
-- (2) Each record that is returned for selected fields is the whole record, restricted to them.
-- (3) A count is the number of the records, or the count, that the other query returns.
theorem scan_views (w : Window) (schema : Schema) (delimiter : UInt8) (source : Source)
    (q q' : Query) (hc : q.conditions = q'.conditions) (hp : q.page = q'.page)
    (hl : q.limit = q'.limit) :
    let found := w.scan schema delimiter q source
    let found' := w.scan schema delimiter q' source
    found.2 = found'.2 ∧
    ((∃ e, found.1 = .error e ∧ found'.1 = .error e) ∨
    (∃ o o', found.1 = .ok o ∧ found'.1 = .ok o' ∧ o.stats = o'.stats ∧
      (q.fields = [] → q'.fields ≠ [] → ¬q.countOnly → ¬q'.countOnly →
        ∃ rs, o.outcome = .records rs ∧ o'.outcome = .records (rs.map (·.restrict q'.fields))) ∧
      (q.countOnly → o.outcome = .count o'.outcome.size))) := by
  intro found found'
  have hw : q.whole = q'.whole := by simp [Query.whole, hc, hp, hl]
  have hf : found = _ := scan_eq_view w schema delimiter q source
  have hf' : found' = _ := scan_eq_view w schema delimiter q' source
  rw [←hw] at hf'
  refine ⟨by simp [hf, hf', forQuery, hp, hl], ?_⟩
  cases ho : (w.scan schema delimiter q.whole source).1
  case error e => exact .inl ⟨e, by simp [hf, ho, Except.map], by simp [hf', ho, Except.map]⟩
  case ok o =>
    obtain ⟨rs, hr⟩ := Scan.Run.records_of_output ho
    refine .inr ⟨o.view q, o.view q', by simp [hf, ho, Except.map], by simp [hf', ho, Except.map],
      rfl, ?_, ?_⟩
    case refine_1 =>
      intro hq hq' hn hn'
      have hr' : q.part = id := by funext r; simp [Query.part, Query.selectsAll, hq]
      have hr'' : q'.part = Record.restrict q'.fields := by
        funext r; simp [Query.part, Query.selectsAll, hq']
      exact ⟨rs, by simp [Scan.Output.view, Scan.Outcome.view, hr, hn, hr'],
        by simp [Scan.Output.view, Scan.Outcome.view, hr, hn', hr'']⟩
    case refine_2 =>
      intro hq
      rw [Scan.Output.view, Scan.Output.view, Scan.Outcome.size_view]
      simp [Scan.Outcome.view, Scan.Outcome.size, hr, hq]

-- A name that occurs twice is selected with both of its cells, however often it is asked for.
theorem scan_views_repeated_name :
    ∃ stats,
      (start 0).scan ⟨["a", "b", "a"], by decide, by decide⟩ 0x3B {}
        ⟨[0x61, 0x3B, 0x62, 0x3B, 0x61, 0x0A, 0x31, 0x3B, 0x32, 0x3B, 0x33, 0x0A], none⟩ =
        (.ok ⟨.records [⟨1, [("a", .multi ["1", "3"]), ("b", .single "2")]⟩], stats⟩, start 0) ∧
      (start 0).scan ⟨["a", "b", "a"], by decide, by decide⟩ 0x3B { fields := ["c", "a", "a"] }
        ⟨[0x61, 0x3B, 0x62, 0x3B, 0x61, 0x0A, 0x31, 0x3B, 0x32, 0x3B, 0x33, 0x0A], none⟩ =
        (.ok ⟨.records [⟨1, [("a", .multi ["1", "3"])]⟩], stats⟩, start 0) := by
  have hd : Scan.dataRows 0x3B
      [0x61, 0x3B, 0x62, 0x3B, 0x61, 0x0A, 0x31, 0x3B, 0x32, 0x3B, 0x33, 0x0A] =
      [⟨1, ["1", "2", "3"]⟩] := by
    have hc : ({} : Config).delimiterByte? = some 0x3B := by decide
    have hr := Row.WrittenRow.rows_flatMap (Row.delimits_of_delimiterByte? hc) [
      ⟨[.bare "a" (by simp), .bare "b" (by simp), .bare "a" (by simp)], false,
        by decide, by decide⟩,
      ⟨[.bare "1" (by simp), .bare "2" (by simp), .bare "3" (by simp)], false,
        by decide, by decide⟩] 0
    exact congrArg (·.1.tail) hr
  obtain ⟨stats, h⟩ := scan_positive (.start 0) ⟨["a", "b", "a"], by decide, by decide⟩ 0x3B {}
    [0x61, 0x3B, 0x62, 0x3B, 0x61, 0x0A, 0x31, 0x3B, 0x32, 0x3B, 0x33, 0x0A]
  rw [hd] at h
  have h : (start 0).scan _ _ _ _ =
      (.ok ⟨.records [⟨1, [("a", .multi ["1", "3"]), ("b", .single "2")]⟩], stats⟩, start 0) := h
  obtain ⟨hw, hs⟩ := scan_views (start 0) ⟨["a", "b", "a"], by decide, by decide⟩ 0x3B
    ⟨[0x61, 0x3B, 0x62, 0x3B, 0x61, 0x0A, 0x31, 0x3B, 0x32, 0x3B, 0x33, 0x0A], none⟩
    {} { fields := ["c", "a", "a"] } rfl rfl rfl
  rw [h] at hw hs
  obtain ⟨e, he, _⟩ | ⟨o, o', ho, ho', hst, hr, _⟩ := hs
  case inl => cases he
  case inr =>
    cases ho
    obtain ⟨rs, hrs, hrs'⟩ := hr rfl (by decide) (by decide) (by decide)
    cases hrs
    refine ⟨stats, h, Prod.ext (ho'.trans ?_) hw.symm⟩
    obtain ⟨_, _⟩ := o'
    cases hst
    cases hrs'
    rfl

end Window
end FlatQuery

import FlatQuery.Log.Journal

/-!
Journals of the same reports with different thresholds. Of two such journals the one with the higher
threshold has those entries of the other one that are severe enough for it.
-/

namespace FlatQuery.Log

-- The fields whose values are different in each run: the id of a session, and when it was opened.
def passingKeys : List String :=
  ["session", "opened_at"]

def maskField (f : String × String) : String × String :=
  if f.1 ∈ passingKeys then (f.1, "") else f

-- An entry without what is different in each run.
def Entry.masked (e : Entry) : Entry :=
  { e with fields := e.fields.map maskField }

theorem Severity.trace_rank_le (severity : Severity) : trace.rank ≤ severity.rank :=
  Nat.zero_le _

namespace Journal

-- The second journal keeps what is as severe as `high`, and the first one keeps no less. It has the
-- same entries, save those that are not so severe.
structure Coarser (high : Severity) (j k : Journal) : Prop where
  lower     : j.threshold.rank ≤ high.rank
  threshold : k.threshold = high
  entries   : k.entries.map Entry.masked =
    (j.entries.filter (high.rank ≤ ·.severity.rank)).map Entry.masked

variable {high : Severity} {j k : Journal} {es es' : List Entry}

theorem filter_map_masked (p : Severity → Bool) (es : List Entry) :
    (es.filter (p ·.severity)).map Entry.masked =
    (es.map Entry.masked).filter (p ·.severity) := by
  rw [List.filter_map]
  rfl

namespace Coarser

theorem start {low high : Severity} (h : low.rank ≤ high.rank) :
    Coarser high ⟨low, []⟩ ⟨high, []⟩ :=
  ⟨h, rfl, rfl⟩

-- What the second journal keeps is also kept by the first one.
theorem filter_keeps (h : Coarser high j k) (es : List Entry) :
    (es.filter (j.keeps ·.severity)).filter (high.rank ≤ ·.severity.rank) =
    es.filter (high.rank ≤ ·.severity.rank) := by
  have hk (e : Entry) : (decide (high.rank ≤ e.severity.rank) && j.keeps e.severity) =
      decide (high.rank ≤ e.severity.rank) := by
    have hl := h.lower
    simp only [keeps, Bool.and_eq_left_iff_imp, decide_eq_true_eq]
    omega
  rw [List.filter_filter]
  simp only [hk]

theorem addAll (h : Coarser high j k) (he : es'.map Entry.masked = es.map Entry.masked) :
    Coarser high (j.addAll es) (k.addAll es') where
  lower     := h.lower
  threshold := h.threshold
  entries := by
    have hn : (es'.filter (k.keeps ·.severity)).map Entry.masked =
        (es.filter (high.rank ≤ ·.severity.rank)).map Entry.masked := by
      rw [filter_map_masked k.keeps, he, ←filter_map_masked]
      simp only [keeps, h.threshold]
    simp only [Journal.addAll, List.map_append, List.filter_append, h.entries, hn, h.filter_keeps]

theorem report (h : Coarser high j k) (event : Event) {fields fields' : List (String × String)}
    (hf : fields'.map maskField = fields.map maskField) :
    Coarser high (j.report event fields) (k.report event fields') :=
  h.addAll (by simp [Entry.masked, hf])

end Coarser

end Journal

-- The same result, and journals of which the second one is coarser.
structure Agree {α : Type} (high : Severity) (a b : α × Journal) : Prop where
  result  : b.1 = a.1
  journal : Journal.Coarser high a.2 b.2

end FlatQuery.Log

namespace FlatQuery

-- Two computations that fail with the same error, or have related results.
inductive SameOutcome {ε α β : Type} (R : α → β → Prop) : Except ε α → Except ε β → Prop
  | ok {a : α} {b : β} : R a b → SameOutcome R (.ok a) (.ok b)
  | error (e : ε) : SameOutcome R (.error e) (.error e)

theorem SameOutcome.bind {ε α β γ δ : Type} {R : α → β → Prop} {S : γ → δ → Prop}
    {x : Except ε α} {y : Except ε β} {f : α → Except ε γ} {g : β → Except ε δ}
    (h : SameOutcome R x y) (hf : ∀ {a b}, R a b → SameOutcome S (f a) (g b)) :
    SameOutcome S (x >>= f) (y >>= g) := by
  cases h
  case ok h    => exact hf h
  case error e => exact .error e

theorem SameOutcome.map_eq {ε α β γ : Type} {R : α → β → Prop} {x : Except ε α} {y : Except ε β}
    {f : α → γ} {g : β → γ} (h : SameOutcome R x y) (hf : ∀ {a b}, R a b → g b = f a) :
    y.map g = x.map f := by
  cases h
  case ok h    => exact congrArg Except.ok (hf h)
  case error e => rfl

theorem SameOutcome.refl {ε α : Type} (x : Except ε α) : SameOutcome Eq x x := by
  cases x
  case error e => exact .error e
  case ok a    => exact .ok rfl

end FlatQuery

/-!
Computations that succeed or fail: what such a computation was if one that is built from it has
succeeded or failed.
-/

namespace FlatQuery

variable {ε ε' α β : Type} {x : Except ε α}

section Ok

theorem exists_of_bind_eq_ok {f : α → Except ε β} {b : β} (h : x >>= f = .ok b) :
    ∃ a, x = .ok a ∧ f a = .ok b := by
  cases x
  case error e => cases h
  case ok a    => exact ⟨a, rfl, h⟩

theorem exists_of_map_eq_ok {f : α → β} {b : β} (h : x.map f = .ok b) :
    ∃ a, x = .ok a ∧ f a = b := by
  cases x
  case error e => cases h
  case ok a    => exact ⟨a, rfl, Except.ok.inj h⟩

theorem eq_ok_of_mapError {f : ε → ε'} {a : α} (h : x.mapError f = .ok a) : x = .ok a := by
  cases x
  case error e => cases h
  case ok a    => exact congrArg _ (Except.ok.inj h)

end Ok

section Error

theorem error_of_bind {f : α → Except ε β} {e : ε} (h : x >>= f = .error e) :
    x = .error e ∨ ∃ a, x = .ok a ∧ f a = .error e := by
  cases x
  case error => exact .inl (by simpa [bind, Except.bind] using h)
  case ok a  => exact .inr ⟨a, rfl, h⟩

theorem error_of_map {f : α → β} {e : ε} (h : x.map f = .error e) : x = .error e := by
  cases x
  case error => exact congrArg _ (Except.error.inj h)
  case ok    => cases h

theorem error_of_mapError {f : ε → ε'} {e : ε'} (h : x.mapError f = .error e) :
    ∃ e₀, x = .error e₀ ∧ f e₀ = e := by
  cases x
  case error e₀ => exact ⟨e₀, rfl, Except.error.inj h⟩
  case ok       => cases h

end Error

end FlatQuery

/-
When a computation that may be refused succeeds.

The operations of the library are chains of steps, each of which may refuse.  A chain that succeeds
has succeeded at every step, and these lemmas take it apart in that way (`bind_eq_ok`, `map_eq_ok`,
`mapError_eq_ok`), so that no proof has to open the chain itself.
-/

set_option autoImplicit false

namespace MessageTemplate.Outcome

variable {ε ε' α β : Type}

/-- Whether two outcomes of `Except` are the same can be decided if it can be for their values and
refusals, so what a computation comes to on a fixed input is found out by evaluating it. -/
instance decidableEqExcept [DecidableEq ε] [DecidableEq α] : DecidableEq (Except ε α)
  | .ok a, .ok b => decidable_of_iff (a = b) (by rw [Except.ok.injEq])
  | .error e, .error e' => decidable_of_iff (e = e') (by rw [Except.error.injEq])
  | .ok _, .error _ => .isFalse nofun
  | .error _, .ok _ => .isFalse nofun

/-- A chain `x >>= f` succeeds exactly when its first step gives some `a` and the second step
succeeds on it. -/
theorem bind_eq_ok {x : Except ε α} {f : α → Except ε β} {b : β} :
    (x >>= f) = .ok b ↔ ∃ a, x = .ok a ∧ f a = .ok b := by
  cases x with
  | error e => exact ⟨nofun, fun ⟨_, h, _⟩ => nomatch h⟩
  | ok a => exact ⟨fun h => ⟨a, rfl, h⟩, fun ⟨_, h, hf⟩ => by cases h; exact hf⟩

/-- A refusal is no success.  It is stated for `simp` and for contradictions, where the type of the
other outcome is not in sight. -/
theorem error_ne_ok (e : ε) (a : α) : (Except.error e : Except ε α) ≠ .ok a :=
  nofun

/-- An outcome whose value is exchanged by `f` succeeds exactly when it does so before the
exchange. -/
theorem map_eq_ok {x : Except ε α} {f : α → β} {b : β} :
    x.map f = .ok b ↔ ∃ a, x = .ok a ∧ f a = b := by
  cases x with
  | error e => exact ⟨nofun, fun ⟨_, h, _⟩ => nomatch h⟩
  | ok a =>
    rw [Except.map, Except.ok.injEq]
    exact ⟨fun h => ⟨a, rfl, h⟩, fun ⟨_, h, hf⟩ => by cases h; exact hf⟩

theorem map_map {γ : Type} {x : Except ε α} {f : α → β} {g : β → γ} :
    (x.map f).map g = x.map fun a => g (f a) := by
  cases x with
  | error e => rfl
  | ok a => rfl

/-- Rewording a refusal with `mapError` changes no success, and makes none. -/
theorem mapError_eq_ok {x : Except ε α} {f : ε → ε'} {a : α} :
    x.mapError f = .ok a ↔ x = .ok a := by
  cases x with
  | error e => exact ⟨nofun, nofun⟩
  | ok b =>
    show Except.ok b = Except.ok a ↔ Except.ok b = Except.ok a
    rw [Except.ok.injEq, Except.ok.injEq]

/-- `toOption` forgets why an outcome is refused, and nothing of its successes. -/
theorem toOption_eq_some {x : Except ε α} {a : α} : x.toOption = some a ↔ x = .ok a := by
  cases x with
  | error e => exact ⟨nofun, nofun⟩
  | ok b =>
    rw [Except.ok.injEq]
    exact ⟨Option.some.inj, congrArg some⟩

/-- A list that goes through `List.mapM` has gone through at every element: each `x` in it has been
taken by `f`. -/
theorem exists_of_mapM_eq_ok {f : α → Except ε β} {x : α} (xs : List α) :
    ∀ {ys : List β}, xs.mapM f = .ok ys → x ∈ xs → ∃ y, f x = .ok y := by
  induction xs with
  | nil => exact fun _ hx => absurd hx List.not_mem_nil
  | cons x' rest ih =>
    intro ys h hx
    rw [List.mapM_cons, bind_eq_ok] at h
    obtain ⟨y, hy, h⟩ := h
    obtain ⟨ys', hys, -⟩ := bind_eq_ok.mp h
    rcases List.mem_cons.mp hx with rfl | hx
    · exact ⟨y, hy⟩
    · exact ih hys hx

end MessageTemplate.Outcome

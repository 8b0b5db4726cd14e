import LockAudit.Proofs.Result

/-!
# Which failures are handled

A handler catches the failures of some class and lets the others through. Of an
operation under such a handler two things can be said: every failure it has is caught,
or it ends in one that is not. The first holds of a chain of operations when it holds
of each, so it is proved along the definition of an operation; the second holds of a
chain when it holds of one operation and those before it give values.
-/

namespace LockAudit

variable {ε α β : Type} {handled : Failure → Bool}

/-- The handler catches every failure of the operation. -/
def Caught (handled : Failure → Bool) (x : Except Failure α) : Prop :=
  ∀ c, x = .error c → handled c = true

/-- The operation ends in a failure that the handler does not catch. -/
def Uncaught (handled : Failure → Bool) (x : Except Failure α) : Prop :=
  ∃ c, x = .error c ∧ handled c = false

theorem not_uncaught {x : Except Failure α} : ¬ Uncaught handled x ↔ Caught handled x := by
  refine ⟨?_, ?_⟩
  · intro h c hc
    cases hh : handled c with
    | true => rfl
    | false => exact absurd ⟨c, hc, hh⟩ h
  · intro h h₁
    obtain ⟨c, hc, hh⟩ := h₁
    rw [h c hc] at hh
    exact absurd hh (by simp)

namespace Caught

theorem ok {a : α} : Caught handled (.ok a) := by
  intro c h
  exact absurd h (by simp)

theorem error {c : Failure} (h : handled c = true) :
    Caught handled (.error c : Except Failure α) := by
  intro c' hc
  cases hc
  exact h

theorem bind {x : Except Failure α} {f : α → Except Failure β} (hx : Caught handled x)
    (hf : ∀ a, Caught handled (f a)) :
    Caught handled (x >>= f) := by
  intro c h
  rcases Result.bind_error.mp h with h | ⟨a, _, h⟩
  · exact hx c h
  · exact hf a c h

theorem mapError {x : Except ε α} {g : ε → Failure} (hg : ∀ e, handled (g e) = true) :
    Caught handled (x.mapError g) := by
  intro c h
  obtain ⟨e, _, rfl⟩ := Result.mapError_error.mp h
  exact hg e

theorem mapM {f : α → Except Failure β} {as : List α} (hf : ∀ a, Caught handled (f a)) :
    Caught handled (as.mapM f) := by
  induction as with
  | nil => exact .ok
  | cons a as ih =>
      rw [List.mapM_cons]
      refine (hf a).bind fun b => ?_
      exact ih.bind fun bs => .ok

theorem optionMapM {f : α → Except Failure β} {a : Option α} (hf : ∀ a, Caught handled (f a)) :
    Caught handled (a.mapM f) := by
  cases a with
  | none => exact .ok
  | some a => exact (hf a).bind fun b => .ok

end Caught

namespace Uncaught

@[simp]
theorem not_ok {a : α} : ¬ Uncaught handled (.ok a) := not_uncaught.mpr .ok

@[simp]
theorem error_iff {c : Failure} :
    Uncaught handled (.error c : Except Failure α) ↔ handled c = false := by
  refine ⟨?_, ?_⟩
  · intro h
    obtain ⟨c', hc, h⟩ := h
    cases hc
    exact h
  · intro h
    exact ⟨c, rfl, h⟩

theorem bind_iff {x : Except Failure α} {f : α → Except Failure β} :
    Uncaught handled (x >>= f) ↔ Uncaught handled x ∨ ∃ a, x = .ok a ∧ Uncaught handled (f a) := by
  cases x with
  | error c => simp
  | ok a => simp

/-- A chain that starts with an operation whose failures are caught. -/
theorem bind_iff_of_caught {x : Except Failure α} {f : α → Except Failure β}
    (hx : Caught handled x) :
    Uncaught handled (x >>= f) ↔ ∃ a, x = .ok a ∧ Uncaught handled (f a) := by
  rw [bind_iff]
  refine ⟨?_, ?_⟩
  · intro h
    rcases h with h | h
    · exact absurd h (not_uncaught.mpr hx)
    · exact h
  · exact Or.inr

/-- A chain that goes on with operations whose failures are caught. -/
theorem bind_iff_of_rest_caught {x : Except Failure α} {f : α → Except Failure β}
    (hf : ∀ a, Caught handled (f a)) :
    Uncaught handled (x >>= f) ↔ Uncaught handled x := by
  rw [bind_iff]
  refine ⟨?_, ?_⟩
  · intro h
    rcases h with h | ⟨a, _, h⟩
    · exact h
    · exact absurd h (not_uncaught.mpr (hf a))
  · exact Or.inl

theorem mapError_iff {x : Except ε α} {g : ε → Failure} :
    Uncaught handled (x.mapError g) ↔ ∃ e, x = .error e ∧ handled (g e) = false := by
  cases x with
  | error e => simp
  | ok a => simp

theorem optionMapM_iff {f : α → Except Failure β} {a : Option α} :
    Uncaught handled (a.mapM f) ↔ ∃ b, a = some b ∧ Uncaught handled (f b) := by
  cases a with
  | none => exact ⟨fun h => absurd h not_ok, by simp⟩
  | some b =>
      cases h : f b with
      | error c => simp [h, Functor.map, Except.map]
      | ok c => simp [h, Functor.map, Except.map]

end Uncaught

/-- An optional step gives a value when the step does, if there is one. -/
theorem Result.optionMapM_ok {f : α → Except ε β} {a : Option α} :
    (∃ b, a.mapM f = .ok b) ↔ ∀ c, a = some c → ∃ b, f c = .ok b := by
  cases a with
  | none => exact ⟨fun _ c hc => absurd hc (by simp), fun _ => ⟨none, rfl⟩⟩
  | some a =>
      cases h : f a with
      | error e => simp [h, Functor.map, Except.map]
      | ok b => simp [h, Functor.map, Except.map]

end LockAudit

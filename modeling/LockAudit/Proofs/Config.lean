import LockAudit.Config
import LockAudit.Proofs.Calendar.Duration

/-!
# Settings that stop the program

A setting that cannot be read is a value that is not allowed, and what reads the
configuration handles just those failures. Two settings of the environment can end in
another one: the path of the cache, when it starts in a home directory that is not known,
and the age of the cache.
-/

namespace LockAudit

namespace Config

variable {users : File.Users} {settings : List (String × String)}

/-- The setting of a severity can be read, if there is one. -/
def IsSeverity (given : Option String) : Prop :=
  ∀ s, given = some s → ∃ severity, Severity.ofText s = .ok severity

/-- Reading the environment ends in a failure that is not that of a value. -/
inductive IsTrapped (users : File.Users) (settings : List (String × String)) : Prop
  | home {s : String} (severity : IsSeverity (fromEnvironment? settings "FAIL_SEVERITY"))
      (given : fromEnvironment? settings "CACHE" = some s)
      (unknown : users.expand? (.ofText s) = none) : IsTrapped users settings
  | age {s : String} (severity : IsSeverity (fromEnvironment? settings "FAIL_SEVERITY"))
      (known : ∀ path, fromEnvironment? settings "CACHE" = some path →
        users.expand? (.ofText path) ≠ none)
      (given : fromEnvironment? settings "CACHE_MAX_AGE" = some s)
      (trap : Calendar.Duration.IsTrap s) : IsTrapped users settings

theorem readPath_ok {s : String} :
    (∃ path, readPath users s = .ok path) ↔ users.expand? (.ofText s) ≠ none := by
  unfold readPath
  cases users.expand? (.ofText s) <;> simp

theorem readPath_uncaught {s : String} :
    Uncaught Failure.isValueError (readPath users s) ↔
      users.expand? (.ofText s) = none := by
  unfold readPath
  cases users.expand? (.ofText s) <;> simp [Failure.isValueError]

theorem readSeverity_ok {given : Option String} :
    (∃ severity, (given.mapM fun s => (Severity.ofText s).mapError Failure.value) = .ok severity) ↔
      IsSeverity given := by
  rw [Result.optionMapM_ok]
  simp only [Result.mapError_ok]
  rfl

theorem readInteger_caught {s : String} : Caught Failure.isValueError (readInteger s) := by
  unfold readInteger
  split
  · exact .ok
  · exact .error rfl
  · exact .error rfl

theorem ofEnvironment_uncaught :
    Uncaught Failure.isValueError (Changes.ofEnvironment users settings) ↔
      IsTrapped users settings := by
  have hvalue {α : Type} {x : Except ValueDefect α} :
      Caught Failure.isValueError (x.mapError .value) := .mapError fun _ => rfl
  unfold Changes.ofEnvironment
  -- only the path and the age of the cache let failures through; the severity comes first
  rw [Uncaught.bind_iff_of_caught (.optionMapM fun _ => hvalue)]
  refine ⟨?_, ?_⟩
  · intro h
    obtain ⟨severity, hseverity, h⟩ := h
    have hseverity := readSeverity_ok.mp ⟨severity, hseverity⟩
    rcases Uncaught.bind_iff.mp h with h | ⟨path, hpath, h⟩
    · obtain ⟨s, hs, h⟩ := Uncaught.optionMapM_iff.mp h
      exact .home hseverity hs (readPath_uncaught.mp h)
    · have hknown := Result.optionMapM_ok.mp ⟨path, hpath⟩
      rcases Uncaught.bind_iff.mp h with h | ⟨age, hage, h⟩
      · obtain ⟨s, hs, h⟩ := Uncaught.optionMapM_iff.mp h
        have htrap := Calendar.Duration.read_uncaught.mp h
        exact .age hseverity (fun s' hs' => readPath_ok.mp (hknown s' hs')) hs htrap
      · -- the five settings after the age have only failures of values
        refine absurd h (not_uncaught.mpr ?_)
        refine .bind (.optionMapM fun _ => hvalue) fun _ => ?_
        refine .bind (.optionMapM fun _ => hvalue) fun _ => ?_
        refine .bind (.optionMapM fun _ => hvalue) fun _ => ?_
        refine .bind (.optionMapM fun _ => hvalue) fun _ => ?_
        exact .bind (.optionMapM fun _ => readInteger_caught) fun _ => .ok
  · intro h
    cases h with
    | home severity given unknown =>
        obtain ⟨severity, hseverity⟩ := readSeverity_ok.mpr severity
        have hpath := readPath_uncaught.mpr unknown
        refine ⟨severity, hseverity, Uncaught.bind_iff.mpr (Or.inl ?_)⟩
        exact Uncaught.optionMapM_iff.mpr ⟨_, given, hpath⟩
    | age severity known given trap =>
        obtain ⟨severity, hseverity⟩ := readSeverity_ok.mpr severity
        obtain ⟨path, hpath⟩ := Result.optionMapM_ok.mpr fun s hs => readPath_ok.mpr (known s hs)
        have hage := Calendar.Duration.read_uncaught.mpr trap
        refine ⟨severity, hseverity, Uncaught.bind_iff.mpr (Or.inr ⟨path, hpath, ?_⟩)⟩
        refine Uncaught.bind_iff.mpr (Or.inl ?_)
        exact Uncaught.optionMapM_iff.mpr ⟨_, given, hage⟩

/-- **Where the environment's settings let a failure through.** -/
theorem uncaught_iff :
    Uncaught Failure.isValueError (ofEnvironment users settings) ↔ IsTrapped users settings := by
  unfold ofEnvironment
  rw [Uncaught.bind_iff_of_rest_caught, ofEnvironment_uncaught]
  intro changes
  rw [Result.lift_value]
  exact .mapError fun _ => rfl

end Config

end LockAudit

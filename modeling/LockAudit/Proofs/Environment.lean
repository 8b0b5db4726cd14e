import LockAudit.Proofs.Calendar.DurationForm
import LockAudit.Proofs.Config

/-!
# What the environment states

A setting of the environment is read by itself, and one that is not there has its standard
value. `States` puts this together for a whole configuration: where each of its values
comes from, and that they are valid. A configuration comes out of the environment exactly
if the environment states it. If none does, the failure is that of a value unless the
environment is a trap.

A time limit is refused if it is zero or less. The double that is no number is neither that
nor more than zero, so it is let through, and a valid limit is positive or no number.
-/

namespace LockAudit

/-! ## Amounts -/

namespace Number

/-- The double is more than zero: the infinity without a sign, or a fraction of that kind
that is not zero. -/
inductive Binary.IsPositive : Binary → Prop
  | infinite : IsPositive (.infinite false)
  | finite {mantissa : Nat} {exponent : Int} (nonzero : 0 < mantissa) :
      IsPositive (.finite false mantissa exponent)

theorem Binary.isAtMostZero_eq_false {b : Binary} :
    b.isAtMostZero = false ↔ b.IsPositive ∨ b = .nan := by
  refine ⟨?_, ?_⟩
  · intro h
    cases b with
    | nan => exact Or.inr rfl
    | infinite negative =>
        obtain rfl : negative = false := h
        exact Or.inl .infinite
    | finite negative mantissa exponent =>
        rw [isAtMostZero, Bool.or_eq_false_iff, beq_eq_false_iff_ne] at h
        obtain ⟨rfl, hne⟩ := h
        exact Or.inl (.finite (Nat.pos_of_ne_zero hne))
  · intro h
    rcases h with hpositive | rfl
    · cases hpositive with
      | infinite => rfl
      | finite nonzero => simp [isAtMostZero, Nat.ne_of_gt nonzero]
    · rfl

namespace Amount

/-- The amount is more than zero. -/
def IsPositive : Amount → Prop
  | .whole n => 0 < n
  | .real x => (Binary.ofFloat x).IsPositive

/-- The amount is no number. -/
def IsNaN : Amount → Prop
  | .whole _ => False
  | .real x => Binary.ofFloat x = .nan

theorem isAtMostZero_eq_false {a : Amount} : a.isAtMostZero = false ↔ a.IsPositive ∨ a.IsNaN := by
  cases a with
  | whole n => simp [isAtMostZero, IsPositive, IsNaN]
  | real x => exact Binary.isAtMostZero_eq_false

end Amount

end Number

namespace Config

variable {ε ε' : Type} {α β : Type} {users : File.Users} {settings : List (String × String)} {c : Config}

/-! ## Valid configurations -/

/-- What a configuration has to be to pass its checks. -/
structure IsValid (c : Config) : Prop where
  age : ∀ d ∈ c.cacheMaxAge, 0 ≤ d.micros
  timeout : c.timeout.IsPositive ∨ c.timeout.IsNaN
  workers : 1 ≤ c.maxWorkers
  token : c.tokenName.isEmpty = false

theorem guard_ok {p : Prop} [Decidable p] {e : ε} {f : α → Except ε β} {x : Except ε β} {b : β} :
    (if p then Except.error e >>= f else x) = .ok b ↔ ¬ p ∧ x = .ok b := by
  split <;> simp_all

theorem check_ok {c' : Config} : c.check = .ok c' ↔ c.IsValid ∧ c = c' := by
  have hiff : c.IsValid ↔ (∀ d ∈ c.cacheMaxAge, ¬ d.micros < 0) ∧
      ¬ c.timeout.isAtMostZero = true ∧ ¬ c.maxWorkers < 1 ∧ ¬ c.tokenName.isEmpty = true := by
    rw [Bool.not_eq_true, Number.Amount.isAtMostZero_eq_false, Bool.not_eq_true]
    refine ⟨?_, ?_⟩
    · intro h
      exact ⟨fun d hd => Int.not_lt.mpr (h.age d hd), h.timeout, Int.not_lt.mpr h.workers, h.token⟩
    · intro h
      obtain ⟨hage, htimeout, hworkers, htoken⟩ := h
      exact ⟨fun d hd => Int.not_lt.mp (hage d hd), htimeout, Int.not_lt.mp hworkers, htoken⟩
  rw [hiff]
  unfold check
  simp only [Result.throw_eq, Result.pure_eq]
  -- the age is checked only if there is one
  cases c.cacheMaxAge with
  | none => simp only [guard_ok, Except.ok.injEq, Option.not_mem_none, false_implies,
      implies_true, true_and, and_assoc]
  | some d => simp only [guard_ok, Except.ok.injEq, Option.mem_some_iff, forall_eq', and_assoc]

/-! ## Settings -/

/-- A value is one that the given text stands for, or the standard one if no text is given. -/
def Takes (given : Option String) (stands : String → α → Prop) (standard value : α) : Prop :=
  match given with
  | some s => stands s value
  | none => value = standard

theorem takes_iff {given : Option String} {stands : String → α → Prop} {standard value : α}
    {read : String → Except ε β} {make : β → α}
    (hread : ∀ s, stands s value ↔ ∃ b, read s = .ok b ∧ make b = value) :
    Takes given stands standard value ↔
      ∃ new, given.mapM read = .ok new ∧ (new.map make).getD standard = value := by
  cases given with
  | none => simp [Takes, eq_comm]
  | some s =>
      simp only [Takes, hread, Option.mapM_some]
      cases read s with
      | error e => simp
      | ok b => simp

/-- The environment states the configuration, setting by setting. -/
structure States (users : File.Users) (settings : List (String × String)) (c : Config) : Prop where
  failSeverity : Takes (fromEnvironment? settings "FAIL_SEVERITY")
    (fun s severity => Severity.ofText s = .ok severity) .low c.failSeverity
  cachePath : Takes (fromEnvironment? settings "CACHE")
    (fun s path => ∃ p, users.expand? (.ofText s) = some p ∧ some p = path) none
      c.cachePath
  cacheMaxAge : Takes (fromEnvironment? settings "CACHE_MAX_AGE")
    (fun s age => ∃ d, Calendar.Duration.Writes s d ∧ some d = age) (some .day) c.cacheMaxAge
  allowStale : Takes (fromEnvironment? settings "ALLOW_STALE")
    (fun s flag => readFlag s = .ok flag) false c.allowStale
  timeout : Takes (fromEnvironment? settings "TIMEOUT")
    (fun s amount => ∃ x, Number.readFloat? s = some x ∧ .real x = amount) (.real 30.0) c.timeout
  withdrawn : Takes (fromEnvironment? settings "WITHDRAWN")
    (fun s policy => readPolicy s = .ok policy) .retain c.withdrawn
  escalateDirect : Takes (fromEnvironment? settings "ESCALATE_DIRECT")
    (fun s flag => readFlag s = .ok flag) false c.escalateDirect
  maxWorkers : Takes (fromEnvironment? settings "WORKERS")
    (fun s n => Number.readInt s = some (.ok n)) 1 c.maxWorkers
  forceRefresh : c.forceRefresh = false
  tokenName : c.tokenName = Advisory.standardTokenName
  lockFormat : c.lockFormat = none
  valid : c.IsValid

/-! What a text stands for is what is made of the value that is read from it. -/

theorem readValue_iff {read : String → Except ValueDefect α} {value : α} (s : String) :
    read s = .ok value ↔ ∃ b, (read s).mapError Failure.value = .ok b ∧ id b = value := by
  simp [Result.mapError_ok]

theorem readPath_iff {path : Option File.Path} (s : String) :
    (∃ p, users.expand? (.ofText s) = some p ∧ some p = path) ↔
      ∃ p, readPath users s = .ok p ∧ some p = path := by
  unfold readPath
  cases users.expand? (.ofText s) <;> simp

theorem readAge_iff {age : Option Calendar.Duration} (s : String) :
    (∃ d, Calendar.Duration.Writes s d ∧ some d = age) ↔
      ∃ d, (Calendar.Duration.read s).mapError Failure.ofDuration = .ok d ∧ some d = age := by
  simp only [Result.mapError_ok, Calendar.Duration.read_eq_ok]

theorem readReal_iff {amount : Number.Amount} (s : String) :
    (∃ x, Number.readFloat? s = some x ∧ .real x = amount) ↔
      ∃ a, (readReal s).mapError Failure.value = .ok a ∧ id a = amount := by
  unfold readReal
  cases Number.readFloat? s <;> simp

theorem readInteger_iff {n : Int} (s : String) :
    Number.readInt s = some (.ok n) ↔ ∃ m, readInteger s = .ok m ∧ id m = n := by
  unfold readInteger
  split <;> simp_all

theorem States.ofEnvironment (h : States users settings c) :
    Config.ofEnvironment users settings = .ok c := by
  obtain ⟨severity, hseverity, hseverity'⟩ := (takes_iff readValue_iff).mp h.failSeverity
  obtain ⟨path, hpath, hpath'⟩ := (takes_iff readPath_iff).mp h.cachePath
  obtain ⟨age, hage, hage'⟩ := (takes_iff readAge_iff).mp h.cacheMaxAge
  obtain ⟨stale, hstale, hstale'⟩ := (takes_iff readValue_iff).mp h.allowStale
  obtain ⟨timeout, htimeout, htimeout'⟩ := (takes_iff readReal_iff).mp h.timeout
  obtain ⟨withdrawn, hwithdrawn, hwithdrawn'⟩ := (takes_iff readValue_iff).mp h.withdrawn
  obtain ⟨escalate, hescalate, hescalate'⟩ := (takes_iff readValue_iff).mp h.escalateDirect
  obtain ⟨workers, hworkers, hworkers'⟩ := (takes_iff readInteger_iff).mp h.maxWorkers
  -- the changes hold what each variable states, so applied to the defaults they give `c`
  let new : Changes := {
    failSeverity := severity, cachePath := path, cacheMaxAge := age.map some
    allowStale := stale, timeout, withdrawn, escalateDirect := escalate, maxWorkers := workers }
  have hor : path.or none = (path.map some).getD none := by cases path <;> rfl
  have hupdate : ({} : Config).update new = c := by
    have hforce := h.forceRefresh
    have htoken := h.tokenName
    have hformat := h.lockFormat
    cases c
    simp_all [update, new]
  have hchange : change {} new = .ok c := by
    unfold change
    rw [hupdate, check_ok]
    exact ⟨h.valid, rfl⟩
  refine Result.bind_ok.mpr ⟨new, ?_, ?_⟩
  · refine Result.bind_ok.mpr ⟨_, hseverity, Result.bind_ok.mpr ⟨_, hpath, ?_⟩⟩
    refine Result.bind_ok.mpr ⟨_, hage, Result.bind_ok.mpr ⟨_, hstale, ?_⟩⟩
    refine Result.bind_ok.mpr ⟨_, htimeout, Result.bind_ok.mpr ⟨_, hwithdrawn, ?_⟩⟩
    exact Result.bind_ok.mpr ⟨_, hescalate, Result.bind_ok.mpr ⟨_, hworkers, rfl⟩⟩
  · rw [hchange]
    rfl

theorem states_of_ofEnvironment (h : ofEnvironment users settings = .ok c) :
    States users settings c := by
  obtain ⟨new, hnew, h⟩ := Result.bind_ok.mp h
  rw [Result.lift_value, Result.mapError_ok] at h
  obtain ⟨hvalid, rfl⟩ := check_ok.mp h
  obtain ⟨severity, hseverity, hnew⟩ := Result.bind_ok.mp hnew
  obtain ⟨path, hpath, hnew⟩ := Result.bind_ok.mp hnew
  obtain ⟨age, hage, hnew⟩ := Result.bind_ok.mp hnew
  obtain ⟨stale, hstale, hnew⟩ := Result.bind_ok.mp hnew
  obtain ⟨timeout, htimeout, hnew⟩ := Result.bind_ok.mp hnew
  obtain ⟨withdrawn, hwithdrawn, hnew⟩ := Result.bind_ok.mp hnew
  obtain ⟨escalate, hescalate, hnew⟩ := Result.bind_ok.mp hnew
  obtain ⟨workers, hworkers, hnew⟩ := Result.bind_ok.mp hnew
  obtain rfl := Except.ok.inj hnew
  -- each variable was read before the check; the last three settings have no variable
  exact {
    failSeverity := (takes_iff readValue_iff).mpr ⟨_, hseverity, by simp [update]⟩
    cachePath := (takes_iff readPath_iff).mpr ⟨_, hpath, by cases path <;> rfl⟩
    cacheMaxAge := (takes_iff readAge_iff).mpr ⟨_, hage, rfl⟩
    allowStale := (takes_iff readValue_iff).mpr ⟨_, hstale, by simp [update]⟩
    timeout := (takes_iff readReal_iff).mpr ⟨_, htimeout, by simp [update]⟩
    withdrawn := (takes_iff readValue_iff).mpr ⟨_, hwithdrawn, by simp [update]⟩
    escalateDirect := (takes_iff readValue_iff).mpr ⟨_, hescalate, by simp [update]⟩
    maxWorkers := (takes_iff readInteger_iff).mpr ⟨_, hworkers, by simp [update]⟩
    forceRefresh := rfl
    tokenName := rfl
    lockFormat := rfl
    valid := hvalid }

/-- **The environment makes a configuration, is refused, or is a trap.** It makes the
configuration that it states, valid and with the exact age that is written. With none to
state, it is refused as a value that is not allowed, unless the home directory of the cache's
path is not known, or the age oversteps what a duration can be. -/
theorem environment_exact (users : File.Users) (settings : List (String × String)) :
    (∀ c, ofEnvironment users settings = .ok c ↔ States users settings c) ∧
      (Uncaught Failure.isValueError (ofEnvironment users settings) ↔ IsTrapped users settings) ∧
      ((∀ c, ¬ States users settings c) → ¬ IsTrapped users settings →
        ∃ e, ofEnvironment users settings = .error e ∧ e.isValueError = true) ∧
      ∀ s, Calendar.Duration.IsTrap s ↔ Calendar.Duration.Oversteps s := by
  refine ⟨fun c => ⟨states_of_ofEnvironment, States.ofEnvironment⟩, uncaught_iff, ?_,
    fun s => Calendar.Duration.isTrap_iff⟩
  intro hstates htrapped
  cases h : ofEnvironment users settings with
  | ok c => exact absurd (states_of_ofEnvironment h) (hstates c)
  | error e => exact ⟨e, rfl, not_uncaught.mp (mt uncaught_iff.mp htrapped) e h⟩

/-- Nothing is known of any user. -/
def nobody : File.Users := ⟨none, none, fun _ => none⟩

/-- The long s is the only letter that is let through; any other is refused. -/
theorem environment_exact_letters :
    Uncaught Failure.isValueError (ofEnvironment nobody [("DEP_AUDIT_CACHE_MAX_AGE", "5ſ")]) ∧
      ∃ e, ofEnvironment nobody [("DEP_AUDIT_CACHE_MAX_AGE", "5y")] = .error e ∧
        e.isValueError = true := by
  have hgiven (s : String) (h : s.isEmpty = false) :
      fromEnvironment? [("DEP_AUDIT_CACHE_MAX_AGE", s)] "CACHE_MAX_AGE" = some s := by
    unfold fromEnvironment?
    simp [h]
  have hnone (s : String) :
      fromEnvironment? [("DEP_AUDIT_CACHE_MAX_AGE", s)] "FAIL_SEVERITY" = none ∧
        fromEnvironment? [("DEP_AUDIT_CACHE_MAX_AGE", s)] "CACHE" = none := by
    constructor
    · rfl
    · rfl
  constructor
  · -- the long s passes the check of a unit letter, but no unit is filed under it
    refine (environment_exact _ _).2.1.mpr (.age ?_ ?_ (hgiven "5ſ" (by decide)) ?_)
    · simp [IsSeverity, hnone]
    · simp [hnone]
    · -- `y` is not among the letters, so the text has no duration's form at all
      have hsplit : Calendar.Duration.splitText "5ſ" = some (['5'], some 'ſ') := by decide
      exact .longS hsplit (by decide)
  · have hsplit : Calendar.Duration.splitText "5y" = none := by decide
    refine (environment_exact _ _).2.2.1 (fun c h => ?_) (fun h => ?_)
    · have hage := h.cacheMaxAge
      rw [hgiven _ (by decide)] at hage
      obtain ⟨d, ⟨digits, unit, seconds, hspells, _⟩, _⟩ := hage
      rw [Calendar.Duration.splitText_eq_some.mpr hspells] at hsplit
      exact absurd hsplit (by simp)
    · cases h with
      | home _ given _ =>
          rw [(hnone _).2] at given
          exact absurd given (by simp)
      | age _ _ given trap =>
          rw [hgiven _ (by decide)] at given
          obtain rfl := Option.some.inj given
          obtain ⟨digits, unit, hspells, _⟩ := (environment_exact nobody []).2.2.2 _ |>.mp trap
          rw [Calendar.Duration.splitText_eq_some.mpr hspells] at hsplit
          exact absurd hsplit (by simp)

end Config

end LockAudit

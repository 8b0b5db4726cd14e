import LockAudit.Proofs.Calendar.Duration
import LockAudit.Proofs.Number.Integer
import LockAudit.Proofs.PackageName
import Mathlib.Data.List.TakeDrop
import Mathlib.Data.List.TakeWhile

/-!
# Texts that are durations

A duration is written with digits and perhaps one letter for the unit. White space may
stand before, between and after the two, and the letter may be of either case. The digits
may be those of any script.

No character is two of these, white space and a digit or a letter, so a text is cut in one
way only: `splitText_eq_some` says that the reader finds exactly the parts that the text
was put together from. What the parts come to is a matter of two limits, on the digits and
on the days, and of the one letter that is no unit.
-/

namespace LockAudit

namespace Text

variable {c : Char} {cs core before after : List Char}

/-- White space around a text is what stripping takes off. -/
theorem stripList_append (hbefore : ∀ c ∈ before, isBlank c = true)
    (hafter : ∀ c ∈ after, isBlank c = true) (hcore : IsTrimmed core) (hne : core ≠ []) :
    stripList (before ++ (core ++ after)) = core := by
  have hfirst : ∀ c ∈ (core ++ after).head?, isBlank c = false := by
    rw [List.head?_append_of_ne_nil _ hne]
    exact hcore.first
  have hlast : ∀ c ∈ core.reverse.head?, isBlank c = false := by
    rw [List.head?_reverse]
    exact hcore.last
  have hback : ∀ c ∈ after.reverse, isBlank c = true := by simpa using hafter
  unfold stripList
  rw [(span_run hbefore hfirst).2, List.reverse_append, (span_run hback hlast).2,
    List.reverse_reverse]

theorem exists_strip (cs : List Char) : ∃ before after, cs = before ++ (stripList cs ++ after) ∧
    (∀ c ∈ before, isBlank c = true) ∧ ∀ c ∈ after, isBlank c = true := by
  refine ⟨cs.takeWhile isBlank, ((cs.dropWhile isBlank).reverse.takeWhile isBlank).reverse,
    ?_, ?_, ?_⟩
  · unfold stripList
    rw [← List.reverse_append, List.takeWhile_append_dropWhile, List.reverse_reverse,
      List.takeWhile_append_dropWhile]
  · exact fun c hc => List.mem_takeWhile_imp hc
  · exact fun c hc => List.mem_takeWhile_imp (List.mem_reverse.mp hc)

end Text

namespace Calendar.Duration

variable {s : String} {digits : List Char} {unit : Option Char} {c : Char} {d : Duration}

/-- A text is put together from digits and perhaps a letter, with white space around
each. -/
structure Spells (s : String) (digits : List Char) (unit : Option Char) : Prop where
  parts : ∃ before between after, s.toList = before ++ (digits ++ (between ++ (unit.toList ++ after))) ∧
    ∀ c ∈ before ++ (between ++ after), Text.isBlank c = true
  some_digit : digits ≠ []
  digit : ∀ c ∈ digits, Text.isDigit c = true
  letter : ∀ c ∈ unit, isUnit c = true

/-! ## Letters -/

/-- The letters are those of the units, in either case, and the long s. -/
theorem mem_of_isUnit (h : isUnit c = true) :
    c ∈ ['s', 'S', 'm', 'M', 'h', 'H', 'd', 'D', 'w', 'W', 'ſ'] := by
  rcases Nat.lt_or_ge c.toNat 128 with hascii | hother
  · revert h
    refine Text.forall_ascii (p := fun c => isUnit c = true →
      c ∈ ['s', 'S', 'm', 'M', 'h', 'H', 'd', 'D', 'w', 'W', 'ſ']) (by decide) hascii
  · have hlower : c.toLower = c := by
      unfold Char.toLower
      refine dif_neg fun hupper => ?_
      have hlast : c.toNat ≤ 'Z'.toNat := hupper.2
      have : 'Z'.toNat = 90 := by decide
      omega
    have hnot : ∀ letter : Char, letter.toNat < 128 → c ≠ letter := by
      rintro letter hletter rfl
      omega
    unfold isUnit at h
    simp only [hlower, Bool.or_eq_true, decide_eq_true_eq] at h
    rcases h with ((((h | h) | h) | h) | h) | h
    · exact absurd h (hnot 's' (by decide))
    · exact absurd h (hnot 'm' (by decide))
    · exact absurd h (hnot 'h' (by decide))
    · exact absurd h (hnot 'd' (by decide))
    · exact absurd h (hnot 'w' (by decide))
    · simp [h]

theorem isBlank_of_isUnit (h : isUnit c = true) : Text.isBlank c = false := by
  have hall : ['s', 'S', 'm', 'M', 'h', 'H', 'd', 'D', 'w', 'W', 'ſ'].all
      (!Text.isBlank ·) = true := by decide
  simpa using List.all_eq_true.mp hall c (mem_of_isUnit h)

theorem isDigit_of_isUnit (h : isUnit c = true) : Text.isDigit c = false := by
  have hall : ['s', 'S', 'm', 'M', 'h', 'H', 'd', 'D', 'w', 'W', 'ſ'].all
      (!Text.isDigit ·) = true := by decide
  simpa using List.all_eq_true.mp hall c (mem_of_isUnit h)

/-! ## Cutting a text -/

/-- What is left of a text without the white space around it. -/
def body (digits between : List Char) (unit : Option Char) : List Char :=
  match unit with
  | none => digits
  | some c => digits ++ (between ++ [c])

theorem body_isTrimmed {between : List Char} (hne : digits ≠ [])
    (hdigit : ∀ c ∈ digits, Text.isDigit c = true) (hletter : ∀ c ∈ unit, isUnit c = true) :
    Text.IsTrimmed (body digits between unit) where
  first := by
    intro c hc
    have hfirst : c ∈ digits.head? := by
      unfold body at hc
      cases unit with
      | none => exact hc
      | some unit => rwa [List.head?_append_of_ne_nil _ hne] at hc
    exact Text.isBlank_of_isDigit (hdigit c (List.mem_of_head? hfirst))
  last := by
    intro c hc
    cases unit with
    | none => exact Text.isBlank_of_isDigit (hdigit c (List.mem_of_getLast? hc))
    | some letter =>
        rw [body, ← List.append_assoc, List.getLast?_concat] at hc
        obtain rfl := Option.some.inj hc
        exact isBlank_of_isUnit (hletter _ rfl)

theorem splitText_body {between : List Char} (hbody : Text.stripList s.toList = body digits between unit)
    (hne : digits ≠ []) (hdigit : ∀ c ∈ digits, Text.isDigit c = true)
    (hbetween : ∀ c ∈ between, Text.isBlank c = true) (hletter : ∀ c ∈ unit, isUnit c = true) :
    splitText s = some (digits, unit) := by
  unfold splitText
  rw [hbody, List.span_eq_takeWhile_dropWhile]
  have hempty : digits.isEmpty = false := by simpa using hne
  cases unit with
  | none =>
      have hend : ∀ c ∈ ([] : List Char).head?, Text.isDigit c = false := by simp
      have hrun := Text.span_run hdigit hend
      rw [List.append_nil] at hrun
      simp only [body, hrun, hempty]
      rfl
  | some c =>
      have hc : isUnit c = true := hletter c rfl
      -- the digits end where white space or the letter begins
      have hstop : ∀ d ∈ (between ++ [c]).head?, Text.isDigit d = false := by
        intro d hd
        cases between with
        | nil =>
            obtain rfl := Option.some.inj hd
            exact isDigit_of_isUnit hc
        | cons b between =>
            obtain rfl := Option.some.inj hd
            have hblank := hbetween b List.mem_cons_self
            by_contra hdigit
            rw [Bool.not_eq_false] at hdigit
            rw [Text.isBlank_of_isDigit hdigit] at hblank
            exact absurd hblank (by simp)
      have hletter : ∀ d ∈ [c].head?, Text.isBlank d = false := by
        intro d hd
        obtain rfl := Option.some.inj hd
        exact isBlank_of_isUnit hc
      simp only [body, Text.span_run hdigit hstop, Text.span_run hbetween hletter, hempty, hc]
      rfl

/-- What the reader finds in a text is what the text is without the white space around it. -/
theorem stripList_of_splitText (h : splitText s = some (digits, unit)) :
    ∃ between, Text.stripList s.toList = digits ++ (between ++ unit.toList) ∧ digits ≠ [] ∧
      (∀ c ∈ digits, Text.isDigit c = true) ∧ (∀ c ∈ between, Text.isBlank c = true) ∧
      ∀ c ∈ unit, isUnit c = true := by
  unfold splitText at h
  rw [List.span_eq_takeWhile_dropWhile] at h
  simp only at h
  generalize Text.stripList s.toList = core at h ⊢
  -- the text falls into digits, blanks and what is left, of which one letter at most is a unit
  have hparts : core = core.takeWhile Text.isDigit ++
      ((core.dropWhile Text.isDigit).takeWhile Text.isBlank ++
        (core.dropWhile Text.isDigit).dropWhile Text.isBlank) := by
    rw [List.takeWhile_append_dropWhile, List.takeWhile_append_dropWhile]
  have hdigit : ∀ c ∈ core.takeWhile Text.isDigit, Text.isDigit c = true :=
    fun c hc => List.mem_takeWhile_imp hc
  have hbetween : ∀ c ∈ (core.dropWhile Text.isDigit).takeWhile Text.isBlank,
      Text.isBlank c = true := fun c hc => List.mem_takeWhile_imp hc
  generalize core.takeWhile Text.isDigit = run at h hparts hdigit
  generalize (core.dropWhile Text.isDigit).takeWhile Text.isBlank = between at hparts hbetween
  generalize (core.dropWhile Text.isDigit).dropWhile Text.isBlank = tail at h hparts
  split at h
  · exact absurd h (by simp)
  · rename_i hempty
    have hne : run ≠ [] := by simpa using hempty
    rcases tail with _ | ⟨c, _ | ⟨c', tail⟩⟩
    · cases h
      exact ⟨between, hparts, hne, hdigit, hbetween, by simp⟩
    · simp only at h
      split at h
      · rename_i hunit
        cases h
        exact ⟨between, hparts, hne, hdigit, hbetween, by simpa using hunit⟩
      · exact absurd h (by simp)
    · exact absurd h (by simp)

/-- **A text is cut into the parts that it was put together from.** -/
theorem splitText_eq_some : splitText s = some (digits, unit) ↔ Spells s digits unit := by
  constructor
  · intro h
    obtain ⟨between, hcore, hne, hdigit, hbetween, hletter⟩ := stripList_of_splitText h
    obtain ⟨before, after, htext, hbefore, hafter⟩ := Text.exists_strip s.toList
    refine ⟨⟨before, between, after, ?_, ?_⟩, hne, hdigit, hletter⟩
    · rw [htext, hcore, List.append_assoc, List.append_assoc]
    · simp only [List.forall_mem_append]
      exact ⟨hbefore, hbetween, hafter⟩
  · intro h
    obtain ⟨before, between, after, htext, hblank⟩ := h.parts
    simp only [List.forall_mem_append] at hblank
    obtain ⟨hbefore, hbetween, hafter⟩ := hblank
    have htrimmed : Text.IsTrimmed (body digits between unit) :=
      body_isTrimmed h.some_digit h.digit h.letter
    have hne : body digits between unit ≠ [] := by
      unfold body
      cases unit with
      | none => exact h.some_digit
      | some c => exact List.append_ne_nil_of_left_ne_nil h.some_digit _
    have hbody : Text.stripList s.toList = body digits between unit := by
      cases unit with
      | none =>
          -- all the white space is at the end
          have hall : ∀ c ∈ between ++ after, Text.isBlank c = true :=
            List.forall_mem_append.mpr ⟨hbetween, hafter⟩
          rw [htext]
          exact Text.stripList_append hbefore hall htrimmed hne
      | some c =>
          have hshape : digits ++ (between ++ ([c] ++ after)) =
              body digits between (some c) ++ after := by simp [body]
          rw [htext]
          change Text.stripList (before ++ (digits ++ (between ++ ([c] ++ after)))) = _
          rw [hshape]
          exact Text.stripList_append hbefore hafter htrimmed hne
    exact splitText_body hbody h.some_digit h.digit hbetween h.letter

/-! ## What the parts come to -/

/-- The number of seconds that the parts of a text come to, if there is such a number. -/
structure Amounts (digits : List Char) (unit : Option Char) (seconds : Nat) : Prop where
  short : digits.length ≤ Number.digitLimit
  sized : ∃ size, unitSeconds? unit = some size ∧ Text.digitsValue digits * size = seconds

/-- The days of a duration have a limit. -/
def IsLong (seconds : Nat) : Prop := 86400 * 1000000000 ≤ seconds

/-- The text is a number of units, and the duration is that many times the unit. -/
def Writes (s : String) (d : Duration) : Prop :=
  ∃ digits unit seconds, Spells s digits unit ∧ Amounts digits unit seconds ∧
    ¬ IsLong seconds ∧ d = ofSeconds seconds

theorem checked_of_short {n : Nat} (h : ¬ IsLong n) : (ofSeconds n).checked = .ok (ofSeconds n) := by
  have hnone := mt checked_ofSeconds.mp h
  unfold checked at hnone ⊢
  split
  · rename_i hdays
    exact absurd ⟨_, if_pos hdays⟩ hnone
  · rename_i hdays
    rw [if_neg hdays] at hnone
    split
    · rename_i hmore
      exact absurd ⟨_, if_pos hmore⟩ hnone
    · rfl

/-- **The durations that are read**, and from which texts. -/
theorem read_eq_ok : read s = .ok d ↔ Writes s d := by
  constructor
  · intro h
    cases hsplit : splitText s with
    | none =>
        unfold read at h
        rw [hsplit] at h
        exact absurd h (by simp)
    | some parts =>
        obtain ⟨digits, unit⟩ := parts
        by_cases hshort : digits.length ≤ Number.digitLimit
        · rw [read_of_digits hsplit (if_pos hshort)] at h
          split at h
          · exact absurd h (by simp)
          · rename_i size hsize
            rw [Result.mapError_ok, ← Int.natCast_mul] at h
            -- reading gave a duration, so the seconds fit one
            have hlong : ¬ IsLong (Text.digitsValue digits * size) := by
              intro hlong
              obtain ⟨cause, hcause⟩ := checked_ofSeconds.mpr hlong
              rw [hcause] at h
              exact absurd h (by simp)
            rw [checked_of_short hlong] at h
            exact ⟨digits, unit, _, splitText_eq_some.mp hsplit, ⟨hshort, size, hsize, rfl⟩, hlong,
              (Except.ok.inj h).symm⟩
        · unfold read Number.ofDigits at h
          simp only [hsplit, if_neg hshort] at h
          exact absurd h (by simp)
  · intro h
    obtain ⟨digits, unit, _, hspells, ⟨hshort, size, hsize, rfl⟩, hlong, rfl⟩ := h
    rw [read_of_digits (splitText_eq_some.mpr hspells) (if_pos hshort), hsize]
    simp only
    rw [← Int.natCast_mul, checked_of_short hlong]
    rfl

/-- The text would be a duration if the long s were a unit and days had no limit. -/
def Oversteps (s : String) : Prop :=
  ∃ digits unit, Spells s digits unit ∧ (unit = some 'ſ' ∧ digits.length ≤ Number.digitLimit ∨
    ∃ seconds, Amounts digits unit seconds ∧ IsLong seconds)

/-- **The texts that are a trap.** -/
theorem isTrap_iff : IsTrap s ↔ Oversteps s := by
  unfold Oversteps
  simp only [← splitText_eq_some]
  constructor
  · intro h
    cases h with
    | longS splits short => exact ⟨_, _, splits, .inl ⟨rfl, short⟩⟩
    | tooLong splits short sized long =>
        exact ⟨_, _, splits, .inr ⟨_, ⟨short, _, sized, rfl⟩, long⟩⟩
  · intro h
    obtain ⟨digits, unit, hsplit, ⟨rfl, hshort⟩ | ⟨_, ⟨hshort, size, hsize, rfl⟩, hlong⟩⟩ := h
    · exact .longS hsplit hshort
    · exact .tooLong hsplit hshort hsize hlong

end Calendar.Duration

end LockAudit

import LockAudit.Lockfile.Cargo
import LockAudit.Proofs.Text.Quoted
import Mathlib.Data.List.TakeWhile

/-!
# Locations in a message

Where a text stops being TOML is read off the message about it: the first thing in the
message that looks like a location is taken for one. `IsLocation` says what that is, and
`locationAt` finds it at the front of a text.

A location starts with a bracket and holds none after it, so no location goes past a
bracket, nor past any other character that none is written with (`IsBreak`). The search
can therefore go through a message part by part. What a message quotes is such a part, and
the location in it is that of the text that is quoted: the characters of a location are
quoted as they stand, and what is escaped brings no bracket with it.
-/

namespace LockAudit.Lockfile.Cargo

variable {c mark : Char} {cs ds digits text : List Char}

/-! ## One location -/

/-- A place in a document as messages write it, with these digits for the line. -/
inductive IsLocation (digits : List Char) : List Char → Prop
  | written {column : List Char} (line_ne : digits ≠ []) (line : ∀ c ∈ digits, Text.isDigit c = true)
      (column_ne : column ≠ []) (column_digit : ∀ c ∈ column, Text.isDigit c = true) :
      IsLocation digits
        ("(at line ".toList ++ (digits ++ (", column ".toList ++ (column ++ [')']))))

theorem IsLocation.line_isInfix (h : IsLocation digits text) : digits <:+: text := by
  cases h
  exact List.infix_append' _ _ _

theorem IsLocation.line_isDigit (h : IsLocation digits text) : ∀ c ∈ digits, Text.isDigit c = true := by
  cases h with
  | written line_ne line column_ne column_digit => exact line

/-- The digits at the front of a text, and what follows them. -/
theorem takeWhile_digits (h : ∀ c ∈ digits, Text.isDigit c = true) (hc : Text.isDigit c = false)
    (rest : List Char) : (digits ++ c :: rest).takeWhile Text.isDigit = digits :=
  (Text.span_run h (by rintro d ⟨⟩; exact hc)).1

/-- **What is found at the front of a text is a location**, and every location there is found. -/
theorem locationAt_eq_some :
    locationAt cs = some digits ↔ ∃ text, IsLocation digits text ∧ text <+: cs := by
  constructor
  · intro h
    unfold locationAt at h
    dsimp only at h
    split at h
    · rename_i hbefore
      obtain ⟨rest, rfl⟩ := List.isPrefixOf_iff_prefix.mp hbefore
      rw [List.drop_left] at h
      -- the digits of the line stand up to the first character that is none
      obtain ⟨after, hafter⟩ := List.takeWhile_prefix (l := rest) Text.isDigit
      have hline : ∀ c ∈ rest.takeWhile Text.isDigit, Text.isDigit c = true :=
        fun c hc => List.mem_takeWhile_imp hc
      generalize rest.takeWhile Text.isDigit = line at h hafter hline
      subst hafter
      rw [List.drop_left] at h
      split at h
      · rename_i hbetween
        rw [Bool.and_eq_true, Bool.not_eq_true', List.isEmpty_eq_false_iff,
          List.isPrefixOf_iff_prefix] at hbetween
        obtain ⟨hline_ne, rest, rfl⟩ := hbetween
        rw [List.drop_left] at h
        -- and so do those of the column, behind the words between them
        obtain ⟨after, hafter⟩ := List.takeWhile_prefix (l := rest) Text.isDigit
        have hcolumn : ∀ c ∈ rest.takeWhile Text.isDigit, Text.isDigit c = true :=
          fun c hc => List.mem_takeWhile_imp hc
        generalize rest.takeWhile Text.isDigit = column at h hafter hcolumn
        subst hafter
        rw [List.drop_left] at h
        split at h
        · rename_i hclose
          rw [Bool.and_eq_true, Bool.not_eq_true', List.isEmpty_eq_false_iff,
            decide_eq_true_eq] at hclose
          obtain ⟨hcolumn_ne, hclose⟩ := hclose
          obtain ⟨last, rfl⟩ := List.head?_eq_some_iff.mp hclose
          obtain rfl := Option.some.inj h
          exact ⟨_, .written hline_ne hline hcolumn_ne hcolumn, last, by simp⟩
        · exact absurd h (by simp)
      · exact absurd h (by simp)
    · exact absurd h (by simp)
  · rintro ⟨_, ⟨line_ne, line, column_ne, column_digit⟩, rest, rfl⟩
    -- the two numbers end where the text goes on with a comma and with a bracket
    have hline (more : List Char) :
        (digits ++ (", column ".toList ++ more)).takeWhile Text.isDigit = digits :=
      takeWhile_digits line (c := ',') (by decide) (" column ".toList ++ more)
    have hcolumn := takeWhile_digits column_digit (c := ')') (by decide) rest
    have hbefore (more : List Char) : "(at line ".toList.isPrefixOf ("(at line ".toList ++ more) = true :=
      List.isPrefixOf_iff_prefix.mpr (List.prefix_append _ _)
    have hbetween (more : List Char) : ", column ".toList.isPrefixOf (", column ".toList ++ more) = true :=
      List.isPrefixOf_iff_prefix.mpr (List.prefix_append _ _)
    unfold locationAt
    dsimp only
    simp only [List.append_assoc, hbefore, hbetween, hline, hcolumn, List.drop_left, List.cons_append,
      List.nil_append, List.isEmpty_eq_false_iff.mpr line_ne, List.isEmpty_eq_false_iff.mpr column_ne,
      List.head?_cons, if_true, Bool.not_false, Bool.and_true, decide_true]

/-- The characters that a location is written with after its bracket. -/
def isInner (c : Char) : Bool := Text.isDigit c || "at line , column )".toList.contains c

/-- A location has its only bracket in front. -/
theorem IsLocation.exists_tail (h : IsLocation digits text) :
    ∃ tail, text = '(' :: tail ∧ ∀ c ∈ tail, isInner c = true := by
  have hdigit {part : List Char} (hpart : ∀ c ∈ part, Text.isDigit c = true) :
      ∀ c ∈ part, isInner c = true := by
    intro c hc
    rw [isInner, hpart c hc, Bool.true_or]
  cases h with
  | @written column line_ne line column_ne column_digit =>
      refine ⟨"at line ".toList ++ (digits ++ (", column ".toList ++ (column ++ [')']))), rfl, ?_⟩
      simp only [List.forall_mem_append]
      exact ⟨List.all_eq_true.mp (by decide), hdigit line, List.all_eq_true.mp (by decide),
        hdigit column_digit, List.all_eq_true.mp (by decide)⟩

/-! ## The first location -/

theorem firstLocation_cons_of_ne (h : c ≠ '(') (cs : List Char) :
    firstLocation (c :: cs) = firstLocation cs := by
  have hnone : locationAt (c :: cs) = none := by
    rw [Option.eq_none_iff_forall_ne_some]
    intro digits hdigits
    obtain ⟨text, htext, hprefix⟩ := locationAt_eq_some.mp hdigits
    obtain ⟨tail, rfl, _⟩ := htext.exists_tail
    exact h (List.cons_prefix_cons.mp hprefix).1.symm
  rw [firstLocation, hnone]

/-- A location at the front is the first one. -/
theorem firstLocation_of_locationAt (h : locationAt (c :: cs) = some digits) :
    firstLocation (c :: cs) = some digits := by
  rw [firstLocation, h]

/-- What holds no bracket is passed over. -/
theorem firstLocation_append_of_not_mem (h : '(' ∉ cs) (ds : List Char) :
    firstLocation (cs ++ ds) = firstLocation ds := by
  induction cs with
  | nil => rfl
  | cons c cs ih =>
      rw [List.mem_cons, not_or] at h
      rw [List.cons_append, firstLocation_cons_of_ne (Ne.symm h.1), ih h.2]

/-- No location goes past a character that none is written with. -/
theorem locationAt_append (hc : isInner c = false) (hne : cs ≠ []) (ds : List Char) :
    locationAt (cs ++ c :: ds) = locationAt cs := by
  apply Option.ext
  intro digits
  rw [locationAt_eq_some, locationAt_eq_some]
  refine exists_congr fun text => and_congr_right fun htext => ?_
  constructor
  · intro hprefix
    rcases List.prefix_or_prefix_of_prefix hprefix (List.prefix_append cs _) with hless | hmore
    · exact hless
    · obtain ⟨more, rfl⟩ := hmore
      cases more with
      | nil => simp
      | cons d more =>
          -- the location would go on with the character, and not from its bracket
          obtain ⟨rfl, _⟩ := List.cons_prefix_cons.mp ((List.prefix_append_right_inj cs).mp hprefix)
          obtain ⟨first, cs, rfl⟩ := List.exists_cons_of_ne_nil hne
          obtain ⟨tail, htail, hinner⟩ := htext.exists_tail
          obtain ⟨_, rfl⟩ := List.cons.inj htail
          rw [hinner d (by simp)] at hc
          exact absurd hc (by simp)
  · exact fun hprefix => hprefix.trans (List.prefix_append cs _)

/-- **The search goes part by part**, from one character that no location goes past to the next. -/
theorem firstLocation_append (hc : isInner c = false) (cs ds : List Char) :
    firstLocation (cs ++ c :: ds) = (firstLocation cs).or (firstLocation (c :: ds)) := by
  induction cs with
  | nil => rfl
  | cons first cs ih =>
      have hfirst := locationAt_append hc (List.cons_ne_nil first cs) ds
      rw [List.cons_append] at hfirst
      rw [List.cons_append, firstLocation, firstLocation, hfirst]
      split
      · rfl
      · exact ih

/-- The search finds what is the first location. -/
theorem firstLocation_eq_none :
    firstLocation cs = none ↔ ∀ digits text, IsLocation digits text → ¬ text <:+: cs := by
  induction cs with
  | nil =>
      refine iff_of_true rfl fun digits text htext hinfix => ?_
      obtain ⟨tail, rfl, _⟩ := htext.exists_tail
      exact absurd (List.infix_nil.mp hinfix) (by simp)
  | cons c cs ih =>
      -- an infix starts here or later on
      simp only [List.infix_cons_iff, not_or]
      rw [firstLocation]
      split
      · rename_i digits hdigits
        obtain ⟨text, htext, hprefix⟩ := locationAt_eq_some.mp hdigits
        exact iff_of_false (by simp) fun h => (h digits text htext).1 hprefix
      · rename_i hnone
        rw [ih]
        constructor
        · intro h digits text htext
          refine ⟨fun hprefix => ?_, h digits text htext⟩
          rw [locationAt_eq_some.mpr ⟨text, htext, hprefix⟩] at hnone
          exact absurd hnone (by simp)
        · exact fun h digits text htext => (h digits text htext).2

/-- The digits of the first location stand in the text. -/
theorem firstLocation_spec (h : firstLocation cs = some digits) :
    digits <:+: cs ∧ ∀ c ∈ digits, Text.isDigit c = true := by
  induction cs with
  | nil => exact absurd h (by simp [firstLocation])
  | cons c cs ih =>
      rw [firstLocation] at h
      split at h
      · rename_i line hline
        obtain rfl := Option.some.inj h
        obtain ⟨text, htext, hprefix⟩ := locationAt_eq_some.mp hline
        exact ⟨htext.line_isInfix.trans hprefix.isInfix, htext.line_isDigit⟩
      · obtain ⟨hpart, hdigits⟩ := ih h
        exact ⟨hpart.trans (List.suffix_cons c cs).isInfix, hdigits⟩

/-! ## The failure of a message -/

theorem malformed_of_eq_none {message : String} (h : firstLocation message.toList = none)
    (path : Option String) :
    malformed path message = .lockfile (.invalidToml message) ⟨none, path⟩ := by
  unfold malformed
  rw [h]

theorem malformed_of_eq_some {message : String} {digits : List Char}
    (h : firstLocation message.toList = some digits) (path : Option String) :
    malformed path message = if digits.length ≤ Number.digitLimit then
      .lockfile (.invalidToml message) ⟨some (Text.digitsValue digits), path⟩
    else .oversized (.read digits.length) := by
  unfold malformed Number.ofDigits
  rw [h]
  by_cases hshort : digits.length ≤ Number.digitLimit
  · simp only [if_pos hshort]
  · simp only [if_neg hshort]

/-! ## What is quoted -/

/-- The characters of a location stand in quotes as they are. -/
theorem escapeChar_of_isInner (hmark : mark ∈ Text.quoteMarks) (hc : c = '(' ∨ isInner c = true) :
    Text.escapeChar mark c = [c] := by
  have hfixed (h : c ∈ "(at line , column )".toList) : Text.escapeChar mark c = [c] := by
    rcases Text.quoteMark_cases hmark with rfl | rfl
    · exact of_decide_eq_true (List.all_eq_true.mp
        (show "(at line , column )".toList.all (fun c => Text.escapeChar '\'' c = [c]) = true by decide) c h)
    · exact of_decide_eq_true (List.all_eq_true.mp
        (show "(at line , column )".toList.all (fun c => Text.escapeChar '"' c = [c]) = true by decide) c h)
  rcases hc with rfl | hc
  · exact hfixed (by decide)
  · rw [isInner, Bool.or_eq_true, List.contains_iff_mem] at hc
    rcases hc with hdigit | hmem
    · exact Text.escapeChar_of_isDigit hmark hdigit
    · exact hfixed (List.mem_cons_of_mem _ hmem)

/-- A location that begins a text begins the text in quotes, and the other way round. -/
theorem prefix_escaped (hmark : mark ∈ Text.quoteMarks)
    (h : ∀ c ∈ text, c = '(' ∨ isInner c = true) (cs : List Char) :
    text <+: cs.flatMap (Text.escapeChar mark) ↔ text <+: cs := by
  induction text generalizing cs with
  | nil => exact iff_of_true List.nil_prefix List.nil_prefix
  | cons d text ih =>
      rw [List.forall_mem_cons] at h
      obtain ⟨hd, htext⟩ := h
      cases cs with
      | nil => rfl
      | cons c cs =>
          rw [List.flatMap_cons]
          rcases Text.escapeChar_cases hmark c with hplain | ⟨more, hescaped, _⟩
          · rw [hplain, List.singleton_append, List.cons_prefix_cons, List.cons_prefix_cons, ih htext cs]
          · rw [hescaped, List.cons_append, List.cons_prefix_cons, List.cons_prefix_cons]
            -- an escaped character is neither kept nor one of a location's own
            refine iff_of_false (fun hprefix => ?_) fun hprefix => ?_
            · obtain ⟨rfl, _⟩ := hprefix
              revert hd
              decide
            · obtain ⟨rfl, _⟩ := hprefix
              have hplain := escapeChar_of_isInner hmark hd
              rw [hescaped] at hplain
              obtain ⟨rfl, _⟩ := List.cons.inj hplain
              revert hd
              decide

/-- The characters of a text in quotes have the location that the text has. -/
theorem firstLocation_escaped (hmark : mark ∈ Text.quoteMarks) (cs : List Char) :
    firstLocation (cs.flatMap (Text.escapeChar mark)) = firstLocation cs := by
  induction cs with
  | nil => rfl
  | cons c cs ih =>
      rcases Text.escapeChar_cases hmark c with hplain | ⟨more, hescaped, hmore⟩
      · -- a location's characters are never escaped, so one that starts here starts here in both
        have hhere : locationAt (c :: cs.flatMap (Text.escapeChar mark)) = locationAt (c :: cs) := by
          apply Option.ext
          intro digits
          rw [locationAt_eq_some, locationAt_eq_some]
          refine exists_congr fun text => and_congr_right fun htext => ?_
          obtain ⟨tail, rfl, hinner⟩ := htext.exists_tail
          have hall : ∀ c ∈ '(' :: tail, c = '(' ∨ isInner c = true := by
            rw [List.forall_mem_cons]
            exact ⟨.inl rfl, fun c hc => .inr (hinner c hc)⟩
          rw [← prefix_escaped hmark hall (c :: cs), List.flatMap_cons, hplain,
            List.singleton_append]
        rw [List.flatMap_cons, hplain, List.singleton_append, firstLocation, firstLocation, hhere, ih]
      · have hne : c ≠ '(' := by
          rintro rfl
          have hplain := escapeChar_of_isInner hmark (.inl rfl : ('(' : Char) = '(' ∨ _)
          rw [hescaped] at hplain
          exact absurd (List.cons.inj hplain).1 (by decide)
        -- an escape holds no bracket, so no location starts inside it
        have hpass : '(' ∉ '\\' :: more := by
          rw [List.mem_cons, not_or]
          exact ⟨by decide, hmore⟩
        rw [List.flatMap_cons, hescaped, firstLocation_append_of_not_mem hpass, ih,
          firstLocation_cons_of_ne hne]

/-- **Quotes do not show to the search**, and it goes past them to what follows. -/
theorem firstLocation_quote (cs : List Char) (s : String) (ds : List Char) :
    firstLocation (cs ++ ((Text.quote s).toList ++ ds)) =
      (firstLocation cs).or ((firstLocation s.toList).or (firstLocation ds)) := by
  have hmark := Text.quoteMark_mem s.toList
  unfold Text.quote
  dsimp only
  rw [String.toList_ofList]
  generalize Text.quoteMark s.toList = mark at hmark ⊢
  have hbreak : isInner mark = false ∧ mark ≠ '(' := by
    rcases Text.quoteMark_cases hmark with rfl | rfl <;> decide
  rw [List.append_assoc, List.cons_append, List.singleton_append, firstLocation_append hbreak.1,
    firstLocation_cons_of_ne hbreak.2, firstLocation_append hbreak.1,
    firstLocation_cons_of_ne hbreak.2, firstLocation_escaped hmark]

end LockAudit.Lockfile.Cargo

import LockAudit.Proofs.Lockfile.Failing

/-!
# The line of a text that is no TOML

The decoder ends its message about a defect with the place where it stopped, and the line of
that place is what the failure should have. The line is taken from the first location in the
message, though, and some messages quote the document before they come to the place: a key
that is declared twice, or one under which nothing can be set any more.

`firstLocation_describe` says which location is the first one: that in the quoted texts
(`Defect.quoted`), and only without one there that of the place. So the failure has the line of
the place unless a quoted key spells a location, and then it has whichever line the key says.
-/

namespace LockAudit

namespace Toml

/-- What the message about a defect quotes. -/
def Defect.quoted : Defect → List String
  | .expectedQuote quote => [quote]
  | .declaredTwice key => key
  | .redefined key => key
  | .immutable key => key
  | .duplicateInlineKey name => [name]
  | .illegalCharacter c => [String.singleton c]
  | .invalidCharacter c => [String.singleton c]
  | _ => []

end Toml

namespace Lockfile.Cargo

variable {cs ds rest : List Char} {texts : List String} {defect : Toml.Defect}
  {path : Option String}

/-- Somewhere in the text stands what looks like a location. -/
def SpellsLocation (s : String) : Prop := ∃ digits text, IsLocation digits text ∧ text <:+: s.toList

/-- The digits of the line in the first location that several texts spell. -/
def locationIn (texts : List String) : Option (List Char) :=
  texts.findSome? fun s => firstLocation s.toList

theorem locationIn_eq_none : locationIn texts = none ↔ ∀ s ∈ texts, ¬ SpellsLocation s := by
  unfold locationIn SpellsLocation
  rw [List.findSome?_eq_none_iff]
  refine forall_congr' fun s => imp_congr_right fun _ => ?_
  rw [firstLocation_eq_none]
  simp only [not_exists, not_and]

theorem locationIn_cons (s : String) (texts : List String) :
    locationIn (s :: texts) = (firstLocation s.toList).or (locationIn texts) := by
  unfold locationIn
  rw [List.findSome?_cons]
  cases firstLocation s.toList <;> rfl

theorem locationIn_singleton (s : String) : locationIn [s] = firstLocation s.toList := by
  rw [locationIn_cons]
  exact Option.or_none

/-! ## Messages -/

/-- A quoted text behind others that spell nothing. -/
theorem firstLocation_quoted (hfree : firstLocation cs = none) (s : String) (ds : List Char) :
    firstLocation (cs ++ ((Text.quote s).toList ++ ds)) =
      (firstLocation s.toList).or (firstLocation ds) := by
  rw [firstLocation_quote, hfree, Option.none_or]

/-- Quoted texts with commas between them. -/
theorem firstLocation_parts (hfree : firstLocation cs = none) (hne : texts ≠ [])
    (ds : List Char) :
    firstLocation (cs ++ ((", ".intercalate (texts.map Text.quote)).toList ++ ds)) =
      (locationIn texts).or (firstLocation ds) := by
  induction texts generalizing cs with
  | nil => exact absurd rfl hne
  | cons s texts ih =>
      cases texts with
      | nil =>
          rw [List.map_singleton, String.intercalate_singleton, firstLocation_quoted hfree,
            locationIn_singleton]
      | cons t texts =>
          rw [List.map_cons, List.map_cons, String.intercalate_cons_cons, String.toList_append,
            String.toList_append, List.append_assoc, List.append_assoc, firstLocation_quoted hfree,
            ← List.map_cons, ih (by rfl) (List.cons_ne_nil t texts), locationIn_cons s,
            Option.or_assoc]

/-- What a message says before it quotes anything is passed over. -/
theorem firstLocation_before {before : String} (h : '(' ∉ before.toList) (after : String)
    (ds : List Char) :
    firstLocation ((before ++ after).toList ++ ds) = firstLocation (after.toList ++ ds) := by
  rw [String.toList_append, List.append_assoc, firstLocation_append_of_not_mem h]

theorem firstLocation_name (s : String) (ds : List Char) :
    firstLocation ((Text.quote s).toList ++ ds) = (locationIn [s]).or (firstLocation ds) := by
  have hempty : firstLocation [] = none := rfl
  rw [locationIn_singleton, ← List.nil_append ((Text.quote s).toList ++ ds),
    firstLocation_quoted hempty]

/-- A key is quoted part by part. -/
theorem firstLocation_key (key : Toml.Key) (ds : List Char) :
    firstLocation (key.shown.toList ++ ds) = (locationIn key).or (firstLocation ds) := by
  unfold Toml.Key.shown
  split
  · rename_i part
    rw [String.toList_append, String.toList_append, List.append_assoc, List.append_assoc,
      firstLocation_quoted (by rfl), locationIn_singleton,
      firstLocation_append_of_not_mem (by decide)]
  · rw [String.toList_append, String.toList_append, List.append_assoc, List.append_assoc]
    cases key with
    | nil => rfl
    | cons part parts =>
        rw [firstLocation_parts (by rfl) (List.cons_ne_nil part parts),
          firstLocation_append_of_not_mem (by decide)]

/-- **The first location in a message** is that in what it quotes, or else in what follows. -/
theorem firstLocation_message (defect : Toml.Defect) (ds : List Char) :
    firstLocation (defect.message.toList ++ ds) =
      (locationIn defect.quoted).or (firstLocation ds) := by
  cases defect with
  -- the words of a message have no location; what it quotes may have one
  | expectedQuote quote =>
      exact (firstLocation_before (by decide) _ ds).trans (firstLocation_name quote ds)
  | declaredTwice key =>
      change firstLocation (("Cannot declare " ++ key.shown ++ " twice").toList ++ ds) = _
      rw [String.toList_append, List.append_assoc, firstLocation_before (by decide),
        firstLocation_key, firstLocation_append_of_not_mem (by decide)]
      rfl
  | redefined key => exact (firstLocation_before (by decide) _ ds).trans (firstLocation_key key ds)
  | immutable key => exact (firstLocation_before (by decide) _ ds).trans (firstLocation_key key ds)
  | duplicateInlineKey name =>
      exact (firstLocation_before (by decide) _ ds).trans (firstLocation_name name ds)
  | illegalCharacter c =>
      exact (firstLocation_before (by decide) _ ds).trans
        (firstLocation_name (String.singleton c) ds)
  | invalidCharacter c =>
      exact (firstLocation_before (by decide) _ ds).trans
        (firstLocation_name (String.singleton c) ds)
  | _ => exact firstLocation_append_of_not_mem (by decide) ds

/-- The line at which the decoder stopped; none at the end of the document. -/
def decodedLine? (cs rest : List Char) : Option Nat := (Toml.place? (Toml.source cs) rest).map (·.1)

/-- The location that a message ends with: that of a line, or the end of the document. -/
inductive EndsAt (message : String) : Option Nat → Prop
  | line (text : String) (line column : Nat)
      (eq : message = text ++ " (at line " ++ toString line ++ ", column " ++ toString column ++ ")") :
      EndsAt message (some line)
  | document (text : String) (eq : message = text ++ " (at end of document)") : EndsAt message none

/-- The decoder says at which line it stopped. -/
theorem describe_endsAt (cs : List Char) (defect : Toml.Defect) (rest : List Char) :
    EndsAt (Toml.describe (Toml.source cs) defect rest) (decodedLine? cs rest) := by
  unfold Toml.describe decodedLine?
  cases Toml.place? (Toml.source cs) rest with
  | none =>
      refine .document defect.message ?_
      rw [String.append_assoc, String.append_assoc]
      rfl
  | some place =>
      refine .line defect.message place.1 place.2 ?_
      simp only [String.append_assoc]
      rfl

/-- The digits of the line that a message has first. -/
def foundLine? (cs : List Char) (defect : Toml.Defect) (rest : List Char) : Option (List Char) :=
  (locationIn defect.quoted).or ((decodedLine? cs rest).map (Nat.toDigits 10))

/-- The place that ends a message is a location. -/
theorem firstLocation_position (line column : Nat) :
    firstLocation (" (at ".toList ++
      (("line " ++ toString line ++ ", column " ++ toString column).toList ++ ")".toList)) =
        some (Nat.toDigits 10 line) := by
  have hdigit (n : Nat) : ∀ c ∈ Nat.toDigits 10 n, Text.isDigit c = true := fun _ hc =>
    Text.isDigit_of_isAsciiDigit (Number.isAsciiDigit_of_mem hc)
  have hplace : locationAt ("(at line ".toList ++ (Nat.toDigits 10 line ++
      (", column ".toList ++ (Nat.toDigits 10 column ++ [')'])))) = some (Nat.toDigits 10 line) :=
    locationAt_eq_some.mpr ⟨_, .written Nat.toDigits_ne_nil (hdigit line) Nat.toDigits_ne_nil
      (hdigit column), List.prefix_rfl⟩
  have htext : ("line " ++ toString line ++ ", column " ++ toString column).toList =
      "line ".toList ++ (Nat.toDigits 10 line ++ (", column ".toList ++ Nat.toDigits 10 column)) := by
    simp only [String.toList_append, List.append_assoc]
    change _ ++ (line.repr.toList ++ (_ ++ column.repr.toList)) = _
    rw [Nat.toList_repr, Nat.toList_repr]
  rw [htext]
  change firstLocation (' ' :: '(' :: _) = _
  rw [firstLocation_cons_of_ne (by decide)]
  refine firstLocation_of_locationAt ?_
  simp only [List.append_assoc]
  exact hplace

/-- **The first location in the message about a text** is that in what it quotes, or else that of
the place where the decoder stopped. -/
theorem firstLocation_describe (cs : List Char) (defect : Toml.Defect) (rest : List Char) :
    firstLocation (Toml.describe (Toml.source cs) defect rest).toList = foundLine? cs defect rest := by
  unfold Toml.describe foundLine? decodedLine?
  rw [String.toList_append, String.toList_append, String.toList_append, List.append_assoc,
    List.append_assoc, firstLocation_message]
  congr 1
  cases Toml.place? (Toml.source cs) rest with
  | none => rfl
  | some place => exact firstLocation_position place.1 place.2

/-! ## Failures -/

/-- Without a location in what is quoted the line is that of the decoder. -/
theorem malformed_decoded (hclear : locationIn defect.quoted = none)
    (hwritable : ∀ line, decodedLine? cs rest = some line → Number.isWritable line = true)
    (path : Option String) :
    malformed path (Toml.describe (Toml.source cs) defect rest) =
      .lockfile (.invalidToml (Toml.describe (Toml.source cs) defect rest))
        ⟨decodedLine? cs rest, path⟩ := by
  have hfirst := firstLocation_describe cs defect rest
  rw [foundLine?, hclear, Option.none_or] at hfirst
  cases hline : decodedLine? cs rest with
  | none =>
      rw [hline] at hfirst
      exact malformed_of_eq_none hfirst path
  | some line =>
      rw [hline] at hfirst
      rw [malformed_of_eq_some hfirst, Number.digitsValue_toDigits]
      exact if_pos (Number.length_toDigits_of_isWritable (hwritable line hline))

/-- A location in what is quoted takes the place of the decoder's. -/
theorem malformed_quoted {digits : List Char} (hspelled : locationIn defect.quoted = some digits)
    (hshort : digits.length ≤ Number.digitLimit) (path : Option String) :
    malformed path (Toml.describe (Toml.source cs) defect rest) =
      .lockfile (.invalidToml (Toml.describe (Toml.source cs) defect rest))
        ⟨some (Text.digitsValue digits), path⟩ := by
  have hfirst := firstLocation_describe cs defect rest
  rw [foundLine?, hspelled, Option.some_or] at hfirst
  rw [malformed_of_eq_some hfirst, if_pos hshort]

/-- The number of the first location is too long to be read. -/
theorem malformed_oversized :
    (∃ cause, malformed path (Toml.describe (Toml.source cs) defect rest) = .oversized cause) ↔
      ∃ digits, foundLine? cs defect rest = some digits ∧ Number.digitLimit < digits.length := by
  rw [← firstLocation_describe]
  cases hfirst : firstLocation (Toml.describe (Toml.source cs) defect rest).toList with
  | none =>
      rw [malformed_of_eq_none hfirst]
      simp
  | some digits =>
      rw [malformed_of_eq_some hfirst]
      split <;> simp <;> omega

theorem parse_malformed {bytes : List UInt8} (hbytes : Text.Utf8.decode bytes = .ok cs)
    (hdecode : Toml.decode cs = .error (.malformed defect rest)) (path : Option String) :
    Format.cargo.parse bytes path =
      .error (malformed path (Toml.describe (Toml.source cs) defect rest)) := by
  rw [Format.parse_of_decode hbytes]
  change parseText cs path = _
  unfold parseText
  rw [hdecode]
  rfl

/-- **Which line a text that is no TOML is refused on.** The message ends with the line at which
the decoder stopped. The failure has that line where nothing that the message quotes spells a
location, and none at the end of the document. Otherwise it has the line of the first location
that is quoted, and so the decoder's only if the two are the same. A number that is too long to be
read takes the place of the failure. -/
theorem locating_exact {bytes : List UInt8} (path : Option String)
    (hbytes : Text.Utf8.decode bytes = .ok cs)
    (hdecode : Toml.decode cs = .error (.malformed defect rest)) :
    EndsAt (Toml.describe (Toml.source cs) defect rest) (decodedLine? cs rest) ∧
    ((∀ s ∈ defect.quoted, ¬ SpellsLocation s) →
      (∀ line, decodedLine? cs rest = some line → Number.isWritable line = true) →
      Format.cargo.parse bytes path = .error (.lockfile
        (.invalidToml (Toml.describe (Toml.source cs) defect rest)) ⟨decodedLine? cs rest, path⟩)) ∧
    (∀ digits, locationIn defect.quoted = some digits → digits.length ≤ Number.digitLimit →
      Format.cargo.parse bytes path = .error (.lockfile
        (.invalidToml (Toml.describe (Toml.source cs) defect rest))
        ⟨some (Text.digitsValue digits), path⟩)) ∧
    ((∃ cause, Format.cargo.parse bytes path = .error (.oversized cause)) ↔
      ∃ digits, foundLine? cs defect rest = some digits ∧ Number.digitLimit < digits.length) ∧
    (∀ d line, Format.cargo.parse bytes path = .error (.lockfile d ⟨line, path⟩) →
      (line = decodedLine? cs rest ↔ (∀ s ∈ defect.quoted, ¬ SpellsLocation s) ∨
        ∃ digits, locationIn defect.quoted = some digits ∧
          decodedLine? cs rest = some (Text.digitsValue digits))) := by
  rw [parse_malformed hbytes hdecode]
  refine ⟨describe_endsAt cs defect rest, ?_, ?_, ?_, ?_⟩
  · intro hclear hwritable
    rw [malformed_decoded (locationIn_eq_none.mpr hclear) hwritable]
  · intro digits hspelled hshort
    rw [malformed_quoted hspelled hshort]
  · simp only [Except.error.injEq]
    exact malformed_oversized
  · intro d line hrefused
    rw [← locationIn_eq_none]
    have hrefused := Except.error.inj hrefused
    -- a number could be read, since the failure is not that of one
    have hshort : ∀ digits, foundLine? cs defect rest = some digits →
        digits.length ≤ Number.digitLimit := by
      intro digits hdigits
      by_contra hlong
      obtain ⟨cause, hcause⟩ := malformed_oversized.mpr ⟨digits, hdigits, Nat.lt_of_not_le hlong⟩
      exact absurd (hrefused.symm.trans hcause) (by simp)
    cases hspelled : locationIn defect.quoted with
    | none =>
        -- no quoted text spells a location, so the message has that of the decoder alone
        refine iff_of_true ?_ (.inl rfl)
        have hwritable : ∀ line, decodedLine? cs rest = some line →
            Number.isWritable line = true := by
          intro line hline
          rw [foundLine?, hspelled, hline] at hshort
          exact Number.length_toDigits_le_digitLimit.mp (hshort _ rfl)
        rw [malformed_decoded hspelled hwritable] at hrefused
        cases hrefused
        rfl
    | some digits =>
        -- a quoted text does, and it stands before that of the decoder
        rw [foundLine?, hspelled] at hshort
        rw [malformed_quoted hspelled (hshort digits rfl)] at hrefused
        cases hrefused
        simp [eq_comm]

/-- A table is declared twice, and its key spells a location. -/
def twiceDeclared : List Char :=
  "[\"(at line 9, column 1)\"]\n[\"(at line 9, column 1)\"]\n".toList

/-- The decoder stops on the second line, but the failure has the line that the key says. -/
theorem locating_exact_twiceDeclared :
    (∃ defect rest, Toml.decode twiceDeclared = .error (.malformed defect rest) ∧
      Toml.describe (Toml.source twiceDeclared) defect rest =
        "Cannot declare ('(at line 9, column 1)',) twice (at line 2, column 25)" ∧
      decodedLine? twiceDeclared rest = some 2) ∧
    Format.cargo.parse (Text.Utf8.encode twiceDeclared) none = .error (.lockfile (.invalidToml
      "Cannot declare ('(at line 9, column 1)',) twice (at line 2, column 25)") ⟨some 9, none⟩) := by
  have hdecode : Toml.decode twiceDeclared =
      .error (.malformed (.declaredTwice ["(at line 9, column 1)"]) "]\n".toList) :=
    Result.error_of_error? (by decide +kernel)
  have hmessage : Toml.describe (Toml.source twiceDeclared)
      (.declaredTwice ["(at line 9, column 1)"]) "]\n".toList =
        "Cannot declare ('(at line 9, column 1)',) twice (at line 2, column 25)" := by
    decide +kernel
  have hquoted : locationIn (Toml.Defect.declaredTwice ["(at line 9, column 1)"]).quoted =
      some ['9'] := by
    decide +kernel
  obtain ⟨_, _, hplaced, _⟩ := locating_exact none (Text.Utf8.decode_encode twiceDeclared) hdecode
  refine ⟨⟨_, _, hdecode, hmessage, by decide +kernel⟩, ?_⟩
  rw [hplaced ['9'] hquoted (by decide), hmessage]
  rfl

end Lockfile.Cargo

end LockAudit

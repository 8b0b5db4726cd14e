import LockAudit.Proofs.Suppression.Refusing
import LockAudit.Proofs.Value
import Mathlib.Data.List.Find

/-!
# What a suppression owes to its entry

A suppression accepts no more than its entry says: an expiry limits it in time, a version to
the versions in a range, an identifier to the advisories that bear it, and a name to one
package. A value that says none of these is to be refused.

Some values are passed over instead, as if they were not there: an expiry that counts as not
given, such as the empty text or zero; a version that is empty; and an identifier or a name
of white space alone. They are the hollow ones. `honouring_exact` says that a hollow value
is as good as none, and that an accepted entry without hollow values is honoured in all that
it says.
-/

namespace LockAudit

/-! ## Tables without a field -/

namespace Value

variable {fields : List (String × Value)} {key name : String}

/-- The fields of a table but those of one name. -/
def without (key : String) (fields : List (String × Value)) : List (String × Value) :=
  fields.filter (·.1 != key)

theorem lookup?_without_self : lookup? key (without key fields) = none := by
  induction fields with
  | nil => rfl
  | cons f fields ih =>
      unfold without at ih ⊢
      by_cases h : f.1 = key
      · rw [List.filter_cons_of_neg (by simp [h])]
        exact ih
      · rw [List.filter_cons_of_pos (by simp [h]), lookup?, if_neg h]
        exact ih

theorem lookup?_without (h : name ≠ key) :
    lookup? name (without key fields) = lookup? name fields := by
  induction fields with
  | nil => rfl
  | cons f fields ih =>
      unfold without at ih ⊢
      by_cases hkey : f.1 = key
      · rw [List.filter_cons_of_neg (by simp [hkey]), lookup?, if_neg (by rw [hkey]; exact h.symm)]
        exact ih
      · rw [List.filter_cons_of_pos (by simp [hkey]), lookup?, lookup?, ih]

theorem field_without_self : field key (without key fields) = .null := by
  unfold field
  rw [lookup?_without_self]
  rfl

theorem field_without (h : name ≠ key) : field name (without key fields) = field name fields := by
  unfold field
  rw [lookup?_without h]

end Value

namespace Suppression

variable {fields : List (String × Value)} {place : Place} {key name s : String}
  {sup : Suppression}

/-! ## Entries that are accepted -/

theorem ofValue_ok (h : ofValue place (.table fields) = .ok sup) :
    Opens fields sup.reason ∧ readVersion place fields = .ok sup.version ∧
      readExpires place fields = .ok sup.expires ∧
      sup.advisory = readName fields "id" ∧ sup.package = readName fields "package" := by
  rcases opens_or_refused place (.table fields) with ⟨_, reason, heq, hopens⟩ | ⟨d, hrefused⟩
  · cases heq
    rw [hopens.ofValue] at h
    obtain ⟨version, hversion, h⟩ := Result.bind_ok.mp h
    obtain ⟨expires, hexpires, h⟩ := Result.bind_ok.mp h
    dsimp only at h
    split at h
    · cases h
      exact ⟨hopens, hversion, hexpires, rfl, rfl⟩
    · exact absurd h (by simp [refuse])
  · rw [hrefused] at h
    exact absurd h (by simp [refuse])

/-- A name is read from a text that has anything but white space. -/
theorem readName_cases (fields : List (String × Value)) (key : String) :
    (∃ s, Value.field key fields = .text s ∧ Text.isBlankText s = false ∧
        readName fields key = some (Text.strip s)) ∨
      (∀ s, Value.field key fields = .text s → Text.isBlankText s = true) ∧
        readName fields key = none := by
  unfold readName
  cases hfield : Value.field key fields with
  | text s =>
      cases hblank : Text.isBlankText s with
      | false => exact Or.inl ⟨s, rfl, hblank, by simp [Value.text?, hblank]⟩
      | true =>
          refine Or.inr ⟨?_, by simp [Value.text?, hblank]⟩
          rintro t ⟨⟩
          exact hblank
  | _ => exact Or.inr ⟨fun s hs => absurd hs (by simp), rfl⟩

/-- An accepted version is a text that is not empty and its range, or is none. -/
theorem version_of_ok {version : Option VersionRange}
    (h : readVersion place fields = .ok version) :
    (∃ s range, Value.field "version" fields = .text s ∧ s ≠ "" ∧
        VersionRange.parse s = .ok range ∧ version = some range) ∨
      (∀ s, Value.field "version" fields = .text s → s = "") ∧ version = none := by
  rcases readVersion_cases place fields with
    ⟨hnone, heq⟩ | ⟨s, htext, hgiven, ⟨range, hrange, heq⟩ | ⟨fault, _, heq⟩⟩
  · cases heq.symm.trans h
    exact Or.inr ⟨hnone, rfl⟩
  · cases heq.symm.trans h
    exact Or.inl ⟨s, range, htext, hgiven, hrange, rfl⟩
  · exact absurd (heq.symm.trans h) (by simp)

/-- An accepted expiry is the instant that a given value is read as, or is none. -/
theorem expires_of_ok {expires : Option Calendar.Instant}
    (h : readExpires place fields = .ok expires) :
    (Value.field "expires" fields).isGiven = true ∧
        (∃ t, readExpiry (Value.field "expires" fields) = .ok t ∧ expires = some t) ∨
      (Value.field "expires" fields).isGiven = false ∧ expires = none := by
  rcases readExpires_cases place fields with
    ⟨hpassed, heq⟩ | ⟨hgiven, ⟨t, ht, heq⟩ | ⟨_, heq⟩ | ⟨_, _, heq⟩ | ⟨_, heq⟩⟩
  · cases heq.symm.trans h
    exact Or.inr ⟨hpassed, rfl⟩
  · cases heq.symm.trans h
    exact Or.inl ⟨hgiven, t, ht, rfl⟩
  · exact absurd (heq.symm.trans h) (by simp)
  · exact absurd (heq.symm.trans h) (by simp)
  · exact absurd (heq.symm.trans h) (by simp)

/-! ## Hollow values -/

/-- The value of a key is passed over as if it were not there. -/
inductive IsHollow (fields : List (String × Value)) (key : String) : Prop
  | expires (isExpires : key = "expires") (stated : Value.field key fields ≠ .null)
      (passed : (Value.field key fields).isGiven = false) : IsHollow fields key
  | version (isVersion : key = "version") (empty : Value.field key fields = .text "") :
      IsHollow fields key
  | name {s : String} (isName : key = "id" ∨ key = "package")
      (text : Value.field key fields = .text s) (blank : Text.isBlankText s = true) :
      IsHollow fields key

theorem unknownKeys_without (h : knownKeys.contains key = true) :
    unknownKeys (Value.without key fields) = unknownKeys fields := by
  have hkeys : ((Value.without key fields).map (·.1)).filter (!knownKeys.contains ·) =
      (fields.map (·.1)).filter (!knownKeys.contains ·) := by
    unfold Value.without
    rw [List.filter_map, List.filter_map, List.filter_filter]
    congr 1
    refine List.filter_congr fun f _ => ?_
    by_cases hkey : f.1 = key
    · rw [Function.comp_apply, hkey, h]
      rfl
    · simp [hkey]
  unfold unknownKeys
  rw [hkeys]

/-- A text is no reason to refuse its key, and neither is a missing value. -/
theorem keyNotText?_without
    (h : key = "expires" ∨ ∃ s, Value.lookup? key fields = some (.text s)) :
    keyNotText? (Value.without key fields) = keyNotText? fields := by
  unfold keyNotText?
  refine List.find?_congr fun name hname => ?_
  by_cases hkey : name = key
  · subst hkey
    rcases h with rfl | ⟨s, hs⟩
    · exact absurd hname (by decide)
    · rw [Value.lookup?_without_self, hs]
  · rw [Value.lookup?_without hkey]

namespace IsHollow

theorem known (h : IsHollow fields key) : knownKeys.contains key = true := by
  have hkey : key = "expires" ∨ key = "version" ∨ key = "id" ∨ key = "package" := by
    cases h with
    | expires isExpires => exact Or.inl isExpires
    | version isVersion => exact Or.inr (Or.inl isVersion)
    | name isName => exact Or.inr (Or.inr isName)
  rcases hkey with rfl | rfl | rfl | rfl <;> decide

theorem not_refused (h : IsHollow fields key) :
    key = "expires" ∨ ∃ s, Value.lookup? key fields = some (.text s) := by
  cases h with
  | expires isExpires => exact Or.inl isExpires
  | version _ empty => exact Or.inr ⟨_, Value.lookup?_of_text empty⟩
  | name _ text => exact Or.inr ⟨_, Value.lookup?_of_text text⟩

/-- A hollow value that is a text has nothing but white space. -/
theorem isBlankText (h : IsHollow fields key) (htext : Value.field key fields = .text s) :
    Text.isBlankText s = true := by
  cases h with
  | expires _ _ passed =>
      rw [htext] at passed
      obtain rfl : s = "" := by simpa [Value.isGiven] using passed
      decide
  | version _ empty =>
      cases htext.symm.trans empty
      decide
  | name _ text blank =>
      cases htext.symm.trans text
      exact blank

/-- The empty text is the only hollow version. -/
theorem eq_empty (h : IsHollow fields "version") : Value.field "version" fields = .text "" := by
  cases h with
  | expires isExpires => exact absurd isExpires (by decide)
  | version _ empty => exact empty
  | name isName => exact absurd isName (by decide)

theorem isGiven_eq_false (h : IsHollow fields "expires") :
    (Value.field "expires" fields).isGiven = false := by
  cases h with
  | expires _ _ passed => exact passed
  | version isVersion => exact absurd isVersion (by decide)
  | name isName => exact absurd isName (by decide)

theorem readName (h : IsHollow fields key) (name : String) :
    readName (Value.without key fields) name = readName fields name := by
  by_cases hkey : name = key
  · subst hkey
    rcases readName_cases fields name with ⟨s, htext, hgiven, _⟩ | ⟨_, hnone⟩
    · exact absurd ((h.isBlankText htext).symm.trans hgiven) (by simp)
    · rw [hnone]
      unfold Suppression.readName
      rw [Value.field_without_self]
      rfl
  · unfold Suppression.readName
    rw [Value.field_without hkey]

theorem readVersion (h : IsHollow fields key) :
    readVersion place (Value.without key fields) = readVersion place fields := by
  unfold Suppression.readVersion
  by_cases hkey : "version" = key
  · subst hkey
    rw [Value.field_without_self, h.eq_empty]
    rfl
  · rw [Value.field_without hkey]

theorem readExpires (h : IsHollow fields key) :
    readExpires place (Value.without key fields) = readExpires place fields := by
  unfold Suppression.readExpires
  by_cases hkey : "expires" = key
  · subst hkey
    have hnull : Value.null.isGiven = false := rfl
    rw [Value.field_without_self]
    dsimp only
    rw [h.isGiven_eq_false, hnull]
    rfl
  · rw [Value.field_without hkey]

/-- **A hollow value is as good as none.** -/
theorem ofValue (h : IsHollow fields key) :
    ofValue place (.table (Value.without key fields)) = ofValue place (.table fields) := by
  simp only [Suppression.ofValue, unknownKeys_without h.known, keyNotText?_without h.not_refused,
    h.readName, h.readVersion, h.readExpires]

end IsHollow

/-! ## What an accepted entry comes to -/

/-- The suppression is limited in all ways that the entry says. -/
structure Honours (sup : Suppression) (fields : List (String × Value)) : Prop where
  expires : Value.field "expires" fields ≠ .null → sup.expires.isSome = true
  version : ∀ s, Value.field "version" fields = .text s →
    ∃ range, VersionRange.parse s = .ok range ∧ sup.version = some range
  advisory : ∀ s, Value.field "id" fields = .text s → sup.advisory = some (Text.strip s)
  package : ∀ s, Value.field "package" fields = .text s → sup.package = some (Text.strip s)

/-- The entry speaks of an advisory in a dependency, by what it says that is not hollow. -/
structure SpeaksOf (fields : List (String × Value)) (n : Lockfile.Node) (r : Advisory.Record) :
    Prop where
  advisory : ∀ s, Value.field "id" fields = .text s → Text.isBlankText s = false →
    r.hasIdentifier (Text.strip s) = true
  package : ∀ s, Value.field "package" fields = .text s → Text.isBlankText s = false →
    PackageName.agree (Text.strip s) n.name = true
  version : ∀ s, Value.field "version" fields = .text s → s ≠ "" →
    ∃ range, VersionRange.parse s = .ok range ∧ range.holds n.version.toPrecedence = true

theorem all_readName {p : String → Bool} : (readName fields key).all p = true ↔
    ∀ s, Value.field key fields = .text s → Text.isBlankText s = false → p (Text.strip s) = true := by
  rcases readName_cases fields key with ⟨t, htext, hblank, hname⟩ | ⟨hblank, hname⟩
  · rw [hname, Option.all_some, htext]
    refine ⟨?_, fun h => h t rfl hblank⟩
    rintro h s ⟨⟩ _
    exact h
  · rw [hname, Option.all_none]
    refine ⟨?_, fun _ => rfl⟩
    intro _ s hs hgiven
    exact absurd ((hblank s hs).symm.trans hgiven) (by simp)

theorem applies_iff (h : ofValue place (.table fields) = .ok sup) {n : Lockfile.Node}
    {r : Advisory.Record} : sup.applies n r = true ↔ SpeaksOf fields n r := by
  obtain ⟨_, hversion, _, hadvisory, hpackage⟩ := ofValue_ok h
  -- a version that is not given, or is the empty text, limits nothing
  have hlimited : (sup.version.all fun range => range.holds n.version.toPrecedence) = true ↔
      ∀ s, Value.field "version" fields = .text s → s ≠ "" →
        ∃ range, VersionRange.parse s = .ok range ∧ range.holds n.version.toPrecedence = true := by
    rcases version_of_ok hversion with ⟨t, range, htext, hgiven, hrange, heq⟩ | ⟨hempty, heq⟩
    · rw [heq, Option.all_some, htext]
      refine ⟨?_, ?_⟩
      · rintro hholds s ⟨⟩ _
        exact ⟨range, hrange, hholds⟩
      · intro hall
        obtain ⟨range', hrange', hholds⟩ := hall t rfl hgiven
        rwa [Except.ok.inj (hrange.symm.trans hrange')]
    · rw [heq, Option.all_none]
      exact ⟨fun _ s hs hgiven => absurd (hempty s hs) hgiven, fun _ => rfl⟩
  unfold applies
  rw [Bool.and_eq_true, Bool.and_eq_true, hadvisory, hpackage, all_readName, all_readName, hlimited]
  refine ⟨?_, ?_⟩
  · rintro ⟨⟨hid, hname⟩, hrange⟩
    exact ⟨hid, hname, hrange⟩
  · intro hspeaks
    exact ⟨⟨hspeaks.advisory, hspeaks.package⟩, hspeaks.version⟩

theorem honours_iff (h : ofValue place (.table fields) = .ok sup) :
    sup.Honours fields ↔ ∀ key, ¬ IsHollow fields key := by
  obtain ⟨_, hversion, hexpires, hadvisory, hpackage⟩ := ofValue_ok h
  refine ⟨?_, ?_⟩
  · intro hhonours key hhollow
    -- each hollow value is one that is passed over, and so is not honoured
    cases hhollow with
    | expires isExpires stated passed =>
        subst isExpires
        have hsome := hhonours.expires stated
        rcases expires_of_ok hexpires with ⟨hgiven, _⟩ | ⟨_, hnone⟩
        · exact absurd (hgiven.symm.trans passed) (by simp)
        · rw [hnone] at hsome
          exact absurd hsome (by simp)
    | version isVersion empty =>
        subst isVersion
        obtain ⟨range, _, hsome⟩ := hhonours.version _ empty
        rcases version_of_ok hversion with ⟨s, _, htext, hgiven, _⟩ | ⟨_, hnone⟩
        · exact hgiven (Value.text.inj (htext.symm.trans empty))
        · exact absurd (hsome.symm.trans hnone) (by simp)
    | @name s isName text blank =>
        have hnone : readName fields key = none := by
          rcases readName_cases fields key with ⟨t, htext, hgiven, _⟩ | ⟨_, hnone⟩
          · cases htext.symm.trans text
            exact absurd (blank.symm.trans hgiven) (by simp)
          · exact hnone
        rcases isName with rfl | rfl
        · exact absurd ((hhonours.advisory s text).symm.trans (hadvisory.trans hnone)) (by simp)
        · exact absurd ((hhonours.package s text).symm.trans (hpackage.trans hnone)) (by simp)
  · intro hfull
    -- a name that is not hollow is not blank, and is taken without the blanks around it
    have hname {key : String} (hkey : key = "id" ∨ key = "package") (s : String)
        (hs : Value.field key fields = .text s) : readName fields key = some (Text.strip s) := by
      rcases readName_cases fields key with ⟨t, htext, _, hname⟩ | ⟨hblank, _⟩
      · cases htext.symm.trans hs
        exact hname
      · exact absurd (.name hkey hs (hblank s hs)) (hfull key)
    -- expiry, versions, advisory and package, each as the entry states it
    refine ⟨?_, ?_, ?_, ?_⟩
    · intro hgiven
      rcases expires_of_ok hexpires with ⟨_, t, _, hsome⟩ | ⟨hpassed, _⟩
      · rw [hsome]
        rfl
      · exact absurd (.expires rfl hgiven hpassed) (hfull _)
    · intro s hs
      rcases version_of_ok hversion with ⟨t, range, htext, _, hrange, hsome⟩ | ⟨hempty, _⟩
      · cases htext.symm.trans hs
        exact ⟨range, hrange, hsome⟩
      · exact absurd (.version rfl (by rw [hs, hempty s hs])) (hfull _)
    · intro s hs
      rw [hadvisory, hname (Or.inl rfl) s hs]
    · intro s hs
      rw [hpackage, hname (Or.inr rfl) s hs]

/-- **How far an accepted entry is honoured.** A hollow value changes nothing. The suppression
of an accepted entry is limited in all ways that the entry says exactly if no value is hollow.
In any case it applies to what the entry speaks of, and it ends when a given expiry says. -/
theorem honouring_exact (place : Place) (fields : List (String × Value)) :
    (∀ key, IsHollow fields key →
        ofValue place (.table (Value.without key fields)) = ofValue place (.table fields)) ∧
      ∀ sup, ofValue place (.table fields) = .ok sup →
        (sup.Honours fields ↔ ∀ key, ¬ IsHollow fields key) ∧
        (∀ n r, sup.applies n r = true ↔ SpeaksOf fields n r) ∧
        ∀ t, sup.expires = some t ↔ (Value.field "expires" fields).isGiven = true ∧
          readExpiry (Value.field "expires" fields) = .ok t := by
  refine ⟨fun key h => h.ofValue, ?_⟩
  intro sup h
  refine ⟨honours_iff h, fun n r => applies_iff h, ?_⟩
  intro t
  obtain ⟨_, _, hexpires, _, _⟩ := ofValue_ok h
  rcases expires_of_ok hexpires with ⟨hgiven, t', hreads, hsome⟩ | ⟨hpassed, hnone⟩
  · rw [hsome, hreads, hgiven]
    simp
  · rw [hnone, hpassed]
    simp

/-- An acceptance whose end is no instant. -/
def neverEnding : List (String × Value) :=
  [("id", .text "A"), ("expires", .int 0), ("reason", .text "accepted")]

/-- A zero for the end is passed over, and the acceptance lasts for ever. -/
theorem honouring_exact_neverEnding :
    ∃ sup, ofValue {} (.table neverEnding) = .ok sup ∧ sup.expires = none ∧
      ¬ sup.Honours neverEnding := by
  have haccepted : (ofValue {} (.table neverEnding)).toOption.isSome = true := by decide +kernel
  obtain ⟨sup, hsup⟩ := Result.isSome_toOption.mp haccepted
  have hexpires : Value.field "expires" neverEnding = .int 0 := by
    simp [neverEnding, Value.field, Value.lookup?]
  have hhollow : IsHollow neverEnding "expires" :=
    .expires rfl (by rw [hexpires]; simp) (by rw [hexpires]; rfl)
  obtain ⟨hhonours, _, hends⟩ := (honouring_exact {} neverEnding).2 sup hsup
  refine ⟨sup, hsup, ?_, ?_⟩
  · rw [Option.eq_none_iff_forall_ne_some]
    intro t ht
    exact absurd (hends t |>.mp ht).1 (by rw [hexpires]; decide)
  · intro h
    exact hhonours.mp h "expires" hhollow

end Suppression

end LockAudit

import LockAudit.Proofs.Number.Integer
import LockAudit.Proofs.Result
import LockAudit.Proofs.Text.Words
import LockAudit.Toml.Decode
import Mathlib.Data.List.Basic

/-!
# What the readers of TOML leave

Each reader takes a text from its front and gives back the rest. That the rest is an end of
the text is shown reader by reader, from the characters up to the statements, so that the
place of a statement can be told from what follows it.
-/

namespace LockAudit.Toml

variable {cs rest : List Char}

/-! ## White space and comments -/

theorem skip_suffix (cs : List Char) : skip cs <:+ cs := List.dropWhile_suffix _

theorem skipComment_suffix (h : skipComment cs = .ok rest) : rest <:+ cs := by
  unfold skipComment at h
  split at h
  · split at h
    · exact absurd h (by simp)
    · cases h
      exact (List.dropWhile_suffix _).trans (List.suffix_cons _ _)
  · cases h
    exact List.suffix_refl _

theorem skipLinesWithin_suffix {fuel : Nat} (h : skipLinesWithin fuel cs = .ok rest) :
    rest <:+ cs := by
  induction fuel generalizing cs with
  | zero =>
      cases h
      exact List.suffix_refl _
  | succ fuel ih =>
      have hspace : cs.dropWhile isSpaceOrNewline <:+ cs := List.dropWhile_suffix _
      unfold skipLinesWithin at h
      split at h
      · rename_i hcomment
        obtain ⟨after, hafter, h⟩ := Result.bind_ok.mp h
        rw [hcomment] at hspace
        exact ((ih h).trans (skipComment_suffix hafter)).trans hspace
      · cases h
        exact hspace

theorem skipLines_suffix (h : skipLines cs = .ok rest) : rest <:+ cs := skipLinesWithin_suffix h

/-! ## Strings -/

theorem takeUntil_suffix {quote inside : List Char} {illegal : Char → Bool}
    (h : takeUntil quote illegal cs = .ok (inside, rest)) : rest <:+ cs := by
  unfold takeUntil at h
  split at h
  · exact absurd h (by simp)
  · rename_i hsplit
    split at h
    · exact absurd h (by simp)
    · cases h
      exact ⟨_, (List.append_assoc _ _ _).trans (Text.append_of_splitFirst? hsplit)⟩

theorem readHexChar_suffix {width : Nat} {c : Char} (h : readHexChar width cs = .ok (c, rest)) :
    rest <:+ cs := by
  unfold readHexChar at h
  dsimp only at h
  split at h
  · split at h
    · cases h
      exact List.drop_suffix _ _
    · exact absurd h (by simp)
  · exact absurd h (by simp)

theorem skipLineEnd_suffix {c : Char} (h : skipLineEnd c cs = .ok rest) : rest <:+ cs := by
  unfold skipLineEnd at h
  split at h
  · cases h
    exact List.dropWhile_suffix _
  · have hskip := skip_suffix cs
    split at h
    · cases h
      exact List.nil_suffix
    · rename_i hline
      cases h
      rw [hline] at hskip
      exact (List.dropWhile_suffix _).trans ((List.suffix_cons _ _).trans hskip)
    · exact absurd h (by simp)

theorem readEscape_suffix {multiline : Bool} {chars : List Char}
    (h : readEscape multiline cs = .ok (chars, rest)) : rest <:+ cs := by
  unfold readEscape at h
  split at h
  · exact absurd h (by simp)
  · rename_i c after
    have hafter : after <:+ c :: after := List.suffix_cons _ _
    split at h
    · obtain ⟨after', hend, h⟩ := Result.bind_ok.mp h
      cases h
      exact (skipLineEnd_suffix hend).trans hafter
    · split at h
      · obtain ⟨⟨d, after'⟩, hhex, h⟩ := Result.bind_ok.mp h
        cases h
        exact (readHexChar_suffix hhex).trans hafter
      · split at h
        · obtain ⟨⟨d, after'⟩, hhex, h⟩ := Result.bind_ok.mp h
          cases h
          exact (readHexChar_suffix hhex).trans hafter
        · split at h
          · cases h
            exact hafter
          · exact absurd h (by simp)

theorem readBasicWithin_suffix {multiline : Bool} {fuel : Nat} {read chars : List Char}
    (h : readBasicWithin multiline fuel read cs = .ok (chars, rest)) : rest <:+ cs := by
  induction fuel generalizing read cs with
  | zero => exact absurd h (by simp [readBasicWithin])
  | succ fuel ih =>
      unfold readBasicWithin at h
      split at h
      · exact absurd h (by simp)
      · -- a quotation mark: the end, the end of three, or a character of a multiline text
        rename_i after
        have hafter : after <:+ '"' :: after := List.suffix_cons _ _
        split at h
        · cases h
          exact hafter
        · split at h
          · cases h
            exact (List.suffix_append ['"', '"', '"'] _)
          · exact (ih h).trans hafter
      · rename_i after
        obtain ⟨⟨chars', after'⟩, hescape, h⟩ := Result.bind_ok.mp h
        exact ((ih h).trans (readEscape_suffix hescape)).trans (List.suffix_cons _ _)
      · split at h <;> split at h
        · exact absurd h (by simp)
        · exact (ih h).trans (List.suffix_cons _ _)
        · exact absurd h (by simp)
        · exact (ih h).trans (List.suffix_cons _ _)

theorem takeExtraQuotes_suffix (quote : Char) (inside cs : List Char) :
    (takeExtraQuotes quote inside cs).2 <:+ cs := by
  unfold takeExtraQuotes
  split
  · split
    · split
      · exact List.suffix_append [_, _] _
      · exact List.suffix_cons _ _
    · exact List.suffix_refl _
  · split
    · exact List.nil_suffix
    · exact List.suffix_refl _
  · exact List.suffix_refl _

theorem dropFirstNewline_suffix (cs : List Char) : dropFirstNewline cs <:+ cs := by
  unfold dropFirstNewline
  split
  · exact List.suffix_cons _ _
  · exact List.suffix_refl _

theorem readString?_suffix {forKey : Bool} {s : String}
    (h : readString? forKey cs = some (.ok (s, rest))) : rest <:+ cs := by
  unfold readString? at h
  split at h
  · split at h
    · rename_i after
      obtain ⟨⟨inside, after'⟩, hinside, h⟩ := Result.bind_ok.mp (Option.some.inj h)
      cases h
      refine (takeExtraQuotes_suffix _ _ _).trans ((readBasicWithin_suffix hinside).trans ?_)
      exact (dropFirstNewline_suffix _).trans (List.suffix_append ['"', '"', '"'] _)
    · obtain ⟨⟨inside, after'⟩, hinside, h⟩ := Result.bind_ok.mp (Option.some.inj h)
      cases h
      exact (readBasicWithin_suffix hinside).trans (List.suffix_cons _ _)
  · split at h
    · rename_i after
      obtain ⟨⟨inside, after'⟩, hinside, h⟩ := Result.bind_ok.mp (Option.some.inj h)
      cases h
      refine (takeExtraQuotes_suffix _ _ _).trans ((takeUntil_suffix hinside).trans ?_)
      exact (dropFirstNewline_suffix _).trans (List.suffix_append ['\'', '\'', '\''] _)
    · obtain ⟨⟨inside, after'⟩, hinside, h⟩ := Result.bind_ok.mp (Option.some.inj h)
      cases h
      exact (takeUntil_suffix hinside).trans (List.suffix_cons _ _)
  · exact absurd h (by simp)

/-! ## Numbers, dates and times -/

theorem takeGrouped_go_suffix {isDigit : Char → Bool} (taken cs : List Char) :
    (takeGrouped.go isDigit taken cs).2 <:+ cs := by
  fun_induction takeGrouped.go isDigit taken cs with
  | case1 taken c rest hc ih => exact ih.trans (List.suffix_append ['_', c] _)
  | case2 => exact List.suffix_refl _
  | case3 taken c rest hrun hc ih => exact ih.trans (List.suffix_cons _ _)
  | case4 => exact List.suffix_refl _
  | case5 => exact List.suffix_refl _

theorem takeGrouped_suffix (isDigit : Char → Bool) (cs : List Char) :
    (takeGrouped isDigit cs).2 <:+ cs := by
  unfold takeGrouped
  split
  · exact List.suffix_refl _
  · split
    · exact (takeGrouped_go_suffix _ _).trans (List.suffix_cons _ _)
    · exact List.suffix_refl _

theorem takeBased_suffix {base : Nat} {isDigit : Char → Bool} {v : Value}
    (h : takeBased base isDigit cs = some (v, rest)) : rest <:+ cs := by
  unfold takeBased at h
  dsimp only at h
  split at h
  · exact absurd h (by simp)
  · cases h
    exact takeGrouped_suffix _ _

theorem takeWhole_suffix {digits : List Char} (h : takeWhole cs = some (digits, rest)) :
    rest <:+ cs := by
  unfold takeWhole at h
  split at h
  · cases h
    exact List.suffix_cons _ _
  · dsimp only at h
    split at h
    · exact absurd h (by simp)
    · cases h
      exact takeGrouped_suffix _ _

theorem takeFraction_suffix (cs : List Char) : (takeFraction cs).2 <:+ cs := by
  unfold takeFraction
  split
  · dsimp only
    split
    · exact List.suffix_refl _
    · exact (takeGrouped_suffix _ _).trans (List.suffix_cons _ _)
  · exact List.suffix_refl _

theorem takeExponent_suffix (cs : List Char) : (takeExponent cs).2 <:+ cs := by
  unfold takeExponent
  split
  · dsimp only
    split
    · split
      · exact List.suffix_refl _
      · exact ((takeGrouped_suffix _ _).trans (Number.takeSign_suffix _)).trans (List.suffix_cons _ _)
    · exact List.suffix_refl _
  · exact List.suffix_refl _

theorem readDecimal?_suffix {v : Value} (h : readDecimal? cs = some (.ok (v, rest))) :
    rest <:+ cs := by
  unfold readDecimal? at h
  dsimp only at h
  obtain ⟨⟨whole, after⟩, hwhole, h⟩ := Option.bind_eq_some_iff.mp h
  have hafter : (takeExponent (takeFraction after).2).2 <:+ cs :=
    ((takeExponent_suffix _).trans (takeFraction_suffix _)).trans
      ((takeWhole_suffix hwhole).trans (Number.takeSign_suffix _))
  dsimp only at h
  split at h
  · split at h
    · cases h
      exact hafter
    · exact absurd h (by simp)
  · cases h
    exact hafter

theorem readNumber?_suffix {v : Value} (h : readNumber? cs = some (.ok (v, rest))) :
    rest <:+ cs := by
  unfold readNumber? at h
  dsimp only at h
  split at h
  · rename_i found hfound
    cases h
    split at hfound
    · exact (takeBased_suffix hfound).trans (List.suffix_append ['0', 'x'] _)
    · exact (takeBased_suffix hfound).trans (List.suffix_append ['0', 'b'] _)
    · exact (takeBased_suffix hfound).trans (List.suffix_append ['0', 'o'] _)
    · exact absurd hfound (by simp)
  · exact readDecimal?_suffix h

theorem takeDigits_suffix {n m : Nat} (h : Calendar.Iso.takeDigits n cs = some (m, rest)) :
    rest <:+ cs := by
  unfold Calendar.Iso.takeDigits at h
  dsimp only at h
  split at h
  · cases h
    exact List.drop_suffix _ _
  · exact absurd h (by simp)

theorem takeField_suffix {width low high n : Nat} (h : takeField width low high cs = some (n, rest)) :
    rest <:+ cs := by
  obtain ⟨⟨m, after⟩, hdigits, h⟩ := Option.bind_eq_some_iff.mp h
  dsimp only at h
  split at h
  · cases h
    exact takeDigits_suffix hdigits
  · exact absurd h (by simp)

theorem takeChar_suffix {c : Char} (h : takeChar c cs = some rest) : rest <:+ cs := by
  unfold takeChar at h
  split at h
  · cases h
    exact List.tail_suffix _
  · exact absurd h (by simp)

theorem takeMicros_suffix (cs : List Char) : (takeMicros cs).2 <:+ cs := by
  unfold takeMicros
  split
  · dsimp only
    split
    · exact List.suffix_refl _
    · exact (List.drop_suffix _ _).trans (List.suffix_cons _ _)
  · exact List.suffix_refl _

theorem takeTime_suffix {t : Calendar.Time} (h : takeTime cs = some (t, rest)) : rest <:+ cs := by
  obtain ⟨⟨hour, r₁⟩, h₁, h⟩ := Option.bind_eq_some_iff.mp h
  obtain ⟨r₂, h₂, h⟩ := Option.bind_eq_some_iff.mp h
  obtain ⟨⟨minute, r₃⟩, h₃, h⟩ := Option.bind_eq_some_iff.mp h
  obtain ⟨r₄, h₄, h⟩ := Option.bind_eq_some_iff.mp h
  obtain ⟨⟨second, r₅⟩, h₅, h⟩ := Option.bind_eq_some_iff.mp h
  obtain ⟨time, _, h⟩ := Option.bind_eq_some_iff.mp h
  cases h
  have hminute := (takeField_suffix h₃).trans ((takeChar_suffix h₂).trans (takeField_suffix h₁))
  have hsecond := (takeField_suffix h₅).trans ((takeChar_suffix h₄).trans hminute)
  exact (takeMicros_suffix _).trans hsecond

theorem takeOffset_suffix (cs : List Char) : (takeOffset cs).2 <:+ cs := by
  unfold takeOffset
  split
  · exact List.suffix_refl _
  · split
    · exact List.suffix_cons _ _
    · split
      · split
        · rename_i hoffset
          obtain ⟨⟨hour, r₁⟩, h₁, h⟩ := Option.bind_eq_some_iff.mp hoffset
          obtain ⟨r₂, h₂, h⟩ := Option.bind_eq_some_iff.mp h
          obtain ⟨⟨minute, r₃⟩, h₃, h⟩ := Option.bind_eq_some_iff.mp h
          cases h
          refine ((takeField_suffix h₃).trans (takeChar_suffix h₂)).trans ?_
          exact (takeField_suffix h₁).trans (List.suffix_cons _ _)
        · exact List.suffix_refl _
      · exact List.suffix_refl _

theorem takeClock_suffix {t : Calendar.Time} {offset : Option Int}
    (h : takeClock cs = some (t, offset, rest)) : rest <:+ cs := by
  unfold takeClock at h
  split at h
  · split at h
    · obtain ⟨⟨time, after⟩, htime, h⟩ := Option.bind_eq_some_iff.mp h
      cases h
      exact (takeOffset_suffix _).trans ((takeTime_suffix htime).trans (List.suffix_cons _ _))
    · exact absurd h (by simp)
  · exact absurd h (by simp)

theorem readDate?_suffix {v : Value} (h : readDate? cs = some (.ok (v, rest))) : rest <:+ cs := by
  obtain ⟨⟨year, r₁⟩, h₁, h⟩ := Option.bind_eq_some_iff.mp h
  obtain ⟨r₂, h₂, h⟩ := Option.bind_eq_some_iff.mp h
  obtain ⟨⟨month, r₃⟩, h₃, h⟩ := Option.bind_eq_some_iff.mp h
  obtain ⟨r₄, h₄, h⟩ := Option.bind_eq_some_iff.mp h
  obtain ⟨⟨day, r₅⟩, h₅, h⟩ := Option.bind_eq_some_iff.mp h
  have hmonth := (takeField_suffix h₃).trans ((takeChar_suffix h₂).trans (takeDigits_suffix h₁))
  have hday := (takeField_suffix h₅).trans ((takeChar_suffix h₄).trans hmonth)
  dsimp only at h
  split at h
  · exact absurd h (by simp)
  · split at h
    · rename_i hclock
      cases h
      exact (takeClock_suffix hclock).trans hday
    · cases h
      exact hday

theorem readScalar_suffix {v : Value} (h : readScalar cs = .ok (v, rest)) : rest <:+ cs := by
  unfold readScalar at h
  split at h
  · cases h
    exact List.drop_suffix _ _
  · split at h
    · cases h
      exact List.drop_suffix _ _
    · split at h
      · rename_i result hdate
        rw [h] at hdate
        exact readDate?_suffix hdate
      · split at h
        · rename_i htime
          cases h
          exact takeTime_suffix htime
        · split at h
          · rename_i result hnumber
            rw [h] at hnumber
            exact readNumber?_suffix hnumber
          · split at h
            · cases h
              exact List.drop_suffix _ _
            · exact absurd h (by simp)

/-! ## Keys and values -/

variable {fuel : Nat} {v : Value} {d d' : Document} {key : Key}

theorem readKeyPart_suffix {part : String} (h : readKeyPart cs = .ok (part, rest)) :
    rest <:+ cs := by
  unfold readKeyPart at h
  dsimp only at h
  split at h
  · cases hstring : readString? true cs with
    | none =>
        rw [hstring] at h
        exact absurd h (by simp)
    | some result =>
        rw [hstring, Option.getD_some] at h
        rw [h] at hstring
        exact readString?_suffix hstring
  · cases h
    exact List.drop_suffix _ _

theorem readKeyWithin_suffix (h : readKeyWithin fuel cs = .ok (key, rest)) : rest <:+ cs := by
  induction fuel generalizing cs key with
  | zero => exact absurd h (by simp [readKeyWithin])
  | succ fuel ih =>
      obtain ⟨⟨part, after⟩, hpart, h⟩ := Result.bind_ok.mp h
      have hafter : skip after <:+ cs := (skip_suffix after).trans (readKeyPart_suffix hpart)
      dsimp only at h
      split at h
      · rename_i hdot
        obtain ⟨⟨parts, after'⟩, hparts, h⟩ := Result.bind_ok.mp h
        cases h
        rw [hdot] at hafter
        exact ((ih hparts).trans (skip_suffix _)).trans ((List.suffix_cons _ _).trans hafter)
      · cases h
        exact hafter

theorem readKey_suffix (h : readKey cs = .ok (key, rest)) : rest <:+ cs := readKeyWithin_suffix h

/-- A key has a part. -/
theorem readKey_ne_nil (h : readKey cs = .ok (key, rest)) : key ≠ [] := by
  obtain ⟨⟨part, after⟩, _, h⟩ := Result.bind_ok.mp h
  dsimp only at h
  split at h
  · obtain ⟨_, _, h⟩ := Result.bind_ok.mp h
    cases h
    exact List.cons_ne_nil _ _
  · cases h
    exact List.cons_ne_nil _ _

theorem readKeyAndEquals_of_ok (h : readKeyAndEquals cs = .ok (key, rest)) :
    ∃ after, readKey cs = .ok (key, '=' :: after) ∧ rest = skip after := by
  obtain ⟨⟨key', after⟩, hkey, h⟩ := Result.bind_ok.mp h
  dsimp only at h
  split at h
  · cases h
    exact ⟨_, hkey, rfl⟩
  · exact absurd h (by simp)

theorem readKeyAndEquals_suffix (h : readKeyAndEquals cs = .ok (key, rest)) : rest <:+ cs := by
  obtain ⟨after, hkey, rfl⟩ := readKeyAndEquals_of_ok h
  exact (skip_suffix after).trans ((List.suffix_cons _ _).trans (readKey_suffix hkey))

/-- By induction on the bound, for the three readers at once. -/
theorem read_suffix (fuel : Nat) :
    (∀ cs v rest, readValue fuel cs = .ok (v, rest) → rest <:+ cs) ∧
    (∀ read cs v rest, readItems fuel read cs = .ok (v, rest) → rest <:+ cs) ∧
    (∀ frozen read cs v rest, readInlineFields fuel frozen read cs = .ok (v, rest) →
      rest <:+ cs) := by
  induction fuel with
  | zero => simp [readValue, readItems, readInlineFields]
  | succ fuel ih =>
      obtain ⟨ihValue, ihItems, ihFields⟩ := ih
      -- a reader goes on behind a mark
      have hmark {c : Char} {before after cs : List Char} (h : skipLines before = .ok (c :: after))
          (hbefore : before <:+ cs) : after <:+ cs :=
        (List.suffix_cons c after).trans ((skipLines_suffix h).trans hbefore)
      refine ⟨?_, ?_, ?_⟩
      · intro cs v rest h
        unfold readValue at h
        split at h
        · -- a list, which may go over several lines
          rename_i after
          obtain ⟨after', hlines, h⟩ := Result.bind_ok.mp h
          have hafter : after <:+ '[' :: after := List.suffix_cons _ _
          split at h
          · cases h
            exact hmark hlines hafter
          · exact (ihItems _ _ _ _ h).trans ((skipLines_suffix hlines).trans hafter)
        · -- an inline table, which may not
          rename_i after
          have hafter : skip after <:+ '\x7b' :: after :=
            (skip_suffix after).trans (List.suffix_cons _ _)
          split at h
          · rename_i hclose
            cases h
            rw [hclose] at hafter
            exact (List.suffix_cons _ _).trans hafter
          · exact (ihFields _ _ _ _ _ h).trans hafter
        · -- a text in quotes, or a value without
          split at h
          · rename_i hstring
            obtain ⟨⟨s, after⟩, hs, h⟩ := Result.bind_ok.mp h
            cases h
            rw [hs] at hstring
            exact readString?_suffix hstring
          · exact readScalar_suffix h
      · intro read cs v rest h
        unfold readItems at h
        obtain ⟨⟨item, after⟩, hitem, h⟩ := Result.bind_ok.mp h
        -- behind an item stands a bracket, or a comma and then perhaps one more item
        have hitem := ihValue _ _ _ hitem
        obtain ⟨after', hlines, h⟩ := Result.bind_ok.mp h
        split at h
        · cases h
          exact hmark hlines hitem
        · have hcomma := hmark hlines hitem
          obtain ⟨after'', hlines', h⟩ := Result.bind_ok.mp h
          split at h
          · cases h
            exact hmark hlines' hcomma
          · exact (ihItems _ _ _ _ h).trans ((skipLines_suffix hlines').trans hcomma)
        · exact absurd h (by simp)
      · intro frozen read cs v rest h
        unfold readInlineFields at h
        obtain ⟨⟨key, after⟩, hkey, h⟩ := Result.bind_ok.mp h
        obtain ⟨⟨value, after'⟩, hvalue, h⟩ := Result.bind_ok.mp h
        -- a key that is taken already ends the reading; else a bracket or a comma follows
        have hafter : skip after' <:+ cs :=
          (skip_suffix _).trans ((ihValue _ _ _ hvalue).trans (readKeyAndEquals_suffix hkey))
        dsimp only at h
        split at h
        · exact absurd h (by simp)
        · split at h
          · exact absurd h (by simp)
          · split at h
            · exact absurd h (by simp)
            · split at h
              · rename_i hclose
                cases h
                rw [hclose] at hafter
                exact (List.suffix_cons _ _).trans hafter
              · rename_i hcomma
                rw [hcomma] at hafter
                have hmore := (skip_suffix _).trans ((List.suffix_cons _ _).trans hafter)
                exact (ihFields _ _ _ _ _ h).trans hmore
              · exact absurd h (by simp)

end LockAudit.Toml

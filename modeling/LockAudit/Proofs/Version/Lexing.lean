import LockAudit.Proofs.Version.Text
import LockAudit.Version.Expression
import Mathlib.Data.List.Chain

/-!
# The tokens of a range expression

`Spaced` says that a text shows tokens one after another, with white space wherever it
likes. One text may show several lists of tokens in this way: `1.0` shows the version
`1.0`, and also the versions `1.` and `0`.

Reading goes on with an operator or a version for as long as there are characters of its
kind. `Lexed` adds just that, each token ends where no such character follows, and then
there is one list of tokens, the one that is read (`tokens_eq_ok`). Where neighbours cannot
be taken for one token anyway, `Lexed` follows from `Spaced`.
-/

namespace LockAudit.VersionRange

variable {cs gap rest : List Char} {t : Token} {ts us : List Token} {fuel : Nat}

/-- There is nothing but white space. -/
def IsGap (cs : List Char) : Prop := ∀ c ∈ cs, Text.isBlank c = true

/-- The token is written as tokens of its kind are. -/
def Token.IsProper : Token → Prop
  | .op text mark => (text, mark) ∈ marks
  | .version text => text.toList ≠ [] ∧ ∀ c ∈ text.toList, isVersionChar c = true
  | _ => True

/-- A token of this kind goes on with the character. -/
def Token.goesOn : Token → Char → Bool
  | .op _ _ => isMarkChar
  | .version _ => isVersionChar
  | _ => fun _ => false

/-- The text shows the tokens, with white space around them allowed. -/
inductive Spaced : List Token → List Char → Prop
  | nil {gap : List Char} (blank : IsGap gap) : Spaced [] gap
  | cons {gap rest : List Char} {t : Token} {ts : List Token} (blank : IsGap gap)
      (more : Spaced ts rest) : Spaced (t :: ts) (gap ++ (t.text.toList ++ rest))

/-- The text shows the tokens, and each of them ends where its characters do. -/
inductive Lexed : List Token → List Char → Prop
  | nil {gap : List Char} (blank : IsGap gap) : Lexed [] gap
  | cons {gap rest : List Char} {t : Token} {ts : List Token} (blank : IsGap gap)
      (proper : t.IsProper) (ends : ∀ c ∈ rest.head?, t.goesOn c = false)
      (more : Lexed ts rest) : Lexed (t :: ts) (gap ++ (t.text.toList ++ rest))

/-! ## Kinds of characters -/

theorem isMarkChar_cases {c : Char} (h : isMarkChar c = true) :
    c = '<' ∨ c = '>' ∨ c = '=' ∨ c = '!' ∨ c = '~' ∨ c = '^' := by
  unfold isMarkChar at h
  simp only [Bool.or_eq_true, decide_eq_true_iff] at h
  tauto

theorem isBlank_of_isMarkChar {c : Char} (h : isMarkChar c = true) : Text.isBlank c = false := by
  rcases isMarkChar_cases h with rfl | rfl | rfl | rfl | rfl | rfl <;> decide

theorem isVersionChar_cases {c : Char} (h : isVersionChar c = true) :
    Version.isPartChar c = true ∨ c = '+' := by
  unfold isVersionChar at h
  rwa [Bool.or_eq_true, decide_eq_true_iff] at h

theorem isBlank_of_isVersionChar {c : Char} (h : isVersionChar c = true) :
    Text.isBlank c = false := by
  rcases isVersionChar_cases h with h | rfl
  · exact Version.isBlank_of_isPartChar h
  · decide

theorem isMarkChar_of_isVersionChar {c : Char} (h : isVersionChar c = true) :
    isMarkChar c = false := by
  cases hmark : isMarkChar c with
  | false => rfl
  | true =>
      rcases isMarkChar_cases hmark with rfl | rfl | rfl | rfl | rfl | rfl <;>
        exact absurd h (by decide)

/-- No token goes on with white space. -/
theorem Token.goesOn_of_isBlank {c : Char} (h : Text.isBlank c = true) (t : Token) :
    t.goesOn c = false := by
  cases hgoes : t.goesOn c with
  | false => rfl
  | true =>
      cases t with
      | op text mark => exact absurd h (by rw [isBlank_of_isMarkChar hgoes]; simp)
      | version text => exact absurd h (by rw [isBlank_of_isVersionChar hgoes]; simp)
      | or => exact absurd hgoes (by simp [Token.goesOn])
      | and => exact absurd hgoes (by simp [Token.goesOn])
      | star => exact absurd hgoes (by simp [Token.goesOn])

/-! ## Tokens -/

/-- Every operator is a run of its characters, and is found by its text. -/
theorem marks_proper : ∀ m ∈ marks,
    m.1.toList ≠ [] ∧ m.1.toList.all isMarkChar = true ∧ marks.lookup m.1 = some m.2 := by
  decide

theorem Token.IsProper.head (h : t.IsProper) :
    ∃ c more, t.text.toList = c :: more ∧ Text.isBlank c = false := by
  cases t with
  | or => exact ⟨'|', ['|'], rfl, by decide⟩
  | and => exact ⟨',', [], rfl, by decide⟩
  | star => exact ⟨'*', [], rfl, by decide⟩
  | op text mark =>
      obtain ⟨hne, hchars, _⟩ := marks_proper _ h
      obtain ⟨c, more, heq⟩ := List.exists_cons_of_ne_nil hne
      rw [heq, List.all_cons, Bool.and_eq_true] at hchars
      exact ⟨c, more, heq, isBlank_of_isMarkChar hchars.1⟩
  | version text =>
      obtain ⟨hne, hchars⟩ := h
      obtain ⟨c, more, heq⟩ := List.exists_cons_of_ne_nil hne
      refine ⟨c, more, heq, isBlank_of_isVersionChar (hchars c ?_)⟩
      rw [heq]
      exact List.mem_cons_self

theorem lookup_marks {op : String} {mark : Mark} (h : marks.lookup op = some mark) :
    (op, mark) ∈ marks := by
  obtain ⟨before, after, heq, _⟩ := List.lookup_eq_some_iff.mp h
  rw [heq]
  simp

/-! ## Reading tokens -/

/-- What begins with none of the signs is an operator, a version or no token. -/
theorem tokensWithin_run {c : Char} {more : List Char}
    (hdrop : cs.dropWhile Text.isBlank = c :: more) (hor : c ≠ '|') (hand : c ≠ ',')
    (hstar : c ≠ '*') :
    tokensWithin (fuel + 1) cs =
      if isMarkChar c then do
        let op := String.ofList (c :: more.takeWhile isMarkChar)
        match marks.lookup op with
        | some mark => pure (.op op mark :: (← tokensWithin fuel (more.dropWhile isMarkChar)))
        | none => throw (.unknownComparator op)
      else if isVersionChar c then do
        let version := String.ofList (c :: more.takeWhile isVersionChar)
        pure (.version version :: (← tokensWithin fuel (more.dropWhile isVersionChar)))
      else .error (.unexpectedCharacter c) := by
  -- none of the cases before the last one is of this character
  rw [tokensWithin, hdrop]
  split
  · rename_i heq
    exact absurd heq (by simp)
  · rename_i heq
    exact absurd (List.cons.inj heq).1 hor
  · rename_i heq
    exact absurd (List.cons.inj heq).1 hand
  · rename_i heq
    exact absurd (List.cons.inj heq).1 hstar
  · rename_i heq
    obtain ⟨rfl, rfl⟩ := List.cons.inj heq
    rfl

theorem ne_of_isMarkChar {c : Char} (h : isMarkChar c = true) : c ≠ '|' ∧ c ≠ ',' ∧ c ≠ '*' := by
  rcases isMarkChar_cases h with rfl | rfl | rfl | rfl | rfl | rfl <;> decide

theorem ne_of_isVersionChar {c : Char} (h : isVersionChar c = true) :
    c ≠ '|' ∧ c ≠ ',' ∧ c ≠ '*' := by
  refine ⟨?_, ?_, ?_⟩
  all_goals
    rintro rfl
    exact absurd h (by decide)

/-- **Step.** A token at the start of the text is read, and then what follows. -/
theorem tokensWithin_token (hgap : IsGap gap) (ht : t.IsProper)
    (hends : ∀ c ∈ rest.head?, t.goesOn c = false) :
    tokensWithin (fuel + 1) (gap ++ (t.text.toList ++ rest)) =
      tokensWithin fuel rest >>= fun ts => pure (t :: ts) := by
  obtain ⟨c, more, htext, hblank⟩ := ht.head
  have hdrop : (gap ++ (t.text.toList ++ rest)).dropWhile Text.isBlank = t.text.toList ++ rest := by
    refine (Text.span_run hgap fun d hd => ?_).2
    rw [htext] at hd
    obtain rfl : c = d := Option.some.inj hd
    exact hblank
  -- the three signs are read by their first characters, marks and versions by a run of theirs
  cases t with
  | or => rw [tokensWithin, hdrop]; rfl
  | and => rw [tokensWithin, hdrop]; rfl
  | star => rw [tokensWithin, hdrop]; rfl
  | op text mark =>
      obtain ⟨_, hchars, hlookup⟩ := marks_proper _ ht
      replace htext : text.toList = c :: more := htext
      rw [htext, List.all_cons, Bool.and_eq_true, List.all_eq_true] at hchars
      obtain ⟨hc, hmore⟩ := hchars
      -- a mark never starts like one of the signs, which are tried first
      obtain ⟨hor, hand, hstar⟩ := ne_of_isMarkChar hc
      obtain ⟨htake, hrest⟩ := Text.span_run hmore hends
      have hwhole : String.ofList (c :: more) = text := by rw [← htext, String.ofList_toList]
      rw [Token.text, htext, List.cons_append] at hdrop ⊢
      rw [tokensWithin_run hdrop hor hand hstar, if_pos hc, htake, hrest, hwhole]
      simp only [hlookup]
  | version text =>
      obtain ⟨_, hchars⟩ := ht
      replace htext : text.toList = c :: more := htext
      rw [htext, List.forall_mem_cons] at hchars
      obtain ⟨hc, hmore⟩ := hchars
      obtain ⟨hor, hand, hstar⟩ := ne_of_isVersionChar hc
      obtain ⟨htake, hrest⟩ := Text.span_run hmore hends
      have hwhole : String.ofList (c :: more) = text := by rw [← htext, String.ofList_toList]
      rw [Token.text, htext, List.cons_append] at hdrop ⊢
      rw [tokensWithin_run hdrop hor hand hstar, if_neg (by simp [isMarkChar_of_isVersionChar hc]),
        if_pos hc, htake, hrest, hwhole]

theorem Token.IsProper.length_pos (h : t.IsProper) : 0 < t.text.toList.length := by
  obtain ⟨c, more, htext, _⟩ := h.head
  rw [htext]
  exact Nat.succ_pos _

/-- **Run.** The tokens that end where their characters do are those that are read. -/
theorem tokensWithin_of_lexed (h : Lexed ts cs) (hfuel : cs.length ≤ fuel) :
    tokensWithin fuel cs = .ok ts := by
  induction h generalizing fuel with
  | nil hgap =>
      cases fuel with
      | zero => rfl
      | succ fuel => rw [tokensWithin, List.dropWhile_eq_nil_iff.mpr hgap]
  | cons hgap hproper hends _ ih =>
      have hpos := hproper.length_pos
      rw [List.length_append, List.length_append] at hfuel
      cases fuel with
      | zero => omega
      | succ fuel =>
          rw [tokensWithin_token hgap hproper hends, ih (by omega)]
          rfl

/-- What is left after the white space is a token and the rest, so the text shows it. -/
theorem Lexed.of_token (hdrop : cs.dropWhile Text.isBlank = t.text.toList ++ rest)
    (ht : t.IsProper) (hends : ∀ c ∈ rest.head?, t.goesOn c = false) (hfuel : cs.length ≤ fuel + 1)
    (ih : ∀ {ts}, tokensWithin fuel rest = .ok ts → rest.length ≤ fuel → Lexed ts rest)
    (h : tokensWithin fuel rest >>= (fun ts => pure (t :: ts)) = .ok ts) :
    Lexed ts cs := by
  obtain ⟨us, hus, h⟩ := Result.bind_ok.mp h
  cases h
  have hwhole : cs = cs.takeWhile Text.isBlank ++ (t.text.toList ++ rest) := by
    rw [← hdrop, List.takeWhile_append_dropWhile]
  have hpos := ht.length_pos
  rw [hwhole, List.length_append, List.length_append] at hfuel
  rw [hwhole]
  exact .cons (fun c hc => List.mem_takeWhile_imp hc) ht hends (ih hus (by omega))

theorem head?_dropWhile {p : Char → Bool} : ∀ c ∈ (cs.dropWhile p).head?, p c = false := by
  intro c hc
  have hstop := List.head?_dropWhile_not p cs
  rwa [Option.mem_def.mp hc] at hstop

/-- **Run.** What is read as tokens ends where its characters do. -/
theorem lexed_of_tokensWithin (h : tokensWithin fuel cs = .ok ts) (hfuel : cs.length ≤ fuel) :
    Lexed ts cs := by
  fun_induction tokensWithin fuel cs generalizing ts with
  | case1 cs =>
      cases h
      rw [List.length_eq_zero_iff.mp (Nat.le_zero.mp hfuel)]
      exact .nil (by simp [IsGap])
  | case2 fuel cs hdrop =>
      cases h
      exact .nil (List.dropWhile_eq_nil_iff.mp hdrop)
  | case3 fuel cs rest hdrop ih =>
      exact .of_token (t := .or) hdrop trivial (by simp [Token.goesOn]) hfuel ih h
  | case4 fuel cs rest hdrop ih =>
      exact .of_token (t := .and) hdrop trivial (by simp [Token.goesOn]) hfuel ih h
  | case5 fuel cs rest hdrop ih =>
      exact .of_token (t := .star) hdrop trivial (by simp [Token.goesOn]) hfuel ih h
  -- the run of mark characters is the longest there is, so what follows does not go on with it
  | case6 fuel cs c rest _ _ _ hdrop hc op mark hlookup =>
      rename_i ih
      have hwhole : cs.dropWhile Text.isBlank = op.toList ++ rest.dropWhile isMarkChar := by
        rw [hdrop, String.toList_ofList, List.cons_append, List.takeWhile_append_dropWhile]
      exact .of_token (t := .op op mark) hwhole (lookup_marks hlookup) head?_dropWhile hfuel ih h
  | case7 => exact absurd h (by simp)
  | case8 fuel cs c rest _ _ _ hdrop _ hc version =>
      rename_i ih
      have htext : version.toList = c :: rest.takeWhile isVersionChar := String.toList_ofList
      have hwhole : cs.dropWhile Text.isBlank =
          version.toList ++ rest.dropWhile isVersionChar := by
        rw [hdrop, htext, List.cons_append, List.takeWhile_append_dropWhile]
      have hproper : (Token.version version).IsProper := by
        refine ⟨?_, ?_⟩
        · rw [htext]
          simp
        · rw [htext, List.forall_mem_cons]
          exact ⟨hc, fun d hd => List.mem_takeWhile_imp hd⟩
      exact .of_token (t := .version version) hwhole hproper head?_dropWhile hfuel ih h
  | case9 => exact absurd h (by simp)

/-- **The tokens of a text.** -/
theorem tokens_eq_ok : tokens cs = .ok ts ↔ Lexed ts cs :=
  ⟨fun h => lexed_of_tokensWithin h le_rfl, fun h => tokensWithin_of_lexed h le_rfl⟩

/-! ## Tokens that stand apart -/

/-- The tokens are not taken for one token, even with nothing between them. -/
def Token.EndsBefore (t u : Token) : Prop := ∀ c ∈ u.text.toList.head?, t.goesOn c = false

theorem Lexed.isProper (h : Lexed ts cs) : ∀ t ∈ ts, t.IsProper := by
  induction h with
  | nil _ => simp
  | cons _ hproper _ _ ih =>
      rw [List.forall_mem_cons]
      exact ⟨hproper, ih⟩

theorem Lexed.spaced (h : Lexed ts cs) : Spaced ts cs := by
  induction h with
  | nil hgap => exact .nil hgap
  | cons hgap _ _ _ ih => exact .cons hgap ih

/-- A text begins with white space or with the beginning of its first token. -/
theorem Spaced.head? (h : Spaced ts cs) (hproper : ∀ t ∈ ts, t.IsProper) :
    ∀ c ∈ cs.head?, Text.isBlank c = true ∨ ∃ t ∈ ts.head?, c ∈ t.text.toList.head? := by
  intro c hc
  cases h with
  | nil hgap => exact Or.inl (hgap c (List.mem_of_head? hc))
  | @cons gap rest t ts hgap _ =>
      cases gap with
      | cons d gap => exact Or.inl (hgap c (List.mem_of_head? hc))
      | nil =>
          obtain ⟨d, more, htext, _⟩ := (hproper t List.mem_cons_self).head
          refine Or.inr ⟨t, rfl, ?_⟩
          rw [htext] at hc ⊢
          exact hc

/-- **Proper tokens that stand apart are read as they are shown.** -/
theorem Spaced.lexed (h : Spaced ts cs) (hproper : ∀ t ∈ ts, t.IsProper)
    (happart : ts.IsChain Token.EndsBefore) :
    Lexed ts cs := by
  induction h with
  | nil hgap => exact .nil hgap
  | @cons gap rest t ts hgap hmore ih =>
      rw [List.forall_mem_cons] at hproper
      rw [List.isChain_cons] at happart
      refine .cons hgap hproper.1 (fun c hc => ?_) (ih hproper.2 happart.2)
      rcases hmore.head? hproper.2 c hc with hblank | ⟨u, hu, hc⟩
      · exact t.goesOn_of_isBlank hblank
      · exact happart.1 u hu c hc

/-! ## Texts one after the other -/

theorem Spaced.gap_append (h : Spaced ts cs) (hgap : IsGap gap) : Spaced ts (gap ++ cs) := by
  have hboth {gap' : List Char} (hgap' : IsGap gap') : IsGap (gap ++ gap') :=
    List.forall_mem_append.mpr ⟨hgap, hgap'⟩
  cases h with
  | nil hgap' => exact .nil (hboth hgap')
  | cons hgap' hmore =>
      rw [← List.append_assoc]
      exact .cons (hboth hgap') hmore

theorem Spaced.append {ds : List Char} (h : Spaced ts cs) (h' : Spaced us ds) :
    Spaced (ts ++ us) (cs ++ ds) := by
  induction h with
  | nil hgap => exact h'.gap_append hgap
  | cons hgap _ ih =>
      rw [List.append_assoc, List.append_assoc]
      exact .cons hgap ih

/-- Two tokens with nothing between them. -/
theorem Spaced.pair (t u : Token) : Spaced [t, u] (t.text ++ u.text).toList := by
  have hempty : IsGap [] := List.forall_mem_nil _
  have h : Spaced [t, u] ([] ++ (t.text.toList ++ ([] ++ (u.text.toList ++ [])))) :=
    .cons hempty (.cons hempty (.nil hempty))
  rwa [List.nil_append, List.nil_append, List.append_nil, ← String.toList_append] at h

theorem Spaced.isInfix (h : Spaced ts cs) : ∀ t ∈ ts, t.text.toList <:+: cs := by
  induction h with
  | nil _ => simp
  | @cons gap rest t ts _ _ ih =>
      rw [List.forall_mem_cons]
      refine ⟨⟨gap, rest, by simp⟩, fun u hu => (ih u hu).trans ?_⟩
      exact ((List.suffix_append _ _).trans (List.suffix_append _ _)).isInfix

end LockAudit.VersionRange

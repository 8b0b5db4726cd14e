import LockAudit.Proofs.Version.Lexing

/-!
# Which texts are range expressions

An expression is groups with `||` between them, a group is clauses with commas between
them, and a clause is a star, or a version that may leave out its last numbers, with an
operator before it or none. `Expression` is this grammar, and with every expression it
says which groups of comparators the expression stands for.

White space may stand around the tokens of an expression. Cutting a text into tokens goes
on with an operator or a version as long as it can; in an expression this never takes two
tokens for one, because an operator is followed by a version, and a version by a comma, a
`||` or nothing. So a text is read exactly if it spells an expression, as long as no number
in it is too long.
-/

namespace LockAudit.VersionRange

variable {whole text : String} {ts rest : List Token} {g : Group}

/-! ## The grammar -/

/-- An operator, with what it stands for. -/
structure Sign where
  text : String
  mark : Mark
  known : (text, mark) ∈ marks

/-- A version that may leave out its minor and patch numbers. Only a version with all its
numbers has a pre-release or a build part. -/
structure PartialText where
  written : Version.Written
  proper : written.IsProper Text.isAsciiDigit

/-- A clause. -/
inductive Clause where
  | star
  | bare (version : PartialText)
  | marked (sign : Sign) (version : PartialText)

/-- A group: clauses with commas between them. -/
inductive Clauses where
  | one (c : Clause)
  | more (c : Clause) (rest : Clauses)

/-- An expression: groups with `||` between them. -/
inductive Expression where
  | one (g : Clauses)
  | more (g : Clauses) (rest : Expression)

/-- The token of a version. -/
def PartialText.token (p : PartialText) : Token := .version (String.ofList p.written.text)

/-- The token of an operator. -/
def Sign.token (s : Sign) : Token := .op s.text s.mark

/-- The tokens of a clause. -/
def Clause.tokens : Clause → List Token
  | .star => [.star]
  | .bare version => [version.token]
  | .marked sign version => [sign.token, version.token]

/-- The tokens of a group. -/
def Clauses.tokens : Clauses → List Token
  | .one c => c.tokens
  | .more c rest => c.tokens ++ .and :: rest.tokens

/-- The tokens of an expression. -/
def Expression.tokens : Expression → List Token
  | .one g => g.tokens
  | .more g rest => g.tokens ++ .or :: rest.tokens

/-- The text is the expression, with white space around its tokens. -/
def Expression.Spells (e : Expression) (text : String) : Prop := Spaced e.tokens text.toList

/-! ## What an expression stands for -/

/-- The version that a text cut into parts stands for, with the numbers that it gives. -/
def partialOf (w : Version.Written) : Partial := {
  major := w.value.major
  minor := w.numbers[1]?.map fun _ => w.value.minor
  patch := w.numbers[2]?.map fun _ => w.value.patch
  version := w.value }

/-- The comparators of a clause. A star asks for nothing, and a version alone for itself. -/
def Clause.comparators : Clause → Group
  | .star => []
  | .bare version => (Mark.plain .eq).expand (partialOf version.written)
  | .marked sign version => sign.mark.expand (partialOf version.written)

/-- The comparators of a group. -/
def Clauses.comparators : Clauses → Group
  | .one c => c.comparators
  | .more c rest => c.comparators ++ rest.comparators

/-- The groups of an expression. -/
def Expression.groups : Expression → List Group
  | .one g => [g.comparators]
  | .more g rest => g.comparators :: rest.groups

/-- No number in the clause has too many digits to be read. -/
def Clause.Fits : Clause → Prop
  | .star => True
  | .bare version => version.written.Fits
  | .marked _ version => version.written.Fits

/-- No number in the group has too many digits to be read. -/
def Clauses.Fits : Clauses → Prop
  | .one c => c.Fits
  | .more c rest => c.Fits ∧ rest.Fits

/-- No number in the expression has too many digits to be read. -/
def Expression.Fits : Expression → Prop
  | .one g => g.Fits
  | .more g rest => g.Fits ∧ rest.Fits

/-! ## Versions -/

/-- Among the characters of versions, the digits are the plain ones. -/
theorem isAsciiDigit_of_isVersionChar {c : Char} (h : isVersionChar c = true)
    (hdigit : Text.isDigit c = true) : Text.isAsciiDigit c = true := by
  have hcode : c.toNat < 128 := by
    rcases isVersionChar_cases h with h | rfl
    · have := Version.visible_of_isPartChar h
      omega
    · decide
  unfold Text.isDigit Text.digitValue? at hdigit
  rw [if_pos hcode] at hdigit
  split at hdigit
  · rename_i hrange
    unfold Text.isAsciiDigit
    simpa using hrange
  · exact absurd hdigit (by simp)

theorem PartialText.read? (v : PartialText) :
    Version.Written.read? v.written.text = some v.written :=
  Version.Written.read?_iff.mpr
    ⟨v.proper.isCut fun _ => Text.isDigit_of_isAsciiDigit, rfl⟩

theorem PartialText.isVersionChar (v : PartialText) :
    ∀ c ∈ v.written.text, isVersionChar c = true := by
  intro c hc
  unfold VersionRange.isVersionChar
  rcases v.proper.isVersionChar c hc with hc | rfl
  · rw [hc]
    rfl
  · rfl

/-- Only a version with all its numbers has further parts. -/
theorem full_iff {w : Version.Written} (hcount : w.numbers.length ≤ 3) :
    ¬ ((w.pre.isSome || w.build.isSome) && w.numbers.length < 3) = true ↔
      (w.pre.isSome ∨ w.build.isSome → w.numbers.length = 3) := by
  rw [Bool.and_eq_true, Bool.or_eq_true, decide_eq_true_iff, not_and]
  refine ⟨fun h hparts => ?_, fun h hparts => ?_⟩
  · have := h hparts
    omega
  · have := h hparts
    omega

/-- **A version of an expression is read** if no number in it is too long. -/
theorem readPartial_version {v : PartialText} (h : v.written.Fits) :
    readPartial whole (String.ofList v.written.text) = .ok (partialOf v.written) := by
  have hcut : v.written.IsCut := v.proper.isCut fun _ => Text.isDigit_of_isAsciiDigit
  have hversion : v.written.toVersion (String.ofList v.written.text) = .ok v.written.value :=
    (Version.toVersion_eq_ok hcut).mpr ⟨v.proper.pre, v.proper.build, h, rfl⟩
  unfold readPartial
  rw [String.toList_ofList, v.read?]
  simp only
  rw [if_neg ((full_iff v.proper.count).mpr v.proper.full), hversion]
  rfl

/-- What is read as a version is one of the grammar, if it is made of the characters of
versions. -/
theorem version_of_readPartial (hchars : ∀ c ∈ text.toList, isVersionChar c = true) {p : Partial}
    (h : readPartial whole text = .ok p) :
    ∃ v : PartialText, v.written.Fits ∧ v.token = .version text ∧ partialOf v.written = p := by
  unfold readPartial at h
  split at h
  · exact absurd h (by simp)
  · rename_i w hread
    obtain ⟨hcut, htext⟩ := Version.Written.read?_iff.mp hread
    split at h
    · exact absurd h (by simp)
    · rename_i hfull
      split at h
      · exact absurd h (by simp)
      · exact absurd h (by simp)
      · rename_i hversion
        obtain ⟨hpre, hbuild, hfits, rfl⟩ := (Version.toVersion_eq_ok hcut).mp hversion
        cases h
        -- the digits were read as any script's, but a version's characters are ASCII here
        have hproper : w.IsProper Text.isAsciiDigit := {
          some_number := hcut.some_number
          count := hcut.count
          full := (full_iff hcut.count).mp hfull
          numbers := fun n hn => (hcut.numbers n hn).mono fun c hc =>
            isAsciiDigit_of_isVersionChar
              (hchars c (htext ▸ (Version.Written.isInfix_of_mem_numbers hn).subset hc))
          pre := hpre
          build := hbuild }
        refine ⟨⟨w, hproper⟩, hfits, ?_, rfl⟩
        rw [PartialText.token, htext, String.ofList_toList]

/-- Reading a version fails with a defect of the text, unless some number is too long. -/
theorem readPartial_error (hchars : ∀ c ∈ text.toList, isVersionChar c = true) {e : Fault}
    (h : readPartial whole text = .error e) (hshort : Version.HasShortNumbers text.toList) :
    ∃ defect, e = .malformed whole defect := by
  unfold readPartial at h
  split at h
  · cases h
    exact ⟨_, rfl⟩
  · rename_i w hread
    obtain ⟨hcut, htext⟩ := Version.Written.read?_iff.mp hread
    split at h
    · cases h
      exact ⟨_, rfl⟩
    · split at h
      · cases h
        exact ⟨_, rfl⟩
      · rename_i cause hversion
        rw [← htext] at hshort hchars
        exact absurd ((Version.toVersion_oversized hcut).mp ⟨cause, hversion⟩)
          (Version.Written.not_overflows hcut hshort fun c hc =>
            isAsciiDigit_of_isVersionChar (hchars c hc))
      · exact absurd h (by simp)

/-! ## Clauses -/

/-- A clause is read, and the tokens after it are left. -/
theorem readClause_clause {c : Clause} (h : c.Fits) (rest : List Token) :
    readClause whole (c.tokens ++ rest) = .ok (c.comparators, rest) := by
  cases c with
  | star => rfl
  | bare version =>
      change (do pure ((Mark.plain .eq).expand (← readPartial whole _), rest)) = _
      rw [readPartial_version h]
      rfl
  | marked sign version =>
      change (do pure (sign.mark.expand (← readPartial whole _), rest)) = _
      rw [readPartial_version h]
      rfl

/-- What is read as a clause is one of the grammar. -/
theorem clause_of_readClause (hproper : ∀ t ∈ ts, t.IsProper)
    (h : readClause whole ts = .ok (g, rest)) :
    ∃ c : Clause, c.Fits ∧ c.tokens ++ rest = ts ∧ c.comparators = g := by
  unfold readClause at h
  split at h
  · exact absurd h (by simp)
  · cases h
    exact ⟨.star, trivial, rfl, rfl⟩
  · obtain ⟨p, hp, h⟩ := Result.bind_ok.mp h
    cases h
    rw [List.forall_mem_cons] at hproper
    -- the reader's partial version is that of a text that stands in the clause
    obtain ⟨v, hfits, htoken, rfl⟩ := version_of_readPartial hproper.1.2 hp
    exact ⟨.bare v, hfits, by rw [Clause.tokens, htoken]; rfl, rfl⟩
  · rename_i op mark text rest'
    obtain ⟨p, hp, h⟩ := Result.bind_ok.mp h
    cases h
    rw [List.forall_mem_cons, List.forall_mem_cons] at hproper
    obtain ⟨v, hfits, htoken, rfl⟩ := version_of_readPartial hproper.2.1.2 hp
    exact ⟨.marked ⟨op, mark, hproper.1⟩ v, hfits, by rw [Clause.tokens, htoken]; rfl, rfl⟩
  · exact absurd h (by simp)
  · exact absurd h (by simp)
  · exact absurd h (by simp)

theorem readClause_error (hproper : ∀ t ∈ ts, t.IsProper) {e : Fault}
    (h : readClause whole ts = .error e)
    (hshort : ∀ t ∈ ts, Version.HasShortNumbers t.text.toList) :
    ∃ defect, e = .malformed whole defect := by
  unfold readClause at h
  split at h
  · cases h
    exact ⟨_, rfl⟩
  · exact absurd h (by simp)
  · rw [List.forall_mem_cons] at hproper hshort
    rcases Result.bind_error.mp h with h | ⟨p, _, h⟩
    · exact readPartial_error hproper.1.2 h hshort.1
    · exact absurd h (by simp)
  · rw [List.forall_mem_cons, List.forall_mem_cons] at hproper hshort
    rcases Result.bind_error.mp h with h | ⟨p, _, h⟩
    · exact readPartial_error hproper.2.1.2 h hshort.2.1
    · exact absurd h (by simp)
  · cases h
    exact ⟨_, rfl⟩
  · cases h
    exact ⟨_, rfl⟩
  · cases h
    exact ⟨_, rfl⟩

/-! ## Groups -/

/-- The expression with one more clause at its front. -/
def Expression.addClause (c : Clause) : Expression → Expression
  | .one g => .one (.more c g)
  | .more g rest => .more (.more c g) rest

/-- The groups of an expression, the first of which has begun before it. -/
def Expression.groupsAfter (before : Group) : Expression → List Group
  | .one g => [before ++ g.comparators]
  | .more g rest => (before ++ g.comparators) :: rest.groups

namespace Expression

variable {e : Expression} {c : Clause}

theorem groupsAfter_nil (e : Expression) : e.groupsAfter [] = e.groups := by
  cases e <;> rfl

theorem tokens_addClause : (e.addClause c).tokens = c.tokens ++ .and :: e.tokens := by
  cases e <;> simp [addClause, tokens, Clauses.tokens]

theorem groupsAfter_addClause {before : Group} :
    (e.addClause c).groupsAfter before = e.groupsAfter (before ++ c.comparators) := by
  cases e <;> simp [addClause, groupsAfter, Clauses.comparators]

theorem addClause_fits : (e.addClause c).Fits ↔ c.Fits ∧ e.Fits := by
  cases e with
  | one g => exact Iff.rfl
  | more g rest => exact and_assoc

/-- An expression begins with a clause, and after it comes nothing, a comma or a `||`. -/
theorem cases_clause (e : Expression) :
    (∃ c, e = .one (.one c)) ∨ (∃ c rest, e = addClause c rest) ∨
      ∃ c rest, e = .more (.one c) rest := by
  cases e with
  | one g =>
      cases g with
      | one c => exact Or.inl ⟨c, rfl⟩
      | more c g => exact Or.inr (Or.inl ⟨c, .one g, rfl⟩)
  | more g rest =>
      cases g with
      | one c => exact Or.inr (Or.inr ⟨c, rest, rfl⟩)
      | more c g => exact Or.inr (Or.inl ⟨c, .more g rest, rfl⟩)

end Expression

/-- **Run.** An expression is read clause by clause. -/
theorem readGroups_expression {e : Expression} {fuel : Nat} {done : List Group} {before : Group}
    (h : e.Fits) (hfuel : e.tokens.length < fuel) :
    readGroups whole fuel done before e.tokens = .ok (done ++ e.groupsAfter before) := by
  induction fuel generalizing e done before with
  | zero => exact absurd hfuel (Nat.not_lt_zero _)
  | succ fuel ih =>
      -- the last clause, one before a comma or one before an `||`, as the reader tells them apart
      rcases e.cases_clause with ⟨c, rfl⟩ | ⟨c, e, rfl⟩ | ⟨c, e, rfl⟩
      · have hclause : readClause whole (c.tokens ++ []) = .ok (c.comparators, []) :=
          readClause_clause h []
        rw [List.append_nil] at hclause
        change readGroups whole (fuel + 1) done before c.tokens = _
        rw [readGroups, hclause]
        rfl
      · obtain ⟨hc, he⟩ := Expression.addClause_fits.mp h
        rw [Expression.tokens_addClause] at hfuel ⊢
        rw [List.length_append, List.length_cons] at hfuel
        rw [readGroups, readClause_clause hc, Expression.groupsAfter_addClause]
        exact ih he (by omega)
      · obtain ⟨hc, he⟩ := h
        rw [Expression.tokens, List.length_append, List.length_cons] at hfuel
        have hrest : readGroups whole fuel (done ++ [before ++ c.comparators]) [] e.tokens =
            .ok (done ++ [before ++ c.comparators] ++ e.groupsAfter []) := ih he (by omega)
        rw [Expression.groupsAfter_nil, List.append_assoc] at hrest
        change readGroups whole (fuel + 1) done before (c.tokens ++ .or :: e.tokens) = _
        rw [readGroups, readClause_clause hc]
        exact hrest

/-- **Run.** What is read as groups is an expression. -/
theorem expression_of_readGroups {fuel : Nat} {done gs : List Group} {before : Group}
    (hproper : ∀ t ∈ ts, t.IsProper) (h : readGroups whole fuel done before ts = .ok gs) :
    ∃ e : Expression, e.Fits ∧ e.tokens = ts ∧ gs = done ++ e.groupsAfter before := by
  induction fuel generalizing done before ts with
  | zero => exact absurd h (by simp [readGroups])
  | succ fuel ih =>
      rw [readGroups] at h
      obtain ⟨⟨comparators, rest⟩, hclause, h⟩ := Result.bind_ok.mp h
      obtain ⟨c, hc, htokens, rfl⟩ := clause_of_readClause hproper hclause
      rw [← htokens, List.forall_mem_append] at hproper
      simp only at h
      -- what follows the clause tells how the expression goes on: not at all, by `,` or by `||`
      split at h
      · cases h
        rw [List.append_nil] at htokens
        exact ⟨.one (.one c), hc, htokens, rfl⟩
      · rename_i rest
        obtain ⟨e, he, rfl, rfl⟩ := ih (List.forall_mem_cons.mp hproper.2).2 h
        refine ⟨e.addClause c, Expression.addClause_fits.mpr ⟨hc, he⟩, ?_, ?_⟩
        · rw [Expression.tokens_addClause, htokens]
        · rw [Expression.groupsAfter_addClause]
      · rename_i rest
        obtain ⟨e, he, rfl, rfl⟩ := ih (List.forall_mem_cons.mp hproper.2).2 h
        refine ⟨.more (.one c) e, ⟨hc, he⟩, htokens, ?_⟩
        rw [Expression.groupsAfter_nil, List.append_assoc]
        rfl
      · exact absurd h (by simp)

theorem readGroups_error {fuel : Nat} {done : List Group} {before : Group} {e : Fault}
    (hproper : ∀ t ∈ ts, t.IsProper) (h : readGroups whole fuel done before ts = .error e)
    (hshort : ∀ t ∈ ts, Version.HasShortNumbers t.text.toList) :
    ∃ defect, e = .malformed whole defect := by
  induction fuel generalizing done before ts with
  | zero =>
      cases h
      exact ⟨_, rfl⟩
  | succ fuel ih =>
      rw [readGroups] at h
      rcases Result.bind_error.mp h with hfail | ⟨⟨comparators, rest⟩, hclause, hnext⟩
      · exact readClause_error hproper hfail hshort
      · obtain ⟨c, _, rfl, _⟩ := clause_of_readClause hproper hclause
        rw [List.forall_mem_append] at hproper hshort
        simp only at hnext
        split at hnext
        · exact absurd hnext (by simp)
        · exact ih (List.forall_mem_cons.mp hproper.2).2 hnext (List.forall_mem_cons.mp hshort.2).2
        · exact ih (List.forall_mem_cons.mp hproper.2).2 hnext (List.forall_mem_cons.mp hshort.2).2
        · cases hnext
          exact ⟨_, rfl⟩

/-! ## The tokens of an expression stand apart -/

theorem Token.endsBefore_and (t : Token) : t.EndsBefore .and := by
  intro c hc
  obtain rfl : ',' = c := Option.some.inj hc
  cases t <;> rfl

theorem Token.endsBefore_or (t : Token) : t.EndsBefore .or := by
  intro c hc
  obtain rfl : '|' = c := Option.some.inj hc
  cases t <;> rfl

/-- Tokens stay apart where a sign stands between them that nothing goes on with. -/
theorem isChain_append {us : List Token} {sign : Token} (hts : ts.IsChain Token.EndsBefore)
    (hus : us.IsChain Token.EndsBefore) (hbefore : ∀ t, Token.EndsBefore t sign)
    (hafter : ∀ t, sign.EndsBefore t) :
    (ts ++ sign :: us).IsChain Token.EndsBefore := by
  rw [List.isChain_append, List.isChain_cons]
  refine ⟨hts, ⟨fun t _ => hafter t, hus⟩, fun t _ u hu => ?_⟩
  obtain rfl : sign = u := Option.some.inj hu
  exact hbefore t

theorem Clause.isChain_tokens (c : Clause) : c.tokens.IsChain Token.EndsBefore := by
  cases c with
  | star => exact List.isChain_singleton _
  | bare version => exact List.isChain_singleton _
  | marked sign version =>
      rw [Clause.tokens, List.isChain_pair]
      intro c hc
      have hmem : c ∈ version.written.text := by
        rw [← String.toList_ofList (l := version.written.text)]
        exact List.mem_of_head? hc
      exact isMarkChar_of_isVersionChar (version.isVersionChar c hmem)

theorem Clauses.isChain_tokens (g : Clauses) : g.tokens.IsChain Token.EndsBefore := by
  induction g with
  | one c => exact c.isChain_tokens
  | more c rest ih =>
      exact isChain_append c.isChain_tokens ih Token.endsBefore_and fun _ _ _ => rfl

theorem Expression.isChain_tokens (e : Expression) : e.tokens.IsChain Token.EndsBefore := by
  induction e with
  | one g => exact g.isChain_tokens
  | more g rest ih =>
      exact isChain_append g.isChain_tokens ih Token.endsBefore_or fun _ _ _ => rfl

theorem PartialText.token_isProper (v : PartialText) : v.token.IsProper := by
  have hne : v.written.text ≠ [] := by
    intro hnil
    have hread := v.read?
    rw [hnil] at hread
    exact absurd hread (by simp [Version.Written.read?, Version.takeNumbers, Version.takeNumber])
  refine ⟨?_, ?_⟩
  · rwa [String.toList_ofList]
  · rw [String.toList_ofList]
    exact v.isVersionChar

theorem Clause.tokens_isProper (c : Clause) : ∀ t ∈ c.tokens, t.IsProper := by
  cases c with
  | star => simp [Clause.tokens, Token.IsProper]
  | bare version => simpa [Clause.tokens] using version.token_isProper
  | marked sign version => simpa [Clause.tokens] using ⟨sign.known, version.token_isProper⟩

theorem Clauses.tokens_isProper (g : Clauses) : ∀ t ∈ g.tokens, t.IsProper := by
  induction g with
  | one c => exact c.tokens_isProper
  | more c rest ih =>
      rw [Clauses.tokens, List.forall_mem_append, List.forall_mem_cons]
      exact ⟨c.tokens_isProper, trivial, ih⟩

theorem Expression.tokens_isProper (e : Expression) : ∀ t ∈ e.tokens, t.IsProper := by
  induction e with
  | one g => exact g.tokens_isProper
  | more g rest ih =>
      rw [Expression.tokens, List.forall_mem_append, List.forall_mem_cons]
      exact ⟨g.tokens_isProper, trivial, ih⟩

/-- **A text that spells an expression is cut into its tokens.** -/
theorem Expression.Spells.lexed {e : Expression} (h : e.Spells text) : Lexed e.tokens text.toList :=
  Spaced.lexed h e.tokens_isProper e.isChain_tokens

/-! ## Expressions -/

theorem Expression.tokens_ne_nil (e : Expression) : e.tokens ≠ [] := by
  rcases e.cases_clause with ⟨c, rfl⟩ | ⟨c, e, rfl⟩ | ⟨c, e, rfl⟩
  · cases c <;> simp [Expression.tokens, Clauses.tokens, Clause.tokens]
  · simp [Expression.tokens_addClause]
  · simp [Expression.tokens]

/-- **Which texts are read as a range, and as which.** -/
theorem parse_eq_ok {r : VersionRange} :
    parse text = .ok r ↔
      ∃ e : Expression, e.Spells text ∧ e.Fits ∧ ⟨e.groups, Text.strip text⟩ = r := by
  refine ⟨?_, ?_⟩
  · intro h
    unfold parse at h
    split at h
    · exact absurd h (by simp)
    · exact absurd h (by simp)
    · rename_i ts _ htokens
      obtain ⟨gs, hgroups, h⟩ := Result.bind_ok.mp h
      cases h
      have hlexed := tokens_eq_ok.mp htokens
      -- grouping the tokens gives the expression, and their text is where it is spelled
      obtain ⟨e, he, rfl, rfl⟩ := expression_of_readGroups hlexed.isProper hgroups
      refine ⟨e, hlexed.spaced, he, ?_⟩
      rw [Expression.groupsAfter_nil]
      rfl
  · intro h
    obtain ⟨e, hspells, hfits, rfl⟩ := h
    have hgroups : readGroups text (e.tokens.length + 1) [] [] e.tokens =
        .ok ([] ++ e.groupsAfter []) := readGroups_expression hfits (Nat.lt_succ_self _)
    rw [Expression.groupsAfter_nil] at hgroups
    unfold parse
    rw [tokens_eq_ok.mpr hspells.lexed]
    split
    · rename_i heq
      exact absurd heq (by simp)
    · rename_i heq
      exact absurd (Except.ok.inj heq) e.tokens_ne_nil
    · rename_i heq
      cases heq
      rw [hgroups]
      rfl

/-- A text is refused for a defect, unless some number in it is too long. -/
theorem parse_error {e : Fault} (h : parse text = .error e)
    (hshort : Version.HasShortNumbers text.toList) :
    ∃ defect, e = .malformed text defect := by
  unfold parse at h
  split at h
  · cases h
    exact ⟨_, rfl⟩
  · cases h
    exact ⟨_, rfl⟩
  · rename_i ts _ htokens
    have hlexed := tokens_eq_ok.mp htokens
    have hshort' : ∀ t ∈ ts, Version.HasShortNumbers t.text.toList :=
      fun t ht => hshort.of_isInfix (hlexed.spaced.isInfix t ht)
    rcases Result.bind_error.mp h with h | ⟨gs, _, h⟩
    · exact readGroups_error hlexed.isProper h hshort'
    · exact absurd h (by simp)

/-- Short texts have short numbers. -/
theorem Clause.fits {c : Clause} (h : ∀ t ∈ c.tokens, Version.HasShortNumbers t.text.toList) :
    c.Fits := by
  have hversion {v : PartialText} (hv : Version.HasShortNumbers v.token.text.toList) :
      v.written.Fits := by
    rw [PartialText.token, Token.text, String.toList_ofList] at hv
    exact v.proper.fits hv
  cases c with
  | star => trivial
  | bare version => exact hversion (h _ (by simp [Clause.tokens]))
  | marked sign version => exact hversion (h _ (by simp [Clause.tokens]))

theorem Clauses.fits {g : Clauses} (h : ∀ t ∈ g.tokens, Version.HasShortNumbers t.text.toList) :
    g.Fits := by
  induction g with
  | one c => exact Clause.fits h
  | more c rest ih =>
      rw [Clauses.tokens, List.forall_mem_append, List.forall_mem_cons] at h
      exact ⟨Clause.fits h.1, ih h.2.2⟩

theorem Expression.fits {e : Expression}
    (h : ∀ t ∈ e.tokens, Version.HasShortNumbers t.text.toList) : e.Fits := by
  induction e with
  | one g => exact Clauses.fits h
  | more g rest ih =>
      rw [Expression.tokens, List.forall_mem_append, List.forall_mem_cons] at h
      exact ⟨Clauses.fits h.1, ih h.2.2⟩

/-! ## Expressions put together -/

/-- One group after the other. -/
def Clauses.append : Clauses → Clauses → Clauses
  | .one c, g => .more c g
  | .more c rest, g => .more c (rest.append g)

/-- One expression or the other. -/
def Expression.or : Expression → Expression → Expression
  | .one g, e => .more g e
  | .more g rest, e => .more g (rest.or e)

theorem Clauses.tokens_append (g h : Clauses) :
    (g.append h).tokens = g.tokens ++ .and :: h.tokens := by
  induction g with
  | one c => rfl
  | more c rest ih => simp [Clauses.append, Clauses.tokens, ih]

theorem Clauses.comparators_append (g h : Clauses) :
    (g.append h).comparators = g.comparators ++ h.comparators := by
  induction g with
  | one c => rfl
  | more c rest ih => simp [Clauses.append, Clauses.comparators, ih]

theorem Clauses.Fits.append {g h : Clauses} (hg : g.Fits) (hh : h.Fits) : (g.append h).Fits := by
  induction g with
  | one c => exact ⟨hg, hh⟩
  | more c rest ih => exact ⟨hg.1, ih hg.2⟩

theorem Expression.tokens_or (e f : Expression) :
    (e.or f).tokens = e.tokens ++ .or :: f.tokens := by
  induction e with
  | one g => rfl
  | more g rest ih => simp [Expression.or, Expression.tokens, ih]

theorem Expression.groups_or (e f : Expression) : (e.or f).groups = e.groups ++ f.groups := by
  induction e with
  | one g => rfl
  | more g rest ih => simp [Expression.or, Expression.groups, ih]

theorem Expression.Fits.or {e f : Expression} (he : e.Fits) (hf : f.Fits) : (e.or f).Fits := by
  induction e with
  | one g => exact ⟨he, hf⟩
  | more g rest ih => exact ⟨he.1, ih he.2⟩

variable {a b : String} {e f : Expression}

theorem isGap_blank : IsGap [' '] := by
  intro c hc
  rw [List.mem_singleton.mp hc]
  decide

theorem Expression.Spells.or (he : e.Spells a) (hf : f.Spells b) :
    (e.or f).Spells (a ++ " || " ++ b) := by
  have hsign : Spaced [.or] ([' '] ++ (Token.or.text.toList ++ [' '])) :=
    .cons isGap_blank (.nil isGap_blank)
  unfold Expression.Spells at *
  rw [Expression.tokens_or, String.toList_append, String.toList_append, List.append_assoc]
  exact he.append (hsign.append hf)

theorem Clauses.spells_append {g h : Clauses} (hg : (Expression.one g).Spells a)
    (hh : (Expression.one h).Spells b) :
    (Expression.one (g.append h)).Spells (a ++ ", " ++ b) := by
  have hempty : IsGap [] := by simp [IsGap]
  have hsign : Spaced [.and] ([] ++ (Token.and.text.toList ++ [' '])) :=
    .cons hempty (.nil isGap_blank)
  unfold Expression.Spells at *
  rw [Expression.tokens, Clauses.tokens_append, String.toList_append, String.toList_append,
    List.append_assoc]
  exact hg.append (hsign.append hh)

/-- Without a `||` in the text there is one group. -/
theorem Expression.Spells.one (h : e.Spells a) (hnone : ¬ "||".toList <:+: a.toList) :
    ∃ g, e = .one g := by
  cases e with
  | one g => exact ⟨g, rfl⟩
  | more g rest => exact absurd (Spaced.isInfix h .or (by simp [Expression.tokens])) hnone

/-- **The language of range expressions, and what its texts mean.** A text is read exactly
if it spells an expression in which no number is too long, and as the groups of that
expression. Where numbers are short, this leaves only malformed texts out. Two texts that
are read mean either of them when they are joined by a `||`, and both of them when they
are joined by a comma and have no `||` themselves. -/
theorem language_exact :
    (∀ text r, parse text = .ok r ↔
      ∃ e : Expression, e.Spells text ∧ e.Fits ∧ ⟨e.groups, Text.strip text⟩ = r) ∧
    (∀ text, Version.HasShortNumbers text.toList →
      (∃ e : Expression, e.Spells text ∧ parse text = .ok ⟨e.groups, Text.strip text⟩) ∨
      (¬ ∃ e : Expression, e.Spells text) ∧
        ∃ defect, parse text = .error (.malformed text defect)) ∧
    (∀ a b ra rb, parse a = .ok ra → parse b = .ok rb →
      ∃ r, parse (a ++ " || " ++ b) = .ok r ∧ ∀ v, r.holds v = (ra.holds v || rb.holds v)) ∧
    ∀ a b ra rb, parse a = .ok ra → parse b = .ok rb →
      ¬ "||".toList <:+: a.toList → ¬ "||".toList <:+: b.toList →
      ∃ r, parse (a ++ ", " ++ b) = .ok r ∧ ∀ v, r.holds v = (ra.holds v && rb.holds v) := by
  refine ⟨fun text r => parse_eq_ok, ?_, ?_, ?_⟩
  · intro text hshort
    by_cases hspells : ∃ e : Expression, e.Spells text
    · obtain ⟨e, he⟩ := hspells
      -- a term is a piece of the text, so its numbers are as short as the text's
      have hfits : e.Fits := Expression.fits fun t ht => hshort.of_isInfix (Spaced.isInfix he t ht)
      exact Or.inl ⟨e, he, parse_eq_ok.mpr ⟨e, he, hfits, rfl⟩⟩
    · refine Or.inr ⟨hspells, ?_⟩
      cases hread : parse text with
      | ok r =>
          obtain ⟨e, he, _⟩ := parse_eq_ok.mp hread
          exact absurd ⟨e, he⟩ hspells
      | error fault =>
          obtain ⟨defect, rfl⟩ := parse_error hread hshort
          exact ⟨defect, rfl⟩
  · intro a b ra rb ha hb
    obtain ⟨e, he, hefits, rfl⟩ := parse_eq_ok.mp ha
    obtain ⟨f, hf, hffits, rfl⟩ := parse_eq_ok.mp hb
    refine ⟨_, parse_eq_ok.mpr ⟨e.or f, he.or hf, hefits.or hffits, rfl⟩, fun v => ?_⟩
    unfold holds
    rw [Expression.groups_or, List.any_append]
  · -- a comma would fall inside the last of two joined groups, so here neither text has an `||`
    intro a b ra rb ha hb hnone hnone'
    obtain ⟨e, he, hefits, rfl⟩ := parse_eq_ok.mp ha
    obtain ⟨f, hf, hffits, rfl⟩ := parse_eq_ok.mp hb
    obtain ⟨g, rfl⟩ := he.one hnone
    obtain ⟨h, rfl⟩ := hf.one hnone'
    refine ⟨_, parse_eq_ok.mpr ⟨.one (g.append h), Clauses.spells_append he hf,
      Clauses.Fits.append hefits hffits, rfl⟩, fun v => ?_⟩
    simp only [holds, Expression.groups, List.any_cons, List.any_nil, Bool.or_false,
      Clauses.comparators_append, Group.holds_append]

/-- A star and versions that leave out numbers, with white space here and there; a
pre-release of a version that leaves out numbers; and two ranges joined in both ways. -/
theorem language_exact_partial :
    (∃ e : Expression, e.Spells " ^ 1.2,<1.9|| *") ∧ (¬ ∃ e : Expression, e.Spells "1.2-rc.1") ∧
    (∃ r, parse (">=1.2" ++ " || " ++ "~0.3") = .ok r ∧
      r.holds { major := 0, minor := 3, patch := 5 } = true) ∧
    ∃ r, parse (">=1.2" ++ ", " ++ "~0.3") = .ok r ∧
      r.holds { major := 0, minor := 3, patch := 5 } = false := by
  obtain ⟨_, hlanguage, hor, hand⟩ := language_exact
  have hshort {cs : List Char} (h : cs.length ≤ 20) : Version.HasShortNumbers cs :=
    fun run hrun _ => (hrun.length_le.trans h).trans (by decide)
  have hleast : parse ">=1.2" = .ok ⟨[[⟨.ge, .release 1 2 0⟩]], ">=1.2"⟩ := by rfl
  have htilde :
      parse "~0.3" = .ok ⟨[[⟨.ge, .release 0 3 0⟩, ⟨.lt, .release 0 4 0⟩]], "~0.3"⟩ := by rfl
  refine ⟨?_, ?_, ?_, ?_⟩
  · rcases hlanguage " ^ 1.2,<1.9|| *" (hshort (by decide)) with ⟨e, he, _⟩ | ⟨_, defect, herror⟩
    · exact ⟨e, he⟩
    · have hread : (parse " ^ 1.2,<1.9|| *").toOption.isSome = true := by rfl
      rw [herror] at hread
      exact absurd hread (by simp [Except.toOption])
  · rcases hlanguage "1.2-rc.1" (hshort (by decide)) with ⟨e, _, hread⟩ | ⟨hno, _⟩
    · have herror : (parse "1.2-rc.1").toOption = none := by rfl
      rw [hread] at herror
      exact absurd herror (by simp [Except.toOption])
    · exact hno
  · obtain ⟨r, hr, hholds⟩ := hor _ _ _ _ hleast htilde
    exact ⟨r, hr, (hholds _).trans (by rfl)⟩
  · -- 0.3.5 is in the second range alone, so in either but not in both
    obtain ⟨r, hr, hholds⟩ := hand _ _ _ _ hleast htilde (by decide) (by decide)
    exact ⟨r, hr, (hholds _).trans (by rfl)⟩

end LockAudit.VersionRange

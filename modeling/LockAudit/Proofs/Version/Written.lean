import LockAudit.Proofs.Text.Words
import LockAudit.Proofs.Version.Parse
import Mathlib.Data.List.TakeWhile

/-!
# Versions as they are written

A version is written as one to three numbers with dots between them, then perhaps a dash
and the identifiers of a pre-release, then perhaps a plus sign and those of a build.
`Written` is a text cut at these marks.

The reader cuts a text in one way only. What may follow a number does not go on with a
digit or a dot, and the plus sign belongs to no identifier; so each part ends where the
next one begins, and `Written.read?_iff` says that a text is cut into exactly the parts
that it was put together from.

`Written.IsProper` is the grammar of the parts. The numbers of a text may have digits of
other scripts after their first one, as far as the reader is concerned; what counts as a
digit is therefore left open. `Written.Fits` is the limit on digits. `toVersion_eq_ok` and
`toVersion_oversized` say what reading the parts comes to, in terms of these two.
-/

namespace LockAudit.Version

/-! ## The grammar -/

/-- A number as it is written: a zero, or digits of which the first is a plain one from
one to nine. What counts as a digit after it is left open. -/
inductive IsNumeral (isDigit : Char → Bool) : List Char → Prop
  | zero : IsNumeral isDigit ['0']
  | digits {c : Char} {cs : List Char} (first : '1' ≤ c ∧ c ≤ '9')
      (more : ∀ d ∈ cs, isDigit d = true) : IsNumeral isDigit (c :: cs)

/-- An identifier of a build: plain letters, digits and dashes, at least one. -/
def IsBuildIdentifier (cs : List Char) : Prop := cs ≠ [] ∧ ∀ c ∈ cs, isIdentifierChar c = true

/-- An identifier of a pre-release: the same, without leading zeros if it is a number. -/
def IsPreIdentifier (cs : List Char) : Prop :=
  IsBuildIdentifier cs ∧ (cs.all Text.isAsciiDigit = true → IsNumeral Text.isAsciiDigit cs)

/-- One or more texts with dots between them. -/
inductive Dotted (P : List Char → Prop) : List Char → Prop
  | one {cs : List Char} (h : P cs) : Dotted P cs
  | more {cs ds : List Char} (h : P cs) (rest : Dotted P ds) : Dotted P (cs ++ '.' :: ds)

/-- What may stand after a mark as far as the reader looks at first. -/
def IsPart (cs : List Char) : Prop := cs ≠ [] ∧ ∀ c ∈ cs, isPartChar c = true

namespace Written

/-- A part with its mark, if it is there. -/
def marked (mark : Char) : Option (List Char) → List Char
  | none => []
  | some cs => mark :: cs

/-- The text that was cut. -/
def text (w : Written) : List Char :=
  ['.'].intercalate w.numbers ++ (marked '-' w.pre ++ marked '+' w.build)

/-- The text has been cut where the reader cuts it. -/
structure IsCut (w : Written) : Prop where
  some_number : w.numbers ≠ []
  count : w.numbers.length ≤ 3
  numbers : ∀ n ∈ w.numbers, IsNumeral Text.isDigit n
  pre : ∀ cs ∈ w.pre, IsPart cs
  build : ∀ cs ∈ w.build, IsPart cs

end Written

variable {n cs rest : List Char} {w : Written} {whole : String}

/-! ## Numbers -/

/-- What a number must not run into. -/
def EndsNumber (rest : List Char) : Prop := ∀ c ∈ rest.head?, Text.isDigit c = false

theorem IsNumeral.mono {p q : Char → Bool} (h : IsNumeral p n)
    (hpq : ∀ c ∈ n, p c = true → q c = true) : IsNumeral q n := by
  cases h with
  | zero => exact .zero
  | digits first more =>
      exact .digits first fun d hd => hpq d (List.mem_cons_of_mem _ hd) (more d hd)

theorem isAsciiDigit_of_first {c : Char} (h : '1' ≤ c ∧ c ≤ '9') : Text.isAsciiDigit c = true := by
  have hlow : 49 ≤ c.toNat := h.1
  have hhigh : c.toNat ≤ 57 := h.2
  exact Text.isAsciiDigit_iff.mpr (by omega)

/-- The first character of a number is a digit like the others. -/
theorem IsNumeral.digit {p : Char → Bool} (h : IsNumeral p n)
    (hp : ∀ c, Text.isAsciiDigit c = true → p c = true) : ∀ c ∈ n, p c = true := by
  cases h with
  | zero =>
      intro c hc
      rw [List.mem_singleton.mp hc]
      exact hp '0' (by decide)
  | digits first more =>
      rw [List.forall_mem_cons]
      exact ⟨hp _ (isAsciiDigit_of_first first), more⟩

theorem ne_zero_of_first {c : Char} (h : '1' ≤ c ∧ c ≤ '9') : c ≠ '0' := by
  rintro rfl
  exact absurd h.1 (by decide)

/-- A number is taken off up to where its digits end. -/
theorem takeNumber_append (h : IsNumeral Text.isDigit n) (hrest : EndsNumber rest) :
    takeNumber (n ++ rest) = some (n, rest) := by
  cases h with
  | zero => rfl
  | @digits c cs first more =>
      obtain ⟨htake, hdrop⟩ := Text.span_run more hrest
      rw [List.cons_append, takeNumber, if_neg (ne_zero_of_first first), if_pos first, htake, hdrop]

theorem takeNumber_ok (h : takeNumber cs = some (n, rest)) :
    IsNumeral Text.isDigit n ∧ cs = n ++ rest := by
  cases cs with
  | nil => exact absurd h (by simp [takeNumber])
  | cons c cs =>
      rw [takeNumber] at h
      split at h
      · rename_i hzero
        cases h
        exact ⟨.zero, by rw [hzero]; rfl⟩
      · split at h
        · rename_i hfirst
          cases h
          refine ⟨.digits hfirst fun d hd => List.mem_takeWhile_imp hd, ?_⟩
          rw [List.cons_append, List.takeWhile_append_dropWhile]
        · exact absurd h (by simp)

/-- What a list of numbers must not run into. -/
def EndsNumbers (rest : List Char) : Prop :=
  ∀ c ∈ rest.head?, Text.isDigit c = false ∧ c ≠ '.'

theorem EndsNumbers.endsNumber (h : EndsNumbers rest) : EndsNumber rest := fun c hc => (h c hc).1

theorem endsNumber_dot (cs : List Char) : EndsNumber ('.' :: cs) := by
  intro c hc
  obtain rfl : '.' = c := Option.some.inj hc
  decide

/-- Numbers with dots between them are taken off as long as no more are there than asked
for. -/
theorem takeNumbers_append {more : Nat} {ns : List (List Char)} (hne : ns ≠ [])
    (hlength : ns.length ≤ more) (h : ∀ n ∈ ns, IsNumeral Text.isDigit n)
    (hrest : EndsNumbers rest) :
    takeNumbers more (['.'].intercalate ns ++ rest) = some (ns, rest) := by
  induction ns generalizing more with
  | nil => exact absurd rfl hne
  | cons n ns ih =>
      rw [List.forall_mem_cons] at h
      obtain ⟨hn, hns⟩ := h
      cases ns with
      | nil =>
          have htake := takeNumber_append hn hrest.endsNumber
          rw [List.intercalate_singleton]
          match more, hlength with
          | 1, _ => rw [takeNumbers, htake]; rfl
          | more + 2, _ =>
              rw [takeNumbers, htake]
              simp only [Option.bind_eq_bind, Option.bind_some]
              -- the rest does not begin with a dot
              split
              · rename_i hdot
                exact absurd rfl (hrest '.' (by simp)).2
              · rfl
      | cons next ns =>
          match more, hlength with
          | 0, hlength => exact absurd hlength (by simp)
          | 1, hlength => exact absurd hlength (by simp)
          | more + 2, hlength =>
              have hrest' : takeNumbers (more + 1) (['.'].intercalate (next :: ns) ++ rest) =
                  some (next :: ns, rest) := ih (by simp) (by simpa using hlength) hns
              rw [List.intercalate_cons_cons, List.append_assoc, List.append_assoc, takeNumbers,
                List.singleton_append, takeNumber_append hn (endsNumber_dot _)]
              simp only [Option.bind_eq_bind, Option.bind_some, hrest']

theorem takeNumbers_ok {more : Nat} {ns : List (List Char)}
    (h : takeNumbers more cs = some (ns, rest)) :
    ns ≠ [] ∧ ns.length ≤ more ∧ (∀ n ∈ ns, IsNumeral Text.isDigit n) ∧
      cs = ['.'].intercalate ns ++ rest := by
  fun_induction takeNumbers more cs generalizing ns rest with
  | case1 => exact absurd h (by simp)
  | case2 cs =>
      obtain ⟨⟨n, rest'⟩, hn, h⟩ := Option.bind_eq_some_iff.mp h
      cases h
      obtain ⟨hnumeral, heq⟩ := takeNumber_ok hn
      exact ⟨by simp, by simp, by simpa using hnumeral, by simpa using heq⟩
  | case3 more cs ih =>
      obtain ⟨⟨n, rest'⟩, hn, htail⟩ := Option.bind_eq_some_iff.mp h
      obtain ⟨hnumeral, heq⟩ := takeNumber_ok hn
      clear h hn
      subst heq
      simp only at htail
      split at htail
      · -- a dot with a number behind it goes on, and any other rest ends the numbers here
        obtain ⟨⟨ns', rest''⟩, hmore, htail⟩ := Option.bind_eq_some_iff.mp htail
        cases htail
        obtain ⟨hne, hlength, hnumbers, rfl⟩ := ih _ hmore
        obtain ⟨next, ns, rfl⟩ := List.exists_cons_of_ne_nil hne
        refine ⟨by simp, Nat.succ_le_succ hlength, ?_, ?_⟩
        · rw [List.forall_mem_cons]
          exact ⟨hnumeral, hnumbers⟩
        · simp [List.intercalate_cons_cons]
      · cases htail
        exact ⟨by simp, by simp, by simpa using hnumeral, by simp⟩

/-! ## Parts -/

/-- A part is taken off up to what is no character of a part. -/
theorem takePart_append {mark : Char} {part : Option (List Char)} (h : ∀ cs ∈ part, IsPart cs)
    (hrest : ∀ c ∈ rest.head?, isPartChar c = false ∧ c ≠ mark) :
    takePart mark (Written.marked mark part ++ rest) = some (part, rest) := by
  cases part with
  | none =>
      cases rest with
      | nil => rfl
      | cons c rest =>
          have hc : c ≠ mark := (hrest c rfl).2
          simp [Written.marked, takePart, hc]
  | some cs =>
      obtain ⟨hne, hchars⟩ := h cs rfl
      obtain ⟨htake, hdrop⟩ := Text.span_run hchars fun c hc => (hrest c hc).1
      rw [Written.marked, List.cons_append, takePart, if_pos rfl, htake, hdrop, if_neg]
      rwa [List.isEmpty_iff]

theorem takePart_ok {mark : Char} {part : Option (List Char)}
    (h : takePart mark cs = some (part, rest)) :
    (∀ cs ∈ part, IsPart cs) ∧ cs = Written.marked mark part ++ rest := by
  cases cs with
  | nil =>
      cases h
      exact ⟨by simp, rfl⟩
  | cons c cs =>
      rw [takePart] at h
      split at h
      · rename_i hmark
        split at h
        · exact absurd h (by simp)
        · rename_i hne
          cases h
          refine ⟨?_, ?_⟩
          · rintro _ ⟨⟩
            exact ⟨by simpa using hne, fun d hd => List.mem_takeWhile_imp hd⟩
          · rw [Written.marked, List.cons_append, List.takeWhile_append_dropWhile, hmark]
      · cases h
        exact ⟨by simp, rfl⟩

theorem head?_marked {mark : Char} {part : Option (List Char)} :
    ∀ c ∈ (Written.marked mark part).head?, c = mark := by
  intro c hc
  cases part with
  | none => exact absurd hc (by simp [Written.marked])
  | some cs => exact (Option.some.inj hc).symm

/-- After the numbers comes a mark, if anything. -/
theorem head?_parts {pre build : Option (List Char)} :
    ∀ c ∈ (Written.marked '-' pre ++ Written.marked '+' build).head?, c = '-' ∨ c = '+' := by
  intro c hc
  rw [List.head?_append, Option.mem_def, Option.or_eq_some_iff] at hc
  rcases hc with hc | ⟨_, hc⟩
  · exact Or.inl (head?_marked c hc)
  · exact Or.inr (head?_marked c hc)

/-- **A text is cut in one way, into what it was put together from.** -/
theorem Written.read?_iff : Written.read? cs = some w ↔ w.IsCut ∧ w.text = cs := by
  refine ⟨?_, ?_⟩
  · intro h
    obtain ⟨⟨ns, afterNumbers⟩, hnumbers, h⟩ := Option.bind_eq_some_iff.mp h
    obtain ⟨⟨pre, afterPre⟩, hpre, h⟩ := Option.bind_eq_some_iff.mp h
    obtain ⟨⟨build, afterBuild⟩, hbuild, h⟩ := Option.bind_eq_some_iff.mp h
    simp only at h
    split at h
    · rename_i hend
      cases h
      obtain ⟨hne, hlength, hnumerals, rfl⟩ := takeNumbers_ok hnumbers
      obtain ⟨hpart, rfl⟩ := takePart_ok hpre
      obtain ⟨hpart', rfl⟩ := takePart_ok hbuild
      refine ⟨⟨hne, hlength, hnumerals, hpart, hpart'⟩, ?_⟩
      rw [Written.text, List.isEmpty_iff.mp hend, List.append_nil]
    · exact absurd h (by simp)
  · intro h
    obtain ⟨hcut, rfl⟩ := h
    -- what follows the numbers starts with `-` or `+` or ends there, so no number runs on
    have hends : EndsNumbers (marked '-' w.pre ++ marked '+' w.build) := by
      intro c hc
      rcases head?_parts c hc with rfl | rfl <;> decide
    have hnumbers := takeNumbers_append hcut.some_number hcut.count hcut.numbers hends
    have hpre : takePart '-' (marked '-' w.pre ++ marked '+' w.build) =
        some (w.pre, marked '+' w.build) := by
      refine takePart_append hcut.pre fun c hc => ?_
      rw [head?_marked c hc]
      decide
    have hbuild : takePart '+' (marked '+' w.build) = some (w.build, []) := by
      have hend : takePart '+' (marked '+' w.build ++ []) = some (w.build, []) :=
        takePart_append hcut.build (by simp)
      rwa [List.append_nil] at hend
    unfold Written.read? Written.text
    simp only [hnumbers, hpre, hbuild, Option.bind_eq_bind, Option.bind_some]
    rfl

/-! ## Identifiers -/

theorem isIdentifierChar_of_isAsciiDigit {c : Char} (h : Text.isAsciiDigit c = true) :
    isIdentifierChar c = true := by
  unfold isIdentifierChar
  rw [h]
  rfl

theorem IsBuildIdentifier.dot_not_mem (h : IsBuildIdentifier cs) : '.' ∉ cs := by
  intro hdot
  exact absurd (h.2 '.' hdot) (by decide)

/-- A text is texts with dots between them exactly if all its pieces are such texts. -/
theorem dotted_iff {P : List Char → Prop} (hP : ∀ cs, P cs → '.' ∉ cs) :
    Dotted P cs ↔ ∀ piece ∈ Text.splitOn '.' cs, P piece := by
  refine ⟨?_, ?_⟩
  · intro h
    induction h with
    | one h => simpa [Text.splitOn_of_not_mem (hP _ h)] using h
    | more h _ ih =>
        rw [Text.splitOn_append (hP _ h), List.forall_mem_cons]
        exact ⟨h, ih⟩
  · -- the pieces of a split are never none, so joining them gives a dotted list
    have hjoin : ∀ pieces : List (List Char), pieces ≠ [] → (∀ piece ∈ pieces, P piece) →
        Dotted P (['.'].intercalate pieces) := by
      intro pieces hne h
      induction pieces with
      | nil => exact absurd rfl hne
      | cons piece pieces ih =>
          rw [List.forall_mem_cons] at h
          cases pieces with
          | nil =>
              rw [List.intercalate_singleton]
              exact .one h.1
          | cons next pieces =>
              rw [List.intercalate_cons_cons, List.append_assoc]
              exact .more h.1 (ih (by simp) h.2)
    intro h
    rw [← Text.intercalate_splitOn '.' cs]
    exact hjoin _ (Text.splitOn_ne_nil '.' cs) h

/-- Among plain digits, the numbers are those that have no zero in front of others. -/
theorem isNumeral_iff (hdigits : ∀ c ∈ cs, Text.isAsciiDigit c = true) (hne : cs ≠ []) :
    IsNumeral Text.isAsciiDigit cs ↔ ¬ (1 < cs.length ∧ cs.head? = some '0') := by
  refine ⟨?_, ?_⟩
  · intro h
    cases h with
    | zero => simp
    | digits first _ =>
        rintro ⟨_, hzero⟩
        exact ne_zero_of_first first (Option.some.inj hzero)
  · intro h
    obtain ⟨c, cs, rfl⟩ := List.exists_cons_of_ne_nil hne
    rw [List.forall_mem_cons] at hdigits
    by_cases hzero : c = '0'
    · have hnil : cs = [] := by
        by_contra hcs
        have hlength : 0 < cs.length := List.length_pos_iff.mpr hcs
        exact h ⟨by simpa using hlength, by simp [hzero]⟩
      rw [hzero, hnil]
      exact .zero
    · refine .digits ?_ hdigits.2
      have hcode : c.toNat ≠ 48 := fun heq => hzero (Char.toNat_inj.mp heq)
      obtain ⟨hlow, hhigh⟩ := Text.isAsciiDigit_iff.mp hdigits.1
      -- a digit other than zero is one of 1 to 9
      have hone : 49 ≤ c.toNat := by omega
      exact ⟨hone, hhigh⟩

/-- The identifier that a text stands for. -/
def identifierOf (cs : List Char) : Identifier :=
  if cs.all Text.isAsciiDigit then .number (Text.digitsValue cs) else .word (String.ofList cs)

/-- The identifier is no number with too many digits. -/
def FitsIdentifier (cs : List Char) : Prop :=
  cs.all Text.isAsciiDigit = true → cs.length ≤ Number.digitLimit

theorem not_isBuildIdentifier_iff :
    (cs.isEmpty || !cs.all isIdentifierChar) = true ↔ ¬ IsBuildIdentifier cs := by
  unfold IsBuildIdentifier
  rw [Bool.or_eq_true, List.isEmpty_iff, Bool.not_eq_true', ← Bool.not_eq_true, List.all_eq_true,
    not_and_or, not_not]

theorem readIdentifier_of_fits (h : IsPreIdentifier cs) (hfits : FitsIdentifier cs) :
    readIdentifier whole cs = .ok (identifierOf cs) := by
  obtain ⟨hbuild, hnumeral⟩ := h
  unfold readIdentifier identifierOf
  rw [if_neg (not_isBuildIdentifier_iff.not.mpr (not_not.mpr hbuild))]
  by_cases hall : cs.all Text.isAsciiDigit = true
  · have hlead := (isNumeral_iff (List.all_eq_true.mp hall) hbuild.1).mp (hnumeral hall)
    rw [if_pos hall, if_pos hall, if_neg hlead, Number.ofDigits, if_pos (hfits hall)]
  · rw [if_neg hall, if_neg hall]

theorem readIdentifier_of_long (h : IsPreIdentifier cs) (hlong : ¬ FitsIdentifier cs) :
    readIdentifier whole cs = .error (.oversized (.read cs.length)) := by
  obtain ⟨hbuild, hnumeral⟩ := h
  unfold FitsIdentifier at hlong
  rw [Classical.not_imp] at hlong
  obtain ⟨hall, hlength⟩ := hlong
  have hlead := (isNumeral_iff (List.all_eq_true.mp hall) hbuild.1).mp (hnumeral hall)
  unfold readIdentifier
  rw [if_neg (not_isBuildIdentifier_iff.not.mpr (not_not.mpr hbuild)), if_pos hall, if_neg hlead,
    Number.ofDigits, if_neg hlength]

theorem readIdentifier_of_not (whole : String) (h : ¬ IsPreIdentifier cs) :
    ∃ defect, readIdentifier whole cs = .error (.malformed whole defect) := by
  unfold readIdentifier
  by_cases hbuild : IsBuildIdentifier cs
  · rw [if_neg (not_isBuildIdentifier_iff.not.mpr (not_not.mpr hbuild))]
    unfold IsPreIdentifier at h
    rw [not_and, Classical.not_imp] at h
    obtain ⟨hall, hnumeral⟩ := h hbuild
    have hlead := (isNumeral_iff (List.all_eq_true.mp hall) hbuild.1).not_left.mp hnumeral
    rw [if_pos hall, if_pos hlead]
    exact ⟨_, rfl⟩
  · rw [if_pos (not_isBuildIdentifier_iff.mpr hbuild)]
    exact ⟨_, rfl⟩

theorem readIdentifier_isOk :
    (∃ i, readIdentifier whole cs = .ok i) ↔ IsPreIdentifier cs ∧ FitsIdentifier cs := by
  refine ⟨?_, ?_⟩
  · intro h
    obtain ⟨i, hi⟩ := h
    by_cases hpre : IsPreIdentifier cs
    · refine ⟨hpre, by_contra fun hlong => ?_⟩
      rw [readIdentifier_of_long hpre hlong] at hi
      exact absurd hi (by simp)
    · obtain ⟨defect, hdefect⟩ := readIdentifier_of_not whole hpre
      rw [hdefect] at hi
      exact absurd hi (by simp)
  · intro h
    exact ⟨_, readIdentifier_of_fits h.1 h.2⟩

theorem readIdentifier_oversized {e : Number.Oversized} :
    readIdentifier whole cs = .error (.oversized e) ↔
      IsPreIdentifier cs ∧ ¬ FitsIdentifier cs ∧ e = .read cs.length := by
  refine ⟨?_, ?_⟩
  · intro h
    by_cases hpre : IsPreIdentifier cs
    · by_cases hfits : FitsIdentifier cs
      · rw [readIdentifier_of_fits hpre hfits] at h
        exact absurd h (by simp)
      · rw [readIdentifier_of_long hpre hfits] at h
        cases h
        exact ⟨hpre, hfits, rfl⟩
    · obtain ⟨defect, hdefect⟩ := readIdentifier_of_not whole hpre
      rw [hdefect] at h
      exact absurd h (by simp)
  · intro h
    obtain ⟨hpre, hlong, rfl⟩ := h
    exact readIdentifier_of_long hpre hlong

/-! ## What the parts stand for -/

/-- The pieces of a part, if it is there. -/
def piecesOf : Option (List Char) → List (List Char)
  | none => []
  | some cs => Text.splitOn '.' cs

theorem readPre_eq (part : Option (List Char)) :
    readPre whole part = (piecesOf part).mapM (readIdentifier whole) := by
  cases part <;> rfl

theorem readBuild_eq (part : Option (List Char)) :
    readBuild whole part = (piecesOf part).mapM (readBuildPart whole) := by
  cases part <;> rfl

/-- All pieces are of a kind exactly if the part is put together from such. -/
theorem forall_piecesOf {P : List Char → Prop} (hP : ∀ cs, P cs → '.' ∉ cs)
    {part : Option (List Char)} :
    (∀ piece ∈ piecesOf part, P piece) ↔ ∀ cs ∈ part, Dotted P cs := by
  cases part with
  | none => simp [piecesOf]
  | some cs => simp [piecesOf, dotted_iff hP]

theorem readPre_eq_ok {part : Option (List Char)} {pre : List Identifier} :
    readPre whole part = .ok pre ↔
      (∀ piece ∈ piecesOf part, IsPreIdentifier piece ∧ FitsIdentifier piece) ∧
        (piecesOf part).map identifierOf = pre := by
  rw [readPre_eq]
  refine ⟨?_, ?_⟩
  · intro h
    have hall : ∀ piece ∈ piecesOf part, IsPreIdentifier piece ∧ FitsIdentifier piece :=
      fun piece hpiece => readIdentifier_isOk.mp (Result.mapM_ok.mp ⟨pre, h⟩ piece hpiece)
    have hmap : (piecesOf part).mapM (readIdentifier whole) =
        .ok ((piecesOf part).map identifierOf) :=
      Result.mapM_eq_map fun piece hpiece =>
        readIdentifier_of_fits (hall piece hpiece).1 (hall piece hpiece).2
    exact ⟨hall, Except.ok.inj (hmap.symm.trans h)⟩
  · intro h
    obtain ⟨hall, rfl⟩ := h
    exact Result.mapM_eq_map fun piece hpiece =>
      readIdentifier_of_fits (hall piece hpiece).1 (hall piece hpiece).2

theorem readBuildPart_of (h : IsBuildIdentifier cs) :
    readBuildPart whole cs = .ok (String.ofList cs) := by
  unfold readBuildPart
  rw [if_neg (not_isBuildIdentifier_iff.not.mpr (not_not.mpr h))]

theorem readBuildPart_of_not (h : ¬ IsBuildIdentifier cs) :
    readBuildPart whole cs = .error (.malformed whole (.badBuild (String.ofList cs))) := by
  unfold readBuildPart
  rw [if_pos (not_isBuildIdentifier_iff.mpr h)]

theorem readBuild_eq_ok {part : Option (List Char)} {build : List String} :
    readBuild whole part = .ok build ↔
      (∀ piece ∈ piecesOf part, IsBuildIdentifier piece) ∧
        (piecesOf part).map String.ofList = build := by
  rw [readBuild_eq]
  refine ⟨?_, ?_⟩
  · intro h
    have hall : ∀ piece ∈ piecesOf part, IsBuildIdentifier piece := by
      intro piece hpiece
      obtain ⟨s, hs⟩ := Result.mapM_ok.mp ⟨build, h⟩ piece hpiece
      by_contra hbuild
      rw [readBuildPart_of_not hbuild] at hs
      exact absurd hs (by simp)
    have hmap : (piecesOf part).mapM (readBuildPart whole) =
        .ok ((piecesOf part).map String.ofList) :=
      Result.mapM_eq_map fun piece hpiece => readBuildPart_of (hall piece hpiece)
    exact ⟨hall, Except.ok.inj (hmap.symm.trans h)⟩
  · intro h
    obtain ⟨hall, rfl⟩ := h
    exact Result.mapM_eq_map fun piece hpiece => readBuildPart_of (hall piece hpiece)

/-- A pre-release is too long to be read at a number with too many digits, if all
identifiers before it can be read. -/
theorem readPre_oversized {part : Option (List Char)} {e : Number.Oversized} :
    readPre whole part = .error (.oversized e) ↔
      ∃ before piece after, piecesOf part = before ++ piece :: after ∧
        (∀ b ∈ before, IsPreIdentifier b ∧ FitsIdentifier b) ∧ IsPreIdentifier piece ∧
          ¬ FitsIdentifier piece ∧ e = .read piece.length := by
  rw [readPre_eq, Result.mapM_error]
  simp only [readIdentifier_isOk, readIdentifier_oversized]

theorem readBuild_not_oversized {part : Option (List Char)} {e : Number.Oversized} :
    readBuild whole part ≠ .error (.oversized e) := by
  rw [readBuild_eq]
  intro h
  obtain ⟨before, piece, after, _, _, hpiece⟩ := Result.mapM_error.mp h
  by_cases hbuild : IsBuildIdentifier piece
  · rw [readBuildPart_of hbuild] at hpiece
    exact absurd hpiece (by simp)
  · rw [readBuildPart_of_not hbuild] at hpiece
    exact absurd hpiece (by simp)

/-! ## The version that was written -/

namespace Written

/-- One of the numbers; a missing number is zero. -/
def number (w : Written) (i : Nat) : Nat := Text.digitsValue (w.numbers[i]?.getD [])

/-- The version that a text stands for. -/
def value (w : Written) : Version := {
  major := w.number 0
  minor := w.number 1
  patch := w.number 2
  pre := (piecesOf w.pre).map identifierOf
  build := (piecesOf w.build).map String.ofList }

/-- The text follows the grammar of versions, of which all but the first number may be
left out where nothing else follows. `isDigit` says what counts as a digit after the first
one of a number. -/
structure IsProper (isDigit : Char → Bool) (w : Written) : Prop where
  some_number : w.numbers ≠ []
  count : w.numbers.length ≤ 3
  full : w.pre.isSome ∨ w.build.isSome → w.numbers.length = 3
  numbers : ∀ n ∈ w.numbers, IsNumeral isDigit n
  pre : ∀ cs ∈ w.pre, Dotted IsPreIdentifier cs
  build : ∀ cs ∈ w.build, Dotted IsBuildIdentifier cs

/-- No number has too many digits to be read. -/
structure Fits (w : Written) : Prop where
  numbers : ∀ n ∈ w.numbers, n.length ≤ Number.digitLimit
  pre : ∀ piece ∈ piecesOf w.pre, FitsIdentifier piece

/-- Reading comes to a number with too many digits before it comes to anything else that
it cannot read. -/
inductive Overflows (w : Written) : Prop
  | number {n : List Char} (mem : n ∈ w.numbers) (long : Number.digitLimit < n.length)
  | identifier {before after : List (List Char)} {piece : List Char}
      (numbers : ∀ n ∈ w.numbers, n.length ≤ Number.digitLimit)
      (pieces : piecesOf w.pre = before ++ piece :: after)
      (readable : ∀ b ∈ before, IsPreIdentifier b ∧ FitsIdentifier b)
      (proper : IsPreIdentifier piece) (long : ¬ FitsIdentifier piece)

theorem isPart_of_dotted {P : List Char → Prop} (hP : ∀ cs, P cs → IsBuildIdentifier cs)
    (h : Dotted P cs) : IsPart cs := by
  have hown : ∀ cs, P cs → IsPart cs := by
    intro cs h
    refine ⟨(hP cs h).1, fun c hc => ?_⟩
    unfold isPartChar
    rw [(hP cs h).2 c hc]
    rfl
  induction h with
  | one h => exact hown _ h
  | more h _ ih =>
      refine ⟨by simp, fun c hc => ?_⟩
      rcases List.mem_append.mp hc with hc | hc
      · exact (hown _ h).2 c hc
      · rcases List.mem_cons.mp hc with rfl | hc
        · decide
        · exact ih.2 c hc

/-- A text that follows the grammar is cut into its parts. -/
theorem IsProper.isCut {isDigit : Char → Bool} (h : w.IsProper isDigit)
    (hdigit : ∀ c, isDigit c = true → Text.isDigit c = true) : w.IsCut where
  some_number := h.some_number
  count := h.count
  numbers := fun n hn => (h.numbers n hn).mono fun c _ => hdigit c
  pre := fun cs hcs => isPart_of_dotted (fun _ h => h.1) (h.pre cs hcs)
  build := fun cs hcs => isPart_of_dotted (fun _ h => h) (h.build cs hcs)

/-! ## Texts with short numbers -/

theorem isInfix_of_mem_numbers (h : n ∈ w.numbers) : n <:+: w.text :=
  (Text.isInfix_intercalate h).trans (List.prefix_append _ _).isInfix

theorem isInfix_of_mem_pre {piece : List Char} (h : piece ∈ piecesOf w.pre) : piece <:+: w.text := by
  unfold text
  cases hpre : w.pre with
  | none =>
      rw [hpre] at h
      exact absurd h (by simp [piecesOf])
  | some cs =>
      rw [hpre] at h
      have hpiece : piece <:+: cs := by
        rw [← Text.intercalate_splitOn '.' cs]
        exact Text.isInfix_intercalate h
      have hmarked : cs <:+: marked '-' (some cs) := (List.suffix_cons '-' cs).isInfix
      have hparts : marked '-' (some cs) <:+: marked '-' (some cs) ++ marked '+' w.build :=
        (List.prefix_append _ _).isInfix
      exact (hpiece.trans hmarked).trans (hparts.trans (List.suffix_append _ _).isInfix)

end Written

/-- No run of plain digits in the text is too long to be read as a number. -/
def HasShortNumbers (cs : List Char) : Prop :=
  ∀ run, run <:+: cs → (∀ c ∈ run, Text.isAsciiDigit c = true) → run.length ≤ Number.digitLimit

theorem HasShortNumbers.of_isInfix {cs ds : List Char} (h : HasShortNumbers cs)
    (hpart : ds <:+: cs) : HasShortNumbers ds :=
  fun run hrun => h run (hrun.trans hpart)

namespace Written

/-- Where digits are plain and runs of them short, reading never comes to a number that is
too long. -/
theorem not_overflows (hcut : w.IsCut) (hshort : HasShortNumbers w.text)
    (hplain : ∀ c ∈ w.text, Text.isDigit c = true → Text.isAsciiDigit c = true) :
    ¬ w.Overflows := by
  intro h
  cases h with
  | @number n mem long =>
      have hpart : n <:+: w.text := isInfix_of_mem_numbers mem
      have hdigits : ∀ c ∈ n, Text.isDigit c = true :=
        (hcut.numbers n mem).digit fun _ => Text.isDigit_of_isAsciiDigit
      have hlength := hshort n hpart fun c hc => hplain c (hpart.subset hc) (hdigits c hc)
      omega
  | @identifier before after piece _ pieces _ _ long =>
      have hmem : piece ∈ piecesOf w.pre := by
        rw [pieces]
        simp
      exact long fun hall => hshort piece (isInfix_of_mem_pre hmem) (List.all_eq_true.mp hall)

theorem IsProper.fits (h : w.IsProper Text.isAsciiDigit) (hshort : HasShortNumbers w.text) :
    w.Fits where
  numbers := fun n hn =>
    hshort n (isInfix_of_mem_numbers hn) ((h.numbers n hn).digit fun _ hc => hc)
  pre := fun piece hpiece hall =>
    hshort piece (isInfix_of_mem_pre hpiece) (List.all_eq_true.mp hall)

end Written

theorem readNumber_of_fits {digits : Option (List Char)}
    (h : ∀ n ∈ digits, n.length ≤ Number.digitLimit) :
    readNumber digits = .ok (Text.digitsValue (digits.getD [])) := by
  have hlength : (digits.getD []).length ≤ Number.digitLimit := by
    cases digits with
    | none => exact Nat.zero_le _
    | some n => exact h n rfl
  unfold readNumber
  rw [Number.ofDigits, if_pos hlength, Result.mapError_ok_eq]

theorem readNumber_of_long (h : Number.digitLimit < n.length) :
    readNumber (some n) = .error (.oversized (.read n.length)) := by
  unfold readNumber
  rw [Option.getD_some, Number.ofDigits, if_neg (Nat.not_le.mpr h), Result.mapError_error_eq]

/-- Where no number is too long, what is left to read are the parts. -/
theorem toVersion_of_numbers (h : ∀ n ∈ w.numbers, n.length ≤ Number.digitLimit) :
    w.toVersion whole = (do
      let pre ← readPre whole w.pre
      let build ← readBuild whole w.build
      pure { major := w.number 0, minor := w.number 1, patch := w.number 2, pre, build }) := by
  have hread (i : Nat) : readNumber w.numbers[i]? = .ok (w.number i) :=
    readNumber_of_fits fun n hn => h n (List.mem_of_getElem? hn)
  unfold Written.toVersion
  rw [hread, hread, hread]
  rfl

theorem toVersion_of_long (whole : String) (hcut : w.IsCut) (hn : n ∈ w.numbers)
    (hlong : Number.digitLimit < n.length) :
    ∃ k, w.toVersion whole = .error (.oversized (.read k)) := by
  -- a number that can be read lets the next one decide
  have hread (i : Nat) : readNumber w.numbers[i]? = .ok (w.number i) ∨
      ∃ k, readNumber w.numbers[i]? = .error (.oversized (.read k)) := by
    by_cases h : ∀ n ∈ w.numbers[i]?, n.length ≤ Number.digitLimit
    · exact Or.inl (readNumber_of_fits h)
    · simp only [not_forall] at h
      obtain ⟨m, hm, hlong⟩ := h
      rw [Option.mem_def.mp hm]
      exact Or.inr ⟨_, readNumber_of_long (Nat.not_le.mp hlong)⟩
  unfold Written.toVersion
  rcases hread 0 with hmajor | ⟨k, hmajor⟩
  · rcases hread 1 with hminor | ⟨k, hminor⟩
    · rcases hread 2 with hpatch | ⟨k, hpatch⟩
      · obtain ⟨i, hi, heq⟩ := List.mem_iff_getElem.mp hn
        have hsome : w.numbers[i]? = some n := by rw [List.getElem?_eq_getElem hi, heq]
        have hthree : i = 0 ∨ i = 1 ∨ i = 2 := by
          have := hcut.count
          omega
        have herror := readNumber_of_long hlong
        rw [← hsome] at herror
        rcases hthree with rfl | rfl | rfl
        · exact absurd (hmajor.symm.trans herror) (by simp)
        · exact absurd (hminor.symm.trans herror) (by simp)
        · exact absurd (hpatch.symm.trans herror) (by simp)
      · exact ⟨k, by rw [hmajor, hminor, hpatch]; rfl⟩
    · exact ⟨k, by rw [hmajor, hminor]; rfl⟩
  · exact ⟨k, by rw [hmajor]; rfl⟩

theorem forall_pre {part : Option (List Char)} :
    (∀ piece ∈ piecesOf part, IsPreIdentifier piece) ↔ ∀ cs ∈ part, Dotted IsPreIdentifier cs :=
  forall_piecesOf fun _ h => h.1.dot_not_mem

theorem forall_build {part : Option (List Char)} :
    (∀ piece ∈ piecesOf part, IsBuildIdentifier piece) ↔
      ∀ cs ∈ part, Dotted IsBuildIdentifier cs :=
  forall_piecesOf fun _ h => h.dot_not_mem

/-- **A version is read where the parts are made of identifiers and no number is too
long**, and it is the version that the text stands for. -/
theorem toVersion_eq_ok (hcut : w.IsCut) {v : Version} :
    w.toVersion whole = .ok v ↔ (∀ cs ∈ w.pre, Dotted IsPreIdentifier cs) ∧
      (∀ cs ∈ w.build, Dotted IsBuildIdentifier cs) ∧ w.Fits ∧ w.value = v := by
  rw [← forall_pre, ← forall_build]
  refine ⟨?_, ?_⟩
  · intro h
    -- a long number would have ended the reading
    have hnumbers : ∀ n ∈ w.numbers, n.length ≤ Number.digitLimit := by
      intro n hn
      by_contra hlong
      obtain ⟨k, hk⟩ := toVersion_of_long whole hcut hn (Nat.not_le.mp hlong)
      exact absurd (h.symm.trans hk) (by simp)
    rw [toVersion_of_numbers hnumbers] at h
    obtain ⟨pre, hpre, h⟩ := Result.bind_ok.mp h
    obtain ⟨build, hbuild, h⟩ := Result.bind_ok.mp h
    cases h
    obtain ⟨hpieces, rfl⟩ := readPre_eq_ok.mp hpre
    obtain ⟨hpieces', rfl⟩ := readBuild_eq_ok.mp hbuild
    exact ⟨fun piece hpiece => (hpieces piece hpiece).1, hpieces',
      ⟨hnumbers, fun piece hpiece => (hpieces piece hpiece).2⟩, rfl⟩
  · intro h
    obtain ⟨hpre, hbuild, hfits, rfl⟩ := h
    have hpre' : readPre whole w.pre = .ok w.value.pre :=
      readPre_eq_ok.mpr ⟨fun piece hpiece => ⟨hpre piece hpiece, hfits.pre piece hpiece⟩, rfl⟩
    have hbuild' : readBuild whole w.build = .ok w.value.build :=
      readBuild_eq_ok.mpr ⟨hbuild, rfl⟩
    rw [toVersion_of_numbers hfits.numbers, hpre', hbuild']
    rfl

/-- **When a number has too many digits to be read.** -/
theorem toVersion_oversized (hcut : w.IsCut) :
    (∃ e, w.toVersion whole = .error (.oversized e)) ↔ w.Overflows := by
  refine ⟨?_, ?_⟩
  · intro h
    obtain ⟨e, h⟩ := h
    -- the numbers are read before the identifiers, so a long number hides a long identifier
    by_cases hnumbers : ∀ n ∈ w.numbers, n.length ≤ Number.digitLimit
    · rw [toVersion_of_numbers hnumbers] at h
      rcases Result.bind_error.mp h with hpre | ⟨pre, _, h⟩
      · obtain ⟨before, piece, after, hpieces, hbefore, hproper, hlong, _⟩ :=
          readPre_oversized.mp hpre
        exact .identifier hnumbers hpieces hbefore hproper hlong
      · rcases Result.bind_error.mp h with hbuild | ⟨build, _, h⟩
        · exact absurd hbuild readBuild_not_oversized
        · exact absurd h (by simp)
    · simp only [not_forall] at hnumbers
      obtain ⟨n, hn, hlong⟩ := hnumbers
      exact .number hn (Nat.not_le.mp hlong)
  · intro h
    cases h with
    | number mem long =>
        obtain ⟨k, hk⟩ := toVersion_of_long whole hcut mem long
        exact ⟨_, hk⟩
    | @identifier before after piece numbers pieces readable proper long =>
        have hpre : readPre whole w.pre = .error (.oversized (.read piece.length)) :=
          readPre_oversized.mpr ⟨before, piece, after, pieces, readable, proper, long, rfl⟩
        rw [toVersion_of_numbers numbers, hpre]
        exact ⟨_, rfl⟩

end LockAudit.Version

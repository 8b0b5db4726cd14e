import LockAudit.Proofs.Audit.Matching
import Mathlib.Data.List.Basic

/-!
# What suppressions do to a match

A suppression moves findings from one list to another and loses none. Here this is said of
whole lists: `judgedFindings` are the findings of a graph before anything is accepted, in
the order in which they are gone through, and the two lists of a match are the parts of it
that are not accepted and that are.

Packages are the one place where the suppressions decide about more. A package is passed
over when the version of an exposed dependency on it cannot be logged; accepting that very
finding lets the package be judged. So the findings of two matches are compared for the
packages that are judged in both.

Each suppression comes to one of three things: it is over, it accepts some finding, or
neither. The first and the last are told by a diagnostic.
-/

namespace LockAudit

open Lockfile (Node Graph)
open Advisory (Record Index)

variable {now : Calendar.Instant} {suppressions more : List Suppression} {g : Graph}
  {index : Index} {package : String}

/-! ## One finding -/

/-- The record says that the dependency is vulnerable. -/
def Finding.isConcern (f : Finding) : Bool := f.record.concerns f.node.version.toPrecedence

/-- Some suppression is in force for the finding. -/
def Finding.isAccepted (now : Calendar.Instant) (suppressions : List Suppression) (f : Finding) :
    Bool :=
  suppressions.any fun s => s.isInForce now f.node f.record

/-- The suppression at a position is the first one that is in force for a finding. -/
structure IsFirst (now : Calendar.Instant) (suppressions : List Suppression) (f : Finding)
    (position : Nat) (s : Suppression) : Prop where
  stands : suppressions[position]? = some s
  applies : s.applies f.node f.record = true
  inTime : s.isExpired now = false
  /-- Those before it do not apply, or are over. -/
  before : ∀ i < position, ∀ s', suppressions[i]? = some s' →
    s'.applies f.node f.record = true → s'.isExpired now = true

theorem firstInForce_eq_some {f : Finding} {position : Nat} {s : Suppression} :
    firstInForce now suppressions f.node f.record = some (s, position) ↔
      IsFirst now suppressions f position s := by
  unfold firstInForce
  rw [List.find?_eq_some_iff_getElem]
  simp only [Suppression.isInForce, Bool.and_eq_true, Bool.not_eq_true', List.getElem_zipIdx,
    Nat.zero_add, Prod.mk.injEq, List.length_zipIdx]
  refine ⟨?_, ?_⟩
  · intro h
    obtain ⟨⟨happlies, hintime⟩, i, hi, ⟨hs, rfl⟩, hbefore⟩ := h
    refine ⟨List.getElem?_eq_some_iff.mpr ⟨hi, hs⟩, happlies, hintime, ?_⟩
    intro j hj s' hs' happlies'
    obtain ⟨hlt, rfl⟩ := List.getElem?_eq_some_iff.mp hs'
    -- one that stands before and applies can only be expired
    have hnot := hbefore j hj
    simpa [happlies'] using hnot
  · intro h
    obtain ⟨hstands, happlies, hintime, hbefore⟩ := h
    obtain ⟨hi, hs⟩ := List.getElem?_eq_some_iff.mp hstands
    refine ⟨⟨happlies, hintime⟩, position, hi, ⟨hs, rfl⟩, ?_⟩
    intro j hj
    have hlt : j < suppressions.length := Nat.lt_trans hj hi
    have hover := hbefore j hj _ (List.getElem?_eq_getElem hlt)
    simpa using hover

theorem isAccepted_eq_false {f : Finding} :
    f.isAccepted now suppressions = false ↔
      firstInForce now suppressions f.node f.record = none := by
  rw [firstInForce_eq_none]
  simp [Finding.isAccepted, Suppression.isInForce]

/-- More suppressions accept more. -/
theorem isAccepted_mono (h : suppressions.Sublist more) {f : Finding}
    (hf : f.isAccepted now suppressions = true) :
    f.isAccepted now more = true := by
  obtain ⟨s, hs, hforce⟩ := List.any_eq_true.mp hf
  exact List.any_eq_true.mpr ⟨s, h.subset hs, hforce⟩

/-- What a finding comes to: it is no concern, it is reported, or the first suppression in
force accepts it. -/
theorem judged_cases (now : Calendar.Instant) (suppressions : List Suppression) (f : Finding) :
    (f.isConcern = false ∧ (judged now suppressions f).vulnerable? = none ∧
      (judged now suppressions f).suppressed? = none ∧ (judged now suppressions f).used? = none) ∨
    (f.isConcern = true ∧ f.isAccepted now suppressions = false ∧
      (judged now suppressions f).vulnerable? = some f ∧
      (judged now suppressions f).suppressed? = none ∧ (judged now suppressions f).used? = none) ∨
    (∃ position s, f.isConcern = true ∧ f.isAccepted now suppressions = true ∧
      IsFirst now suppressions f position s ∧ (judged now suppressions f).vulnerable? = none ∧
      (judged now suppressions f).suppressed? = some ⟨f, s⟩ ∧
      (judged now suppressions f).used? = some position) := by
  unfold judged Judgement.vulnerable? Judgement.suppressed? Judgement.used?
  cases hconcern : f.isConcern with
  | false =>
      -- what is no concern is neither vulnerable nor suppressed
      have hoff : ∀ o, outcome now suppressions f.node f.record = o →
          o ≠ .vulnerable ∧ ∀ position s, o ≠ .suppressed position s := by
        rintro o rfl
        refine ⟨?_, ?_⟩
        · intro h
          rw [outcome_eq_vulnerable] at h
          exact absurd h.1 (by rw [Finding.isConcern] at hconcern; simp [hconcern])
        · intro position s h
          rw [outcome_eq_suppressed] at h
          exact absurd h.1 (by rw [Finding.isConcern] at hconcern; simp [hconcern])
      refine Or.inl ⟨rfl, ?_⟩
      cases houtcome : outcome now suppressions f.node f.record with
      | vulnerable => exact absurd rfl (hoff _ houtcome).1
      | suppressed position s => exact absurd rfl ((hoff _ houtcome).2 position s)
      | _ => exact ⟨rfl, rfl, rfl⟩
  | true =>
      cases hfirst : firstInForce now suppressions f.node f.record with
      | none =>
          -- a concern for which nothing is in force is vulnerable
          have houtcome := outcome_eq_vulnerable.mpr ⟨hconcern, hfirst⟩
          refine Or.inr (Or.inl ⟨rfl, isAccepted_eq_false.mpr hfirst, ?_⟩)
          rw [houtcome]
          exact ⟨rfl, rfl, rfl⟩
      | some found =>
          obtain ⟨s, position⟩ := found
          -- the first suppression in force takes it
          have houtcome := outcome_eq_suppressed.mpr ⟨hconcern, hfirst⟩
          have haccepted : f.isAccepted now suppressions = true := by
            rw [← Bool.not_eq_false, isAccepted_eq_false, hfirst]
            simp
          refine Or.inr (Or.inr ⟨position, s, rfl, haccepted, firstInForce_eq_some.mp hfirst, ?_⟩)
          rw [houtcome]
          exact ⟨rfl, rfl, rfl⟩

/-! ## One package -/

/-- The package can be judged. -/
def isJudged (now : Calendar.Instant) (suppressions : List Suppression) (g : Graph)
    (index : Index) (package : String) : Bool :=
  (judgePackage (.standard (.zoned now) suppressions) g index package).toOption.isSome

/-- A finding can be judged when its version can be logged, should it be exposed. -/
def CanJudge (now : Calendar.Instant) (suppressions : List Suppression) (f : Finding) : Prop :=
  outcome now suppressions f.node f.record = .vulnerable → f.node.version.isWritable = true

theorem standard_ok_iff {f : Finding} :
    (∃ o, Judge.standard (.zoned now) suppressions f.node f.record = .ok o) ↔
      CanJudge now suppressions f := by
  refine ⟨?_, fun h => ⟨_, standard_ok h⟩⟩
  intro h hv
  obtain ⟨o, ho⟩ := h
  cases hw : f.node.version.isWritable with
  | true => rfl
  | false =>
      rw [standard_error hv hw] at ho
      exact absurd ho (by simp)

theorem isJudged_iff :
    isJudged now suppressions g index package = true ↔
      ∀ f ∈ packageFindings g index package, CanJudge now suppressions f := by
  unfold isJudged judgePackage
  rw [Result.isSome_toOption, Result.mapM_ok]
  refine forall₂_congr fun f _ => ?_
  rw [← standard_ok_iff]
  refine ⟨?_, ?_⟩
  · intro h
    obtain ⟨j, hj⟩ := h
    obtain ⟨o, ho, _⟩ := Result.bind_ok.mp hj
    exact ⟨o, ho⟩
  · intro h
    obtain ⟨o, ho⟩ := h
    exact ⟨⟨f, o⟩, Result.bind_ok.mpr ⟨o, ho, rfl⟩⟩

/-- What judging a package leaves: all its findings with what they come to, or nothing. -/
theorem packageResult_fst :
    (packageResult (.standard (.zoned now) suppressions) g index package).1 =
      if isJudged now suppressions g index package then
        (packageFindings g index package).map (judged now suppressions)
      else [] := by
  unfold packageResult
  split
  · rename_i js hjs
    have hjudged : isJudged now suppressions g index package = true := by
      unfold isJudged
      rw [hjs]
      rfl
    -- every finding of a judged package has its judgement, so the package has them all
    have hmap : judgePackage (.standard (.zoned now) suppressions) g index package =
        .ok ((packageFindings g index package).map (judged now suppressions)) := by
      refine Result.mapM_eq_map fun f hf => ?_
      rw [standard_ok (isJudged_iff.mp hjudged f hf)]
      rfl
    rw [hjs, Except.ok.injEq] at hmap
    rw [if_pos hjudged, hmap]
  · rename_i cause hcause
    have hjudged : isJudged now suppressions g index package = false := by
      unfold isJudged
      rw [hcause]
      rfl
    rw [hjudged]
    rfl

/-- More suppressions leave no package behind that could be judged before. -/
theorem isJudged_mono (h : suppressions.Sublist more)
    (hjudged : isJudged now suppressions g index package = true) :
    isJudged now more g index package = true := by
  rw [isJudged_iff] at hjudged ⊢
  intro f hf hv
  refine hjudged f hf ?_
  -- what no suppression accepts out of more is accepted by none out of fewer
  rw [outcome_eq_vulnerable] at hv ⊢
  refine ⟨hv.1, ?_⟩
  rw [← isAccepted_eq_false, ← Bool.not_eq_true]
  intro haccepted
  have hmore := isAccepted_mono h haccepted
  rw [isAccepted_eq_false.mpr hv.2] at hmore
  exact absurd hmore (by simp)

/-! ## All packages -/

/-- The findings of the packages that are judged, before any is accepted, in order. -/
def judgedFindings (now : Calendar.Instant) (suppressions : List Suppression) (g : Graph)
    (index : Index) : List Finding :=
  ((packageNames g).filter (isJudged now suppressions g index)).flatMap fun package =>
    (packageFindings g index package).filter (·.isConcern)

theorem judgements_eq :
    judgements (.standard (.zoned now) suppressions) g index =
      ((packageNames g).filter (isJudged now suppressions g index)).flatMap fun package =>
        (packageFindings g index package).map (judged now suppressions) := by
  unfold judgements
  induction packageNames g with
  | nil => rfl
  | cons package packages ih =>
      rw [List.map_cons, List.flatMap_cons, ih, packageResult_fst]
      cases hjudged : isJudged now suppressions g index package <;> simp [hjudged]

/-- What is picked out of the judgements is a part of the findings that are judged. -/
theorem filterMap_judgements {pick : Judgement → Option Finding} {p : Finding → Bool}
    (h : ∀ f, pick (judged now suppressions f) = if f.isConcern && p f then some f else none) :
    (judgements (.standard (.zoned now) suppressions) g index).filterMap pick =
      (judgedFindings now suppressions g index).filter p := by
  have hpackage : ∀ package,
      ((packageFindings g index package).map (judged now suppressions)).filterMap pick =
        ((packageFindings g index package).filter (·.isConcern)).filter p := by
    intro package
    rw [List.filterMap_map, List.filter_filter, ← List.filterMap_eq_filter]
    have hpick : pick ∘ judged now suppressions =
        Option.guard fun f => p f && f.isConcern := by
      funext f
      rw [Function.comp_apply, h, Bool.and_comm]
      rfl
    rw [hpick]
  rw [judgements_eq, judgedFindings, List.filterMap_flatMap, List.filter_flatMap]
  exact List.flatMap_congr fun package _ => hpackage package

theorem reported_eq :
    (judgements (.standard (.zoned now) suppressions) g index).filterMap (·.vulnerable?) =
      (judgedFindings now suppressions g index).filter fun f => !f.isAccepted now suppressions := by
  refine filterMap_judgements fun f => ?_
  rcases judged_cases now suppressions f with ⟨hconcern, hv, _⟩ | ⟨hconcern, haccepted, hv, _⟩ |
    ⟨_, _, hconcern, haccepted, _, hv, _⟩
  · rw [hv, hconcern]; rfl
  · rw [hv, hconcern, haccepted]; rfl
  · rw [hv, hconcern, haccepted]; rfl

theorem accepted_eq :
    ((judgements (.standard (.zoned now) suppressions) g index).filterMap (·.suppressed?)).map
        (·.finding) =
      (judgedFindings now suppressions g index).filter (·.isAccepted now suppressions) := by
  rw [List.map_filterMap]
  refine filterMap_judgements fun f => ?_
  rcases judged_cases now suppressions f with ⟨hconcern, _, hs, _⟩ | ⟨hconcern, haccepted, _, hs, _⟩ |
    ⟨_, _, hconcern, haccepted, _, _, hs, _⟩
  · rw [hs, hconcern]; rfl
  · rw [hs, hconcern, haccepted]; rfl
  · rw [hs, hconcern, haccepted]; rfl

theorem group_of_mem {f : Finding} (h : f ∈ packageFindings g index package) :
    f.node.group = package := by
  obtain ⟨n, hn, hr⟩ := List.mem_flatMap.mp h
  obtain ⟨r, _, rfl⟩ := List.mem_map.mp hr
  exact beq_iff_eq.mp (List.mem_filter.mp hn).2

/-- Of the findings that are judged with more suppressions, those in packages that are
judged with fewer are the findings that are judged with fewer. -/
theorem judgedFindings_filter (h : suppressions.Sublist more) :
    (judgedFindings now more g index).filter
        (fun f => isJudged now suppressions g index f.node.group) =
      judgedFindings now suppressions g index := by
  -- a package keeps all of its findings or none
  have hpackage : ∀ package,
      ((packageFindings g index package).filter (·.isConcern)).filter
          (fun f => isJudged now suppressions g index f.node.group) =
        if isJudged now suppressions g index package then
          (packageFindings g index package).filter (·.isConcern)
        else [] := by
    intro package
    have hgroup : ∀ f ∈ (packageFindings g index package).filter (·.isConcern),
        isJudged now suppressions g index f.node.group =
          isJudged now suppressions g index package := by
      intro f hf
      rw [group_of_mem (List.mem_filter.mp hf).1]
    rw [List.filter_congr hgroup]
    cases isJudged now suppressions g index package <;> simp
  unfold judgedFindings
  rw [List.filter_flatMap]
  simp only [hpackage]
  induction packageNames g with
  | nil => rfl
  | cons package packages ih =>
      have hmono : isJudged now suppressions g index package = true →
          isJudged now more g index package = true := isJudged_mono h
      rw [List.filter_cons, List.filter_cons]
      cases hjudged : isJudged now suppressions g index package with
      | true =>
          rw [if_pos (hmono hjudged), if_pos rfl, List.flatMap_cons, List.flatMap_cons, ih,
            hjudged]
          rfl
      | false =>
          simp only [Bool.false_eq_true, if_false]
          rw [← ih]
          split
          · rw [List.flatMap_cons, hjudged]
            rfl
          · rfl

/-! ## What a match has -/

theorem mem_filterMap_judgements {α : Type} (pick : Judgement → Option α) (Q : Finding → α → Prop)
    (h : ∀ f a, pick (judged now suppressions f) = some a ↔ f.isConcern = true ∧ Q f a) {a : α} :
    a ∈ (judgements (.standard (.zoned now) suppressions) g index).filterMap pick ↔
      ∃ f ∈ judgedFindings now suppressions g index, Q f a := by
  rw [judgements_eq]
  simp only [judgedFindings, List.mem_filterMap, List.mem_flatMap, List.mem_map, List.mem_filter]
  refine ⟨?_, ?_⟩
  · intro hpicked
    obtain ⟨_, ⟨package, hpackage, f, hf, rfl⟩, ha⟩ := hpicked
    obtain ⟨hconcern, hQ⟩ := (h f a).mp ha
    exact ⟨f, ⟨package, hpackage, hf, hconcern⟩, hQ⟩
  · intro hfound
    obtain ⟨f, ⟨package, hpackage, hf, hconcern⟩, hQ⟩ := hfound
    exact ⟨_, ⟨package, hpackage, f, hf, rfl⟩, (h f a).mpr ⟨hconcern, hQ⟩⟩

/-- A finding has one first suppression at most. -/
theorem IsFirst.unique {f : Finding} {i j : Nat} {s t : Suppression}
    (hs : IsFirst now suppressions f i s) (ht : IsFirst now suppressions f j t) :
    i = j ∧ s = t := by
  have hsome := firstInForce_eq_some.mpr hs
  rw [firstInForce_eq_some.mpr ht, Option.some.injEq, Prod.mk.injEq] at hsome
  exact ⟨hsome.2.symm, hsome.1.symm⟩

theorem IsFirst.isAccepted {f : Finding} {position : Nat} {s : Suppression}
    (h : IsFirst now suppressions f position s) :
    f.isAccepted now suppressions = true := by
  rw [← Bool.not_eq_false, isAccepted_eq_false, firstInForce_eq_some.mpr h]
  simp

theorem mem_usedPositions {position : Nat} :
    position ∈ (judgements (.standard (.zoned now) suppressions) g index).filterMap (·.used?) ↔
      ∃ f ∈ judgedFindings now suppressions g index, ∃ s, IsFirst now suppressions f position s := by
  refine mem_filterMap_judgements (·.used?)
    (fun f position => ∃ s, IsFirst now suppressions f position s) fun f position => ?_
  rcases judged_cases now suppressions f with ⟨hconcern, _, _, hused⟩ |
    ⟨_, haccepted, _, _, hused⟩ | ⟨i, s, hconcern, _, hfirst, _, _, hused⟩
  · rw [hused, hconcern]; simp
  · rw [hused]
    refine ⟨fun h => absurd h (by simp), ?_⟩
    rintro ⟨_, s, hs⟩
    rw [hs.isAccepted] at haccepted
    exact absurd haccepted (by simp)
  · rw [hused, Option.some.injEq]
    refine ⟨?_, ?_⟩
    · rintro rfl
      exact ⟨hconcern, s, hfirst⟩
    · rintro ⟨_, t, ht⟩
      exact (hfirst.unique ht).1

theorem mem_suppressed {x : SuppressedFinding} :
    x ∈ (judgements (.standard (.zoned now) suppressions) g index).filterMap (·.suppressed?) ↔
      ∃ f ∈ judgedFindings now suppressions g index,
        x.finding = f ∧ ∃ position, IsFirst now suppressions f position x.suppression := by
  refine mem_filterMap_judgements (·.suppressed?) (fun f x =>
    x.finding = f ∧ ∃ position, IsFirst now suppressions f position x.suppression) fun f x => ?_
  rcases judged_cases now suppressions f with ⟨hconcern, _, hsuppressed, _⟩ |
    ⟨_, haccepted, _, hsuppressed, _⟩ | ⟨i, s, hconcern, _, hfirst, _, hsuppressed, _⟩
  · rw [hsuppressed, hconcern]; simp
  · rw [hsuppressed]
    refine ⟨fun h => absurd h (by simp), ?_⟩
    rintro ⟨_, _, position, hs⟩
    rw [hs.isAccepted] at haccepted
    exact absurd haccepted (by simp)
  · rw [hsuppressed, Option.some.injEq]
    refine ⟨?_, ?_⟩
    · rintro rfl
      exact ⟨hconcern, rfl, i, hfirst⟩
    · rintro ⟨_, rfl, position, ht⟩
      rw [(hfirst.unique ht).2]

section Match

variable {m : Matching}

theorem match_findings (hm : matchGraph (.zoned now) suppressions g index = .ok m) :
    m.findings =
      (judgedFindings now suppressions g index).filter fun f => !f.isAccepted now suppressions := by
  obtain ⟨about, _, rfl⟩ := matchWith_ok.mp hm
  exact reported_eq

theorem match_suppressed (hm : matchGraph (.zoned now) suppressions g index = .ok m) :
    m.suppressed.map (·.finding) =
      (judgedFindings now suppressions g index).filter (·.isAccepted now suppressions) := by
  obtain ⟨about, _, rfl⟩ := matchWith_ok.mp hm
  exact accepted_eq

theorem isFirst_of_match (hm : matchGraph (.zoned now) suppressions g index = .ok m)
    {x : SuppressedFinding} (hx : x ∈ m.suppressed) :
    ∃ position, IsFirst now suppressions x.finding position x.suppression := by
  obtain ⟨about, _, rfl⟩ := matchWith_ok.mp hm
  obtain ⟨_, _, rfl, hfirst⟩ := mem_suppressed.mp hx
  exact hfirst

/-- The positions that count as used are those of suppressions that accept some finding. -/
theorem mem_used_iff (hm : matchGraph (.zoned now) suppressions g index = .ok m) {position : Nat} :
    position ∈ (judgements (.standard (.zoned now) suppressions) g index).filterMap (·.used?) ↔
      ∃ x ∈ m.suppressed, IsFirst now suppressions x.finding position x.suppression := by
  obtain ⟨about, _, rfl⟩ := matchWith_ok.mp hm
  rw [mem_usedPositions]
  refine ⟨?_, ?_⟩
  · intro h
    obtain ⟨f, hf, s, hs⟩ := h
    exact ⟨⟨f, s⟩, mem_suppressed.mpr ⟨f, hf, rfl, position, hs⟩, hs⟩
  · intro h
    obtain ⟨x, hx, hfirst⟩ := h
    obtain ⟨f, hf, rfl, _⟩ := mem_suppressed.mp hx
    exact ⟨x.finding, hf, x.suppression, hfirst⟩

end Match

/-! ## One suppression -/

/-- What becomes of the suppression at a position in a match, and the diagnostics about
it: it is over, it accepts a finding, or neither. -/
inductive Standing (now : Calendar.Instant) (suppressions : List Suppression) (m : Matching)
    (position : Nat) (s : Suppression) : List Diagnostic → Prop
  | expired {expires : Calendar.Instant} {label : String} (given : s.expires = some expires)
      (ended : expires ≤ now) (named : s.label = .ok label)
      (idle : ∀ x ∈ m.suppressed, ¬ IsFirst now suppressions x.finding position x.suppression) :
      Standing now suppressions m position s
        [.of .suppressionExpired
          ("suppression " ++ label ++ " expired on " ++ expires.text ++ " and no longer applies")
          (some label)]
  | used {x : SuppressedFinding} (inTime : s.isExpired now = false) (mem : x ∈ m.suppressed)
      (first : IsFirst now suppressions x.finding position x.suppression) :
      Standing now suppressions m position s []
  | unused {label : String} (inTime : s.isExpired now = false) (named : s.label = .ok label)
      (idle : ∀ x ∈ m.suppressed, ¬ IsFirst now suppressions x.finding position x.suppression) :
      Standing now suppressions m position s
        [.of .suppressionUnused ("suppression " ++ label ++ " did not match any finding")
          (some label)]

theorem isExpired_of_over {s : Suppression} {expires : Calendar.Instant}
    (hgiven : s.expires = some expires) (hover : expires ≤ now) : s.isExpired now = true :=
  (Option.any_eq_true _ _).mpr ⟨expires, hgiven, decide_eq_true hover⟩

/-- A suppression comes to one of the three things only. -/
theorem Standing.unique {m : Matching} {position : Nat} {s : Suppression}
    {found other : List Diagnostic} (hfound : Standing now suppressions m position s found)
    (hother : Standing now suppressions m position s other) : found = other := by
  -- the expiry alone tells the first case from the other two, which differ in being used
  have hnever : ∀ {expires : Calendar.Instant}, s.expires = some expires → expires ≤ now →
      s.isExpired now ≠ false := by
    intro expires hgiven hover
    rw [isExpired_of_over hgiven hover]
    simp
  cases hfound with
  | expired given ended named idle =>
      cases hother with
      | expired given' ended' named' idle' =>
          rw [given, Option.some.injEq] at given'
          rw [named, Except.ok.injEq] at named'
          rw [given', named']
      | used inTime _ _ => exact absurd inTime (hnever given ended)
      | unused inTime _ _ => exact absurd inTime (hnever given ended)
  | used inTime mem first =>
      cases hother with
      | expired given ended _ _ => exact absurd inTime (hnever given ended)
      | used _ _ _ => rfl
      | unused _ _ idle => exact absurd first (idle _ mem)
  | unused inTime named idle =>
      cases hother with
      | expired given ended _ _ => exact absurd inTime (hnever given ended)
      | used _ mem first => exact absurd first (idle _ mem)
      | unused _ named' _ =>
          rw [named, Except.ok.injEq] at named'
          rw [named']

theorem suppressionDiagnostic_standing {m : Matching} {used : List Nat} {position : Nat}
    {s : Suppression} {found : List Diagnostic} (hs : suppressions[position]? = some s)
    (hused : position ∈ used ↔
      ∃ x ∈ m.suppressed, IsFirst now suppressions x.finding position x.suppression)
    (h : suppressionDiagnostic (.zoned now) used (s, position) = .ok found) :
    Standing now suppressions m position s found := by
  unfold suppressionDiagnostic at h
  obtain ⟨expired, hexpired, h⟩ := Result.bind_ok.mp h
  have hstate : s.isExpired now = expired := by
    simpa [Suppression.isExpiredBy] using hexpired
  cases expired with
  | true =>
      obtain ⟨label, hlabel, h⟩ := Result.bind_ok.mp h
      rw [Result.lift_oversized, Result.mapError_ok] at hlabel
      obtain ⟨expires, hgiven, hover⟩ := (Option.any_eq_true _ _).mp hstate
      rw [hgiven] at h
      cases h
      refine .expired hgiven (of_decide_eq_true hover) hlabel ?_
      intro x _ hfirst
      -- the first suppression in force is not over
      have hsame : s = x.suppression :=
        Option.some.inj (hs.symm.trans hfirst.stands)
      rw [hsame, hfirst.inTime] at hstate
      exact absurd hstate (by simp)
  | false =>
      by_cases hmem : position ∈ used
      · obtain ⟨x, hx, hfirst⟩ := hused.mp hmem
        simp only [Bool.false_eq_true, if_false, List.contains_iff_mem, hmem, if_true] at h
        cases h
        exact .used hstate hx hfirst
      · simp only [Bool.false_eq_true, if_false, List.contains_iff_mem, hmem] at h
        obtain ⟨label, hlabel, h⟩ := Result.bind_ok.mp h
        rw [Result.lift_oversized, Result.mapError_ok] at hlabel
        cases h
        refine .unused hstate hlabel ?_
        intro x hx hfirst
        exact hmem (hused.mpr ⟨x, hx, hfirst⟩)

/-- Each suppression has its diagnostics, in the order of the suppressions. -/
theorem suppressionDiagnostics_standing {m : Matching} {used : List Nat}
    {about : List Diagnostic}
    (hused : ∀ position, position ∈ used ↔
      ∃ x ∈ m.suppressed, IsFirst now suppressions x.finding position x.suppression)
    (h : suppressionDiagnostics (.zoned now) suppressions used = .ok about) :
    ∃ parts : List (List Diagnostic), about = parts.flatten ∧ parts.length = suppressions.length ∧
      ∀ position s, suppressions[position]? = some s →
        ∃ found, parts[position]? = some found ∧ Standing now suppressions m position s found ∧
          ∀ other, Standing now suppressions m position s other → other = found := by
  obtain ⟨parts, hparts, h⟩ := Result.bind_ok.mp h
  cases h
  refine ⟨parts, rfl, by rw [Result.length_of_mapM hparts, List.length_zipIdx], ?_⟩
  intro position s hs
  have hplace : suppressions.zipIdx[position]? = some (s, position) := by
    rw [List.getElem?_zipIdx, hs]
    simp
  obtain ⟨found, hfound, hdiagnostic⟩ := Result.getElem?_of_mapM hparts hplace
  have hstanding := suppressionDiagnostic_standing hs (hused position) hdiagnostic
  exact ⟨found, hfound, hstanding, fun _ hother => hother.unique hstanding⟩

/-! ## All suppressions -/

/-- What is told about the packages that are passed over. -/
theorem packageDiagnostics_kind {judge : Judge} :
    ∀ d ∈ ((packageNames g).map (packageResult judge g index)).flatMap (·.2),
      d.kind = DiagnosticKind.packageError.name := by
  intro d hd
  obtain ⟨_, hresult, hd⟩ := List.mem_flatMap.mp hd
  obtain ⟨package, _, rfl⟩ := List.mem_map.mp hresult
  unfold packageResult at hd
  split at hd
  · exact absurd hd List.not_mem_nil
  · rw [List.mem_singleton.mp hd]
    rfl

/-- A match is there when each suppression has a label that can be written or accepts a
finding. -/
theorem matchGraph_isOk :
    (∃ m, matchGraph (.zoned now) suppressions g index = .ok m) ↔
      ∀ position s, suppressions[position]? = some s → s.isWritable = true ∨
        ∃ f ∈ judgedFindings now suppressions g index, IsFirst now suppressions f position s := by
  rw [matchGraph, matchWith_isOk, suppressionDiagnostics_ok]
  simp only [mem_usedPositions]
  refine ⟨?_, ?_⟩
  · intro h position s hs
    rcases h (s, position) (List.mk_mem_zipIdx_iff_getElem?.mpr hs) with ⟨_, f, hf, t, ht⟩ | hw
    · obtain rfl : s = t := Option.some.inj (hs.symm.trans ht.stands)
      exact Or.inr ⟨f, hf, ht⟩
    · exact Or.inl hw
  · intro h s hs
    rcases h s.2 s.1 (List.mk_mem_zipIdx_iff_getElem?.mp hs) with hw | ⟨f, hf, hfirst⟩
    · exact Or.inr hw
    · exact Or.inl ⟨hfirst.inTime, f, hf, s.1, hfirst⟩

/-- What a match has next to a match of the same graph without suppressions. -/
structure Conserves (now : Calendar.Instant) (suppressions : List Suppression) (g : Graph)
    (index : Index) (bare m : Matching) : Prop where
  /-- Of the packages that are judged without suppressions, every finding is reported or
  accepted, as often as it is found. -/
  whole : ((m.findings ++ m.suppressed.map (·.finding)).filter fun f =>
    isJudged now [] g index f.node.group).Perm bare.findings
  /-- What is reported comes in the same order. -/
  part : (m.findings.filter fun f => isJudged now [] g index f.node.group).Sublist bare.findings
  /-- What is accepted comes with the first suppression in force. -/
  first : ∀ x ∈ m.suppressed,
    ∃ position, IsFirst now suppressions x.finding position x.suppression
  /-- After the diagnostics about packages come those about each suppression in turn, and
  which they are is settled by what the suppression comes to. -/
  standing : ∃ (errors : List Diagnostic) (parts : List (List Diagnostic)),
    m.diagnostics = errors ++ parts.flatten ∧
    (∀ d ∈ errors, d.kind = DiagnosticKind.packageError.name) ∧ parts.length = suppressions.length ∧
    ∀ position s, suppressions[position]? = some s →
      ∃ found, parts[position]? = some found ∧ Standing now suppressions m position s found ∧
        ∀ other, Standing now suppressions m position s other → other = found

theorem isAccepted_nil {f : Finding} : f.isAccepted now [] = false := rfl

theorem matchGraph_nil :
    ∃ bare, matchGraph (.zoned now) [] g index = .ok bare ∧
      bare.findings = judgedFindings now [] g index ∧ bare.suppressed = [] := by
  have hok : ∃ bare, matchGraph (.zoned now) [] g index = .ok bare :=
    matchGraph_isOk.mpr (by simp)
  obtain ⟨bare, hbare⟩ := hok
  refine ⟨bare, hbare, ?_, ?_⟩
  · rw [match_findings hbare]
    simp [isAccepted_nil]
  · rw [← List.map_eq_nil_iff, match_suppressed hbare]
    simp [isAccepted_nil]

theorem conserves_of_match {bare m : Matching}
    (hbare : bare.findings = judgedFindings now [] g index)
    (hm : matchGraph (.zoned now) suppressions g index = .ok m) :
    Conserves now suppressions g index bare m := by
  have hjudged : (judgedFindings now suppressions g index).filter
      (fun f => isJudged now [] g index f.node.group) = judgedFindings now [] g index :=
    judgedFindings_filter (List.nil_sublist suppressions)
  refine ⟨?_, ?_, fun x hx => isFirst_of_match hm hx, ?_⟩
  · rw [match_findings hm, match_suppressed hm, hbare, ← hjudged]
    refine List.Perm.filter _ ?_
    exact List.perm_append_comm.trans (List.filter_append_perm _ _)
  · rw [match_findings hm, hbare, ← hjudged, List.filter_filter]
    refine List.monotone_filter_right _ fun f hf => ?_
    exact ((Bool.and_eq_true _ _).mp hf).1
  · obtain ⟨about, habout, hparts⟩ := matchWith_ok.mp hm
    obtain ⟨parts, rfl, hlength, hstanding⟩ :=
      suppressionDiagnostics_standing (fun _ => mem_used_iff hm) habout
    refine ⟨_, parts, by rw [hparts], packageDiagnostics_kind, hlength, hstanding⟩

/-- More suppressions report nothing more of the packages that are judged with fewer. -/
theorem findings_sublist {m m' : Matching} (h : suppressions.Sublist more)
    (hm : matchGraph (.zoned now) suppressions g index = .ok m)
    (hm' : matchGraph (.zoned now) more g index = .ok m') :
    (m'.findings.filter fun f => isJudged now suppressions g index f.node.group).Sublist
      m.findings := by
  rw [match_findings hm, match_findings hm', ← judgedFindings_filter h, List.filter_filter,
    List.filter_filter]
  refine List.monotone_filter_right _ fun f hf => ?_
  obtain ⟨hjudged, hfree⟩ := (Bool.and_eq_true _ _).mp hf
  refine (Bool.and_eq_true _ _).mpr ⟨?_, hjudged⟩
  rw [Bool.not_eq_true'] at hfree ⊢
  rw [← Bool.not_eq_true] at hfree ⊢
  exact fun haccepted => hfree (isAccepted_mono h haccepted)

/-- With versions that can be logged every package is judged. -/
theorem isJudged_of_writable (h : ∀ n ∈ g.nodes, n.version.isWritable = true) :
    isJudged now suppressions g index package = true := by
  refine isJudged_iff.mpr fun f hf _ => ?_
  obtain ⟨n, hn, hr⟩ := List.mem_flatMap.mp hf
  obtain ⟨r, _, rfl⟩ := List.mem_map.mp hr
  exact h n (List.mem_filter.mp hn).1

/--
**What suppressions do to a match.** Take any graph, any index and any suppressions.

Without suppressions there is a match. With them there is one exactly when the label of
every suppression that is over or accepts nothing can be written.

It then reports and accepts just what is found without them, the reported part in the same
order, and more suppressions report nothing more; each accepted finding comes with the first
suppression in force, and each suppression is over, used or unused, with its diagnostic.

Packages can make a difference here when a dependency has a version that cannot be logged:
a package with such a version is passed over until every exposed one is accepted. When all
versions can be logged this does not come up.
-/
theorem suppressing_exact (now : Calendar.Instant) (suppressions : List Suppression) (g : Graph)
    (index : Index) :
    (∀ package, isJudged now suppressions g index package = true ↔
      ∀ f ∈ packageFindings g index package, CanJudge now suppressions f) ∧
    ((∃ m, matchGraph (.zoned now) suppressions g index = .ok m) ↔
      ∀ position s, suppressions[position]? = some s → s.isWritable = true ∨
        ∃ f ∈ judgedFindings now suppressions g index, IsFirst now suppressions f position s) ∧
    ∃ bare, matchGraph (.zoned now) [] g index = .ok bare ∧ bare.suppressed = [] ∧
      ∀ m, matchGraph (.zoned now) suppressions g index = .ok m →
        Conserves now suppressions g index bare m ∧
        (∀ more m', suppressions.Sublist more → matchGraph (.zoned now) more g index = .ok m' →
          (m'.findings.filter fun f => isJudged now suppressions g index f.node.group).Sublist
            m.findings) ∧
        ((∀ n ∈ g.nodes, n.version.isWritable = true) →
          (m.findings ++ m.suppressed.map (·.finding)).Perm bare.findings ∧
          m.findings.Sublist bare.findings ∧
          ∀ more m', suppressions.Sublist more → matchGraph (.zoned now) more g index = .ok m' →
            m'.findings.Sublist m.findings) := by
  have hnil : ∃ bare, matchGraph (.zoned now) [] g index = .ok bare ∧
      bare.findings = judgedFindings now [] g index ∧ bare.suppressed = [] := matchGraph_nil
  obtain ⟨bare, hbare, hfindings, hsuppressed⟩ := hnil
  refine ⟨fun _ => isJudged_iff, matchGraph_isOk, bare, hbare, hsuppressed, ?_⟩
  intro m hm
  have hconserves := conserves_of_match hfindings hm
  have hmore : ∀ more m', suppressions.Sublist more →
      matchGraph (.zoned now) more g index = .ok m' →
      (m'.findings.filter fun f => isJudged now suppressions g index f.node.group).Sublist
        m.findings :=
    fun _ _ h hm' => findings_sublist h hm hm'
  refine ⟨hconserves, hmore, ?_⟩
  intro hwritable
  -- where every label can be written, every package is judged and nothing is set aside
  have hall : ∀ (S : List Suppression) (found : List Finding),
      found.filter (fun f => isJudged now S g index f.node.group) = found :=
    fun S found => List.filter_eq_self.mpr fun _ _ => isJudged_of_writable hwritable
  refine ⟨?_, ?_, ?_⟩
  · rw [← hall [] (m.findings ++ _)]
    exact hconserves.whole
  · rw [← hall [] m.findings]
    exact hconserves.part
  · intro more m' h hm'
    rw [← hall suppressions m'.findings]
    exact hmore more m' h hm'

end LockAudit

import LockAudit.Proofs.Advisory.Spelling
import LockAudit.Proofs.Audit.Matching

/-!
# How packages are spelled does not show

The name of a package is in the records, in the suppressions and in the graph, and each
of them may spell it in its own way. Wherever two of them meet, names are compared as they
are looked up. So judging commutes with forgetting how records and suppressions spell
their packages: a finding comes to the same outcome, by a suppression at the same place.

What a match says may still show a spelling, in two places. A finding carries its record,
and its suppression if it has one, with the package as it was spelled there. And a
diagnostic about a suppression calls it by its label, which may name a package.
`Matching.SpelledAlike` says of two matches that they differ in nothing else.
-/

namespace LockAudit

open Lockfile (Node Graph)
open Advisory (Record Index Feed WithdrawnPolicy)

/-! ## Forgetting the spelling -/

/-- The suppression with its package as it is looked up. -/
def Suppression.unspelled (s : Suppression) : Suppression :=
  { s with
    package := s.package.map PackageName.canonical
    named := by rw [Option.isSome_map]; exact s.named }

/-- The outcome with its suppression unspelled. -/
def Outcome.unspelled : Outcome → Outcome
  | .suppressed position s => .suppressed position s.unspelled
  | o => o

/-- The finding with its record unspelled. -/
def Finding.unspelled (f : Finding) : Finding := ⟨f.node, f.record.unspelled⟩

/-- The finding and its suppression unspelled. -/
def SuppressedFinding.unspelled (f : SuppressedFinding) : SuppressedFinding :=
  ⟨f.finding.unspelled, f.suppression.unspelled⟩

/-- The judgement with its finding and its outcome unspelled. -/
def Judgement.unspelled (j : Judgement) : Judgement := ⟨j.finding.unspelled, j.outcome.unspelled⟩

variable {clock : Calendar.ClockReading} {now : Calendar.Instant}
  {suppressions suppressions' : List Suppression} {n : Node} {r : Record} {g : Graph}
  {index index' : Index} {package : String}

/-! ## Judging -/

@[simp]
theorem Suppression.expires_unspelled (s : Suppression) : s.unspelled.expires = s.expires := rfl

@[simp]
theorem Suppression.isExpired_unspelled (s : Suppression) :
    s.unspelled.isExpired now = s.isExpired now := rfl

/-- A name agrees with others as its form for look-ups does. -/
theorem PackageName.agree_canonical (a b : String) : agree (canonical a) b = agree a b := by
  unfold agree
  rw [canonical_canonical]

/-- Whether a suppression applies to a record does not depend on how either is spelled. -/
@[simp]
theorem Suppression.applies_unspelled (s : Suppression) :
    s.unspelled.applies n r.unspelled = s.applies n r := by
  have hpackage : (s.package.map PackageName.canonical).all
      (fun package => PackageName.agree package n.name) =
        s.package.all fun package => PackageName.agree package n.name := by
    cases s.package with
    | none => rfl
    | some name => exact PackageName.agree_canonical name n.name
  unfold Suppression.applies
  rw [funext r.hasIdentifier_unspelled]
  unfold Suppression.unspelled
  dsimp only
  rw [hpackage]

/-- The first suppression in force is the same one. -/
theorem firstInForce_unspelled :
    firstInForce now (suppressions.map Suppression.unspelled) n r.unspelled =
      (firstInForce now suppressions n r).map fun s => (s.1.unspelled, s.2) := by
  unfold firstInForce Suppression.isInForce
  rw [List.zipIdx_map, List.find?_map]
  have hsame : (fun s : Suppression × Nat => s.1.applies n r.unspelled && !s.1.isExpired now) ∘
      Prod.map Suppression.unspelled id = fun s => s.1.applies n r && !s.1.isExpired now := by
    funext s
    exact congrArg (· && _) (Suppression.applies_unspelled s.1)
  rw [hsame]
  rfl

@[simp]
theorem Advisory.Record.affects_unspelled (r : Record) (v : Precedence) :
    r.unspelled.affects v = r.affects v := by
  unfold affects unspelled
  rfl

@[simp]
theorem Advisory.Record.patches_unspelled (r : Record) (v : Precedence) :
    r.unspelled.patches v = r.patches v := by
  unfold patches unspelled
  rfl

@[simp]
theorem Advisory.Record.concerns_unspelled (r : Record) (v : Precedence) :
    r.unspelled.concerns v = r.concerns v := by
  unfold concerns
  rw [isWithdrawn_unspelled, affects_unspelled, patches_unspelled]

theorem needsClock_unspelled :
    needsClock (suppressions.map Suppression.unspelled) n r.unspelled =
      needsClock suppressions n r := by
  have hsame : (fun s : Suppression => s.applies n r.unspelled) ∘ Suppression.unspelled =
      fun s => s.applies n r :=
    funext Suppression.applies_unspelled
  unfold needsClock
  rw [Record.concerns_unspelled, List.find?_map, hsame, Option.any_map]
  rfl

theorem outcome_unspelled :
    outcome now (suppressions.map Suppression.unspelled) n r.unspelled =
      (outcome now suppressions n r).unspelled := by
  unfold outcome
  rw [firstInForce_unspelled, Record.isWithdrawn_unspelled, Record.affects_unspelled,
    Record.patches_unspelled]
  split
  · rfl
  · split
    · rfl
    · split
      · rfl
      · cases firstInForce now suppressions n r <;> rfl

/-- **A record means the same for a dependency.** -/
theorem evaluate_unspelled :
    evaluate clock (suppressions.map Suppression.unspelled) n r.unspelled =
      (evaluate clock suppressions n r).map Outcome.unspelled := by
  unfold evaluate
  cases clock with
  | zoned now => exact congrArg Except.ok outcome_unspelled
  | unzoned date time =>
      rw [needsClock_unspelled, outcome_unspelled]
      dsimp only
      split <;> rfl

theorem unspelled_eq_vulnerable {o : Outcome} : o.unspelled = .vulnerable ↔ o = .vulnerable := by
  cases o <;> simp [Outcome.unspelled]

theorem standard_unspelled :
    Judge.standard clock (suppressions.map Suppression.unspelled) n r.unspelled =
      (Judge.standard clock suppressions n r).map Outcome.unspelled := by
  unfold Judge.standard
  rw [evaluate_unspelled]
  cases evaluate clock suppressions n r with
  | error e => rfl
  | ok o =>
      simp only [Except.map, Result.lift_unzoned, Result.mapError_ok_eq, Result.ok_bind,
        unspelled_eq_vulnerable]
      split <;> rfl

/-! ## Matching -/

theorem packageFindings_unspelled :
    packageFindings g index.unspelled package =
      (packageFindings g index package).map Finding.unspelled := by
  unfold packageFindings
  rw [List.map_flatMap]
  refine List.flatMap_congr fun n _ => ?_
  rw [Index.query_unspelled, List.map_map, List.map_map]
  rfl

/-- **A package comes to the same judgements, or to the same failure.** -/
theorem packageResult_unspelled :
    packageResult (.standard clock (suppressions.map Suppression.unspelled)) g index.unspelled
        package =
      (((packageResult (.standard clock suppressions) g index package).1.map Judgement.unspelled),
        (packageResult (.standard clock suppressions) g index package).2) := by
  have hjudge : judgePackage (.standard clock (suppressions.map Suppression.unspelled)) g
      index.unspelled package =
        (judgePackage (.standard clock suppressions) g index package).map
          (List.map Judgement.unspelled) := by
    unfold judgePackage
    rw [packageFindings_unspelled]
    refine Result.mapM_map (fun f => ?_) _
    unfold Finding.unspelled
    rw [standard_unspelled]
    cases Judge.standard clock suppressions f.node f.record <;> rfl
  unfold packageResult
  rw [hjudge]
  cases judgePackage (.standard clock suppressions) g index package <;> rfl

theorem judgements_unspelled :
    judgements (.standard clock (suppressions.map Suppression.unspelled)) g index.unspelled =
      (judgements (.standard clock suppressions) g index).map Judgement.unspelled := by
  unfold judgements
  rw [List.flatMap_map, List.flatMap_map, List.map_flatMap]
  exact List.flatMap_congr fun package _ => by rw [packageResult_unspelled]

/-- What is picked out of a judgement is picked out of it unspelled. -/
theorem filterMap_unspelled {α β : Type} {pick : Judgement → Option α}
    {pick' : Judgement → Option β} {unspelled : α → β}
    (h : ∀ j : Judgement, pick' j.unspelled = (pick j).map unspelled) (js : List Judgement) :
    (js.map Judgement.unspelled).filterMap pick' = (js.filterMap pick).map unspelled := by
  rw [List.filterMap_map, List.map_filterMap]
  exact List.filterMap_congr fun j _ => h j

theorem vulnerable?_unspelled (j : Judgement) :
    j.unspelled.vulnerable? = j.vulnerable?.map Finding.unspelled := by
  obtain ⟨f, o⟩ := j
  cases o <;> rfl

theorem suppressed?_unspelled (j : Judgement) :
    j.unspelled.suppressed? = j.suppressed?.map SuppressedFinding.unspelled := by
  obtain ⟨f, o⟩ := j
  cases o <;> rfl

theorem used?_unspelled (j : Judgement) : j.unspelled.used? = j.used?.map id := by
  obtain ⟨f, o⟩ := j
  cases o <;> rfl

/-! ## Labels -/

/-- The two diagnostics are the same, or say the same of the suppressions at one place in
either list. Labels show how packages are spelled. -/
inductive Diagnostic.SpelledAlike (suppressions suppressions' : List Suppression) :
    Diagnostic → Diagnostic → Prop
  | same (d : Diagnostic) : SpelledAlike suppressions suppressions' d d
  | labelled {kind : DiagnosticKind} {rest label label' : String} {position : Nat}
      {s s' : Suppression} (first : suppressions[position]? = some s)
      (second : suppressions'[position]? = some s') (written : s.label = .ok label)
      (written' : s'.label = .ok label') :
      SpelledAlike suppressions suppressions'
        (.of kind ("suppression " ++ (label ++ rest)) (some label))
        (.of kind ("suppression " ++ (label' ++ rest)) (some label'))

/-- Labels are written or not, however the package is spelled. -/
theorem Suppression.label_alike {s s' : Suppression} (h : s'.unspelled = s.unspelled) :
    (∃ label label', s.label = .ok label ∧ s'.label = .ok label') ∨
      ∃ cause, s.label = .error cause ∧ s'.label = .error cause := by
  have hversion : s'.unspelled.version = s.unspelled.version := congrArg Suppression.version h
  change s'.version = s.version at hversion
  unfold Suppression.label Suppression.labelParts
  rw [hversion]
  cases s.version with
  | none => exact Or.inl ⟨_, _, rfl, rfl⟩
  | some range =>
      dsimp only
      cases range.text? with
      | ok text => exact Or.inl ⟨_, _, rfl, rfl⟩
      | error cause => exact Or.inr ⟨cause, rfl, rfl⟩

/-- Two suppressions at one place, alike but for the spelling. -/
structure StandAlike (suppressions suppressions' : List Suppression) (s s' : Suppression × Nat) :
    Prop where
  position : s'.2 = s.2
  first : suppressions[s.2]? = some s.1
  second : suppressions'[s.2]? = some s'.1
  unspelled : s'.1.unspelled = s.1.unspelled

theorem zipIdx_standAlike
    (h : suppressions'.map Suppression.unspelled = suppressions.map Suppression.unspelled) :
    List.Forall₂ (StandAlike suppressions suppressions') suppressions.zipIdx
      suppressions'.zipIdx := by
  have hlength : suppressions'.length = suppressions.length := by
    have hmapped := congrArg List.length h
    rwa [List.length_map, List.length_map] at hmapped
  refine List.forall₂_iff_get.mpr ⟨by simp [hlength], fun i hi hi' => ?_⟩
  rw [List.length_zipIdx] at hi hi'
  simp only [List.get_eq_getElem, List.getElem_zipIdx, Nat.zero_add]
  refine ⟨rfl, List.getElem?_eq_getElem hi, List.getElem?_eq_getElem hi', ?_⟩
  have hplace := congrArg (·[i]?) h
  simpa [hi, hi'] using hplace

theorem suppressionDiagnostic_alike {used : List Nat} {s s' : Suppression × Nat}
    (h : StandAlike suppressions suppressions' s s') :
    Result.Alike (List.Forall₂ (Diagnostic.SpelledAlike suppressions suppressions'))
      (suppressionDiagnostic clock used s) (suppressionDiagnostic clock used s') := by
  have hexpires : s'.1.unspelled.expires = s.1.unspelled.expires :=
    congrArg Suppression.expires h.unspelled
  rw [Suppression.expires_unspelled, Suppression.expires_unspelled] at hexpires
  -- the expiry date is no text, so both expire together
  have hover : s'.1.isExpiredBy clock = s.1.isExpiredBy clock := by
    unfold Suppression.isExpiredBy Suppression.isExpired
    rw [hexpires]
  unfold suppressionDiagnostic
  rw [hover, hexpires, h.position]
  simp only [Result.lift_unzoned, Result.lift_oversized, String.append_assoc]
  cases s.1.isExpiredBy clock with
  | error e => exact .error _
  | ok expired =>
      -- the labels differ only in spelling, or neither can be written and for the same cause
      rcases Suppression.label_alike h.unspelled with ⟨label, label', hl, hl'⟩ | ⟨cause, hl, hl'⟩
      · rw [hl, hl']
        cases expired with
        | true => exact .ok (.cons (.labelled h.first h.second hl hl') .nil)
        | false =>
            simp only [Result.mapError_ok_eq, Result.ok_bind, Bool.false_eq_true, if_false]
            split
            · exact .ok .nil
            · exact .ok (.cons (.labelled h.first h.second hl hl') .nil)
      · rw [hl, hl']
        cases expired with
        | true => exact .error _
        | false =>
            simp only [Result.mapError_ok_eq, Result.ok_bind, Bool.false_eq_true, if_false]
            split
            · exact .ok .nil
            · exact .error _

theorem suppressionDiagnostics_alike {used : List Nat}
    (h : suppressions'.map Suppression.unspelled = suppressions.map Suppression.unspelled) :
    Result.Alike (List.Forall₂ (Diagnostic.SpelledAlike suppressions suppressions'))
      (suppressionDiagnostics clock suppressions used)
      (suppressionDiagnostics clock suppressions' used) := by
  unfold suppressionDiagnostics
  refine (Result.Alike.mapM (zipIdx_standAlike h) fun s s' => suppressionDiagnostic_alike).bind
    fun parts parts' hparts => .ok ?_
  exact List.rel_flatten hparts

/-! ## Matches -/

/-- Two matches differ in nothing but how packages are spelled in records and suppressions. -/
structure Matching.SpelledAlike (suppressions suppressions' : List Suppression) (m m' : Matching) :
    Prop where
  findings : m'.findings.map Finding.unspelled = m.findings.map Finding.unspelled
  suppressed : m'.suppressed.map SuppressedFinding.unspelled =
    m.suppressed.map SuppressedFinding.unspelled
  diagnostics :
    List.Forall₂ (Diagnostic.SpelledAlike suppressions suppressions') m.diagnostics m'.diagnostics

/-- **Two lists of suppressions and two indexes that are alike make matches that are alike.** -/
theorem matchGraph_alike (hgroups : index'.unspelled.groups = index.unspelled.groups)
    (h : suppressions'.map Suppression.unspelled = suppressions.map Suppression.unspelled) :
    Result.Alike (Matching.SpelledAlike suppressions suppressions')
      (matchGraph clock suppressions g index) (matchGraph clock suppressions' g index') := by
  -- unspelled, both are judged as the same suppressions judge the same index
  have hresult (package : String) :
      packageResult (.standard clock (suppressions'.map Suppression.unspelled)) g index'.unspelled
        package =
      packageResult (.standard clock (suppressions.map Suppression.unspelled)) g index.unspelled
        package := by
    rw [h, packageResult_congr hgroups]
  have hjudgements : (judgements (.standard clock suppressions') g index').map
      Judgement.unspelled =
        (judgements (.standard clock suppressions) g index).map Judgement.unspelled := by
    rw [← judgements_unspelled, ← judgements_unspelled]
    unfold judgements
    rw [List.map_congr_left fun package _ => hresult package]
  have habout (package : String) :
      (packageResult (.standard clock suppressions') g index' package).2 =
        (packageResult (.standard clock suppressions) g index package).2 := by
    have hsecond := congrArg Prod.snd (hresult package)
    rwa [packageResult_unspelled, packageResult_unspelled] at hsecond
  have hused : (judgements (.standard clock suppressions') g index').filterMap (·.used?) =
      (judgements (.standard clock suppressions) g index).filterMap (·.used?) := by
    have hpicked := congrArg (List.filterMap (·.used?)) hjudgements
    rwa [filterMap_unspelled used?_unspelled, filterMap_unspelled used?_unspelled, List.map_id,
      List.map_id] at hpicked
  unfold matchGraph
  rw [matchWith_eq, matchWith_eq, hused]
  refine (suppressionDiagnostics_alike h).bind fun about about' hlabels => .ok ⟨?_, ?_, ?_⟩
  · have hpicked := congrArg (List.filterMap (·.vulnerable?)) hjudgements
    rwa [filterMap_unspelled vulnerable?_unspelled, filterMap_unspelled vulnerable?_unspelled]
      at hpicked
  · have hpicked := congrArg (List.filterMap (·.suppressed?)) hjudgements
    rwa [filterMap_unspelled suppressed?_unspelled, filterMap_unspelled suppressed?_unspelled]
      at hpicked
  · refine List.rel_append ?_ hlabels
    rw [List.flatMap_map, List.flatMap_map, List.flatMap_congr fun package _ => habout package]
    exact List.forall₂_same.mpr fun d _ => .same d

/--
**How packages are spelled does not show.** Take any feed that loads, in which no two
records have one id and one package, as packages are looked up, and any other feed with
the same entries up to the spelling of their packages.

It loads as well, and for each package it has the same records in the same order, up to
their spelling. Take two lists of suppressions that are the same up to the spelling of
their packages. With any graph and any clock, the matches come to one failure, or to the
same findings, suppressed findings and diagnostics, each in the same order, where only
the spelling may differ: in the record, in the suppression and in its label.
-/
theorem spelling_unobservable {f f' : Feed} {policy : WithdrawnPolicy}
    {entries entries' : List Value} (hentries : f.entries = .ok entries)
    (hentries' : f'.entries = .ok entries')
    (hspelled : entries'.map Advisory.unspelledEntry = entries.map Advisory.unspelledEntry)
    (hdistinct : Advisory.AreDistinct entries) {index : Index}
    (h : f.load policy = .ok index) :
    ∃ index', f'.load policy = .ok index' ∧
      (∀ package, (index'.query package).map Record.unspelled =
        (index.query package).map Record.unspelled) ∧
      ∀ clock suppressions suppressions' g,
        suppressions'.map Suppression.unspelled = suppressions.map Suppression.unspelled →
          Result.Alike (Matching.SpelledAlike suppressions suppressions')
            (matchGraph clock suppressions g index) (matchGraph clock suppressions' g index') := by
  obtain ⟨index', h', hgroups⟩ :=
    Feed.load_unspelled hentries hentries' hspelled hdistinct h
  refine ⟨index', h', ?_, ?_⟩
  · intro package
    rw [← Index.query_unspelled, ← Index.query_unspelled]
    unfold Index.query
    rw [hgroups]
  · intro clock suppressions suppressions' g hsuppressions
    exact matchGraph_alike hgroups hsuppressions

/-- A suppression of everything in a package. -/
def acceptedPackage (package : String) : Suppression :=
  { reason := "accepted", package := some package, named := rfl }

/-- Two spellings of one package, in a record and in a suppression. -/
theorem spelling_unobservable_underscore :
    ∃ index index',
      (Feed.listing [Advisory.plainEntry "A" "Left_Pad"]).load .retain = .ok index ∧
      (Feed.listing [Advisory.plainEntry "A" " left-pad"]).load .retain = .ok index' ∧
      ∀ clock g, Result.Alike
        (Matching.SpelledAlike [acceptedPackage "LEFT-PAD"] [acceptedPackage "left_pad"])
        (matchGraph clock [acceptedPackage "LEFT-PAD"] g index)
        (matchGraph clock [acceptedPackage "left_pad"] g index') := by
  have hplain (package : String) : ∀ e ∈ [Advisory.plainEntry "A" package], Json.IsPlain e := by
    simp [Advisory.isPlain_plainEntry]
  have hload : ((Feed.listing [Advisory.plainEntry "A" "Left_Pad"]).load .retain).toOption.isSome =
      true := by decide +kernel
  obtain ⟨index, hindex⟩ := Result.isSome_toOption.mp hload
  -- blanks, case and underscores are what the two spellings differ in
  have hname : PackageName.canonical " left-pad" = PackageName.canonical "Left_Pad" := by
    decide +kernel
  have hspelled : [Advisory.plainEntry "A" " left-pad"].map Advisory.unspelledEntry =
      [Advisory.plainEntry "A" "Left_Pad"].map Advisory.unspelledEntry := by
    simp [Advisory.plainEntry, Advisory.unspelledEntry, Advisory.unspelledFields,
      Advisory.unspelledField, Advisory.unspelledName, hname]
  obtain ⟨index', hindex', _, hmatch⟩ :=
    spelling_unobservable (Feed.entries_listing (hplain "Left_Pad"))
      (Feed.entries_listing (hplain " left-pad")) hspelled (by decide +kernel) hindex
  exact ⟨index, index', hindex, hindex', fun clock g => hmatch clock _ _ g (by decide +kernel)⟩

end LockAudit

import LockAudit.Proofs.Advisory.Index
import LockAudit.Proofs.Advisory.Isolation
import LockAudit.Proofs.Audit.Matching

/-!
# Withdrawn records and matches

A policy keeps withdrawn records or leaves them out. Two loads of one feed, one under
either policy, go in step: they have seen the same keys, because a record counts as seen
before it is asked whether it is withdrawn; and what the one has kept is what the other
has kept without the withdrawn records. Sorting the records of a package keeps that, so an
index made without withdrawn records gives the records of the other one that are not
withdrawn, in the same order.

A withdrawn record means nothing for any dependency, whatever the clock and the
suppressions, and is judged before either is looked at. So a match comes to the same.
-/

namespace LockAudit

namespace Advisory

/-! ## The two loads -/

namespace Load

variable {l l' m : Load} {entry : Value} {entries : List Value} {position position' : Nat}

/-- The second load is like the first, without the withdrawn records. -/
structure KeepsLive (l l' : Load) : Prop where
  seen : l'.seen = l.seen
  kept : l'.kept = l.kept.filter (!·.isWithdrawn)

/-- **Step.** Where no record is left out, leaving out the withdrawn ones goes in step. -/
theorem step_keepsLive (h : KeepsLive l l') (hstep : l.step .retain position entry = .ok m) :
    ∃ m', l'.step .drop position' entry = .ok m' ∧ KeepsLive m m' := by
  have hsteps := step_stepsTo .retain l position entry
  rw [hstep] at hsteps
  cases hsteps with
  | dropped reads => exact ⟨_, (StepsTo.dropped reads).eq, h.seen, h.kept⟩
  | repeated reads seen =>
      rw [← h.seen] at seen
      exact ⟨_, (StepsTo.repeated reads seen).eq, h.seen, h.kept⟩
  | withdrawn reads unseen excluded => exact absurd excluded (by simp [WithdrawnPolicy.excludes])
  | @kept r found reads unseen included diagnosed =>
      rw [← h.seen] at unseen
      cases hwithdrawn : r.isWithdrawn with
      | true =>
          -- seen in both loads: a later record with its key stays out of both
          have hexcluded : WithdrawnPolicy.drop.excludes r = true := by
            simp [WithdrawnPolicy.excludes, hwithdrawn]
          refine ⟨_, (StepsTo.withdrawn reads unseen hexcluded).eq, ?_, ?_⟩
          · exact congrArg (· ++ [r.key]) h.seen
          · change l'.kept = (l.kept ++ [r]).filter _
            rw [List.filter_append, h.kept, List.filter_cons_of_neg (by simp [hwithdrawn])]
            exact (List.append_nil _).symm
      | false =>
          -- a live record is kept in both
          have hincluded : WithdrawnPolicy.drop.excludes r = false := by
            simp [WithdrawnPolicy.excludes, hwithdrawn]
          refine ⟨_, (StepsTo.kept reads unseen hincluded diagnosed).eq, ?_, ?_⟩
          · exact congrArg (· ++ [r.key]) h.seen
          · change l'.kept ++ [r] = (l.kept ++ [r]).filter _
            rw [List.filter_append, h.kept, List.filter_cons_of_pos (by simp [hwithdrawn])]
            rfl

/-- **Run.** -/
theorem steps_keepsLive (h : KeepsLive l l') (hsteps : steps .retain l position entries = .ok m) :
    ∃ m', steps .drop l' position' entries = .ok m' ∧ KeepsLive m m' := by
  induction entries generalizing l l' position position' with
  | nil =>
      cases hsteps
      exact ⟨l', rfl, h⟩
  | cons entry entries ih =>
      rw [steps] at hsteps
      obtain ⟨next, hnext, hsteps⟩ := Result.bind_ok.mp hsteps
      obtain ⟨next', hnext', hlive⟩ := step_keepsLive h hnext
      obtain ⟨m', hm', hlive⟩ := ih hlive hsteps
      exact ⟨m', by rw [steps, hnext']; exact hm', hlive⟩

end Load

/-- What stops the load with the withdrawn records: what stops the other one, or a withdrawn
record whose ranges overlap and are too long to be written. -/
theorem blocks_retain {before : List Value} {entry : Value} :
    (∃ c, Blocks .retain before entry c) ↔
      (∃ c, Blocks .drop before entry c) ∨
        ∃ r, readRecord entry = .ok r ∧ IsKept .retain before r ∧ r.isWithdrawn = true ∧
          r.overlaps = true ∧ r.isWritable = false := by
  constructor
  · intro h
    obtain ⟨c, hblocks⟩ := h
    cases hblocks with
    | escapes escapes => exact .inl ⟨c, .escapes escapes⟩
    | @overlap r reads kept overlaps long =>
        -- dropping leaves out withdrawn records only, so any other one blocks either way
        cases hwithdrawn : r.isWithdrawn with
        | true => exact .inr ⟨r, reads, kept, hwithdrawn, overlaps, long⟩
        | false =>
            have hincluded : WithdrawnPolicy.drop.excludes r = false := by
              simp [WithdrawnPolicy.excludes, hwithdrawn]
            exact .inl ⟨_, .overlap reads ⟨kept.first, hincluded⟩ overlaps long⟩
  · intro h
    rcases h with ⟨c, hblocks⟩ | ⟨r, reads, kept, _, overlaps, long⟩
    · cases hblocks with
      | escapes escapes => exact ⟨c, .escapes escapes⟩
      | overlap reads kept overlaps long =>
          exact ⟨_, .overlap reads ⟨kept.first, rfl⟩ overlaps long⟩
    · exact ⟨_, .overlap reads kept overlaps long⟩

/-- When a feed that loads without its withdrawn records loads with them. -/
theorem Feed.load_retain_ok {f : Feed} :
    (∃ i, f.load .retain = .ok i) ↔
      (∃ i, f.load .drop = .ok i) ∧ ∀ before e after r, f.entries = .ok (before ++ e :: after) →
        readRecord e = .ok r → IsKept .retain before r → r.isWithdrawn = true →
          r.overlaps = true → r.isWritable = true := by
  rw [load_ok, load_ok]
  constructor
  · intro h
    obtain ⟨entries, hentries, hfree⟩ := h
    refine ⟨⟨entries, hentries, ?_⟩, ?_⟩
    · -- what would stop the load without them would stop this one as well
      intro before e after c heq hblocks
      obtain ⟨c', hretain⟩ := blocks_retain.mpr (.inl ⟨c, hblocks⟩)
      exact hfree before e after c' heq hretain
    · intro before e after r heq hread hkept hwithdrawn hoverlaps
      rw [hentries] at heq
      cases hwritable : r.isWritable with
      | true => rfl
      | false =>
          obtain ⟨c, hretain⟩ :=
            blocks_retain.mpr (.inr ⟨r, hread, hkept, hwithdrawn, hoverlaps, hwritable⟩)
          exact absurd hretain (hfree before e after c (Except.ok.inj heq))
  · intro h
    obtain ⟨⟨entries, hentries, hfree⟩, hwritable⟩ := h
    refine ⟨entries, hentries, ?_⟩
    intro before e after c heq hblocks
    rcases blocks_retain.mp ⟨c, hblocks⟩ with ⟨c', hdrop⟩ | ⟨r, hread, hkept, hwith, hover, hlong⟩
    · exact hfree before e after c' heq hdrop
    · rw [heq] at hentries
      rw [hwritable before e after r hentries hread hkept hwith hover] at hlong
      exact absurd hlong (by simp)

/-! ## The two indexes -/

/-- The second index gives the records of the first that are not withdrawn, in order. -/
def Index.KeepsLive (i i' : Index) : Prop :=
  ∀ package, i'.query package = (i.query package).filter (!·.isWithdrawn)

/-- A feed that loads with its withdrawn records loads without them. -/
theorem Feed.load_keepsLive {f : Feed} {retained : Index} (h : f.load .retain = .ok retained) :
    ∃ dropped, f.load .drop = .ok dropped ∧ retained.KeepsLive dropped := by
  obtain ⟨entries, l, hentries, hl, rfl⟩ := exists_load h
  have hempty : Load.KeepsLive {} {} := ⟨rfl, rfl⟩
  -- both loads start with nothing
  obtain ⟨l', hl', hlive⟩ := Load.steps_keepsLive hempty hl
  refine ⟨l'.index f.fetchedAt f.origin, ?_, fun package => ?_⟩
  · rw [load_eq hentries, hl']
    rfl
  · rw [Index.query_of_groups rfl, Index.query_of_groups rfl, hlive.kept, groupRecords_filter]

end Advisory

/-! ## The two matches -/

open Lockfile (Node Graph)
open Advisory (Record Index Feed)

variable {clock : Calendar.ClockReading} {suppressions : List Suppression} {g : Graph}
  {retained dropped : Index} {n : Node} {r : Record} {package : String}

/-- A withdrawn record means nothing, and needs no clock for that. -/
theorem standard_withdrawn (h : r.isWithdrawn = true) :
    Judge.standard clock suppressions n r = .ok .withdrawn := by
  have hclock : needsClock suppressions n r = false := by
    simp [needsClock, Record.concerns, h]
  have houtcome (now : Calendar.Instant) : outcome now suppressions n r = .withdrawn := by
    simp [outcome, h]
  have hevaluate : evaluate clock suppressions n r = .ok .withdrawn := by
    unfold evaluate
    cases clock <;> simp [hclock, houtcome]
  unfold Judge.standard
  rw [hevaluate]
  rfl

theorem packageFindings_keepsLive (h : retained.KeepsLive dropped) :
    packageFindings g dropped package =
      (packageFindings g retained package).filter fun f => !f.record.isWithdrawn := by
  unfold packageFindings
  rw [List.filter_flatMap]
  refine List.flatMap_congr fun n _ => ?_
  rw [h package, List.filter_map]
  rfl

/-- The results for a package agree in what is picked out of them, and in diagnostics. -/
structure PicksAlike (x y : List Judgement × List Diagnostic) : Prop where
  vulnerable : x.1.filterMap (·.vulnerable?) = y.1.filterMap (·.vulnerable?)
  suppressed : x.1.filterMap (·.suppressed?) = y.1.filterMap (·.suppressed?)
  used : x.1.filterMap (·.used?) = y.1.filterMap (·.used?)
  diagnostics : x.2 = y.2

/-- Judgements that nothing is picked out of can be left out. -/
theorem filterMap_filter_picked {α : Type} {pick : Judgement → Option α} {q : Judgement → Bool}
    {js : List Judgement} (h : ∀ j ∈ js, q j = false → pick j = none) :
    (js.filter q).filterMap pick = js.filterMap pick := by
  rw [List.filterMap_filter]
  refine List.filterMap_congr fun j hj => ?_
  cases hq : q j with
  | true => rfl
  | false => exact (h j hj hq).symm

/-- **A package comes to the same without the withdrawn records.** -/
theorem packageResult_keepsLive (h : retained.KeepsLive dropped) :
    PicksAlike (packageResult (.standard clock suppressions) g retained package)
      (packageResult (.standard clock suppressions) g dropped package) := by
  -- judging fails for neither list or for both: a withdrawn record cannot fail
  have hfiltered : judgePackage (.standard clock suppressions) g dropped package =
      (judgePackage (.standard clock suppressions) g retained package).map
        (List.filter fun j => !j.finding.record.isWithdrawn) := by
    unfold judgePackage
    rw [packageFindings_keepsLive h]
    refine Result.mapM_filter ?_ ?_
    · intro f _ j hj
      obtain ⟨o, _, hpure⟩ := Result.bind_ok.mp hj
      cases hpure
      rfl
    · intro f _ hlive
      rw [Bool.not_eq_false'] at hlive
      exact ⟨⟨f, .withdrawn⟩, by rw [standard_withdrawn hlive]; rfl⟩
  unfold packageResult
  rw [hfiltered]
  cases hjudge : judgePackage (.standard clock suppressions) g retained package with
  | error cause => exact ⟨rfl, rfl, rfl, rfl⟩
  | ok js =>
      have hwithdrawn : ∀ j ∈ js, (!j.finding.record.isWithdrawn) = false →
          j.outcome = .withdrawn := by
        intro j hj hlive
        rw [Bool.not_eq_false'] at hlive
        obtain ⟨f, _, hf⟩ := (Result.mem_of_mapM hjudge).mp hj
        obtain ⟨o, ho, hpure⟩ := Result.bind_ok.mp hf
        cases hpure
        rw [standard_withdrawn hlive] at ho
        exact (Except.ok.inj ho).symm
      refine ⟨?_, ?_, ?_, rfl⟩
      · -- what is left out is judged withdrawn, and nothing is picked out of that
        refine (filterMap_filter_picked fun j hj hlive => ?_).symm
        rw [Judgement.vulnerable?, hwithdrawn j hj hlive]
      · refine (filterMap_filter_picked fun j hj hlive => ?_).symm
        rw [Judgement.suppressed?, hwithdrawn j hj hlive]
      · refine (filterMap_filter_picked fun j hj hlive => ?_).symm
        rw [Judgement.used?, hwithdrawn j hj hlive]

/-- A match depends on what is picked out of the results for the packages. -/
theorem matchWith_congr {judge : Judge}
    (h : ∀ package, PicksAlike (packageResult judge g retained package)
      (packageResult judge g dropped package)) :
    matchWith judge clock suppressions g retained = matchWith judge clock suppressions g dropped := by
  have hpick {α : Type} (pick : Judgement → Option α)
      (hpick : ∀ package, (packageResult judge g retained package).1.filterMap pick =
        (packageResult judge g dropped package).1.filterMap pick) :
      (((packageNames g).map (packageResult judge g retained)).flatMap (·.1)).filterMap pick =
        (((packageNames g).map (packageResult judge g dropped)).flatMap (·.1)).filterMap pick := by
    rw [List.filterMap_flatMap, List.filterMap_flatMap, List.flatMap_map, List.flatMap_map]
    exact List.flatMap_congr fun package _ => hpick package
  have hdiagnostics : ((packageNames g).map (packageResult judge g retained)).flatMap (·.2) =
      ((packageNames g).map (packageResult judge g dropped)).flatMap (·.2) := by
    rw [List.flatMap_map, List.flatMap_map]
    exact List.flatMap_congr fun package _ => (h package).diagnostics
  unfold matchWith
  dsimp only
  rw [hpick _ fun package => (h package).used, hpick _ fun package => (h package).vulnerable,
    hpick _ fun package => (h package).suppressed, hdiagnostics]

/--
**Findings do not show what becomes of withdrawn records.** Take any feed.

If it loads with its withdrawn records it loads without them, and then matches with the
two indexes come to the same: both to the same findings, suppressed findings and
diagnostics, each in the same order, or both to the same failure. This holds for every
graph, all suppressions and every clock. The second index gives, for each package, the
records of the first that are not withdrawn. And a feed that loads without its withdrawn
records loads with them unless one of these, the first with its key, has ranges that
overlap and are too long to be written into the warning about it.
-/
theorem withdrawal_unobservable (f : Feed) :
    (∀ retained, f.load .retain = .ok retained →
      ∃ dropped, f.load .drop = .ok dropped ∧
        (∀ package, dropped.query package =
          (retained.query package).filter (!·.isWithdrawn)) ∧
        ∀ clock suppressions g,
          matchGraph clock suppressions g retained = matchGraph clock suppressions g dropped) ∧
    ((∃ retained, f.load .retain = .ok retained) ↔
      (∃ dropped, f.load .drop = .ok dropped) ∧
        ∀ before e after r, f.entries = .ok (before ++ e :: after) →
          Advisory.readRecord e = .ok r → Advisory.IsKept .retain before r →
            r.isWithdrawn = true → r.overlaps = true → r.isWritable = true) := by
  refine ⟨fun retained hretained => ?_, Feed.load_retain_ok⟩
  obtain ⟨dropped, hdropped, hlive⟩ := Feed.load_keepsLive hretained
  refine ⟨dropped, hdropped, hlive, fun clock suppressions g => ?_⟩
  exact matchWith_congr fun package => packageResult_keepsLive hlive

/-- A feed whose first record is withdrawn and repeated as if it were not. -/
def shadowingFeed : Feed where
  bytes := Text.Utf8.encode
    ("[\x7b\"id\":\"A\",\"package\":\"p\",\"affected\":\"*\",\"severity\":\"low\"," ++
      "\"withdrawn\":\"2020-01-01T00:00:00Z\"\x7d," ++
      "\x7b\"id\":\"A\",\"package\":\"p\",\"affected\":\"*\",\"severity\":\"low\"\x7d]").toList
  fetchedAt := Feed.firstInstant
  origin := ""

/-- The repetition is left out under either policy, so nothing is found. -/
theorem withdrawal_unobservable_shadowed :
    ∃ retained dropped, shadowingFeed.load .retain = .ok retained ∧
      shadowingFeed.load .drop = .ok dropped ∧ retained.size = 1 ∧ dropped.size = 0 ∧
      ∀ clock suppressions g,
        matchGraph clock suppressions g retained = matchGraph clock suppressions g dropped := by
  have hretained : (shadowingFeed.load .retain).toOption.map (·.size) = some 1 := by decide +kernel
  obtain ⟨retained, hload, hsize⟩ := Option.map_eq_some_iff.mp hretained
  have hload := Result.ok_of_toOption hload
  obtain ⟨dropped, hdropped, _, hmatch⟩ := (withdrawal_unobservable shadowingFeed).1 retained hload
  have hsize' : (shadowingFeed.load .drop).toOption.map (·.size) = some 0 := by decide +kernel
  rw [hdropped] at hsize'
  exact ⟨retained, dropped, hload, hdropped, hsize, Option.some.inj hsize', hmatch⟩

end LockAudit

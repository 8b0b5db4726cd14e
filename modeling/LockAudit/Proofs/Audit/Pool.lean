import LockAudit.Audit.Pool
import Mathlib.Data.List.Basic

/-!
# What a pool leaves

A step of the pool keeps the tasks at their places, and whatever is done was done by the
work on its own input. So what is gathered at the end is what working on one input after
the other gives, whichever worker took what and in whatever order they finished.

The pool also comes to an end. Each step brings some task one step further, of two; and as
long as a task is not done some step is possible.
-/

namespace LockAudit

namespace Pool

variable {α β : Type} {work : α → β} {workers : Nat} {inputs : List α} {results : List β}
  {first next last tasks : List (Task α β)}

/-! ## What is kept -/

/-- What the task left, if anything, is what the work on its input gives. -/
def Task.IsSound (work : α → β) (t : Task α β) : Prop :=
  ∀ result, t.progress = .done result → result = work t.input

/-- The tasks are those for the inputs, and sound. -/
structure IsSound (work : α → β) (inputs : List α) (tasks : List (Task α β)) : Prop where
  inputs : tasks.map (·.input) = inputs
  each : ∀ t ∈ tasks, t.IsSound work

theorem isSound_handIn (work : α → β) (inputs : List α) : IsSound work inputs (handIn inputs) where
  inputs := by
    unfold handIn
    rw [List.map_map]
    exact List.map_id inputs
  each := by
    intro t ht result hdone
    obtain ⟨input, _, rfl⟩ := List.mem_map.mp ht
    exact absurd hdone (by simp)

/-- A task at some place can be put in the place of another for the same input. -/
theorem IsSound.replace {before after : List (Task α β)} {t t' : Task α β}
    (h : IsSound work inputs (before ++ t :: after)) (hinput : t'.input = t.input)
    (hsound : t'.IsSound work) :
    IsSound work inputs (before ++ t' :: after) where
  inputs := by
    rw [← h.inputs, List.map_append, List.map_append, List.map_cons, List.map_cons, hinput]
  each := by
    intro u hu
    rcases List.mem_append.mp hu with hu | hu
    · exact h.each u (List.mem_append_left _ hu)
    · rcases List.mem_cons.mp hu with rfl | hu
      · exact hsound
      · exact h.each u (List.mem_append_right _ (List.mem_cons_of_mem _ hu))

/-- **Step.** -/
theorem Step.isSound (hstep : Step work workers first next) (h : IsSound work inputs first) :
    IsSound work inputs next := by
  cases hstep with
  | start => exact h.replace rfl (by simp [Task.IsSound])
  | finish =>
      refine h.replace rfl fun result hdone => ?_
      cases hdone
      rfl

/-- **Run.** -/
theorem Run.isSound (hrun : Run work workers first last) (h : IsSound work inputs first) :
    IsSound work inputs last := by
  induction hrun with
  | refl => exact h
  | step hstep _ ih => exact ih (hstep.isSound h)

/-- What is gathered from sound tasks. -/
theorem IsSound.gather? (h : IsSound work inputs tasks) (hall : gather? tasks = some results) :
    results = inputs.map work := by
  obtain ⟨hinputs, heach⟩ := h
  subst hinputs
  unfold Pool.gather? at hall
  induction tasks generalizing results with
  | nil => simpa using hall.symm
  | cons t tasks ih =>
      rw [List.forall_mem_cons] at heach
      rw [List.mapM_cons] at hall
      obtain ⟨result, hresult, hall⟩ := Option.bind_eq_some_iff.mp hall
      obtain ⟨more, hmore, hall⟩ := Option.bind_eq_some_iff.mp hall
      cases hall
      -- the first task left a result, so it is done and its result is sound
      have hdone : t.progress = .done result := by
        unfold Task.result? at hresult
        split at hresult
        · rename_i hprogress
          rw [hprogress, Option.some.inj hresult]
        · exact absurd hresult (by simp)
      rw [ih hmore heach.2, heach.1 result hdone]
      rfl

/-! ## Coming to an end -/

/-- The number of steps that are left. -/
def remaining (tasks : List (Task α β)) : Nat :=
  2 * tasks.countP (·.isWaiting) + busy tasks

theorem Step.remaining_lt (hstep : Step work workers first next) :
    remaining next < remaining first := by
  cases hstep with
  | start => simp [remaining, busy, Task.isWaiting, Task.isRunning]; omega
  | finish => simp [remaining, busy, Task.isWaiting, Task.isRunning]

/-- Without a task that waits or runs all are done. -/
theorem gather?_isSome (hwaiting : ∀ t ∈ tasks, t.isWaiting = false)
    (hrunning : ∀ t ∈ tasks, t.isRunning = false) :
    ∃ results, gather? tasks = some results := by
  unfold gather?
  induction tasks with
  | nil => exact ⟨[], rfl⟩
  | cons t tasks ih =>
      rw [List.forall_mem_cons] at hwaiting hrunning
      obtain ⟨results, hresults⟩ := ih hwaiting.2 hrunning.2
      obtain ⟨input, progress⟩ := t
      cases progress with
      | waiting => exact absurd hwaiting.1 (by simp [Task.isWaiting])
      | running => exact absurd hrunning.1 (by simp [Task.isRunning])
      | done result =>
          refine ⟨result :: results, ?_⟩
          rw [List.mapM_cons, hresults]
          rfl

/-- **A pool never stands still before all is done.** -/
theorem exists_step (work : α → β) (hworkers : 0 < workers) (tasks : List (Task α β)) :
    (∃ next, Step work workers tasks next) ∨ ∃ results, gather? tasks = some results := by
  by_cases hrunning : ∃ t ∈ tasks, t.isRunning = true
  · -- some worker is at a task, and may finish
    obtain ⟨⟨input, progress⟩, ht, hrun⟩ := hrunning
    obtain ⟨before, after, rfl⟩ := List.append_of_mem ht
    cases progress with
    | waiting => exact absurd hrun (by simp [Task.isRunning])
    | running => exact .inl ⟨_, .finish⟩
    | done result => exact absurd hrun (by simp [Task.isRunning])
  · have hidle : ∀ t ∈ tasks, t.isRunning = false :=
      fun t ht => Bool.eq_false_iff.mpr fun hrun => hrunning ⟨t, ht, hrun⟩
    cases hfirst : tasks.find? (·.isWaiting) with
    | none =>
        rw [List.find?_eq_none] at hfirst
        exact .inr (gather?_isSome (fun t ht => Bool.eq_false_iff.mpr (hfirst t ht)) hidle)
    | some t =>
        -- every worker is free to take the first task that waits
        obtain ⟨hwaits, before, after, rfl, hbefore⟩ := List.find?_eq_some_iff_append.mp hfirst
        have hfree : busy (before ++ after) = 0 := by
          refine List.countP_eq_zero.mpr fun u hu => ?_
          have hsub := (List.sublist_cons_self t after).append_left before
          rw [hidle u (hsub.subset hu)]
          exact Bool.false_ne_true
        obtain ⟨input, progress⟩ := t
        cases progress with
        | waiting =>
            refine .inl ⟨_, .start ?_ (by rw [hfree]; exact hworkers)⟩
            exact fun u hu => by simpa using hbefore u hu
        | running => exact absurd hwaits (by simp [Task.isWaiting])
        | done result => exact absurd hwaits (by simp [Task.isWaiting])

/-- **From everywhere a pool can be brought to its end.** -/
theorem exists_end (work : α → β) (hworkers : 0 < workers) (tasks : List (Task α β)) :
    ∃ last results, Run work workers tasks last ∧ gather? last = some results := by
  rcases exists_step work hworkers tasks with ⟨next, hstep⟩ | ⟨results, hall⟩
  · have hless := hstep.remaining_lt
    obtain ⟨last, results, hrun, hall⟩ := exists_end work hworkers next
    exact ⟨last, results, .step hstep hrun, hall⟩
  · exact ⟨tasks, results, .refl tasks, hall⟩
termination_by remaining tasks

theorem size_pos (maxWorkers : Int) : 0 < size maxWorkers := by
  unfold size
  omega

end Pool

/-! ## Matches -/

theorem matchWith_eq_join (judge : Judge) (now : Calendar.ClockReading)
    (suppressions : List Suppression) (g : Lockfile.Graph) (index : Advisory.Index) :
    matchWith judge now suppressions g index =
      joinResults now suppressions ((packageNames g).map (packageResult judge g index)) := rfl

/-- **Spreading the packages over workers changes nothing**: a match comes to the same for
every number of workers, whichever takes what and in whatever order they finish. -/
theorem spreadMatch_iff {maxWorkers : Int} {judge : Judge} {now : Calendar.ClockReading}
    {suppressions : List Suppression} {g : Lockfile.Graph} {index : Advisory.Index}
    {result : Except Failure Matching} :
    SpreadMatch maxWorkers judge now suppressions g index result ↔
      result = matchWith judge now suppressions g index := by
  rw [matchWith_eq_join]
  constructor
  · intro h
    cases h with
    | inline => rfl
    | pooled _ run all =>
        rw [(run.isSound (Pool.isSound_handIn _ _)).gather? all]
  · rintro rfl
    by_cases hmany : 1 < Pool.size maxWorkers ∧ 1 < (packageNames g).length
    · obtain ⟨last, results, hrun, hall⟩ := Pool.exists_end (packageResult judge g index)
        (Pool.size_pos maxWorkers) (Pool.handIn (packageNames g))
      rw [← (hrun.isSound (Pool.isSound_handIn _ _)).gather? hall]
      exact .pooled hmany hrun hall
    · exact .inline (by omega)

end LockAudit

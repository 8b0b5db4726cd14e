import LockAudit.Failure
import Mathlib.Data.List.Forall2

/-!
# Operations that may fail

An operation is a chain of steps, each of which gives a value or stops the whole
with a failure. These lemmas take a chain apart: a chain gives a value when every
step does, and fails when some step fails and all before it do not.
-/

namespace LockAudit.Result

variable {ε ε' α α' β β' γ : Type}

/-! ## One step after another -/

@[simp]
theorem pure_eq (a : α) : (pure a : Except ε α) = .ok a := rfl

@[simp]
theorem throw_eq (e : ε) : (throw e : Except ε α) = .error e := rfl

@[simp]
theorem ok_bind (a : α) (f : α → Except ε β) : Except.ok a >>= f = f a := rfl

@[simp]
theorem error_bind (e : ε) (f : α → Except ε β) : Except.error e >>= f = .error e := rfl

theorem bind_ok {x : Except ε α} {f : α → Except ε β} {b : β} :
    x >>= f = .ok b ↔ ∃ a, x = .ok a ∧ f a = .ok b := by
  cases x with
  | error e => simp [bind, Except.bind]
  | ok a => simp [bind, Except.bind]

theorem bind_error {x : Except ε α} {f : α → Except ε β} {e : ε} :
    x >>= f = .error e ↔ x = .error e ∨ ∃ a, x = .ok a ∧ f a = .error e := by
  cases x with
  | error e' => simp [bind, Except.bind]
  | ok a => simp [bind, Except.bind]

@[simp]
theorem mapError_ok_eq (a : α) (g : ε → ε') : (Except.ok a).mapError g = .ok a := rfl

@[simp]
theorem mapError_error_eq (e : ε) (g : ε → ε') :
    (Except.error e : Except ε α).mapError g = .error (g e) := rfl

theorem mapError_ok {x : Except ε α} {g : ε → ε'} {a : α} :
    x.mapError g = .ok a ↔ x = .ok a := by
  cases x with
  | error e => simp
  | ok b => simp

theorem mapError_error {x : Except ε α} {g : ε → ε'} {e : ε'} :
    x.mapError g = .error e ↔ ∃ e', x = .error e' ∧ g e' = e := by
  cases x with
  | error e' => simp
  | ok b => simp

theorem ok_of_toOption {x : Except ε α} {a : α} (h : x.toOption = some a) : x = .ok a := by
  cases x with
  | error e => exact absurd h (by simp [Except.toOption])
  | ok b => simpa [Except.toOption] using h

theorem toOption_of_ok {x : Except ε α} {a : α} (h : x = .ok a) : x.toOption = some a := by
  rw [h]
  rfl

theorem isSome_toOption {x : Except ε α} : x.toOption.isSome = true ↔ ∃ a, x = .ok a := by
  cases x with
  | error e => simp [Except.toOption]
  | ok b => simp [Except.toOption]

/-- The failure of an operation. -/
def error? : Except ε α → Option ε
  | .error e => some e
  | .ok _ => none

theorem error_of_error? {x : Except ε α} {e : ε} (h : error? x = some e) : x = .error e := by
  cases x with
  | error e' => rw [Option.some.inj h]
  | ok a => exact absurd h (by simp [error?])

theorem map_bind (x : Except ε α) (f : α → Except ε β) (g : β → γ) :
    (x >>= f).map g = x >>= fun a => (f a).map g := by
  cases x <;> rfl

theorem bind_map (x : Except ε α) (g : α → β) (f : β → Except ε γ) :
    x.map g >>= f = x >>= fun a => f (g a) := by
  cases x <;> rfl

theorem toOption_map (x : Except ε α) (g : α → β) : (x.map g).toOption = x.toOption.map g := by
  cases x <;> rfl

/-! ## Steps with failures of their own -/

@[simp]
theorem lift_oversized (x : Except Number.Oversized α) :
    (liftM x : Except Failure α) = x.mapError .oversized := rfl

@[simp]
theorem lift_unzoned (x : Except Calendar.UnzonedDefect α) :
    (liftM x : Except Failure α) = x.mapError fun e => .kind (.unzoned e) := rfl

@[simp]
theorem lift_value (x : Except ValueDefect α) :
    (liftM x : Except Failure α) = x.mapError .value := rfl

/-! ## The same for every item of a list -/

theorem mapM_ok {f : α → Except ε β} {as : List α} :
    (∃ bs, as.mapM f = .ok bs) ↔ ∀ a ∈ as, ∃ b, f a = .ok b := by
  induction as with
  | nil => simp [pure, Except.pure]
  | cons a as ih =>
      rw [List.forall_mem_cons, ← ih, List.mapM_cons]
      refine ⟨?_, ?_⟩
      · intro h
        obtain ⟨bs, h⟩ := h
        obtain ⟨b, hb, h⟩ := bind_ok.mp h
        obtain ⟨bs', hbs, _⟩ := bind_ok.mp h
        exact ⟨⟨b, hb⟩, bs', hbs⟩
      · intro h
        obtain ⟨⟨b, hb⟩, bs, hbs⟩ := h
        refine ⟨b :: bs, ?_⟩
        rw [hb, ok_bind, hbs, ok_bind]
        rfl

/-- The values of all items together are those of the items. -/
theorem mem_of_mapM {f : α → Except ε β} {as : List α} {bs : List β} (h : as.mapM f = .ok bs)
    {b : β} :
    b ∈ bs ↔ ∃ a ∈ as, f a = .ok b := by
  induction as generalizing bs with
  | nil => cases h; simp
  | cons a as ih =>
      rw [List.mapM_cons] at h
      obtain ⟨b', hb', h⟩ := bind_ok.mp h
      obtain ⟨bs', hbs', h⟩ := bind_ok.mp h
      cases h
      rw [List.mem_cons, ih hbs']
      simp [hb', @eq_comm _ b']

/-- The values stand at the places of the items. -/
theorem getElem?_of_mapM {f : α → Except ε β} {as : List α} {bs : List β}
    (h : as.mapM f = .ok bs) {i : Nat} {a : α} (ha : as[i]? = some a) :
    ∃ b, bs[i]? = some b ∧ f a = .ok b := by
  induction as generalizing bs i with
  | nil => exact absurd ha (by simp)
  | cons a' as ih =>
      rw [List.mapM_cons] at h
      obtain ⟨b', hb', h⟩ := bind_ok.mp h
      obtain ⟨bs', hbs', h⟩ := bind_ok.mp h
      cases h
      cases i with
      | zero =>
          cases ha
          exact ⟨b', rfl, hb'⟩
      | succ i => exact ih hbs' ha

theorem length_of_mapM {f : α → Except ε β} {as : List α} {bs : List β}
    (h : as.mapM f = .ok bs) :
    bs.length = as.length := by
  induction as generalizing bs with
  | nil => cases h; rfl
  | cons a as ih =>
      rw [List.mapM_cons] at h
      obtain ⟨b, _, h⟩ := bind_ok.mp h
      obtain ⟨bs', hbs', h⟩ := bind_ok.mp h
      cases h
      rw [List.length_cons, List.length_cons, ih hbs']

/-- The failure of all items together is that of the first item that fails. -/
theorem mapM_error {f : α → Except ε β} {as : List α} {e : ε} :
    as.mapM f = .error e ↔ ∃ before a after, as = before ++ a :: after ∧
      (∀ b ∈ before, ∃ c, f b = .ok c) ∧ f a = .error e := by
  induction as with
  | nil => simp
  | cons a as ih =>
      rw [List.mapM_cons, bind_error]
      refine ⟨?_, ?_⟩
      · intro h
        rcases h with ha | ⟨b, hb, h⟩
        · exact ⟨[], a, as, rfl, by simp, ha⟩
        · rcases bind_error.mp h with has | ⟨bs, _, h⟩
          · obtain ⟨before, c, after, rfl, hbefore, hc⟩ := ih.mp has
            refine ⟨a :: before, c, after, rfl, ?_, hc⟩
            rw [List.forall_mem_cons]
            exact ⟨⟨b, hb⟩, hbefore⟩
          · exact absurd h (by simp)
      · intro h
        obtain ⟨before, c, after, heq, hbefore, hc⟩ := h
        -- the failing item is the head, or the head went well and it is in the tail
        cases before with
        | nil =>
            obtain ⟨rfl, rfl⟩ := List.cons.inj heq
            exact Or.inl hc
        | cons a' before =>
            obtain ⟨rfl, rfl⟩ := List.cons.inj heq
            rw [List.forall_mem_cons] at hbefore
            obtain ⟨⟨b, hb⟩, hbefore⟩ := hbefore
            refine Or.inr ⟨b, hb, bind_error.mpr (Or.inl ?_)⟩
            exact ih.mpr ⟨before, c, after, rfl, hbefore, hc⟩

/-- What is computed from each item alone is computed by a map. -/
theorem mapM_eq_map {f : α → Except ε β} {g : α → β} {as : List α}
    (h : ∀ a ∈ as, f a = .ok (g a)) :
    as.mapM f = .ok (as.map g) := by
  induction as with
  | nil => rfl
  | cons a as ih =>
      rw [List.forall_mem_cons] at h
      obtain ⟨ha, has⟩ := h
      rw [List.mapM_cons, ha, ih has]
      rfl

/-- What the images of items come to is the image of what the items come to. -/
theorem mapM_map {f : α → Except ε β} {f' : α' → Except ε β'} {g : α → α'} {g' : β → β'}
    (h : ∀ a, f' (g a) = (f a).map g') (as : List α) :
    (as.map g).mapM f' = (as.mapM f).map (List.map g') := by
  induction as with
  | nil => rfl
  | cons a as ih =>
      rw [List.map_cons, List.mapM_cons, List.mapM_cons, h, ih, bind_map, map_bind]
      simp only [bind_map, map_bind]
      rfl

/-- Items that can be left out without a failure can be left out before or after. -/
theorem mapM_filter {f : α → Except ε β} {p : α → Bool} {q : β → Bool} {as : List α}
    (hsame : ∀ a ∈ as, ∀ b, f a = .ok b → q b = p a)
    (hout : ∀ a ∈ as, p a = false → ∃ b, f a = .ok b) :
    (as.filter p).mapM f = (as.mapM f).map (List.filter q) := by
  induction as with
  | nil => rfl
  | cons a as ih =>
      rw [List.forall_mem_cons] at hsame hout
      have ih := ih hsame.2 hout.2
      rw [List.mapM_cons]
      cases hp : p a with
      -- an item left out has a result, and it is left out of the results as well
      | false =>
          obtain ⟨b, hb⟩ := hout.1 hp
          have hq : q b = false := (hsame.1 b hb).trans hp
          rw [List.filter_cons_of_neg (by simp [hp]), ih, hb, ok_bind]
          cases as.mapM f with
          | error e => rfl
          | ok bs => simp [Except.map, hq]
      | true =>
          rw [List.filter_cons_of_pos hp, List.mapM_cons, ih]
          cases hb : f a with
          | error e => rfl
          | ok b =>
              have hq : q b = true := (hsame.1 b hb).trans hp
              rw [ok_bind, ok_bind]
              cases as.mapM f with
              | error e => rfl
              | ok bs => simp [Except.map, hq]

/-! ## Results that correspond -/

/-- The two results are one failure, or values that correspond. -/
inductive Alike (R : α → β → Prop) : Except ε α → Except ε β → Prop
  | ok {a : α} {b : β} (related : R a b) : Alike R (.ok a) (.ok b)
  | error (e : ε) : Alike R (.error e) (.error e)

variable {R : α → β → Prop} {S : α' → β' → Prop}

theorem Alike.bind {x : Except ε α} {y : Except ε β} {f : α → Except ε α'} {g : β → Except ε β'}
    (h : Alike R x y) (hnext : ∀ a b, R a b → Alike S (f a) (g b)) :
    Alike S (x >>= f) (y >>= g) := by
  cases h with
  | ok related => exact hnext _ _ related
  | error e => exact .error e

theorem Alike.mapM {as : List α} {bs : List β} {f : α → Except ε α'} {g : β → Except ε β'}
    (h : List.Forall₂ R as bs) (hitem : ∀ a b, R a b → Alike S (f a) (g b)) :
    Alike (List.Forall₂ S) (as.mapM f) (bs.mapM g) := by
  induction h with
  | nil => exact .ok .nil
  | cons hab _ ih =>
      rw [List.mapM_cons, List.mapM_cons]
      refine (hitem _ _ hab).bind fun a b hfirst => ?_
      exact ih.bind fun as bs hrest => .ok (.cons hfirst hrest)

end LockAudit.Result

import LockAudit.Json.Decode
import LockAudit.Proofs.Number.Integer
import LockAudit.Proofs.Result

/-!
# What a document holds can be shown

Messages show the values that they complain about, and a value with a number over the
limit cannot be shown. No such value comes out of a document: reading obeys the same
limit. So whatever stands in a document, a complaint about it never fails.
-/

namespace LockAudit

/-! ## Values that can be shown -/

namespace Value

/-- The value can be shown in messages. -/
def IsShowable (v : Value) : Prop := ∃ s, v.describe = .ok s

variable {items : List Value} {fields : List (String × Value)} {name : String} {v : Value}

/-- A field as messages show it. -/
def describeField (f : String × Value) : Except Number.Oversized String := do
  let first ← describe f.2
  pure (Text.quote f.1 ++ ": " ++ first)

theorem describeItems_eq : describeItems items = items.mapM describe := by
  induction items with
  | nil => rw [describeItems]; rfl
  | cons v items ih => rw [describeItems, List.mapM_cons, ih]

theorem describeFields_eq : describeFields fields = fields.mapM describeField := by
  induction fields with
  | nil => rw [describeFields]; rfl
  | cons f fields ih =>
      obtain ⟨name, v⟩ := f
      rw [describeFields, List.mapM_cons, ih]
      unfold describeField
      cases describe v <;> rfl

theorem describeField_ok {f : String × Value} :
    (∃ s, describeField f = .ok s) ↔ f.2.IsShowable := by
  unfold describeField IsShowable
  cases f.2.describe <;> simp

theorem isShowable_list : (list items).IsShowable ↔ ∀ v ∈ items, v.IsShowable := by
  have hitems : (∃ ss, describeItems items = .ok ss) ↔ ∀ v ∈ items, v.IsShowable := by
    rw [describeItems_eq]
    exact Result.mapM_ok
  rw [← hitems]
  unfold IsShowable
  rw [describe]
  cases describeItems items <;> simp

theorem isShowable_table : (table fields).IsShowable ↔ ∀ f ∈ fields, f.2.IsShowable := by
  have hfields : (∃ ss, describeFields fields = .ok ss) ↔ ∀ f ∈ fields, f.2.IsShowable := by
    rw [describeFields_eq, Result.mapM_ok]
    simp only [describeField_ok]
  rw [← hfields]
  unfold IsShowable
  rw [describe]
  cases describeFields fields <;> simp

theorem isShowable_field (h : ∀ f ∈ fields, f.2.IsShowable) : (field name fields).IsShowable := by
  unfold field
  induction fields with
  | nil => exact ⟨_, rfl⟩
  | cons f fields ih =>
      obtain ⟨key, v⟩ := f
      rw [List.forall_mem_cons] at h
      rw [lookup?]
      split
      · exact h.1
      · exact ih h.2

theorem isShowable_setField (hv : v.IsShowable) (h : ∀ f ∈ fields, f.2.IsShowable) :
    ∀ f ∈ setField name v fields, f.2.IsShowable := by
  induction fields with
  | nil => simpa [setField] using hv
  | cons f fields ih =>
      obtain ⟨key, old⟩ := f
      rw [List.forall_mem_cons] at h
      rw [setField]
      split
      · rw [List.forall_mem_cons]; exact ⟨hv, h.2⟩
      · rw [List.forall_mem_cons]; exact ⟨h.1, ih h.2⟩

end Value

/-! ## Reading -/

namespace Json

variable {cs rest : List Char} {v : Value}

/-- A sign does not make a number too long. -/
theorem isShowable_signed {n : Nat} (h : Number.isWritable n = true) (negative : Bool) :
    (Value.int (if negative then -n else n)).IsShowable := by
  unfold Value.IsShowable
  rw [Value.describe]
  unfold Number.write
  refine ⟨_, if_pos ?_⟩
  cases negative
  · simpa using h
  · simpa using h

theorem readNumber_isShowable (h : readNumber cs = .ok (v, rest)) : v.IsShowable := by
  unfold readNumber at h
  simp only at h
  split at h
  · exact absurd h (by simp)
  · split at h
    · split at h
      · rename_i n hn
        cases h
        exact isShowable_signed (Number.ofDigits_isWritable hn) _
      · exact absurd h (by simp)
    · cases h
      exact ⟨_, rfl⟩

theorem readScalar_isShowable (h : readScalar cs = .ok (v, rest)) : v.IsShowable := by
  unfold readScalar at h
  split at h
  · rename_i name value hfind
    cases h
    have hmem := List.mem_of_find?_eq_some hfind
    simp only [literals, List.mem_cons, Prod.mk.injEq, List.not_mem_nil, or_false] at hmem
    rcases hmem with ⟨_, rfl⟩ | ⟨_, rfl⟩ | ⟨_, rfl⟩ | ⟨_, rfl⟩ | ⟨_, rfl⟩ | ⟨_, rfl⟩ <;>
      exact ⟨_, rfl⟩
  · exact readNumber_isShowable h

/-- **Every value that is read can be shown.** By induction on the bound, for the three
readers at once: a value, the items of a list and the fields of a table. -/
theorem read_isShowable (fuel : Nat) :
    (∀ cs v rest, readValue fuel cs = .ok (v, rest) → v.IsShowable) ∧
    (∀ read cs v rest, (∀ item ∈ read, item.IsShowable) →
      readItems fuel read cs = .ok (v, rest) → v.IsShowable) ∧
    (∀ read cs v rest, (∀ f ∈ read, f.2.IsShowable) →
      readFields fuel read cs = .ok (v, rest) → v.IsShowable) := by
  induction fuel with
  | zero => simp [readValue, readItems, readFields]
  | succ fuel ih =>
      obtain ⟨ihValue, ihItems, ihFields⟩ := ih
      refine ⟨?_, ?_, ?_⟩
      · intro cs v rest h
        unfold readValue at h
        split at h
        · obtain ⟨⟨s, rest'⟩, _, h⟩ := Result.bind_ok.mp h
          cases h
          exact ⟨_, rfl⟩
        · split at h
          · cases h
            exact ⟨_, rfl⟩
          · exact ihFields [] _ _ _ (by simp) h
        · split at h
          · cases h
            exact ⟨_, rfl⟩
          · exact ihItems [] _ _ _ (by simp) h
        · exact readScalar_isShowable h
      · intro read cs v rest hread h
        -- one item, and then a comma and more of them, or the end of the list
        unfold readItems at h
        obtain ⟨⟨item, rest'⟩, hitem, h⟩ := Result.bind_ok.mp h
        have hitem := ihValue _ _ _ hitem
        simp only at h
        split at h
        · cases h
          rw [Value.isShowable_list]
          intro w hw
          rcases List.mem_cons.mp (List.mem_reverse.mp hw) with rfl | hw
          · exact hitem
          · exact hread w hw
        · refine ihItems _ _ _ _ ?_ h
          rw [List.forall_mem_cons]
          exact ⟨hitem, hread⟩
        · exact absurd h (by simp)
      · intro read cs v rest hread h
        -- a field with a name that was read before takes the place of the earlier one
        unfold readFields at h
        split at h
        · obtain ⟨⟨name, rest'⟩, _, h⟩ := Result.bind_ok.mp h
          simp only at h
          split at h
          · obtain ⟨⟨value, rest''⟩, hvalue, h⟩ := Result.bind_ok.mp h
            have hset : ∀ f ∈ Value.setField name value read, f.2.IsShowable :=
              Value.isShowable_setField (ihValue _ _ _ hvalue) hread
            simp only at h
            split at h
            · cases h
              exact Value.isShowable_table.mpr hset
            · exact ihFields _ _ _ _ hset h
            · exact absurd h (by simp)
          · exact absurd h (by simp)
        · exact absurd h (by simp)

theorem decode_isShowable (h : decode cs = .ok v) : v.IsShowable := by
  unfold decode at h
  split at h
  · exact absurd h (by simp)
  · obtain ⟨⟨w, rest⟩, hfirst, h⟩ := Result.bind_ok.mp h
    simp only at h
    split at h
    · cases h
      exact (read_isShowable _).1 _ _ _ hfirst
    · exact absurd h (by simp)

end Json

end LockAudit

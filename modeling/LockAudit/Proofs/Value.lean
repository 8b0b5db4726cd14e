import LockAudit.Value
import Mathlib.Data.List.Nodup

/-!
# Fields of a table

A table is a list of fields, and a field is looked up by its name. Setting a field changes
what is found under its name and nothing else. In a table without two fields of one name
the order of the fields does not matter.
-/

namespace LockAudit.Value

variable {name other s : String} {v : Value} {fields fields' : List (String × Value)}

theorem text?_eq_some : v.text? = some s ↔ v = .text s := by
  cases v <;> simp [text?]

theorem lookup?_of_text (h : field name fields = .text s) : lookup? name fields = some (.text s) := by
  unfold field at h
  cases hfield : lookup? name fields with
  | none => exact absurd (hfield ▸ h) (by simp)
  | some v =>
      rw [hfield, Option.getD_some] at h
      rw [h]

theorem lookup?_setField (name other : String) (v : Value) (fields : List (String × Value)) :
    lookup? name (setField other v fields) = if other = name then some v else lookup? name fields := by
  induction fields with
  | nil => simp [setField, lookup?]
  | cons field fields ih =>
      obtain ⟨key, old⟩ := field
      rw [setField]
      split
      · rename_i heq
        rw [lookup?, lookup?, heq]
        split <;> rfl
      · rename_i hne
        rw [lookup?, lookup?, ih]
        split
        · rename_i hkey
          rw [if_neg (fun heq => hne (hkey.trans heq.symm))]
        · rfl

/-- A field with a new name is put at the end. -/
theorem setField_of_not_mem (h : name ∉ fields.map (·.1)) :
    setField name v fields = fields ++ [(name, v)] := by
  induction fields with
  | nil => rfl
  | cons f fields ih =>
      obtain ⟨key, old⟩ := f
      rw [List.map_cons, List.mem_cons, not_or] at h
      obtain ⟨hkey, hrest⟩ := h
      rw [setField, if_neg (Ne.symm hkey), ih hrest]
      rfl

/-- Where no name comes twice, looking a name up finds the field with that name. -/
theorem lookup?_eq_some (hnames : (fields.map (·.1)).Nodup) :
    lookup? name fields = some v ↔ (name, v) ∈ fields := by
  induction fields with
  | nil => simp [lookup?]
  | cons f fields ih =>
      obtain ⟨key, value⟩ := f
      rw [List.map_cons, List.nodup_cons] at hnames
      obtain ⟨hkey, hnames⟩ := hnames
      rw [lookup?, List.mem_cons]
      by_cases heq : key = name
      · subst heq
        have hmem : (key, v) ∉ fields := fun hmem => hkey (List.mem_map.mpr ⟨_, hmem, rfl⟩)
        rw [if_pos rfl]
        simp [hmem, eq_comm]
      · rw [if_neg heq, ih hnames]
        simp [Ne.symm heq]

/-- The order of fields with different names does not matter for looking them up. -/
theorem lookup?_of_perm (hnames : (fields.map (·.1)).Nodup) (hperm : fields'.Perm fields)
    (name : String) : lookup? name fields' = lookup? name fields := by
  have hnames' : (fields'.map (·.1)).Nodup := (hperm.map _).nodup_iff.mpr hnames
  refine Option.ext fun v => ?_
  rw [lookup?_eq_some hnames', lookup?_eq_some hnames, hperm.mem_iff]

end LockAudit.Value

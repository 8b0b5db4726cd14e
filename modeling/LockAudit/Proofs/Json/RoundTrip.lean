import LockAudit.Proofs.Json.Number
import LockAudit.Proofs.Json.Reading
import LockAudit.Proofs.Json.Text
import LockAudit.Proofs.Value

/-!
# Documents back from their texts

A value that is written is read back as the same value, if it is plain: doubles are
written by their shortest digits and dates as texts, so those come back as something
else; an integer over the limit does not come back at all; and of two fields with one
name only the last does.

The reader works with a bound, which the length of the text gives: two steps for each
character are enough, because every level of nesting has a bracket at either end.
-/

namespace LockAudit.Json

/-- A value that comes back from its text. -/
inductive IsPlain : Value → Prop
  | null : IsPlain .null
  | bool (b : Bool) : IsPlain (.bool b)
  | int {n : Int} (h : Number.isWritable n.natAbs = true) : IsPlain (.int n)
  | text (s : String) : IsPlain (.text s)
  | list {items : List Value} (h : ∀ v ∈ items, IsPlain v) : IsPlain (.list items)
  | table {fields : List (String × Value)} (hnames : (fields.map (·.1)).Nodup)
      (h : ∀ f ∈ fields, IsPlain f.2) : IsPlain (.table fields)

/-! ## White space -/

theorem skip_cons_space {c : Char} (h : isSpace c = true) (cs : List Char) :
    skip (c :: cs) = skip cs := List.dropWhile_cons_of_pos h

theorem skip_append {spaces : List Char} (h : ∀ c ∈ spaces, isSpace c = true) (cs : List Char) :
    skip (spaces ++ cs) = skip cs := List.dropWhile_append_of_pos h

theorem skip_lineBreak (indent : Option Nat) (depth : Nat) (cs : List Char) :
    skip (lineBreak indent depth ++ cs) = skip cs := by
  refine skip_append (fun c hc => ?_) cs
  cases indent with
  | none => exact absurd hc (by simp [lineBreak])
  | some n =>
      rcases List.mem_cons.mp hc with rfl | hc
      · rfl
      · rw [List.eq_of_mem_replicate hc]
        rfl

/-- A separator is a comma and white space. -/
theorem separator_eq (indent : Option Nat) (depth : Nat) :
    ∃ spaces, separator indent depth = ',' :: spaces ∧ ∀ cs, skip (spaces ++ cs) = skip cs := by
  cases indent with
  | none => exact ⟨[' '], rfl, fun cs => skip_cons_space rfl cs⟩
  | some n => exact ⟨lineBreak (some n) depth, rfl, skip_lineBreak (some n) depth⟩

/-! ## Values -/

/-- A character that a value may begin with. -/
def isOpening (c : Char) : Bool :=
  Text.isAsciiDigit c || ['-', '"', '[', '\x7b', 'n', 't', 'f'].contains c

/-- A text begins as values do. -/
def Opens (cs : List Char) : Prop := ∃ c rest, cs = c :: rest ∧ isOpening c = true

theorem Opens.head_ne {cs : List Char} (h : Opens cs) {d : Char} (hd : isOpening d = false)
    (tail : List Char) :
    cs ≠ d :: tail := by
  obtain ⟨c, rest, rfl, hc⟩ := h
  rintro heq
  cases heq
  rw [hd] at hc
  exact absurd hc (by simp)

theorem Opens.append {cs : List Char} (h : Opens cs) (rest : List Char) : Opens (cs ++ rest) := by
  obtain ⟨c, tail, rfl, hc⟩ := h
  exact ⟨c, tail ++ rest, rfl, hc⟩

/-- A value begins with no white space. -/
theorem Opens.skip_eq {cs : List Char} (h : Opens cs) : skip cs = cs := by
  refine skip_of_head fun d hd => ?_
  rw [Bool.eq_false_iff]
  intro hspace
  unfold isSpace at hspace
  simp only [Bool.or_eq_true, decide_eq_true_iff] at hspace
  obtain ⟨c, rest, rfl, hc⟩ := h
  obtain rfl : c = d := Option.some.inj hd
  rcases hspace with ((rfl | rfl) | rfl) | rfl <;> exact absurd hc (by decide)

theorem opens_toDigits (n : Nat) : Opens (Nat.toDigits 10 n) := by
  obtain ⟨c, cs, hdigits, hc⟩ := Number.toDigits_cons n
  refine ⟨c, cs, hdigits, ?_⟩
  unfold isOpening
  rw [hc]
  rfl

theorem opens_writeValue {v : Value} (h : IsPlain v) (ascii : Bool) (indent : Option Nat)
    (depth : Nat) :
    Opens (writeValue ascii indent depth v) := by
  -- each kind of value is known by its first character
  cases h with
  | null => rw [writeValue]; exact ⟨'n', _, rfl, by decide⟩
  | bool b =>
      rw [writeValue]
      cases b with
      | true => exact ⟨'t', _, rfl, by decide⟩
      | false => exact ⟨'f', _, rfl, by decide⟩
  | @int z _ =>
      rw [writeValue]
      cases z with
      | ofNat n => rw [toList_ofNat]; exact opens_toDigits n
      | negSucc n => rw [toList_negSucc]; exact ⟨'-', _, rfl, by decide⟩
  | text s => rw [writeValue]; exact ⟨'"', _, rfl, by decide⟩
  | @list items _ =>
      cases items with
      | nil => rw [writeValue]; exact ⟨'[', _, rfl, by decide⟩
      | cons item items => rw [writeValue]; exact ⟨'[', _, rfl, by decide⟩
  | @table fields _ _ =>
      cases fields with
      | nil => rw [writeValue]; exact ⟨'\x7b', _, rfl, by decide⟩
      | cons f fields =>
          obtain ⟨name, value⟩ := f
          rw [writeValue]
          exact ⟨'\x7b', _, rfl, by decide⟩

/-! ## What may stand behind a value -/

theorem endsNumber_close {c : Char} (hc : c = ']' ∨ c = '\x7d') (indent : Option Nat) (depth : Nat)
    (rest : List Char) :
    EndsNumber (lineBreak indent depth ++ c :: rest) := by
  intro d hd
  cases indent with
  | none =>
      obtain rfl : c = d := Option.some.inj hd
      rcases hc with rfl | rfl <;> decide
  | some n =>
      obtain rfl : '\n' = d := Option.some.inj hd
      decide

theorem endsNumber_separator (indent : Option Nat) (depth : Nat) (cs : List Char) :
    EndsNumber (separator indent depth ++ cs) := by
  obtain ⟨spaces, hsep, _⟩ := separator_eq indent depth
  intro d hd
  rw [hsep] at hd
  obtain rfl : ',' = d := Option.some.inj hd
  decide

theorem skip_close {c : Char} (hc : isSpace c = false) (indent : Option Nat) (depth : Nat)
    (rest : List Char) :
    skip (lineBreak indent depth ++ c :: rest) = c :: rest := by
  rw [skip_lineBreak]
  refine skip_of_head fun d hd => ?_
  obtain rfl : c = d := Option.some.inj hd
  exact hc

/-! ## Lists and tables -/

section Readers

variable {fuel : Nat} {item : Value} {cs after next rest : List Char}

theorem readItems_last {read : List Value} (h : readValue fuel cs = .ok (item, after))
    (hafter : skip after = ']' :: rest) :
    readItems (fuel + 1) read cs = .ok (.list (item :: read).reverse, rest) := by
  rw [readItems, h, Result.ok_bind]
  dsimp only
  rw [hafter]
  rfl

theorem readItems_more {read : List Value} (h : readValue fuel cs = .ok (item, after))
    (hafter : skip after = ',' :: next) :
    readItems (fuel + 1) read cs = readItems fuel (item :: read) (skip next) := by
  rw [readItems, h, Result.ok_bind]
  dsimp only
  rw [hafter]
  rfl

variable {read : List (String × Value)} {name : String} {value : List Char}

theorem readFields_last (hname : readString cs = .ok (name, ':' :: value))
    (h : readValue fuel (skip value) = .ok (item, after)) (hafter : skip after = '\x7d' :: rest) :
    readFields (fuel + 1) read ('"' :: cs) = .ok (.table (Value.setField name item read), rest) := by
  have hcolon : skip (':' :: value) = ':' :: value := skip_of_head (by rintro c ⟨⟩; rfl)
  rw [readFields, hname, Result.ok_bind]
  simp only [hcolon, h, hafter, Result.ok_bind, Result.pure_eq]

theorem readFields_more (hname : readString cs = .ok (name, ':' :: value))
    (h : readValue fuel (skip value) = .ok (item, after)) (hafter : skip after = ',' :: next) :
    readFields (fuel + 1) read ('"' :: cs) =
      readFields fuel (Value.setField name item read) (skip next) := by
  have hcolon : skip (':' :: value) = ':' :: value := skip_of_head (by rintro c ⟨⟩; rfl)
  rw [readFields, hname, Result.ok_bind]
  simp only [hcolon, h, hafter, Result.ok_bind]

end Readers

theorem writeText_append (ascii : Bool) (s : String) (rest : List Char) :
    writeText ascii s ++ rest = '"' :: (s.toList.flatMap (writeChar ascii) ++ '"' :: rest) := by
  unfold writeText
  rw [List.cons_append, List.cons_append, List.append_assoc]
  rfl

/-- The value is read back from what is written for it, whatever stands behind it. -/
def ReadsBack (ascii : Bool) (indent : Option Nat) (v : Value) : Prop :=
  ∀ depth fuel rest, EndsNumber rest → 2 * (writeValue ascii indent depth v).length ≤ fuel →
    readValue fuel (writeValue ascii indent depth v ++ rest) = .ok (v, rest)

section RoundTrip

variable {ascii : Bool} {indent : Option Nat}

/-- **Run.** The items of a list, from one of them on. -/
theorem readItems_written (items : List Value) :
    ∀ (item : Value) (depth depth' fuel : Nat) (read : List Value) (rest : List Char),
      (∀ v ∈ item :: items, IsPlain v ∧ ReadsBack ascii indent v) →
      2 * (writeValue ascii indent depth item ++ writeItems ascii indent depth items).length <
        fuel →
      readItems fuel read (writeValue ascii indent depth item ++
        (writeItems ascii indent depth items ++ (lineBreak indent depth' ++ ']' :: rest))) =
        .ok (.list (read.reverse ++ item :: items), rest) := by
  induction items with
  | nil =>
      intro item depth depth' fuel read rest hplain hfuel
      obtain ⟨fuel, rfl⟩ : ∃ m, fuel = m + 1 := ⟨fuel - 1, by omega⟩
      rw [writeItems, List.append_nil] at hfuel
      rw [writeItems, List.nil_append]
      -- the last item: the bracket closes the list behind it
      have hread := (hplain item List.mem_cons_self).2 depth fuel _
        (endsNumber_close (.inl rfl) indent depth' rest) (by omega)
      rw [readItems_last hread (skip_close rfl indent depth' rest), List.reverse_cons]
  | cons next items ih =>
      intro item depth depth' fuel read rest hplain hfuel
      obtain ⟨fuel, rfl⟩ : ∃ m, fuel = m + 1 := ⟨fuel - 1, by omega⟩
      rw [List.forall_mem_cons] at hplain
      obtain ⟨hitem, hitems⟩ := hplain
      obtain ⟨spaces, hsep, hspaces⟩ := separator_eq indent depth
      rw [writeItems, hsep] at hfuel
      simp only [List.length_append, List.length_cons] at hfuel
      have hopens := (opens_writeValue (hitems next List.mem_cons_self).1 ascii indent depth).append
        (writeItems ascii indent depth items ++ (lineBreak indent depth' ++ ']' :: rest))
      have hnext := ih next depth depth' fuel (item :: read) rest hitems
        (by rw [List.length_append]; omega)
      -- the next item, as the text has it
      generalize htail : writeValue ascii indent depth next ++
        (writeItems ascii indent depth items ++ (lineBreak indent depth' ++ ']' :: rest)) =
        tail at hopens hnext
      have htext : writeItems ascii indent depth (next :: items) ++
          (lineBreak indent depth' ++ ']' :: rest) = separator indent depth ++ tail := by
        rw [writeItems, ← htail, List.append_assoc, List.append_assoc]
      have hskip : skip (spaces ++ tail) = tail := by
        rw [hspaces]
        exact hopens.skip_eq
      have hread := hitem.2 depth fuel _ (endsNumber_separator indent depth tail) (by omega)
      rw [hsep, List.cons_append] at hread
      rw [htext, hsep, List.cons_append,
        readItems_more hread (skip_of_head (by rintro c ⟨⟩; rfl)), hskip, hnext,
        List.reverse_cons, List.append_assoc]
      rfl

theorem name_not_mem {read fields : List (String × Value)} {name : String} {value : Value}
    (h : ((read ++ (name, value) :: fields).map (·.1)).Nodup) :
    name ∉ read.map (·.1) := by
  rw [List.map_append, List.map_cons, List.nodup_middle, List.nodup_cons, List.mem_append,
    not_or] at h
  exact h.1.1

theorem skip_value {v : Value} (h : IsPlain v) (depth : Nat) (rest : List Char) :
    skip (' ' :: (writeValue ascii indent depth v ++ rest)) =
      writeValue ascii indent depth v ++ rest := by
  rw [skip_cons_space rfl]
  exact ((opens_writeValue h ascii indent depth).append rest).skip_eq

/-- **Run.** The fields of a table, from one of them on. -/
theorem readFields_written (fields : List (String × Value)) :
    ∀ (name : String) (value : Value) (depth depth' fuel : Nat) (read : List (String × Value))
      (rest : List Char),
      (∀ f ∈ (name, value) :: fields, IsPlain f.2 ∧ ReadsBack ascii indent f.2) →
      ((read ++ (name, value) :: fields).map (·.1)).Nodup →
      2 * (writeValue ascii indent depth value ++ writeFields ascii indent depth fields).length <
        fuel →
      readFields fuel read (writeText ascii name ++ (':' :: ' ' ::
        (writeValue ascii indent depth value ++ (writeFields ascii indent depth fields ++
          (lineBreak indent depth' ++ '\x7d' :: rest))))) =
        .ok (.table (read ++ (name, value) :: fields), rest) := by
  induction fields with
  | nil =>
      intro name value depth depth' fuel read rest hplain hnames hfuel
      obtain ⟨fuel, rfl⟩ : ∃ m, fuel = m + 1 := ⟨fuel - 1, by omega⟩
      rw [writeFields, List.append_nil] at hfuel
      -- the last field: the closing bracket follows its value
      have hvalue : IsPlain value ∧ ReadsBack ascii indent value :=
        hplain (name, value) List.mem_cons_self
      have hread := hvalue.2 depth fuel _ (endsNumber_close (.inr rfl) indent depth' rest)
        (by omega)
      rw [← skip_value hvalue.1] at hread
      rw [writeFields, List.nil_append, writeText_append,
        readFields_last (readString_writeText name _) hread (skip_close rfl indent depth' rest),
        Value.setField_of_not_mem (name_not_mem hnames)]
  | cons f fields ih =>
      obtain ⟨name', value'⟩ := f
      intro name value depth depth' fuel read rest hplain hnames hfuel
      obtain ⟨fuel, rfl⟩ : ∃ m, fuel = m + 1 := ⟨fuel - 1, by omega⟩
      rw [List.forall_mem_cons] at hplain
      obtain ⟨hvalue, hfields⟩ := hplain
      obtain ⟨spaces, hsep, hspaces⟩ := separator_eq indent depth
      rw [writeFields, hsep] at hfuel
      simp only [List.length_append, List.length_cons] at hfuel
      have hnames' : (((read ++ [(name, value)]) ++ (name', value') :: fields).map (·.1)).Nodup := by
        rw [List.append_assoc]
        exact hnames
      -- the next field, as the text has it
      generalize htail : writeText ascii name' ++ (':' :: ' ' ::
        (writeValue ascii indent depth value' ++ (writeFields ascii indent depth fields ++
          (lineBreak indent depth' ++ '\x7d' :: rest)))) = tail
      have hnext := ih name' value' depth depth' fuel (read ++ [(name, value)]) rest hfields hnames'
        (by rw [List.length_append]; omega)
      rw [htail] at hnext
      have htext : writeFields ascii indent depth ((name', value') :: fields) ++
          (lineBreak indent depth' ++ '\x7d' :: rest) = separator indent depth ++ tail := by
        rw [writeFields, ← htail]
        simp only [List.append_assoc, List.cons_append, List.nil_append]
      have hskip : skip (spaces ++ tail) = tail := by
        rw [hspaces, ← htail, writeText_append]
        exact skip_of_head (by rintro c ⟨⟩; rfl)
      have hread := hvalue.2 depth fuel _ (endsNumber_separator indent depth tail)
        (by dsimp only; omega)
      rw [← skip_value hvalue.1, hsep, List.cons_append] at hread
      rw [htext, hsep, List.cons_append, writeText_append,
        readFields_more (readString_writeText name _) hread (skip_of_head (by rintro c ⟨⟩; rfl)),
        hskip, Value.setField_of_not_mem (name_not_mem hnames), hnext, List.append_assoc]
      rfl

theorem readValue_items {fuel : Nat} {cs inner : List Char} (hskip : skip cs = inner)
    (hinner : ∀ tail, inner ≠ ']' :: tail) :
    readValue (fuel + 1) ('[' :: cs) = readItems fuel [] inner := by
  rw [readValue, hskip]
  split
  · exact absurd rfl (hinner _)
  · rfl

theorem readValue_fields {fuel : Nat} {cs inner : List Char} (hskip : skip cs = inner)
    (hinner : ∀ tail, inner ≠ '\x7d' :: tail) :
    readValue (fuel + 1) ('\x7b' :: cs) = readFields fuel [] inner := by
  rw [readValue, hskip]
  split
  · exact absurd rfl (hinner _)
  · rfl

theorem fuel_of_length {v : Value} (h : IsPlain v) {depth fuel : Nat}
    (hfuel : 2 * (writeValue ascii indent depth v).length ≤ fuel) :
    ∃ more, fuel = more + 1 := by
  obtain ⟨c, cs, hcs, _⟩ := opens_writeValue h ascii indent depth
  rw [hcs, List.length_cons] at hfuel
  exact ⟨fuel - 1, by omega⟩

/-- **Plain values are read back.** -/
theorem IsPlain.readsBack {v : Value} (h : IsPlain v) : ReadsBack ascii indent v := by
  induction h with
  | null =>
      intro depth fuel rest _ hfuel
      obtain ⟨fuel, rfl⟩ := fuel_of_length .null hfuel
      rw [writeValue]
      exact readValue_scalar _ (by decide) (by decide) (by decide)
  | bool b =>
      intro depth fuel rest _ hfuel
      obtain ⟨fuel, rfl⟩ := fuel_of_length (.bool b) hfuel
      rw [writeValue]
      cases b with
      | true => exact readValue_scalar _ (by decide) (by decide) (by decide)
      | false => exact readValue_scalar _ (by decide) (by decide) (by decide)
  | int hz =>
      intro depth fuel rest hrest hfuel
      obtain ⟨fuel, rfl⟩ := fuel_of_length (.int hz) hfuel
      rw [writeValue]
      exact readValue_int hz hrest
  | text s =>
      intro depth fuel rest _ hfuel
      obtain ⟨fuel, rfl⟩ := fuel_of_length (.text s) hfuel
      rw [writeValue, writeText_append, readValue, readString_writeText]
      rfl
  | @list items hplain ih =>
      intro depth fuel rest _ hfuel
      obtain ⟨fuel, rfl⟩ := fuel_of_length (.list hplain) hfuel
      cases items with
      | nil =>
          rw [writeValue]
          rfl
      | cons item items =>
          rw [writeValue] at hfuel ⊢
          simp only [List.length_append, List.length_cons] at hfuel
          -- the items are read back one after the other, and the bracket ends them
          have hboth : ∀ v ∈ item :: items, IsPlain v ∧ ReadsBack ascii indent v :=
            fun v hv => ⟨hplain v hv, ih v hv⟩
          have hread := readItems_written items item (depth + 1) depth fuel [] rest hboth
            (by rw [List.length_append]; omega)
          have hopens := (opens_writeValue (hplain item List.mem_cons_self) ascii indent
            (depth + 1)).append (writeItems ascii indent (depth + 1) items ++
              (lineBreak indent depth ++ ']' :: rest))
          have hskip := (skip_lineBreak indent (depth + 1) _).trans hopens.skip_eq
          rw [List.reverse_nil, List.nil_append] at hread
          simp only [List.append_assoc, List.cons_append, List.nil_append]
          rw [readValue_items hskip (hopens.head_ne (by decide)), hread]
  | @table fields hnames hplain ih =>
      intro depth fuel rest _ hfuel
      obtain ⟨fuel, rfl⟩ := fuel_of_length (.table hnames hplain) hfuel
      cases fields with
      | nil =>
          rw [writeValue]
          rfl
      | cons f fields =>
          obtain ⟨name, value⟩ := f
          rw [writeValue] at hfuel ⊢
          simp only [List.length_append, List.length_cons] at hfuel
          -- the same for fields, whose names differ, so that none replaces another
          have hboth : ∀ f ∈ (name, value) :: fields, IsPlain f.2 ∧ ReadsBack ascii indent f.2 :=
            fun f hf => ⟨hplain f hf, ih f hf⟩
          have hread := readFields_written fields name value (depth + 1) depth fuel [] rest hboth
            hnames (by rw [List.length_append]; omega)
          rw [writeText_append, List.nil_append] at hread
          simp only [List.append_assoc, List.cons_append, List.nil_append]
          rw [writeText_append, readValue_fields (skip_close rfl indent (depth + 1) _) (by simp),
            hread]

/-- **A plain document is read back from its text**, with white space at the end or not. -/
theorem decode_writeValue {v : Value} (h : IsPlain v) (ascii : Bool) (indent : Option Nat)
    {spaces : List Char} (hspaces : ∀ c ∈ spaces, isSpace c = true) :
    decode (writeValue ascii indent 0 v ++ spaces) = .ok v := by
  have hopens := (opens_writeValue h ascii indent 0).append spaces
  have hends : EndsNumber spaces := by
    intro c hc
    have hspace := hspaces c (List.mem_of_head? hc)
    unfold isSpace at hspace
    simp only [Bool.or_eq_true, decide_eq_true_iff] at hspace
    rcases hspace with ((rfl | rfl) | rfl) | rfl <;> decide
  -- no value starts with the byte order mark, which is refused in front of a document
  have hmark : (writeValue ascii indent 0 v ++ spaces).head? ≠ some '\ufeff' := by
    intro hhead
    obtain ⟨c, cs, hcs, hc⟩ := hopens
    rw [hcs] at hhead
    obtain rfl : c = '\ufeff' := Option.some.inj hhead
    exact absurd hc (by decide)
  have hread : readFirst (writeValue ascii indent 0 v ++ spaces) = .ok (v, spaces) := by
    unfold readFirst
    exact h.readsBack 0 _ spaces hends (by rw [List.length_append]; omega)
  have hend : skip spaces = [] := by
    have := skip_append hspaces []
    rwa [List.append_nil] at this
  unfold decode
  rw [if_neg hmark, hopens.skip_eq, hread, Result.ok_bind]
  dsimp only
  rw [hend]
  rfl

end RoundTrip

/-! ## Fields in the order of their names -/

section Sorted

variable {fields fields' : List (String × Value)}

theorem sortItems_eq (items : List Value) : sortItems items = items.map sortKeys := by
  induction items with
  | nil => rw [sortItems, List.map_nil]
  | cons item items ih => rw [sortItems, ih, List.map_cons]

theorem sortFields_eq (fields : List (String × Value)) :
    sortFields fields = fields.map fun f => (f.1, sortKeys f.2) := by
  induction fields with
  | nil => rw [sortFields, List.map_nil]
  | cons f fields ih =>
      obtain ⟨name, value⟩ := f
      rw [sortFields, ih, List.map_cons]

theorem names_sortFields (fields : List (String × Value)) :
    (sortFields fields).map (·.1) = fields.map (·.1) := by
  rw [sortFields_eq, List.map_map]
  rfl

theorem lookup?_sortFields (name : String) :
    Value.lookup? name (sortFields fields) = (Value.lookup? name fields).map sortKeys := by
  induction fields with
  | nil => rw [sortFields]; rfl
  | cons f fields ih =>
      obtain ⟨key, value⟩ := f
      rw [sortFields, Value.lookup?, Value.lookup?]
      split
      · rfl
      · exact ih

/-- A table whose fields were sorted: the fields that it had, with the tables in them
sorted as well. -/
theorem sortKeys_table (hnames : (fields.map (·.1)).Nodup) :
    ∃ sorted, sortKeys (.table fields) = .table sorted ∧
      (sorted.map (·.1)).Nodup ∧ (∀ f ∈ sorted, ∃ v, (f.1, v) ∈ fields ∧ f.2 = sortKeys v) ∧
      ∀ name, Value.lookup? name sorted = (Value.lookup? name fields).map sortKeys := by
  have hperm := List.mergeSort_perm (sortFields fields) fun a b => (compare a.1 b.1).isLE
  have hsorted : ((sortFields fields).map (·.1)).Nodup := by rw [names_sortFields]; exact hnames
  refine ⟨_, by rw [sortKeys], (hperm.map _).nodup_iff.mpr hsorted, ?_, ?_⟩
  · intro f hf
    have hmem := hperm.mem_iff.mp hf
    rw [sortFields_eq] at hmem
    obtain ⟨g, hg, rfl⟩ := List.mem_map.mp hmem
    exact ⟨g.2, hg, rfl⟩
  · intro name
    rw [Value.lookup?_of_perm hsorted hperm, lookup?_sortFields]

theorem IsPlain.sortKeys {v : Value} (h : IsPlain v) : IsPlain (sortKeys v) := by
  induction h with
  | null => simpa only [Json.sortKeys] using .null
  | bool b => simpa only [Json.sortKeys] using .bool b
  | int hz => simpa only [Json.sortKeys] using .int hz
  | text s => simpa only [Json.sortKeys] using .text s
  | list _ ih =>
      rw [Json.sortKeys, sortItems_eq]
      refine .list fun w hw => ?_
      obtain ⟨v, hv, rfl⟩ := List.mem_map.mp hw
      exact ih v hv
  | table hnames _ ih =>
      obtain ⟨sorted, heq, hsorted, hfields, _⟩ := sortKeys_table hnames
      rw [heq]
      refine .table hsorted fun f hf => ?_
      obtain ⟨v, hv, hvalue⟩ := hfields f hf
      rw [hvalue]
      exact ih (f.1, v) hv

/-- **A plain document comes back from its text in any style**, with its fields in the
order in which the style has them. -/
theorem decode_encode {v : Value} (h : IsPlain v) (style : Style) {spaces : List Char}
    (hspaces : ∀ c ∈ spaces, isSpace c = true) :
    decode (encode style v ++ spaces) = .ok (if style.sorted then sortKeys v else v) := by
  unfold encode
  split
  · exact decode_writeValue h.sortKeys style.ascii style.indent hspaces
  · exact decode_writeValue h style.ascii style.indent hspaces

end Sorted

end LockAudit.Json

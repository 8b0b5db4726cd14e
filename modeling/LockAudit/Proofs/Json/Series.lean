import LockAudit.Proofs.Json.Reading
import LockAudit.Proofs.Value

/-!
# Where the parts of a document stand

The items of a list and the fields of a table stand in a text one behind the other, with
commas between them and a bracket at the end. `Series` says so of things of any kind, and
`Enclosed` adds what stands between two brackets with nothing in them. Both are about the
text alone: there is no bound, and nothing is collected on the way.

What the decoder makes of a list or a table is what stands there (`readList_enclosed`,
`readTable_enclosed`). A table gets its fields one after the other, so of two with one name
the last one counts (`lookup?_tableOf`).
-/

namespace LockAudit.Json

open Text (Leaves)

variable {cs rest after : List Char} {v : Value} {fuel : Nat}

/-! ## One thing after the other -/

section Series

variable {ι : Type} {Reads : List Char → ι → List Char → Prop} {close : Char} {items : List ι}

/-- Things with commas between them and a bracket behind the last one. -/
inductive Series (Reads : List Char → ι → List Char → Prop) (close : Char) :
    List Char → List ι → List Char → Prop
  | last {cs rest after : List Char} {item : ι} (reads : Reads cs item rest)
      (next : skip rest = close :: after) : Series Reads close cs [item] after
  | more {cs rest next after : List Char} {item : ι} {items : List ι} (reads : Reads cs item rest)
      (comma : skip rest = ',' :: next) (series : Series Reads close (skip next) items after) :
      Series Reads close cs (item :: items) after

/-- What stands behind an opening bracket: things with commas between them, or nothing. -/
inductive Enclosed (Reads : List Char → ι → List Char → Prop) (close : Char) :
    List Char → List ι → List Char → Prop
  | empty {cs after : List Char} (next : skip cs = close :: after) : Enclosed Reads close cs [] after
  | series {cs after : List Char} {items : List ι} (series : Series Reads close (skip cs) items after) :
      Enclosed Reads close cs items after

/-- The text tells what stands in it. -/
theorem Series.unique {items' : List ι} {after' : List Char}
    (hreads : ∀ cs item rest item' rest', Reads cs item rest → Reads cs item' rest' →
      item = item' ∧ rest = rest') (hclose : close ≠ ',')
    (h : Series Reads close cs items after) (h' : Series Reads close cs items' after') :
    items = items' ∧ after = after' := by
  induction h generalizing items' with
  | last reads next =>
      cases h' with
      | last reads' next' =>
          obtain ⟨rfl, rfl⟩ := hreads _ _ _ _ _ reads reads'
          exact ⟨rfl, (List.cons.inj (next.symm.trans next')).2⟩
      | more reads' comma' series' =>
          obtain ⟨rfl, rfl⟩ := hreads _ _ _ _ _ reads reads'
          -- one reading ends where the other goes on
          exact absurd (List.cons.inj (next.symm.trans comma')).1 hclose
  | more reads comma series ih =>
      cases h' with
      | last reads' next' =>
          obtain ⟨rfl, rfl⟩ := hreads _ _ _ _ _ reads reads'
          exact absurd (List.cons.inj (next'.symm.trans comma)).1 hclose
      | more reads' comma' series' =>
          obtain ⟨rfl, rfl⟩ := hreads _ _ _ _ _ reads reads'
          obtain ⟨_, rfl⟩ := List.cons.inj (comma.symm.trans comma')
          obtain ⟨rfl, rfl⟩ := ih series'
          exact ⟨rfl, rfl⟩

/-- A series begins with one of its things. -/
theorem Series.exists_first (h : Series Reads close cs items after) :
    ∃ item rest, Reads cs item rest := by
  cases h with
  | last reads next => exact ⟨_, _, reads⟩
  | more reads comma series => exact ⟨_, _, reads⟩

theorem Enclosed.unique {items' : List ι} {after' : List Char}
    (hreads : ∀ cs item rest item' rest', Reads cs item rest → Reads cs item' rest' →
      item = item' ∧ rest = rest') (hclose : close ≠ ',')
    (hfirst : ∀ cs item rest, ¬ Reads (close :: cs) item rest)
    (h : Enclosed Reads close cs items after) (h' : Enclosed Reads close cs items' after') :
    items = items' ∧ after = after' := by
  have hnone {items : List ι} {after more : List Char} (hclosed : skip cs = close :: more)
      (hseries : Series Reads close (skip cs) items after) : False := by
    obtain ⟨item, rest, hitem⟩ := hseries.exists_first
    rw [hclosed] at hitem
    exact hfirst _ _ _ hitem
  cases h with
  | empty next =>
      cases h' with
      | empty next' => exact ⟨rfl, (List.cons.inj (next.symm.trans next')).2⟩
      | series series' => exact (hnone next series').elim
  | series series =>
      cases h' with
      | empty next' => exact (hnone next' series).elim
      | series series' => exact series.unique hreads hclose series'

/-- Each of the things is read somewhere. -/
theorem Series.exists_reads (h : Series Reads close cs items after) :
    ∀ item ∈ items, ∃ cs rest, Reads cs item rest := by
  induction h with
  | last reads next =>
      rw [List.forall_mem_singleton]
      exact ⟨_, _, reads⟩
  | more reads comma series ih =>
      rw [List.forall_mem_cons]
      exact ⟨⟨_, _, reads⟩, ih⟩

theorem Enclosed.exists_reads (h : Enclosed Reads close cs items after) :
    ∀ item ∈ items, ∃ cs rest, Reads cs item rest := by
  cases h with
  | empty next => exact List.forall_mem_nil _
  | series series => exact series.exists_reads

/-- Each of the things stands in the text. -/
theorem Series.start_suffix {start : ι → List Char}
    (hreads : ∀ cs item rest, Reads cs item rest → start item <:+ cs ∧ rest <:+ cs)
    (h : Series Reads close cs items after) : ∀ item ∈ items, start item <:+ cs := by
  induction h with
  | last reads next =>
      rw [List.forall_mem_singleton]
      exact (hreads _ _ _ reads).1
  | more reads comma series ih =>
      obtain ⟨hstart, hrest⟩ := hreads _ _ _ reads
      rw [List.forall_mem_cons]
      refine ⟨hstart, fun item hitem => ?_⟩
      exact ((ih item hitem).trans (skip_suffix _)).trans ((after_skip comma).suffix.trans hrest)

theorem Enclosed.start_suffix {start : ι → List Char}
    (hreads : ∀ cs item rest, Reads cs item rest → start item <:+ cs ∧ rest <:+ cs)
    (h : Enclosed Reads close cs items after) : ∀ item ∈ items, start item <:+ cs := by
  cases h with
  | empty next => exact List.forall_mem_nil _
  | series series =>
      exact fun item hitem => (series.start_suffix hreads item hitem).trans (skip_suffix _)

end Series

/-! ## Items and fields -/

/-- A value, and the text from its first character on. -/
structure Placed where
  start : List Char
  value : Value

/-- A field of a table: the name, and the value where it stands. -/
structure Member extends Placed where
  name : String

/-- The item stands at the front of a text, before the rest. -/
structure ItemAt (cs : List Char) (item : Placed) (rest : List Char) : Prop where
  start_eq : item.start = cs
  value : readFirst cs = .ok (item.value, rest)

/-- The field stands at the front of a text, before the rest. -/
inductive MemberAt : List Char → Member → List Char → Prop
  | field {inner behind next rest : List Char} {key : String} {v : Value}
      (name : readString inner = .ok (key, behind)) (colon : skip behind = ':' :: next)
      (value : readFirst (skip next) = .ok (v, rest)) :
      MemberAt ('"' :: inner) ⟨⟨skip next, v⟩, key⟩ rest

/-- The items of a list, from behind its bracket. -/
abbrev Items : List Char → List Placed → List Char → Prop := Enclosed ItemAt ']'

/-- The fields of a table, from behind its brace. -/
abbrev Members : List Char → List Member → List Char → Prop := Enclosed MemberAt '\x7d'

theorem readFirst_leaves (h : readFirst cs = .ok (v, rest)) : Leaves cs rest :=
  (read_leaves _).1 _ _ _ h

/-- A name is a value as well. -/
theorem readFirst_name {name : String} (h : readString cs = .ok (name, rest)) :
    readFirst ('"' :: cs) = .ok (.text name, rest) := by
  unfold readFirst
  rw [readValue, h]
  rfl

/-- No value starts with the bracket that ends a list. -/
theorem readValue_close : readValue fuel (']' :: cs) ≠ .ok (v, rest) := by
  cases fuel with
  | zero => simp [readValue]
  | succ fuel =>
      have hnone : (literals.find? fun l => l.1.toList.isPrefixOf (']' :: cs)) = none := by
        rw [List.find?_eq_none]
        simp [literals]
      change readScalar (']' :: cs) ≠ .ok (v, rest)
      unfold readScalar
      rw [hnone]
      simp [readNumber, takeWhole, Text.isAsciiDigit]

theorem memberAt_leaves {m : Member} (h : MemberAt cs m rest) : Leaves cs rest := by
  cases h with
  | field name colon value =>
      have hnext := (skip_suffix _).trans (after_skip colon).suffix
      have hvalue := (readFirst_leaves value).suffix.trans hnext
      exact .cons _ (hvalue.trans (readString_leaves name).suffix)

theorem Items.unique {items items' : List Placed} {after' : List Char} (h : Items cs items after)
    (h' : Items cs items' after') : items = items' ∧ after = after' := by
  refine Enclosed.unique ?_ (by decide) ?_ h h'
  · rintro cs ⟨start, v⟩ rest ⟨start', v'⟩ rest' ⟨rfl, hv⟩ ⟨rfl, hv'⟩
    cases hv.symm.trans hv'
    exact ⟨rfl, rfl⟩
  · rintro cs item rest ⟨_, hv⟩
    exact readValue_close hv

theorem Members.unique {members members' : List Member} {after' : List Char}
    (h : Members cs members after) (h' : Members cs members' after') :
    members = members' ∧ after = after' := by
  refine Enclosed.unique ?_ (by decide) ?_ h h'
  · rintro cs member rest member' rest' ⟨name, colon, value⟩ ⟨name', colon', value'⟩
    cases name.symm.trans name'
    cases colon.symm.trans colon'
    cases value.symm.trans value'
    exact ⟨rfl, rfl⟩
  · rintro cs member rest ⟨⟩

theorem Items.start_suffix {items : List Placed} (h : Items cs items after) :
    ∀ item ∈ items, item.start <:+ cs := by
  refine Enclosed.start_suffix ?_ h
  rintro cs item rest ⟨rfl, hvalue⟩
  exact ⟨List.suffix_refl _, (readFirst_leaves hvalue).suffix⟩

theorem Members.start_suffix {members : List Member} (h : Members cs members after) :
    ∀ m ∈ members, m.start <:+ cs := by
  refine Enclosed.start_suffix ?_ h
  intro cs m rest hreads
  refine ⟨?_, (memberAt_leaves hreads).suffix⟩
  obtain ⟨name, colon, value⟩ := hreads
  have hnext := (skip_suffix _).trans (after_skip colon).suffix
  exact (Leaves.cons _ (hnext.trans (readString_leaves name).suffix)).suffix

theorem Members.value {members : List Member} {m : Member} (h : Members cs members after)
    (hm : m ∈ members) : ∃ rest, readFirst m.start = .ok (m.value, rest) := by
  obtain ⟨_, rest, hreads⟩ := h.exists_reads m hm
  cases hreads with
  | field name colon value => exact ⟨rest, value⟩

/-! ## What the decoder makes of them -/

/-- The fields of a table after some more. -/
def tableOf (read : List (String × Value)) (members : List Member) : List (String × Value) :=
  members.foldl (fun fields m => Value.setField m.name m.value fields) read

/-- **The items of a list stand one after the other**, from any of them on. -/
theorem readItems_series {read : List Value} (h : readItems fuel read cs = .ok (v, after)) :
    ∃ items, Series ItemAt ']' cs items after ∧ v = .list (read.reverse ++ items.map (·.value)) := by
  induction fuel generalizing read cs with
  | zero => exact absurd h (by simp [readItems])
  | succ fuel ih =>
      unfold readItems at h
      obtain ⟨⟨item, rest⟩, hitem, h⟩ := Result.bind_ok.mp h
      have hreads : ItemAt cs ⟨cs, item⟩ rest := ⟨rfl, readFirst_of_readValue hitem⟩
      dsimp only at h
      split at h
      · rename_i hclose
        cases h
        exact ⟨[⟨cs, item⟩], .last hreads hclose, by rw [List.reverse_cons]; rfl⟩
      · rename_i hcomma
        obtain ⟨items, hseries, rfl⟩ := ih h
        refine ⟨⟨cs, item⟩ :: items, .more hreads hcomma hseries, ?_⟩
        rw [List.reverse_cons, List.append_assoc]
        rfl
      · exact absurd h (by simp)

/-- **The fields of a table stand one after the other**, from any of them on. -/
theorem readFields_series {read : List (String × Value)}
    (h : readFields fuel read cs = .ok (v, after)) :
    ∃ members, Series MemberAt '\x7d' cs members after ∧ v = .table (tableOf read members) := by
  induction fuel generalizing read cs with
  | zero => exact absurd h (by simp [readFields])
  | succ fuel ih =>
      unfold readFields at h
      split at h
      · obtain ⟨⟨name, behind⟩, hname, h⟩ := Result.bind_ok.mp h
        dsimp only at h
        split at h
        · rename_i next hcolon
          obtain ⟨⟨value, rest⟩, hvalue, h⟩ := Result.bind_ok.mp h
          -- one member is read; what stands behind it closes the table or starts the next
          have hreads := MemberAt.field hname hcolon (readFirst_of_readValue hvalue)
          dsimp only at h
          split at h
          · rename_i hclose
            cases h
            exact ⟨_, .last hreads hclose, rfl⟩
          · rename_i hcomma
            obtain ⟨members, hseries, rfl⟩ := ih h
            exact ⟨_, .more hreads hcomma hseries, rfl⟩
          · exact absurd h (by simp)
        · exact absurd h (by simp)
      · exact absurd h (by simp)

theorem readList_enclosed (h : readValue fuel ('[' :: cs) = .ok (v, after)) :
    ∃ items, Items cs items after ∧ v = .list (items.map (·.value)) := by
  cases fuel with
  | zero => exact absurd h (by simp [readValue])
  | succ fuel =>
      rw [readValue] at h
      split at h
      · rename_i hclose
        cases h
        exact ⟨[], .empty hclose, rfl⟩
      · obtain ⟨items, hseries, rfl⟩ := readItems_series h
        exact ⟨items, .series hseries, rfl⟩

theorem readTable_enclosed (h : readValue fuel ('\x7b' :: cs) = .ok (v, after)) :
    ∃ members, Members cs members after ∧ v = .table (tableOf [] members) := by
  cases fuel with
  | zero => exact absurd h (by simp [readValue])
  | succ fuel =>
      rw [readValue] at h
      split at h
      · rename_i hclose
        cases h
        exact ⟨[], .empty hclose, rfl⟩
      · obtain ⟨members, hseries, rfl⟩ := readFields_series h
        exact ⟨members, .series hseries, rfl⟩

/-- Literals and numbers have no parts. -/
theorem readScalar_flat (h : readScalar cs = .ok (v, rest)) :
    (∀ items, v ≠ .list items) ∧ ∀ fields, v ≠ .table fields := by
  unfold readScalar at h
  split at h
  · rename_i name value hfind
    cases h
    have hmem := List.mem_of_find?_eq_some hfind
    constructor
    · rintro items rfl
      simp [literals] at hmem
    · rintro fields rfl
      simp [literals] at hmem
  · -- a number is an integer or a double
    unfold readNumber at h
    dsimp only at h
    split at h
    · exact absurd h (by simp)
    · split at h
      · split at h
        · cases h
          exact ⟨by simp, by simp⟩
        · exact absurd h (by simp)
      · cases h
        exact ⟨by simp, by simp⟩

/-- A value with parts stands between brackets. -/
theorem readValue_cases (h : readValue fuel cs = .ok (v, rest)) :
    (∃ inner items, cs = '[' :: inner ∧ Items inner items rest ∧ v = .list (items.map (·.value))) ∨
    (∃ inner members, cs = '\x7b' :: inner ∧ Members inner members rest ∧
      v = .table (tableOf [] members)) ∨
    (∀ items, v ≠ .list items) ∧ ∀ fields, v ≠ .table fields := by
  cases fuel with
  | zero => exact absurd h (by simp [readValue])
  | succ fuel =>
      have hread := h
      unfold readValue at h
      split at h
      · obtain ⟨⟨s, after⟩, _, h⟩ := Result.bind_ok.mp h
        cases h
        exact .inr (.inr ⟨by simp, by simp⟩)
      · obtain ⟨members, hmembers, rfl⟩ := readTable_enclosed hread
        exact .inr (.inl ⟨_, members, rfl, hmembers, rfl⟩)
      · obtain ⟨items, hitems, rfl⟩ := readList_enclosed hread
        exact .inl ⟨_, items, rfl, hitems, rfl⟩
      · exact .inr (.inr (readScalar_flat h))

/-- **The fields of a document**, and where they stand in its text. -/
theorem table_of_decode {fields : List (String × Value)} (h : decode cs = .ok (.table fields)) :
    ∃ inner members after, skip cs = '\x7b' :: inner ∧ Members inner members after ∧
      fields = tableOf [] members := by
  unfold decode at h
  split at h
  · exact absurd h (by simp)
  · obtain ⟨⟨value, rest⟩, hvalue, h⟩ := Result.bind_ok.mp h
    dsimp only at h
    split at h
    · cases h
      rcases readValue_cases hvalue with ⟨_, _, _, _, hlist⟩ | ⟨inner, members, hopen, hmembers, heq⟩ |
          ⟨_, hflat⟩
      · exact absurd hlist (by simp)
      · exact ⟨inner, members, rest, hopen, hmembers, Value.table.inj heq⟩
      · exact absurd rfl (hflat fields)
    · exact absurd h (by simp)

/-! ## Fields by name -/

/-- Of the fields with a name the last one. -/
def lastNamed? (name : String) (members : List Member) : Option Member :=
  members.reverse.find? (·.name = name)

theorem lastNamed?_cons (name : String) (m : Member) (members : List Member) :
    lastNamed? name (m :: members) =
      (lastNamed? name members).or (if m.name = name then some m else none) := by
  unfold lastNamed?
  rw [List.reverse_cons, List.find?_append, List.find?_singleton]
  simp only [decide_eq_true_eq]

theorem lastNamed?_eq_none {name : String} {members : List Member} :
    lastNamed? name members = none ↔ ∀ m ∈ members, m.name ≠ name := by
  simp [lastNamed?]

/-- The last field with a name is among the later ones, or none of those has the name. -/
theorem lastNamed?_cases {name : String} {first m : Member} {members : List Member}
    (h : lastNamed? name (first :: members) = some m) :
    lastNamed? name members = some m ∨
      (∀ m ∈ members, m.name ≠ name) ∧ first = m ∧ m.name = name := by
  rw [lastNamed?_cons] at h
  cases hlater : lastNamed? name members with
  | some m' =>
      rw [hlater] at h
      exact .inl h
  | none =>
      rw [hlater, Option.none_or] at h
      by_cases hname : first.name = name
      · rw [if_pos hname] at h
        obtain rfl := Option.some.inj h
        exact .inr ⟨lastNamed?_eq_none.mp hlater, rfl, hname⟩
      · rw [if_neg hname] at h
        exact absurd h (by simp)

theorem mem_of_lastNamed? {name : String} {members : List Member} {m : Member}
    (h : lastNamed? name members = some m) : m ∈ members :=
  List.mem_reverse.mp (List.mem_of_find?_eq_some h)

/-- **Of two fields with one name the last one counts.** -/
theorem lookup?_tableOf (name : String) (members : List Member) (read : List (String × Value)) :
    Value.lookup? name (tableOf read members) =
      ((lastNamed? name members).map (·.value)).or (Value.lookup? name read) := by
  induction members generalizing read with
  | nil => rfl
  | cons m members ih =>
      change Value.lookup? name (tableOf (Value.setField m.name m.value read) members) = _
      rw [ih, lastNamed?_cons, Value.lookup?_setField]
      cases lastNamed? name members with
      | some last => rfl
      | none =>
          by_cases hname : m.name = name
          · simp only [if_pos hname]
            rfl
          · simp only [if_neg hname]
            rfl

end LockAudit.Json

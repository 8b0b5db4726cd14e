import LockAudit.Lockfile.Object
import LockAudit.Proofs.Json.Series

/-!
# The walk over a document

The lines of the entries are found by a walk over the text, value by value, that looks at
the next character again and again. `ItemsAt` and `FieldsAt` are that walk without its
bounds: they have no rule for a place where there is no character to look at, and none for
a value that cannot be read. So the walk comes to its end exactly where they hold.

They hold of every text that decodes to a table, because the walk passes through the places
where its fields stand, from each value to the comma or the brace behind it. What it has in
the end (`Finds`) are the items of the last list of entries.
-/

namespace LockAudit.Lockfile.Object

variable {cs rest after : List Char} {v : Value} {starts : List (List Char)}

/-! ## The steps of the walk -/

/-- Where the walk goes on after a value: behind the comma, or at what stands there instead
of one. -/
inductive GoesOn : List Char → List Char → Prop
  | comma {rest more : List Char} (next : Json.skip rest = ',' :: more) : GoesOn rest (Json.skip more)
  | other {rest more : List Char} {c : Char} (next : Json.skip rest = c :: more) (hc : c ≠ ',') :
      GoesOn rest (c :: more)

/-- The walk over the items of a list, from one item on: where the items start, and what
comes after the list. -/
inductive ItemsAt : List Char → List (List Char) → List Char → Prop
  | close (rest : List Char) : ItemsAt (']' :: rest) [] rest
  | item {cs rest next after : List Char} {v : Value} {starts : List (List Char)}
      (more : cs.head? ≠ some ']') (value : Json.readFirst cs = .ok (v, rest))
      (goes : GoesOn rest next) (items : ItemsAt next starts after) :
      ItemsAt cs (cs :: starts) after

/-- The value of a field, from behind the field's name. -/
def fieldValue (rest : List Char) : List Char := Json.skip ((Json.skip rest).drop 1)

/-- The walk over the fields of a table, from one field on. It starts with the items of an
earlier list and ends with those of the last list that there is. -/
inductive FieldsAt : List (List Char) → List Char → List (List Char) → Prop
  | close {starts : List (List Char)} {cs rest : List Char} (next : Json.skip cs = '\x7d' :: rest) :
      FieldsAt starts cs starts
  | packages {old starts found : List (List Char)} {cs more rest items after next : List Char}
      {c : Char} (some_field : Json.skip cs = c :: more) (hc : c ≠ '\x7d')
      (name : Json.readFirst (c :: more) = .ok (.text "packages", rest))
      (value : fieldValue rest = '[' :: items) (list : ItemsAt (Json.skip items) starts after)
      (goes : GoesOn after next) (fields : FieldsAt starts next found) : FieldsAt old cs found
  | other {starts found : List (List Char)} {cs more rest after next : List Char} {c : Char}
      {name v : Value} (some_field : Json.skip cs = c :: more) (hc : c ≠ '\x7d')
      (read : Json.readFirst (c :: more) = .ok (name, rest))
      (other : ¬ (name = .text "packages" ∧ (fieldValue rest).head? = some '['))
      (value : Json.readFirst (fieldValue rest) = .ok (v, after))
      (goes : GoesOn after next) (fields : FieldsAt starts next found) : FieldsAt starts cs found

/-! ## Lists -/

/-- The walk finds the items of a list where they stand. -/
theorem itemsAt_of_series {items : List Json.Placed}
    (h : Json.Series Json.ItemAt ']' cs items after) : ItemsAt cs (items.map (·.start)) after := by
  have hopen {cs rest : List Char} {item : Json.Placed} (hitem : Json.ItemAt cs item rest) :
      cs.head? ≠ some ']' := by
    intro hhead
    obtain ⟨cs', rfl⟩ := List.head?_eq_some_iff.mp hhead
    exact Json.readValue_close hitem.value
  induction h with
  | last reads next =>
      rw [List.map_singleton, reads.start_eq]
      exact .item (hopen reads) reads.value (.other next (by decide)) (.close _)
  | more reads comma series ih =>
      rw [List.map_cons, reads.start_eq]
      exact .item (hopen reads) reads.value (.comma comma) ih

theorem itemsAt_of_items {items : List Json.Placed} (h : Json.Items cs items after) :
    ItemsAt (Json.skip cs) (items.map (·.start)) after := by
  cases h with
  | empty next =>
      rw [next]
      exact .close _
  | series series => exact itemsAt_of_series series

theorem dropValue_of_readFirst (h : Json.readFirst cs = .ok (v, rest)) : dropValue cs = rest := by
  unfold dropValue
  rw [h]

theorem GoesOn.suffix {next : List Char} (h : GoesOn rest next) : next <:+ rest := by
  cases h with
  | comma next => exact (Json.skip_suffix _).trans (Json.after_skip next).suffix
  | other next hc => exact next ▸ Json.skip_suffix _

/-- What comes after a value, and after the comma behind it if there is one. -/
def afterComma (rest : List Char) : List Char :=
  match Json.skip rest with
  | ',' :: rest => rest
  | rest => rest

theorem GoesOn.skip_afterComma {next : List Char} (h : GoesOn rest next) :
    Json.skip (afterComma rest) = next := by
  unfold afterComma
  cases h with
  | comma hskip =>
      rw [hskip]
      rfl
  | other hskip hc =>
      rw [← hskip]
      split
      · rename_i hcomma
        exact absurd (List.cons.inj (hskip.symm.trans hcomma)).1 hc
      · exact Json.skip_skip rest

theorem itemLines_item {document : List Char} (bound : Nat) (hne : cs ≠ [])
    (hmore : cs.head? ≠ some ']') :
    itemLines document (bound + 1) cs =
      (Text.lineAt document cs :: (itemLines document bound (Json.skip (afterComma (dropValue cs)))).1,
        (itemLines document bound (Json.skip (afterComma (dropValue cs)))).2) := by
  have hgo : Json.skip (afterComma (dropValue cs)) = match Json.skip (dropValue cs) with
      | ',' :: rest => Json.skip rest
      | rest => rest := by
    unfold afterComma
    split
    · rfl
    · exact Json.skip_skip _
  rw [hgo]
  exact itemLines.eq_4 document cs bound hne fun rest heq => hmore (by rw [heq]; rfl)

/-- The lines of the items are those of the places where the walk finds them. -/
theorem itemLines_of_itemsAt {document : List Char} (h : ItemsAt cs starts after) {bound : Nat}
    (hbound : cs.length ≤ bound) :
    itemLines document bound cs = (starts.map (Text.lineAt document), after) := by
  induction h generalizing bound with
  | close rest =>
      cases bound with
      | zero => exact absurd hbound (by simp)
      | succ bound => rfl
  | @item cs rest next after v starts more value goes items ih =>
      have hless := (Json.readFirst_leaves value).less
      have hnext := goes.suffix.length_le
      cases bound with
      | zero => omega
      | succ bound =>
          have hne : cs ≠ [] := List.ne_nil_of_length_pos (by omega)
          have hlines : itemLines document bound next = (starts.map (Text.lineAt document), after) :=
            ih (by omega)
          rw [itemLines_item bound hne more, dropValue_of_readFirst value, goes.skip_afterComma,
            hlines]
          rfl

/-! ## Tables -/

theorem fieldLines_skip (document : List Char) (bound : Nat) (lines : List Nat) (cs : List Char) :
    fieldLines document bound lines (Json.skip cs) = fieldLines document bound lines cs := by
  cases bound with
  | zero => rfl
  | succ bound => rw [fieldLines, fieldLines, Json.skip_skip]

theorem skip_name (inner : List Char) : Json.skip ('"' :: inner) = '"' :: inner :=
  Json.skip_of_head (by rintro c ⟨⟩; rfl)

/-- The lines after a field, and what comes after its value. -/
def fieldResult (document : List Char) (lines : List Nat) (name : String) (rest : List Char) :
    List Nat × List Char :=
  match name, fieldValue rest with
  | "packages", '[' :: items => itemLines document items.length (Json.skip items)
  | _, value => (lines, dropValue value)

theorem fieldLines_field {document inner : List Char} {bound : Nat} {lines : List Nat}
    {name : String} (h : Json.readString inner = .ok (name, rest)) :
    fieldLines document (bound + 1) lines ('"' :: inner) =
      fieldLines document bound (fieldResult document lines name rest).1
        (afterComma (fieldResult document lines name rest).2) := by
  have hgo (lines : List Nat) (after : List Char) :
      fieldLines document bound lines (afterComma after) = match Json.skip after with
        | ',' :: rest => fieldLines document bound lines rest
        | rest => fieldLines document bound lines rest := by
    unfold afterComma
    split <;> rfl
  rw [fieldLines, skip_name, hgo]
  simp only [h]
  rfl

/-- What the walk has found after some more fields: the items of the last list of entries among
them, or what it had found before. -/
inductive Finds : List (List Char) → List Json.Member → List (List Char) → Prop
  | none (starts : List (List Char)) : Finds starts [] starts
  | entries {old found : List (List Char)} {m : Json.Member} {members : List Json.Member}
      {inner after : List Char} {items : List Json.Placed} (named : m.name = "packages")
      (list : m.start = '[' :: inner) (placed : Json.Items inner items after)
      (later : Finds (items.map (·.start)) members found) : Finds old (m :: members) found
  | other {starts found : List (List Char)} {m : Json.Member} {members : List Json.Member}
      (other : ¬ (m.name = "packages" ∧ m.start.head? = some '['))
      (later : Finds starts members found) : Finds starts (m :: members) found

/-- **Step.** The walk gets past a field, and takes along the items if it is a list of entries. -/
theorem fieldsAt_field (document : List Char) {m : Json.Member} (h : Json.MemberAt cs m rest)
    (starts : List (List Char)) :
    ∃ new, (∀ members found, Finds new members found → Finds starts (m :: members) found) ∧
      (∀ next found, GoesOn rest next → FieldsAt new next found → FieldsAt starts cs found) ∧
      ∀ bound next, GoesOn rest next →
        fieldLines document (bound + 1) (starts.map (Text.lineAt document)) cs =
          fieldLines document bound (new.map (Text.lineAt document)) next := by
  cases h with
  | @field inner behind next rest key v name colon value =>
      have hskip := skip_name inner
      have hfirst := Json.readFirst_name name
      have hfield : fieldValue behind = Json.skip next := by
        unfold fieldValue
        rw [colon]
        rfl
      -- the lines go the way of the walk, whatever is done with the field
      have hlines {new : List (List Char)} (hresult :
          fieldResult document (starts.map (Text.lineAt document)) key behind =
            (new.map (Text.lineAt document), rest)) (bound : Nat) (next : List Char)
          (hgo : GoesOn rest next) :
          fieldLines document (bound + 1) (starts.map (Text.lineAt document)) ('"' :: inner) =
            fieldLines document bound (new.map (Text.lineAt document)) next := by
        rw [fieldLines_field name, hresult, ← fieldLines_skip, hgo.skip_afterComma]
      by_cases hlist : key = "packages" ∧ (fieldValue behind).head? = some '['
      · obtain ⟨rfl, hhead⟩ := hlist
        obtain ⟨list, hopen⟩ := List.head?_eq_some_iff.mp hhead
        rw [← hfield, hopen] at value
        obtain ⟨items, hitems, _⟩ := Json.readList_enclosed value
        have hwalk := itemsAt_of_items hitems
        refine ⟨items.map (·.start), ?_, ?_, hlines ?_⟩
        · exact fun members found => .entries rfl (by rwa [← hfield]) hitems
        · exact fun next found => .packages hskip (by decide) hfirst hopen hwalk
        · unfold fieldResult
          rw [hopen]
          exact itemLines_of_itemsAt hwalk (Json.skip_suffix list).length_le
      · have hother : ¬ (Value.text key = .text "packages" ∧ (fieldValue behind).head? = some '[') :=
          fun h => hlist ⟨Value.text.inj h.1, h.2⟩
        rw [← hfield] at value
        refine ⟨starts, ?_, ?_, hlines ?_⟩
        · exact fun members found => .other (by rwa [← hfield])
        · exact fun next found => .other hskip (by decide) hfirst hother value
        · unfold fieldResult
          split
          · rename_i hopen
            exact absurd ⟨rfl, by rw [hopen]; rfl⟩ hlist
          · rw [dropValue_of_readFirst value]

/-- **Run.** The walk gets to the end of the table, and the lines are those of the places that it
has found there. -/
theorem fieldsAt_of_series (document : List Char) {members : List Json.Member}
    (h : Json.Series Json.MemberAt '\x7d' cs members after) (starts : List (List Char)) :
    ∃ found, Finds starts members found ∧ FieldsAt starts cs found ∧
      ∀ bound, cs.length ≤ bound →
        fieldLines document bound (starts.map (Text.lineAt document)) cs =
          found.map (Text.lineAt document) := by
  -- there is a step left, and one less behind the field
  have hstep {cs rest next : List Char} {m : Json.Member} (hreads : Json.MemberAt cs m rest)
      (hgo : GoesOn rest next) {bound : Nat} (hbound : cs.length ≤ bound) :
      ∃ less, bound = less + 1 ∧ next.length ≤ less := by
    have hless := (Json.memberAt_leaves hreads).less
    have hnext := hgo.suffix.length_le
    exact ⟨bound - 1, by omega, by omega⟩
  induction h generalizing starts with
  | @last cs rest after m reads next =>
      obtain ⟨new, hfinds, hfields, hlines⟩ := fieldsAt_field document reads starts
      have hskip : Json.skip ('\x7d' :: after) = '\x7d' :: after :=
        Json.skip_of_head (by rintro c ⟨⟩; rfl)
      have hgo : GoesOn rest ('\x7d' :: after) := .other next (by decide)
      refine ⟨new, hfinds _ _ (.none new), hfields _ _ hgo (.close hskip), fun bound hbound => ?_⟩
      obtain ⟨bound, rfl, _⟩ := hstep reads hgo hbound
      rw [hlines bound _ hgo]
      cases bound with
      | zero => rfl
      | succ bound =>
          rw [fieldLines, hskip]
          rfl
  | more reads comma series ih =>
      obtain ⟨new, hfinds, hfields, hlines⟩ := fieldsAt_field document reads starts
      obtain ⟨found, hlater, hrest, hmore⟩ := ih new
      have hgo := GoesOn.comma comma
      refine ⟨found, hfinds _ _ hlater, hfields _ _ hgo hrest, fun bound hbound => ?_⟩
      obtain ⟨bound, rfl, hless⟩ := hstep reads hgo hbound
      rw [hlines bound _ hgo, hmore bound hless]

/-- Without a list of entries the walk keeps what it has. -/
theorem Finds.kept {found : List (List Char)} {members : List Json.Member}
    (h : Finds starts members found) (hnone : ∀ m ∈ members, m.name ≠ "packages") :
    found = starts := by
  induction h with
  | none starts => rfl
  | entries named list placed later ih => exact absurd named (hnone _ List.mem_cons_self)
  | other other later ih =>
      rw [List.forall_mem_cons] at hnone
      exact ih hnone.2

/-- **What the walk ends with are the items of the last list of entries**, if the last field with
that name is one. -/
theorem Finds.last {found : List (List Char)} {members : List Json.Member} {m : Json.Member}
    {inner : List Char} {items : List Json.Placed} (h : Finds starts members found)
    (hlast : Json.lastNamed? "packages" members = some m) (hlist : m.start = '[' :: inner)
    (hitems : Json.Items inner items after) : found = items.map (·.start) := by
  induction h with
  | none starts => exact absurd hlast (by simp [Json.lastNamed?])
  | entries named list placed later ih =>
      rcases Json.lastNamed?_cases hlast with hlater | ⟨hnone, rfl, _⟩
      · exact ih hlater
      · obtain ⟨_, rfl⟩ := List.cons.inj (list.symm.trans hlist)
        rw [later.kept hnone, (placed.unique hitems).1]
  | other other later ih =>
      rcases Json.lastNamed?_cases hlast with hlater | ⟨_, rfl, hname⟩
      · exact ih hlater
      · exact absurd ⟨hname, by rw [hlist]; rfl⟩ other

/-! ## Documents -/

/-- The walk over fields passes over white space first. -/
theorem FieldsAt.of_skip {found : List (List Char)} (h : FieldsAt starts (Json.skip cs) found) :
    FieldsAt starts cs found := by
  cases h with
  | close next => exact .close (by rwa [Json.skip_skip] at next)
  | packages some_field hc name value list goes fields =>
      exact .packages (by rwa [Json.skip_skip] at some_field) hc name value list goes fields
  | other some_field hc read other value goes fields =>
      exact .other (by rwa [Json.skip_skip] at some_field) hc read other value goes fields

/-- **The walk goes through the fields of a document**, and the lines of the entries are those of
the places that it finds. -/
theorem fieldsAt_of_members {inner : List Char} {members : List Json.Member}
    (hopen : Json.skip cs = '\x7b' :: inner) (h : Json.Members inner members after) :
    ∃ found, Finds [] members found ∧ FieldsAt [] ((Json.skip cs).drop 1) found ∧
      entryLines cs = found.map (Text.lineAt cs) := by
  -- the document's length is fuel enough for what stands behind the bracket
  have hbound : inner.length ≤ cs.length := by
    have hskip := (Json.skip_suffix cs).length_le
    rw [hopen, List.length_cons] at hskip
    omega
  unfold entryLines
  rw [hopen]
  change ∃ found, _ ∧ FieldsAt [] inner found ∧ fieldLines cs cs.length [] inner = _
  cases h with
  | empty next =>
      refine ⟨[], .none [], .close next, ?_⟩
      rw [← fieldLines_skip, next]
      cases cs.length with
      | zero => rfl
      | succ bound => rfl
  | series series =>
      obtain ⟨found, hfinds, hfields, hlines⟩ := fieldsAt_of_series cs series []
      refine ⟨found, hfinds, hfields.of_skip, ?_⟩
      rw [← fieldLines_skip]
      exact hlines _ ((Json.skip_suffix inner).length_le.trans hbound)

/-- **The walk comes to its end on every text that decodes to a table.** -/
theorem fieldsAt_of_decode {fields : List (String × Value)} (h : Json.decode cs = .ok (.table fields)) :
    ∃ starts, FieldsAt [] ((Json.skip cs).drop 1) starts ∧
      entryLines cs = starts.map (Text.lineAt cs) := by
  obtain ⟨inner, members, after, hopen, hmembers, _⟩ := Json.table_of_decode h
  obtain ⟨found, _, hfields, hlines⟩ := fieldsAt_of_members hopen hmembers
  exact ⟨found, hfields, hlines⟩

end LockAudit.Lockfile.Object

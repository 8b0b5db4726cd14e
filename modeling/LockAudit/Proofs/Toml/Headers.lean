import LockAudit.Proofs.Text.Lines
import LockAudit.Proofs.Toml.Suffix
import LockAudit.Proofs.Value
import Mathlib.Data.List.TakeWhile

/-!
# The headers of a list of tables

A document is read statement by statement. `Toml.statements` notes where each statement
starts, and `Toml.listHeaders` picks those that open a further table in a list of the root.

What a statement does to the root of a document and to the frozen keys is said once, in
`Effect`. Two things follow for a whole document. A list of the root that has a header has
as many tables as headers: only headers make such a list longer, and nothing makes it
shorter. And each statement stands on a line of its own, behind white space, so the headers
stand on lines in increasing order.
-/

namespace LockAudit.Toml

open Text (StandsOn newlines)

variable {cs rest : List Char} {d d' : Document} {name first : String} {key : Key}
  {v : Value} {fields fields' : Fields} {fuel : Nat} {lists : Bool}
  {f : Fields → Option Fields}

/-! ## Statements -/

/-- Where the statements of a text start, comments included, as far as it is read. The bound is
that of `readStatements`. -/
def statementsWithin : Nat → Document → List Char → List (List Char)
  | 0, _, _ => []
  | fuel + 1, d, cs =>
    match skip cs with
    | [] => []
    | '\n' :: rest => statementsWithin fuel d rest
    | start =>
      match readStatement d start with
      | .error _ => [start]
      | .ok (d, rest) =>
        match skipComment (skip rest) with
        | .ok ('\n' :: rest) => start :: statementsWithin fuel d rest
        | _ => [start]

/-- Where the statements of a text start, each as what its `source` holds from there on. -/
def statements (cs : List Char) : List (List Char) :=
  statementsWithin ((source cs).length + 1) {} (source cs)

/-- The list in which a statement opens a further table. -/
def opensIn? (start : List Char) : Option Key :=
  match start with
  | '[' :: '[' :: rest => (readKey (skip rest)).toOption.map (·.1)
  | _ => none

/-- Where the tables of a list of the root are opened. -/
def listHeaders (name : String) (cs : List Char) : List (List Char) :=
  (statements cs).filter fun start => opensIn? start = some [name]

/-! ## One statement -/

/-- The fields with one more, if none has its name. -/
def setNew (name : String) (v : Value) (fields : Fields) : Option Fields :=
  if (Value.lookup? name fields).isSome then none else some (Value.setField name v fields)

/-- What a statement does to the root and to the frozen keys, given the list in which it opens
a table. -/
inductive Effect (d d' : Document) : Option Key → Prop
  | comment (root : d'.root = d.root) (frozen : d'.frozen = d.frozen) : Effect d d' none
  | table {key : Key} (nonempty : key ≠ []) (root : updateTable true some key d.root = some d'.root)
      (frozen : d'.frozen = d.frozen) : Effect d d' none
  | further {key : Key} (nonempty : key ≠ []) (free : d.isFrozen key = false)
      (root : updateTable true (openInList (key.getLast?.getD "")) key.dropLast d.root = some d'.root)
      (frozen : d'.frozen = d.frozen.filter (!key.isPrefixOf ·)) : Effect d d' (some key)
  | setting {key : Key} {v : Value} (nonempty : key ≠ [])
      (root : updateTable true (setNew (key.getLast?.getD "") v) (d.header ++ key.dropLast) d.root =
        some d'.root)
      (frozen : d'.frozen = if isContainer v then d.frozen ++ [d.header ++ key] else d.frozen) :
      Effect d d' none

/-- What ends a section is neither in the root nor frozen. -/
theorem Effect.of_endSection {opened : Option Key} (h : Effect d.endSection d' opened) :
    Effect d d' opened := by
  cases h with
  | comment root frozen => exact .comment root frozen
  | table nonempty root frozen => exact .table nonempty root frozen
  | further nonempty free root frozen => exact .further nonempty free root frozen
  | setting nonempty root frozen => exact .setting nonempty root frozen

theorem readTableHeader_effect (h : readTableHeader d cs = .ok (d', rest)) :
    Effect d d' none ∧ rest <:+ cs := by
  obtain ⟨⟨key, after⟩, hkey, h⟩ := Result.bind_ok.mp h
  have hafter := (readKey_suffix hkey).trans (skip_suffix cs)
  dsimp only at h
  split at h
  · exact absurd h (by simp)
  · split at h
    · exact absurd h (by simp)
    · rename_i root hroot
      split at h
      · cases h
        exact ⟨.table (readKey_ne_nil hkey) hroot rfl, (List.suffix_cons _ _).trans hafter⟩
      · exact absurd h (by simp)

theorem readArrayHeader_effect (h : readArrayHeader d cs = .ok (d', rest)) :
    Effect d d' ((readKey (skip cs)).toOption.map (·.1)) ∧ rest <:+ cs := by
  obtain ⟨⟨key, after⟩, hkey, h⟩ := Result.bind_ok.mp h
  have hafter := (readKey_suffix hkey).trans (skip_suffix cs)
  rw [Result.toOption_of_ok hkey]
  dsimp only at h
  split at h
  · exact absurd h (by simp)
  · rename_i hfrozen
    split at h
    · exact absurd h (by simp)
    · rename_i root hroot
      split at h
      · cases h
        refine ⟨.further (readKey_ne_nil hkey) (by simpa using hfrozen) hroot rfl, ?_⟩
        exact (List.suffix_append [']', ']'] _).trans hafter
      · exact absurd h (by simp)

theorem readSetting_effect (h : readSetting d cs = .ok (d', rest)) :
    Effect d d' none ∧ rest <:+ cs := by
  obtain ⟨⟨key, after⟩, hkey, h⟩ := Result.bind_ok.mp h
  obtain ⟨⟨v, after'⟩, hvalue, h⟩ := Result.bind_ok.mp h
  have hrest := ((read_suffix _).1 _ _ _ hvalue).trans (readKeyAndEquals_suffix hkey)
  obtain ⟨_, hread, _⟩ := readKeyAndEquals_of_ok hkey
  dsimp only at h
  split at h
  · exact absurd h (by simp)
  · split at h
    · exact absurd h (by simp)
    · split at h
      · exact absurd h (by simp)
      · rename_i root hroot
        cases h
        exact ⟨.setting (readKey_ne_nil hread) hroot rfl, hrest⟩

/-- **What a statement does**, and that it is read from the front. -/
theorem readStatement_effect (h : readStatement d cs = .ok (d', rest)) :
    Effect d d' (opensIn? cs) ∧ rest <:+ cs := by
  unfold readStatement at h
  split at h
  · obtain ⟨heffect, hrest⟩ := readArrayHeader_effect h
    exact ⟨heffect.of_endSection, hrest.trans (List.suffix_append ['[', '['] _)⟩
  · rename_i hsingle
    obtain ⟨heffect, hrest⟩ := readTableHeader_effect h
    rw [opensIn?.eq_2 _ (by simpa using hsingle)]
    exact ⟨heffect.of_endSection, hrest.trans (List.suffix_cons _ _)⟩
  · cases h
    exact ⟨.comment rfl rfl, List.suffix_refl _⟩
  · rename_i c after hdouble hsingle hcomment
    split at h
    · obtain ⟨heffect, hrest⟩ := readSetting_effect h
      rw [opensIn?.eq_2 _ (by simpa using hdouble)]
      exact ⟨heffect, hrest⟩
    · exact absurd h (by simp)
  · cases h
    exact ⟨.comment rfl rfl, List.suffix_refl _⟩

/-! ## The list of tables -/

/-- How many items a list of the root has; none if there is no such list. -/
def listLength? (name : String) (fields : Fields) : Option Nat :=
  ((Value.lookup? name fields).bind Value.list?).map List.length

theorem listLength?_setField
    (h : (Value.list? v).map List.length = listLength? first fields) (name : String) :
    listLength? name (Value.setField first v fields) = listLength? name fields := by
  unfold listLength? at h ⊢
  rw [Value.lookup?_setField]
  split
  · rename_i heq
    rw [← heq, ← h]
    rfl
  · rfl

theorem listLength?_setField_of_ne (hne : first ≠ name) (v : Value) (fields : Fields) :
    listLength? name (Value.setField first v fields) = listLength? name fields := by
  rw [listLength?, Value.lookup?_setField, if_neg hne, listLength?]

theorem listLength?_openInList (hne : first ≠ name) (h : openInList first fields = some fields') :
    listLength? name fields' = listLength? name fields := by
  unfold openInList at h
  split at h
  · exact Option.some.inj h ▸ listLength?_setField_of_ne hne _ fields
  · exact Option.some.inj h ▸ listLength?_setField_of_ne hne _ fields
  · exact absurd h (by simp)

/-- A change behind a longer key leaves the lists of the root as long as they are. -/
theorem listLength?_updateTable (h : updateTable lists f (first :: key) fields = some fields')
    (name : String) : listLength? name fields' = listLength? name fields := by
  rw [updateTable] at h
  split at h
  · rename_i hlookup
    obtain ⟨inner, _, h⟩ := Option.bind_eq_some_iff.mp h
    cases h
    exact listLength?_setField (by rw [listLength?, hlookup]; rfl) name
  · rename_i hlookup
    obtain ⟨inner, _, h⟩ := Option.bind_eq_some_iff.mp h
    cases h
    exact listLength?_setField (by rw [listLength?, hlookup]; rfl) name
  · -- the last table of a list is replaced, so the list keeps its length
    rename_i items hlookup
    split at h
    · rename_i hlast
      obtain ⟨inner, _, h⟩ := Option.bind_eq_some_iff.mp h
      cases h
      refine listLength?_setField ?_ name
      have hpos : 0 < items.length := List.length_pos_of_mem (List.mem_of_getLast? hlast)
      rw [listLength?, hlookup]
      simp only [Value.list?, Option.map_some, Option.bind_some, List.length_append,
        List.length_dropLast, List.length_singleton, Nat.sub_add_cancel hpos]
    · exact absurd h (by simp)
  · exact absurd h (by simp)

/-- A list of the root has as many tables as headers so far, or it has none so far, and then
there is no such list or it is frozen. -/
inductive Counts (name : String) (d : Document) : Nat → Prop
  | unopened (without : listLength? name d.root = none ∨ [name] ∈ d.frozen) : Counts name d 0
  | opened {n : Nat} (length : listLength? name d.root = some (n + 1)) : Counts name d (n + 1)

namespace Counts

variable {n : Nat} {opened : Option Key}

theorem empty (name : String) : Counts name {} 0 := .unopened (.inl rfl)

theorem congr (h : Counts name d n)
    (hlength : listLength? name d'.root = listLength? name d.root)
    (hfrozen : [name] ∈ d.frozen → [name] ∈ d'.frozen) : Counts name d' n := by
  cases h with
  | unopened without => exact .unopened (without.imp hlength.trans hfrozen)
  | opened length => exact .opened (hlength.trans length)

/-- One more table is opened in a list that is not frozen. -/
theorem openInList (h : Counts name d n) (hfree : d.isFrozen [name] = false)
    (hroot : openInList name d.root = some d'.root) : Counts name d' (n + 1) := by
  unfold Toml.openInList at hroot
  refine .opened ?_
  split at hroot
  · rename_i hlookup
    -- a name without a value has had no header yet
    obtain rfl : n = 0 := by
      cases h with
      | unopened _ => rfl
      | opened length => simp [listLength?, hlookup] at length
    rw [← Option.some.inj hroot]
    simp [listLength?, Value.lookup?_setField, Value.list?]
  · rename_i items hlookup
    have hlength : listLength? name d.root = some items.length := by
      rw [listLength?, hlookup]
      rfl
    obtain rfl : n = items.length := by
      cases h with
      | unopened without =>
          -- a list there that no header opened was written in place: it is frozen, so opening fails
          rcases without with hnone | hmem
          · rw [hlength] at hnone
            exact absurd hnone (by simp)
          · rw [Document.isFrozen, List.any_eq_false] at hfree
            exact absurd (hfree _ hmem) (by simp)
      | opened length => exact Option.some.inj (length.symm.trans hlength)
    rw [← Option.some.inj hroot]
    simp [listLength?, Value.lookup?_setField, Value.list?]
  · exact absurd hroot (by simp)

/-- A field of the root is set that was not there. -/
theorem setNew (h : Counts name d n) (hroot : setNew first v d.root = some d'.root)
    (hfrozen : d'.frozen = if isContainer v then d.frozen ++ [[first]] else d.frozen) :
    Counts name d' n := by
  unfold Toml.setNew at hroot
  split at hroot
  · exact absurd hroot (by simp)
  · rename_i hnew
    rw [Option.isSome_iff_ne_none, not_not] at hnew
    -- only a value set at the counted name itself could change its list's length
    by_cases hname : first = name
    · obtain rfl := hname
      have hnone : listLength? first d.root = none := by
        rw [listLength?, hnew]
        rfl
      cases h with
      | unopened _ =>
          cases hvalue : isContainer v with
          -- a container written in place is frozen, so no header opens it later
          | true => exact .unopened (.inr (by simp [hfrozen, hvalue]))
          | false =>
              refine .unopened (.inl ?_)
              rw [← Option.some.inj hroot, listLength?, Value.lookup?_setField, if_pos rfl]
              cases v <;> first | rfl | exact absurd hvalue (by simp [isContainer])
      | opened length =>
          rw [hnone] at length
          exact absurd length (by simp)
    · refine h.congr ?_ fun hmem => ?_
      · rw [← Option.some.inj hroot, listLength?_setField_of_ne hname]
      · rw [hfrozen]
        split
        · exact List.mem_append_left _ hmem
        · exact hmem

/-- A value is set under a dotted key. -/
theorem setting (h : Counts name d n) (nonempty : key ≠ [])
    (root : updateTable true (Toml.setNew (key.getLast?.getD "") v) (d.header ++ key.dropLast)
      d.root = some d'.root)
    (frozen : d'.frozen = if isContainer v then d.frozen ++ [d.header ++ key] else d.frozen) :
    Counts name d' n := by
  cases hparent : d.header ++ key.dropLast with
  | nil =>
      -- the key has one part, and no header goes before it
      obtain ⟨hheader, hlast⟩ := List.append_eq_nil_iff.mp hparent
      obtain ⟨first, more, rfl⟩ := List.exists_cons_of_ne_nil nonempty
      cases more with
      | nil =>
          rw [hparent] at root
          rw [hheader] at frozen
          exact h.setNew root frozen
      | cons second more => exact absurd hlast (by simp)
  | cons first parent =>
      rw [hparent] at root
      refine h.congr (listLength?_updateTable root name) fun hmem => ?_
      rw [frozen]
      split
      · exact List.mem_append_left _ hmem
      · exact hmem

/-- A key that may be opened does not take the mark off a list of the root. -/
theorem mem_frozen_of_further (hkey : key ≠ []) (hfree : d.isFrozen key = false)
    (hmem : [name] ∈ d.frozen) : [name] ∈ d.frozen.filter (!key.isPrefixOf ·) := by
  refine List.mem_filter.mpr ⟨hmem, ?_⟩
  rw [Bool.not_eq_true', Bool.eq_false_iff]
  intro hprefix
  rw [List.isPrefixOf_iff_prefix] at hprefix
  obtain ⟨first, key, rfl⟩ := List.exists_cons_of_ne_nil hkey
  obtain ⟨rfl, hrest⟩ := List.cons_prefix_cons.mp hprefix
  rw [List.prefix_nil.mp hrest, Document.isFrozen, List.any_eq_false] at hfree
  exact hfree _ hmem (by simp)

/-- **Step.** A statement keeps the count, with one more if it is a header of the list. -/
theorem step (h : Counts name d n) (heffect : Effect d d' opened) :
    Counts name d' (n + if opened = some [name] then 1 else 0) := by
  cases heffect with
  | comment root frozen => exact h.congr (by rw [root]) (by rw [frozen]; exact id)
  | @table key nonempty root frozen =>
      obtain ⟨first, key, rfl⟩ := List.exists_cons_of_ne_nil nonempty
      exact h.congr (listLength?_updateTable root name) (by rw [frozen]; exact id)
  | @further key nonempty free root frozen =>
      have hfrozen : [name] ∈ d.frozen → [name] ∈ d'.frozen :=
        frozen ▸ mem_frozen_of_further nonempty free
      obtain ⟨first, key, rfl⟩ := List.exists_cons_of_ne_nil nonempty
      cases key with
      | nil =>
          -- a key of one part counts for its own name; a longer one opens a list further in
          change Toml.openInList first d.root = some d'.root at root
          split
          · rename_i heq
            cases heq
            exact h.openInList free root
          · rename_i hne
            exact h.congr (listLength?_openInList (fun heq => hne (by rw [heq])) root) hfrozen
      | cons second key =>
          rw [if_neg (by simp)]
          exact h.congr (listLength?_updateTable root name) hfrozen
  | setting nonempty root frozen =>
      rw [if_neg (by simp)]
      exact h.setting nonempty root frozen

end Counts

/-! ## One statement after the other -/

/-- A document is read from a text, statement by statement, and the statements start where it is
said. -/
inductive Reads : Document → List Char → List (List Char) → Document → Prop
  | finish {d : Document} {cs : List Char} (blank : skip cs = []) : Reads d cs [] d
  | blank {d d' : Document} {cs rest : List Char} {starts : List (List Char)}
      (feed : skip cs = '\n' :: rest) (more : Reads d rest starts d') : Reads d cs starts d'
  | last {d d' : Document} {cs rest : List Char} (read : readStatement d (skip cs) = .ok (d', rest))
      (done : skipComment (skip rest) = .ok []) : Reads d cs [skip cs] d'
  | line {d d' d'' : Document} {cs rest after : List Char} {starts : List (List Char)}
      (read : readStatement d (skip cs) = .ok (d', rest))
      (done : skipComment (skip rest) = .ok ('\n' :: after)) (more : Reads d' after starts d'') :
      Reads d cs (skip cs :: starts) d''

/-- What a statement leaves, with its comment, is an end of it. -/
theorem readStatement_line {after : List Char} (read : readStatement d cs = .ok (d', rest))
    (done : skipComment (skip rest) = .ok after) : after <:+ cs :=
  (skipComment_suffix done).trans ((skip_suffix rest).trans (readStatement_effect read).2)

/-- The bound on the number of statements does not show. -/
theorem reads_of_readStatements (hfuel : cs.length < fuel)
    (h : readStatements fuel d cs = .ok d') : Reads d cs (statementsWithin fuel d cs) d' := by
  induction fuel generalizing d cs with
  | zero => exact absurd hfuel (Nat.not_lt_zero _)
  | succ fuel ih =>
      -- each constructor eats characters, which is what keeps the fuel above the rest's length
      have hskip := (skip_suffix cs).length_le
      unfold readStatements at h
      split at h
      · rename_i hblank
        cases h
        unfold statementsWithin
        rw [hblank]
        exact .finish hblank
      · rename_i hfeed
        rw [hfeed, List.length_cons] at hskip
        unfold statementsWithin
        rw [hfeed]
        exact .blank hfeed (ih (by omega) h)
      · -- a statement: what stands after it decides between the last one and one more line
        rename_i hblank hfeed
        obtain ⟨⟨d₁, rest⟩, hread, h⟩ := Result.bind_ok.mp h
        obtain ⟨after, hdone, h⟩ := Result.bind_ok.mp h
        have hafter := (readStatement_line hread hdone).length_le
        unfold statementsWithin
        split
        · rename_i heq
          exact absurd heq hblank
        · rename_i heq
          exact absurd heq (hfeed _)
        · rw [hread]
          dsimp only at hdone ⊢
          rw [hdone]
          split at h
          · cases h
            exact .last hread hdone
          · rw [List.length_cons] at hafter
            exact .line hread hdone (ih (by omega) h)
          · exact absurd h (by simp)

theorem reads_of_decode (h : decode cs = .ok fields) :
    ∃ d, Reads {} (source cs) (statements cs) d ∧ d.root = fields := by
  unfold decode at h
  obtain ⟨d, hd, h⟩ := Result.bind_ok.mp h
  exact ⟨d, reads_of_readStatements (Nat.lt_succ_self _) hd, Except.ok.inj h⟩

namespace Reads

variable {starts : List (List Char)}

/-- **Run.** In the end the count is that of the headers. -/
theorem counts {n : Nat} (h : Reads d cs starts d') (hcount : Counts name d n) :
    Counts name d' (n + starts.countP fun start => opensIn? start = some [name]) := by
  induction h generalizing n with
  | finish blank => exact hcount
  | blank feed more ih => exact ih hcount
  | last read done => simpa using hcount.step (readStatement_effect read).1
  | line read done more ih =>
      have hrun := ih (hcount.step (readStatement_effect read).1)
      rw [Nat.add_assoc, Nat.add_comm (ite _ _ _)] at hrun
      simpa [List.countP_cons] using hrun

/-- Each statement stands on a line, behind white space. -/
theorem standsOn (h : Reads d cs starts d') :
    ∀ start ∈ starts, ∃ n, StandsOn isSpace cs start n := by
  have hhere (cs : List Char) : StandsOn isSpace cs (skip cs) 0 := by
    have hspaces : ∀ c ∈ cs.takeWhile isSpace, isSpace c = true :=
      fun c hc => List.mem_takeWhile_imp hc
    have hstands := StandsOn.here hspaces (fun hfeed => absurd (hspaces _ hfeed) (by decide)) (skip cs)
    rwa [skip, List.takeWhile_append_dropWhile, ← skip] at hstands
  -- a statement that is told from a line further down
  have hbelow {cs after start : List Char} {n : Nat} (hafter : '\n' :: after <:+ cs)
      (hn : StandsOn isSpace after start n) : ∃ n, StandsOn isSpace cs start n := by
    obtain ⟨before, rfl⟩ := hafter
    exact ⟨_, hn.below before⟩
  induction h with
  | finish blank => simp
  | @blank _ _ cs rest _ feed more ih =>
      intro start hmem
      obtain ⟨n, hn⟩ := ih start hmem
      exact hbelow (feed ▸ skip_suffix cs) hn
  | last read done =>
      intro start hmem
      exact ⟨0, List.mem_singleton.mp hmem ▸ hhere _⟩
  | @line _ _ _ cs rest after _ read done more ih =>
      intro start hmem
      rcases List.mem_cons.mp hmem with rfl | hmem
      · exact ⟨0, hhere cs⟩
      · obtain ⟨n, hn⟩ := ih start hmem
        exact hbelow ((readStatement_line read done).trans (skip_suffix cs)) hn

/-- Statements follow each other line by line. -/
theorem pairwise (h : Reads d cs starts d') :
    starts.Pairwise fun start next => newlines next < newlines start := by
  induction h with
  | finish blank => exact .nil
  | blank feed more ih => exact ih
  | last read done => exact List.pairwise_singleton _ _
  | line read done more ih =>
      refine .cons ?_ ih
      intro start hmem
      obtain ⟨n, hn⟩ := more.standsOn start hmem
      have hafter := Text.newlines_le (readStatement_line read done)
      rw [Text.newlines_feed, hn.count] at hafter
      omega

end Reads

/-! ## The headers of a document -/

/-- **A list of the root that has headers has a table for each.** -/
theorem length_of_listHeaders (h : decode cs = .ok fields) (hheaders : listHeaders name cs ≠ []) :
    listLength? name fields = some (listHeaders name cs).length := by
  obtain ⟨d, hreads, rfl⟩ := reads_of_decode h
  have hcounts := hreads.counts (.empty name)
  rw [Nat.zero_add, List.countP_eq_length_filter, ← listHeaders] at hcounts
  have hpos := List.length_pos_of_ne_nil hheaders
  generalize (listHeaders name cs).length = n at hcounts hpos
  cases hcounts with
  | unopened without => exact absurd hpos (Nat.lt_irrefl 0)
  | opened length => exact length

/-- Each header stands on a line of the document, behind white space. -/
theorem listHeaders_standsOn (h : decode cs = .ok fields) :
    ∀ start ∈ listHeaders name cs, ∃ n, StandsOn isSpace (source cs) start n := by
  obtain ⟨d, hreads, _⟩ := reads_of_decode h
  intro start hmem
  exact hreads.standsOn start (List.mem_of_mem_filter hmem)

/-- The headers stand on lines in increasing order. -/
theorem listHeaders_increasing (h : decode cs = .ok fields) :
    ((listHeaders name cs).map (Text.lineAt (source cs))).Pairwise (· < ·) := by
  obtain ⟨d, hreads, _⟩ := reads_of_decode h
  rw [List.pairwise_map]
  refine (hreads.pairwise.filter _).imp_of_mem ?_
  intro start next hstart hnext hlt
  obtain ⟨n, hn⟩ := listHeaders_standsOn h start hstart
  obtain ⟨m, hm⟩ := listHeaders_standsOn h next hnext
  have hcount := hn.count
  rw [hm.count] at hcount
  rw [hn.lineAt_eq, hm.lineAt_eq]
  omega

end LockAudit.Toml

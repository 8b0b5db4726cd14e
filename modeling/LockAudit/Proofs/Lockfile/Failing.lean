import LockAudit.Proofs.Lockfile.Blame
import LockAudit.Proofs.Lockfile.Location
import LockAudit.Proofs.Lockfile.Walk
import LockAudit.Proofs.Version.Acceptance

/-!
# How reading a lock file ends

A lock file is read to a graph, or it is refused with a failure that names the file. There
is one exception: numbers have a limit on their digits, and where a number goes over it the
failure is that of the number. `StopsAtNumber` lists the places where that can happen: the
decoder, the location in the decoder's message, the version of an entry and the version in a
reference. Nothing else goes wrong, neither in the builder nor in the walk over the text.

A number that is too long need not stand in the file. Escapes spell digits as well as
digits do, so it is what the decoder makes of the text that has to have short numbers.
-/

namespace LockAudit

/-! ## Runs of digits -/

/-- No run of digits in the text, of whichever script, is too long to be read as a number. -/
def Text.HasShortRuns (cs : List Char) : Prop :=
  ∀ run, run <:+: cs → (∀ c ∈ run, Text.isDigit c = true) → run.length ≤ Number.digitLimit

theorem Text.HasShortRuns.of_isInfix {cs ds : List Char} (h : HasShortRuns cs) (hpart : ds <:+: cs) :
    HasShortRuns ds :=
  fun run hrun => h run (hrun.trans hpart)

/-- The text is cut as a version, and has a number in it that is too long. -/
def Version.IsLong (text : String) : Prop := ∃ w : Version.Written, w.CutFrom text ∧ w.Overflows

theorem Version.not_isLong {text : String} (h : Text.HasShortRuns text.toList) : ¬ IsLong text := by
  rintro ⟨w, hcut, hoverflows⟩
  have hshort : Text.HasShortRuns w.text :=
    hcut.text_eq ▸ h.of_isInfix (Text.stripList_isInfix _)
  cases hoverflows with
  | number mem long =>
      have hrun := hshort _ (Written.isInfix_of_mem_numbers mem)
        ((hcut.isCut.numbers _ mem).digit fun _ => Text.isDigit_of_isAsciiDigit)
      omega
  | @identifier before after piece numbers pieces readable proper long =>
      have hmem : piece ∈ piecesOf w.pre := by
        rw [pieces]
        simp
      refine long fun hall => hshort piece (Written.isInfix_of_mem_pre hmem) fun c hc => ?_
      exact Text.isDigit_of_isAsciiDigit (List.all_eq_true.mp hall c hc)

namespace Lockfile

variable {f : Format} {b c : Builder} {index : Nat} {value : Value} {values : List Value}
  {line : Option Nat} {lines : List Nat} {e : Failure} {path : Option String} {cs : List Char}
  {name version reference : String} {source : Option String} {direct : Bool}

/-- The failure is that of a number. -/
def IsNumber (e : Failure) : Prop := ∃ cause, e = .oversized cause

/-! ## Entries -/

theorem Builder.readNode_error (h : b.readNode name version source direct line = .error e) :
    IsAt line b.path e ∨ IsNumber e ∧ Version.IsLong version := by
  unfold readNode at h
  split at h
  · exact .inl (isAt_of_fail h)
  · rename_i cause hversion
    cases h
    exact .inr ⟨⟨cause, rfl⟩, Version.parse_oversized.mp ⟨cause, hversion⟩⟩
  · dsimp only at h
    split at h
    · exact .inl (isAt_of_fail h)
    · exact absurd h (by simp)

theorem Builder.readNode_of_isLong (h : Version.IsLong version) :
    ∃ e, b.readNode name version source direct line = .error e ∧ IsNumber e := by
  obtain ⟨cause, hcause⟩ := Version.parse_oversized.mpr h
  refine ⟨.oversized cause, ?_, cause, rfl⟩
  unfold readNode
  rw [hcause]

theorem Format.addEntry_isAt_or (h : f.addEntry b index value line = .error e) :
    IsAt line b.path e ∨ IsNumber e ∧
      ∃ a, f.addition? value = some a ∧ Version.IsLong a.version := by
  rcases addEntry_error h with ⟨_, hat⟩ | ⟨a, ha, hread⟩
  · exact .inl hat
  · rcases Builder.readNode_error hread with hat | ⟨hnumber, hlong⟩
    · exact .inl hat
    · exact .inr ⟨hnumber, a, ha, hlong⟩

theorem Format.addEntry_path (h : f.addEntry b index value line = .ok c) : c.path = b.path := by
  obtain ⟨p, hp⟩ := part?_of_addEntry h
  rw [addEntry_of_part hp] at h
  cases h
  unfold Builder.insert
  split <;> rfl

theorem Format.addEntries_path (h : f.addEntries b index values lines = .ok c) :
    c.path = b.path := by
  induction values generalizing b index lines with
  | nil =>
      rw [addEntries_nil] at h
      cases h
      rfl
  | cons value values ih =>
      rw [addEntries_cons] at h
      obtain ⟨next, hnext, h⟩ := Result.bind_ok.mp h
      rw [ih h, addEntry_path hnext]

/-! ## References -/

/-- The version that a reference states. -/
def Builder.statedVersion? (reference : String) : Option String :=
  match Text.words (String.ofList (splitSource (Text.stripList reference.toList)).1) with
  | [_, version] => some version
  | _ => none

theorem Builder.readReference_error (h : b.readReference line reference = .error e) :
    IsAt line b.path e ∨ IsNumber e ∧
      ∃ version, statedVersion? reference = some version ∧ Version.IsLong version := by
  unfold readReference at h
  unfold statedVersion?
  dsimp only at h
  split at h
  · exact absurd h (by simp)
  · rename_i name version hwords
    split at h
    · exact absurd h (by simp)
    · exact .inl (isAt_of_fail h)
    · rename_i cause hversion
      cases h
      refine .inr ⟨⟨cause, rfl⟩, version, ?_, Version.parse_oversized.mp ⟨cause, hversion⟩⟩
      rw [hwords]
  · exact .inl (isAt_of_fail h)

theorem Builder.resolve_error (h : b.resolve reference line = .error e) :
    IsAt line b.path e ∨ IsNumber e ∧
      ∃ version, statedVersion? reference = some version ∧ Version.IsLong version := by
  unfold resolve at h
  rcases Result.bind_error.mp h with h | ⟨r, _, h⟩
  · exact readReference_error h
  · split at h
    · exact absurd h (by simp)
    · exact .inl (isAt_of_fail h)
    · exact .inl (isAt_of_fail h)

theorem Builder.resolve_of_isLong (hstated : statedVersion? reference = some version)
    (h : Version.IsLong version) : ∃ e, b.resolve reference line = .error e ∧ IsNumber e := by
  obtain ⟨cause, hcause⟩ := Version.parse_oversized.mpr h
  refine ⟨.oversized cause, ?_, cause, rfl⟩
  unfold statedVersion? at hstated
  split at hstated
  · rename_i name version' hwords
    cases hstated
    unfold resolve readReference
    dsimp only
    rw [hwords]
    simp only [hcause, Result.throw_eq, Result.error_bind]
  · exact absurd hstated (by simp)

theorem Builder.statedVersion?_isInfix (h : statedVersion? reference = some version) :
    version.toList <:+: reference.toList := by
  unfold statedVersion? at h
  split at h
  · rename_i name version' hwords
    cases h
    have hword : version.toList <:+: (splitSource (Text.stripList reference.toList)).1 := by
      have hmem := Text.isInfix_of_mem_words (w := version) (by rw [hwords]; simp)
      rwa [String.toList_ofList] at hmem
    refine (hword.trans ?_).trans (Text.stripList_isInfix _)
    unfold splitSource
    split
    · split
      · rename_i hsplit
        exact List.IsPrefix.isInfix ⟨_, Text.append_of_splitFirst? hsplit⟩
      · exact List.infix_rfl
    · exact List.infix_rfl
  · exact absurd h (by simp)

/-! ## Texts that list nothing -/

/-- The decoder stops at a number, or its message about something else does: the first
location in it has a line that is no number any more. -/
def Format.StopsDecoding (f : Format) (cs : List Char) : Prop :=
  match f with
  | .cargo => (∃ cause, Toml.decode cs = .error (.oversized cause)) ∨
    ∃ defect rest digits, Toml.decode cs = .error (.malformed defect rest) ∧
      Cargo.firstLocation (Toml.describe (Toml.source cs) defect rest).toList = some digits ∧
      Number.digitLimit < digits.length
  | .json => ∃ cause, Json.decode cs = .error (.oversized cause)

/-- The failure names the file, or it is that of a number where one is too long. -/
inductive Ends (path : Option String) (long : Prop) (e : Failure) : Prop
  | refused (line : Option Nat) (refused : IsAt line path e) (short : ¬ long)
  | number (number : IsNumber e) (long : long)

theorem Ends.congr {p q : Prop} (h : Ends path p e) (hiff : p ↔ q) : Ends path q e :=
  propext hiff ▸ h

theorem IsAt.not_isNumber (h : IsAt line path e) : ¬ IsNumber e := by
  rintro ⟨cause, rfl⟩
  obtain ⟨d, hd⟩ := h
  exact absurd hd (by simp)

theorem Ends.isNumber_iff {p : Prop} (h : Ends path p e) : IsNumber e ↔ p := by
  cases h with
  | refused line refused short => exact iff_of_false refused.not_isNumber short
  | number number long => exact iff_of_true number long

theorem Cargo.malformed_ends (path : Option String) (message : String) :
    Ends path (∃ digits, firstLocation message.toList = some digits ∧
      Number.digitLimit < digits.length) (malformed path message) := by
  cases hfirst : firstLocation message.toList with
  | none =>
      rw [malformed_of_eq_none hfirst]
      exact .refused none ⟨_, rfl⟩ (by simp)
  | some digits =>
      rw [malformed_of_eq_some hfirst]
      by_cases hshort : digits.length ≤ Number.digitLimit
      · rw [if_pos hshort]
        refine .refused _ ⟨_, rfl⟩ ?_
        rintro ⟨_, ⟨⟩, hlong⟩
        omega
      · rw [if_neg hshort]
        exact .number ⟨_, rfl⟩ ⟨digits, rfl, by omega⟩

theorem Cargo.parseText_ends {fault : Toml.Fault} (h : Toml.decode cs = .error fault)
    (path : Option String) :
    ∃ e, parseText cs path = .error e ∧ Ends path (Format.cargo.StopsDecoding cs) e := by
  unfold parseText Format.StopsDecoding
  rw [h]
  cases fault with
  | oversized cause => exact ⟨_, rfl, .number ⟨cause, rfl⟩ (.inl ⟨cause, rfl⟩)⟩
  | malformed defect rest =>
      refine ⟨_, rfl, (malformed_ends path (Toml.describe (Toml.source cs) defect rest)).congr ?_⟩
      constructor
      · rintro ⟨digits, hdigits, hlong⟩
        exact .inr ⟨defect, rest, digits, rfl, hdigits, hlong⟩
      · rintro (⟨cause, hcause⟩ | ⟨_, _, digits, heq, hdigits, hlong⟩)
        · exact absurd hcause (by simp)
        · cases heq
          exact ⟨digits, hdigits, hlong⟩

/-- **What a text is refused for that lists no entries.** -/
theorem Format.parseText_unlisted (h : f.listed? cs = none) (path : Option String) :
    ∃ e, f.parseText cs path = .error e ∧ Ends path (f.StopsDecoding cs) e := by
  cases f with
  | cargo =>
      cases hdecode : Toml.decode cs with
      | error fault => exact Cargo.parseText_ends hdecode path
      | ok fields =>
          change ∃ e, Cargo.parseText cs path = .error e ∧ _
          unfold listed? at h
          unfold Cargo.parseText StopsDecoding
          rw [hdecode] at h ⊢
          dsimp only at h ⊢
          -- any value but a list is refused, and with no position to give
          generalize (Value.lookup? "package" fields).getD (.list []) = packages at h ⊢
          cases packages with
          | list values => exact absurd h (by simp [Value.list?])
          | _ => exact ⟨_, rfl, .refused none ⟨_, rfl⟩ (by simp)⟩
  | json =>
      change ∃ e, Object.parseText cs path = .error e ∧ _
      unfold listed? at h
      unfold Object.parseText StopsDecoding
      cases hdecode : Json.decode cs with
      | error fault =>
          cases fault with
          | oversized cause => exact ⟨_, rfl, .number ⟨cause, rfl⟩ ⟨cause, rfl⟩⟩
          | malformed defect rest => exact ⟨_, rfl, .refused _ ⟨_, rfl⟩ (by simp)⟩
      | ok document =>
          rw [hdecode] at h
          dsimp only at h ⊢
          cases document with
          | table fields =>
              dsimp only at h ⊢
              generalize Value.field "packages" fields = packages at h ⊢
              cases packages with
              | list values => exact absurd h (by simp [Value.list?])
              | _ => exact ⟨_, rfl, .refused none ⟨_, rfl⟩ (by simp)⟩
          -- a document that is no table is blamed on its first line
          | _ => exact ⟨_, rfl, .refused (some 1) ⟨_, rfl⟩ (by simp)⟩

/-- A text that lists entries has been decoded. -/
theorem Format.not_stopsDecoding (h : f.listed? cs = some values) : ¬ f.StopsDecoding cs := by
  unfold listed? at h
  cases f with
  | cargo =>
      dsimp only at h
      split at h
      · rename_i fields hdecode
        simp [StopsDecoding, hdecode]
      · exact absurd h (by simp)
  | json =>
      dsimp only at h
      split at h
      · rename_i fields hdecode
        simp [StopsDecoding, hdecode]
      · exact absurd h (by simp)

/-! ## Where numbers are too long -/

/-- A number that is too long is the first thing that the reading of a text comes to and
cannot read. -/
inductive Format.StopsAtNumber (f : Format) (cs : List Char) (path : Option String) : Prop
  | decoding (long : f.StopsDecoding cs)
  | version {before after : List Value} {value : Value} {a : Addition}
      (listed : f.listed? cs = some (before ++ value :: after))
      (readable : ∀ v ∈ before, ∃ p, f.part? v = some p)
      (stated : f.addition? value = some a) (long : Version.IsLong a.version)
  | reference {values : List Value} {b : Builder} {entry : Entry} {reference version : String}
      (listed : f.listed? cs = some values)
      (added : f.addEntries { path } 0 values (f.entryLines cs) = .ok b)
      (first : b.FirstUnresolved entry reference)
      (stated : Builder.statedVersion? reference = some version) (long : Version.IsLong version)

/-- A number that is too long is what the text is refused for. -/
theorem Format.StopsAtNumber.isNumber (h : f.StopsAtNumber cs path) :
    ∃ e, f.parseText cs path = .error e ∧ IsNumber e := by
  cases h with
  | decoding long =>
      cases hlisted : f.listed? cs with
      | some values => exact absurd long (not_stopsDecoding hlisted)
      | none =>
          obtain ⟨e, he, hends⟩ := parseText_unlisted hlisted path
          exact ⟨e, he, hends.isNumber_iff.mpr long⟩
  | @version before after value a listed readable stated long =>
      obtain ⟨b, hb⟩ := (f.addEntries_ok { path } 0 before (f.entryLines cs)).mpr readable
      obtain ⟨e, he, hnumber⟩ := Builder.readNode_of_isLong long
      exact ⟨e, (parseText_error listed).mpr (.entry rfl hb (addEntry_of_readNode stated he)),
        hnumber⟩
  | reference listed added first stated long =>
      obtain ⟨e, he, hnumber⟩ := Builder.resolve_of_isLong stated long
      exact ⟨e, (parseText_error listed).mpr (.reference added first he), hnumber⟩

/-- A text is refused on some line of the file, unless it is for a number. -/
theorem Format.parseText_refused (h : f.parseText cs path = .error e) :
    (∃ line, IsAt line path e) ∨ IsNumber e ∧ f.StopsAtNumber cs path := by
  cases hlisted : f.listed? cs with
  | none =>
      obtain ⟨e', he', hends⟩ := parseText_unlisted hlisted path
      obtain rfl := Except.error.inj (h.symm.trans he')
      cases hends with
      | refused line refused short => exact .inl ⟨line, refused⟩
      | number number long => exact .inr ⟨number, .decoding long⟩
  | some values =>
      cases (parseText_error hlisted).mp h with
      | @entry before after value b values_eq added refused =>
          -- an entry is refused at its line, or its version has a number too long
          rcases addEntry_isAt_or refused with hat | ⟨hnumber, a, ha, hlong⟩
          · rw [addEntries_path added] at hat
            exact .inl ⟨_, hat⟩
          · have hreadable := (f.addEntries_ok _ 0 before _).mp ⟨b, added⟩
            rw [values_eq] at hlisted
            exact .inr ⟨hnumber, .version hlisted hreadable ha hlong⟩
      | reference added first refused =>
          rcases Builder.resolve_error refused with hat | ⟨hnumber, version, hversion, hlong⟩
          · rw [addEntries_path added] at hat
            exact .inl ⟨_, hat⟩
          · exact .inr ⟨hnumber, .reference hlisted added first hversion hlong⟩

theorem Format.parseText_oversized :
    (∃ cause, f.parseText cs path = .error (.oversized cause)) ↔ f.StopsAtNumber cs path := by
  constructor
  · rintro ⟨cause, h⟩
    rcases parseText_refused h with ⟨line, hat⟩ | ⟨_, hstops⟩
    · exact absurd ⟨cause, rfl⟩ hat.not_isNumber
    · exact hstops
  · intro h
    obtain ⟨e, he, cause, rfl⟩ := h.isNumber
    exact ⟨cause, he⟩

/-! ## Texts with short numbers -/

/-- What the decoder makes of a text has short numbers: it does not stop at one itself, and
there are no long runs of digits in its message or in the versions and the references of the
entries. -/
structure Format.HasShortNumbers (f : Format) (cs : List Char) : Prop where
  decoding : match f with
    | .cargo => (∀ cause, Toml.decode cs ≠ .error (.oversized cause)) ∧
      ∀ defect rest, Toml.decode cs = .error (.malformed defect rest) →
        Text.HasShortRuns (Toml.describe (Toml.source cs) defect rest).toList
    | .json => ∀ cause, Json.decode cs ≠ .error (.oversized cause)
  entries : ∀ values, f.listed? cs = some values → ∀ value ∈ values, ∀ a,
    f.addition? value = some a → Text.HasShortRuns a.version.toList ∧
      ∀ r ∈ a.references, Text.HasShortRuns r.toList

theorem Format.HasShortNumbers.not_stopsAtNumber (h : f.HasShortNumbers cs) :
    ¬ f.StopsAtNumber cs path := by
  intro hstops
  cases hstops with
  | decoding long =>
      have hshort := h.decoding
      cases f with
      | cargo =>
          rcases long with ⟨cause, hcause⟩ | ⟨defect, rest, digits, hdefect, hdigits, hlong⟩
          · exact hshort.1 cause hcause
          · obtain ⟨hpart, hall⟩ := Cargo.firstLocation_spec hdigits
            have hrun := hshort.2 defect rest hdefect digits hpart hall
            omega
      | json =>
          obtain ⟨cause, hcause⟩ := long
          exact hshort cause hcause
  | version listed readable stated long =>
      have hmem := h.entries _ listed _ (by simp) _ stated
      exact Version.not_isLong hmem.1 long
  -- the first reference that fails is stated by some entry, whose numbers are short
  | @reference _ _ _ reference _ listed added first stated long =>
      obtain ⟨value, hvalue, p, hp, _, hmem⟩ := first.stated added
      obtain ⟨a, ha, hpart⟩ := Option.bind_eq_some_iff.mp hp
      have hsame := ((Builder.part?_eq_some {} none).mp hpart).2
      rw [hsame] at hmem
      have hshort := (h.entries _ listed value hvalue a ha).2 reference hmem
      exact Version.not_isLong (hshort.of_isInfix (Builder.statedVersion?_isInfix stated)) long

/-! ## Everything that can happen -/

/-- The ends of each link are dependencies that the builder finds. -/
theorem Builder.Holds.finds {parts : List Part} (h : b.Holds parts)
    {links : List (Coordinate × Coordinate)} (hlinks : b.edges = .ok links) :
    ∀ link ∈ links, (∃ n, b.get? link.1.key = some n) ∧ ∃ n, b.get? link.2.key = some n := by
  have hfind {key : NodeKey} (hkey : key ∈ b.entries.map (·.node.key)) : ∃ n, b.get? key = some n := by
    obtain ⟨d, hd, rfl⟩ := List.mem_map.mp hkey
    have hsome : (b.entries.find? (·.node.key == d.node.key)).isSome = true :=
      List.find?_isSome.mpr ⟨d, hd, beq_self_eq_true _⟩
    obtain ⟨d', hd'⟩ := Option.isSome_iff_exists.mp hsome
    exact ⟨d'.node, by rw [get?, hd']; rfl⟩
  intro link hlink
  exact ⟨hfind (h.sound.ends hlinks link hlink).1, hfind (h.sound.ends hlinks link hlink).2⟩

/-- **How reading a lock file ends.** With a graph in which every link joins two of its
dependencies, or with a failure that names the file, or with that of a number where one is
too long; where what the decoder makes of the text has short numbers there is none. On the
way the builder finds every dependency that it looks up, and the walk over the text comes to
its end and gives the lines. -/
theorem Format.parsing_exact (f : Format) (bytes : List UInt8) (path : Option String) :
    (∀ g, f.parse bytes path = .ok g → ∀ link ∈ g.links,
      (∃ n ∈ g.nodes, n.key = link.1) ∧ ∃ n ∈ g.nodes, n.key = link.2) ∧
    (∀ e, f.parse bytes path = .error e →
      (∃ d line, e = .lockfile d ⟨line, path⟩) ∨ ∃ cause, e = .oversized cause) ∧
    ((∃ cause, f.parse bytes path = .error (.oversized cause)) ↔
      ∃ cs, Text.Utf8.decode bytes = .ok cs ∧ f.StopsAtNumber cs path) ∧
    (∀ cs, Text.Utf8.decode bytes = .ok cs → f.HasShortNumbers cs →
      ∀ cause, f.parse bytes path ≠ .error (.oversized cause)) ∧
    (∀ cs values b links, Text.Utf8.decode bytes = .ok cs → f.listed? cs = some values →
      f.addEntries { path } 0 values (f.entryLines cs) = .ok b → b.edges = .ok links →
        ∀ link ∈ links, (∃ n, b.get? link.1.key = some n) ∧ ∃ n, b.get? link.2.key = some n) ∧
    ∀ cs fields, Text.Utf8.decode bytes = .ok cs → Json.decode cs = .ok (.table fields) →
      ∃ starts, Object.FieldsAt [] ((Json.skip cs).drop 1) starts ∧
        Object.entryLines cs = starts.map (Text.lineAt cs) := by
  -- a graph joins its links by what it is
  have hjoined (g : Graph) (link) (hlink : link ∈ g.links) :
      (∃ n ∈ g.nodes, n.key = link.1) ∧ ∃ n ∈ g.nodes, n.key = link.2 := by
    obtain ⟨hparent, hchild⟩ := g.joined link hlink
    exact ⟨List.mem_map.mp hparent, List.mem_map.mp hchild⟩
  refine ⟨fun g _ => hjoined g, ?_, ?_, ?_, ?_, fun cs fields _ hdecode =>
    Object.fieldsAt_of_decode hdecode⟩
  · intro e he
    cases hdecode : Text.Utf8.decode bytes with
    | error fault =>
        unfold parse at he
        rw [hdecode] at he
        -- bytes that are no text are refused without a line
        exact .inl ⟨_, none, (Except.error.inj he).symm⟩
    | ok cs =>
        rw [parse_of_decode hdecode] at he
        rcases parseText_refused he with ⟨line, d, rfl⟩ | ⟨hnumber, _⟩
        · exact .inl ⟨d, line, rfl⟩
        · exact .inr hnumber
  · cases hdecode : Text.Utf8.decode bytes with
    | error fault =>
        unfold parse
        rw [hdecode]
        simp
    | ok cs =>
        rw [parse_of_decode hdecode, parseText_oversized]
        simp
  · intro cs hdecode hshort cause h
    rw [parse_of_decode hdecode] at h
    exact hshort.not_stopsAtNumber (parseText_oversized.mp ⟨cause, h⟩)
  · -- the builder holds what it was given, and so finds both ends of each link
    intro cs values b links _ _ hadded hlinks
    exact ((Builder.Holds.empty path).addEntries hadded).finds hlinks

/-- A version whose first number has this many digits after the first one. The line style
escapes them all, so they are no run of digits in a file. -/
def repeatedVersion (n : Nat) : String :=
  String.ofList ('1' :: (List.replicate n '٢' ++ ['.', '0', '.', '0']))

theorem isLong_repeatedVersion {n : Nat} (h : Number.digitLimit ≤ n) :
    Version.IsLong (repeatedVersion n) := by
  have hnumeral : Version.IsNumeral Text.isDigit ('1' :: List.replicate n '٢') := by
    refine .digits (by decide) fun d hd => ?_
    rw [List.eq_of_mem_replicate hd]
    decide
  -- neither end of the text is blank, so stripping leaves it alone
  have htrimmed : Text.IsTrimmed (repeatedVersion n).toList := by
    unfold repeatedVersion
    rw [String.toList_ofList]
    refine ⟨by simp; decide, ?_⟩
    rw [← List.cons_append, List.getLast?_append]
    simp
    decide
  refine ⟨⟨['1' :: List.replicate n '٢', ['0'], ['0']], none, none⟩,
    ⟨⟨?_, ?_, ?_, ?_, ?_⟩, rfl, ?_⟩, ?_⟩
  · simp
  · simp
  · simp only [List.forall_mem_cons]
    exact ⟨hnumeral, .zero, .zero, by simp⟩
  · simp
  · simp
  · rw [htrimmed.stripList_eq]
    simp [repeatedVersion, Version.Written.text, Version.Written.marked, List.intercalate]
  · refine .number List.mem_cons_self ?_
    simp
    omega

theorem Format.addition?_plainEntry (version : String) :
    Format.json.addition? (Object.plainEntry "p" version) = some ⟨"p", version, none, [], false⟩ :=
  rfl

/-- Escaped digits stop the reading of a file like any others. -/
theorem Format.parsing_exact_escaped :
    ∃ cause, Format.json.parse
      (Object.plainBytes [Object.plainEntry "p" (repeatedVersion Number.digitLimit)]) none =
        .error (.oversized cause) := by
  have hlong : Version.IsLong (repeatedVersion Number.digitLimit) :=
    isLong_repeatedVersion (Nat.le_refl _)
  have hplain : ∀ e ∈ [Object.plainEntry "p" (repeatedVersion Number.digitLimit)],
      Json.IsPlain e := by simp [Object.isPlain_plainEntry]
  have hpackages := Object.packages?_plainBytes hplain
  generalize repeatedVersion Number.digitLimit = version at hlong hpackages ⊢
  obtain ⟨cs, hcs, hlisted⟩ := Option.bind_eq_some_iff.mp hpackages
  have hstated := Format.addition?_plainEntry version
  have hlisted : Format.json.listed? cs = some ([] ++ Object.plainEntry "p" version :: []) := hlisted
  have hstops : Format.json.StopsAtNumber cs none :=
    .version hlisted (List.forall_mem_nil _) hstated hlong
  exact (parsing_exact .json _ none).2.2.1.mpr ⟨cs, Result.ok_of_toOption hcs, hstops⟩

end Lockfile

end LockAudit

import LockAudit.Advisory.Cache
import LockAudit.Proofs.Calendar.Iso
import LockAudit.Proofs.File.Tree
import LockAudit.Proofs.Json.RoundTrip
import LockAudit.Proofs.Text.Base64
import LockAudit.Proofs.Text.Utf8

/-!
# The cache is replaced as a whole

What is written to the cache is read back as the same feed: its bytes, its time and its
origin. And whatever goes wrong on the way, the file at the cache's place is the one that
stood there before, or the new one.

It is written in three stages, and the system can put an end to each of them: the directory
is made, the document is put into a file beside the cache, and that file is renamed.
`ReplacesTo` gives the ways in which the last two can end, and `WritesTo` those of all three.
The renaming is the one step that touches the cache's place, and it is the last.

The place matters more than the path here. Making directories can make a path lead
somewhere to which it did not lead before.
-/

namespace LockAudit.Advisory.Cache

open File (Tree Path Place Entry)
open File.Tree (place HasDirectory Undisturbed)

variable {files files' : Tree} {path : Path} {f : Feed} {refusal : Option Refusal}
  {fault : File.Fault}

/-! ## What the file holds -/

theorem document_isPlain (f : Feed) : Json.IsPlain (document f) := by
  refine .table (by simp only [List.map_cons, List.map_nil]; decide) fun field hfield => ?_
  simp only [List.mem_cons, List.not_mem_nil, or_false] at hfield
  rcases hfield with rfl | rfl | rfl | rfl
  · exact .int (by decide +kernel)
  · exact .text _
  · exact .text _
  · exact .text _

theorem document?_bytes (f : Feed) : document? (bytes f) = some (document f) := by
  have hdecode : Json.decode (Json.encode Json.Style.line (document f)) = .ok (document f) := by
    have hline : Json.decode (Json.encode Json.Style.line (document f) ++ []) = .ok (document f) :=
      Json.decode_encode (document_isPlain f) Json.Style.line (by simp)
    rwa [List.append_nil] at hline
  unfold document? bytes
  rw [Text.Utf8.decode_encode]
  simp [hdecode, Except.toOption]

/-- The feed as it is read from the cache. -/
def cached (f : Feed) : CachedFeed := ⟨f.bytes, f.fetchedAt, .text f.origin⟩

theorem readDocument_document (f : Feed) : readDocument (document f) = .ok (some (cached f)) := by
  simp [readDocument, document, readFields, Value.field, Value.lookup?, Value.text?, isCurrent,
    Text.Base64.decode?_encode, Calendar.Iso.readDateTime_text, Except.toOption,
    Calendar.DateTime.toUtc, cached]

/-- A file that holds a feed is read as the feed. -/
theorem read_of_bytes {changed : Int} (h : files.read path = .ok (bytes f, changed)) :
    read files path = .ok (some (cached f)) := by
  simp [read, h, readBytes, document?_bytes, readDocument_document]

/-- Without a file at its place there is no cache. -/
theorem read_of_noFile
    (h : ∀ bytes changed, files.entry? (place path) ≠ some (.file bytes changed)) :
    read files path = .ok none := by
  unfold read
  rw [Limits.checkStatus_unlimited, Result.ok_bind]
  split
  · rfl
  · rename_i bytes changed hread
    exact absurd (File.Tree.read_iff.mp hread).2 (h bytes changed)

/-! ## The file beside it -/

/-- The places that are tried for the file beside the cache. -/
def beside (directory : Place) (name : String) (n : Nat) : Place :=
  directory ++ [name ++ String.ofList (List.replicate n '~')]

theorem beside_injective (directory : Place) (name : String) :
    Function.Injective (beside directory name) := by
  intro n m h
  have hlength := congrArg (fun place : Place => (place.getLast?.getD "").length) h
  simpa [beside, String.length_append] using hlength

theorem beside_isInside {directory : Place} {name : String} (hname : 2 < name.length) (n : Nat) :
    File.Tree.isOutside (beside directory name n) = false := by
  have hlast : ∀ s : String, s.length ≤ 2 →
      name ++ String.ofList (List.replicate n '~') ≠ s := by
    rintro _ hs rfl
    rw [String.length_append] at hs
    omega
  simp [File.Tree.isOutside, beside, hlast ".." (by decide), hlast "/" (by decide)]

/-- Among as many places as the tree has and one more, one is free. -/
theorem stagedPlace_free {directory : Place} {name : String} (hname : 2 < name.length) :
    ∃ n, stagedPlace files directory name = beside directory name n ∧
      files.entry? (beside directory name n) = none := by
  let places := (List.range (files.entries.length + 1)).map (beside directory name)
  cases hfree : places.find? fun place => (files.entry? place).isNone with
  | some free =>
      have hchosen : stagedPlace files directory name = free :=
        congrArg (·.getD (directory ++ [name])) hfree
      obtain ⟨n, _, rfl⟩ := List.mem_map.mp (List.mem_of_find?_eq_some hfree)
      have hnone := List.find?_some hfree
      exact ⟨n, hchosen, Option.isNone_iff_eq_none.mp hnone⟩
  | none =>
      -- then all of them are places of the tree
      have hsubset : places ⊆ files.entries.map (·.1) := by
        intro place hplace
        have htaken := List.find?_eq_none.mp hfree place hplace
        obtain ⟨n, _, rfl⟩ := List.mem_map.mp hplace
        exact File.Tree.mem_of_occupied (beside_isInside hname n) (by simpa using htaken)
      have hnodup : places.Nodup := List.nodup_range.map (beside_injective directory name)
      have hlength := (List.subperm_of_subset hnodup hsubset).length_le
      simp only [places, List.length_map, List.length_range] at hlength
      omega

theorem length_stagedName (path : Path) : (stagedName path).length = path.name.length + 5 := by
  have hdot : ".".length = 1 := by decide
  have hending : ".TMP".length = 4 := by decide
  rw [stagedName, String.length_append, String.length_append, hdot, hending]
  omega

/-- The file beside the cache is not the cache: its name is longer. -/
theorem beside_ne_place (path : Path) (n : Nat) :
    beside (place path.parent) (stagedName path) n ≠ place path := by
  have hlonger : ∀ other : Place, other.length ≤ (place path.parent).length →
      beside (place path.parent) (stagedName path) n ≠ other := by
    rintro other hother rfl
    rw [beside, List.length_append, List.length_singleton] at hother
    omega
  have hlast : ∀ s : String, s.length < path.name.length + 5 →
      beside (place path.parent) (stagedName path) n ≠ place path.parent ++ [s] := by
    intro s hs heq
    have hsame := List.append_cancel_left heq
    rw [List.cons.injEq] at hsame
    rw [← hsame.1, String.length_append, length_stagedName] at hs
    omega
  by_cases hnames : path.names = []
  · -- the path is its own parent
    have hparent : path.parent.names = [] := by rw [Path.parent, hnames, List.dropLast_nil]
    rw [File.Tree.place_of_nil hnames]
    refine hlonger _ (Nat.le_of_eq ?_)
    rw [File.Tree.place_of_nil hparent]
    rfl
  · -- the last name leads one place down, or up
    rw [File.Tree.place_eq hnames, File.Tree.step]
    split
    · split
      · exact hlonger _ (Nat.le_refl _)
      · split
        · exact hlast ".." (by rw [show "..".length = 2 by decide]; omega)
        · exact hlonger _ (by rw [List.length_dropLast]; omega)
    · exact hlast path.name (by omega)

/-- A place for the file beside the cache: inside, free, and not the cache's own. -/
structure IsBeside (path : Path) (files : Tree) (staged : Place) : Prop where
  inside : File.Tree.isOutside staged = false
  free : files.entry? staged = none
  elsewhere : staged ≠ place path

theorem stagedPlace_isBeside (path : Path) (files : Tree) :
    IsBeside path files (stagedPlace files (place path.parent) (stagedName path)) := by
  have hname : 2 < (stagedName path).length := by rw [length_stagedName]; omega
  have hfree : ∃ n, stagedPlace files (place path.parent) (stagedName path) =
      beside (place path.parent) (stagedName path) n ∧
        files.entry? (beside (place path.parent) (stagedName path) n) = none :=
    stagedPlace_free hname
  obtain ⟨n, hstaged, hfree⟩ := hfree
  rw [hstaged]
  exact ⟨beside_isInside hname n, hfree, beside_ne_place path n⟩

/-! ## What replacing the cache changes -/

/-- All that stood somewhere still stands there, and no file is new at the cache's place. -/
structure Leaves (path : Path) (files files' : Tree) : Prop where
  keeps : ∀ at_ e, files.entry? at_ = some e → files'.entry? at_ = some e
  cache : ∀ bytes changed, files'.entry? (place path) = some (.file bytes changed) →
    files.entry? (place path) = some (.file bytes changed)

/-- The cache at the path is the file that holds the feed, and all else that stood
somewhere still stands there. -/
structure Holds (path : Path) (f : Feed) (files files' : Tree) : Prop where
  keeps : ∀ at_ e, at_ ≠ place path → files.entry? at_ = some e → files'.entry? at_ = some e
  reads : files'.read path = .ok (bytes f, 0)

/-- A cache that is left as it was is read as before. -/
theorem Leaves.read (h : Leaves path files files') {found : List UInt8 × Int}
    (hread : files.read path = .ok found) : files'.read path = .ok found := by
  obtain ⟨bytes, changed⟩ := found
  have hentry := (File.Tree.read_iff.mp hread).2
  have hkept := h.keeps _ _ hentry
  exact File.Tree.read_kept (fun at_ => h.keeps at_ _) (hkept.trans hentry.symm) hread

/-- What a replacement comes to. -/
def Settles (path : Path) (f : Feed) (files : Tree) (done : Tree × Except File.Fault Unit) : Prop :=
  match done.2 with
  | .ok () => Holds path f files done.1
  | .error _ => Leaves path files done.1

theorem leaves_of_eq (h : ∀ at_, files'.entry? at_ = files.entry? at_) :
    Leaves path files files' :=
  ⟨fun at_ _ he => (h at_).trans he, fun _ _ hfile => (h _).symm.trans hfile⟩

/-- What replacing the cache in a directory that is there comes to. -/
inductive ReplacesTo (path : Path) (f : Feed) (files : Tree) (refusal : Option Refusal) :
    Tree × Except File.Fault Unit → Prop
  | replaced {files' : Tree} (unrefused : refusal = none)
      (reads : files'.read path = .ok (bytes f, 0))
      (others : ∀ at_, at_ ≠ place path → files'.entry? at_ = files.entry? at_) :
      ReplacesTo path f files refusal (files', .ok ())
  | untouched {files' : Tree} {fault : File.Fault}
      (same : ∀ at_, files'.entry? at_ = files.entry? at_) :
      ReplacesTo path f files refusal (files', .error fault)
  | staged {staged : Place} {left : List UInt8} {fault : File.Fault}
      (refused : refusal = some (.replacing (some left) fault))
      (beside : IsBeside path files staged) :
      ReplacesTo path f files refusal (files.put staged (.file left 0), .error fault)

/-- The renamed file is the cache, and the file beside it is gone. -/
theorem replacesTo_of_rename {staged : Place} (hbeside : IsBeside path files staged)
    (h : (files.put staged (.file (bytes f) 0)).rename staged path = .ok files') :
    ReplacesTo path f files none (files', .ok ()) := by
  have hreads := File.Tree.rename_reads h (File.Tree.put_entry hbeside.inside)
  refine .replaced rfl hreads fun at_ hplace => ?_
  obtain ⟨_, _, _, _, _, rfl⟩ := File.Tree.rename_ok h
  rw [File.Tree.put_entry_of_ne hplace, File.Tree.put_remove_entry hbeside.inside hbeside.free]

theorem replace_replacesTo (h : HasDirectory files path.parent) :
    ReplacesTo path f files refusal (replace files path f refusal) := by
  have hbeside := stagedPlace_isBeside path files
  unfold replace
  rw [h.1]
  dsimp only
  generalize stagedPlace files (place path.parent) (stagedName path) = staged at hbeside ⊢
  -- what was put beside the cache and removed again
  have hremoved : ∀ at_, Tree.entry? ((files.put staged (.file (bytes f) 0)).remove staged) at_ =
      files.entry? at_ :=
    fun _ => File.Tree.put_remove_entry hbeside.inside hbeside.free
  cases refusal with
  | none =>
      -- the system does not refuse, so it is up to what stands at the cache's place
      cases hrenamed : (files.put staged (.file (bytes f) 0)).rename staged path with
      | ok files' => exact replacesTo_of_rename hbeside hrenamed
      | error cause => exact .untouched hremoved
  | some refusal =>
      cases refusal with
      | directory made fault => exact .untouched fun _ => rfl
      | staging fault => exact .untouched fun _ => rfl
      | replacing left fault =>
          cases left with
          | none => exact .untouched hremoved
          | some left => exact .staged rfl hbeside

/-! ## What writing the cache changes -/

/-- What writing the cache comes to. -/
inductive WritesTo (path : Path) (f : Feed) (files : Tree) (refusal : Option Refusal) :
    Tree × Except File.Fault Unit → Prop
  | written {files' : Tree} (reads : files'.read path = .ok (bytes f, 0))
      (others : ∀ at_, at_ ≠ place path → Undisturbed path.parent files files' at_) :
      WritesTo path f files refusal (files', .ok ())
  | failed {files' : Tree} {fault : File.Fault}
      (all : ∀ at_, Undisturbed path.parent files files' at_) :
      WritesTo path f files refusal (files', .error fault)
  | stuck {files' : Tree} {staged : Place} {left : List UInt8} {fault : File.Fault}
      (refused : refusal = some (.replacing (some left) fault))
      (free : files.entry? staged = none) (beside : staged ≠ place path)
      (stays : files'.entry? staged = some (.file left 0))
      (others : ∀ at_, at_ ≠ staged → Undisturbed path.parent files files' at_) :
      WritesTo path f files refusal (files', .error fault)

theorem write_writesTo : WritesTo path f files refusal (write files path f refusal) := by
  have hmade : ∀ p at_, Undisturbed p files (files.makeDirectories p).1 at_ :=
    fun _ => File.Tree.makeDirectories_undisturbed
  unfold write
  split
  · exact .failed fun at_ => (hmade _ at_).of_upTo
  · have hparent := hmade path.parent
    have hdirectory : File.Tree.Makes files path.parent (files.makeDirectories path.parent) :=
      File.Tree.makeDirectories_makes
    split
    · rename_i made heq
      rw [heq] at hparent hdirectory
      have hto : ReplacesTo path f made refusal (replace made path f refusal) :=
        replace_replacesTo (hdirectory.2 rfl)
      generalize replace made path f refusal = done at hto
      cases hto with
      | replaced unrefused reads others =>
          exact .written reads fun at_ hne => (hparent at_).trans (.same (others at_ hne))
      | untouched same => exact .failed fun at_ => (hparent at_).trans (.same (same at_))
      | @staged staged left fault refused beside =>
          -- directories made on the way do not free a place
          have hbefore : files.entry? staged = none := by
            cases hentry : files.entry? staged with
            | none => rfl
            | some e =>
                have hkept := (hparent staged).keeps hentry
                exact absurd (beside.free.symm.trans hkept) (by simp)
          refine .stuck refused hbefore beside.elsewhere (File.Tree.put_entry beside.inside) ?_
          intro at_ hne
          exact (hparent at_).trans (.same (File.Tree.put_entry_of_ne hne))
    · rename_i made fault heq
      rw [heq] at hparent
      exact .failed hparent

/-- **The cache is replaced as a whole, or is left as it was**, whatever the system
refuses. -/
theorem write_settles : Settles path f files (write files path f refusal) := by
  have hto : WritesTo path f files refusal (write files path f refusal) := write_writesTo
  generalize write files path f refusal = done at hto
  cases hto with
  | written reads others => exact ⟨fun at_ e hne he => (others at_ hne).keeps he, reads⟩
  | failed all => exact ⟨fun at_ e he => (all at_).keeps he, fun _ _ hfile => (all _).file hfile⟩
  | @stuck _ staged _ _ refused free beside stays others =>
      refine ⟨fun at_ e he => ?_, fun _ _ hfile => (others _ beside.symm).file hfile⟩
      exact (others at_ (File.Tree.ne_of_free free he)).keeps he

theorem holds_of_write (h : write files path f refusal = (files', .ok ())) :
    Holds path f files files' := by
  have hsettles : Settles path f files (write files path f refusal) := write_settles
  rw [h] at hsettles
  exact hsettles

theorem leaves_of_write (h : write files path f refusal = (files', .error fault)) :
    Leaves path files files' := by
  have hsettles : Settles path f files (write files path f refusal) := write_settles
  rw [h] at hsettles
  exact hsettles

end LockAudit.Advisory.Cache

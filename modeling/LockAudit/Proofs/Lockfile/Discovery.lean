import LockAudit.Lockfile.Registry
import LockAudit.Proofs.File.Glob
import LockAudit.Proofs.File.Path
import LockAudit.Proofs.File.Sound

/-!
# Which lock files are discovered

Discovery lists what lies below a root and leaves out what some pattern stands for. Each
pattern looks for the name of a directory with a slash on either side, in the whole path as
it is spelled, the root included. So two things decide that have nothing to do with what
lies below the root. A root that has such a name in its own spelling hides all that lies
below it. And in a path that begins with the name of a directory, because the root is the
working directory and is spelled as a dot, that first directory is not looked at.

`discover_exact` says what is discovered below any root. Where the spelling of the root
adds nothing and takes nothing away (`IsNeutral`), the directories below the root alone
decide, so the same files are discovered wherever a tree stands.
-/

namespace LockAudit.Lockfile

open File (Path Tree)
open File.Tree (IsName)

variable {t t' : Tree} {root root' p : Path} {names : List String} {at_ : File.Place}

/-! ## What is passed over -/

/-- The names of the directories that are passed over. -/
def ignoredNames : List String :=
  [".git", "target", "node_modules", ".venv", "venv", "__pycache__", ".pytest_cache"]

theorem ignoredDirectories_eq :
    ignoredDirectories = ignoredNames.map fun name => "*" ++ ("/" ++ name ++ "/") ++ "*" := by
  rfl

theorem ignoredNames_literal : ∀ name ∈ ignoredNames, name ≠ "" ∧ '/' ∉ name.toList ∧
    (name.toList.all fun c => c ≠ '*' && c ≠ '?' && c ≠ '[') = true := by
  decide

/-- **A path is passed over for its directories**, the first one aside if no slash is
before it. -/
theorem isIgnored_iff (hp : p.IsSpelled) (h : p.names ≠ []) :
    isIgnored ignoredDirectories p = true ↔ ∃ name ∈ p.slashed.dropLast, name ∈ ignoredNames := by
  have hpattern : ∀ name ∈ ignoredNames,
      (File.Glob.holds ("*" ++ ("/" ++ name ++ "/") ++ "*") p.text = true ↔
        name ∈ p.slashed.dropLast) := by
    intro name hname
    obtain ⟨hsome, hslash, hchars⟩ := ignoredNames_literal name hname
    have hliteral : ∀ c ∈ name.toList, File.Glob.IsLiteral c := fun c hc => by
      simpa [File.Glob.IsLiteral, and_assoc] using List.all_eq_true.mp hchars c hc
    have hown : ("/" ++ name ++ "/").toList = '/' :: (name.toList ++ ['/']) := by simp
    rw [File.Glob.holds_between, hown, Path.isInfix_text_iff hp h ⟨hsome, hslash⟩]
    rw [hown, List.forall_mem_cons, List.forall_mem_append, List.forall_mem_singleton]
    exact ⟨by unfold File.Glob.IsLiteral; decide, hliteral, by unfold File.Glob.IsLiteral; decide⟩
  unfold isIgnored
  rw [ignoredDirectories_eq, List.any_map, List.any_eq_true]
  refine ⟨?_, ?_⟩
  · rintro ⟨name, hname, hholds⟩
    exact ⟨name, (hpattern name hname).mp hholds, hname⟩
  · rintro ⟨name, hmem, hname⟩
    exact ⟨name, hname, (hpattern name hname).mpr hmem⟩

/-! ## Formats -/

/-- No file name has both formats. -/
theorem accepts_disjoint {fileName : String} (h : Format.cargo.accepts fileName = true) :
    Format.json.accepts fileName = false := by
  obtain rfl : fileName = "Cargo.lock" := by simpa [Format.accepts, Format.fileNames,
    Format.endings] using h
  decide

/-- The format of a file is found by its name. -/
theorem findEntry?_standard {fileName : String} {entry : String × Format} :
    Registry.standard.findEntry? fileName = some entry ↔
      ∃ f : Format, f.accepts fileName = true ∧ (f.name, f) = entry := by
  -- the two entries are tried in order
  have hentry : Registry.standard.findEntry? fileName =
      if Format.cargo.accepts fileName then some ("cargo", .cargo)
      else if Format.json.accepts fileName then some ("json", .json) else none := by
    unfold Registry.findEntry? Registry.standard
    cases hcargo : Format.cargo.accepts fileName <;>
      cases hjson : Format.json.accepts fileName <;> simp [hcargo, hjson]
  rw [hentry]
  refine ⟨?_, ?_⟩
  · intro h
    split at h
    · rename_i hcargo
      exact ⟨.cargo, hcargo, Option.some.inj h⟩
    · split at h
      · rename_i hjson
        exact ⟨.json, hjson, Option.some.inj h⟩
      · exact absurd h (by simp)
  · rintro ⟨f, hf, rfl⟩
    cases f with
    | cargo => rw [if_pos hf]; rfl
    | json =>
        -- no name is accepted by both, so the first does not hide the second
        have hcargo : ¬ Format.cargo.accepts fileName = true := by
          intro hcargo
          rw [accepts_disjoint hcargo] at hf
          exact absurd hf (by simp)
        rw [if_neg hcargo, if_pos hf]
        rfl

/-! ## Discovery -/

/-- The names lead from the root to a file of the format. -/
structure IsLockFile (t : Tree) (root : Path) (names : List String) (f : Format) : Prop where
  some_name : names ≠ []
  proper : ∀ n ∈ names, IsName n
  file : t.isFile (pathBelow root names) = true
  accepted : f.accepts (names.getLast?.getD "") = true

/-- What discovery makes of a lock file. -/
def candidateOf (root : Path) (names : List String) (f : Format) : Candidate :=
  ⟨pathBelow root names, f.name⟩

theorem pathBelow_isSpelled (hroot : root.IsSpelled) (hnames : ∀ n ∈ names, IsName n) :
    (pathBelow root names).IsSpelled where
  root := hroot.root
  names := List.forall_mem_append.mpr ⟨hroot.names, fun n hn =>
    ⟨(hnames n hn).1, (hnames n hn).2.1, (hnames n hn).2.2.1⟩⟩

theorem candidate?_iff {patterns : List String} {e : File.Entry} {c : Candidate} :
    candidate? patterns root (names, e) = some c ↔
      (∃ bytes changed, e = .file bytes changed) ∧
        isIgnored patterns (pathBelow root names) = false ∧
          ∃ f : Format, f.accepts (pathBelow root names).name = true ∧
            candidateOf root names f = c := by
  unfold candidate?
  cases e with
  | directory => simp
  | file bytes changed =>
      cases hignored : isIgnored patterns (pathBelow root names) with
      | true => simp [hignored]
      | false =>
          simp only [hignored, Bool.false_eq_true, if_false, Option.map_eq_some_iff,
            findEntry?_standard]
          refine ⟨?_, ?_⟩
          · rintro ⟨entry, ⟨f, hf, rfl⟩, rfl⟩
            exact ⟨⟨bytes, changed, rfl⟩, trivial, f, hf, rfl⟩
          · rintro ⟨_, _, f, hf, rfl⟩
            exact ⟨_, ⟨f, hf, rfl⟩, rfl⟩

theorem name_pathBelow (h : names ≠ []) :
    (pathBelow root names).name = names.getLast?.getD "" := by
  unfold Path.name pathBelow
  rw [List.getLast?_append_of_ne_nil _ h]

/-- What is listed below a root as a file is a file there. -/
theorem isFile_iff (ht : t.IsSound) (hroot : t.find root = .ok at_)
    (hnames : ∀ n ∈ names, IsName n) :
    t.isFile (pathBelow root names) = true ↔
      ∃ bytes changed, t.entry? (at_ ++ names) = some (.file bytes changed) := by
  have hlookup : t.lookup? (pathBelow root names) = t.entry? (at_ ++ names) :=
    ht.lookup_continued hroot hnames
  unfold Tree.isFile
  rw [hlookup]
  split
  · rename_i hentry
    simp [hentry]
  · rename_i hnone
    simpa using hnone

/-- **What is discovered below a root**: the lock files that are not passed over. -/
theorem mem_discovered (ht : t.IsSound) (hspelled : root.IsSpelled) (hroot : t.find root = .ok at_)
    {c : Candidate} :
    c ∈ (t.below at_).filterMap (candidate? ignoredDirectories root) ↔
      ∃ names f, IsLockFile t root names f ∧ candidateOf root names f = c ∧
        ∀ name ∈ (pathBelow root names).slashed.dropLast, name ∉ ignoredNames := by
  -- the path asked about is the spelled one, root included, and its last name never counts
  have hpassed {names : List String} (hne : names ≠ []) (hnames : ∀ n ∈ names, IsName n) :
      isIgnored ignoredDirectories (pathBelow root names) = false ↔
        ∀ name ∈ (pathBelow root names).slashed.dropLast, name ∉ ignoredNames := by
    have hsome : (pathBelow root names).names ≠ [] := by simp [pathBelow, hne]
    rw [← Bool.not_eq_true, isIgnored_iff (pathBelow_isSpelled hspelled hnames) hsome]
    simp only [not_exists, not_and]
  rw [List.mem_filterMap]
  refine ⟨?_, ?_⟩
  · rintro ⟨⟨names, e⟩, hbelow, hcandidate⟩
    obtain ⟨hne, hnames, hentry⟩ := ht.mem_below.mp hbelow
    obtain ⟨⟨bytes, changed, rfl⟩, hignored, f, hf, rfl⟩ := candidate?_iff.mp hcandidate
    have hfile := (isFile_iff ht hroot hnames).mpr ⟨bytes, changed, hentry⟩
    rw [name_pathBelow hne] at hf
    exact ⟨names, f, ⟨hne, hnames, hfile, hf⟩, rfl, (hpassed hne hnames).mp hignored⟩
  · rintro ⟨names, f, hlock, rfl, hclean⟩
    obtain ⟨bytes, changed, hentry⟩ := (isFile_iff ht hroot hlock.proper).mp hlock.file
    have haccepted := hlock.accepted
    rw [← name_pathBelow hlock.some_name] at haccepted
    have hignored := (hpassed hlock.some_name hlock.proper).mpr hclean
    exact ⟨_, ht.mem_below.mpr ⟨hlock.some_name, hlock.proper, hentry⟩,
      candidate?_iff.mpr ⟨⟨bytes, changed, rfl⟩, hignored, f, haccepted, rfl⟩⟩

/-- Candidates come in the order of their paths. -/
theorem discovered_sorted (ht : t.IsSound) {patterns : List String} :
    ((t.below at_).filterMap (candidate? patterns root)).Pairwise fun c d =>
      Path.orderNames c.path.names d.path.names = .lt := by
  refine (ht.below_sorted at_).filterMap _ fun a b hab c hc d hd => ?_
  obtain ⟨_, _, f, _, rfl⟩ := candidate?_iff.mp hc
  obtain ⟨_, _, f', _, rfl⟩ := candidate?_iff.mp hd
  exact (File.Tree.orderNames_append _ _ _).trans hab

theorem discover_eq (h : t.find root = .ok at_) :
    discover t root none =
      .ok ((t.below at_).filterMap (candidate? ignoredDirectories root)) := by
  unfold discover
  rw [h]
  rfl

theorem find_of_exists (h : t.exists? root = true) : ∃ at_, t.find root = .ok at_ := by
  unfold Tree.exists? Tree.lookup? at h
  split at h
  · rename_i at_ hfind
    exact ⟨at_, hfind⟩
  · exact absurd h (by simp)

/-! ## Roots that do not matter -/

/-- The spelling of the root has no name of a directory that is passed over, and it is no
dot. -/
structure IsNeutral (root : Path) : Prop where
  some_name : root.root ≠ "" ∨ root.names ≠ []
  clean : ∀ name ∈ root.slashed, name ∉ ignoredNames

theorem slashed_pathBelow (h : root.root ≠ "" ∨ root.names ≠ []) :
    (pathBelow root names).slashed = root.slashed ++ names := by
  unfold Path.slashed pathBelow
  cases hroot : root.root.isEmpty with
  | false => rfl
  | true =>
      have hne : root.names ≠ [] := h.resolve_left (by simpa using hroot)
      simp [List.tail_append_of_ne_nil hne]

/-- Below a neutral root the directories below it alone decide. -/
theorem IsNeutral.clean_iff (h : IsNeutral root) (hne : names ≠ []) :
    (∀ name ∈ (pathBelow root names).slashed.dropLast, name ∉ ignoredNames) ↔
      ∀ name ∈ names.dropLast, name ∉ ignoredNames := by
  rw [slashed_pathBelow h.some_name, List.dropLast_append_of_ne_nil hne, List.forall_mem_append]
  exact and_iff_right h.clean

theorem mem_discovered_neutral (ht : t.IsSound) (hspelled : root.IsSpelled)
    (hroot : t.find root = .ok at_) (hneutral : IsNeutral root) {c : Candidate} :
    c ∈ (t.below at_).filterMap (candidate? ignoredDirectories root) ↔
      ∃ names f, IsLockFile t root names f ∧ candidateOf root names f = c ∧
        ∀ name ∈ names.dropLast, name ∉ ignoredNames := by
  rw [mem_discovered ht hspelled hroot]
  refine exists_congr fun names => exists_congr fun f => and_congr_right fun hlock => ?_
  rw [hneutral.clean_iff hlock.some_name]

/-- Where a candidate lies below the root, with its format. -/
def Candidate.relativeTo (root : Path) (c : Candidate) : List String × String :=
  (c.path.names.drop root.names.length, c.format)

theorem relativeTo_candidateOf (f : Format) :
    (candidateOf root names f).relativeTo root = (names, f.name) := by
  unfold candidateOf Candidate.relativeTo pathBelow
  rw [List.drop_left]

theorem candidateOf_names {names' : List String} {f f' : Format}
    (h : candidateOf root names f = candidateOf root names' f') : names = names' := by
  have hrelative := congrArg (Candidate.relativeTo root) h
  rw [relativeTo_candidateOf, relativeTo_candidateOf] at hrelative
  exact (Prod.mk.inj hrelative).1

/-- What is discovered is in order also by where it lies below the root. -/
theorem relative_sorted (ht : t.IsSound) {patterns : List String} :
    (((t.below at_).filterMap (candidate? patterns root)).map
      (Candidate.relativeTo root)).Pairwise fun a b => Path.orderNames a.1 b.1 = .lt := by
  rw [List.pairwise_map]
  refine (ht.below_sorted at_).filterMap _ fun a b hab c hc d hd => ?_
  obtain ⟨_, _, f, _, rfl⟩ := candidate?_iff.mp hc
  obtain ⟨_, _, f', _, rfl⟩ := candidate?_iff.mp hd
  rwa [relativeTo_candidateOf, relativeTo_candidateOf]

/-- Below neutral roots with the same files below them, the same lock files are discovered. -/
theorem discovered_alike {at_' : File.Place} (ht : t.IsSound) (ht' : t'.IsSound)
    (hspelled : root.IsSpelled) (hspelled' : root'.IsSpelled) (hroot : t.find root = .ok at_)
    (hroot' : t'.find root' = .ok at_') (hneutral : IsNeutral root) (hneutral' : IsNeutral root')
    (hsame : ∀ names, (∀ n ∈ names, IsName n) →
      t.isFile (pathBelow root names) = t'.isFile (pathBelow root' names)) :
    ((t.below at_).filterMap (candidate? ignoredDirectories root)).map
        (Candidate.relativeTo root) =
      ((t'.below at_').filterMap (candidate? ignoredDirectories root')).map
        (Candidate.relativeTo root') := by
  have hlock (names : List String) (f : Format) :
      IsLockFile t root names f ↔ IsLockFile t' root' names f := by
    refine ⟨fun h => ?_, fun h => ?_⟩
    · exact ⟨h.some_name, h.proper, hsame names h.proper ▸ h.file, h.accepted⟩
    · exact ⟨h.some_name, h.proper, (hsame names h.proper).symm ▸ h.file, h.accepted⟩
  -- both lists are sorted by the path below the root, so equal members make equal lists
  refine Sorting.eq_of_mem_iff (relative_sorted ht) (relative_sorted ht') fun a => ?_
  simp only [List.mem_map, mem_discovered_neutral ht hspelled hroot hneutral,
    mem_discovered_neutral ht' hspelled' hroot' hneutral']
  refine ⟨?_, ?_⟩
  · rintro ⟨_, ⟨names, f, h, rfl, hclean⟩, rfl⟩
    refine ⟨_, ⟨names, f, (hlock names f).mp h, rfl, hclean⟩, ?_⟩
    rw [relativeTo_candidateOf, relativeTo_candidateOf]
  · rintro ⟨_, ⟨names, f, h, rfl, hclean⟩, rfl⟩
    refine ⟨_, ⟨names, f, (hlock names f).mpr h, rfl, hclean⟩, ?_⟩
    rw [relativeTo_candidateOf, relativeTo_candidateOf]

/-- **Which lock files are discovered.** Below any root that exists, the lock files are
discovered in the order of their paths and each once, those left out that lie in a
directory with an ignored name after a slash of the spelled path. Below a neutral root
these are the directories below the root; so below every other neutral root with the same
files below it, in whatever tree, the same lock files are discovered. -/
theorem discover_exact (ht : t.IsSound) (s : String) (hexists : t.exists? (.ofText s) = true) :
    ∃ found, discover t (.ofText s) none = .ok found ∧
      found.Pairwise (fun c d => Path.orderNames c.path.names d.path.names = .lt) ∧
      (∀ c, c ∈ found ↔ ∃ names f, IsLockFile t (.ofText s) names f ∧
        candidateOf (.ofText s) names f = c ∧
          ∀ name ∈ (pathBelow (.ofText s) names).slashed.dropLast, name ∉ ignoredNames) ∧
      (IsNeutral (.ofText s) →
        (∀ c, c ∈ found ↔ ∃ names f, IsLockFile t (.ofText s) names f ∧
          candidateOf (.ofText s) names f = c ∧ ∀ name ∈ names.dropLast, name ∉ ignoredNames) ∧
        ∀ t' s', t'.IsSound → t'.exists? (.ofText s') = true → IsNeutral (.ofText s') →
          (∀ names, (∀ n ∈ names, IsName n) →
            t.isFile (pathBelow (.ofText s) names) = t'.isFile (pathBelow (.ofText s') names)) →
          ∃ found', discover t' (.ofText s') none = .ok found' ∧
            found.map (Candidate.relativeTo (.ofText s)) =
              found'.map (Candidate.relativeTo (.ofText s'))) := by
  obtain ⟨at_, hroot⟩ := find_of_exists hexists
  have hspelled := Path.ofText_isSpelled s
  refine ⟨_, discover_eq hroot, discovered_sorted ht, fun c => mem_discovered ht hspelled hroot,
    fun hneutral => ⟨fun c => mem_discovered_neutral ht hspelled hroot hneutral, ?_⟩⟩
  intro t' s' ht' hexists' hneutral' hsame
  obtain ⟨at', hroot'⟩ := find_of_exists hexists'
  exact ⟨_, discover_eq hroot', discovered_alike ht ht' hspelled (Path.ofText_isSpelled s') hroot
    hroot' hneutral hneutral' hsame⟩

/-- One project in the working directory and one in a directory below it, each with a lock
file in its build directory. -/
def builtProjects : Tree := ⟨[
  (["target"], .directory), (["target", "Cargo.lock"], .file [] 0), (["w"], .directory),
  (["w", "Cargo.lock"], .file [] 0), (["w", "target"], .directory),
  (["w", "target", "Cargo.lock"], .file [] 0)]⟩

/-- The build directory of the first project is looked into when the root is spelled as a
dot, that of the second one is passed over, however its root is spelled, and where the root
is that directory itself, nothing is discovered in it. -/
theorem discover_exact_built : builtProjects.IsSound ∧
    (∃ found, discover builtProjects (.ofText ".") none = .ok found ∧
      candidateOf (.ofText ".") ["target", "Cargo.lock"] .cargo ∈ found) ∧
    (∃ found, discover builtProjects (.ofText "w/target") none = .ok found ∧
      candidateOf (.ofText "w/target") ["Cargo.lock"] .cargo ∉ found) ∧
    ∃ found found', discover builtProjects (.ofText "w") none = .ok found ∧
      candidateOf (.ofText "w") ["Cargo.lock"] .cargo ∈ found ∧
      candidateOf (.ofText "w") ["target", "Cargo.lock"] .cargo ∉ found ∧
      discover builtProjects (.ofText "w/../w") none = .ok found' ∧
      found.map (Candidate.relativeTo (.ofText "w")) =
        found'.map (Candidate.relativeTo (.ofText "w/../w")) := by
  have hsound : builtProjects.IsSound := by
    refine ⟨by decide, ?_⟩
    simp only [builtProjects, List.map_cons, List.map_nil, List.forall_mem_cons]
    refine ⟨⟨[], "target", rfl, by decide, rfl⟩, ⟨["target"], "Cargo.lock", rfl, by decide, rfl⟩,
      ⟨[], "w", rfl, by decide, rfl⟩, ⟨["w"], "Cargo.lock", rfl, by decide, rfl⟩,
      ⟨["w"], "target", rfl, by decide, rfl⟩, ⟨["w", "target"], "Cargo.lock", rfl, by decide, rfl⟩,
      by simp⟩
  have hneutral : IsNeutral (.ofText "w") := ⟨by decide, by decide⟩
  have hneutral' : IsNeutral (.ofText "w/../w") := ⟨by decide, by decide⟩
  refine ⟨hsound, ?_, ?_, ?_⟩
  · obtain ⟨found, hfound, _, hmem, _⟩ := discover_exact hsound "." (by decide)
    exact ⟨found, hfound, (hmem _).mpr
      ⟨_, _, ⟨by decide, by decide, by decide, by decide⟩, rfl, by decide⟩⟩
  · obtain ⟨found, hfound, _, hmem, _⟩ := discover_exact hsound "w/target" (by decide)
    refine ⟨found, hfound, fun h => ?_⟩
    -- the spelled path has the name of an ignored directory in it
    obtain ⟨names, f, _, hsame, hclean⟩ := (hmem _).mp h
    obtain rfl := candidateOf_names hsame
    exact hclean "target" (by decide) (by decide)
  · obtain ⟨found, hfound, _, _, hrest⟩ := discover_exact hsound "w" (by decide)
    obtain ⟨hmem, halike⟩ := hrest hneutral
    have hroot : builtProjects.find (.ofText "w") = .ok ["w"] := by rfl
    have hroot' : builtProjects.find (.ofText "w/../w") = .ok ["w"] := by rfl
    -- both paths lead to the same place, so the same files stand below them
    obtain ⟨found', hfound', hrelative⟩ :=
      halike builtProjects "w/../w" hsound (by decide) hneutral' fun names hnames =>
        Bool.eq_iff_iff.mpr
          ((isFile_iff hsound hroot hnames).trans (isFile_iff hsound hroot' hnames).symm)
    refine ⟨found, found', hfound, (hmem _).mpr
      ⟨_, _, ⟨by decide, by decide, by decide, by decide⟩, rfl, by decide⟩, fun h => ?_, hfound',
      hrelative⟩
    obtain ⟨names, f, _, hsame, hclean⟩ := (hmem _).mp h
    obtain rfl := candidateOf_names hsame
    exact hclean "target" (by decide) (by decide)

end LockAudit.Lockfile

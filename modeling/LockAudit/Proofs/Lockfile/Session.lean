import LockAudit.Proofs.Lockfile.Listing

/-!
# Entries form a set

A session with a builder comes to the entries that it was granted, and a lock file to the
entries that it lists. Every builder grants the same entries, so what was asked before
makes no difference. And by what a builder holds, the order of the entries and their number
do not matter, nor what else was asked.
-/

namespace LockAudit.Lockfile

namespace Builder

variable {b : Builder} {parts : List Part}

/-! ## Sessions -/

/-- **What a request does.** It is granted an entry that can be read, which is inserted; or
it is granted none and changes nothing. -/
theorem perform_cases (b : Builder) (request : Request) :
    (∃ what line p, request = .add what line ∧ what.part? = some p ∧
      (b.perform request).1 = b.insert p.node p.references line ∧
      b.granted? request = some what) ∨
    (b.perform request).1 = b ∧ b.granted? request = none ∧
      ∀ what line, request = .add what line → what.part? = none := by
  cases request with
  | resolve reference line => exact .inr ⟨rfl, rfl, by simp⟩
  | build => exact .inr ⟨rfl, rfl, by simp⟩
  | add what line =>
      cases hadd : b.add what.name what.version what.source what.references what.direct line with
      | ok added =>
          obtain ⟨p, hp⟩ := part?_of_add hadd
          obtain ⟨n, hn⟩ := add_part hp b line
          refine .inl ⟨what, line, p, rfl, hp, ?_, ?_⟩
          · unfold perform
            dsimp only
            rw [hn]
          · unfold granted? perform
            dsimp only
            rw [hn]
      | error cause =>
          refine .inr ⟨?_, ?_, ?_⟩
          · unfold perform
            dsimp only
            rw [hadd]
          · unfold granted? perform
            dsimp only
            rw [hadd]
          · -- an entry that can be read would have been added
            rintro _ _ heq
            cases heq
            cases hpart : what.part? with
            | none => rfl
            | some p =>
                obtain ⟨n, hn⟩ := add_part hpart b line
                rw [hadd] at hn
                exact absurd hn (by simp)

/-- Every builder grants the same entries. -/
theorem granted?_congr (b c : Builder) (request : Request) :
    b.granted? request = c.granted? request := by
  rcases perform_cases b request with ⟨what, line, p, rfl, hp, _, hb⟩ | ⟨_, hb, hnone⟩
  · rcases perform_cases c (.add what line) with ⟨_, _, _, heq, _, _, hc⟩ | ⟨_, _, hnone⟩
    · cases heq
      rw [hb, hc]
    · rw [hnone what line rfl] at hp
      exact absurd hp (by simp)
  · rcases perform_cases c request with ⟨what, line, p, rfl, hp, _, _⟩ | ⟨_, hc, _⟩
    · rw [hnone what line rfl] at hp
      exact absurd hp (by simp)
    · rw [hb, hc]

/-- What is granted in a session is what each request is granted by itself. -/
theorem granted_eq (b c : Builder) (requests : List Request) :
    b.granted requests = requests.filterMap c.granted? := by
  induction requests generalizing b with
  | nil => rfl
  | cons request requests ih =>
      rw [granted, ih, granted?_congr b c]
      cases hgranted : c.granted? request with
      | none => rw [List.filterMap_cons_none hgranted]; rfl
      | some what => rw [List.filterMap_cons_some hgranted]; rfl

/-- **Run.** After a session the builder holds what it was granted. -/
theorem Holds.after (h : b.Holds parts) (requests : List Request) :
    (b.after requests).Holds (parts ++ (b.granted requests).filterMap Addition.part?) := by
  induction requests generalizing b parts with
  | nil =>
      rw [granted, List.filterMap_nil, List.append_nil]
      exact h
  | cons request requests ih =>
      have hafter : b.after (request :: requests) = (b.perform request).1.after requests := rfl
      rw [hafter, granted]
      rcases perform_cases b request with ⟨what, line, p, _, hp, hnext, hgranted⟩ |
        ⟨hnext, hgranted, _⟩
      · rw [hnext, hgranted, Option.toList_some, List.singleton_append,
          List.filterMap_cons_some hp, List.append_cons]
        exact ih (h.insert_part hp line)
      · rw [hnext, hgranted]
        exact ih h

end Builder

/-! ## What a graph is built from -/

/--
**The entries of a graph form a set.**

Two sessions that were granted the same entries end alike: both can build a graph or
neither can, and the graphs have the same dependencies, the same links, and the same
dependencies are direct. Whether an entry is granted is settled by the request for it, so
requests that are refused or only ask can be left out or put in anywhere, and those that
are granted can be repeated and put in any order. Likewise for lock files, in either
format, that list the same entries.
-/
theorem Builder.build_depends_on_entries :
    (∀ (path path' : Option String) (requests requests' : List Request),
      (∀ what, what ∈ granted ⟨path, []⟩ requests ↔ what ∈ granted ⟨path', []⟩ requests') →
      EndAlike (after ⟨path, []⟩ requests).build (after ⟨path', []⟩ requests').build) ∧
    (∀ (b : Builder) (requests : List Request),
      b.granted requests = requests.filterMap (granted? {})) ∧
    ∀ (f : Format) (bytes bytes' : List UInt8) (path path' : Option String)
      (values values' : List Value),
      f.packages? bytes = some values → f.packages? bytes' = some values' →
      (∀ value, value ∈ values ↔ value ∈ values') →
      EndAlike (f.parse bytes path) (f.parse bytes' path') := by
  refine ⟨?_, fun b requests => granted_eq b {} requests, ?_⟩
  · intro path path' requests requests' hsame
    -- both builders hold what they were granted, and the graph follows from that
    have hfirst := (Holds.empty path).after requests
    have hsecond := (Holds.empty path').after requests'
    refine hfirst.endAlike hsecond fun p => ?_
    simp only [List.nil_append, List.mem_filterMap, hsame]
  · intro f bytes bytes' path path' values values' h h' hsame
    exact Format.parse_endAlike h h' hsame path path'

/-- A session with two entries for one dependency, and one that fails. -/
def Builder.sampleRequests : List Builder.Request := [
  .add ⟨"App", "1.0.0", none, ["lib"], false⟩ (some 1),
  .resolve "lib" none,
  .add ⟨"lib", "2.0.0+b1", some "registry", [], false⟩ (some 4),
  .add ⟨"lib", "two", some "registry", [], false⟩ none,
  .add ⟨"lib", "2.0.0", some "registry", [], true⟩ none]

/-- The same entries in another order, one of them twice, and nothing that fails. -/
def Builder.sampleRequests' : List Builder.Request := [
  .add ⟨"lib", "2.0.0", some "registry", [], true⟩ none,
  .add ⟨"lib", "2.0.0+b1", some "registry", [], false⟩ none,
  .build,
  .add ⟨"App", "1.0.0", none, ["lib"], false⟩ none,
  .add ⟨"lib", "2.0.0", some "registry", [], true⟩ none]

theorem Builder.build_depends_on_entries_sample :
    EndAlike (after {} sampleRequests).build (after {} sampleRequests').build ∧
    (after {} sampleRequests).build.toOption.isSome = true ∧
    EndAlike
      (Format.json.parse (Object.plainBytes
        [Object.plainEntry "a" "1.0.0", Object.plainEntry "b" "2.0.0"]) none)
      (Format.json.parse (Object.plainBytes
        [Object.plainEntry "b" "2.0.0", Object.plainEntry "a" "1.0.0",
          Object.plainEntry "b" "2.0.0"]) none) := by
  refine ⟨build_depends_on_entries.1 none none sampleRequests sampleRequests' ?_,
    by decide +kernel, build_depends_on_entries.2.2 .json _ _ none none _ _
      (Object.packages?_plainBytes ?_) (Object.packages?_plainBytes ?_) ?_⟩
  · have hfirst : granted {} sampleRequests = [
        ⟨"App", "1.0.0", none, ["lib"], false⟩, ⟨"lib", "2.0.0+b1", some "registry", [], false⟩,
        ⟨"lib", "2.0.0", some "registry", [], true⟩] := by decide +kernel
    have hsecond : granted {} sampleRequests' = [
        ⟨"lib", "2.0.0", some "registry", [], true⟩, ⟨"lib", "2.0.0+b1", some "registry", [], false⟩,
        ⟨"App", "1.0.0", none, ["lib"], false⟩, ⟨"lib", "2.0.0", some "registry", [], true⟩] := by
      decide +kernel
    -- the requests grant the same entries, in another order and one of them twice
    intro what
    rw [hfirst, hsecond]
    simp only [List.mem_cons, List.not_mem_nil, or_false]
    tauto
  · simp [Object.isPlain_plainEntry]
  · simp [Object.isPlain_plainEntry]
  · intro value
    simp only [List.mem_cons, List.not_mem_nil, or_false]
    tauto

end LockAudit.Lockfile

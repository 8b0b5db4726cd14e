import LockAudit.Proofs.Lockfile.Placing
import LockAudit.Proofs.Toml.Headers

/-!
# The lines of package headers

A defect of an entry is located by the header of its table. The headers are not those that
the decoder reads: they are searched for in the lines of the text, as lines that hold a
header and nothing else. What is found is a list of numbers, and the entries take the numbers
one after the other.

The two agree if three things hold (`IsPlain`). Line feeds alone end lines; each header
that is read stands alone on its line; and no other line looks like a header. Then a defect
has the line of the header of its entry. Without the second or the third the numbers are not
those of the headers, so entries get lines of other entries, or none: with a comment behind
the first header the first entry gets the line of the second one.
-/

namespace LockAudit.Lockfile.Cargo

variable {cs : List Char} {fields : Toml.Fields} {values : List Value}

/-- The line of each header of a package table that the decoder reads. -/
def headers (cs : List Char) : List Nat :=
  (Toml.listHeaders "package" cs).map (Text.lineAt (Toml.source cs))

/-- Nothing but line feeds ends a line, with the carriage return before it if there is one. -/
def EndsInFeeds (cs : List Char) : Prop :=
  ∀ c ∈ Toml.source cs, Text.isLineEnd c = true → c = '\n'

/-- The headers that are read are the lines that look like headers. -/
structure LooksAsRead (cs : List Char) : Prop where
  alone : ∀ start ∈ Toml.listHeaders "package" cs,
    Text.stripList (start.takeWhile (· ≠ '\n')) = "[[package]]".toList
  only : ∀ n line, (Text.splitOn '\n' (Toml.source cs))[n]? = some line →
    Text.stripList line = "[[package]]".toList → n + 1 ∈ headers cs

/-- The headers of the text can be told by their lines. -/
structure IsPlain (cs : List Char) : Prop where
  feeds : EndsInFeeds cs
  looks : LooksAsRead cs

/-! ## The lines that are found -/

theorem mem_headerLines {number : Nat} : number ∈ headerLines cs ↔
    ∃ n line, (Text.lines cs)[n]? = some line ∧ Text.stripList line = "[[package]]".toList ∧
      number = n + 1 := by
  unfold headerLines
  rw [List.mem_filterMap]
  constructor
  · rintro ⟨⟨line, k⟩, hmem, h⟩
    obtain ⟨hk, hline⟩ := List.mk_mem_zipIdx_iff_le_and_getElem?_sub.mp hmem
    dsimp only at h
    split at h
    · rename_i hlook
      obtain rfl := Option.some.inj h
      exact ⟨k - 1, line, hline, hlook, by omega⟩
    · exact absurd h (by simp)
  · rintro ⟨n, line, hline, hlook, rfl⟩
    refine ⟨(line, n + 1), List.mk_mem_zipIdx_iff_le_and_getElem?_sub.mpr ⟨by omega, hline⟩, ?_⟩
    exact if_pos hlook

theorem headerLines_increasing (cs : List Char) : (headerLines cs).Pairwise (· < ·) := by
  have hnumbers : ((Text.lines cs).zipIdx 1).Pairwise fun p q => p.2 < q.2 := by
    rw [← List.pairwise_map, List.zipIdx_map_snd]
    exact List.pairwise_lt_range' 1
  unfold headerLines
  rw [List.pairwise_filterMap]
  refine hnumbers.imp fun {p q} hlt number hp number' hq => ?_
  dsimp only at hp hq
  split at hp
  · split at hq
    · rwa [← Option.some.inj hp, ← Option.some.inj hq]
    · exact absurd hq (by simp)
  · exact absurd hp (by simp)

/-- Where line feeds alone end lines, the numbers that are found are counted to line feeds. -/
theorem mem_headerLines_feeds {number : Nat} (h : EndsInFeeds cs) : number ∈ headerLines cs ↔
    ∃ n line, (Text.splitOn '\n' (Toml.source cs))[n]? = some line ∧
      Text.stripList line = "[[package]]".toList ∧ number = n + 1 := by
  rw [mem_headerLines]
  refine exists_congr fun n => exists_congr fun line => ?_
  rw [← and_assoc, ← and_assoc]
  refine and_congr_left fun _ => and_congr_left fun hlook => Text.getElem?_lines ?_ h
  rintro rfl
  exact absurd hlook (by decide)

/-! ## The lines of headers -/

/-- White space before a text does not show once it is stripped. -/
theorem stripList_spaces {before : List Char} (h : ∀ c ∈ before, Toml.isSpace c = true)
    (cs : List Char) : Text.stripList (before ++ cs) = Text.stripList cs := by
  have hblank : ∀ c ∈ before, Text.isBlank c = true := by
    intro c hc
    have hspace := h c hc
    unfold Toml.isSpace at hspace
    rw [Bool.or_eq_true, decide_eq_true_eq, decide_eq_true_eq] at hspace
    rcases hspace with rfl | rfl <;> decide
  unfold Text.stripList
  rw [List.dropWhile_append_of_pos hblank]

/-- **When the numbers are those of the headers**, as long as line feeds alone end lines. -/
theorem headerLines_eq_iff (hdecode : Toml.decode cs = .ok fields) (hfeeds : EndsInFeeds cs) :
    headerLines cs = headers cs ↔ LooksAsRead cs := by
  -- the line on which a header stands looks like one if the header stands alone
  have hline {start : List Char} (hstart : start ∈ Toml.listHeaders "package" cs) :
      ∃ n line, (Text.splitOn '\n' (Toml.source cs))[n]? = some line ∧
        Text.stripList line = Text.stripList (start.takeWhile (· ≠ '\n')) ∧
        Text.lineAt (Toml.source cs) start = n + 1 := by
    obtain ⟨n, hn⟩ := Toml.listHeaders_standsOn hdecode start hstart
    obtain ⟨before, hspaces, hget⟩ := hn.line
    exact ⟨n, _, hget, stripList_spaces hspaces _, hn.lineAt_eq⟩
  constructor
  · intro heq
    constructor
    · intro start hstart
      obtain ⟨n, line, hget, hstrip, hnumber⟩ := hline hstart
      have hmem : n + 1 ∈ headerLines cs := by
        rw [heq, ← hnumber]
        exact List.mem_map_of_mem hstart
      obtain ⟨m, line', hget', hlook, hm⟩ := (mem_headerLines_feeds hfeeds).mp hmem
      obtain rfl := Nat.succ.inj hm
      obtain rfl := Option.some.inj (hget.symm.trans hget')
      rw [← hstrip, hlook]
    · intro n line hget hlook
      rw [← heq]
      exact (mem_headerLines_feeds hfeeds).mpr ⟨n, line, hget, hlook, rfl⟩
  · intro hlooks
    have hincreasing : (headers cs).Pairwise (· < ·) := Toml.listHeaders_increasing hdecode
    refine Sorting.eq_of_mem_iff ((headerLines_increasing cs).imp Nat.compare_eq_lt.mpr)
      (hincreasing.imp Nat.compare_eq_lt.mpr) fun number => ?_
    rw [mem_headerLines_feeds hfeeds]
    constructor
    · rintro ⟨n, line, hget, hlook, rfl⟩
      exact hlooks.only n line hget hlook
    · intro hmem
      obtain ⟨start, hstart, rfl⟩ := List.mem_map.mp hmem
      obtain ⟨n, line, hget, hstrip, hnumber⟩ := hline hstart
      exact ⟨n, line, hget, hstrip.trans (hlooks.alone start hstart), hnumber⟩

/-- Two entries of which the first has no version, with something behind its header. -/
def twoEntries (behind : List Char) : List Char :=
  "[[package]]".toList ++ behind ++
    "\nname = \"a\"\nversion = \"x\"\n\n[[package]]\nname = \"b\"\nversion = \"1.0.0\"\n".toList

/-- White space behind a header does no harm, and a carriage return with the line feed neither. -/
theorem isPlain_twoEntries : IsPlain (twoEntries [' ', '\r']) := by
  have hread : (Toml.decode (twoEntries [' ', '\r'])).toOption.isSome = true := by decide +kernel
  have hends : ((Toml.source (twoEntries [' ', '\r'])).filter Text.isLineEnd).all (· = '\n') = true := by
    decide +kernel
  have hlines : headerLines (twoEntries [' ', '\r']) = headers (twoEntries [' ', '\r']) := by
    decide +kernel
  have hfeeds : EndsInFeeds (twoEntries [' ', '\r']) := by
    intro c hc hend
    exact of_decide_eq_true (List.all_eq_true.mp hends c (List.mem_filter.mpr ⟨hc, hend⟩))
  obtain ⟨fields, hdecode⟩ := Result.isSome_toOption.mp hread
  exact ⟨hfeeds, (headerLines_eq_iff hdecode hfeeds).mp hlines⟩

/-! ## Failures -/

theorem exists_decode (h : Format.cargo.listed? cs = some values) :
    ∃ fields, Toml.decode cs = .ok fields ∧
      Value.list? ((Value.lookup? "package" fields).getD (.list [])) = some values := by
  unfold Format.listed? at h
  dsimp only at h
  split at h
  · rename_i fields hdecode
    exact ⟨fields, hdecode, h⟩
  · exact absurd h (by simp)

/-- If there are headers, there is one for each entry. -/
theorem length_headers (h : Format.cargo.listed? cs = some values)
    (hheaders : headers cs ≠ []) : (headers cs).length = values.length := by
  obtain ⟨fields, hdecode, hvalues⟩ := exists_decode h
  have hne : Toml.listHeaders "package" cs ≠ [] := fun heq => hheaders (by rw [headers, heq]; rfl)
  have hlength := Toml.length_of_listHeaders hdecode hne
  unfold Toml.listLength? at hlength
  obtain ⟨items, hitems, hlength⟩ := Option.map_eq_some_iff.mp hlength
  obtain ⟨packages, hpackages, hitems⟩ := Option.bind_eq_some_iff.mp hitems
  rw [hpackages, Option.getD_some, hitems] at hvalues
  rw [headers, List.length_map, ← hlength, Option.some.inj hvalues]

/-- **Where the defects of entries are placed.** In a plain text the failure of an entry has the
line of its header. In any text it has the number that was found for the entry, if there is one;
every failure is that of an entry, and there are as many headers as entries if there are any. As
long as line feeds alone end lines, the numbers are those of the headers exactly if the headers
that are read are the lines that look like headers. -/
theorem placing_exact {bytes : List UInt8} (path : Option String)
    (hbytes : Text.Utf8.decode bytes = .ok cs) (hlisted : Format.cargo.listed? cs = some values) :
    (IsPlain cs → ∀ i e, Format.cargo.StopsAt values (headerLines cs) path i e →
      IsAt (headers cs)[i]? path e ∨ IsNumber e) ∧
    (∀ i e, Format.cargo.StopsAt values (headerLines cs) path i e →
      i < values.length ∧ (IsAt (headerLines cs)[i]? path e ∨ IsNumber e)) ∧
    (∀ e, Format.cargo.parse bytes path = .error e ↔
      ∃ i, Format.cargo.StopsAt values (headerLines cs) path i e) ∧
    (headers cs ≠ [] → (headers cs).length = values.length) ∧
    (EndsInFeeds cs → (headerLines cs = headers cs ↔ LooksAsRead cs)) := by
  obtain ⟨fields, hdecode, _⟩ := exists_decode hlisted
  refine ⟨?_, ?_, ?_, length_headers hlisted, headerLines_eq_iff hdecode⟩
  · intro hplain i e hstops
    rw [← (headerLines_eq_iff hdecode hplain.feeds).mpr hplain.looks]
    exact hstops.isAt
  · intro i e hstops
    exact ⟨hstops.lt_length, hstops.isAt⟩
  · intro e
    rw [Format.parse_of_decode hbytes]
    exact Format.parseText_error_at hlisted

/-- The first entry has the line of its header. With a comment behind the header it has the line
of the second one. -/
theorem placing_exact_twoEntries :
    (∃ values i d, (headers (twoEntries [' ', '\r']))[i]? = some 1 ∧
      Format.cargo.StopsAt values (headerLines (twoEntries [' ', '\r'])) none i
        (.lockfile d ⟨some 1, none⟩)) ∧
    ∃ values i d, (headers (twoEntries " # first".toList))[i]? = some 1 ∧
      Format.cargo.StopsAt values (headerLines (twoEntries " # first".toList)) none i
        (.lockfile d ⟨some 5, none⟩) := by
  -- the reader's refusal names the line, and by the law some entry is the one it stops at
  have hstops {cs : List Char} {d : Defect} {line : Nat}
      (hlisted : (Format.cargo.listed? cs).isSome = true)
      (hparse : Format.cargo.parseText cs none = .error (.lockfile d ⟨some line, none⟩)) :
      ∃ values i, Format.cargo.StopsAt values (headerLines cs) none i
          (.lockfile d ⟨some line, none⟩) ∧
        (headerLines cs)[i]? = some line ∧ (IsPlain cs → (headers cs)[i]? = some line) := by
    obtain ⟨values, hvalues⟩ := Option.isSome_iff_exists.mp hlisted
    have hdecode := Text.Utf8.decode_encode cs
    obtain ⟨hplain, hplaced, hrefused, _⟩ := placing_exact none hdecode hvalues
    rw [← Format.parse_of_decode hdecode] at hparse
    obtain ⟨i, hi⟩ := (hrefused _).mp hparse
    have hline {number : Option Nat} (hat : IsAt number none (.lockfile d ⟨some line, none⟩) ∨
        IsNumber (.lockfile d ⟨some line, none⟩)) : number = some line := by
      rcases hat with ⟨d', hat⟩ | ⟨cause, hnumber⟩
      · cases hat
        rfl
      · exact absurd hnumber (by simp)
    exact ⟨values, i, hi, hline (hplaced i _ hi).2, fun h => hline (hplain h i _ hi)⟩
  constructor
  · have hparse : Format.cargo.parseText (twoEntries [' ', '\r']) none =
        .error (.lockfile (.unresolvedVersion "a" "x") ⟨some 1, none⟩) :=
      Result.error_of_error? (by decide +kernel)
    obtain ⟨values, i, hi, _, hheader⟩ := hstops (by decide +kernel) hparse
    exact ⟨values, i, _, hheader isPlain_twoEntries, hi⟩
  · have hparse : Format.cargo.parseText (twoEntries " # first".toList) none =
        .error (.lockfile (.unresolvedVersion "a" "x") ⟨some 5, none⟩) :=
      Result.error_of_error? (by decide +kernel)
    -- only one line is numbered, so the entry with a number is the first, whose header is line 1
    have hlines : headerLines (twoEntries " # first".toList) = [5] := by decide +kernel
    have hheaders : headers (twoEntries " # first".toList) = [1, 5] := by decide +kernel
    obtain ⟨values, i, hi, hnumber, _⟩ := hstops (by decide +kernel) hparse
    rw [hlines] at hnumber
    cases i with
    | zero => exact ⟨values, 0, _, by rw [hheaders]; rfl, hi⟩
    | succ i => exact absurd hnumber (by simp)

end LockAudit.Lockfile.Cargo

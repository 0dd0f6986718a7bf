import PromptMarkup.Library.ValueFile
import PromptMarkup.Proofs.TrimmedText

/-!
# Lines of values

A line holds at most one value.  Around the value there may be blank characters, and a comment
may follow it after a blank character; a line may also be blank or hold a comment only.  In a value
each number sign is escaped by the backslash before it.  A text that lists values in such lines
is read back as those values, and all values that are read can be listed again.

Main statements:

- {lit}`lineValue?_of_holds`: the value of a line is the one that it holds.
- {lit}`lineValue_of_lineValue?`: every value that is read from a line can be written on one.
- {lit}`values_listing`: files that list values are read back, as is what was read from any file.
-/

namespace PromptMarkup

/-! ## The grammar of lines -/

/-- Blank characters within a line. -/
def IsSpace (text : Text) : Prop :=
  ∀ c ∈ text, isBlank c = true ∧ isLineEnd c = false

/-- A text without line ends. -/
def OneLine (text : Text) : Prop :=
  ∀ c ∈ text, isLineEnd c = false

instance (text : Text) : Decidable (IsSpace text) :=
  List.decidableBAll (fun c => isBlank c = true ∧ isLineEnd c = false) text

instance (text : Text) : Decidable (OneLine text) :=
  List.decidableBAll (fun c => isLineEnd c = false) text

/-- Each number sign comes right after a backslash. -/
def EscapesMarks (text : Text) : Prop :=
  ∀ before after, text = before ++ '#' :: after → before.getLast? = some '\\'

/-- A value that can be written on a line. -/
structure LineValue (value : Text) : Prop where
  nonempty : value ≠ []
  trimmed : Trimmed value
  oneLine : OneLine value
  escapes : EscapesMarks value

/-- What a line holds: no value if it is blank or a comment, else the value in it. -/
inductive Holds : Option Text → Text → Prop where
  | blank {space : Text} (hspace : IsSpace space) : Holds none space
  | comment {space note : Text} (hspace : IsSpace space) (hnote : OneLine note) :
      Holds none (space ++ '#' :: note)
  | value {before value after : Text} (hbefore : IsSpace before) (hvalue : LineValue value)
      (hafter : IsSpace after) : Holds (some value) (before ++ value ++ after)
  | noted {before value gap note : Text} (hbefore : IsSpace before) (hvalue : LineValue value)
      (hgap : IsSpace gap) (hne : gap ≠ []) (hnote : OneLine note) :
      Holds (some value) (before ++ value ++ gap ++ '#' :: note)

/-- The ways to end a line. -/
inductive LineEnd where
  | lineFeed
  | returnFeed
  | carriageReturn
deriving DecidableEq, Repr

/-- The characters that end a line. -/
def LineEnd.text : LineEnd → Text
  | .lineFeed => ['\n']
  | .returnFeed => ['\r', '\n']
  | .carriageReturn => ['\r']

/-- A text that lists values in its lines, each line with an end of its own.  The last line needs
none. -/
inductive Listing : List Text → Text → Prop where
  | last {held : Option Text} {line : Text} (hline : Holds held line) : Listing held.toList line
  | line {held : Option Text} {line rest : Text} {values : List Text} (lineEnd : LineEnd)
      (hline : Holds held line) (hrest : Listing values rest) :
      Listing (held.toList ++ values) (line ++ lineEnd.text ++ rest)

/-- Values written one on a line, each with an end of its own. -/
def writeLines (lines : List (Text × LineEnd)) : Text :=
  lines.flatMap fun (value, lineEnd) => value ++ lineEnd.text

/-! ## Lines -/

/-- A text without line ends is its only line. -/
theorem OneLine.textLines {line : Text} (h : OneLine line) : textLines line = [line] := by
  induction line with
  | nil => rfl
  | cons c line ih =>
    have hrest : OneLine line := fun other hother => h other (List.mem_cons_of_mem _ hother)
    simp [PromptMarkup.textLines, h c List.mem_cons_self, ih hrest]

/-- A line goes on to its end. -/
theorem textLines_append {line : Text} (h : OneLine line) {c : Char} (hend : isLineEnd c = true)
    (rest : Text) : textLines (line ++ c :: rest) = line :: textLines rest := by
  induction line with
  | nil => simp [textLines, hend]
  | cons d line ih =>
    have hline : OneLine line := fun other hother => h other (List.mem_cons_of_mem _ hother)
    simp [textLines, h d List.mem_cons_self, ih hline]

/-- There is no line end in a line. -/
theorem oneLine_of_mem_textLines {text line : Text} (h : line ∈ textLines text) :
    OneLine line := by
  induction text generalizing line with
  | nil =>
    rw [textLines, List.mem_singleton] at h
    subst h
    nofun
  | cons c rest ih =>
    rw [textLines] at h
    split at h
    · rcases List.mem_cons.mp h with rfl | hrest
      · nofun
      · exact ih hrest
    · rename_i hend
      have hc : isLineEnd c = false := Bool.eq_false_iff.mpr hend
      cases hlines : textLines rest with
      | nil =>
        rw [hlines, List.mem_singleton] at h
        subst h
        simpa [OneLine] using hc
      | cons first others =>
        rw [hlines] at h ih
        rcases List.mem_cons.mp h with rfl | hothers
        · have hfirst : OneLine first := ih List.mem_cons_self
          exact List.forall_mem_cons.mpr ⟨hc, hfirst⟩
        · exact ih (List.mem_cons_of_mem _ hothers)

/-- The value of a line comes before those of the lines after it. -/
theorem textValues_append {line : Text} (h : OneLine line) (lineEnd : LineEnd) (rest : Text) :
    textValues (line ++ lineEnd.text ++ rest) = (lineValue? line).toList ++ textValues rest := by
  have hvalue : ∀ lines : List Text, (line :: lines).filterMap lineValue? =
      (lineValue? line).toList ++ lines.filterMap lineValue? := by
    intro lines
    cases hline : lineValue? line <;> simp [hline]
  rw [textValues, List.append_assoc]
  cases lineEnd with
  | lineFeed => rw [LineEnd.text, List.singleton_append, textLines_append h rfl, hvalue]; rfl
  | carriageReturn => rw [LineEnd.text, List.singleton_append, textLines_append h rfl, hvalue]; rfl
  | returnFeed =>
    -- The line between the two characters is empty.
    rw [LineEnd.text, List.cons_append, List.singleton_append, textLines_append h rfl, hvalue]
    rfl

/-! ## Comments -/

/-- Whether a number sign after a text would be escaped. -/
def endsEscaped (escaped : Bool) (text : Text) : Bool :=
  (text.getLast?.map fun c => decide (c = '\\')).getD escaped

/-- What comes before a comment is followed by what comes before it further on. -/
theorem beforeComment_append {escaped : Bool} {first : Text}
    (h : beforeComment escaped first = first) (second : Text) :
    beforeComment escaped (first ++ second) =
      first ++ beforeComment (endsEscaped escaped first) second := by
  induction first generalizing escaped with
  | nil => rfl
  | cons c first ih =>
    rw [beforeComment] at h
    split at h
    · cases h
    · rename_i hgo
      have hfirst := ih (List.cons.inj h).2
      rw [List.cons_append, beforeComment, if_neg hgo, hfirst]
      cases first with
      | nil => rfl
      | cons d first => rfl

/-- A comment does not begin before the end exactly if every number sign is escaped. -/
theorem beforeComment_eq_self_iff {escaped : Bool} {text : Text} :
    beforeComment escaped text = text ↔
      ∀ before after, text = before ++ '#' :: after → endsEscaped escaped before = true := by
  induction text generalizing escaped with
  | nil => simp [beforeComment]
  | cons c rest ih =>
    rw [beforeComment]
    by_cases hstop : c = '#' ∧ !escaped
    · rw [if_pos hstop]
      rcases hstop with ⟨rfl, hplain⟩
      refine iff_of_false nofun fun h => ?_
      have hescaped : escaped = true := h [] rest rfl
      simp [hescaped] at hplain
    · rw [if_neg hstop, List.cons.injEq]
      simp only [true_and, ih]
      constructor
      · rintro h (_ | ⟨d, before⟩) after hsplit
        · cases hsplit
          show escaped = true
          simpa using hstop
        · cases hsplit
          have hbefore := h before after rfl
          cases before <;> exact hbefore
      · rintro h before after rfl
        have hbefore := h (c :: before) after rfl
        cases before <;> exact hbefore

/-- What comes before a comment has none in it. -/
theorem beforeComment_beforeComment (escaped : Bool) (text : Text) :
    beforeComment escaped (beforeComment escaped text) = beforeComment escaped text := by
  induction text generalizing escaped with
  | nil => rfl
  | cons c rest ih =>
    rw [beforeComment]
    split
    · rfl
    · rename_i hgo
      rw [beforeComment, if_neg hgo, ih]

/-- What comes before a comment is part of the text. -/
theorem beforeComment_sublist (escaped : Bool) (text : Text) :
    (beforeComment escaped text).Sublist text := by
  induction text generalizing escaped with
  | nil => exact List.Sublist.slnil
  | cons c rest ih =>
    rw [beforeComment]
    split
    · exact List.nil_sublist _
    · exact (ih _).cons_cons c

/-- At the start of a line no number sign is escaped. -/
theorem escapesMarks_iff {text : Text} :
    EscapesMarks text ↔ beforeComment false text = text := by
  have hlast : ∀ before : Text, endsEscaped false before = true ↔
      before.getLast? = some '\\' := by
    intro before
    cases hbefore : before.getLast? <;> simp [endsEscaped, hbefore]
  simp only [EscapesMarks, beforeComment_eq_self_iff, hlast]

instance (text : Text) : Decidable (EscapesMarks text) :=
  decidable_of_iff _ escapesMarks_iff.symm

/-- Blank characters escape nothing and have no number sign in them. -/
theorem EscapesMarks.append_space {text space : Text} (h : EscapesMarks text)
    (hspace : IsSpace space) : EscapesMarks (text ++ space) := by
  rw [escapesMarks_iff] at h ⊢
  rw [beforeComment_append h]
  congr 1
  refine beforeComment_eq_self_iff.mpr fun before after hsplit => ?_
  have hmark := (hspace '#' (by simp [hsplit])).1
  exact absurd hmark (by decide)

/-- Trimming leaves escaped what is escaped. -/
theorem EscapesMarks.trim {text : Text} (h : EscapesMarks text) : EscapesMarks (trim text) := by
  intro before after hsplit
  rcases exists_trim_append text with ⟨start, last, htext, hstart, -⟩
  have hlast := h (start ++ before) (after ++ last) (by rw [htext, hsplit]; simp)
  cases hbefore : before.getLast? with
  | some c => simpa [List.getLast?_append, hbefore] using hlast
  | none =>
    -- The backslash would be one of the blank characters that are trimmed away.
    have hslash : '\\' ∈ start := by
      rw [List.getLast?_append, hbefore, Option.none_or] at hlast
      exact List.mem_of_getLast? hlast
    exact absurd (hstart _ hslash) (by decide)

instance (value : Text) : Decidable (LineValue value) :=
  decidable_of_iff (value ≠ [] ∧ Trimmed value ∧ OneLine value ∧ EscapesMarks value)
    ⟨fun h => ⟨h.1, h.2.1, h.2.2.1, h.2.2.2⟩,
      fun h => ⟨h.nonempty, h.trimmed, h.oneLine, h.escapes⟩⟩

/-! ## The value of a line -/

/-- The value of a line is what is left before its comment, trimmed. -/
theorem lineValue?_eq_some_iff {line value : Text} :
    lineValue? line = some value ↔
      value ≠ [] ∧ trim (beforeComment false (trim line)) = value := by
  unfold lineValue?
  split
  · simp_all
  · rename_i hne
    rw [Option.some.injEq]
    constructor
    · rintro rfl
      exact ⟨hne, rfl⟩
    · exact And.right

/-- A line without a value has nothing before its comment. -/
theorem lineValue?_eq_none_iff {line : Text} :
    lineValue? line = none ↔ trim (beforeComment false (trim line)) = [] := by
  unfold lineValue?
  split <;> simp_all

/-- Texts without line ends one after the other have none. -/
theorem OneLine.append {first second : Text} (h : OneLine first) (h' : OneLine second) :
    OneLine (first ++ second) :=
  fun c hc => (List.mem_append.mp hc).elim (h c) (h' c)

/-- There is no line end in a comment. -/
theorem OneLine.comment {note : Text} (h : OneLine note) : OneLine ('#' :: note) :=
  List.forall_mem_cons.mpr ⟨rfl, h⟩

/-- Blank characters within a line do not end it. -/
theorem IsSpace.oneLine {space : Text} (h : IsSpace space) : OneLine space :=
  fun c hc => (h c hc).2

/-- Blank characters within a line are blank. -/
theorem IsSpace.isBlank {space : Text} (h : IsSpace space) : ∀ c ∈ space, isBlank c = true :=
  fun c hc => (h c hc).1

/-- A number sign after blank characters is not escaped. -/
theorem endsEscaped_append_space {space : Text} (h : IsSpace space) (hne : space ≠ [])
    (text : Text) : endsEscaped false (text ++ space) = false := by
  rw [endsEscaped, List.getLast?_append_of_ne_nil _ hne, List.getLast?_eq_some_getLast hne]
  have hlast : space.getLast hne ≠ '\\' := by
    intro hslash
    have hblank := h.isBlank _ (List.getLast_mem hne)
    rw [hslash] at hblank
    exact absurd hblank (by decide)
  simp [hlast]

/-- A line of a listing is one line. -/
theorem Holds.oneLine {held : Option Text} {line : Text} (h : Holds held line) :
    OneLine line := by
  cases h with
  | blank hspace => exact hspace.oneLine
  | comment hspace hnote => exact hspace.oneLine.append hnote.comment
  | value hbefore hvalue hafter =>
    exact (hbefore.oneLine.append hvalue.oneLine).append hafter.oneLine
  | noted hbefore hvalue hgap _ hnote =>
    exact ((hbefore.oneLine.append hvalue.oneLine).append hgap.oneLine).append hnote.comment

/-- The value of a line is the one that it holds. -/
theorem lineValue?_of_holds {held : Option Text} {line : Text} (h : Holds held line) :
    lineValue? line = held := by
  have hmark : isBlank '#' = false := by decide
  cases h with
  | blank hspace =>
    have htrim : trim line = [] := trim_eq_nil_iff.mpr hspace.isBlank
    rw [lineValue?_eq_none_iff, htrim]
    rfl
  | @comment space note hspace hnote =>
    rcases exists_trimmed_cons hmark note with ⟨kept, after, rfl, hkept, hafter⟩
    have htrim : trim (space ++ ('#' :: kept) ++ after) = '#' :: kept :=
      trim_append_append hspace.isBlank hkept hafter
    rw [List.append_assoc] at htrim
    rw [lineValue?_eq_none_iff, ← List.cons_append, htrim]
    rfl
  | @value before value after hbefore hvalue hafter =>
    have htrim : trim (before ++ value ++ after) = value :=
      trim_append_append hbefore.isBlank hvalue.trimmed hafter.isBlank
    rw [lineValue?_eq_some_iff, htrim, escapesMarks_iff.mp hvalue.escapes]
    exact ⟨hvalue.nonempty, hvalue.trimmed.trim_eq⟩
  | @noted before value gap note hbefore hvalue hgap hne hnote =>
    rcases exists_trimmed_cons hmark note with ⟨kept, after, rfl, hkept, hafter⟩
    have hshown : Trimmed (value ++ gap ++ '#' :: kept) :=
      hvalue.trimmed.between hvalue.nonempty hkept (List.cons_ne_nil _ _) gap
    have htrim : trim (before ++ value ++ gap ++ '#' :: (kept ++ after)) =
        value ++ gap ++ '#' :: kept := by
      simpa using trim_append_append hbefore.isBlank hshown hafter
    have hescapes : beforeComment false (value ++ gap) = value ++ gap :=
      escapesMarks_iff.mp (hvalue.escapes.append_space hgap)
    have hbefore : beforeComment false (value ++ gap ++ '#' :: kept) = value ++ gap := by
      rw [beforeComment_append hescapes, endsEscaped_append_space hgap hne]
      exact List.append_nil _
    have hvalueTrim : trim (value ++ gap) = value :=
      trim_append_append (List.forall_mem_nil _) hvalue.trimmed hgap.isBlank
    rw [lineValue?_eq_some_iff, htrim, hbefore]
    exact ⟨hvalue.nonempty, hvalueTrim⟩

/-- Every value that is read from a line can be written on one. -/
theorem lineValue_of_lineValue? {line value : Text} (hline : OneLine line)
    (h : lineValue? line = some value) : LineValue value := by
  rcases lineValue?_eq_some_iff.mp h with ⟨hne, rfl⟩
  have hescapes : EscapesMarks (beforeComment false (trim line)) :=
    escapesMarks_iff.mpr (beforeComment_beforeComment false _)
  have hsublist : (trim (beforeComment false (trim line))).Sublist line :=
    ((trim_sublist _).trans (beforeComment_sublist _ _)).trans (trim_sublist _)
  exact ⟨hne, trimmed_trim _, fun c hc => hline c (hsublist.subset hc), hescapes.trim⟩

/-! ## Files of values -/

/-- The file with a text in it. -/
def Entry.ofText (text : Text) : Entry :=
  .file (String.ofList text).toUTF8

/-- The values in a file are those in its text. -/
theorem Entry.values_ofText (text : Text) : (Entry.ofText text).values = textValues text := by
  have hread : String.fromUTF8? (String.ofList text).toUTF8 = some (String.ofList text) :=
    dif_pos (String.ofList text).isValidUTF8
  simp only [Entry.ofText, Entry.values, hread, String.toList_ofList]

/-- The values of a listing are read from its text. -/
theorem Listing.textValues_eq {values : List Text} {text : Text} (h : Listing values text) :
    textValues text = values := by
  induction h with
  | @last held line hline =>
    rw [textValues, hline.oneLine.textLines, ← lineValue?_of_holds hline]
    cases hvalue : lineValue? line <;> simp [hvalue]
  | line lineEnd hline _ ih =>
    rw [textValues_append hline.oneLine, lineValue?_of_holds hline, ih]

/-- Values that are written one on a line are listed. -/
theorem listing_writeLines {lines : List (Text × LineEnd)}
    (h : ∀ line ∈ lines, LineValue line.1) : Listing (lines.map (·.1)) (writeLines lines) := by
  induction lines with
  | nil =>
    have hblank : Holds none [] := .blank nofun
    exact .last hblank
  | cons line lines ih =>
    have hvalue : Holds (some line.1) ([] ++ line.1 ++ []) :=
      .value nofun (h line List.mem_cons_self) nofun
    rw [List.nil_append, List.append_nil] at hvalue
    exact .line line.2 hvalue (ih fun other hother => h other (List.mem_cons_of_mem _ hother))

/-- The values that are read from a file can each be written on a line. -/
theorem Entry.lineValue_of_mem_values {entry : Entry} {value : Text} (h : value ∈ entry.values) :
    LineValue value := by
  cases entry with
  | folder entries => cases h
  | file content =>
    rw [Entry.values] at h
    split at h
    · rcases List.mem_filterMap.mp h with ⟨line, hline, hvalue⟩
      exact lineValue_of_lineValue? (oneLine_of_mem_textLines hline) hvalue
    · cases h

/-- Values are read back as they were written.  Values that each fit on a line are read from the
file that has one on each line, however the lines end, and also where there are blank characters
and comments around the values and in lines between them.  The values that are read from any file
fit on a line each, so they can be written and read again. -/
theorem Entry.values_listing :
    (∀ lines : List (Text × LineEnd), (∀ line ∈ lines, LineValue line.1) →
      (Entry.ofText (writeLines lines)).values = lines.map (·.1)) ∧
    (∀ values text, Listing values text → (Entry.ofText text).values = values) ∧
    ∀ content : ByteArray, (∀ value ∈ (Entry.file content).values, LineValue value) ∧
      ∀ lines : List (Text × LineEnd), lines.map (·.1) = (Entry.file content).values →
        (Entry.ofText (writeLines lines)).values = (Entry.file content).values := by
  have hlisted : ∀ values text, Listing values text → (Entry.ofText text).values = values := by
    intro values text h
    rw [Entry.values_ofText, h.textValues_eq]
  refine ⟨fun lines h => hlisted _ _ (listing_writeLines h), hlisted, fun content => ?_⟩
  refine ⟨fun value => Entry.lineValue_of_mem_values, fun lines hlines => ?_⟩
  rw [hlisted _ _ (listing_writeLines fun line hline => ?_), hlines]
  exact Entry.lineValue_of_mem_values (hlines ▸ List.mem_map_of_mem hline)

/-- A comment, a value with blank characters and a comment around it, a blank line, and a value with
a number sign, with lines that end in three ways; and the two values on a line each. -/
theorem Entry.values_listing_seasons :
    (∀ line ∈ [("spring".toList, LineEnd.returnFeed), ("a\\#b".toList, .carriageReturn)],
      LineValue line.1) ∧
    (Entry.ofText (writeLines
      [("spring".toList, .returnFeed), ("a\\#b".toList, .carriageReturn)])).values =
        ["spring".toList, "a\\#b".toList] ∧
    Listing ["spring".toList, "a\\#b".toList] "# s\r\n\tspring #c\r \na\\#b".toList ∧
    (Entry.ofText "# s\r\n\tspring #c\r \na\\#b".toList).values =
      ["spring".toList, "a\\#b".toList] ∧
    (Entry.ofText (writeLines
      [("spring".toList, .lineFeed), ("a\\#b".toList, .lineFeed)])).values =
        (Entry.ofText "# s\r\n\tspring #c\r \na\\#b".toList).values := by
  have hvalues : ∀ line ∈ [("spring".toList, LineEnd.returnFeed),
      ("a\\#b".toList, .carriageReturn)], LineValue line.1 := by decide
  have hspring : LineValue "spring".toList := by decide
  have hlast : Holds (some "a\\#b".toList) ([] ++ "a\\#b".toList ++ []) :=
    .value nofun (by decide) nofun
  have hblank : Holds none [' '] := .blank (by decide)
  have hnoted : Holds (some "spring".toList) (['\t'] ++ "spring".toList ++ [' '] ++ '#' :: ['c']) :=
    .noted (by decide) hspring (by decide) (by decide) (by decide)
  have hcomment : Holds none ([] ++ '#' :: " s".toList) := .comment nofun (by decide)
  have hlisting : Listing ["spring".toList, "a\\#b".toList]
      "# s\r\n\tspring #c\r \na\\#b".toList :=
    .line .returnFeed hcomment (.line .carriageReturn hnoted (.line .lineFeed hblank (.last hlast)))
  have hread := Entry.values_listing.2.1 _ _ hlisting
  refine ⟨hvalues, Entry.values_listing.1 _ hvalues, hlisting, hread, ?_⟩
  exact (Entry.values_listing.2.2 _).2 _ hread.symm

end PromptMarkup

import PromptMarkup.Text.Blank

/-!
# Groups of options

A group stands in parentheses and holds options with bars between them.  Only the
parentheses decide where a group closes, and a bar inside an inner group belongs
to that group.

Main statements:

- {lit}`length_of_groupClose?`: what stands in a group and what follows it make up
  the text after the opening parenthesis, but for the closing one.
- {lit}`sublist_of_mem_groupOptions`: an option is part of the text it was read from.
-/

namespace PromptMarkup

/-! ## The closing parenthesis -/

/-- Read on inside a group in which {lit}`depth` inner groups are open: what stands
before its closing parenthesis, and what follows it. -/
def groupClose? (depth : Nat) : Text → Option (Text × Text)
  | [] => none
  | c :: rest =>
    if c = '(' then (groupClose? (depth + 1) rest).map fun (inside, after) => (c :: inside, after)
    else if c = ')' then
      match depth with
      | 0 => some ([], rest)
      | depth + 1 => (groupClose? depth rest).map fun (inside, after) => (c :: inside, after)
    else (groupClose? depth rest).map fun (inside, after) => (c :: inside, after)

/-- What stands in a group, its closing parenthesis and what follows make up the
text. -/
theorem append_of_groupClose? {depth : Nat} {text inside after : Text}
    (h : groupClose? depth text = some (inside, after)) :
    text = inside ++ ')' :: after := by
  induction text generalizing depth inside after with
  | nil => simp [groupClose?] at h
  | cons c rest ih =>
    unfold groupClose? at h
    split at h
    · obtain ⟨⟨i, a⟩, hrest, heq⟩ := Option.map_eq_some_iff.mp h
      cases heq
      simp [ih hrest]
    · split at h
      · rename_i hclose
        cases depth with
        | zero =>
          cases h
          simp [hclose]
        | succ depth =>
          obtain ⟨⟨i, a⟩, hrest, heq⟩ := Option.map_eq_some_iff.mp h
          cases heq
          simp [ih hrest]
      · obtain ⟨⟨i, a⟩, hrest, heq⟩ := Option.map_eq_some_iff.mp h
        cases heq
        simp [ih hrest]

/-- Both parts of a closed group together are shorter than the text. -/
theorem length_of_groupClose? {depth : Nat} {text inside after : Text}
    (h : groupClose? depth text = some (inside, after)) :
    inside.length + after.length + 1 = text.length := by
  simp [append_of_groupClose? h]
  omega

/-! ## Options -/

/-- The nesting depth after a character; it never falls below zero. -/
def depthAfter (depth : Nat) (c : Char) : Nat :=
  if c = '(' then depth + 1
  else if c = ')' then depth - 1
  else depth

/-- Put a character before the first part. -/
def consPart (c : Char) : List Text → List Text
  | [] => [[c]]
  | part :: rest => (c :: part) :: rest

/-- The parts between the bars outside inner groups, at a nesting depth. -/
def rawParts (depth : Nat) : Text → List Text
  | [] => [[]]
  | c :: rest =>
    if c = '|' ∧ depth = 0 then [] :: rawParts 0 rest
    else consPart c (rawParts (depthAfter depth c) rest)

/-- The trimmed parts of a text, blank ones included. -/
def splitOptions (text : Text) : List Text :=
  (rawParts 0 text).map trim

/-- The options of a group: its trimmed parts that are not blank. -/
def groupOptions (text : Text) : List Text :=
  (splitOptions text).filter fun part => !part.isEmpty

/-- Read a group after its opening parenthesis: two parts at least, of which one is
not blank.  The result is the options and what follows the group. -/
def readGroup? (text : Text) : Option (List Text × Text) :=
  match groupClose? 0 text with
  | none => none
  | some (inside, after) =>
    if 2 ≤ (splitOptions inside).length ∧ groupOptions inside ≠ [] then
      some (groupOptions inside, after)
    else none

/-- What follows a group is shorter than the text after its opening parenthesis. -/
theorem length_of_readGroup? {text after : Text} {opts : List Text}
    (h : readGroup? text = some (opts, after)) : after.length < text.length := by
  unfold readGroup? at h
  split at h
  · cases h
  · rename_i hclose
    split at h
    · cases h
      have := length_of_groupClose? hclose
      omega
    · cases h

/-- A part of a text is a sublist of the text. -/
theorem sublist_of_mem_rawParts {depth : Nat} {text part : Text}
    (h : part ∈ rawParts depth text) : part.Sublist text := by
  induction text generalizing depth part with
  | nil =>
    simp only [rawParts, List.mem_singleton] at h
    simp [h]
  | cons c rest ih =>
    unfold rawParts at h
    split at h
    · rcases List.mem_cons.mp h with rfl | h
      · exact List.nil_sublist _
      · exact (ih h).cons c
    · cases hparts : rawParts (depthAfter depth c) rest with
      | nil =>
        rw [hparts] at h
        simp only [consPart, List.mem_singleton] at h
        simp [h]
      | cons first others =>
        rw [hparts] at h
        rcases List.mem_cons.mp h with rfl | h
        · exact (ih (by rw [hparts]; exact List.mem_cons_self)).cons_cons c
        · exact (ih (by rw [hparts]; exact List.mem_cons_of_mem _ h)).cons c

/-- An option of a text is a sublist of the text. -/
theorem sublist_of_mem_groupOptions {text option : Text} (h : option ∈ groupOptions text) :
    option.Sublist text := by
  obtain ⟨hmem, -⟩ := List.mem_filter.mp h
  obtain ⟨part, hpart, rfl⟩ := List.mem_map.mp hmem
  exact (trim_sublist part).trans (sublist_of_mem_rawParts hpart)

end PromptMarkup

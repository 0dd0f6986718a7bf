import PromptMarkup.Draw.Source
import PromptMarkup.Markup.Group

/-!
# Expansion of groups

Expansion replaces each group of options in a text by one of them, drawn in
document order; groups in an option that was drawn are expanded in turn, down to
some depth.  A parenthesis that starts no group with an option stays, and draws
nothing.

The work is kept on a stack of texts that are still to be expanded, each with its
depth: an option that was drawn goes on top of the rest of its text.  The stack
empties because every group takes an opening parenthesis away.

Main statement:

- {lit}`count_of_nextGroup?`: an option and what follows a group have fewer opening
  parentheses than the text.
-/

namespace PromptMarkup

/-- A group in a text: what stands before it, its options, and what follows. -/
structure GroupSplit where
  before : Text
  options : List Text
  after : Text
deriving DecidableEq, Repr

/-- The group that a text begins with, if it has an option. -/
def groupHere? : Text → Option GroupSplit
  | '(' :: rest =>
    match groupClose? 0 rest with
    | some (inside, after) =>
      if groupOptions inside = [] then none else some ⟨[], groupOptions inside, after⟩
    | none => none
  | _ => none

/-- The first group of a text that has an option. -/
def nextGroup? : Text → Option GroupSplit
  | [] => none
  | c :: rest =>
    match groupHere? (c :: rest) with
    | some group => some group
    | none => (nextGroup? rest).map fun group => { group with before := c :: group.before }

/-- The number of opening parentheses in a text. -/
def openings (text : Text) : Nat :=
  text.count '('

/-- A group at the start takes at least its own parenthesis away, whichever option is
drawn. -/
theorem count_of_groupHere? {text : Text} {group : GroupSplit} {option : Text}
    (h : groupHere? text = some group) (hmem : option ∈ group.options) :
    openings option + openings group.after < openings text := by
  unfold groupHere? at h
  split at h
  · rename_i rest
    split at h
    · rename_i inside after hclose
      split at h
      · cases h
      · cases h
        have hoption := (sublist_of_mem_groupOptions hmem).count_le '('
        have hrest : openings rest = openings inside + openings after := by
          simp [openings, append_of_groupClose? hclose, List.count_append]
        simp only [openings, List.count_cons_self] at *
        omega
    · cases h
  · cases h

/-- A group takes at least its own parenthesis away, whichever option is drawn. -/
theorem count_of_nextGroup? {text : Text} {group : GroupSplit} {option : Text}
    (h : nextGroup? text = some group) (hmem : option ∈ group.options) :
    openings option + openings group.after < openings text := by
  induction text generalizing group with
  | nil => simp [nextGroup?] at h
  | cons c rest ih =>
    unfold nextGroup? at h
    split at h
    · rename_i hhere
      cases h
      exact count_of_groupHere? hhere hmem
    · obtain ⟨inner, hinner, rfl⟩ := Option.map_eq_some_iff.mp h
      have hle : openings rest ≤ openings (c :: rest) :=
        List.Sublist.count_le '(' (List.sublist_cons_self c rest)
      have hinside : openings option + openings inner.after < openings rest := ih hinner hmem
      exact Nat.lt_of_lt_of_le hinside hle

/-- A text that is still to be expanded, with the depth at which it stands. -/
structure Pending where
  text : Text
  depth : Nat

/-- Every step on a stack of texts makes this smaller. -/
def workLeft : List Pending → Nat
  | [] => 0
  | pending :: stack => 2 * openings pending.text + 1 + workLeft stack

variable {σ : Type}

/-- Expand the texts on a stack, the top one first, with groups expanded down to a
depth limit. -/
def expandStack (source : DrawSource σ) (limit : Int) (state : σ) :
    List Pending → Except DrawError (Text × σ)
  | [] => .ok ([], state)
  | ⟨text, depth⟩ :: stack =>
    if limit < depth then
      (expandStack source limit state stack).map fun (out, state) => (text ++ out, state)
    else
      match _ : nextGroup? text with
      | none =>
        (expandStack source limit state stack).map fun (out, state) => (text ++ out, state)
      | some group =>
        match hpick : pick (source.next state).1 group.options with
        | .error e => .error e
        | .ok option =>
          (expandStack source limit (source.next state).2
            (⟨option, depth + 1⟩ :: ⟨group.after, depth⟩ :: stack)).map
              fun (out, state) => (group.before ++ out, state)
termination_by stack => workLeft stack
decreasing_by
  · simp [workLeft]
  · simp [workLeft]
  · have := count_of_nextGroup? ‹_› (mem_of_pick hpick)
    simp only [workLeft]
    omega

/-- Expand the groups of a text. -/
def expandGroups (source : DrawSource σ) (limit : Int) (text : Text) (state : σ) :
    Except DrawError (Text × σ) :=
  expandStack source limit state [⟨text, 0⟩]

end PromptMarkup

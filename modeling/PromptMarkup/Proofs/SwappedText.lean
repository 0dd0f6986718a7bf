import PromptMarkup.Proofs.BracketText
import PromptMarkup.Proofs.GroupText

/-!
# Texts with swapped parts

Two texts may be alike but for some parts of the one that stand in the other for
something else.  As long as parentheses are balanced in what is swapped, and bars
enclosed, both texts have the same groups around the swapped parts.

Main statements:

- {lit}`Swapped.groupDepth?_eq`: both texts go through the same depths.
- {lit}`Swapped.groupClose?`: a group closes in both texts at the same place.
- {lit}`Swapped.readGroup?_eq_none`: if groups are swapped for groups, there is a choice
  in both texts or in none.
-/

namespace PromptMarkup

/-- Two texts that are the same but for parts that are swapped. -/
inductive Swapped (swap : Text → Text → Prop) : Text → Text → Prop where
  | nil : Swapped swap [] []
  | keep (c : Char) {first second : Text} :
    Swapped swap first second → Swapped swap (c :: first) (c :: second)
  | swap {before after first second : Text} :
    swap before after → Swapped swap first second →
      Swapped swap (before ++ first) (after ++ second)

namespace Swapped

variable {swap : Text → Text → Prop}

/-- A text in front of both is kept. -/
theorem keepAll {first second : Text} (text : Text) (h : Swapped swap first second) :
    Swapped swap (text ++ first) (text ++ second) := by
  induction text with
  | nil => exact h
  | cons c rest ih => exact ih.keep c

/-- Parts are swapped in two texts together as they are in each. -/
theorem append {first second first' second' : Text} (h : Swapped swap first second)
    (h' : Swapped swap first' second') : Swapped swap (first ++ first') (second ++ second') := by
  induction h with
  | nil => exact h'
  | keep c _ ih => exact ih.keep c
  | swap hswap _ ih =>
    rw [List.append_assoc, List.append_assoc]
    exact ih.swap hswap

/-- The parts may be swapped back. -/
theorem symm {first second : Text} (h : Swapped swap first second)
    (hswap : ∀ before after, swap before after → swap after before) :
    Swapped swap second first := by
  induction h with
  | nil => exact .nil
  | keep c _ ih => exact ih.keep c
  | swap hparts _ ih => exact ih.swap (hswap _ _ hparts)

/-! ## Groups around swapped parts -/

/-- Undivided parts that are swapped leave all depths as they are. -/
theorem groupDepth?_eq {first second : Text} (h : Swapped swap first second)
    (hswap : ∀ before after, swap before after → Undivided before ∧ Undivided after)
    (bars : Bool) (depth : Nat) :
    groupDepth? bars depth first = groupDepth? bars depth second := by
  induction h generalizing depth with
  | nil => rfl
  | keep c _ ih =>
    rw [groupDepth?, groupDepth?]
    split
    · rfl
    · exact ih (depthAfter depth c)
  | swap hparts _ ih =>
    have hundivided := hswap _ _ hparts
    rw [groupDepth?_append, groupDepth?_append, hundivided.1.depth, hundivided.2.depth]
    exact ih depth

/-- A group closes in both texts after parts and before parts that are swapped for each
other. -/
theorem groupClose? {first second : Text} (h : Swapped swap first second)
    (hswap : ∀ before after, swap before after → Undivided before ∧ Undivided after)
    {depth : Nat} {inside rest : Text}
    (hclose : PromptMarkup.groupClose? depth first = some (inside, rest)) :
    ∃ inside' rest', PromptMarkup.groupClose? depth second = some (inside', rest') ∧
      Swapped swap inside inside' ∧ Swapped swap rest rest' := by
  induction h generalizing depth inside with
  | nil => cases hclose
  | keep c hrest ih =>
    rw [groupClose?_cons] at hclose
    rw [groupClose?_cons]
    split at hclose
    · rename_i hend
      cases hclose
      exact ⟨[], _, if_pos hend, .nil, hrest⟩
    · rename_i hgo
      rcases Option.map_eq_some_iff.mp hclose with ⟨⟨tail, rest⟩, htail, heq⟩
      cases heq
      rcases ih htail with ⟨tail', rest', htail', hinside, hafter⟩
      rw [if_neg hgo, htail']
      exact ⟨c :: tail', rest', rfl, hinside.keep c, hafter⟩
  | swap hparts hrest ih =>
    have hundivided := hswap _ _ hparts
    rw [groupClose?_append _ (hundivided.1.depth true depth)] at hclose
    rw [groupClose?_append _ (hundivided.2.depth true depth)]
    rcases Option.map_eq_some_iff.mp hclose with ⟨⟨tail, rest⟩, htail, heq⟩
    cases heq
    rcases ih htail with ⟨tail', rest', htail', hinside, hafter⟩
    rw [htail']
    exact ⟨_ ++ tail', rest', rfl, hinside.swap hparts, hafter⟩

/-- Both texts have as many parts. -/
theorem length_rawParts {first second : Text} (h : Swapped swap first second)
    (hswap : ∀ before after, swap before after → Undivided before ∧ Undivided after)
    (depth : Nat) : (rawParts depth first).length = (rawParts depth second).length := by
  have hcons : ∀ c text depth, (consPart c (rawParts depth text)).length =
      (rawParts depth text).length := by
    intro c text depth
    have hne := rawParts_ne_nil depth text
    cases hparts : rawParts depth text with
    | nil => exact absurd hparts hne
    | cons part rest => rfl
  induction h generalizing depth with
  | nil => rfl
  | keep c _ ih =>
    rw [rawParts, rawParts]
    split
    · rw [List.length_cons, List.length_cons, ih]
    · rw [hcons, hcons, ih]
  | swap hparts _ ih =>
    have hundivided := hswap _ _ hparts
    rw [rawParts_append _ (hundivided.1.depth false depth),
      rawParts_append _ (hundivided.2.depth false depth),
      length_prependPart _ (rawParts_ne_nil _ _), length_prependPart _ (rawParts_ne_nil _ _), ih]

end Swapped

/-! ## Groups swapped for groups -/

/-- Two groups with the same brackets. -/
structure SameGroup (before after : Text) : Prop where
  undivided : Undivided before ∧ Undivided after
  opens : before.head? = some '(' ∧ after.head? = some '('
  brackets : before.filter isBracket = after.filter isBracket

/-- Each of the two groups may stand first. -/
theorem SameGroup.symm {before after : Text} (h : SameGroup before after) :
    SameGroup after before :=
  ⟨h.undivided.symm, h.opens.symm, h.brackets.symm⟩

namespace Swapped

/-- Both texts have the same brackets. -/
theorem filter_isBracket {first second : Text} (h : Swapped SameGroup first second) :
    first.filter isBracket = second.filter isBracket := by
  induction h with
  | nil => rfl
  | keep c _ ih => rw [List.filter_cons, List.filter_cons, ih]
  | swap hparts _ ih => rw [List.filter_append, List.filter_append, hparts.brackets, ih]

/-- Both texts begin alike. -/
theorem head?_eq {first second : Text} (h : Swapped SameGroup first second) :
    first.head? = second.head? := by
  cases h with
  | nil => rfl
  | keep c _ => rfl
  | swap hparts _ =>
    rw [List.head?_append, List.head?_append, hparts.opens.1, hparts.opens.2]
    rfl

/-- A text without parentheses has no groups to swap. -/
theorem eq_of_not_mem {first second : Text} (h : Swapped SameGroup first second)
    (hopen : '(' ∉ first) : first = second := by
  induction h with
  | nil => rfl
  | keep c _ ih => rw [ih fun hmem => hopen (List.mem_cons_of_mem _ hmem)]
  | swap hparts _ _ =>
    have hmem := List.mem_of_mem_head? (Option.mem_def.mpr hparts.opens.1)
    exact absurd (List.mem_append_left _ hmem) hopen

/-- If there is no choice to read in a text, there is none in the other one. -/
theorem readGroup?_eq_none {first second : Text} (h : Swapped SameGroup first second)
    (hnone : readGroup? first = none) : readGroup? second = none := by
  have hundivided : ∀ before after, SameGroup before after →
      Undivided before ∧ Undivided after := fun _ _ hparts => hparts.undivided
  cases hclose : PromptMarkup.groupClose? 0 second with
  | none => rw [readGroup?, hclose]
  | some closed =>
    rcases closed with ⟨inside, rest⟩
    rcases (h.symm fun _ _ => SameGroup.symm).groupClose? hundivided hclose with
      ⟨inside', rest', hclose', hinside, -⟩
    rw [readGroup?, hclose'] at hnone
    rw [readGroup?, hclose]
    -- Both have as many parts, and only blank ones if the first has.
    have hlength : (splitOptions inside).length = (splitOptions inside').length := by
      rw [splitOptions, splitOptions, List.length_map, List.length_map]
      exact hinside.length_rawParts hundivided 0
    have hblank : groupOptions inside' = [] → groupOptions inside = [] := by
      intro hempty
      have heq := (hinside.symm fun _ _ => SameGroup.symm).eq_of_not_mem
        (not_mem_of_groupOptions_eq_nil hempty)
      rw [← heq, hempty]
    by_cases hchoice : 2 ≤ (splitOptions inside).length ∧ groupOptions inside ≠ []
    · have hchoice' : 2 ≤ (splitOptions inside').length ∧ groupOptions inside' ≠ [] :=
        ⟨hlength ▸ hchoice.1, fun hempty => hchoice.2 (hblank hempty)⟩
      simp [hchoice'] at hnone
    · simp only [if_neg hchoice]

end Swapped

end PromptMarkup

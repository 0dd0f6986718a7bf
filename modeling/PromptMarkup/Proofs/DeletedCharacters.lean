import Mathlib.Logic.Function.Iterate
import PromptMarkup.Proofs.CanonicalText

/-!
# Deleted characters

The canonical text of a prompt is the prompt without some of its characters.  Only groups are
written in another way than they were read: their options lose the blank characters at their
ends, and an option of which nothing is left goes with a bar.  So each round of reading and
writing leaves a prompt as it is or makes it shorter, and there are no more such rounds than
characters that may go.

Main statements:

- {lit}`deletes_joinWith_groupOptions`: a group loses blank characters and bars only.
- {lit}`deletes_canonicalText`: so does a prompt.
- {lit}`Deletes.exists_fixed`: to delete characters comes to an end.
- {lit}`compile_readPrompt_deletes`: what one round and repeated rounds do to a prompt.
-/

namespace PromptMarkup

/-- A text becomes another when some of its characters are deleted, each of which may go. -/
inductive Deletes (may : Char → Bool) : Text → Text → Prop where
  | nil : Deletes may [] []
  | keep (c : Char) {text left : Text} :
    Deletes may text left → Deletes may (c :: text) (c :: left)
  | delete {c : Char} {text left : Text} :
    may c = true → Deletes may text left → Deletes may (c :: text) left

namespace Deletes

variable {may : Char → Bool}

/-- Nothing need be deleted. -/
theorem refl (text : Text) : Deletes may text text := by
  induction text with
  | nil => exact .nil
  | cons c rest ih => exact ih.keep c

/-- A text of characters that may go can be deleted as a whole. -/
theorem all {text : Text} (h : ∀ c ∈ text, may c = true) : Deletes may text [] := by
  induction text with
  | nil => exact .nil
  | cons c rest ih =>
    rcases List.forall_mem_cons.mp h with ⟨hc, hrest⟩
    exact .delete hc (ih hrest)

/-- Characters are deleted in two texts together as they are in each. -/
theorem append {text left text' left' : Text} (h : Deletes may text left)
    (h' : Deletes may text' left') : Deletes may (text ++ text') (left ++ left') := by
  induction h with
  | nil => exact h'
  | keep c _ ih => exact ih.keep c
  | delete hc _ ih => exact .delete hc ih

/-- Characters can be deleted in two goes. -/
theorem trans {text middle left : Text} (h : Deletes may text middle)
    (h' : Deletes may middle left) : Deletes may text left := by
  induction h generalizing left with
  | nil => exact h'
  | keep c _ ih =>
    cases h' with
    | keep _ hrest => exact (ih hrest).keep c
    | delete hc hrest => exact .delete hc (ih hrest)
  | delete hc _ ih => exact .delete hc (ih h')

/-- What is left stands in the text in the same order. -/
theorem sublist {text left : Text} (h : Deletes may text left) : left.Sublist text := by
  induction h with
  | nil => exact List.Sublist.refl _
  | keep c _ ih => exact ih.cons_cons c
  | delete _ _ ih => exact ih.cons _

/-- As many characters that may go are missing as characters. -/
theorem countP_add_length {text left : Text} (h : Deletes may text left) :
    left.countP may + text.length = text.countP may + left.length := by
  induction h with
  | nil => rfl
  | keep c _ ih =>
    simp only [List.countP_cons, List.length_cons]
    omega
  | delete hc _ ih =>
    simp only [List.countP_cons, List.length_cons, hc, if_true]
    omega

/-- A text stays as it is or becomes shorter. -/
theorem eq_or_length_lt {text left : Text} (h : Deletes may text left) :
    left = text ∨ left.length < text.length := by
  rcases Nat.lt_or_eq_of_le h.sublist.length_le with hlt | heq
  · exact Or.inr hlt
  · exact Or.inl (h.sublist.eq_of_length heq)

/-- A step that only deletes characters changes nothing any more after as many rounds as there
are characters that may go. -/
theorem exists_fixed {step : Text → Text} (hstep : ∀ text, Deletes may text (step text))
    (text : Text) :
    ∃ rounds ≤ text.countP may, step (step^[rounds] text) = step^[rounds] text := by
  induction hcount : text.countP may using Nat.strong_induction_on generalizing text with
  | _ count ih =>
    rcases (hstep text).eq_or_length_lt with heq | hlt
    · exact ⟨0, Nat.zero_le _, heq⟩
    · -- One of the characters that may go is missing after the first round.
      have hless : (step text).countP may < count := by
        have hsum := (hstep text).countP_add_length
        omega
      rcases ih _ hless (step text) rfl with ⟨rounds, hrounds, hfixed⟩
      exact ⟨rounds + 1, Nat.lt_of_le_of_lt hrounds hless, hfixed⟩

/-- Repeated steps that only delete characters only delete characters. -/
theorem iterate {step : Text → Text} (hstep : ∀ text, Deletes may text (step text))
    (rounds : Nat) (text : Text) : Deletes may text (step^[rounds] text) := by
  induction rounds generalizing text with
  | zero => exact refl text
  | succ rounds ih => exact (hstep text).trans (ih (step text))

end Deletes

/-! ## Groups -/

/-- Whether a character is blank or a bar. -/
def isBlankOrBar (c : Char) : Bool :=
  isBlank c || c = '|'

/-- Trimming deletes blank characters. -/
theorem deletes_trim (text : Text) : Deletes isBlankOrBar text (trim text) := by
  rcases exists_trim_append text with ⟨before, after, hsplit, hbefore, hafter⟩
  have hblank : ∀ blank : Text, (∀ c ∈ blank, isBlank c = true) → Deletes isBlankOrBar blank [] :=
    fun blank h => .all fun c hc => by simp [isBlankOrBar, h c hc]
  have hall := ((hblank before hbefore).append (.refl (trim text))).append (hblank after hafter)
  rwa [← hsplit, List.nil_append, List.append_nil] at hall

/-- Parts that are joined with bars lose blank characters and bars when they are trimmed and
those of which nothing is left are taken away. -/
theorem deletes_joinWith_filter (parts : List Text) :
    Deletes isBlankOrBar (joinWith ['|'] parts)
      (joinWith ['|'] ((parts.map trim).filter fun part => !part.isEmpty)) := by
  have hbar : Deletes isBlankOrBar ['|'] [] := .all (by simp [isBlankOrBar])
  induction parts with
  | nil => exact .nil
  | cons part rest ih =>
    have hpart := deletes_trim part
    rw [List.map_cons, List.filter_cons]
    split
    · by_cases hne : rest = []
      · subst hne
        exact hpart
      · rw [joinWith_cons hne]
        by_cases hkept : (rest.map trim).filter (fun part => !part.isEmpty) = []
        · rw [hkept] at ih ⊢
          have hall := (hpart.append hbar).append ih
          rwa [List.append_nil, joinWith, List.append_nil] at hall
        · rw [joinWith_cons hkept]
          exact (hpart.append (.refl ['|'])).append ih
    · -- Nothing is left of the first part, so it goes with the bar behind it.
      rename_i hempty
      have hblank : trim part = [] := by simpa using hempty
      rw [hblank] at hpart
      by_cases hne : rest = []
      · subst hne
        exact hpart
      · rw [joinWith_cons hne]
        exact (hpart.append hbar).append ih

/-- A group loses blank characters and bars only. -/
theorem deletes_joinWith_groupOptions (inside : Text) :
    Deletes isBlankOrBar inside (joinWith ['|'] (groupOptions inside)) := by
  have hparts := deletes_joinWith_filter (rawParts 0 inside)
  rwa [joinWith_rawParts] at hparts

/-! ## Prompts -/

/-- A prompt is written without some of its blank characters and bars, and else as it stands. -/
theorem deletes_canonicalText (depth : Nat) (boundary : Bool) (text : Text) :
    Deletes isBlankOrBar text (canonicalText depth boundary text) := by
  induction depth, boundary, text using readInduction with
  | nil depth boundary =>
    rw [canonicalText_nil]
    exact .nil
  | reads depth boundary text piece after hreads hinside ih =>
    rw [canonicalText_of_reads hreads]
    cases hreads with
    | span type inside after hspans hnested =>
      cases depth with
      | zero => cases hspans
      | succ below =>
        have hspan := (hinside below inside rfl).append (ih.keep type.closer)
        simpa [Piece.write, canonicalInside] using hspan.keep type.opener
    | group inside after =>
      have hgroup := (deletes_joinWith_groupOptions inside).append (ih.keep ')')
      simpa [Piece.write] using hgroup.keep '('
    | mismatch type through after => exact (Deletes.refl _).append ih
    | bracket type rest => exact ih.keep type.opener
    | paren rest => exact ih.keep '('
    | random name after => exact (Deletes.refl _).append ih
    | fixed name value after => exact (Deletes.refl _).append ih
    | word name after => exact (Deletes.refl _).append ih
    | char c rest => exact ih.keep c

/-! ## Rounds -/

/-- Read a text and write the tree, a number of times. -/
def compileRounds (surroundings : Surroundings) (given : Option CompileOptions) :
    Nat → Text → Except CompileError Text
  | 0, text => .ok text
  | rounds + 1, text =>
    compile surroundings given (readPrompt text) >>= compileRounds surroundings given rounds

/-- Each round gives the canonical text of what the one before gave. -/
theorem compileRounds_eq {surroundings : Surroundings} {given : Option CompileOptions}
    {options : CompileOptions} (hoptions : surroundings.optionsFor given = .ok options)
    (hplain : options.expandWildcards = false) (rounds : Nat) (text : Text) :
    compileRounds surroundings given rounds text =
      .ok ((canonicalText maxNesting true)^[rounds] text) := by
  induction rounds generalizing text with
  | zero => rfl
  | succ rounds ih =>
    rw [compileRounds, compile_readPrompt hoptions hplain]
    exact ih _

/-- A prompt is compiled, as it stands, to the prompt with some blank characters and bars
deleted, so it stays as it is or becomes shorter.  If that is done again and again, nothing
changes any more after as many rounds as the prompt has blank characters and bars. -/
theorem compile_readPrompt_deletes {surroundings : Surroundings} {given : Option CompileOptions}
    {options : CompileOptions} (hoptions : surroundings.optionsFor given = .ok options)
    (hplain : options.expandWildcards = false) (text : Text) :
    (∃ left, compile surroundings given (readPrompt text) = .ok left ∧
      Deletes isBlankOrBar text left ∧ (left = text ∨ left.length < text.length)) ∧
    ∃ rounds ≤ text.countP isBlankOrBar, ∃ last,
      compileRounds surroundings given rounds text = .ok last ∧
        Deletes isBlankOrBar text last ∧
        compile surroundings given (readPrompt last) = .ok last := by
  have hdeletes := deletes_canonicalText maxNesting true
  constructor
  · exact ⟨_, compile_readPrompt hoptions hplain text, hdeletes text,
      (hdeletes text).eq_or_length_lt⟩
  · rcases Deletes.exists_fixed hdeletes text with ⟨rounds, hrounds, hfixed⟩
    refine ⟨rounds, hrounds, _, compileRounds_eq hoptions hplain rounds text,
      Deletes.iterate hdeletes rounds text, ?_⟩
    rw [compile_readPrompt hoptions hplain, hfixed]

/-- A group in the lone option of another, with blank parts in both. -/
theorem compile_readPrompt_deletes_lone :
    let text : Text := "( | (a | |b )|) [c".toList
    (∃ left, compile ⟨.ok {}, 0⟩ none (readPrompt text) = .ok left ∧
      Deletes isBlankOrBar text left ∧ (left = text ∨ left.length < text.length)) ∧
    ∃ rounds ≤ text.countP isBlankOrBar, ∃ last,
      compileRounds ⟨.ok {}, 0⟩ none rounds text = .ok last ∧
        Deletes isBlankOrBar text last ∧
        compile ⟨.ok {}, 0⟩ none (readPrompt last) = .ok last := by
  intro text
  have hoptions : Surroundings.optionsFor ⟨.ok {}, 0⟩ none = .ok ⟨false, none, 50⟩ := rfl
  exact compile_readPrompt_deletes hoptions rfl text

end PromptMarkup

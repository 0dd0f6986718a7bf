import PromptMarkup.Proofs.CanonicalExpansion
import PromptMarkup.Segment.Label

/-!
# Prompts that are read twice

The tree of a prompt gets identifiers when it is put to use, and they play no part in what it
is compiled to.  Its canonical text, read once more, gives the same tree again, as long as
each of its inline wildcards has two options.

Main statements:

- {lit}`render_label`: a tree has the same text with identifiers and without.
- {lit}`readPrompt_compile_label`: a prompt that offers choices is compiled to a text that is
  read as the same tree.
-/

namespace PromptMarkup

/-! ## Identifiers -/

namespace Segment

/-- A tree has the same text with identifiers and without. -/
theorem render_label (tree : Segment Unit) (serial : Nat) :
    (tree.label serial).1.render = tree.render := by
  induction tree generalizing serial with
  | missing => rfl
  | leaf head => rfl
  | branch head children ih =>
    have hchildren : ∀ (trees : List (Segment Unit)) (serial : Nat),
        (∀ tree ∈ trees, tree ∈ children) →
          renderList (labelList serial trees).1 = renderList trees := by
      intro trees
      induction trees with
      | nil => exact fun _ _ => rfl
      | cons tree rest ihtrees =>
        intro serial hmem
        have htree := ih tree (hmem tree List.mem_cons_self) serial
        have hrest := ihtrees (tree.label serial).2 fun other hother =>
          hmem other (List.mem_cons_of_mem _ hother)
        rw [labelList, renderList, renderList, htree, hrest]
    rw [label, render, render, hchildren children (serial + 1) fun _ htree => htree]
    rfl

end Segment

/-! ## Reading again -/

/-- What is read offers choices if its first piece does and what follows does. -/
theorem offersChoices_of_reads {depth : Nat} {boundary : Bool} {text after : Text} {piece : Piece}
    (h : Reads (spansAt depth) boundary text piece after) :
    (∀ child ∈ readFrom depth boundary text, child.OffersChoices) ↔
      piece.OffersChoices (readInside depth) ∧
        ∀ child ∈ readFrom depth (!piece.endsInName) after, child.OffersChoices := by
  rw [readFrom_of_reads h, offersChoices_addPiece]

/-- A prompt that offers choices has a canonical text that is read like the prompt. -/
theorem readPrompt_canonicalText {text : Text} (h : (readPrompt text).OffersChoices) :
    readPrompt (canonicalText maxNesting true text) = readPrompt text := by
  rw [readPrompt, readPrompt, readSegments_eq, readSegments_eq,
    readFrom_canonicalText _ _ _ (offersChoices_readPrompt.mp h)]

/-- The tree of a prompt, whatever its identifiers are, is compiled to a text.  If each inline
wildcard of the tree has two options, this text is read as the same tree, whatever brackets
and parentheses the prompt has. -/
theorem readPrompt_compile_label {surroundings : Surroundings} {given : Option CompileOptions}
    {options : CompileOptions} {text : Text}
    (hoptions : surroundings.optionsFor given = .ok options)
    (hplain : options.expandWildcards = false) (hchoices : (readPrompt text).OffersChoices)
    (serial : Nat) :
    ∃ canonical, compile surroundings given ((readPrompt text).label serial).1 = .ok canonical ∧
      readPrompt canonical = readPrompt text := by
  have hrender : ((readPrompt text).label serial).1.render =
      .ok (canonicalText maxNesting true text) := by
    rw [Segment.render_label, render_readPrompt]
  exact ⟨_, compile_of_render hoptions hplain rfl hrender, readPrompt_canonicalText hchoices⟩

/-- A bracket that is broken off, a group with a blank to lose, and a literal parenthesis. -/
theorem readPrompt_compile_label_mismatched :
    (readPrompt "[a\x7d(b |c)(d".toList).OffersChoices ∧
      ∃ canonical, compile ⟨.ok {}, 0⟩ none
          ((readPrompt "[a\x7d(b |c)(d".toList).label 0).1 = .ok canonical ∧
        readPrompt canonical = readPrompt "[a\x7d(b |c)(d".toList := by
  have hoptions : Surroundings.optionsFor ⟨.ok {}, 0⟩ none = .ok ⟨false, none, 50⟩ := rfl
  have hbracket : Reads (spansAt maxNesting) true "[a\x7d(b |c)(d".toList
      (.literal ['[', 'a', '\x7d']) "(b |c)(d".toList :=
    .mismatch .decrease ['a', '\x7d'] _ rfl (by decide)
  have hgroup : Reads (spansAt maxNesting) true "(b |c)(d".toList (.group [['b'], ['c']])
      ['(', 'd'] :=
    .group "b |c".toList _ (by decide) (by decide) (by decide)
  have hparen : Reads (spansAt maxNesting) true ['(', 'd'] (.literal ['(']) ['d'] :=
    .paren ['d'] (by decide)
  have hword : Reads (spansAt maxNesting) true ['d'] (.literal ['d']) [] :=
    .word ['d'] [] rfl ⟨List.cons_ne_nil _ _, List.forall_mem_singleton.mpr (by decide)⟩
      (startsOutside_nil _) rfl
  have hchoices : (readPrompt "[a\x7d(b |c)(d".toList).OffersChoices := by
    have hnil : ∀ child ∈ readFrom maxNesting false [], child.OffersChoices := by
      rw [readFrom_nil]
      exact List.forall_mem_nil _
    have hlast := (offersChoices_of_reads hword).mpr ⟨trivial, hnil⟩
    have hliteral := (offersChoices_of_reads hparen).mpr ⟨trivial, hlast⟩
    have hchoice := (offersChoices_of_reads hgroup).mpr ⟨Nat.le_refl 2, hliteral⟩
    exact offersChoices_readPrompt.mpr ((offersChoices_of_reads hbracket).mpr ⟨trivial, hchoice⟩)
  exact ⟨hchoices, readPrompt_compile_label hoptions rfl hchoices 0⟩

end PromptMarkup

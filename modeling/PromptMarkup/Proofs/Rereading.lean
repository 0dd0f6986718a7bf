import PromptMarkup.Proofs.CanonicalText
import PromptMarkup.Proofs.SwappedText

/-!
# Reading canonical text again

The canonical text of a prompt differs from the prompt in its groups alone, and its
pieces are those of the prompt, one for one, as long as every group has two options.

Main statements:

- {lit}`swapped_canonicalText`: a prompt and its canonical text are the same but for
  groups.
- {lit}`reads_canonicalText`: the canonical text begins with the piece with which the
  prompt begins.
- {lit}`readFrom_canonicalText`: where all groups have two options, the canonical text is
  read like the prompt.
-/

namespace PromptMarkup

/-! ## Canonical text and prompt -/

/-- The brackets of joined texts are those of the texts. -/
theorem filter_joinWith (parts : List Text) :
    (joinWith ['|'] parts).filter isBracket = parts.flatMap fun part => part.filter isBracket := by
  induction parts with
  | nil => rfl
  | cons part rest ih =>
    cases rest with
    | nil => simp [joinWith]
    | cons next rest =>
      have hbar : ['|'].filter isBracket = [] := by decide
      rw [joinWith, List.filter_append, List.filter_append, ih, hbar, List.append_nil]
      · rfl
      · exact List.cons_ne_nil _ _

/-- Trimming takes no brackets away. -/
theorem filter_trim (text : Text) : (trim text).filter isBracket = text.filter isBracket := by
  have hblank : ∀ blank : Text, (∀ c ∈ blank, isBlank c = true) → blank.filter isBracket = [] := by
    intro blank hall
    apply List.filter_eq_nil_iff.mpr
    intro c hc hbracket
    have hc := hall c hc
    rcases isBracket_cases hbracket with rfl | rfl | rfl | rfl <;> exact absurd hc (by decide)
  rcases exists_trim_append text with ⟨before, after, hsplit, hbefore, hafter⟩
  conv => rhs; rw [hsplit]
  rw [List.filter_append, List.filter_append, hblank before hbefore, hblank after hafter,
    List.nil_append, List.append_nil]

/-- The options of a text have all of its brackets. -/
theorem filter_groupOptions (text : Text) :
    (joinWith ['|'] (groupOptions text)).filter isBracket = text.filter isBracket := by
  have hnonempty : ∀ parts : List Text,
      (parts.filter fun part => !part.isEmpty).flatMap (fun part => part.filter isBracket) =
        parts.flatMap fun part => part.filter isBracket := by
    intro parts
    induction parts with
    | nil => rfl
    | cons part rest ih =>
      cases part with
      | nil => exact ih
      | cons c part => simp [ih]
  conv => rhs; rw [← joinWith_rawParts 0 text]
  rw [filter_joinWith, filter_joinWith, groupOptions, hnonempty, splitOptions, List.flatMap_map]
  simp only [filter_trim]

/-- A group and the group of its options have the same brackets. -/
theorem sameGroup_groupOptions {inside : Text} (h : Balanced inside) :
    SameGroup ('(' :: inside ++ [')']) ('(' :: joinWith ['|'] (groupOptions inside) ++ [')']) := by
  have hoptions : Balanced (joinWith ['|'] (groupOptions inside)) :=
    balanced_joinWith fun option hoption => (tidyOption_of_mem_groupOptions h hoption).undivided
  constructor
  · exact ⟨h.undivided_group, hoptions.undivided_group⟩
  · exact ⟨rfl, rfl⟩
  · rw [List.cons_append, List.cons_append, List.filter_cons, List.filter_cons,
      List.filter_append, List.filter_append, filter_groupOptions]

/-- A prompt and its canonical text are the same but for groups. -/
theorem swapped_canonicalText (depth : Nat) (boundary : Bool) (text : Text) :
    Swapped SameGroup text (canonicalText depth boundary text) := by
  induction depth, boundary, text using readInduction with
  | nil depth boundary =>
    rw [canonicalText_nil]
    exact .nil
  | reads depth boundary text piece after hreads hinside ih =>
    rw [canonicalText_of_reads hreads]
    cases hreads with
    | span type inside after hspans hnested =>
      cases depth with
      | zero => cases hspans
      | succ below =>
        have hspan := (hinside below inside rfl).append (ih.keep type.closer)
        simpa [Piece.write, canonicalInside] using hspan.keep type.opener
    | mismatch type through after => exact ih.keepAll (type.opener :: through)
    | bracket type rest => exact ih.keepAll [type.opener]
    | group inside after hbalanced =>
      have hgroup := ih.swap (sameGroup_groupOptions hbalanced)
      simpa [Piece.write] using hgroup
    | paren rest => exact ih.keepAll ['(']
    | random name after => exact ih.keepAll ('!' :: name)
    | fixed name value after => exact ih.keepAll (name ++ ':' :: value)
    | word name after => exact ih.keepAll name
    | char c rest => exact ih.keepAll [c]

/-! ## Pieces of canonical text -/

/-- A piece with the text inside a span rewritten. -/
def Piece.rewrite (inner : Text → Text) : Piece → Piece
  | .weighted type inside => .weighted type (inner inside)
  | piece => piece

/-- A piece with another text inside ends as it did. -/
@[simp] theorem Piece.endsInName_rewrite (inner : Text → Text) (piece : Piece) :
    (piece.rewrite inner).endsInName = piece.endsInName := by
  cases piece <;> rfl

/-- Texts that begin alike go on alike. -/
theorem StartsOutside.of_head?_eq {sort : Char → Bool} {first second : Text}
    (h : StartsOutside sort first) (heq : first.head? = second.head?) :
    StartsOutside sort second := by
  rw [StartsOutside, ← heq]
  exact h

/-- Where no value can be read, none can be read after groups are swapped. -/
theorem Swapped.readValue?_eq_none {first second : Text} (h : Swapped SameGroup first second)
    (hnone : readValue? first = none) : readValue? second = none := by
  apply readValue?_eq_none_iff.mpr
  intro rest heq
  cases h with
  | nil => cases heq
  | keep c hrest =>
    cases heq
    exact (readValue?_eq_none_iff.mp hnone _ rfl).of_head?_eq hrest.head?_eq
  | swap hparts hrest =>
    have hhead := congrArg List.head? heq
    rw [List.head?_append, hparts.opens.2] at hhead
    cases hhead

/-- The canonical text begins with the piece with which the prompt begins, unless that is a
group with a single option. -/
theorem reads_canonicalText {depth : Nat} {boundary : Bool} {text after : Text} {piece : Piece}
    (h : Reads (spansAt depth) boundary text piece after)
    (hchoice : ∀ options, piece = .group options → 2 ≤ options.length) :
    Reads (spansAt depth) boundary (canonicalText depth boundary text)
      (piece.rewrite (canonicalInside depth)) (canonicalText depth (!piece.endsInName) after) := by
  have hafter := swapped_canonicalText depth (!piece.endsInName) after
  rw [canonicalText_of_reads h]
  cases h with
  | span type inside after hspans hnested =>
    cases depth with
    | zero => cases hspans
    | succ below =>
      have hinside := (swapped_canonicalText below true inside).filter_isBracket
      have hcanonical : Nested (canonicalText below true inside) := by
        rw [Nested, ← nest?_congr hinside]
        exact hnested
      have hspan : Reads (spansAt (below + 1)) boundary _ _ _ :=
        .span type _ (canonicalText (below + 1) true after) hspans hcanonical
      simpa [Piece.write, Piece.rewrite, Piece.endsInName, canonicalInside] using hspan
  | mismatch type through after hspans hclosing =>
    apply Reads.mismatch type through _ hspans
    rcases closing_eq_mismatched_iff.mp hclosing with ⟨before, c, hthrough, -, hstuck⟩
    exact closing_eq_mismatched_iff.mpr ⟨before, c, hthrough, rfl, hstuck⟩
  | bracket type rest hclosing =>
    apply Reads.bracket type
    intro hspans
    have hopen := closing_eq_unclosed_iff.mp (hclosing hspans)
    rw [nest?_congr hafter.filter_isBracket] at hopen
    exact closing_eq_unclosed_iff.mpr hopen
  | group inside after hbalanced hlength hoptions =>
    have htidy : ∀ option ∈ groupOptions inside, TidyOption option :=
      fun option hoption => tidyOption_of_mem_groupOptions hbalanced hoption
    have hgroup := reads_joinWith (hchoice _ rfl) htidy (spansAt depth) boundary
      (canonicalText depth true after)
    simpa [Piece.write, Piece.rewrite, Piece.endsInName] using hgroup
  | paren rest hnone => exact Reads.paren _ (hafter.readGroup?_eq_none hnone)
  | random name after hboundary hname hend =>
    exact Reads.random name _ hboundary hname (hend.of_head?_eq hafter.head?_eq)
  | fixed name value after hboundary hname hvalue hend =>
    exact Reads.fixed name value _ hboundary hname hvalue (hend.of_head?_eq hafter.head?_eq)
  | word name after hboundary hname hend hnone =>
    exact Reads.word name _ hboundary hname (hend.of_head?_eq hafter.head?_eq)
      (hafter.readValue?_eq_none hnone)
  | char c rest hopen hparen hplain =>
    apply Reads.char c _ hopen hparen
    intro hboundary
    have hmark := hplain hboundary
    exact ⟨hmark.1, fun heq => (hmark.2 heq).of_head?_eq hafter.head?_eq⟩

/-! ## Choices -/

namespace Segment

variable {ι : Type}

/-- Every inline wildcard of a tree has two options at least. -/
def OffersChoices (root : Segment ι) : Prop :=
  ∀ node ∈ root.nodes, ∀ options, node.kind? = some (.inlineWildcard options) →
    2 ≤ options.length

/-- A segment with children offers choices if it does by itself and its children do. -/
theorem offersChoices_branch {head : Head ι} {children : List (Segment ι)} :
    (branch head children).OffersChoices ↔
      (∀ options, head.kind = .inlineWildcard options → 2 ≤ options.length) ∧
        ∀ child ∈ children, child.OffersChoices := by
  constructor
  · intro h
    constructor
    · intro options hkind
      exact h _ (mem_nodes_self _) options (congrArg some hkind)
    · intro child hchild node hnode
      exact h node (mem_nodes_branch.mpr (Or.inr ⟨child, hchild, hnode⟩))
  · intro h node hnode options hkind
    rcases mem_nodes_branch.mp hnode with rfl | ⟨child, hchild, hnode⟩
    · exact h.1 options (Option.some.inj hkind)
    · exact h.2 child hchild node hnode options hkind

/-- A segment without children offers choices if it does by itself. -/
theorem offersChoices_leaf {head : Head ι} :
    (leaf head).OffersChoices ↔
      ∀ options, head.kind = .inlineWildcard options → 2 ≤ options.length := by
  constructor
  · intro h options hkind
    exact h _ (mem_nodes_self _) options (congrArg some hkind)
  · intro h node hnode options hkind
    rw [nodes, List.mem_singleton] at hnode
    subst hnode
    exact h options (Option.some.inj hkind)

end Segment

/-- A span offers choices if what stands in it does. -/
theorem offersChoices_wrapSpan {type : BracketType} {children : List (Segment Unit)} :
    (wrapSpan type children).OffersChoices ↔ ∀ child ∈ children, child.OffersChoices := by
  have hspan : ∀ level metadata (inside : List (Segment Unit)),
      (Segment.branch ⟨(), .weighted (.valid type) level, metadata⟩ inside).OffersChoices ↔
        ∀ child ∈ inside, child.OffersChoices := by
    intro level metadata inside
    rw [Segment.offersChoices_branch]
    constructor
    · exact fun h => h.2
    · exact fun h => ⟨nofun, h⟩
  rcases wrapSpan_cases type children with
    hwrap | ⟨level, metadata, grandchildren, hchildren, -, hwrap⟩
  · rw [hwrap]
    exact hspan _ _ children
  · rw [hwrap, hchildren, List.forall_mem_singleton]
    exact (hspan _ _ grandchildren).trans (hspan _ _ grandchildren).symm

/-- A piece offers a choice if its options are two at least, or if what stands in it
does. -/
def Piece.OffersChoices (nested : Text → List (Segment Unit)) : Piece → Prop
  | .weighted _ inside => ∀ child ∈ nested inside, child.OffersChoices
  | .group options => 2 ≤ options.length
  | _ => True

/-- The segments of pieces offer choices if the pieces do. -/
theorem offersChoices_addPiece {nested : Text → List (Segment Unit)} {piece : Piece}
    {rest : List (Segment Unit)} :
    (∀ child ∈ addPiece nested piece rest, child.OffersChoices) ↔
      piece.OffersChoices nested ∧ ∀ child ∈ rest, child.OffersChoices := by
  -- What is no inline wildcard and has no children makes no difference.
  have hleaf : ∀ (kind : Kind) metadata (others : List (Segment Unit)),
      kind.type? ≠ some .inlineWildcard →
      ((∀ child ∈ Segment.leaf ⟨(), kind, metadata⟩ :: others, child.OffersChoices) ↔
        ∀ child ∈ others, child.OffersChoices) := by
    intro kind metadata others hkind
    have hself : (Segment.leaf ⟨(), kind, metadata⟩).OffersChoices := by
      apply Segment.offersChoices_leaf.mpr
      intro options heq
      exact absurd (congrArg Kind.type? heq) hkind
    rw [List.forall_mem_cons]
    exact and_iff_right hself
  have htext : ∀ content, (Kind.text content).type? ≠ some .inlineWildcard := by
    intro content h
    cases h
  have hpreset : ∀ name mode value, (Kind.preset name mode value).type? ≠ some .inlineWildcard := by
    intro name mode value h
    cases h
  cases piece with
  | literal literal =>
    have hrest : (∀ child ∈ prependLiteral literal rest, child.OffersChoices) ↔
        ∀ child ∈ rest, child.OffersChoices := by
      unfold prependLiteral
      split
      · exact (hleaf (.text _) _ _ (htext _)).trans (hleaf (.text _) _ _ (htext _)).symm
      · exact hleaf (.text _) _ _ (htext _)
    rw [addPiece, hrest]
    exact (and_iff_right trivial).symm
  | weighted type inside =>
    rw [addPiece, List.forall_mem_cons, offersChoices_wrapSpan]
    rfl
  | group options =>
    have hgroup : (Segment.inlineWildcard () (options.map .str)).OffersChoices ↔
        2 ≤ options.length := by
      rw [Segment.inlineWildcard, Segment.offersChoices_leaf]
      constructor
      · intro h
        simpa using h _ rfl
      · intro h other hkind
        cases hkind
        simpa using h
    rw [addPiece, List.forall_mem_cons, hgroup]
    rfl
  | random name =>
    rw [addPiece, Segment.preset, hleaf (.preset name _ _) _ _ (hpreset _ _ _)]
    exact (and_iff_right trivial).symm
  | fixed name value =>
    rw [addPiece, Segment.preset, hleaf (.preset name _ _) _ _ (hpreset _ _ _)]
    exact (and_iff_right trivial).symm

/-- The first piece of canonical text is a piece of the prompt, with canonical text
inside. -/
theorem readFrom_canonicalText_of_reads {depth : Nat} {boundary : Bool} {text after : Text}
    {piece : Piece} (h : Reads (spansAt depth) boundary text piece after)
    (hchoice : ∀ options, piece = .group options → 2 ≤ options.length) :
    readFrom depth boundary (canonicalText depth boundary text) =
      addPiece (readInside depth) (piece.rewrite (canonicalInside depth))
        (readFrom depth (!piece.endsInName) (canonicalText depth (!piece.endsInName) after)) := by
  rw [readFrom_of_reads (reads_canonicalText h hchoice), Piece.endsInName_rewrite]

/-- Where all groups have two options, the canonical text is read like the prompt. -/
theorem readFrom_canonicalText (depth : Nat) (boundary : Bool) (text : Text)
    (hchoices : ∀ child ∈ readFrom depth boundary text, child.OffersChoices) :
    readFrom depth boundary (canonicalText depth boundary text) =
      readFrom depth boundary text := by
  induction depth, boundary, text using readInduction with
  | nil depth boundary => rw [canonicalText_nil]
  | reads depth boundary text piece after hreads hinside ih =>
    rw [readFrom_of_reads hreads] at hchoices
    have hboth := offersChoices_addPiece.mp hchoices
    have hgroup : ∀ options, piece = .group options → 2 ≤ options.length := by
      intro options heq
      subst heq
      exact hboth.1
    rw [readFrom_canonicalText_of_reads hreads hgroup, readFrom_of_reads hreads, ih hboth.2]
    cases piece with
    | weighted type inside =>
      cases depth with
      | zero => rfl
      | succ below =>
        have hsame := hinside below inside rfl hboth.1
        simp only [Piece.rewrite, addPiece, readInside, canonicalInside, hsame]
    | literal text => rfl
    | group options => rfl
    | random name => rfl
    | fixed name value => rfl

end PromptMarkup

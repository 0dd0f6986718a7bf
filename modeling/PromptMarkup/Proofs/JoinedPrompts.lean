import PromptMarkup.Proofs.ClosedText
import PromptMarkup.Proofs.JoinedRuns
import PromptMarkup.Proofs.TreeExpansion
import PromptMarkup.Proofs.TreeReading

/-!
# Prompts after one another

A prompt is read piece by piece, so two prompts with a comma between them are read as the
first, the comma, and the second, unless something that is open at the end of the first goes on
in the second.  Literal texts that come to stand next to each other are joined.  With its
choices made the first prompt then comes out as it does by itself, whatever follows it.

Main statements:

- {lit}`ofPieces_append`: the segments of pieces one after the other are those of each, joined.
- {lit}`exists_resolveList_readFrom`: with draws between zero and one the segments of a text
  are resolved.
- {lit}`readPrompt_append`: prompts with a comma between them are read and compiled one after
  the other.
-/

namespace PromptMarkup

/-! ## Segments of pieces -/

/-- A segment as it is read: no plain text, or one that has a content and nothing else. -/
def IsReadText (segment : Segment Unit) : Prop :=
  segment.plainText? = none ∨ ∃ content, segment = .text () content

/-- Literal text comes as such a segment, on its own or joined with the first. -/
theorem isReadText_prependLiteral {literal : Text} {rest : List (Segment Unit)}
    (h : ∀ segment ∈ rest, IsReadText segment) :
    ∀ segment ∈ prependLiteral literal rest, IsReadText segment := by
  unfold prependLiteral
  split
  · exact List.forall_mem_cons.mpr ⟨Or.inr ⟨_, rfl⟩, (List.forall_mem_cons.mp h).2⟩
  · exact List.forall_mem_cons.mpr ⟨Or.inr ⟨_, rfl⟩, h⟩

/-- A span is no plain text. -/
theorem plainText?_wrapSpan (type : BracketType) (children : List (Segment Unit)) :
    (wrapSpan type children).plainText? = none := by
  rcases wrapSpan_cases type children with hwrap | ⟨_, _, _, _, _, hwrap⟩
  · rw [hwrap]
    rfl
  · rw [hwrap]
    rfl

/-- All segments of pieces are such segments. -/
theorem isReadText_ofPieces (nested : Text → List (Segment Unit)) (ps : List Piece) :
    ∀ segment ∈ ofPieces nested ps, IsReadText segment := by
  induction ps with
  | nil => exact List.forall_mem_nil _
  | cons piece rest ih =>
    rw [ofPieces_cons]
    cases piece with
    | literal text => exact isReadText_prependLiteral ih
    | weighted type inside =>
      exact List.forall_mem_cons.mpr ⟨Or.inl (plainText?_wrapSpan type _), ih⟩
    | group options => exact List.forall_mem_cons.mpr ⟨Or.inl rfl, ih⟩
    | random name => exact List.forall_mem_cons.mpr ⟨Or.inl rfl, ih⟩
    | fixed name value => exact List.forall_mem_cons.mpr ⟨Or.inl rfl, ih⟩

/-- Before segments as they are read literal text is joined like any other. -/
theorem prependLiteral_eq_joinFirst {segments : List (Segment Unit)}
    (h : ∀ segment ∈ segments, IsReadText segment) (literal : Text) :
    prependLiteral literal segments = (Segment.text () literal).joinFirst segments := by
  cases segments with
  | nil => rfl
  | cons first rest =>
    rcases (List.forall_mem_cons.mp h).1 with hnone | ⟨content, rfl⟩
    · rw [Segment.joinFirst_of_none_right hnone]
      rcases prependLiteral_cases (first :: rest) with ⟨content, others, hplain⟩ | hplain
      · cases hplain
        cases hnone
      · exact hplain literal
    · rfl

/-- The segments of pieces one after the other are those of the first pieces and those of the
others, joined where they meet. -/
theorem ofPieces_append (nested : Text → List (Segment Unit)) (ps others : List Piece) :
    ofPieces nested (ps ++ others) =
      (ofPieces nested ps).foldr Segment.joinFirst (ofPieces nested others) := by
  induction ps with
  | nil => rfl
  | cons piece rest ih =>
    rw [List.cons_append, ofPieces_cons, ofPieces_cons, ih]
    cases piece with
    | literal text =>
      have hall := isReadText_ofPieces nested (rest ++ others)
      rw [ih] at hall
      rw [addPiece, addPiece, prependLiteral_eq_joinFirst hall,
        prependLiteral_eq_joinFirst (isReadText_ofPieces nested rest), Segment.foldr_joinFirst]
    | weighted type inside =>
      rw [addPiece, addPiece, List.foldr_cons,
        Segment.joinFirst_of_none (plainText?_wrapSpan type _)]
    | group options => rw [addPiece, addPiece, List.foldr_cons, Segment.joinFirst_of_none rfl]
    | random name => rw [addPiece, addPiece, List.foldr_cons, Segment.joinFirst_of_none rfl]
    | fixed name value =>
      rw [addPiece, addPiece, List.foldr_cons, Segment.joinFirst_of_none rfl]

/-- The segments of pieces are joined already. -/
theorem mergeRuns_ofPieces (nested : Text → List (Segment Unit)) (ps : List Piece) :
    Segment.mergeRuns (ofPieces nested ps) = ofPieces nested ps := by
  have happend := ofPieces_append nested ps []
  rw [List.append_nil] at happend
  exact (Segment.mergeRuns_eq_foldr _).trans happend.symm

/-- The segments of a text are those of its pieces. -/
theorem readFrom_eq_ofPieces (depth : Nat) (boundary : Bool) (text : Text) :
    readFrom depth boundary text =
      ofPieces (readInside depth) (pieces (spansAt depth) boundary text) := by
  cases depth with
  | zero => rfl
  | succ depth =>
    have hinside : readSegments depth = readInside (depth + 1) :=
      funext fun inside => readSegments_eq depth inside
    rw [readFrom, hinside]
    rfl

/-- A text that leaves nothing open is read by itself where a stop follows it. -/
theorem readFrom_append_stop {stop : Char} (hstop : IsStop stop) (depth : Nat) (boundary : Bool)
    {text : Text} (hspans : ClosesSpans text) (hgroups : ClosesGroups text) (rest : Text) :
    readFrom depth boundary (text ++ stop :: rest) =
      Segment.mergeRuns (readFrom depth boundary text ++
        .text () [stop] :: readFrom depth true rest) := by
  have hrest := isReadText_ofPieces (readInside depth) (pieces (spansAt depth) true rest)
  have htail : ofPieces (readInside depth)
        (.literal [stop] :: pieces (spansAt depth) true rest) =
      Segment.mergeRuns (.text () [stop] :: readFrom depth true rest) := by
    rw [ofPieces, prependLiteral_eq_joinFirst hrest, Segment.mergeRuns_cons,
      readFrom_eq_ofPieces, mergeRuns_ofPieces]
  rw [readFrom_eq_ofPieces depth boundary, pieces_append_stop hstop boundary text rest hspans hgroups,
    ofPieces_append, htail, ← Segment.mergeRuns_append, ← readFrom_eq_ofPieces]

/-- A text that leaves nothing open is read by itself where a comma and a blank follow it. -/
theorem readFrom_append_comma (depth : Nat) (boundary : Bool) {text : Text}
    (hspans : ClosesSpans text) (hgroups : ClosesGroups text) (rest : Text) :
    readFrom depth boundary (text ++ ", ".toList ++ rest) =
      Segment.mergeRuns (readFrom depth boundary text ++
        .text () ", ".toList :: readFrom depth true rest) := by
  have hcomma := readFrom_append_stop (isStop_of_mem (by decide : ',' ∈ [')', ',', ' '])) depth
    boundary hspans hgroups (' ' :: rest)
  have hblank : readFrom depth true (' ' :: rest) =
      Segment.mergeRuns (.text () [' '] :: readFrom depth true rest) := by
    have hstop := readFrom_append_stop (isStop_of_mem (by decide : ' ' ∈ [')', ',', ' '])) depth
      true (by decide : ClosesSpans []) (by decide : ClosesGroups []) rest
    rwa [readFrom_nil] at hstop
  have htext : text ++ ", ".toList ++ rest = text ++ ',' :: ' ' :: rest := by simp
  rw [htext, hcomma, hblank, Segment.mergeRuns_append, Segment.mergeRuns_append,
    Segment.mergeRuns_cons, Segment.mergeRuns_mergeRuns, Segment.mergeRuns_cons,
    Segment.joinFirst_joinFirst rfl rfl, Segment.mergeRuns_cons]
  rfl

/-! ## Choices -/

section Resolve

variable {σ : Type} {source : DrawSource σ} {limit : Int}

/-- Trees in a row are resolved one after the other. -/
theorem resolveList_append {ι : Type} (trees others : List (Segment ι)) (state : σ) :
    Segment.resolveList source limit (trees ++ others) state =
      followedBy (Segment.resolveList source limit trees state) fun state =>
        Segment.resolveList source limit others state := by
  induction trees generalizing state with
  | nil =>
    rw [List.nil_append, Segment.resolveList, followedBy]
    cases Segment.resolveList source limit others state <;> simp [Except.map]
  | cons tree rest ih =>
    rw [List.cons_append, Segment.resolveList, Segment.resolveList]
    cases tree.resolve source limit state with
    | error e => rfl
    | ok result =>
      dsimp only
      rw [ih, followedBy_map]

/-- With draws between zero and one a group is resolved to one of its options. -/
theorem exists_resolve_group {text inside : Text} {state : σ} (hunit : source.GivesUnit state)
    (hlength : text.length < bracketBound) (hinside : inside.Sublist text)
    (hoptions : groupOptions inside ≠ []) :
    ∃ out last, drawOption source limit ((groupOptions inside).map .str) state = .ok (out, last) ∧
      source.GivesUnit last := by
  have hcount := log2_groupOptions_le hlength hinside
  have hshort : ∀ option ∈ groupOptions inside, option.length < bracketBound := fun option hoption =>
    Nat.lt_of_le_of_lt ((sublist_of_mem_groupOptions hoption).trans hinside).length_le hlength
  rcases exists_drawOption limit hunit hoptions hcount hshort with
    ⟨-, -, -, out, last, hdraw, -, hlast⟩
  exact ⟨out, last, hdraw, hlast⟩

/-- With draws between zero and one the segments of a text are resolved. -/
theorem exists_resolveList_readFrom (limit : Int) (depth : Nat) (boundary : Bool) (text : Text)
    {state : σ} (hunit : source.GivesUnit state) (hlength : text.length < bracketBound) :
    ∃ out last, Segment.resolveList source limit (readFrom depth boundary text) state =
      .ok (out, last) ∧ source.GivesUnit last := by
  induction depth, boundary, text using readInduction generalizing state with
  | nil depth boundary => exact ⟨[], state, by rw [readFrom_nil, Segment.resolveList], hunit⟩
  | reads depth boundary text piece after hreads hinside ih =>
    have hafter : after.length < bracketBound :=
      Nat.lt_of_le_of_lt hreads.suffix.length_le hlength
    have hpiece : ∃ out middle, piece.resolve source limit (readInside depth) state =
        .ok (out, middle) ∧ source.GivesUnit middle := by
      cases hreads with
      | span type inside after hspans hnested =>
        cases depth with
        | zero => cases hspans
        | succ below =>
          have hshort : inside.length < bracketBound := by
            simp only [List.length_cons, List.length_append] at hlength
            omega
          rcases hinside below inside rfl hunit hshort with ⟨inner, middle, hinner, hmiddle⟩
          refine ⟨type.opener :: inner ++ [type.closer], middle, ?_, hmiddle⟩
          have hread : readInside (below + 1) inside = readFrom below true inside := rfl
          rw [Piece.resolve, hread, hinner]
          rfl
      | group inside after hbalanced hparts hoptions =>
        exact exists_resolve_group hunit hlength
          ((List.sublist_append_left inside _).cons '(') hoptions
      | _ => exact ⟨_, state, rfl, hunit⟩
    rcases hpiece with ⟨first, middle, hfirst, hmiddle⟩
    rcases ih hmiddle hafter with ⟨out, last, hout, hlast⟩
    refine ⟨first ++ out, last, ?_, hlast⟩
    rw [readFrom_of_reads hreads, resolveList_addPiece (hasLevel_readInside depth), hfirst]
    dsimp only
    rw [hout]
    rfl

end Resolve

/-! ## Prompts -/

/-- A prompt that has its brackets nested and its groups closed is read by itself before a comma
and a blank, whatever prompt follows: the segments of both stand one after the other, with the
comma in between, and neighbouring texts are joined.  Choices are made in the first prompt as
they are without the second, and in the second from the state in which the first leaves the
source; so with each seed and depth the prompts are compiled to what the first is compiled to,
the comma, and something more, and they are compiled if they are not longer than a text can be. -/
theorem readPrompt_append {first : Text} (hspans : Nested first) (hgroups : ClosesGroups first)
    (second : Text) :
    (readPrompt (first ++ ", ".toList ++ second)).children =
        Segment.mergeRuns ((readPrompt first).children ++
          .text () ", ".toList :: (readPrompt second).children) ∧
      (∀ {σ : Type} (source : DrawSource σ) (limit : Int) (state : σ),
        (readPrompt (first ++ ", ".toList ++ second)).resolve source limit state =
          followedBy ((readPrompt first).resolve source limit state) fun state =>
            ((readPrompt second).resolve source limit state).map fun (text, state) =>
              (", ".toList ++ text, state)) ∧
      ∀ (surroundings : Surroundings) (seed depth : Int),
        (∀ whole, compile surroundings (some ⟨true, some seed, depth⟩)
            (readPrompt (first ++ ", ".toList ++ second)) = .ok whole → ∃ text rest,
          compile surroundings (some ⟨true, some seed, depth⟩) (readPrompt first) = .ok text ∧
            whole = text ++ ", ".toList ++ rest) ∧
        ((first ++ ", ".toList ++ second).length < bracketBound → ∃ whole,
          compile surroundings (some ⟨true, some seed, depth⟩)
            (readPrompt (first ++ ", ".toList ++ second)) = .ok whole) := by
  have hread := readFrom_append_comma maxNesting true hspans.closesSpans hgroups second
  have hresolve : ∀ {σ : Type} (source : DrawSource σ) (limit : Int) (state : σ),
      (readPrompt (first ++ ", ".toList ++ second)).resolve source limit state =
        followedBy ((readPrompt first).resolve source limit state) fun state =>
          ((readPrompt second).resolve source limit state).map fun (text, state) =>
            (", ".toList ++ text, state) := by
    intro σ source limit state
    have hcomma : ∀ state, (Segment.text () ", ".toList).resolve source limit state =
        .ok (", ".toList, state) := Segment.resolve_of_plainText? rfl
    rw [resolve_readPrompt, hread, (Segment.condenses_mergeRuns _).resolveList, resolveList_append]
    simp only [Segment.resolveList, hcomma, resolve_readPrompt]
  refine ⟨?_, hresolve, fun surroundings seed depth => ⟨fun whole hwhole => ?_, fun hlength => ?_⟩⟩
  · have hchildren : ∀ text : Text, (readPrompt text).children = readFrom maxNesting true text :=
      fun text => readSegments_eq maxNesting text
    rw [hchildren, hchildren, hchildren, hread]
  · obtain ⟨last, hlast⟩ := (compile_expanded_eq_ok_iff rfl).mp hwhole
    rw [hresolve] at hlast
    obtain ⟨text, middle, behind, htext, hbehind, rfl⟩ := exists_of_followedBy_eq_ok hlast
    cases hsecond : (readPrompt second).resolve Twister.source depth middle with
    | error fault =>
      rw [hsecond] at hbehind
      cases hbehind
    | ok result =>
      rw [hsecond] at hbehind
      cases hbehind
      exact ⟨text, result.1, (compile_expanded_eq_ok_iff rfl).mpr ⟨middle, htext⟩, by simp⟩
  · obtain ⟨out, last, hout, -⟩ := exists_resolveList_readFrom depth maxNesting true
      (first ++ ", ".toList ++ second) (Twister.givesUnit (.ofSeed seed)) hlength
    exact ⟨out, (compile_expanded_eq_ok_iff rfl).mpr ⟨last, resolve_readPrompt.trans hout⟩⟩

/-- The first prompt has a parenthesis whose partner stands behind the end of its span, and a
partner without a parenthesis; the second begins with a tag and closes a span that none opened. -/
theorem readPrompt_append_swallowed :
    Nested "\x7bb (c|\x7d d) a)".toList ∧ ClosesGroups "\x7bb (c|\x7d d) a)".toList ∧
      (readPrompt ("\x7bb (c|\x7d d) a)".toList ++ ", ".toList ++ "!e\x7d".toList)).children =
        Segment.mergeRuns ((readPrompt "\x7bb (c|\x7d d) a)".toList).children ++
          .text () ", ".toList :: (readPrompt "!e\x7d".toList).children) ∧
      ∃ text rest,
        compile ⟨.ok {}, 0⟩ (some ⟨true, some 0, 1⟩) (readPrompt "\x7bb (c|\x7d d) a)".toList) =
            .ok text ∧
          compile ⟨.ok {}, 0⟩ (some ⟨true, some 0, 1⟩)
              (readPrompt ("\x7bb (c|\x7d d) a)".toList ++ ", ".toList ++ "!e\x7d".toList)) =
            .ok (text ++ ", ".toList ++ rest) := by
  have hspans : Nested "\x7bb (c|\x7d d) a)".toList := by decide
  have hgroups : ClosesGroups "\x7bb (c|\x7d d) a)".toList := by decide
  rcases readPrompt_append hspans hgroups "!e\x7d".toList with ⟨hchildren, -, hcompiled⟩
  obtain ⟨hstarts, hlength⟩ := hcompiled ⟨.ok {}, 0⟩ 0 1
  obtain ⟨whole, hwhole⟩ := hlength (by decide)
  obtain ⟨text, rest, htext, rfl⟩ := hstarts whole hwhole
  exact ⟨hspans, hgroups, hchildren, text, rest, htext, hwhole⟩

end PromptMarkup

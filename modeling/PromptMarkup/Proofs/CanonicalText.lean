import Mathlib.Data.List.Infix
import PromptMarkup.Markup.Document
import PromptMarkup.Proofs.PieceRules
import PromptMarkup.Proofs.TreeNodes
import PromptMarkup.Render.Compile

/-!
# Canonical text

The text of a prompt's tree is put together from the texts of its pieces.  All of them
are written as they were read, but for groups: of a group only the options are left.

Main statements:

- {lit}`renderList_readFrom`: the segments of a text are written as its canonical text.
- {lit}`canonicalText_eq_self`: a text whose groups are tidy is canonical.
- {lit}`compile_readPrompt_of_tidy`: compiling the tree of such a prompt gives the prompt
  back.
-/

namespace PromptMarkup

/-! ## Texts of pieces -/

/-- The text of a piece, given how the text inside a span is written. -/
def Piece.write (inner : Text → Text) : Piece → Text
  | .literal text => text
  | .weighted type inside => type.opener :: inner inside ++ [type.closer]
  | .group options => '(' :: joinWith ['|'] options ++ [')']
  | .random name => '!' :: name
  | .fixed name value => name ++ ':' :: value

/-- The texts of pieces, one after the other. -/
def writePieces (inner : Text → Text) (ps : List Piece) : Text :=
  ps.flatMap (Piece.write inner)

/-- Whether brackets make spans at a depth that is left. -/
def spansAt : Nat → Bool
  | 0 => false
  | _ + 1 => true

/-- At a depth that is left brackets make spans. -/
theorem spansAt_of_pos {depth : Nat} (h : 0 < depth) : spansAt depth = true := by
  cases depth with
  | zero => exact absurd h (Nat.lt_irrefl 0)
  | succ depth => rfl

/-- At two depths a text begins with the same piece, if both are left where it begins with a
bracket. -/
theorem Reads.of_spansAt {depth other : Nat} {boundary : Bool} {text after : Text} {piece : Piece}
    (h : Reads (spansAt depth) boundary text piece after)
    (hleft : ∀ (type : BracketType) rest, text = type.opener :: rest → 0 < depth ∧ 0 < other) :
    Reads (spansAt other) boundary text piece after := by
  by_cases hfirst : ∃ (type : BracketType) (rest : Text), text = type.opener :: rest
  · rcases hfirst with ⟨type, rest, htext⟩
    rcases hleft type rest htext with ⟨hdepth, hother⟩
    rw [spansAt_of_pos hdepth] at h
    rwa [spansAt_of_pos hother]
  · exact h.of_ne_opener (fun type rest htext => hfirst ⟨type, rest, htext⟩) _

/-- The segments of a text that is read from a boundary or not. -/
def readFrom : Nat → Bool → Text → List (Segment Unit)
  | 0, boundary, text => ofPieces (fun _ => []) (pieces false boundary text)
  | depth + 1, boundary, text => ofPieces (readSegments depth) (pieces true boundary text)

/-- The segments of a text are read from a boundary. -/
theorem readSegments_eq (depth : Nat) (text : Text) :
    readSegments depth text = readFrom depth true text := by
  cases depth <;> rfl

/-- The children of the tree of a prompt are read from a boundary. -/
theorem children_readPrompt (text : Text) :
    (readPrompt text).children = readFrom maxNesting true text :=
  readSegments_eq maxNesting text

/-- The segments inside a span at a depth that is left. -/
def readInside : Nat → Text → List (Segment Unit)
  | 0, _ => []
  | depth + 1, text => readFrom depth true text

/-- The canonical text of a text that is read from a boundary or not. -/
def canonicalText : Nat → Bool → Text → Text
  | 0, boundary, text => writePieces (fun _ => []) (pieces false boundary text)
  | depth + 1, boundary, text =>
    writePieces (canonicalText depth true) (pieces true boundary text)

/-- The canonical text inside a span at a depth that is left. -/
def canonicalInside : Nat → Text → Text
  | 0, _ => []
  | depth + 1, text => canonicalText depth true text

/-- No text has no segments. -/
@[simp] theorem readFrom_nil (depth : Nat) (boundary : Bool) : readFrom depth boundary [] = [] := by
  cases depth <;> simp [readFrom, pieces, ofPieces]

/-- No text is canonical. -/
@[simp] theorem canonicalText_nil (depth : Nat) (boundary : Bool) :
    canonicalText depth boundary [] = [] := by
  cases depth <;> simp [canonicalText, pieces, writePieces]

/-- The first piece of a text comes first in its canonical text. -/
theorem canonicalText_of_reads {depth : Nat} {boundary : Bool} {text after : Text} {piece : Piece}
    (h : Reads (spansAt depth) boundary text piece after) :
    canonicalText depth boundary text =
      piece.write (canonicalInside depth) ++ canonicalText depth (!piece.endsInName) after := by
  cases depth with
  | zero =>
    have hpieces := pieces_of_reads h
    simp only [spansAt] at hpieces
    simp only [canonicalText, hpieces, writePieces, List.flatMap_cons]
    rfl
  | succ depth =>
    have hpieces := pieces_of_reads h
    simp only [spansAt] at hpieces
    simp only [canonicalText, hpieces, writePieces, List.flatMap_cons]
    rfl

/-- A property of what is read at all depths holds everywhere if it holds of the empty
text, and each rule hands it on from what follows the piece and from all texts one depth
further in. -/
theorem readInduction {motive : Nat → Bool → Text → Prop}
    (nil : ∀ depth boundary, motive depth boundary [])
    (reads : ∀ depth boundary text piece after, Reads (spansAt depth) boundary text piece after →
      (∀ below inside, depth = below + 1 → motive below true inside) →
      motive depth (!piece.endsInName) after → motive depth boundary text)
    (depth : Nat) (boundary : Bool) (text : Text) : motive depth boundary text := by
  induction depth generalizing boundary text with
  | zero =>
    induction boundary, text using Reads.induction (spansAt 0) with
    | nil boundary => exact nil 0 boundary
    | reads boundary text piece after hreads ih =>
      exact reads 0 boundary text piece after hreads (fun _ _ h => nomatch h) ih
  | succ depth hdepth =>
    induction boundary, text using Reads.induction (spansAt (depth + 1)) with
    | nil boundary => exact nil _ boundary
    | reads boundary text piece after hreads ih =>
      refine reads _ boundary text piece after hreads (fun below inside heq => ?_) ih
      cases heq
      exact hdepth true inside

/-- Put the segment of a piece before some segments, given how the text inside a span is
read. -/
def addPiece (nested : Text → List (Segment Unit)) (piece : Piece)
    (rest : List (Segment Unit)) : List (Segment Unit) :=
  match piece with
  | .literal text => prependLiteral text rest
  | .weighted type inside => wrapSpan type (nested inside) :: rest
  | .group options => .inlineWildcard () (options.map .str) :: rest
  | .random name => .preset () name .random none [] :: rest
  | .fixed name value => .preset () name .fixed (some value) [] :: rest

/-- The segment of the first piece comes first. -/
theorem ofPieces_cons (nested : Text → List (Segment Unit)) (piece : Piece) (rest : List Piece) :
    ofPieces nested (piece :: rest) = addPiece nested piece (ofPieces nested rest) := by
  cases piece <;> rfl

/-- The segment of the first piece of a text comes first. -/
theorem readFrom_of_reads {depth : Nat} {boundary : Bool} {text after : Text} {piece : Piece}
    (h : Reads (spansAt depth) boundary text piece after) :
    readFrom depth boundary text =
      addPiece (readInside depth) piece (readFrom depth (!piece.endsInName) after) := by
  have hpieces := pieces_of_reads h
  cases depth with
  | zero =>
    simp only [spansAt] at hpieces
    simp only [readFrom, hpieces, ofPieces_cons]
    rfl
  | succ depth =>
    simp only [spansAt] at hpieces
    simp only [readFrom, hpieces, ofPieces_cons]
    congr 1
    exact funext fun inside => readSegments_eq depth inside

/-! ## Writing what was read -/

/-- One bracket more at both ends. -/
theorem enclose_succ (type : BracketType) (level : Nat) (content : Text) :
    enclose type (level + 1) content =
      type.opener :: enclose type level content ++ [type.closer] := by
  rw [enclose, repeated, repeated, List.replicate_succ, List.replicate_succ' (a := type.closer)]
  simp [enclose, repeated]

/-- One bracket at both ends. -/
theorem enclose_one (type : BracketType) (content : Text) :
    enclose type 1 content = type.opener :: content ++ [type.closer] := by
  simp [enclose, repeated]

/-- A natural level up to the greatest one is the number of its brackets. -/
theorem clampLevel_natCast {level : Nat} (h : level ≤ maxLevel) : clampLevel level = level := by
  simp [clampLevel, h]

/-- A segment whose level, if it has one, is a number of brackets. -/
def HasLevel (segment : Segment Unit) : Prop :=
  ∀ head, segment.head? = some head →
    ∀ type level, head.kind = .weighted (.valid type) (.valid level) →
      0 ≤ level ∧ level ≤ maxLevel

/-- A span is as deep as it was made, or one level deeper than the span in it. -/
theorem wrapSpan_cases (type : BracketType) (children : List (Segment Unit)) :
    wrapSpan type children = .weighted () type 1 children ∨
      ∃ level metadata grandchildren,
        children = [.branch ⟨(), .weighted (.valid type) (.valid level), metadata⟩ grandchildren] ∧
          level < maxLevel ∧
          wrapSpan type children = .weighted () type (level.toNat + 1) grandchildren := by
  unfold wrapSpan
  split
  · rename_i inner level metadata grandchildren
    by_cases hinner : inner = type ∧ level < maxLevel
    · right
      rw [if_pos hinner, hinner.1]
      exact ⟨level, metadata, grandchildren, rfl, hinner.2, rfl⟩
    · left
      rw [if_neg hinner]
  · left
    rfl

/-- The text of a span with a number of brackets. -/
theorem render_span {type : BracketType} {level : Nat} {metadata : Option Object}
    {children : List (Segment Unit)} {inner : Text} (hlevel : level ≤ maxLevel)
    (hinner : Segment.renderList children = .ok inner) :
    (Segment.branch ⟨(), .weighted (.valid type) (.valid level), metadata⟩ children).render =
      .ok (enclose type level inner) := by
  rw [Segment.render_branch hinner]
  simp only [Kind.render, wrapWeighted, Stored.bracketType?, Stored.brackets,
    clampLevel_natCast hlevel]
  rfl

/-- A span is written in brackets around the text of its children. -/
theorem render_wrapSpan {type : BracketType} {children : List (Segment Unit)} {inner : Text}
    (hlevels : ∀ child ∈ children, HasLevel child)
    (hinner : Segment.renderList children = .ok inner) :
    (wrapSpan type children).render = .ok (type.opener :: inner ++ [type.closer]) := by
  rcases wrapSpan_cases type children with
    hwrap | ⟨level, metadata, grandchildren, hchildren, hlt, hwrap⟩
  · rw [hwrap, ← enclose_one]
    exact render_span (by decide) hinner
  · rw [hwrap]
    subst hchildren
    have hlevel := hlevels _ List.mem_cons_self _ rfl type level rfl
    rcases Int.eq_ofNat_of_zero_le hlevel.1 with ⟨n, rfl⟩
    have hbound : n + 1 ≤ maxLevel := by omega
    -- The span inside has a text, so its children have one.
    cases hgrand : Segment.renderList grandchildren with
    | error e => simp [Segment.renderList, Segment.render, Kind.showsChildren, hgrand] at hinner
    | ok text =>
      rw [Segment.renderList_cons (render_span (Nat.le_of_succ_le hbound) hgrand) rfl,
        List.append_nil] at hinner
      cases hinner
      rw [← enclose_succ]
      exact render_span hbound hgrand

/-- A span has a level from 1 to the greatest one. -/
theorem hasLevel_wrapSpan {type : BracketType} {children : List (Segment Unit)}
    (hlevels : ∀ child ∈ children, HasLevel child) : HasLevel (wrapSpan type children) := by
  intro head hhead type' level hkind
  rcases wrapSpan_cases type children with
    hwrap | ⟨inner, metadata, grandchildren, hchildren, hlt, hwrap⟩
  · rw [hwrap] at hhead
    cases hhead
    cases hkind
    decide
  · have hinner := hlevels _ (hchildren ▸ List.mem_cons_self) _ rfl type inner rfl
    rw [hwrap] at hhead
    cases hhead
    cases hkind
    omega

/-- The first piece keeps the levels in order, if those inside spans are. -/
theorem hasLevel_addPiece {nested : Text → List (Segment Unit)} {piece : Piece}
    {rest : List (Segment Unit)} (hnested : ∀ inside, ∀ child ∈ nested inside, HasLevel child)
    (hrest : ∀ child ∈ rest, HasLevel child) :
    ∀ child ∈ addPiece nested piece rest, HasLevel child := by
  have hfirst : ∀ first : Segment Unit, HasLevel first →
      ∀ child ∈ first :: rest, HasLevel child := by
    intro first hfirst child hchild
    rcases List.mem_cons.mp hchild with rfl | hchild
    · exact hfirst
    · exact hrest child hchild
  have hplain : ∀ head : Head Unit, head.kind.type? ≠ some .weighted → HasLevel (.leaf head) := by
    intro head hhead other hother type level hkind
    cases hother
    simp [hkind, Kind.type?] at hhead
  cases piece with
  | literal text =>
    rw [addPiece]
    unfold prependLiteral
    split
    · rename_i content others
      intro child hchild
      rcases List.mem_cons.mp hchild with rfl | hchild
      · exact hplain _ nofun
      · exact hrest child (List.mem_cons_of_mem _ hchild)
    · exact hfirst _ (hplain _ nofun)
  | weighted type inside => exact hfirst _ (hasLevel_wrapSpan (hnested inside))
  | group options => exact hfirst _ (hplain _ nofun)
  | random name => exact hfirst _ (hplain _ nofun)
  | fixed name value => exact hfirst _ (hplain _ nofun)

/-- Literal text is written before the text of the segments that it is put before. -/
theorem renderList_prependLiteral (literal : Text) (segments : List (Segment Unit)) :
    Segment.renderList (prependLiteral literal segments) =
      (Segment.renderList segments).map (literal ++ ·) := by
  have hcons : ∀ content rest, Segment.renderList (.text () content :: rest) =
      (Segment.renderList rest).map (content ++ ·) := by
    intro content rest
    simp [Segment.renderList, Segment.text, Segment.render, Kind.render]
  unfold prependLiteral
  split
  · rename_i content rest
    have hrest := hcons content rest
    rw [Segment.text] at hrest
    rw [hcons, hrest]
    cases Segment.renderList rest with
    | error e => rfl
    | ok text => simp [Except.map]
  · exact hcons literal segments

/-- The texts of options are the options. -/
theorem optionTexts_map_str (options : List Text) :
    optionTexts (options.map .str) = .ok options := by
  induction options with
  | nil => rfl
  | cons option rest ih =>
    rw [List.map_cons, optionTexts, ih]
    rfl

/-- The first piece is written first. -/
theorem renderList_addPiece {nested : Text → List (Segment Unit)} {inner : Text → Text}
    (hlevels : ∀ inside, ∀ child ∈ nested inside, HasLevel child)
    (hnested : ∀ inside, Segment.renderList (nested inside) = .ok (inner inside))
    {piece : Piece} {rest : List (Segment Unit)} {text : Text}
    (hrest : Segment.renderList rest = .ok text) :
    Segment.renderList (addPiece nested piece rest) = .ok (piece.write inner ++ text) := by
  cases piece with
  | literal literal =>
    rw [addPiece, renderList_prependLiteral, hrest]
    rfl
  | weighted type inside =>
    exact Segment.renderList_cons (render_wrapSpan (hlevels inside) (hnested inside)) hrest
  | group options =>
    apply Segment.renderList_cons _ hrest
    simp only [Segment.inlineWildcard, Segment.render, Kind.render, optionTexts_map_str]
    rfl
  | random name => exact Segment.renderList_cons rfl hrest
  | fixed name value => exact Segment.renderList_cons rfl hrest

/-- The levels of the segments of a text are numbers of brackets, and the segments are
written as its canonical text. -/
theorem readFrom_writes (depth : Nat) (boundary : Bool) (text : Text) :
    (∀ child ∈ readFrom depth boundary text, HasLevel child) ∧
      Segment.renderList (readFrom depth boundary text) =
        .ok (canonicalText depth boundary text) := by
  induction depth, boundary, text using readInduction with
  | nil depth boundary => simp [Segment.renderList]
  | reads depth boundary text piece after hreads hinside ih =>
    have hnested : ∀ inside, (∀ child ∈ readInside depth inside, HasLevel child) ∧
        Segment.renderList (readInside depth inside) = .ok (canonicalInside depth inside) := by
      intro inside
      cases depth with
      | zero => exact ⟨fun child hchild => absurd hchild List.not_mem_nil, rfl⟩
      | succ depth => exact hinside depth inside rfl
    rw [readFrom_of_reads hreads, canonicalText_of_reads hreads]
    constructor
    · exact hasLevel_addPiece (fun inside => (hnested inside).1) ih.1
    · exact renderList_addPiece (fun inside => (hnested inside).1)
        (fun inside => (hnested inside).2) ih.2

/-- The segments of a text are written as its canonical text. -/
theorem renderList_readFrom (depth : Nat) (boundary : Bool) (text : Text) :
    Segment.renderList (readFrom depth boundary text) =
      .ok (canonicalText depth boundary text) :=
  (readFrom_writes depth boundary text).2

/-! ## Tidy groups -/

/-- Where the parts of a group make a choice, they stand in it as they are written
back: not empty, and without blank characters at their ends. -/
def TidyParts (inside : Text) : Prop :=
  2 ≤ (splitOptions inside).length → groupOptions inside ≠ [] →
    ∀ part ∈ rawParts 0 inside, part ≠ [] ∧ trim part = part

/-- A text in which each opening parenthesis that is closed has tidy parts behind it. -/
def TidyGroups (text : Text) : Prop :=
  ∀ rest inside after, '(' :: rest <:+ text → groupClose? 0 rest = some (inside, after) →
    TidyParts inside

instance (inside : Text) : Decidable (TidyParts inside) :=
  inferInstanceAs (Decidable (_ → _ → ∀ part ∈ rawParts 0 inside, _))

/-- What stands in the parentheses that a text begins with. -/
def groupInside? : Text → Option Text
  | '(' :: rest => (groupClose? 0 rest).map (·.1)
  | _ => none

/-- The groups of a text are those that its tails begin with. -/
theorem tidyGroups_iff (text : Text) :
    TidyGroups text ↔ ∀ tail ∈ text.tails, ∀ inside ∈ groupInside? tail, TidyParts inside := by
  constructor
  · intro h tail htail inside hinside
    unfold groupInside? at hinside
    split at hinside
    · rename_i rest
      rcases Option.map_eq_some_iff.mp hinside with ⟨group, hclose, rfl⟩
      exact h rest group.1 group.2 ((List.mem_tails _ _).mp htail) hclose
    · cases hinside
  · intro h rest inside after hsuffix hclose
    apply h ('(' :: rest) ((List.mem_tails _ _).mpr hsuffix) inside
    rw [groupInside?, hclose]
    rfl

instance (text : Text) : Decidable (TidyGroups text) :=
  decidable_of_iff _ (tidyGroups_iff text).symm

/-- A part of a text has tidy groups if the text has. -/
theorem TidyGroups.of_isInfix {text part : Text} (h : TidyGroups text) (hpart : part <:+: text) :
    TidyGroups part := by
  intro rest inside after hsuffix hclose
  rcases hpart with ⟨before, behind, rfl⟩
  rcases hsuffix with ⟨start, rfl⟩
  have hgroup := groupClose?_eq_some_iff.mp hclose
  apply h (rest ++ behind) inside (after ++ behind)
  · exact ⟨before ++ start, by simp⟩
  · apply groupClose?_eq_some_iff.mpr
    exact ⟨by simp [hgroup.1], hgroup.2⟩

/-- The options of tidy parts are the parts. -/
theorem TidyParts.joinWith_groupOptions {inside : Text} (h : TidyParts inside)
    (hlength : 2 ≤ (splitOptions inside).length) (hoptions : groupOptions inside ≠ []) :
    joinWith ['|'] (groupOptions inside) = inside := by
  have hparts := h hlength hoptions
  have hsplit : splitOptions inside = rawParts 0 inside := by
    rw [splitOptions]
    exact (List.map_congr_left fun part hpart => (hparts part hpart).2).trans (List.map_id' _)
  have hgroup : groupOptions inside = rawParts 0 inside := by
    rw [groupOptions, hsplit]
    exact List.filter_eq_self.mpr fun part hpart => by simp [(hparts part hpart).1]
  rw [hgroup, joinWith_rawParts]

/-- A text whose groups are tidy is canonical. -/
theorem canonicalText_eq_self (depth : Nat) (boundary : Bool) (text : Text)
    (htidy : TidyGroups text) : canonicalText depth boundary text = text := by
  induction depth, boundary, text using readInduction with
  | nil depth boundary => exact canonicalText_nil depth boundary
  | reads depth boundary text piece after hreads hinside ih =>
    -- What follows the piece is canonical, so only the piece itself is left.
    have hafter : after <:+: text → canonicalText depth (!piece.endsInName) after = after :=
      fun hinfix => ih (htidy.of_isInfix hinfix)
    rw [canonicalText_of_reads hreads]
    cases hreads with
    | span type inside after hspans hnested =>
      cases depth with
      | zero => cases hspans
      | succ below =>
        have hcanonical : canonicalText below true inside = inside :=
          hinside below inside rfl
            (htidy.of_isInfix ⟨[type.opener], type.closer :: after, by simp⟩)
        rw [hafter ⟨type.opener :: inside ++ [type.closer], [], by simp⟩]
        simp [Piece.write, canonicalInside, hcanonical]
    | mismatch type through after =>
      rw [hafter ⟨type.opener :: through, [], by simp⟩]
      rfl
    | bracket type rest =>
      rw [hafter ⟨[type.opener], [], by simp⟩]
      rfl
    | group inside after hbalanced hlength hoptions =>
      have hparts : TidyParts inside :=
        htidy _ inside after (List.suffix_refl _) (hbalanced.groupClose? after)
      rw [hafter ⟨'(' :: inside ++ [')'], [], by simp⟩]
      simp [Piece.write, hparts.joinWith_groupOptions hlength hoptions]
    | paren rest =>
      rw [hafter ⟨['('], [], by simp⟩]
      rfl
    | random name after =>
      rw [hafter ⟨'!' :: name, [], by simp⟩]
      rfl
    | fixed name value after =>
      rw [hafter ⟨name ++ ':' :: value, [], by simp⟩]
      rfl
    | word name after =>
      rw [hafter ⟨name, [], by simp⟩]
      rfl
    | char c rest =>
      rw [hafter ⟨[c], [], by simp⟩]
      rfl

/-- A tree that is there is compiled, as it stands, to its text. -/
theorem compile_of_render {ι : Type} {surroundings : Surroundings} {given : Option CompileOptions}
    {options : CompileOptions} {root : Segment ι} {text : Text}
    (hoptions : surroundings.optionsFor given = .ok options)
    (hplain : options.expandWildcards = false) (hpresent : root.isPresent = true)
    (hrender : root.render = .ok text) : compile surroundings given root = .ok text :=
  (compile_eq_ok_iff hoptions hplain hpresent).mpr hrender

/-- The text of the tree of a prompt is its canonical text. -/
theorem render_readPrompt (text : Text) :
    (readPrompt text).render = .ok (canonicalText maxNesting true text) := by
  rw [readPrompt, promptRoot, readSegments_eq,
    Segment.render_branch (renderList_readFrom maxNesting true text)]
  rfl

/-- A tree that is read from a prompt is compiled, as it stands, to the canonical text of
the prompt. -/
theorem compile_readPrompt {surroundings : Surroundings} {given : Option CompileOptions}
    {options : CompileOptions} (hoptions : surroundings.optionsFor given = .ok options)
    (hplain : options.expandWildcards = false) (text : Text) :
    compile surroundings given (readPrompt text) =
      .ok (canonicalText maxNesting true text) :=
  compile_of_render hoptions hplain rfl (render_readPrompt text)

/-- Compiling the tree of a prompt whose groups are tidy gives the prompt back, whatever
brackets it has. -/
theorem compile_readPrompt_of_tidy {surroundings : Surroundings} {given : Option CompileOptions}
    {options : CompileOptions} {text : Text}
    (hoptions : surroundings.optionsFor given = .ok options)
    (hplain : options.expandWildcards = false) (htidy : TidyGroups text) :
    compile surroundings given (readPrompt text) = .ok text := by
  rw [compile_readPrompt hoptions hplain, canonicalText_eq_self maxNesting true text htidy]

/-- A mismatched bracket, an open one, and groups with and without a choice. -/
theorem compile_readPrompt_of_tidy_mismatched :
    compile ⟨.ok {}, 0⟩ none (readPrompt "\x7b\x7ba]!b (c|(d|e)) [e:f( )".toList) =
      .ok "\x7b\x7ba]!b (c|(d|e)) [e:f( )".toList := by
  have hoptions : Surroundings.optionsFor ⟨.ok {}, 0⟩ none = .ok ⟨false, none, 50⟩ := rfl
  apply compile_readPrompt_of_tidy hoptions rfl
  decide

end PromptMarkup

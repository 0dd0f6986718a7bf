import PromptMarkup.Proofs.InjectedValues
import PromptMarkup.Proofs.Rereading

/-!
# Expanding canonical text

A group with a single option is read as a choice where it has a bar, but it is written
without one, and then it is read as literal parentheses.  So the canonical text of a
prompt means what the prompt means as long as no group has a single option, and comes
out differently if one has.

Main statements:

- {lit}`resolveList_addPiece`: a piece is resolved before what follows it.
- {lit}`swapped_resolveList`: a text and what becomes of it are the same but for undivided
  parts.
- {lit}`diverges_resolveList`: where a group has a single option, a prompt and its
  canonical text are resolved to texts that differ.
- {lit}`compile_canonicalText`: a prompt and its canonical text are compiled alike if all
  groups have two options, and only then.
-/

namespace PromptMarkup

variable {σ : Type}

/-! ## Resolved pieces -/

/-- The text of a span with its choices made. -/
theorem resolve_span {source : DrawSource σ} {limit : Int} {type : BracketType} {level : Nat}
    {metadata : Option Object} {children : List (Segment Unit)} {state : σ}
    (hlevel : level ≤ maxLevel) :
    (Segment.branch ⟨(), .weighted (.valid type) (.valid level), metadata⟩ children).resolve
        source limit state =
      (Segment.resolveList source limit children state).map fun (inner, state) =>
        (enclose type level inner, state) := by
  rw [Segment.resolve]
  simp only [Kind.showsChildren, if_true]
  cases Segment.resolveList source limit children state with
  | error e => rfl
  | ok result =>
    simp only [Head.resolve, Kind.render, wrapWeighted, Stored.bracketType?, Stored.brackets,
      clampLevel_natCast hlevel]
    rfl

/-- A span is resolved in brackets around what its children are resolved to. -/
theorem resolve_wrapSpan {source : DrawSource σ} {limit : Int} {type : BracketType}
    {children : List (Segment Unit)} {state : σ} (hlevels : ∀ child ∈ children, HasLevel child) :
    (wrapSpan type children).resolve source limit state =
      (Segment.resolveList source limit children state).map fun (inner, state) =>
        (type.opener :: inner ++ [type.closer], state) := by
  rcases wrapSpan_cases type children with
    hwrap | ⟨level, metadata, grandchildren, hchildren, hlt, hwrap⟩
  · rw [hwrap]
    refine (resolve_span (by decide)).trans ?_
    cases Segment.resolveList source limit children state with
    | error e => rfl
    | ok result => simp [Except.map, enclose_one]
  · rw [hwrap]
    subst hchildren
    have hlevel := hlevels _ List.mem_cons_self _ rfl type level rfl
    rcases Int.eq_ofNat_of_zero_le hlevel.1 with ⟨n, rfl⟩
    have hbound : n + 1 ≤ maxLevel := by omega
    have houter : (Segment.weighted () type (n + 1) grandchildren).resolve source limit state =
        _ := resolve_span hbound
    have hinner : Segment.resolveList source limit [.branch
          ⟨(), .weighted (.valid type) (.valid (n : Int)), metadata⟩ grandchildren] state =
        (Segment.resolveList source limit grandchildren state).map fun (inner, state) =>
          (enclose type n inner, state) := by
      rw [Segment.resolveList, resolve_span (Nat.le_of_succ_le hbound)]
      cases Segment.resolveList source limit grandchildren state with
      | error e => rfl
      | ok result => simp [Except.map, Segment.resolveList]
    rw [Int.toNat_natCast, houter, hinner]
    cases Segment.resolveList source limit grandchildren state with
    | error e => rfl
    | ok result => simp [Except.map, enclose_succ]

/-- What a piece is resolved to, where presets have no values. -/
def Piece.resolve (source : DrawSource σ) (limit : Int) (nested : Text → List (Segment Unit))
    (piece : Piece) (state : σ) : Except RenderError (Text × σ) :=
  match piece with
  | .literal text => .ok (text, state)
  | .weighted type inside =>
    (Segment.resolveList source limit (nested inside) state).map fun (inner, state) =>
      (type.opener :: inner ++ [type.closer], state)
  | .group options => drawOption source limit (options.map .str) state
  | .random _ => .ok ([], state)
  | .fixed _ value => .ok (value, state)

/-- A piece is resolved before what follows it. -/
theorem resolveList_addPiece {source : DrawSource σ} {limit : Int}
    {nested : Text → List (Segment Unit)} {piece : Piece} {rest : List (Segment Unit)} {state : σ}
    (hlevels : ∀ inside, ∀ child ∈ nested inside, HasLevel child) :
    Segment.resolveList source limit (addPiece nested piece rest) state =
      match piece.resolve source limit nested state with
      | .ok (text, state) =>
        (Segment.resolveList source limit rest state).map fun (texts, state) =>
          (text ++ texts, state)
      | .error e => .error e := by
  cases piece with
  | literal literal =>
    have hcons : ∀ content others, Segment.resolveList source limit
        (.text () content :: others) state =
          (Segment.resolveList source limit others state).map fun (texts, state) =>
            (content ++ texts, state) := by
      intro content others
      simp [Segment.resolveList, Segment.text, Segment.resolve, Head.resolve, Kind.render,
        Except.map]
    rw [addPiece]
    unfold prependLiteral
    split
    · rename_i content others
      have hfirst := hcons content others
      rw [Segment.text] at hfirst
      simp only [Piece.resolve]
      rw [hcons, hfirst]
      cases Segment.resolveList source limit others state with
      | error e => rfl
      | ok result => simp [Except.map]
    · exact hcons literal rest
  | weighted type inside =>
    rw [addPiece, Segment.resolveList, resolve_wrapSpan (hlevels inside)]
    rfl
  | group options => rfl
  | random name => rfl
  | fixed name value => rfl

/-- What is resolved from a piece on is what the piece and what follows it are resolved
to. -/
theorem exists_of_resolveList_addPiece {source : DrawSource σ} {limit : Int}
    {nested : Text → List (Segment Unit)} {piece : Piece} {rest : List (Segment Unit)}
    {state last : σ} {out : Text}
    (hlevels : ∀ inside, ∀ child ∈ nested inside, HasLevel child)
    (h : Segment.resolveList source limit (addPiece nested piece rest) state = .ok (out, last)) :
    ∃ text middle texts, piece.resolve source limit nested state = .ok (text, middle) ∧
      Segment.resolveList source limit rest middle = .ok (texts, last) ∧ out = text ++ texts := by
  rw [resolveList_addPiece hlevels] at h
  cases hpiece : piece.resolve source limit nested state with
  | error e =>
    rw [hpiece] at h
    cases h
  | ok result =>
    rw [hpiece] at h
    cases hrest : Segment.resolveList source limit rest result.2 with
    | error e =>
      simp only [hrest] at h
      cases h
    | ok tail =>
      simp only [hrest] at h
      cases h
      exact ⟨result.1, result.2, tail.1, rfl, hrest, rfl⟩

/-- What a span is resolved to is in brackets what stands in it is resolved to. -/
theorem exists_of_resolve_weighted {source : DrawSource σ} {limit : Int}
    {nested : Text → List (Segment Unit)} {type : BracketType} {inside : Text} {state last : σ}
    {out : Text}
    (h : (Piece.weighted type inside).resolve source limit nested state = .ok (out, last)) :
    ∃ inner, Segment.resolveList source limit (nested inside) state = .ok (inner, last) ∧
      out = type.opener :: inner ++ [type.closer] := by
  rw [Piece.resolve] at h
  cases hresult : Segment.resolveList source limit (nested inside) state with
  | error e =>
    rw [hresult] at h
    cases h
  | ok result =>
    rw [hresult] at h
    cases h
    exact ⟨result.1, rfl, rfl⟩

/-- What stands inside a span has levels that are numbers of brackets. -/
theorem hasLevel_readInside (depth : Nat) (inside : Text) :
    ∀ child ∈ readInside depth inside, HasLevel child := by
  cases depth with
  | zero => exact fun child hchild => absurd hchild List.not_mem_nil
  | succ depth => exact (readFrom_writes depth true inside).1

/-- A text that stands too deep is not expanded. -/
theorem expandStack_of_lt {source : DrawSource σ} {limit : Int} {text : Text} {depth : Nat}
    (h : limit < depth) (state : σ) :
    expandStack source limit state [⟨text, depth⟩] = .ok (text, state) := by
  rw [expandStack, if_pos h, expandStack]
  simp [Except.map]

/-- Without depth an option that is drawn is left as it is. -/
theorem mem_of_drawOption {source : DrawSource σ} {options : List Text} {state last : σ}
    {text : Text} (hne : options ≠ [])
    (h : drawOption source 0 (options.map .str) state = .ok (text, last)) : text ∈ options := by
  cases options with
  | nil => exact absurd rfl hne
  | cons first rest =>
    unfold drawOption at h
    simp only [List.map_cons] at h
    split at h
    · rename_i option hpick
      have hmem : Value.str option ∈ (first :: rest).map Value.str := mem_of_pick hpick
      rw [expandStack_of_lt (by decide)] at h
      cases h
      simpa using hmem
    · cases h
    · cases h

/-- A text and what becomes of it are the same but for undivided parts. -/
theorem swapped_resolveList {source : DrawSource σ} (depth : Nat) (boundary : Bool) (text : Text)
    {state last : σ} {out : Text}
    (h : Segment.resolveList source 0 (readFrom depth boundary text) state = .ok (out, last)) :
    Swapped (fun before after => Undivided before ∧ Undivided after) text out := by
  induction depth, boundary, text using readInduction generalizing state last out with
  | nil depth boundary =>
    rw [readFrom_nil] at h
    cases h
    exact .nil
  | reads depth boundary text piece after hreads hinside ih =>
    rw [readFrom_of_reads hreads] at h
    rcases exists_of_resolveList_addPiece (hasLevel_readInside depth) h with
      ⟨first, middle, texts, hpiece, hrest, rfl⟩
    have hafter := ih hrest
    cases hreads with
    | span type inside after hspans hnested =>
      cases depth with
      | zero => cases hspans
      | succ below =>
        rcases exists_of_resolve_weighted hpiece with ⟨inner, hinner, rfl⟩
        have hspan := (hinside below inside rfl hinner).append (hafter.keep type.closer)
        simpa using hspan.keep type.opener
    | mismatch type through after =>
      cases hpiece
      exact hafter.keepAll (type.opener :: through)
    | bracket type rest =>
      cases hpiece
      exact hafter.keepAll [type.opener]
    | group inside after hbalanced hlength hoptions =>
      have hmem := mem_of_drawOption hoptions hpiece
      have hoption := (tidyOption_of_mem_groupOptions hbalanced hmem).undivided
      have hgroup := hafter.swap ⟨hbalanced.undivided_group, hoption⟩
      simpa using hgroup
    | paren rest =>
      cases hpiece
      exact hafter.keepAll ['(']
    | random name after hboundary hname =>
      cases hpiece
      have hplain : Undivided ('!' :: name) := undivided_of_plain (by
        intro c hc
        rcases List.mem_cons.mp hc with rfl | hc
        · decide
        · exact isGroupMark_of_isNameChar (hname.2 c hc))
      have hnone : Undivided [] := rfl
      exact hafter.swap ⟨hplain, hnone⟩
    | fixed name value after hboundary hname hvalue =>
      cases hpiece
      have hplain : Undivided first := undivided_of_plain fun c hc =>
        isGroupMark_of_isValueChar (hvalue.2 c hc)
      have hcolon : Undivided [':'] := rfl
      have hstart : Undivided name :=
        undivided_of_plain fun c hc => isGroupMark_of_isNameChar (hname.2 c hc)
      exact hafter.swap ⟨hstart.append (hcolon.append hplain), hplain⟩
    | word name after =>
      cases hpiece
      exact hafter.keepAll first
    | char c rest =>
      cases hpiece
      exact hafter.keepAll [c]

/-! ## Texts that go apart -/

/-- Two texts that go apart after a common beginning. -/
def Diverges (first second : Text) : Prop :=
  ∃ common c d rest rest', c ≠ d ∧ first = common ++ c :: rest ∧ second = common ++ d :: rest'

/-- Texts that begin differently go apart. -/
theorem diverges_of_ne {c d : Char} (h : c ≠ d) (first second : Text) :
    Diverges (c :: first) (d :: second) :=
  ⟨[], c, d, first, second, h, rfl, rfl⟩

/-- What goes apart goes apart after any text. -/
theorem Diverges.append_left {first second : Text} (text : Text) (h : Diverges first second) :
    Diverges (text ++ first) (text ++ second) := by
  rcases h with ⟨common, c, d, rest, rest', hne, rfl, rfl⟩
  exact ⟨text ++ common, c, d, rest, rest', hne, by simp, by simp⟩

/-- What goes apart goes apart before any texts. -/
theorem Diverges.append_right {first second : Text} (h : Diverges first second)
    (text text' : Text) : Diverges (first ++ text) (second ++ text') := by
  rcases h with ⟨common, c, d, rest, rest', hne, rfl, rfl⟩
  exact ⟨common, c, d, rest ++ text, rest' ++ text', hne, by simp, by simp⟩

/-- Texts that go apart are not the same. -/
theorem Diverges.ne {first second : Text} (h : Diverges first second) : first ≠ second := by
  rcases h with ⟨common, c, d, rest, rest', hne, rfl, rfl⟩
  intro heq
  have hcons := List.append_cancel_left heq
  exact hne (List.cons.inj hcons).1

/-- Undivided texts of which one comes before a bar and the other before the end of its
group go apart. -/
theorem diverges_bar {first second : Text} (hfirst : Undivided first) (hsecond : Undivided second)
    (rest rest' : Text) : Diverges (first ++ '|' :: rest) (second ++ ')' :: rest') := by
  have hdepth : ∀ (first second : Text) (depth : Nat), groupDepth? false depth first = some 0 →
      groupDepth? false depth second = some 0 →
        Diverges (first ++ '|' :: rest) (second ++ ')' :: rest') := by
    intro first
    induction first with
    | nil =>
      intro second depth hfirst hsecond
      cases hfirst
      cases second with
      | nil => exact diverges_of_ne (by decide) _ _
      | cons d second =>
        have hbar : d ≠ '|' := by
          rintro rfl
          exact (groupDepth?_cons.mp hsecond).1 ⟨rfl, Or.inr ⟨rfl, rfl⟩⟩
        exact diverges_of_ne hbar.symm _ _
    | cons c first ih =>
      intro second depth hfirst hsecond
      cases second with
      | nil =>
        cases hsecond
        have hclose : c ≠ ')' := by
          rintro rfl
          exact (groupDepth?_cons.mp hfirst).1 ⟨rfl, Or.inl rfl⟩
        exact diverges_of_ne hclose _ _
      | cons d second =>
        by_cases hsame : c = d
        · subst hsame
          have hrest := ih second (depthAfter depth c) (groupDepth?_cons.mp hfirst).2
            (groupDepth?_cons.mp hsecond).2
          exact hrest.append_left [c]
        · exact diverges_of_ne hsame _ _
  exact hdepth first second 0 hfirst hsecond

/-- An undivided text that is resolved after a parenthesis with a single option in it goes
apart from the bare option. -/
theorem diverges_option {source : DrawSource σ} {depth : Nat} {boundary : Bool}
    {option behind rest : Text} {state last : σ} {out : Text} (hoption : Undivided option)
    (hbehind : option = [] → behind.head? = some ')')
    (h : Segment.resolveList source 0 (readFrom depth boundary (option ++ ')' :: rest)) state =
      .ok (out, last)) :
    Diverges (option ++ behind) ('(' :: out) := by
  -- The induction goes into the groups that the option begins with.
  induction hlength : option.length using Nat.strongRecOn
    generalizing option behind rest boundary state out with
  | ind length ih =>
    subst hlength
    cases option with
    | nil =>
      have hhead := hbehind rfl
      cases behind with
      | nil => cases hhead
      | cons c behind =>
        cases hhead
        exact diverges_of_ne (by decide) _ _
    | cons c tail =>
      by_cases hopen : c = '('
      · subst hopen
        rcases exists_group_of_undivided hoption with ⟨inside, after, rfl, hbalanced, hafter⟩
        by_cases hinside : Undivided inside
        · -- The parenthesis is literal, and what stands in it comes next.
          have hreads : Reads (spansAt depth) boundary _ _ _ :=
            .paren _ (hinside.readGroup?_eq_none (after ++ ')' :: rest))
          have htext : '(' :: (inside ++ ')' :: after) ++ ')' :: rest =
              '(' :: (inside ++ ')' :: (after ++ ')' :: rest)) := by simp
          rw [htext, readFrom_of_reads hreads] at h
          rcases exists_of_resolveList_addPiece (hasLevel_readInside depth) h with
            ⟨first, middle, texts, hpiece, hrest, rfl⟩
          cases hpiece
          have hshorter : inside.length < ('(' :: (inside ++ ')' :: after)).length := by
            simp only [List.length_cons, List.length_append]
            omega
          have hnext : Diverges (inside ++ ')' :: (after ++ behind)) ('(' :: texts) :=
            ih inside.length hshorter hinside (fun _ => rfl) hrest rfl
          simpa using hnext.append_left ['(']
        · -- What stands in the parenthesis has a bar, which never comes after a choice.
          rcases exists_bar_of_balanced hbalanced hinside with ⟨first, others, rfl, hfirst⟩
          have hswapped := swapped_resolveList depth boundary _ h
          have hclose := hoption.balanced.groupClose? rest
          rcases hswapped.groupClose? (fun _ _ hparts => hparts) hclose with
            ⟨inside', rest', hclose', hsame, -⟩
          have hundivided : Undivided inside' := by
            rw [Undivided, ← hsame.groupDepth?_eq (fun _ _ hparts => hparts)]
            exact hoption
          rw [append_of_groupClose? hclose']
          have hbar := diverges_bar hfirst hundivided (others ++ ')' :: (after ++ behind)) rest'
          simpa using hbar.append_left ['(']
      · exact diverges_of_ne hopen _ _

/-- A piece that offers choices is resolved like the piece of the canonical text. -/
theorem resolve_rewrite {source : DrawSource σ} {limit : Int} {depth : Nat} {piece : Piece}
    (h : piece.OffersChoices (readInside depth)) (state : σ) :
    (piece.rewrite (canonicalInside depth)).resolve source limit (readInside depth) state =
      piece.resolve source limit (readInside depth) state := by
  cases piece with
  | weighted type inside =>
    cases depth with
    | zero => rfl
    | succ below =>
      have hsame : readFrom below true (canonicalText below true inside) =
          readFrom below true inside := readFrom_canonicalText below true inside h
      simp only [Piece.rewrite, Piece.resolve, readInside, canonicalInside, hsame]
  | literal text => rfl
  | group options => rfl
  | random name => rfl
  | fixed name value => rfl

/-- A group that offers no choice has a single option. -/
theorem eq_singleton_of_not_offersChoices {options : List Text}
    {nested : Text → List (Segment Unit)} (hne : options ≠ [])
    (h : ¬(Piece.group options).OffersChoices nested) : ∃ option, options = [option] := by
  cases options with
  | nil => exact absurd rfl hne
  | cons option others =>
    cases others with
    | nil => exact ⟨option, rfl⟩
    | cons next others => exact absurd (Nat.le_add_left 2 others.length) h

/-- A group with a single option is resolved to the option, and its canonical text to a text
that goes apart from it. -/
theorem diverges_group {source : DrawSource σ} {depth : Nat} {boundary : Bool}
    {inside after option first : Text} (hbalanced : Balanced inside)
    (hlength : 2 ≤ (splitOptions inside).length) (hone : groupOptions inside = [option])
    {state middle last : σ} {out : Text}
    (hpiece : (Piece.group (groupOptions inside)).resolve source 0 (readInside depth) state =
      .ok (first, middle))
    (h : Segment.resolveList source 0
      (readFrom depth boundary (canonicalText depth boundary ('(' :: inside ++ ')' :: after)))
      state = .ok (out, last)) (texts : Text) :
    Diverges (first ++ texts) out := by
  have hne : groupOptions inside ≠ [] := by
    rw [hone]
    exact List.cons_ne_nil _ _
  have htidy : TidyOption option :=
    tidyOption_of_mem_groupOptions hbalanced (hone ▸ List.mem_cons_self)
  have hdrawn : first = option := by
    have hmem := mem_of_drawOption hne hpiece
    rw [hone] at hmem
    exact List.mem_singleton.mp hmem
  have hreads : Reads (spansAt depth) boundary _ _ _ := .group inside after hbalanced hlength hne
  -- The only option stands in parentheses that are literal from now on.
  have hliteral : Reads (spansAt depth) boundary _ _ _ :=
    .paren _ (htidy.undivided.readGroup?_eq_none (canonicalText depth true after))
  have htext : canonicalText depth boundary ('(' :: inside ++ ')' :: after) =
      '(' :: (option ++ ')' :: canonicalText depth true after) := by
    rw [canonicalText_of_reads hreads]
    simp [Piece.write, Piece.endsInName, hone, joinWith]
  rw [htext, readFrom_of_reads hliteral] at h
  rcases exists_of_resolveList_addPiece (hasLevel_readInside depth) h with
    ⟨paren, middle', out, hparen, hrest, rfl⟩
  cases hparen
  rw [hdrawn]
  exact diverges_option htidy.undivided (fun hnil => absurd hnil htidy.nonempty) hrest

/-- Where a group has a single option, a prompt and its canonical text are resolved to
texts that go apart. -/
theorem diverges_resolveList {source : DrawSource σ} (depth : Nat) (boundary : Bool)
    (text : Text) (hchoices : ¬∀ child ∈ readFrom depth boundary text, child.OffersChoices)
    {state last last' : σ} {out out' : Text}
    (h : Segment.resolveList source 0 (readFrom depth boundary text) state = .ok (out, last))
    (h' : Segment.resolveList source 0 (readFrom depth boundary (canonicalText depth boundary text))
      state = .ok (out', last')) :
    Diverges out out' := by
  induction depth, boundary, text using readInduction generalizing state last last' out out' with
  | nil depth boundary =>
    rw [readFrom_nil] at hchoices
    exact absurd (fun child hchild => absurd hchild List.not_mem_nil) hchoices
  | reads depth boundary text piece after hreads hinside ih =>
    rw [readFrom_of_reads hreads] at h hchoices
    rcases exists_of_resolveList_addPiece (hasLevel_readInside depth) h with
      ⟨first, middle, texts, hpiece, hrest, rfl⟩
    by_cases hpieceChoices : piece.OffersChoices (readInside depth)
    · -- The piece comes out alike, so what follows it goes apart.
      have hafter : ¬∀ child ∈ readFrom depth (!piece.endsInName) after, child.OffersChoices :=
        fun hall => hchoices (offersChoices_addPiece.mpr ⟨hpieceChoices, hall⟩)
      have hgroup : ∀ options, piece = .group options → 2 ≤ options.length := by
        intro options heq
        subst heq
        exact hpieceChoices
      rw [readFrom_canonicalText_of_reads hreads hgroup] at h'
      rcases exists_of_resolveList_addPiece (hasLevel_readInside depth) h' with
        ⟨first', middle', texts', hpiece', hrest', rfl⟩
      rw [resolve_rewrite hpieceChoices, hpiece] at hpiece'
      cases hpiece'
      exact (ih hafter hrest hrest').append_left first
    · cases hreads with
      | span type inside after hspans hnested =>
        cases depth with
        | zero => cases hspans
        | succ below =>
          have hreads : Reads (spansAt (below + 1)) boundary _ _ _ :=
            .span type inside after hspans hnested
          rw [readFrom_canonicalText_of_reads hreads nofun] at h'
          rcases exists_of_resolveList_addPiece (hasLevel_readInside (below + 1)) h' with
            ⟨first', middle', texts', hpiece', hrest', rfl⟩
          rcases exists_of_resolve_weighted hpiece with ⟨inner, hinner, rfl⟩
          rcases exists_of_resolve_weighted hpiece' with ⟨inner', hinner', rfl⟩
          have hspan := hinside below inside rfl hpieceChoices hinner hinner'
          have hopened := (hspan.append_left [type.opener]).append_right
            (type.closer :: texts) (type.closer :: texts')
          simpa using hopened
      | group inside after hbalanced hlength hoptions =>
        rcases eq_singleton_of_not_offersChoices hoptions hpieceChoices with ⟨option, hone⟩
        exact diverges_group hbalanced hlength hone hpiece h' texts
      | _ => exact absurd trivial hpieceChoices

/-! ## Compiling with choices made -/

/-- A tree of a prompt is resolved to what its segments are resolved to. -/
theorem resolve_promptRoot {source : DrawSource σ} {limit : Int} {children : List (Segment Unit)}
    {state : σ} :
    (promptRoot children).resolve source limit state =
      Segment.resolveList source limit children state := by
  rw [promptRoot, Segment.resolve]
  simp only [Kind.showsChildren, if_true]
  cases Segment.resolveList source limit children state <;> rfl

/-- A prompt is resolved to what the segments that are read from it are resolved to. -/
theorem resolve_readPrompt {source : DrawSource σ} {limit : Int} {text : Text} {state : σ} :
    (readPrompt text).resolve source limit state =
      Segment.resolveList source limit (readFrom maxNesting true text) state := by
  rw [readPrompt, readSegments_eq, resolve_promptRoot]

/-- With its choices made a tree is compiled to what it is resolved to. -/
theorem compile_expanded_root {ι : Type} {surroundings : Surroundings} {given : Option Int}
    {limit seed : Int} (hseed : surroundings.seedFor ⟨true, given, limit⟩ = .ok seed)
    {root : Segment ι} (hpresent : root.isPresent = true) :
    compile surroundings (some ⟨true, given, limit⟩) root =
      ((root.resolve Twister.source limit (.ofSeed seed)).mapError .render).map (·.1) := by
  have hcompile : compile surroundings (some ⟨true, given, limit⟩) root =
      compileWith surroundings ⟨true, given, limit⟩ root :=
    compile_of_isPresent hpresent surroundings _
  rw [hcompile, compileWith, if_pos rfl, hseed]
  dsimp only
  cases root.resolve Twister.source limit (.ofSeed seed) <;> rfl

/-- With its choices made a tree is compiled if and only if it is resolved by the draws of the
seed. -/
theorem compile_expanded_eq_ok_iff {ι : Type} {surroundings : Surroundings} {seed depth : Int}
    {root : Segment ι} (hpresent : root.isPresent = true) {out : Text} :
    compile surroundings (some ⟨true, some seed, depth⟩) root = .ok out ↔
      ∃ last, root.resolve Twister.source depth (.ofSeed seed) = .ok (out, last) := by
  rw [compile_expanded_root rfl hpresent]
  cases root.resolve Twister.source depth (.ofSeed seed) with
  | error fault => exact iff_of_false nofun nofun
  | ok result =>
    constructor
    · rintro ⟨⟩
      exact ⟨result.2, rfl⟩
    · rintro ⟨last, ⟨⟩⟩
      rfl

/-- A prompt that is compiled with its choices made is resolved by the draws of the
seed. -/
theorem exists_of_compile_expanded {surroundings : Surroundings} {seed depth : Int}
    {text out : Text}
    (h : compile surroundings (some ⟨true, some seed, depth⟩) ((readPrompt text).inject []) =
      .ok out) :
    ∃ last, Segment.resolveList Twister.source depth (readFrom maxNesting true text)
      (.ofSeed seed) = .ok (out, last) := by
  rw [Segment.inject_nil] at h
  rw [← resolve_readPrompt]
  exact (compile_expanded_eq_ok_iff rfl).mp h

/-- A prompt offers choices if the segments that are read from it do. -/
theorem offersChoices_readPrompt {text : Text} :
    (readPrompt text).OffersChoices ↔
      ∀ child ∈ readFrom maxNesting true text, child.OffersChoices := by
  rw [readPrompt, promptRoot, readSegments_eq, Segment.offersChoices_branch]
  apply and_iff_right
  intro options hkind
  cases hkind

/-- The canonical text of a prompt is compiled to what the prompt is compiled to, whatever
the library, the seed and the depth are, if no group of the prompt has a single option.  If
one has, not even the empty library and depth zero give the same text, with any seed. -/
theorem compile_canonicalText {surroundings : Surroundings} {given : Option CompileOptions}
    {options : CompileOptions} (hoptions : surroundings.optionsFor given = .ok options)
    (hplain : options.expandWildcards = false) (text : Text) :
    ∃ canonical, compile surroundings given (readPrompt text) = .ok canonical ∧
      ((readPrompt text).OffersChoices → ∀ (library : Library) (seed depth : Int),
        compile surroundings (some ⟨true, some seed, depth⟩)
            ((readPrompt canonical).inject library) =
          compile surroundings (some ⟨true, some seed, depth⟩)
            ((readPrompt text).inject library)) ∧
      (¬(readPrompt text).OffersChoices → ∀ (seed : Int) (out : Text),
        ¬(compile surroundings (some ⟨true, some seed, 0⟩)
              ((readPrompt canonical).inject []) = .ok out ∧
            compile surroundings (some ⟨true, some seed, 0⟩)
              ((readPrompt text).inject []) = .ok out)) := by
  refine ⟨canonicalText maxNesting true text, compile_readPrompt hoptions hplain text, ?_, ?_⟩
  · intro hchoices library seed depth
    have hsame : readPrompt (canonicalText maxNesting true text) = readPrompt text := by
      rw [readPrompt, readPrompt, readSegments_eq, readSegments_eq,
        readFrom_canonicalText _ _ _ (offersChoices_readPrompt.mp hchoices)]
    rw [hsame]
  · rintro hchoices seed out ⟨hcanonical, hprompt⟩
    rcases exists_of_compile_expanded hcanonical with ⟨last, hcanonical⟩
    rcases exists_of_compile_expanded hprompt with ⟨last', hprompt⟩
    have hnot : ¬∀ child ∈ readFrom maxNesting true text, child.OffersChoices :=
      fun hall => hchoices (offersChoices_readPrompt.mpr hall)
    exact (diverges_resolveList maxNesting true text hnot hprompt hcanonical).ne rfl

/-- With two options the canonical text is compiled like the prompt. -/
theorem compile_canonicalText_choice :
    ∃ canonical, compile ⟨.ok {}, 0⟩ none (readPrompt ['(', 'a', ' ', '|', 'b', ')']) =
        .ok canonical ∧
      ∀ (library : Library) (seed depth : Int),
        compile ⟨.ok {}, 0⟩ (some ⟨true, some seed, depth⟩)
            ((readPrompt canonical).inject library) =
          compile ⟨.ok {}, 0⟩ (some ⟨true, some seed, depth⟩)
            ((readPrompt ['(', 'a', ' ', '|', 'b', ')']).inject library) := by
  have hoptions : Surroundings.optionsFor ⟨.ok {}, 0⟩ none = .ok ⟨false, none, 50⟩ := rfl
  have hreads : Reads (spansAt maxNesting) true ['(', 'a', ' ', '|', 'b', ')']
      (.group [['a'], ['b']]) [] :=
    .group ['a', ' ', '|', 'b'] [] (by decide) (by decide) (by decide)
  have hchoices : (readPrompt ['(', 'a', ' ', '|', 'b', ')']).OffersChoices := by
    rw [offersChoices_readPrompt, readFrom_of_reads hreads, readFrom_nil]
    exact offersChoices_addPiece.mpr ⟨Nat.le_refl 2, nofun⟩
  rcases compile_canonicalText hoptions rfl ['(', 'a', ' ', '|', 'b', ')'] with
    ⟨canonical, hcanonical, hsame, -⟩
  exact ⟨canonical, hcanonical, hsame hchoices⟩

/-- With one option the canonical text is literal, and the prompt is not compiled to
that. -/
theorem compile_canonicalText_single :
    compile ⟨.ok {}, 0⟩ none (readPrompt ['(', 'a', '|', ')']) = .ok ['(', 'a', ')'] ∧
      compile ⟨.ok {}, 0⟩ (some ⟨true, some 0, 0⟩)
        ((readPrompt ['(', 'a', ')']).inject []) = .ok ['(', 'a', ')'] ∧
      compile ⟨.ok {}, 0⟩ (some ⟨true, some 0, 0⟩)
        ((readPrompt ['(', 'a', '|', ')']).inject []) ≠ .ok ['(', 'a', ')'] := by
  have hgroup : Reads (spansAt maxNesting) true ['(', 'a', '|', ')'] (.group [['a']]) [] :=
    .group ['a', '|'] [] (by decide) (by decide) (by decide)
  have hprompt : readFrom maxNesting true ['(', 'a', '|', ')'] =
      [.inlineWildcard () [.str ['a']]] := by
    rw [readFrom_of_reads hgroup, readFrom_nil]
    rfl
  have hparen : Reads (spansAt maxNesting) true ['(', 'a', ')'] (.literal ['(']) ['a', ')'] :=
    .paren ['a', ')'] (by decide)
  have hword : Reads (spansAt maxNesting) (!(Piece.literal ['(']).endsInName) ['a', ')']
      (.literal ['a']) [')'] :=
    .word ['a'] [')'] rfl ⟨List.cons_ne_nil _ _, List.forall_mem_singleton.mpr (by decide)⟩
      (startsOutside_cons.mpr (by decide)) rfl
  have hclose : Reads (spansAt maxNesting) (!(Piece.literal ['a']).endsInName) [')']
      (.literal [')']) [] :=
    .char ')' [] (by decide) (by decide) nofun
  have hcanonical : readFrom maxNesting true ['(', 'a', ')'] = [.text () ['(', 'a', ')']] := by
    rw [readFrom_of_reads hparen, readFrom_of_reads hword, readFrom_of_reads hclose, readFrom_nil]
    rfl
  refine ⟨?_, ?_, ?_⟩
  · rw [readPrompt, readSegments_eq, hprompt]
    rfl
  · rw [readPrompt, readSegments_eq, hcanonical, Segment.inject_nil]
    rfl
  · intro h
    rcases exists_of_compile_expanded h with ⟨last, h⟩
    rw [readFrom_of_reads hgroup, readFrom_nil] at h
    rcases exists_of_resolveList_addPiece (hasLevel_readInside maxNesting) h with
      ⟨text, middle, texts, hpiece, -, hout⟩
    rw [Piece.resolve] at hpiece
    have hdrawn : text ∈ [['a']] := mem_of_drawOption (List.cons_ne_nil _ _) hpiece
    rw [List.mem_singleton.mp hdrawn] at hout
    cases hout

end PromptMarkup

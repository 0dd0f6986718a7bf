import PromptMarkup.Proofs.TreeExpansion
import PromptMarkup.Proofs.TreeReading

/-!
# Marks of random presets

With its choices made, a tree has a value in place of each random preset.  An exclamation
mark in an option of an inline wildcard marks no preset: the option is text, in which groups
are expanded and nothing else.

Main statements:

- {lit}`exists_resolveList_inject`: what the segments of such a tree may become.
- {lit}`compile_inject_marks`: which marks are left when a prompt is compiled with its choices
  made.
-/

namespace PromptMarkup

variable {σ : Type} {source : DrawSource σ} {limit : Int}

/-! ## Segments -/

/-- A library has values for a preset, and none of them has an exclamation mark. -/
structure Library.Replaces (library : Library) (name : Text) (values : List Text) : Prop where
  stored : library.get? (lower name) = some (some values)
  nonempty : values ≠ []
  length : values.length < bracketBound
  unmarked : ∀ value ∈ values, '!' ∉ value

/-- A segment that is a text without exclamation marks, a random preset that a library
replaces, or an inline wildcard. -/
inductive Replaceable (library : Library) : Segment Unit → Prop where
  | text (content : Text) : '!' ∉ content → Replaceable library (.text () content)
  | random (name : Text) (values : List Text) :
    library.Replaces name values → Replaceable library (.preset () name .random none [])
  | inlineWildcard (options : List Text) :
    options ≠ [] → options.length.log2 ≤ 1021 → (∀ option ∈ options, option.length < bracketBound) →
      Replaceable library (.inlineWildcard () (options.map .str))

/-- What a segment may become: a text stays, a random preset becomes one of the values that
the library has for it, and an inline wildcard one of its options with the groups in it
expanded. -/
inductive Becomes (library : Library) (limit : Int) : Segment Unit → Text → Prop where
  | text (content : Text) : Becomes library limit (.text () content) content
  | random (name : Text) (values : List Text) (value : Text) :
    library.get? (lower name) = some (some values) → value ∈ values →
      Becomes library limit (.preset () name .random none []) value
  | inlineWildcard (options : List Text) (option : Text) (draws : List Binary64) (out : Text) :
    option ∈ options → Expands limit 1 option draws out →
      Becomes library limit (.inlineWildcard () (options.map .str)) out

/-- A value is drawn, and is the text of the preset. -/
theorem drawValue_of_ne_nil {values : List Text} (hne : values ≠ []) (state : σ) :
    drawValue source (values.map .str) state =
      match pick (source.next state).1 values with
      | .error e => .error (.draw e)
      | .ok value => .ok (value, (source.next state).2) := by
  cases values with
  | nil => exact absurd rfl hne
  | cons first rest =>
    have hpick := pick_map Value.str (source.next state).1 (first :: rest)
    rw [List.map_cons] at hpick
    unfold drawValue
    simp only [List.map_cons]
    rw [hpick]
    cases pick (source.next state).1 (first :: rest) <;> rfl

/-- A random preset with values from the library is resolved by a draw of one of them. -/
theorem resolve_injectNode_random {library : Library} {name : Text} {values : List Text}
    (hstored : library.get? (lower name) = some (some values)) (hne : values ≠ []) (state : σ) :
    ((Segment.preset () name .random none []).injectNode library).resolve source limit state =
      drawValue source (values.map .str) state := by
  have hvalues : Value.items? (.list (values.map .str)) = some (values.map .str) := by
    cases values with
    | nil => exact absurd rfl hne
    | cons first rest => rfl
  simp only [Segment.preset, Segment.injectNode, Segment.head?, hstored, Segment.children?,
    Segment.ofHead, Segment.resolve, Head.resolve, Segment.storeValues, presetValues,
    Option.getD_some, Assoc.get?_set, if_true, hvalues]
  rfl

/-- With the values of the library a segment is resolved to what it may become. -/
theorem Replaceable.exists_resolve {library : Library} {segment : Segment Unit} {state : σ}
    (h : Replaceable library segment) (limit : Int) (hunit : source.GivesUnit state) :
    ∃ out last, (segment.injectNode library).resolve source limit state = .ok (out, last) ∧
      Becomes library limit segment out ∧ source.GivesUnit last := by
  cases h with
  | text content =>
    refine ⟨content, state, ?_, .text content, hunit⟩
    have hstays : (Segment.text () content).injectNode library = .text () content := rfl
    rw [hstays]
    simp [Segment.text, Segment.resolve, Head.resolve, Kind.render, Except.map]
  | random name values hvalues =>
    have hcount := log2_le_of_le_bracketBound (Nat.le_of_lt hvalues.length)
    rcases hunit.inUnit.exists_pick hvalues.nonempty hcount with ⟨share, -, value, hitem, hpick⟩
    refine ⟨value, _, ?_, .random name values value hvalues.stored (List.mem_of_getElem? hitem),
      hunit.of_gives (.cons (.nil _))⟩
    rw [resolve_injectNode_random hvalues.stored hvalues.nonempty,
      drawValue_of_ne_nil hvalues.nonempty, hpick]
  | inlineWildcard options hne hcount hlength =>
    rcases exists_drawOption limit hunit hne hcount hlength with
      ⟨option, hoption, draws, out, last, hdraw, hexpands, hlast⟩
    exact ⟨out, last, hdraw, .inlineWildcard options option draws out hoption hexpands, hlast⟩

/-- With the values of the library segments are resolved, one after the other, to what they may
become. -/
theorem exists_resolveList_inject {library : Library} {children : List (Segment Unit)} {state : σ}
    (h : ∀ child ∈ children, Replaceable library child) (limit : Int)
    (hunit : source.GivesUnit state) :
    ∃ parts last, Segment.resolveList source limit (children.map (Segment.injectNode library))
        state = .ok (parts.flatten, last) ∧
      List.Forall₂ (Becomes library limit) children parts := by
  induction children generalizing state with
  | nil => exact ⟨[], state, rfl, .nil⟩
  | cons child rest ih =>
    rcases List.forall_mem_cons.mp h with ⟨hchild, hrest⟩
    rcases hchild.exists_resolve limit hunit with ⟨out, middle, hout, hbecomes, hmiddle⟩
    rcases ih hrest hmiddle with ⟨parts, last, hparts, hall⟩
    refine ⟨out :: parts, last, ?_, .cons hbecomes hall⟩
    rw [List.map_cons, Segment.resolveList, hout, List.flatten_cons]
    simp only [hparts]
    rfl

/-! ## Marked texts -/

/-- A text without brackets and colons in which each exclamation mark marks a preset that a
library replaces: no name character stands before it, and a name comes after it. -/
structure MarksPresets (library : Library) (text : Text) : Prop where
  plain : ∀ c ∈ text, isBracket c = false ∧ c ≠ ':'
  marks : ∀ before after, text = before ++ '!' :: after →
    endsInName before = false ∧
      ∃ name rest values, readName? after = some (name, rest) ∧ library.Replaces name values

/-- A text without brackets and colons is marked if all of its marks are of one preset that the
library replaces. -/
theorem marksPresets_of_single {library : Library} {name text : Text} {values : List Text}
    (hplain : ∀ c ∈ text, isBracket c = false ∧ c ≠ ':')
    (hmarks : ∀ i < text.length, text[i]? = some '!' → endsInName (text.take i) = false ∧
      (readName? (text.drop (i + 1))).map (·.1) = some name)
    (hvalues : library.Replaces name values) : MarksPresets library text := by
  refine ⟨hplain, ?_⟩
  rintro before after rfl
  rcases hmarks before.length (by simp) (by simp) with ⟨hbefore, hname⟩
  have hafter : (before ++ '!' :: after).drop (before.length + 1) = after := by simp
  rw [List.take_left] at hbefore
  rw [hafter] at hname
  rcases Option.map_eq_some_iff.mp hname with ⟨⟨found, rest⟩, hread, rfl⟩
  exact ⟨hbefore, found, rest, values, hread, hvalues⟩

/-- A marked text at a boundary or not: a mark may come first only at a boundary. -/
structure MarksFrom (library : Library) (boundary : Bool) (text : Text) : Prop
    extends MarksPresets library text where
  first : text.head? = some '!' → boundary = true

/-- The first piece of a text was read from a start of it.  If the piece ends in a name
character, so does the start. -/
theorem Reads.exists_start {spans boundary : Bool} {text after : Text} {piece : Piece}
    (h : Reads spans boundary text piece after) :
    ∃ start, text = start ++ after ∧
      (piece.endsInName = true → endsInName start = true) := by
  cases h with
  | span type inside =>
    exact ⟨type.opener :: inside ++ [type.closer], by simp, nofun⟩
  | mismatch type through => exact ⟨type.opener :: through, rfl, id⟩
  | bracket type rest => exact ⟨[type.opener], rfl, id⟩
  | group inside => exact ⟨'(' :: inside ++ [')'], by simp, nofun⟩
  | paren rest => exact ⟨['('], rfl, id⟩
  | random name after hboundary hname =>
    refine ⟨'!' :: name, rfl, fun _ => ?_⟩
    exact (endsInName_append ['!'] hname.1).trans (endsInName_of_isName hname)
  | fixed name value after hboundary hname hvalue =>
    refine ⟨name ++ ':' :: value, rfl, fun hends => ?_⟩
    have hcolon : name ++ ':' :: value = (name ++ [':']) ++ value := by simp
    rw [hcolon, endsInName_append _ hvalue.1]
    exact hends
  | word name => exact ⟨name, rfl, id⟩
  | char c => exact ⟨[c], rfl, id⟩

/-- What follows the first piece of a marked text is marked. -/
theorem MarksFrom.after {library : Library} {spans boundary : Bool} {text after : Text}
    {piece : Piece} (h : MarksFrom library boundary text)
    (hreads : Reads spans boundary text piece after) :
    MarksFrom library (!piece.endsInName) after := by
  rcases hreads.exists_start with ⟨start, rfl, hends⟩
  have hmarks : ∀ before rest, after = before ++ '!' :: rest →
      endsInName (start ++ before) = false ∧ ∃ name last values,
        readName? rest = some (name, last) ∧ library.Replaces name values := by
    rintro before rest rfl
    exact h.marks (start ++ before) rest (by simp)
  refine ⟨⟨fun c hc => h.plain c (List.mem_append_right _ hc), fun before rest heq => ?_⟩,
    fun hfirst => ?_⟩
  · rcases hmarks before rest heq with ⟨hbefore, hname⟩
    refine ⟨?_, hname⟩
    cases before with
    | nil => rfl
    | cons c before => rwa [endsInName_append _ (List.cons_ne_nil _ _)] at hbefore
  · cases after with
    | nil => cases hfirst
    | cons c rest =>
      cases hfirst
      have hstart := (hmarks [] rest rfl).1
      rw [List.append_nil] at hstart
      cases hpiece : piece.endsInName with
      | false => rfl
      | true =>
        rw [hends hpiece] at hstart
        cases hstart

/-- Literal text without exclamation marks may stand before segments. -/
theorem replaceable_prependLiteral {library : Library} {literal : Text}
    {rest : List (Segment Unit)} (hliteral : '!' ∉ literal)
    (hrest : ∀ child ∈ rest, Replaceable library child) :
    ∀ child ∈ prependLiteral literal rest, Replaceable library child := by
  unfold prependLiteral
  split
  · rename_i content others
    rcases List.forall_mem_cons.mp hrest with ⟨hfirst, hothers⟩
    refine List.forall_mem_cons.mpr ⟨.text _ ?_, hothers⟩
    cases hfirst with
    | text _ hcontent => simp [hliteral, hcontent]
  · exact List.forall_mem_cons.mpr ⟨.text literal hliteral, hrest⟩

/-- The segment of the first piece of a marked text is replaceable. -/
theorem MarksFrom.replaceable_addPiece {library : Library} {spans boundary : Bool}
    {text after : Text} {piece : Piece} {nested : Text → List (Segment Unit)}
    {rest : List (Segment Unit)} (h : MarksFrom library boundary text)
    (hreads : Reads spans boundary text piece after) (hlength : text.length < bracketBound)
    (hrest : ∀ child ∈ rest, Replaceable library child) :
    ∀ child ∈ addPiece nested piece rest, Replaceable library child := by
  have hopener : ∀ type : BracketType, type.opener ∉ text := by
    intro type hmem
    have hplain := (h.plain _ hmem).1
    cases type <;> exact absurd hplain (by decide)
  cases hreads with
  | span type => exact absurd List.mem_cons_self (hopener type)
  | mismatch type => exact absurd List.mem_cons_self (hopener type)
  | bracket type => exact absurd List.mem_cons_self (hopener type)
  | group inside after hbalanced hparts hoptions =>
    have hinside : inside.Sublist ('(' :: inside ++ ')' :: after) :=
      ((List.sublist_append_left inside _).cons '(')
    refine List.forall_mem_cons.mpr ⟨.inlineWildcard _ hoptions
      (log2_groupOptions_le hlength hinside) fun option hoption => ?_, hrest⟩
    exact Nat.lt_of_le_of_lt ((sublist_of_mem_groupOptions hoption).trans hinside).length_le hlength
  | paren => exact replaceable_prependLiteral (by decide) hrest
  | random name after hboundary hname hend =>
    rcases (h.marks [] (name ++ after) rfl).2 with ⟨found, last, values, hread, hvalues⟩
    have hfound := readName?_eq_some_iff.mpr ⟨rfl, hname, hend⟩
    rw [hread] at hfound
    cases hfound
    exact List.forall_mem_cons.mpr ⟨.random name values hvalues, hrest⟩
  | fixed name value after =>
    exact absurd rfl (h.plain ':' (by simp)).2
  | word name after hboundary hname =>
    refine replaceable_prependLiteral (fun hmark => ?_) hrest
    exact absurd (hname.2 '!' hmark) (by decide)
  | char c after hopen hparen hword =>
    refine replaceable_prependLiteral (fun hmark => ?_) hrest
    rw [List.mem_singleton] at hmark
    subst hmark
    -- The mark comes first, so it stands at a boundary, and a name comes after it.
    rcases (h.marks [] after rfl).2 with ⟨name, last, values, hread, -⟩
    rcases readName?_eq_some_iff.mp hread with ⟨rfl, hname, -⟩
    have hend := (hword (h.first rfl)).2 rfl
    cases name with
    | nil => exact hname.1 rfl
    | cons d name =>
      rw [List.cons_append, startsOutside_cons, hname.2 d List.mem_cons_self] at hend
      cases hend

/-- The segments of a marked text are replaceable. -/
theorem MarksFrom.replaceable {library : Library} {depth : Nat} {boundary : Bool} {text : Text}
    (h : MarksFrom library boundary text) (hlength : text.length < bracketBound) :
    ∀ child ∈ readFrom depth boundary text, Replaceable library child := by
  induction depth, boundary, text using readInduction with
  | nil depth boundary =>
    rw [readFrom_nil]
    exact List.forall_mem_nil _
  | reads depth boundary text piece after hreads _ ih =>
    rw [readFrom_of_reads hreads]
    apply h.replaceable_addPiece hreads hlength
    apply ih (h.after hreads)
    rcases hreads.exists_start with ⟨start, rfl, -⟩
    rw [List.length_append] at hlength
    omega

/-! ## Marks that are left -/

/-- A character of joined parts stands in a part of one of the segments. -/
theorem exists_of_mem_flatten {library : Library} {children : List (Segment Unit)}
    {parts : List Text} {c : Char} (h : List.Forall₂ (Becomes library limit) children parts)
    (hc : c ∈ parts.flatten) :
    ∃ child ∈ children, ∃ part, Becomes library limit child part ∧ c ∈ part := by
  induction h with
  | nil => cases hc
  | @cons child part children parts hpart _ ih =>
    rw [List.flatten_cons, List.mem_append] at hc
    rcases hc with hc | hc
    · exact ⟨child, List.mem_cons_self, part, hpart, hc⟩
    · rcases ih hc with ⟨other, hother, found⟩
      exact ⟨other, List.mem_cons_of_mem _ hother, found⟩

/-- Each segment has a part among the joined ones. -/
theorem exists_subset_flatten {library : Library} {children : List (Segment Unit)}
    {parts : List Text} {child : Segment Unit}
    (h : List.Forall₂ (Becomes library limit) children parts) (hchild : child ∈ children) :
    ∃ part, Becomes library limit child part ∧ part ⊆ parts.flatten := by
  induction h with
  | nil => cases hchild
  | @cons first part children parts hpart _ ih =>
    rw [List.flatten_cons]
    rcases List.mem_cons.mp hchild with rfl | hchild
    · exact ⟨part, hpart, List.subset_append_left _ _⟩
    · rcases ih hchild with ⟨found, hfound, hsubset⟩
      exact ⟨found, hfound, List.subset_append_of_subset_right _ hsubset⟩

/-- What becomes of an inline wildcard is one of its options with the groups in it expanded. -/
theorem Becomes.exists_option {library : Library} {options : List Text} {part : Text}
    (h : Becomes library limit (.inlineWildcard () (options.map .str)) part) :
    ∃ option ∈ options, ∃ draws, Expands limit 1 option draws part := by
  generalize hsegment : Segment.inlineWildcard () (options.map .str) = segment at h
  cases h with
  | inlineWildcard options' option draws _ hoption hexpands =>
    have hvalues : options.map Value.str = options'.map Value.str := by
      simpa [Segment.inlineWildcard] using hsegment
    have hsame := List.map_injective_iff.mpr (fun _ _ => Value.str.inj) hvalues
    exact ⟨option, hsame ▸ hoption, draws, hexpands⟩
  | _ => cases hsegment

/-- A mark in what becomes of a replaceable segment is one of an option. -/
theorem Replaceable.exists_marked_option {library : Library} {segment : Segment Unit}
    {part : Text} (h : Replaceable library segment) (hpart : Becomes library limit segment part)
    (hmark : '!' ∈ part) :
    ∃ options : List Text, segment = .inlineWildcard () (options.map .str) ∧
      ∃ option ∈ options, '!' ∈ option := by
  cases h with
  | text content hplain =>
    cases hpart with
    | text => exact absurd hmark hplain
  | random name values hvalues =>
    cases hpart with
    | random _ values' value hstored hvalue =>
      rw [hvalues.stored] at hstored
      cases hstored
      exact absurd hmark (hvalues.unmarked part hvalue)
  | inlineWildcard options =>
    rcases hpart.exists_option with ⟨option, hoption, draws, hexpands⟩
    exact ⟨options, rfl, option, hoption, hexpands.mem_text hmark⟩

/-! ## Compiled prompts -/

/-- The values of a library are stored in the children of a tree of a prompt, one by one. -/
theorem inject_promptRoot {library : Library} {children : List (Segment Unit)}
    (h : ∀ child ∈ children, Replaceable library child) :
    (promptRoot children).inject library =
      promptRoot (children.map (Segment.injectNode library)) := by
  have hchildren : Segment.mapNodesList (Segment.injectNode library) children =
      children.map (Segment.injectNode library) := by
    rw [Segment.mapNodesList_eq_map]
    apply List.map_congr_left
    intro child hchild
    cases h child hchild <;> rfl
  rw [Segment.inject, promptRoot, Segment.mapNodes, hchildren]
  rfl

/-- The segments of a marked prompt are replaceable. -/
theorem MarksPresets.replaceable {library : Library} {text : Text} (h : MarksPresets library text)
    (hlength : text.length < bracketBound) :
    ∀ child ∈ (readPrompt text).children, Replaceable library child := by
  have hread : ∀ child ∈ readFrom maxNesting true text, Replaceable library child :=
    MarksFrom.replaceable ⟨h, fun _ => rfl⟩ hlength
  rw [readPrompt, readSegments_eq]
  exact hread

/-- A marked prompt is compiled to what its segments become, one after the other. -/
theorem MarksPresets.exists_compile {library : Library} {text : Text}
    (h : MarksPresets library text) (hlength : text.length < bracketBound)
    (surroundings : Surroundings) (seed depth : Int) :
    ∃ parts, compile surroundings (some ⟨true, some seed, depth⟩)
        ((readPrompt text).inject library) = .ok parts.flatten ∧
      List.Forall₂ (Becomes library depth) (readPrompt text).children parts := by
  have hchildren := h.replaceable hlength
  rcases exists_resolveList_inject hchildren depth (Twister.givesUnit (.ofSeed seed)) with
    ⟨parts, last, hparts, hall⟩
  refine ⟨parts, ?_, hall⟩
  have hseed : surroundings.seedFor ⟨true, some seed, depth⟩ = .ok seed := rfl
  have hinject : (readPrompt text).inject library =
      promptRoot ((readPrompt text).children.map (Segment.injectNode library)) :=
    inject_promptRoot hchildren
  rw [hinject, compile_expanded_root hseed rfl, resolve_promptRoot, hparts]
  rfl

/-- A prompt in which each exclamation mark marks a preset that the library replaces is compiled,
with its choices made, to what its segments become, whatever the seed and the depth are.  A
mark is left only if an option of an inline wildcard has one; if no option has, none is left.
One is left with every seed if some inline wildcard has it in all of its options, none of which
is expanded further. -/
theorem compile_inject_marks {library : Library} {text : Text} (hmarks : MarksPresets library text)
    (hlength : text.length < bracketBound) (surroundings : Surroundings) (seed depth : Int) :
    ∃ parts, compile surroundings (some ⟨true, some seed, depth⟩)
        ((readPrompt text).inject library) = .ok parts.flatten ∧
      List.Forall₂ (Becomes library depth) (readPrompt text).children parts ∧
      ('!' ∈ parts.flatten → ∃ options : List Text,
        .inlineWildcard () (options.map .str) ∈ (readPrompt text).children ∧
          ∃ option ∈ options, '!' ∈ option) ∧
      ∀ options : List Text, .inlineWildcard () (options.map .str) ∈ (readPrompt text).children →
        (∀ option ∈ options, '!' ∈ option ∧ (depth < 1 ∨ '(' ∉ option)) →
          '!' ∈ parts.flatten := by
  rcases hmarks.exists_compile hlength surroundings seed depth with ⟨parts, hcompile, hall⟩
  refine ⟨parts, hcompile, hall, fun hmark => ?_, fun options hmem hoptions => ?_⟩
  · rcases exists_of_mem_flatten hall hmark with ⟨child, hchild, part, hpart, hmark⟩
    rcases (hmarks.replaceable hlength child hchild).exists_marked_option hpart hmark with
      ⟨options, rfl, found⟩
    exact ⟨options, hchild, found⟩
  · rcases exists_subset_flatten hall hmem with ⟨part, hpart, hsubset⟩
    rcases hpart.exists_option with ⟨option, hoption, draws, hexpands⟩
    rcases hoptions option hoption with ⟨hmark, hkept⟩
    have hsame : part = option := hexpands.eq_text (by simpa using hkept)
    exact hsubset (hsame ▸ hmark)

/-- A mark after a word, and an inline wildcard with a group in it. -/
theorem compile_inject_marks_word :
    let library : Library := [(['a'], some [['b'], []])]
    let text : Text := "x !a (c|(d|e)) !a.".toList
    MarksPresets library text ∧ text.length < bracketBound ∧
      ∃ parts, compile ⟨.ok {}, 0⟩ (some ⟨true, some 3, 1⟩) ((readPrompt text).inject library) =
          .ok parts.flatten ∧
        List.Forall₂ (Becomes library 1) (readPrompt text).children parts ∧
        ('!' ∈ parts.flatten → ∃ options : List Text,
          .inlineWildcard () (options.map .str) ∈ (readPrompt text).children ∧
            ∃ option ∈ options, '!' ∈ option) ∧
        ∀ options : List Text,
          .inlineWildcard () (options.map .str) ∈ (readPrompt text).children →
            (∀ option ∈ options, '!' ∈ option ∧ ((1 : Int) < 1 ∨ '(' ∉ option)) →
              '!' ∈ parts.flatten := by
  intro library text
  have hvalues : library.Replaces ['a'] [['b'], []] :=
    ⟨by decide, List.cons_ne_nil _ _, by decide, by decide⟩
  have hplain : ∀ c ∈ text, isBracket c = false ∧ c ≠ ':' := by
    simp [text, isBracket, BracketType.ofOpener?, BracketType.ofCloser?]
  have hmarks : MarksPresets library text := marksPresets_of_single hplain (by decide) hvalues
  exact ⟨hmarks, by decide, compile_inject_marks hmarks (by decide) ⟨.ok {}, 0⟩ 3 1⟩

/-- A preset that is named in both options of an inline wildcard is not replaced, though the
library has a value for it. -/
theorem compile_inject_marks_option :
    let library : Library := [("season".toList, some ["spring".toList])]
    let text : Text := "(!season|!season)".toList
    MarksPresets library text ∧ text.length < bracketBound ∧
      compile ⟨.ok {}, 0⟩ (some ⟨true, some 0, 5⟩) ((readPrompt text).inject library) =
        .ok "!season".toList := by
  intro library text
  have hvalues : library.Replaces "season".toList ["spring".toList] :=
    ⟨by decide, List.cons_ne_nil _ _, by decide, by decide⟩
  have hplain : ∀ c ∈ text, isBracket c = false ∧ c ≠ ':' := by
    simp [text, isBracket, BracketType.ofOpener?, BracketType.ofCloser?]
  have hmarks : MarksPresets library text := marksPresets_of_single hplain (by decide) hvalues
  have hlength : text.length < bracketBound := by decide
  refine ⟨hmarks, hlength, ?_⟩
  have hgroup : Reads (spansAt maxNesting) true text
      (.group ["!season".toList, "!season".toList]) [] :=
    .group "!season|!season".toList [] (by decide) (by decide) (by decide)
  have hchildren : (readPrompt text).children =
      [.inlineWildcard () (["!season".toList, "!season".toList].map .str)] := by
    rw [readPrompt, readSegments_eq, readFrom_of_reads hgroup, readFrom_nil]
    rfl
  rcases hmarks.exists_compile hlength ⟨.ok {}, 0⟩ 0 5 with ⟨parts, hcompile, hall⟩
  rw [hchildren] at hall
  cases hall with
  | cons hpart hnil =>
    cases hnil
    rcases hpart.exists_option with ⟨option, hoption, draws, hexpands⟩
    have hsame : option = "!season".toList := by simpa using hoption
    rw [hcompile, hexpands.eq_text (Or.inr (by rw [hsame]; decide)), hsame]
    rfl

end PromptMarkup

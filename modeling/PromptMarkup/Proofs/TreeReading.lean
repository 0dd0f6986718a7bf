import PromptMarkup.Proofs.CanonicalTree

/-!
# Reading canonical trees back

The text of a canonical tree is read as the tree.  Each segment is read back from its own
text, as long as what stands before and after it does not go on with it; so the segments
of a list are read back one after the other, and those inside a span one depth further in.

Main statements:

- {lit}`readFrom_plain`: plain text is read as one literal.
- {lit}`readFrom_enclose`: brackets in a row are read as one span.
- {lit}`readPrompt_compile`: the text of a canonical tree is read as the tree.
-/

namespace PromptMarkup

/-- Whether a text ends with a name character. -/
def endsInName (text : Text) : Bool :=
  text.getLast?.any isNameChar

/-- A text after another ends as it does. -/
theorem endsInName_append (before : Text) {text : Text} (hne : text ≠ []) :
    endsInName (before ++ text) = endsInName text := by
  simp [endsInName, List.getLast?_append, List.getLast?_eq_some_getLast hne]

/-- A name ends with a name character. -/
theorem endsInName_of_isName {name : Text} (h : IsName name) : endsInName name = true := by
  rw [endsInName, List.getLast?_eq_some_getLast h.1]
  exact h.2 _ (List.getLast_mem h.1)

/-! ## Plain text -/

/-- Literal text goes into plain text that comes first, and else becomes a segment of its
own. -/
theorem prependLiteral_cases (segments : List (Segment Unit)) :
    (∃ content rest, segments = .text () content :: rest) ∨
      ∀ literal, prependLiteral literal segments = .text () literal :: segments := by
  by_cases hplain : ∃ content rest, segments = .text () content :: rest
  · exact Or.inl hplain
  · right
    intro literal
    unfold prependLiteral
    split
    · exact absurd ⟨_, _, rfl⟩ hplain
    · rfl

/-- Literal texts are put before segments one after the other. -/
theorem prependLiteral_append (first second : Text) (rest : List (Segment Unit)) :
    prependLiteral first (prependLiteral second rest) = prependLiteral (first ++ second) rest := by
  have hcons : ∀ literal content others, prependLiteral literal (.text () content :: others) =
      .text () (literal ++ content) :: others := fun _ _ _ => rfl
  rcases prependLiteral_cases rest with ⟨content, others, rfl⟩ | hplain
  · rw [hcons, hcons, hcons, List.append_assoc]
  · rw [hplain, hplain, hcons]

/-- What is plain is no special character of any sort. -/
theorem plain_of_not_special {c : Char} (h : isSpecial c = false) :
    BracketType.ofOpener? c = none ∧ c ≠ '(' ∧ c ≠ '!' ∧ c ≠ ':' := by
  simp only [isSpecial, isBracket, Bool.or_eq_false_iff, decide_eq_false_iff_not] at h
  exact ⟨by simpa using h.1.1.1.1.1, h.1.1.1.2, h.1.2, h.2⟩

/-- The first word of plain text is read as a literal. -/
theorem reads_first_word (spans : Bool) {c : Char} {tail rest : Text} (hc : isNameChar c = true)
    (hplain : ∀ d ∈ c :: tail, isSpecial d = false)
    (hname : endsInName (c :: tail) = true → StartsOutside isNameChar rest)
    (hcolon : rest.head? ≠ some ':') :
    ∃ first second, c :: tail = first ++ second ∧ first ≠ [] ∧
      Reads spans true (first ++ (second ++ rest)) (.literal first) (second ++ rest) := by
  rcases takeWhile_eq_iff isNameChar (c :: tail) _ _ |>.mp ⟨rfl, rfl⟩ with ⟨hsplit, hall, hoff⟩
  generalize hfirst : (c :: tail).takeWhile isNameChar = first at hsplit hall
  generalize (c :: tail).dropWhile isNameChar = second at hsplit hoff
  have hnonempty : first ≠ [] := by
    rw [← hfirst, List.takeWhile_cons_of_pos hc]
    exact List.cons_ne_nil _ _
  refine ⟨first, second, hsplit, hnonempty, .word first _ rfl ⟨hnonempty, hall⟩ ?_ ?_⟩
  · cases second with
    | nil =>
      apply hname
      rw [hsplit, List.append_nil]
      exact endsInName_of_isName ⟨hnonempty, hall⟩
    | cons d second => exact startsOutside_cons.mpr (startsOutside_cons.mp hoff)
  · apply readValue?_eq_none_iff.mpr
    intro after heq
    cases second with
    | nil => exact absurd (congrArg List.head? heq) hcolon
    | cons d second =>
      have hd := hplain d (hsplit ▸ List.mem_append_right _ List.mem_cons_self)
      cases heq
      cases hd

/-- Plain text is read as one literal, if nothing after it goes on with its last word. -/
theorem readFrom_plain {depth : Nat} {content rest : Text} (boundary : Bool)
    (hne : content ≠ []) (hplain : ∀ c ∈ content, isSpecial c = false)
    (hname : endsInName content = true → StartsOutside isNameChar rest)
    (hcolon : rest.head? ≠ some ':') :
    readFrom depth boundary (content ++ rest) =
      prependLiteral content (readFrom depth (!endsInName content) rest) := by
  -- Each step takes a word or a single character away.
  induction hlength : content.length using Nat.strongRecOn generalizing content boundary with
  | ind length ih =>
    subst hlength
    have hstep : ∀ first second : Text, content = first ++ second → first ≠ [] →
        Reads (spansAt depth) boundary (first ++ (second ++ rest)) (.literal first)
          (second ++ rest) →
        readFrom depth boundary (content ++ rest) =
          prependLiteral content (readFrom depth (!endsInName content) rest) := by
      intro first second hcontent hfirst hreads
      subst hcontent
      rw [List.append_assoc, readFrom_of_reads hreads, addPiece]
      by_cases hsecond : second = []
      · subst hsecond
        rw [List.append_nil, List.nil_append]
        rfl
      · have hshorter : second.length < (first ++ second).length := by
          have := List.length_pos_of_ne_nil hfirst
          rw [List.length_append]
          omega
        rw [endsInName_append first hsecond] at hname
        rw [ih second.length hshorter _ hsecond
          (fun c hc => hplain c (List.mem_append_right _ hc)) hname rfl, prependLiteral_append,
          endsInName_append first hsecond]
    cases content with
    | nil => exact absurd rfl hne
    | cons c tail =>
      rcases plain_of_not_special (hplain c List.mem_cons_self) with ⟨hopen, hparen, hmark, -⟩
      by_cases hword : boundary = true ∧ isNameChar c = true
      · rcases reads_first_word (spansAt depth) hword.2 hplain hname hcolon with
          ⟨first, second, hsplit, hnonempty, hreads⟩
        rw [← hword.1] at hreads
        exact hstep first second hsplit hnonempty hreads
      · apply hstep [c] tail rfl (List.cons_ne_nil _ _)
        apply Reads.char c _ hopen hparen
        intro hboundary
        exact ⟨by simpa [hboundary] using hword, fun heq => absurd heq hmark⟩

/-! ## Spans -/

/-- Brackets in a row are read as one span, unless what stands in them is a span that could
take one more. -/
theorem readFrom_enclose {depth level : Nat} {type : BracketType} {inner : Text}
    (hpos : 1 ≤ level) (hmax : level ≤ maxLevel) (hdepth : level ≤ depth) (hnested : Nested inner)
    (hsingle : ∀ below metadata grandchildren, readFrom (depth - level) true inner =
      [.branch ⟨(), .weighted (.valid type) (.valid below), metadata⟩ grandchildren] →
        (maxLevel : Int) ≤ below)
    (boundary : Bool) (rest : Text) :
    readFrom depth boundary (enclose type level inner ++ rest) =
      .weighted () type level (readFrom (depth - level) true inner) ::
        readFrom depth true rest := by
  have hspan : ∀ (below : Nat) (inside rest : Text) (boundary : Bool), Nested inside →
      readFrom (below + 1) boundary ((type.opener :: inside ++ [type.closer]) ++ rest) =
        wrapSpan type (readFrom below true inside) :: readFrom (below + 1) true rest := by
    intro below inside rest boundary hinside
    have hreads : Reads (spansAt (below + 1)) boundary _ _ _ := .span type inside rest rfl hinside
    have htext : (type.opener :: inside ++ [type.closer]) ++ rest =
        type.opener :: inside ++ type.closer :: rest := by simp
    rw [htext, readFrom_of_reads hreads]
    rfl
  induction level, hpos using Nat.le_induction generalizing depth boundary rest with
  | base =>
    cases depth with
    | zero => omega
    | succ below =>
      rw [enclose_one, hspan below inner rest boundary hnested]
      rcases wrapSpan_cases type (readFrom below true inner) with
        hwrap | ⟨below', metadata, grandchildren, hchildren, hlt, -⟩
      · rw [hwrap]
        rfl
      · have hmost := hsingle below' metadata grandchildren hchildren
        omega
  | succ level hpos ih =>
    cases depth with
    | zero => omega
    | succ below =>
      have hinside : readFrom below true (enclose type level inner ++ []) = _ :=
        ih (by omega) (by omega) (by rwa [Nat.add_sub_add_right] at hsingle) true []
      rw [List.append_nil, readFrom_nil] at hinside
      have hwrap : ∀ children, wrapSpan type [.weighted () type level children] =
          .weighted () type (level + 1) children := by
        intro children
        have hlt : (level : Int) < maxLevel := by omega
        simp [wrapSpan, Segment.weighted, hlt]
      rw [enclose_succ, hspan below _ rest boundary (Segment.nested_enclose hnested type level),
        hinside, hwrap, Nat.add_sub_add_right]

/-! ## Trees without identifiers -/

/-- The segment of a kind as it is made, without an identifier. -/
def Kind.build (children : List (Segment Unit)) : Kind → Segment Unit
  | .text (some content) => .text () content
  | .weighted (.valid type) (.valid level) => .weighted () type level.toNat children
  | .preset name (.valid mode) selected => .preset () name mode selected []
  | .inlineWildcard options => .inlineWildcard () options
  | kind => .branch ⟨(), kind, none⟩ children

namespace Segment

variable {ι : Type}

mutual

/-- A tree as it is made from what its segments say, without identifiers. -/
def bare : Segment ι → Segment Unit
  | .missing => .missing
  | .leaf head => head.kind.build []
  | .branch head children => head.kind.build (bareList children)

/-- Trees as they are made, without identifiers. -/
def bareList : List (Segment ι) → List (Segment Unit)
  | [] => []
  | child :: rest => child.bare :: bareList rest

end

/-- A segment is made by its kind. -/
theorem bare_of_kind? {segment : Segment ι} {kind : Kind} (h : segment.kind? = some kind) :
    segment.bare = kind.build (bareList segment.children) := by
  cases segment with
  | missing => cases h
  | leaf head =>
    cases h
    rfl
  | branch head children =>
    cases h
    rfl

/-- The levels of a segment come on top of those below it. -/
theorem bracketDepth_of_kind? {segment : Segment ι} {kind : Kind} (h : segment.kind? = some kind) :
    segment.bracketDepth = kind.levels + bracketDepthIn segment.children := by
  cases segment with
  | missing => cases h
  | leaf head =>
    cases h
    rfl
  | branch head children =>
    cases h
    rfl

/-! ## Reading segments back -/

/-- What follows the text of a segment does not go on with it. -/
structure EndsBefore (segment : Segment ι) (text rest : Text) : Prop where
  word : segment.isText → endsInName text = true → StartsOutside isNameChar rest
  colon : segment.isText → rest.head? ≠ some ':'
  random : segment.mode? = some .random → StartsOutside isNameChar rest
  fixed : segment.mode? = some .fixed → StartsOutside isValueChar rest

/-- Put a segment before those that were read, a text into plain text that comes first. -/
def addBare (segment : Segment ι) (rest : List (Segment Unit)) : List (Segment Unit) :=
  match segment.kind? with
  | some (.text (some content)) => prependLiteral content rest
  | _ => segment.bare :: rest

/-- What is made into a text is a text. -/
theorem isText_of_bare {segment : Segment ι} {content : Text}
    (h : segment.bare = .text () content) : segment.isText := by
  cases hkind : segment.kind? with
  | none =>
    cases segment with
    | missing => cases h
    | leaf head => cases hkind
    | branch head children => cases hkind
  | some kind =>
    rw [bare_of_kind? hkind] at h
    unfold Kind.build at h
    split at h
    · exact ⟨_, hkind⟩
    all_goals cases h

/-- Before segments of which the first is no text, every segment is one of its own. -/
theorem addBare_bareList {segment : Segment ι} {rest : List (Segment ι)}
    (h : segment.isText → ∀ second ∈ rest.head?, ¬second.isText) :
    segment.addBare (bareList rest) = segment.bare :: bareList rest := by
  unfold addBare
  split
  · rename_i content hkind
    have hbare : segment.bare = .text () content := bare_of_kind? hkind
    rcases prependLiteral_cases (bareList rest) with ⟨content', others, hplain⟩ | hplain
    · cases rest with
      | nil => cases hplain
      | cons second rest =>
        rw [bareList] at hplain
        have hsecond := isText_of_bare (List.cons.inj hplain).1
        exact absurd hsecond (h ⟨_, hkind⟩ second rfl)
    · rw [hplain, hbare]
  · rfl

/-- A segment is read back from its text, wherever it stands. -/
def ReadsBack (segment : Segment ι) : Prop :=
  ∀ text, segment.render = .ok text → ∀ depth boundary rest, segment.bracketDepth ≤ depth →
    (∀ mode, segment.mode? = some mode → boundary = true) → segment.EndsBefore text rest →
      readFrom depth boundary (text ++ rest) =
        segment.addBare (readFrom depth (!endsInName text) rest)

/-- Before a segment that may follow, a segment comes to its end. -/
theorem endsBefore_of_mayPrecede {first second : Segment ι} {text text' : Text} (rest : Text)
    (h : first.MayPrecede second) (hfirst : first.render = .ok text)
    (hsecond : second.render = .ok text') (hwritten : second.WrittenAs text') :
    first.EndsBefore text (text' ++ rest) := by
  have hgrow : ∀ sort, StartsOutside sort text' → StartsOutside sort (text' ++ rest) := by
    intro sort hstart
    cases text' with
    | nil => exact absurd rfl hwritten.ne_nil
    | cons c text' => exact startsOutside_cons.mpr (startsOutside_cons.mp hstart)
  -- After a text stands what is no text, and begins with a mark or a fixed preset.
  have hhead : first.isText → ∃ c tail, text' = c :: tail ∧ c ≠ ':' ∧
      (isNameChar c = true → second.mode? = some .fixed) :=
    fun htext => hwritten.head_cases fun htext' => h.texts ⟨htext, htext'⟩
  constructor
  · intro htext hend
    rcases hhead htext with ⟨c, tail, rfl, -, hname⟩
    apply startsOutside_cons.mpr
    cases hc : isNameChar c with
    | false => rfl
    | true =>
      have hboundary := h.boundary .fixed (hname hc) text hfirst
      rw [endsInName, hboundary] at hend
      cases hend
  · intro htext
    rcases hhead htext with ⟨c, tail, rfl, hcolon, -⟩
    simpa using hcolon
  · exact fun hrandom => hgrow _ (h.random hrandom text' hsecond)
  · exact fun hfixed => hgrow _ (h.fixed hfixed text' hsecond)

/-- Canonical segments in a row are read back if each is. -/
theorem readFrom_renderList {children : List (Segment ι)} {text : Text}
    (hcanonical : ∀ child ∈ children, child.CanonicalBelow)
    (hback : ∀ child ∈ children, child.ReadsBack) (hchain : children.IsChain MayPrecede)
    (htext : renderList children = .ok text) {depth : Nat}
    (hdepth : bracketDepthIn children ≤ depth) {boundary : Bool}
    (hboundary : ∀ child ∈ children.head?, ∀ mode, child.mode? = some mode → boundary = true) :
    readFrom depth boundary text = bareList children := by
  induction children generalizing text boundary with
  | nil =>
    cases htext
    rw [readFrom_nil, bareList]
  | cons child rest ih =>
    rcases (hcanonical child List.mem_cons_self).exists_render with ⟨first, hfirst, hwritten, -⟩
    rcases exists_renderList_nested fun other hother =>
      (hcanonical other (List.mem_cons_of_mem _ hother)).exists_render with ⟨tail, htail, -⟩
    rw [renderList_cons hfirst htail] at htext
    cases htext
    have hlevels : child.bracketDepth ≤ depth ∧ bracketDepthIn rest ≤ depth := by
      rw [bracketDepthIn] at hdepth
      omega
    -- What comes next in the list decides where the segment ends.
    have hnext : child.EndsBefore first tail ∧
        (∀ second ∈ rest.head?, ∀ mode, second.mode? = some mode →
          (!endsInName first) = true) ∧
        (child.isText → ∀ second ∈ rest.head?, ¬second.isText) := by
      cases rest with
      | nil =>
        cases htail
        exact ⟨⟨fun _ _ => startsOutside_nil _, fun _ => nofun, fun _ => startsOutside_nil _,
          fun _ => startsOutside_nil _⟩, nofun, nofun⟩
      | cons second others =>
        have hpair := (List.isChain_cons_cons.mp hchain).1
        rcases (hcanonical second (List.mem_cons_of_mem _ List.mem_cons_self)).exists_render with
          ⟨text', htext', hwritten', -⟩
        rcases exists_renderList_nested fun other hother =>
          (hcanonical other (List.mem_cons_of_mem _ (List.mem_cons_of_mem _ hother))).exists_render
          with ⟨tail', htail', -⟩
        rw [renderList_cons htext' htail'] at htail
        cases htail
        refine ⟨endsBefore_of_mayPrecede tail' hpair hfirst htext' hwritten', ?_, ?_⟩
        · intro other hother mode hmode
          cases hother
          rw [endsInName, hpair.boundary mode hmode first hfirst]
          rfl
        · intro hisText other hother hother'
          cases hother
          exact hpair.texts ⟨hisText, hother'⟩
    have hrest := ih (fun other hother => hcanonical other (List.mem_cons_of_mem _ hother))
      (fun other hother => hback other (List.mem_cons_of_mem _ hother)) hchain.tail htail
      hlevels.2 hnext.2.1
    rw [hback child List.mem_cons_self first hfirst depth boundary tail hlevels.1
      (hboundary child rfl) hnext.1, hrest, addBare_bareList hnext.2.2, bareList]

/-- If what is made of canonical segments is a single span, they are a single span of the
same type and level. -/
theorem exists_span_of_bareList {children : List (Segment ι)} {type : BracketType} {below : Int}
    {metadata : Option Object} {grandchildren : List (Segment Unit)}
    (hcanonical : ∀ child ∈ children, child.CanonicalBelow)
    (h : bareList children =
      [.branch ⟨(), .weighted (.valid type) (.valid below), metadata⟩ grandchildren]) :
    ∃ child level, children = [child] ∧
      child.kind? = some (.weighted (.valid type) (.valid level)) ∧ below = level := by
  cases children with
  | nil => cases h
  | cons child rest =>
    rw [bareList] at h
    rcases List.cons.inj h with ⟨hchild, hrest⟩
    have hnil : rest = [] := by
      cases rest with
      | nil => rfl
      | cons other rest => cases hrest
    subst hnil
    rcases (hcanonical child List.mem_cons_self).exists_render with ⟨text, -, hwritten, -⟩
    cases hwritten with
    | weighted type' level inner hkind =>
      rw [bare_of_kind? hkind] at hchild
      cases hchild
      exact ⟨child, level, rfl, hkind, rfl⟩
    | text content hkind =>
      rw [bare_of_kind? hkind] at hchild
      cases hchild
    | random name hkind =>
      rw [bare_of_kind? hkind] at hchild
      cases hchild
    | fixed name value hkind =>
      rw [bare_of_kind? hkind] at hchild
      cases hchild
    | inlineWildcard options hkind =>
      rw [bare_of_kind? hkind] at hchild
      cases hchild

/-- A canonical span is read back if those inside it are. -/
theorem readFrom_weighted {segment : Segment ι} (h : segment.CanonicalBelow)
    (hback : ∀ child ∈ segment.children, child.ReadsBack) {type : BracketType} {level : Nat}
    {inner : Text} (hkind : segment.kind? = some (.weighted (.valid type) (.valid level)))
    (hinner : renderList segment.children = .ok inner) (hpos : 1 ≤ level)
    (hmax : level ≤ maxLevel)
    (hsingle : ∀ child inner, segment.children = [child] →
      child.kind? = some (.weighted (.valid type) (.valid inner)) → inner = maxLevel)
    {depth : Nat} (hdepth : segment.bracketDepth ≤ depth) (boundary : Bool) (rest : Text) :
    readFrom depth boundary (enclose type level inner ++ rest) =
      segment.bare :: readFrom depth true rest := by
  have hlevels := bracketDepth_of_kind? hkind
  rw [Kind.levels, Int.toNat_natCast] at hlevels
  have hchildren : ∀ child ∈ segment.children, child.CanonicalBelow :=
    fun child hchild => h.child hchild
  have hchain : segment.children.IsChain MayPrecede := (h segment (mem_nodes_self segment)).2
  have hread : readFrom (depth - level) true inner = bareList segment.children :=
    readFrom_renderList hchildren hback hchain hinner (by omega) fun _ _ _ _ => rfl
  have hnested : Nested inner := by
    rcases exists_renderList_nested fun child hchild => (hchildren child hchild).exists_render
      with ⟨inner', hinner', hnested⟩
    rw [hinner] at hinner'
    cases hinner'
    exact hnested
  have hfull : ∀ below metadata grandchildren, readFrom (depth - level) true inner =
      [.branch ⟨(), .weighted (.valid type) (.valid below), metadata⟩ grandchildren] →
        (maxLevel : Int) ≤ below := by
    intro below metadata grandchildren heq
    rw [hread] at heq
    rcases exists_span_of_bareList hchildren heq with ⟨child, level', hchild, hspan, hbelow⟩
    exact Int.le_of_eq (hbelow.trans (hsingle child level' hchild hspan)).symm
  rw [readFrom_enclose hpos hmax (by omega) hnested hfull boundary rest, hread,
    bare_of_kind? hkind]
  rfl

/-- A canonical segment is read back if those inside it are. -/
theorem CanonicalBelow.readsBack_of_children {segment : Segment ι} (h : segment.CanonicalBelow)
    (hback : ∀ child ∈ segment.children, child.ReadsBack) : segment.ReadsBack := by
  intro text htext depth boundary rest hdepth hboundary hends
  rcases h.exists_render with ⟨text', htext', hwritten, -⟩
  rw [htext] at htext'
  cases htext'
  cases hwritten with
  | text content hkind hne hplain =>
    have htext : segment.isText := ⟨some text, hkind⟩
    rw [readFrom_plain boundary hne hplain (hends.word htext) (hends.colon htext), addBare, hkind]
  | weighted type level inner hkind hinner hpos hmax hsingle =>
    have hend : endsInName (enclose type level inner) = false := by
      cases level with
      | zero => cases hpos
      | succ level =>
        rw [enclose_succ, endsInName_append _ (List.cons_ne_nil _ _)]
        cases type <;> decide
    rw [readFrom_weighted h hback hkind hinner hpos hmax hsingle hdepth, addBare, hkind, hend]
    rfl
  | random name hkind hname =>
    have hmode : segment.mode? = some .random := by rw [mode?, hkind]
    have hreads : Reads (spansAt depth) boundary _ _ _ :=
      .random name rest (hboundary .random hmode) hname (hends.random hmode)
    have hend : endsInName ('!' :: name) = true := by
      rw [← List.singleton_append, endsInName_append _ hname.1, endsInName_of_isName hname]
    rw [readFrom_of_reads hreads, addBare, hkind, bare_of_kind? hkind, hend]
    rfl
  | fixed name value hkind hname hvalue =>
    have hmode : segment.mode? = some .fixed := by rw [mode?, hkind]
    have hreads : Reads (spansAt depth) boundary _ _ _ :=
      .fixed name value rest (hboundary .fixed hmode) hname hvalue (hends.fixed hmode)
    have hend : endsInName (name ++ ':' :: value) = endsInName value := by
      rw [List.append_cons, endsInName_append _ hvalue.1]
    rw [readFrom_of_reads hreads, addBare, hkind, bare_of_kind? hkind, hend]
    rfl
  | inlineWildcard options hkind hlength hoptions =>
    have hend : endsInName ('(' :: joinWith ['|'] options ++ [')']) = false := by
      rw [endsInName_append _ (List.cons_ne_nil _ _)]
      decide
    have htext : ('(' :: joinWith ['|'] options ++ [')']) ++ rest =
        '(' :: joinWith ['|'] options ++ ')' :: rest := by simp
    rw [htext, readFrom_of_reads (reads_joinWith hlength
      (fun option hoption => (hoptions option hoption).toTidyOption) _ boundary rest),
      addBare, hkind, bare_of_kind? hkind, hend]
    rfl

/-- Each canonical segment is read back. -/
theorem CanonicalBelow.readsBack {segment : Segment ι} (h : segment.CanonicalBelow) :
    segment.ReadsBack := by
  induction segment with
  | missing => exact h.readsBack_of_children (List.forall_mem_nil _)
  | leaf head => exact h.readsBack_of_children (List.forall_mem_nil _)
  | branch head children ih =>
    exact h.readsBack_of_children fun child hchild => ih child hchild (h.child hchild)

end Segment

/-- The text of a canonical tree is read as the tree, but for identifiers. -/
theorem readPrompt_compile {ι : Type} {surroundings : Surroundings}
    {given : Option CompileOptions} {options : CompileOptions} {root : Segment ι}
    (hoptions : surroundings.optionsFor given = .ok options)
    (hplain : options.expandWildcards = false) (hcanonical : root.Canonical) :
    ∃ text, compile surroundings given root = .ok text ∧
      readPrompt text = promptRoot (Segment.bareList root.children) := by
  rcases Segment.exists_renderList_nested fun child hchild =>
    (hcanonical.below child hchild).exists_render with ⟨text, htext, -⟩
  refine ⟨text, ?_, ?_⟩
  · have hpresent : root.isPresent = true := by
      cases root with
      | missing => cases hcanonical.top
      | leaf head => rfl
      | branch head children => rfl
    exact compile_of_render hoptions hplain hpresent
      (Segment.render_of_kind? hcanonical.top htext)
  · have hdepth := hcanonical.depth
    have hnone : (Kind.text (some [])).levels = 0 := rfl
    rw [Segment.bracketDepth_of_kind? hcanonical.top, hnone, Nat.zero_add] at hdepth
    rw [readPrompt, readSegments_eq, Segment.readFrom_renderList hcanonical.below
      (fun child hchild => (hcanonical.below child hchild).readsBack) hcanonical.siblings htext
      hdepth fun _ _ _ _ => rfl]

/-- A span of level 2 before a fixed preset. -/
theorem readPrompt_compile_span :
    ∃ text, compile ⟨.ok {}, 0⟩ none
        (Segment.branch ⟨NodeId.named "root", .text (some []), none⟩
          [.weighted (.named "span") .increase 2 [.text (.named "word") ['c']],
            .preset (.named "tag") ['k'] .fixed (some ['v']) []]) = .ok text ∧
      readPrompt text = promptRoot
        [.weighted () .increase 2 [.text () ['c']], .preset () ['k'] .fixed (some ['v']) []] := by
  have hoptions : Surroundings.optionsFor ⟨.ok {}, 0⟩ none = .ok ⟨false, none, 50⟩ := rfl
  apply readPrompt_compile hoptions rfl
  have hword : Segment.CanonicalBelow (.text (NodeId.named "word") ['c']) := by
    intro node hnode
    rw [Segment.text, Segment.nodes, List.mem_singleton] at hnode
    subst hnode
    have hplain : ∀ c ∈ ['c'], isSpecial c = false := List.forall_mem_singleton.mpr (by decide)
    exact ⟨⟨_, rfl, .text ['c'] (List.cons_ne_nil _ _) hplain⟩, .nil⟩
  have hspan : Segment.CanonicalBelow
      (.weighted (NodeId.named "span") .increase 2 [.text (.named "word") ['c']]) := by
    intro node hnode
    rcases Segment.mem_nodes_branch.mp hnode with rfl | ⟨child, hchild, hnode⟩
    · refine ⟨⟨_, rfl, .weighted .increase 2 _ (by decide) (by decide) ?_⟩, .singleton _⟩
      intro child inner hchild hkind
      cases hchild
      cases hkind
    · rw [List.mem_singleton.mp hchild] at hnode
      exact hword node hnode
  have htag : Segment.CanonicalBelow
      (.preset (NodeId.named "tag") ['k'] .fixed (some ['v']) []) := by
    intro node hnode
    rw [Segment.preset, Segment.nodes, List.mem_singleton] at hnode
    subst hnode
    have hname : IsName ['k'] :=
      ⟨List.cons_ne_nil _ _, List.forall_mem_singleton.mpr (by decide)⟩
    have hvalue : IsTagValue ['v'] :=
      ⟨List.cons_ne_nil _ _, List.forall_mem_singleton.mpr (by decide)⟩
    exact ⟨⟨_, rfl, .fixed ['k'] ['v'] hname hvalue⟩, .nil⟩
  have hmeet : Segment.MayPrecede
      (.weighted (NodeId.named "span") .increase 2 [.text (.named "word") ['c']])
      (.preset (NodeId.named "tag") ['k'] .fixed (some ['v']) []) := by
    constructor
    · rintro ⟨⟨content, hkind⟩, -⟩
      cases hkind
    · intro mode _ text htext
      cases htext
      decide
    · intro hmode
      cases hmode
    · intro hmode
      cases hmode
  constructor
  · rfl
  · intro child hchild
    rcases List.mem_cons.mp hchild with rfl | hchild
    · exact hspan
    · rw [List.mem_singleton.mp hchild]
      exact htag
  · exact .cons_cons hmeet (.singleton _)
  · decide

end PromptMarkup

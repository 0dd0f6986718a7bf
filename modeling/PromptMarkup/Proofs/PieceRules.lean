import PromptMarkup.Markup.Piece
import PromptMarkup.Proofs.BracketText
import PromptMarkup.Proofs.GroupText

/-!
# The grammar of pieces

What the first piece of a text is, and what follows it, is said by one rule for each
way of reading on.  The rules and the reader agree in both directions: the reader
follows a rule, and where a rule applies the reader takes it.

Main statements:

- {lit}`readName?_eq_some_iff` and {lit}`readValue?_eq_some_iff`: names and values are
  read as far as they go.
- {lit}`reads_nextPiece`: the reader follows the rules.
- {lit}`pieces_of_reads`: a text to which a rule applies begins with the piece of the
  rule.
-/

namespace PromptMarkup

/-! ## Maximal runs -/

/-- A text does not go on with a character of some sort. -/
def StartsOutside (sort : Char → Bool) (text : Text) : Prop :=
  ∀ c ∈ text.head?, sort c = false

@[simp] theorem startsOutside_nil (sort : Char → Bool) : StartsOutside sort [] :=
  nofun

@[simp] theorem startsOutside_cons {sort : Char → Bool} {c : Char} {rest : Text} :
    StartsOutside sort (c :: rest) ↔ sort c = false := by
  simp [StartsOutside]

/-- A run of characters of a sort goes as far as the text does not go on with one. -/
theorem takeWhile_eq_iff (sort : Char → Bool) (text run rest : Text) :
    text.takeWhile sort = run ∧ text.dropWhile sort = rest ↔
      text = run ++ rest ∧ (∀ c ∈ run, sort c = true) ∧ StartsOutside sort rest := by
  constructor
  · rintro ⟨rfl, rfl⟩
    refine ⟨List.takeWhile_append_dropWhile.symm, fun c hc => List.mem_takeWhile_imp hc, ?_⟩
    intro c hc
    have hnot := List.head?_dropWhile_not sort text
    rw [Option.mem_def.mp hc] at hnot
    exact hnot
  · rintro ⟨rfl, hrun, hrest⟩
    have htake : rest.takeWhile sort = [] ∧ rest.dropWhile sort = rest := by
      cases rest with
      | nil => exact ⟨rfl, rfl⟩
      | cons c rest =>
        rw [startsOutside_cons] at hrest
        simp [hrest]
    rw [List.takeWhile_append_of_pos hrun, List.dropWhile_append_of_pos hrun, htake.1, htake.2]
    simp

/-- A name: one or more name characters. -/
def IsName (name : Text) : Prop :=
  name ≠ [] ∧ ∀ c ∈ name, isNameChar c = true

/-- A value of a fixed tag: one or more value characters. -/
def IsTagValue (value : Text) : Prop :=
  value ≠ [] ∧ ∀ c ∈ value, isValueChar c = true

/-- A name is read as far as it goes. -/
theorem readName?_eq_some_iff {text name rest : Text} :
    readName? text = some (name, rest) ↔
      text = name ++ rest ∧ IsName name ∧ StartsOutside isNameChar rest := by
  have hrun := takeWhile_eq_iff isNameChar text name rest
  unfold readName?
  cases htake : text.takeWhile isNameChar with
  | nil =>
    rw [htake] at hrun
    constructor
    · exact nofun
    · rintro ⟨hsplit, hname, hrest⟩
      exact absurd (hrun.mpr ⟨hsplit, hname.2, hrest⟩).1.symm hname.1
  | cons c run =>
    rw [htake] at hrun
    simp only [Option.some.injEq, Prod.mk.injEq]
    rw [hrun]
    constructor
    · rintro ⟨hsplit, hall, hrest⟩
      have hname : name ≠ [] := by
        rw [← (hrun.mpr ⟨hsplit, hall, hrest⟩).1]
        exact List.cons_ne_nil c run
      exact ⟨hsplit, ⟨hname, hall⟩, hrest⟩
    · rintro ⟨hsplit, hname, hrest⟩
      exact ⟨hsplit, hname.2, hrest⟩

/-- A value is read as far as it goes. -/
theorem readValue?_eq_some_iff {text value rest : Text} :
    readValue? text = some (value, rest) ↔
      text = ':' :: value ++ rest ∧ IsTagValue value ∧ StartsOutside isValueChar rest := by
  unfold readValue?
  split
  · rename_i tail
    have hrun := takeWhile_eq_iff isValueChar tail value rest
    cases htake : tail.takeWhile isValueChar with
    | nil =>
      rw [htake] at hrun
      constructor
      · exact nofun
      · rintro ⟨hsplit, hvalue, hrest⟩
        cases hsplit
        exact absurd (hrun.mpr ⟨rfl, hvalue.2, hrest⟩).1.symm hvalue.1
    | cons c run =>
      rw [htake] at hrun
      simp only [Option.some.injEq, Prod.mk.injEq]
      rw [hrun]
      constructor
      · rintro ⟨hsplit, hall, hrest⟩
        have hvalue : value ≠ [] := by
          rw [← (hrun.mpr ⟨hsplit, hall, hrest⟩).1]
          exact List.cons_ne_nil c run
        exact ⟨by rw [hsplit]; rfl, ⟨hvalue, hall⟩, hrest⟩
      · rintro ⟨hsplit, hvalue, hrest⟩
        cases hsplit
        exact ⟨rfl, hvalue.2, hrest⟩
  · rename_i hcolon
    constructor
    · exact nofun
    · rintro ⟨hsplit, -, -⟩
      exact absurd hsplit (hcolon _)

/-- No value is read if no colon comes first, and none if no value character comes after
it. -/
theorem readValue?_eq_none_iff {text : Text} :
    readValue? text = none ↔ ∀ rest, text = ':' :: rest → StartsOutside isValueChar rest := by
  unfold readValue?
  split
  · rename_i tail
    cases tail with
    | nil => simp
    | cons c tail => cases hc : isValueChar c <;> simp [hc]
  · rename_i hcolon
    constructor
    · intro _ rest heq
      exact absurd heq (hcolon rest)
    · intro _
      rfl

/-! ## Rules -/

/-- The first piece of a text and what follows it, one rule for each way of reading.
Brackets make spans only where {lit}`spans` is set, and tags start only at a
boundary. -/
inductive Reads (spans boundary : Bool) : Text → Piece → Text → Prop where
  /-- A span around a nested text. -/
  | span (type : BracketType) (inside after : Text) :
    spans = true → Nested inside →
      Reads spans boundary (type.opener :: inside ++ type.closer :: after)
        (.weighted type inside) after
  /-- A span that a closer of the wrong type breaks off. -/
  | mismatch (type : BracketType) (through after : Text) :
    spans = true → closing type [] (through ++ after) = .mismatched through after →
      Reads spans boundary (type.opener :: through ++ after)
        (.literal (type.opener :: through)) after
  /-- An opening bracket that makes no span. -/
  | bracket (type : BracketType) (rest : Text) :
    (spans = true → closing type [] rest = .unclosed) →
      Reads spans boundary (type.opener :: rest) (.literal [type.opener]) rest
  /-- A group with two parts at least, of which one is not blank. -/
  | group (inside after : Text) :
    Balanced inside → 2 ≤ (splitOptions inside).length → groupOptions inside ≠ [] →
      Reads spans boundary ('(' :: inside ++ ')' :: after) (.group (groupOptions inside)) after
  /-- A parenthesis that opens no such group. -/
  | paren (rest : Text) :
    readGroup? rest = none → Reads spans boundary ('(' :: rest) (.literal ['(']) rest
  /-- A random tag. -/
  | random (name after : Text) :
    boundary = true → IsName name → StartsOutside isNameChar after →
      Reads spans boundary ('!' :: name ++ after) (.random name) after
  /-- A fixed tag. -/
  | fixed (name value after : Text) :
    boundary = true → IsName name → IsTagValue value → StartsOutside isValueChar after →
      Reads spans boundary (name ++ ':' :: value ++ after) (.fixed name value) after
  /-- A word that is no tag. -/
  | word (name after : Text) :
    boundary = true → IsName name → StartsOutside isNameChar after → readValue? after = none →
      Reads spans boundary (name ++ after) (.literal name) after
  /-- Any other character. -/
  | char (c : Char) (rest : Text) :
    BracketType.ofOpener? c = none → c ≠ '(' →
      (boundary = true → isNameChar c = false ∧ (c = '!' → StartsOutside isNameChar rest)) →
      Reads spans boundary (c :: rest) (.literal [c]) rest

/-- A group is read after its opening parenthesis if what stands in it has two parts at
least, of which one is not blank. -/
theorem readGroup?_eq_some_iff {text after : Text} {options : List Text} :
    readGroup? text = some (options, after) ↔
      ∃ inside, text = inside ++ ')' :: after ∧ Balanced inside ∧
        2 ≤ (splitOptions inside).length ∧ groupOptions inside ≠ [] ∧
        groupOptions inside = options := by
  unfold readGroup?
  constructor
  · intro h
    split at h
    · cases h
    · rename_i inside rest hclose
      split at h
      · rename_i hoptions
        cases h
        rcases groupClose?_eq_some_iff.mp hclose with ⟨hsplit, hbalanced⟩
        exact ⟨inside, hsplit, hbalanced, hoptions.1, hoptions.2, rfl⟩
      · cases h
  · rintro ⟨inside, rfl, hbalanced, hparts, hoptions, rfl⟩
    rw [hbalanced.groupClose?]
    simp [hparts, hoptions]

/-- What is read as a group after its opening parenthesis is one by the rules. -/
theorem Reads.of_readGroup? {spans boundary : Bool} {text after : Text} {options : List Text}
    (h : readGroup? text = some (options, after)) :
    Reads spans boundary ('(' :: text) (.group options) after := by
  rcases readGroup?_eq_some_iff.mp h with ⟨inside, rfl, hbalanced, hparts, hoptions, rfl⟩
  exact .group inside after hbalanced hparts hoptions

/-- Tidy options in parentheses are a group of them. -/
theorem reads_joinWith {options : List Text} (hlength : 2 ≤ options.length)
    (hoptions : ∀ option ∈ options, TidyOption option) (spans boundary : Bool) (rest : Text) :
    Reads spans boundary ('(' :: joinWith ['|'] options ++ ')' :: rest) (.group options) rest :=
  .of_readGroup? (readGroup?_joinWith hlength hoptions rest)

/-- The reader of words follows the rules. -/
theorem reads_nextWord {c : Char} {rest : Text} (spans : Bool)
    (hopen : BracketType.ofOpener? c = none) (hparen : c ≠ '(') :
    Reads spans true (c :: rest) (nextWord c rest).1 (nextWord c rest).2 := by
  unfold nextWord
  split
  · rename_i hmark
    subst hmark
    split
    · rename_i name after hname
      rcases readName?_eq_some_iff.mp hname with ⟨rfl, hname, hafter⟩
      exact .random name after rfl hname hafter
    · rename_i hnone
      refine .char '!' rest hopen hparen fun _ => ⟨by decide, fun _ => ?_⟩
      cases rest with
      | nil => simp
      | cons d tail =>
        cases hd : isNameChar d with
        | false => simpa using hd
        | true => simp [readName?, hd] at hnone
  · rename_i hmark
    split
    · rename_i word after hword
      rcases readName?_eq_some_iff.mp hword with ⟨hsplit, hname, hafter⟩
      rw [hsplit]
      split
      · rename_i value after' hvalue
        rcases readValue?_eq_some_iff.mp hvalue with ⟨rfl, hvalue, hafter'⟩
        rw [← List.append_assoc]
        exact .fixed word value after' rfl hname hvalue hafter'
      · rename_i hnone
        exact .word word after rfl hname hafter hnone
    · rename_i hnone
      refine .char c rest hopen hparen fun _ => ⟨?_, fun heq => absurd heq hmark⟩
      cases hc : isNameChar c with
      | false => rfl
      | true => simp [readName?, hc] at hnone

/-- The reader follows the rules. -/
theorem reads_nextPiece (spans boundary : Bool) (c : Char) (rest : Text) :
    Reads spans boundary (c :: rest) (nextPiece spans boundary c rest).1
      (nextPiece spans boundary c rest).2 := by
  unfold nextPiece
  split
  · rename_i type hopen
    rw [BracketType.eq_opener_of_ofOpener? hopen]
    split
    · rename_i hspans
      split
      · rename_i inside after hclosing
        rcases closing_eq_matched_iff.mp hclosing with ⟨rfl, hnested⟩
        exact .span type inside after hspans hnested
      · rename_i through after hclosing
        rcases closing_eq_mismatched_iff.mp hclosing with ⟨before, d, -, rfl, -⟩
        exact .mismatch type through after hspans hclosing
      · rename_i hclosing
        exact .bracket type rest fun _ => hclosing
    · rename_i hspans
      exact .bracket type rest fun h => absurd h hspans
  · rename_i hopen
    split
    · rename_i hparen
      subst hparen
      split
      · rename_i options after hgroup
        exact .of_readGroup? hgroup
      · rename_i hnone
        exact .paren rest hnone
    · rename_i hparen
      cases boundary with
      | true => exact reads_nextWord spans hopen hparen
      | false => exact .char c rest hopen hparen nofun

/-! ## Reading by the rules -/

/-- The characters with a meaning of their own are no name characters. -/
theorem isNameChar_eq_false {c : Char} (h : c ∈ ['{', '}', '[', ']', '(', ')', '|', '!', ':']) :
    isNameChar c = false := by
  simp only [List.mem_cons, List.not_mem_nil, or_false] at h
  rcases h with rfl | rfl | rfl | rfl | rfl | rfl | rfl | rfl | rfl <;> decide

/-- An opening bracket is no name character. -/
@[simp] theorem isNameChar_opener (type : BracketType) : isNameChar type.opener = false := by
  cases type <;> exact isNameChar_eq_false (by decide)

/-- A name character opens nothing. -/
theorem ofOpener?_of_isNameChar {c : Char} (h : isNameChar c = true) :
    BracketType.ofOpener? c = none := by
  cases hopen : BracketType.ofOpener? c with
  | none => rfl
  | some type =>
    rw [BracketType.eq_opener_of_ofOpener? hopen, isNameChar_opener] at h
    cases h

/-- A name character is no mark of a group. -/
theorem isGroupMark_of_isNameChar {c : Char} (h : isNameChar c = true) :
    isGroupMark c = false := by
  cases hmark : isGroupMark c with
  | false => rfl
  | true =>
    simp only [isGroupMark, Bool.or_eq_true, decide_eq_true_eq] at hmark
    rw [isNameChar_eq_false (by rcases hmark with (rfl | rfl) | rfl <;> decide)] at h
    cases h

/-- A value character is no mark of a group. -/
theorem isGroupMark_of_isValueChar {c : Char} (h : isValueChar c = true) :
    isGroupMark c = false := by
  cases hmark : isGroupMark c with
  | false => rfl
  | true =>
    simp only [isGroupMark, Bool.or_eq_true, decide_eq_true_eq] at hmark
    rcases hmark with (rfl | rfl) | rfl <;> exact absurd h (by decide)

/-- A name character is no bracket. -/
theorem isBracket_of_isNameChar {c : Char} (h : isNameChar c = true) : isBracket c = false := by
  cases hbracket : isBracket c with
  | false => rfl
  | true =>
    rcases isBracket_cases hbracket with rfl | rfl | rfl | rfl <;> exact absurd h (by decide)

/-- A value character is no bracket. -/
theorem isBracket_of_isValueChar {c : Char} (h : isValueChar c = true) : isBracket c = false := by
  cases hbracket : isBracket c with
  | false => rfl
  | true =>
    rcases isBracket_cases hbracket with rfl | rfl | rfl | rfl <;> exact absurd h (by decide)

/-- From a boundary a name is read with the value that follows it, if there is one. -/
theorem nextPiece_name {spans : Bool} {c : Char} {rest name after : Text}
    (htext : c :: rest = name ++ after) (hname : IsName name)
    (hafter : StartsOutside isNameChar after) :
    nextPiece spans true c rest =
      match readValue? after with
      | some (value, after) => (.fixed name value, after)
      | none => (.literal name, after) := by
  have hc : isNameChar c = true := by
    cases name with
    | nil => exact absurd rfl hname.1
    | cons d name =>
      cases htext
      exact hname.2 c List.mem_cons_self
  have hparen : c ≠ '(' := by
    rintro rfl
    exact absurd hc (by decide)
  have hmark : c ≠ '!' := by
    rintro rfl
    exact absurd hc (by decide)
  have hword := readName?_eq_some_iff.mpr ⟨htext, hname, hafter⟩
  have hopen := ofOpener?_of_isNameChar hc
  cases hvalue : readValue? after with
  | none => simp [nextPiece, nextWord, hopen, hparen, hmark, hword, hvalue]
  | some result => simp [nextPiece, nextWord, hopen, hparen, hmark, hword, hvalue]

/-- Where a rule applies, the reader takes it. -/
theorem nextPiece_of_reads {spans boundary : Bool} {c : Char} {rest : Text} {piece : Piece}
    {after : Text} (h : Reads spans boundary (c :: rest) piece after) :
    nextPiece spans boundary c rest = (piece, after) := by
  generalize htext : c :: rest = text at h
  cases h with
  | span type inside after hspans hnested =>
    cases htext
    simp [nextPiece, hspans, closing_eq_matched_iff.mpr ⟨rfl, hnested⟩]
  | mismatch type through after hspans hclosing =>
    cases htext
    simp [nextPiece, hspans, hclosing]
  | bracket type rest hclosing =>
    cases htext
    cases spans with
    | false => simp [nextPiece]
    | true => simp [nextPiece, hclosing rfl]
  | group inside after hbalanced hparts hoptions =>
    cases htext
    have hgroup : readGroup? (inside ++ ')' :: after) = some (groupOptions inside, after) :=
      readGroup?_eq_some_iff.mpr ⟨inside, rfl, hbalanced, hparts, hoptions, rfl⟩
    have hopen : BracketType.ofOpener? '(' = none := by decide
    simp [nextPiece, hopen, hgroup]
  | paren rest hnone =>
    cases htext
    have hopen : BracketType.ofOpener? '(' = none := by decide
    simp [nextPiece, hopen, hnone]
  | random name after hboundary hname hafter =>
    cases htext
    have hopen : BracketType.ofOpener? '!' = none := by decide
    have hread : readName? (name ++ after) = some (name, after) :=
      readName?_eq_some_iff.mpr ⟨rfl, hname, hafter⟩
    simp [nextPiece, nextWord, hopen, hboundary, hread]
  | fixed name value after hboundary hname hvalue hafter =>
    rw [List.append_assoc] at htext
    have hread : readValue? (':' :: value ++ after) = some (value, after) :=
      readValue?_eq_some_iff.mpr ⟨rfl, hvalue, hafter⟩
    have hcolon : StartsOutside isNameChar (':' :: value ++ after) :=
      startsOutside_cons.mpr (by decide)
    rw [hboundary, nextPiece_name htext hname hcolon, hread]
  | word name after hboundary hname hafter hnone =>
    rw [hboundary, nextPiece_name htext hname hafter, hnone]
  | char c rest hopen hparen hplain =>
    cases htext
    cases boundary with
    | false => simp [nextPiece, hopen, hparen]
    | true =>
      rcases hplain rfl with ⟨hname, hmark⟩
      have hword : readName? (c :: rest) = none := by simp [readName?, hname]
      by_cases hc : c = '!'
      · subst hc
        have hrest : readName? rest = none := by
          cases rest with
          | nil => rfl
          | cons d rest => simp [readName?, startsOutside_cons.mp (hmark rfl)]
        simp [nextPiece, nextWord, hopen, hrest]
      · simp [nextPiece, nextWord, hopen, hparen, hc, hword]

/-- No rule applies to the empty text. -/
theorem Reads.ne_nil {spans boundary : Bool} {text : Text} {piece : Piece} {after : Text}
    (h : Reads spans boundary text piece after) : text ≠ [] := by
  cases h with
  | fixed name value after _ hname => simp
  | word name after _ hname => simp [hname.1]
  | _ => simp

/-- Where no bracket comes first it makes no difference whether brackets make spans. -/
theorem Reads.of_ne_opener {spans boundary : Bool} {text after : Text} {piece : Piece}
    (h : Reads spans boundary text piece after)
    (hfirst : ∀ (type : BracketType) rest, text ≠ type.opener :: rest) (spans' : Bool) :
    Reads spans' boundary text piece after := by
  cases h with
  | span type => exact absurd rfl (hfirst type _)
  | mismatch type => exact absurd rfl (hfirst type _)
  | bracket type => exact absurd rfl (hfirst type _)
  | group inside after hbalanced hparts hoptions =>
    exact .group inside after hbalanced hparts hoptions
  | paren after hnone => exact .paren after hnone
  | random name after hboundary hname hafter => exact .random name after hboundary hname hafter
  | fixed name value after hboundary hname hvalue hafter =>
    exact .fixed name value after hboundary hname hvalue hafter
  | word name after hboundary hname hafter hnone =>
    exact .word name after hboundary hname hafter hnone
  | char c after hopen hparen hplain => exact .char c after hopen hparen hplain

/-- A text to which a rule applies begins with the piece of the rule. -/
theorem pieces_of_reads {spans boundary : Bool} {text : Text} {piece : Piece} {after : Text}
    (h : Reads spans boundary text piece after) :
    pieces spans boundary text = piece :: pieces spans (!piece.endsInName) after := by
  cases text with
  | nil => exact absurd rfl h.ne_nil
  | cons c rest => rw [pieces, nextPiece_of_reads h]

/-- A property of texts holds of all if it holds of the empty text and each rule hands it
on. -/
theorem Reads.induction (spans : Bool) {motive : Bool → Text → Prop}
    (nil : ∀ boundary, motive boundary [])
    (reads : ∀ boundary text piece after, Reads spans boundary text piece after →
      motive (!piece.endsInName) after → motive boundary text)
    (boundary : Bool) (text : Text) : motive boundary text :=
  match text with
  | [] => nil boundary
  | c :: rest =>
    have := length_nextPiece spans boundary c rest
    reads boundary (c :: rest) _ _ (reads_nextPiece spans boundary c rest)
      (Reads.induction spans nil reads _ _)
termination_by text.length
decreasing_by
  simp only [List.length_cons]
  omega

end PromptMarkup

import PromptMarkup.Bracket

/-!
# The grammar of brackets

Which brackets belong together is said by one scan that keeps the types of the open
ones, innermost first.  A text is nested if the scan ends with what it began with,
and never closes a bracket that was open before.  Only brackets matter to the scan.

Main statements:

- {lit}`closing_eq_matched_iff`: a span closes after the first nested text that is
  followed by its closer.
- {lit}`closing_eq_unclosed_iff`: a span stays open when the scan gets through the text.
- {lit}`closing_eq_mismatched_iff`: a span breaks off at the first closer where the scan
  gets stuck.
-/

namespace PromptMarkup

/-! ## Characters -/

namespace BracketType

/-- An opening bracket is read as one of its type. -/
@[simp] theorem ofOpener?_opener (type : BracketType) : ofOpener? type.opener = some type := by
  cases type <;> decide

/-- A closing bracket is read as one of its type. -/
@[simp] theorem ofCloser?_closer (type : BracketType) : ofCloser? type.closer = some type := by
  cases type <;> decide

/-- A closing bracket opens nothing. -/
@[simp] theorem ofOpener?_closer (type : BracketType) : ofOpener? type.closer = none := by
  cases type <;> decide

/-- What opens a span of a type is its opening bracket. -/
theorem eq_opener_of_ofOpener? {c : Char} {type : BracketType} (h : ofOpener? c = some type) :
    c = type.opener := by
  unfold ofOpener? at h
  split at h
  · cases h
    assumption
  · split at h
    · cases h
      assumption
    · cases h

/-- What closes a span of a type is its closing bracket. -/
theorem eq_closer_of_ofCloser? {c : Char} {type : BracketType} (h : ofCloser? c = some type) :
    c = type.closer := by
  unfold ofCloser? at h
  split at h
  · cases h
    assumption
  · split at h
    · cases h
      assumption
    · cases h

end BracketType

/-- Whether a character is a bracket. -/
def isBracket (c : Char) : Bool :=
  (BracketType.ofOpener? c).isSome || (BracketType.ofCloser? c).isSome

/-- There are four brackets. -/
theorem isBracket_cases {c : Char} (h : isBracket c = true) :
    c = '{' ∨ c = '[' ∨ c = '}' ∨ c = ']' := by
  rw [isBracket, Bool.or_eq_true, Option.isSome_iff_exists, Option.isSome_iff_exists] at h
  rcases h with ⟨type, htype⟩ | ⟨type, htype⟩
  · rw [BracketType.eq_opener_of_ofOpener? htype]
    cases type
    · exact Or.inl rfl
    · exact Or.inr (Or.inl rfl)
  · rw [BracketType.eq_closer_of_ofCloser? htype]
    cases type
    · exact Or.inr (Or.inr (Or.inl rfl))
    · exact Or.inr (Or.inr (Or.inr rfl))

/-! ## Nesting -/

/-- The open brackets after a character, innermost first, unless it closes none of
them or one of the wrong type. -/
def nestStep? (above : List BracketType) (c : Char) : Option (List BracketType) :=
  match BracketType.ofOpener? c, BracketType.ofCloser? c with
  | some opened, _ => some (opened :: above)
  | none, none => some above
  | none, some closed =>
    match above with
    | [] => none
    | top :: above => if closed = top then some above else none

/-- The open brackets after a text, innermost first, unless the text closes a bracket
that is not the innermost one. -/
def nest? : List BracketType → Text → Option (List BracketType)
  | above, [] => some above
  | above, c :: rest => (nestStep? above c).bind fun next => nest? next rest

/-- A text whose brackets are properly nested. -/
def Nested (text : Text) : Prop :=
  nest? [] text = some []

instance (text : Text) : Decidable (Nested text) :=
  inferInstanceAs (Decidable (_ = _))

/-- The brackets after two texts are those after the second, from those after the
first. -/
theorem nest?_append (above : List BracketType) (first second : Text) :
    nest? above (first ++ second) =
      (nest? above first).bind fun middle => nest? middle second := by
  induction first generalizing above with
  | nil => rfl
  | cons c rest ih =>
    rw [List.cons_append, nest?, nest?, Option.bind_assoc]
    exact congrArg _ (funext fun next => ih next)

/-- A character is read in the same way whatever further brackets are open. -/
theorem nestStep?_append {above next : List BracketType} {c : Char}
    (h : nestStep? above c = some next) (outer : List BracketType) :
    nestStep? (above ++ outer) c = some (next ++ outer) := by
  unfold nestStep? at h ⊢
  cases hopen : BracketType.ofOpener? c with
  | some opened =>
    rw [hopen] at h
    cases h
    rfl
  | none =>
    rw [hopen] at h
    cases hclose : BracketType.ofCloser? c with
    | none =>
      rw [hclose] at h
      cases h
      rfl
    | some closed =>
      rw [hclose] at h
      cases above with
      | nil => cases h
      | cons top above =>
        by_cases heq : closed = top
        · simp only [if_pos heq] at h ⊢
          cases h
          simp [heq]
        · simp [heq] at h

/-- A text is read in the same way whatever further brackets are open. -/
theorem nest?_append_outer {above last : List BracketType} {text : Text}
    (h : nest? above text = some last) (outer : List BracketType) :
    nest? (above ++ outer) text = some (last ++ outer) := by
  induction text generalizing above with
  | nil =>
    cases h
    rfl
  | cons c rest ih =>
    rcases Option.bind_eq_some_iff.mp h with ⟨next, hnext, hrest⟩
    rw [nest?, nestStep?_append hnext]
    exact ih hrest

/-- What is open after a text is open above a bracket that comes before it. -/
theorem nest?_opener_cons {last : List BracketType} {text : Text} (h : nest? [] text = some last)
    (type : BracketType) (above : List BracketType) :
    nest? above (type.opener :: text) = some (last ++ type :: above) := by
  have hopen : nestStep? above type.opener = some (type :: above) := by simp [nestStep?]
  rw [nest?, hopen, Option.bind_some]
  exact nest?_append_outer h (type :: above)

/-- A nested text leaves the open brackets as they are. -/
theorem Nested.nest? {text : Text} (h : Nested text) (above : List BracketType) :
    nest? above text = some above :=
  nest?_append_outer h above

/-- A character that is no bracket leaves the open ones as they are. -/
theorem nestStep?_of_plain {c : Char} (h : isBracket c = false) (above : List BracketType) :
    nestStep? above c = some above := by
  simp only [isBracket, Bool.or_eq_false_iff, Option.isSome_eq_false_iff,
    Option.isNone_iff_eq_none] at h
  simp [nestStep?, h.1, h.2]

/-- Only brackets matter to the scan. -/
theorem nest?_filter (above : List BracketType) (text : Text) :
    nest? above (text.filter isBracket) = nest? above text := by
  induction text generalizing above with
  | nil => rfl
  | cons c rest ih =>
    by_cases hc : isBracket c = true
    · rw [List.filter_cons_of_pos hc, nest?, nest?]
      exact congrArg _ (funext fun next => ih next)
    · rw [List.filter_cons_of_neg hc, nest?, nestStep?_of_plain (Bool.eq_false_iff.mpr hc)]
      exact ih above

/-- Texts with the same brackets are read in the same way. -/
theorem nest?_congr {first second : Text} (h : first.filter isBracket = second.filter isBracket)
    (above : List BracketType) : nest? above first = nest? above second := by
  rw [← nest?_filter, h, nest?_filter]

/-- A text without brackets is nested. -/
theorem nested_of_plain {text : Text} (h : ∀ c ∈ text, isBracket c = false) : Nested text := by
  have hnone : text.filter isBracket = [] :=
    List.filter_eq_nil_iff.mpr fun c hc => by simp [h c hc]
  rw [Nested, ← nest?_filter, hnone]
  rfl

/-- Nested texts one after the other are nested. -/
theorem Nested.append {first second : Text} (h : Nested first) (h' : Nested second) :
    Nested (first ++ second) := by
  rw [Nested, nest?_append, h]
  exact h'

/-- A nested text between brackets of one type is nested. -/
theorem Nested.enclose {inside : Text} (h : Nested inside) (type : BracketType) :
    Nested (type.opener :: inside ++ [type.closer]) := by
  have hclose : nestStep? [type] type.closer = some [] := by simp [nestStep?]
  rw [Nested, nest?_append, nest?_opener_cons h, List.nil_append, Option.bind_some,
    PromptMarkup.nest?, hclose]
  rfl

/-! ## Where a span closes -/

/-- How a span of a type ends when further brackets are open inside it. -/
def closingBelow (type : BracketType) : List BracketType → Text → Closing
  | [], text => closing type [] text
  | top :: above, text => closing top (above ++ [type]) text

/-- With nothing open inside a span ends as it does from its start. -/
theorem closingBelow_nil (type : BracketType) (text : Text) :
    closingBelow type [] text = closing type [] text :=
  rfl

/-- A character is passed where the scan goes on, and ends the span where it is
stuck. -/
theorem closingBelow_cons (type : BracketType) (above : List BracketType) (c : Char)
    (rest : Text) :
    closingBelow type above (c :: rest) =
      match nestStep? above c with
      | some next => (closingBelow type next rest).cons c
      | none =>
        if above = [] ∧ c = type.closer then .matched [] rest else .mismatched [c] rest := by
  have hstuck : ∀ closed, BracketType.ofCloser? c = some closed →
      (c = type.closer ↔ closed = type) := by
    intro closed hclosed
    rw [BracketType.eq_closer_of_ofCloser? hclosed]
    constructor
    · intro heq
      have := congrArg BracketType.ofCloser? heq
      simpa using this
    · rintro rfl
      rfl
  cases hopen : BracketType.ofOpener? c with
  | some opened => cases above <;> simp [closingBelow, closing, nestStep?, hopen]
  | none =>
    cases hclose : BracketType.ofCloser? c with
    | none => cases above <;> simp [closingBelow, closing, nestStep?, hopen, hclose]
    | some closed =>
      have hiff := hstuck closed hclose
      cases above with
      | nil =>
        by_cases heq : closed = type <;>
          simp [closingBelow, closing, nestStep?, hopen, hclose, hiff, heq]
      | cons top above =>
        by_cases heq : closed = top
        · cases above <;> simp [closingBelow, closing, nestStep?, hopen, hclose, heq]
        · simp [closingBelow, closing, nestStep?, hopen, hclose, heq]

/-- A span closes after the first text that the scan ends with nothing open, followed
by its closer. -/
theorem closingBelow_eq_matched_iff {type : BracketType} {above : List BracketType}
    {text inside rest : Text} :
    closingBelow type above text = .matched inside rest ↔
      text = inside ++ type.closer :: rest ∧ nest? above inside = some [] := by
  have hnil : ∀ above, closingBelow type above [] = .unclosed := by
    intro above
    cases above <;> rfl
  have hcloser : nestStep? [] type.closer = none := by simp [nestStep?]
  induction text generalizing above inside with
  | nil => simp [hnil]
  | cons c tail ih =>
    rw [closingBelow_cons]
    constructor
    · intro h
      cases hstep : nestStep? above c with
      | some next =>
        simp only [hstep] at h
        cases hbelow : closingBelow type next tail with
        | matched inside' rest' =>
          simp only [hbelow, Closing.cons, Closing.matched.injEq] at h
          rcases h with ⟨rfl, rfl⟩
          rcases ih.mp hbelow with ⟨rfl, hscan⟩
          exact ⟨rfl, by rw [nest?, hstep, Option.bind_some, hscan]⟩
        | mismatched through rest' => simp [hbelow, Closing.cons] at h
        | unclosed => simp [hbelow, Closing.cons] at h
      | none =>
        simp only [hstep] at h
        split at h
        · rename_i hend
          cases h
          exact ⟨by rw [hend.2]; rfl, by rw [hend.1]; rfl⟩
        · cases h
    · rintro ⟨hsplit, hscan⟩
      cases inside with
      | nil =>
        cases hsplit
        cases hscan
        simp [hcloser]
      | cons d inside =>
        cases hsplit
        rcases Option.bind_eq_some_iff.mp hscan with ⟨next, hnext, hrest⟩
        simp only [hnext, ih.mpr ⟨rfl, hrest⟩, Closing.cons]

/-- A span closes after the first nested text that is followed by its closer. -/
theorem closing_eq_matched_iff {type : BracketType} {text inside rest : Text} :
    closing type [] text = .matched inside rest ↔
      text = inside ++ type.closer :: rest ∧ Nested inside := by
  rw [← closingBelow_nil]
  exact closingBelow_eq_matched_iff

/-- A span stays open when the scan gets through the text. -/
theorem closingBelow_eq_unclosed_iff {type : BracketType} {above : List BracketType}
    {text : Text} :
    closingBelow type above text = .unclosed ↔ (nest? above text).isSome = true := by
  induction text generalizing above with
  | nil => cases above <;> simp [closingBelow, closing, nest?]
  | cons c tail ih =>
    rw [closingBelow_cons, nest?]
    cases hstep : nestStep? above c with
    | some next =>
      simp only [Option.bind_some, ← ih]
      cases closingBelow type next tail <;> simp [Closing.cons]
    | none =>
      simp only [Option.bind_none]
      split <;> simp

/-- A span stays open when the scan gets through the text. -/
theorem closing_eq_unclosed_iff {type : BracketType} {text : Text} :
    closing type [] text = .unclosed ↔ (nest? [] text).isSome = true := by
  rw [← closingBelow_nil]
  exact closingBelow_eq_unclosed_iff

/-- A span breaks off at the first character where the scan gets stuck, if that does not
close it. -/
theorem closingBelow_eq_mismatched_iff {type : BracketType} {above : List BracketType}
    {text through rest : Text} :
    closingBelow type above text = .mismatched through rest ↔
      ∃ before c, through = before ++ [c] ∧ text = through ++ rest ∧
        ∃ last, nest? above before = some last ∧ nestStep? last c = none ∧
          ¬(last = [] ∧ c = type.closer) := by
  induction text generalizing above through with
  | nil =>
    constructor
    · intro h
      cases above <;> cases h
    · rintro ⟨before, c, rfl, htext, -⟩
      simp at htext
  | cons c tail ih =>
    rw [closingBelow_cons]
    constructor
    · intro h
      cases hstep : nestStep? above c with
      | some next =>
        simp only [hstep] at h
        cases hbelow : closingBelow type next tail with
        | matched inside rest' => simp [hbelow, Closing.cons] at h
        | mismatched through' rest' =>
          simp only [hbelow, Closing.cons, Closing.mismatched.injEq] at h
          rcases h with ⟨rfl, rfl⟩
          rcases ih.mp hbelow with ⟨before, d, rfl, rfl, last, hscan, hstuck⟩
          exact ⟨c :: before, d, rfl, rfl, last,
            by rw [nest?, hstep, Option.bind_some, hscan], hstuck⟩
        | unclosed => simp [hbelow, Closing.cons] at h
      | none =>
        simp only [hstep] at h
        split at h
        · cases h
        · rename_i hend
          cases h
          exact ⟨[], c, rfl, rfl, above, rfl, hstep, hend⟩
    · rintro ⟨before, d, rfl, htext, last, hscan, hstuck, hend⟩
      cases before with
      | nil =>
        cases htext
        cases hscan
        simp [hstuck, hend]
      | cons e before =>
        cases htext
        rcases Option.bind_eq_some_iff.mp hscan with ⟨next, hnext, hrest⟩
        have hbelow := ih.mpr ⟨before, d, rfl, rfl, last, hrest, hstuck, hend⟩
        simp only [hnext, hbelow, Closing.cons]
        rfl

/-- A span breaks off at the first character where the scan gets stuck, if that does not
close it. -/
theorem closing_eq_mismatched_iff {type : BracketType} {text through rest : Text} :
    closing type [] text = .mismatched through rest ↔
      ∃ before c, through = before ++ [c] ∧ text = through ++ rest ∧
        ∃ last, nest? [] before = some last ∧ nestStep? last c = none ∧
          ¬(last = [] ∧ c = type.closer) := by
  rw [← closingBelow_nil]
  exact closingBelow_eq_mismatched_iff

end PromptMarkup

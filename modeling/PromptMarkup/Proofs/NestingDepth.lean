import PromptMarkup.Proofs.CanonicalText
import PromptMarkup.Proofs.ClosedText

/-!
# How deep brackets are nested

In a nested text every opening bracket begins a span, wherever the reader comes to it: a group
may swallow brackets on the way, but what stands behind it is still a part of the nested text.
Inside a span fewer brackets are open at once than around it.  So a text is read alike at all
depths at which there is enough left for its brackets.

Main statements:

- {lit}`NestedUpTo.opensSpans`: in a nested text every opening bracket begins a span, inside
  which brackets are nested less deep.
- {lit}`readFrom_depth`: a text is read alike at all depths that are enough for its spans.
-/

namespace PromptMarkup

/-! ## Nested texts of some depth -/

/-- A nested text in which no more than a number of brackets are open at once. -/
structure NestedUpTo (depth : Nat) (text : Text) : Prop where
  nested : Nested text
  open_le : ∀ before, before <+: text → ∀ above, nest? [] before = some above →
    above.length ≤ depth

/-- How many brackets are open is seen at the ends of the starts of a text. -/
theorem nestedUpTo_iff {depth : Nat} {text : Text} :
    NestedUpTo depth text ↔ Nested text ∧ ∀ before ∈ text.inits,
      ∀ above ∈ nest? [] before, above.length ≤ depth :=
  ⟨fun h => ⟨h.nested, fun before hbefore => h.open_le before ((List.mem_inits _ _).mp hbefore)⟩,
    fun h => ⟨h.1, fun before hbefore => h.2 before ((List.mem_inits _ _).mpr hbefore)⟩⟩

instance (depth : Nat) (text : Text) : Decidable (NestedUpTo depth text) :=
  decidable_of_iff _ nestedUpTo_iff.symm

/-- What follows a nested text in one of some depth is of that depth. -/
theorem NestedUpTo.of_append {depth : Nat} {first second : Text} (hfirst : Nested first)
    (h : NestedUpTo depth (first ++ second)) : NestedUpTo depth second := by
  constructor
  · have hnested := h.nested
    rwa [Nested, nest?_append, hfirst] at hnested
  · intro before hbefore above habove
    refine h.open_le (first ++ before) ((List.prefix_append_right_inj first).mpr hbefore) above ?_
    rw [nest?_append, hfirst]
    exact habove

/-- A character that closes nothing and not the span around it closes nothing further out. -/
theorem nestStep?_append_eq_none {last outer : List BracketType} {c : Char} {type : BracketType}
    (h : nestStep? last c = none) (hend : ¬(last = [] ∧ c = type.closer)) :
    nestStep? (last ++ type :: outer) c = none := by
  unfold nestStep? at h ⊢
  cases hopen : BracketType.ofOpener? c with
  | some opened => simp [hopen] at h
  | none =>
    cases hclose : BracketType.ofCloser? c with
    | none => simp [hopen, hclose] at h
    | some closed =>
      cases last with
      | nil =>
        have hne : closed ≠ type := by
          rintro rfl
          exact hend ⟨rfl, BracketType.eq_closer_of_ofCloser? hclose⟩
        simp [hne]
      | cons top last =>
        have hne : closed ≠ top := by
          rintro rfl
          simp [hopen, hclose] at h
        simp [hne]

/-- In a nested text a bracket does not meet a closer of the wrong type. -/
theorem Nested.closing_ne_mismatched {before rest : Text} {type : BracketType}
    (h : Nested (before ++ type.opener :: rest)) (through after : Text) :
    closing type [] rest ≠ .mismatched through after := by
  intro hclosing
  rcases closing_eq_mismatched_iff.mp hclosing with
    ⟨start, c, rfl, rfl, last, hstart, hstuck, hend⟩
  rw [Nested, nest?_append] at h
  rcases Option.bind_eq_some_iff.mp h with ⟨above, -, hrest⟩
  rw [List.append_assoc, ← List.cons_append, nest?_append, nest?_opener_cons hstart,
    Option.bind_some, List.singleton_append, PromptMarkup.nest?,
    nestStep?_append_eq_none hstuck hend] at hrest
  cases hrest

/-! ## Spans -/

/-- A text in which every opening bracket begins a span, with fewer than a number of brackets
open at once inside it. -/
def OpensSpans (depth : Nat) (text : Text) : Prop :=
  ∀ (type : BracketType) (rest : Text), type.opener :: rest <:+ text →
    ∃ below inside after, depth = below + 1 ∧ closing type [] rest = .matched inside after ∧
      NestedUpTo below inside

/-- The brackets of the end of a text are brackets of the text. -/
theorem OpensSpans.of_suffix {depth : Nat} {text rest : Text} (h : OpensSpans depth text)
    (hrest : rest <:+ text) : OpensSpans depth rest :=
  fun type inside hinside => h type inside (hinside.trans hrest)

/-- Where a text begins with a span, fewer brackets are open at once inside it. -/
theorem OpensSpans.inside {depth : Nat} {type : BracketType} {inside after : Text}
    (h : OpensSpans depth (type.opener :: inside ++ type.closer :: after))
    (hnested : Nested inside) : ∃ below, depth = below + 1 ∧ NestedUpTo below inside := by
  have hspan : closing type [] (inside ++ type.closer :: after) = .matched inside after :=
    closing_eq_matched_iff.mpr ⟨rfl, hnested⟩
  rcases h type (inside ++ type.closer :: after) (List.suffix_refl _) with
    ⟨below, within, behind, hdepth, hclosing, hwithin⟩
  rw [hspan, Closing.matched.injEq] at hclosing
  exact ⟨below, hdepth, hclosing.1 ▸ hwithin⟩

/-- In a nested text every opening bracket begins a span, inside which brackets are nested less
deep. -/
theorem NestedUpTo.opensSpans {depth : Nat} {text : Text} (h : NestedUpTo depth text) :
    OpensSpans depth text := by
  intro type rest hsuffix
  have hopen := h.nested.closesSpans type rest hsuffix
  rcases hsuffix with ⟨before, rfl⟩
  cases hclosing : closing type [] rest with
  | unclosed => exact absurd hclosing hopen
  | mismatched through after => exact absurd hclosing (h.nested.closing_ne_mismatched _ _)
  | matched inside after =>
    rcases closing_eq_matched_iff.mp hclosing with ⟨rfl, hinside⟩
    have hnested := h.nested
    rw [Nested, nest?_append] at hnested
    rcases Option.bind_eq_some_iff.mp hnested with ⟨above, habove, -⟩
    -- What is open inside the span is open in the text together with the span itself.
    have hwithin : ∀ start, start <+: inside → ∀ last, nest? [] start = some last →
        last.length + 1 ≤ depth := by
      intro start hstart last hlast
      have hscan : nest? [] (before ++ type.opener :: start) = some (last ++ type :: above) := by
        rw [nest?_append, habove, Option.bind_some]
        exact nest?_opener_cons hlast type above
      have hprefix : before ++ type.opener :: start <+:
          before ++ type.opener :: (inside ++ type.closer :: after) :=
        (List.prefix_append_right_inj before).mpr
          (List.cons_prefix_cons.mpr ⟨rfl, hstart.trans (List.prefix_append _ _)⟩)
      have hle := h.open_le _ hprefix _ hscan
      simp only [List.length_append, List.length_cons] at hle
      omega
    have hpos := hwithin [] (List.nil_prefix) [] rfl
    obtain ⟨below, rfl⟩ : ∃ below, depth = below + 1 := ⟨depth - 1, by simp at hpos; omega⟩
    exact ⟨below, inside, after, rfl, rfl, hinside, fun start hstart last hlast =>
      Nat.le_of_succ_le_succ (hwithin start hstart last hlast)⟩

/-! ## Reading -/

/-- A text is read alike at all depths that are enough for its spans. -/
theorem readFrom_depth (depth : Nat) (boundary : Bool) (text : Text) {limit other : Nat}
    (h : OpensSpans limit text) (hdepth : limit ≤ depth) (hother : limit ≤ other) :
    readFrom other boundary text = readFrom depth boundary text := by
  induction depth, boundary, text using readInduction generalizing limit other with
  | nil depth boundary => rw [readFrom_nil, readFrom_nil]
  | reads depth boundary text piece after hreads hinside ih =>
    have hsame : Reads (spansAt other) boundary text piece after := by
      refine hreads.of_spansAt ?_
      rintro type rest rfl
      rcases h type rest (List.suffix_refl _) with ⟨below, inside, behind, rfl, -⟩
      omega
    rw [readFrom_of_reads hsame, readFrom_of_reads hreads,
      ih (h.of_suffix hreads.suffix) hdepth hother]
    cases hreads with
    | span type inside after hspans hnested =>
      rcases h.inside hnested with ⟨below, rfl, hwithin⟩
      cases depth with
      | zero => omega
      | succ depth =>
        cases other with
        | zero => omega
        | succ other =>
          have hread : readFrom other true inside = readFrom depth true inside :=
            hinside depth inside rfl hwithin.opensSpans (by omega) (by omega)
          simp only [addPiece, readInside, hread]
    | _ => rfl

end PromptMarkup

import PromptMarkup.Proofs.CanonicalExpansion
import PromptMarkup.Proofs.ClosedText
import PromptMarkup.Proofs.DeletedCharacters
import PromptMarkup.Proofs.WellMadeTree
import PromptMarkup.Workflow.Prompt

/-!
# Normalizing again

A group that has a bar and one option only is written without the bar, and is read as
literal parentheses from then on.  What stands in the option is then read as a part of the
prompt, so its groups, which were kept as they stood, are tidied when the prompt is brought
to normal form once more.  The normal form is final where every lone option is normal by
itself.

Main statements:

- {lit}`canonicalText_append_close`: a text that leaves no span and no group open is written
  as if nothing followed its closing parenthesis.
- {lit}`canonicalText_canonicalText`: canonical text is canonical if the lone options of the
  prompt are.
- {lit}`canonicalText_depth`: brackets for which there is depth enough are read alike at all
  depths.
- {lit}`normalizePrompt_normalizePrompt`: bringing a prompt to normal form again changes
  nothing if all groups have two options, or if the lone options are normal.
-/

namespace PromptMarkup

/-! ## Lone options -/

/-- The option of a group that has no other, with the depth that is left for the spans in it,
or those inside a span. -/
def Piece.loneOptions (depth : Nat) (inner : Text → List (Nat × Text)) : Piece → List (Nat × Text)
  | .group [option] => [(depth, option)]
  | .weighted _ inside => inner inside
  | _ => []

/-- A group with two options has no lone one. -/
theorem Piece.loneOptions_group {depth : Nat} {inner : Text → List (Nat × Text)}
    {options : List Text} (h : 2 ≤ options.length) :
    (Piece.group options).loneOptions depth inner = [] :=
  match options with
  | _ :: _ :: _ => rfl

/-- The options of a text that are the only ones of their groups, each with the depth that is
left for the spans in it. -/
def loneOptions : Nat → Bool → Text → List (Nat × Text)
  | 0, boundary, text => (pieces false boundary text).flatMap (Piece.loneOptions 0 fun _ => [])
  | depth + 1, boundary, text =>
    (pieces true boundary text).flatMap (Piece.loneOptions (depth + 1) (loneOptions depth true))

/-- The lone options inside a span at a depth that is left. -/
def loneInside : Nat → Text → List (Nat × Text)
  | 0, _ => []
  | depth + 1, text => loneOptions depth true text

/-- No text has no options. -/
@[simp] theorem loneOptions_nil (depth : Nat) (boundary : Bool) :
    loneOptions depth boundary [] = [] := by
  cases depth <;> simp [loneOptions, pieces]

/-- The lone options of the first piece come first. -/
theorem loneOptions_of_reads {depth : Nat} {boundary : Bool} {text after : Text} {piece : Piece}
    (h : Reads (spansAt depth) boundary text piece after) :
    loneOptions depth boundary text =
      piece.loneOptions depth (loneInside depth) ++
        loneOptions depth (!piece.endsInName) after := by
  have hpieces := pieces_of_reads h
  cases depth with
  | zero =>
    simp only [spansAt] at hpieces
    simp only [loneOptions, hpieces, List.flatMap_cons]
    rfl
  | succ depth =>
    simp only [spansAt] at hpieces
    simp only [loneOptions, hpieces, List.flatMap_cons]
    rfl

/-- There are no lone options if all groups offer choices, and only then. -/
theorem loneOptions_eq_nil_iff {depth : Nat} {boundary : Bool} {text : Text} :
    loneOptions depth boundary text = [] ↔
      ∀ child ∈ readFrom depth boundary text, child.OffersChoices := by
  induction depth, boundary, text using readInduction with
  | nil depth boundary => simp
  | reads depth boundary text piece after hreads hinside ih =>
    rw [loneOptions_of_reads hreads, readFrom_of_reads hreads, offersChoices_addPiece,
      List.append_eq_nil_iff, ih]
    apply and_congr_left'
    cases hreads with
    | span type inside after hspans hnested =>
      cases depth with
      | zero => cases hspans
      | succ below => exact hinside below inside rfl
    | group inside after hbalanced hparts hoptions =>
      cases hgroup : groupOptions inside with
      | nil => exact absurd hgroup hoptions
      | cons option others =>
        cases others <;> simp [Piece.loneOptions, Piece.OffersChoices]
    | _ => exact iff_of_true rfl trivial

/-! ## Texts that leave nothing open -/

/-- A group that is read has an option. -/
theorem Reads.group_ne_nil {spans boundary : Bool} {text after : Text} {options : List Text}
    (h : Reads spans boundary text (.group options) after) : options ≠ [] := by
  cases h with
  | group inside after hbalanced hparts hoptions => exact hoptions

/-- A text that leaves nothing open is written as if nothing followed its closing
parenthesis. -/
theorem canonicalText_append_close (depth : Nat) (boundary : Bool) (text : Text)
    (hspans : ClosesSpans text) (hgroups : ClosesGroups text) (rest : Text) :
    canonicalText depth boundary (text ++ ')' :: rest) =
      canonicalText depth boundary text ++ ')' :: canonicalText depth true rest := by
  have hstop : IsStop ')' := isStop_of_mem List.mem_cons_self
  induction depth, boundary, text using readInduction with
  | nil depth boundary =>
    rw [List.nil_append, canonicalText_of_reads (hstop.reads _ boundary rest), canonicalText_nil,
      hstop.endsInName]
    rfl
  | reads depth boundary text piece after hreads _ ih =>
    have hafter := ih (hspans.of_suffix hreads.suffix) (hgroups.of_suffix hreads.suffix)
    rw [canonicalText_of_reads (hreads.append_stop hspans hgroups hstop rest),
      canonicalText_of_reads hreads, hafter, List.append_assoc]

/-! ## Canonical text is no longer -/

/-- Canonical text is a part of the text: nothing is added and nothing put elsewhere. -/
theorem canonicalText_sublist (depth : Nat) (boundary : Bool) (text : Text) :
    (canonicalText depth boundary text).Sublist text :=
  (deletes_canonicalText depth boundary text).sublist

/-- Written twice, a piece is a part of what it is written as. -/
theorem write_rewrite_sublist (depth : Nat) (piece : Piece) :
    ((piece.rewrite (canonicalInside depth)).write (canonicalInside depth)).Sublist
      (piece.write (canonicalInside depth)) := by
  cases piece with
  | weighted type inside =>
    have hinside : (canonicalInside depth (canonicalInside depth inside)).Sublist
        (canonicalInside depth inside) := by
      cases depth with
      | zero => exact List.Sublist.refl _
      | succ depth => exact canonicalText_sublist depth true _
    exact (hinside.cons_cons type.opener).append (List.Sublist.refl _)
  | _ => exact List.Sublist.refl _

/-! ## Canonical text of canonical text -/

/-- Where texts of which neither grew make up the same text, each is the same. -/
theorem append_eq_append_iff_of_sublist {first second first' second' : Text}
    (h : first.Sublist first') (h' : second.Sublist second') :
    first ++ second = first' ++ second' ↔ first = first' ∧ second = second' := by
  constructor
  · intro heq
    have hlength := congrArg List.length heq
    simp only [List.length_append] at hlength
    have hfirst := h.length_le
    have hsecond := h'.length_le
    exact List.append_inj heq (by omega)
  · rintro ⟨rfl, rfl⟩
    rfl

/-- A group with a lone option is written in literal parentheses, in which the option is
written by itself from then on. -/
theorem canonicalText_canonicalText_lone {depth : Nat} {boundary : Bool}
    {inside after option : Text} (hbalanced : Balanced inside)
    (hparts : 2 ≤ (splitOptions inside).length) (hone : groupOptions inside = [option])
    (hspans : ClosesSpans option) :
    canonicalText depth boundary
        (canonicalText depth boundary ('(' :: inside ++ ')' :: after)) =
        canonicalText depth boundary ('(' :: inside ++ ')' :: after) ↔
      canonicalText depth true option = option ∧
        canonicalText depth true (canonicalText depth true after) =
          canonicalText depth true after := by
  have hoptions : groupOptions inside ≠ [] := by
    rw [hone]
    exact List.cons_ne_nil _ _
  have htidy : TidyOption option :=
    tidyOption_of_mem_groupOptions hbalanced (hone ▸ List.mem_cons_self)
  have hgroup : Reads (spansAt depth) boundary _ _ _ :=
    .group inside after hbalanced hparts hoptions
  have htext : canonicalText depth boundary ('(' :: inside ++ ')' :: after) =
      '(' :: (option ++ ')' :: canonicalText depth true after) := by
    rw [canonicalText_of_reads hgroup]
    simp [Piece.write, Piece.endsInName, hone, joinWith]
  have hparen : Reads (spansAt depth) boundary _ _ _ :=
    .paren _ (htidy.undivided.readGroup?_eq_none (canonicalText depth true after))
  have hagain : canonicalText depth boundary
      ('(' :: (option ++ ')' :: canonicalText depth true after)) =
        '(' :: (canonicalText depth true option ++
          ')' :: canonicalText depth true (canonicalText depth true after)) := by
    have hclose := canonicalText_append_close depth true option hspans
      htidy.undivided.balanced.closesGroups (canonicalText depth true after)
    rw [canonicalText_of_reads hparen, ← hclose]
    rfl
  rw [htext, hagain, List.cons_inj_right, append_eq_append_iff_of_sublist
    (canonicalText_sublist _ _ _) ((canonicalText_sublist _ _ _).cons_cons ')'),
    List.cons_inj_right]

/-- Canonical text is canonical if each lone option is, at the depth at which it stands, where
none of them leaves a span open. -/
theorem canonicalText_canonicalText (depth : Nat) (boundary : Bool) (text : Text)
    (hspans : ∀ lone ∈ loneOptions depth boundary text, ClosesSpans lone.2) :
    canonicalText depth boundary (canonicalText depth boundary text) =
        canonicalText depth boundary text ↔
      ∀ lone ∈ loneOptions depth boundary text, canonicalText lone.1 true lone.2 = lone.2 := by
  induction depth, boundary, text using readInduction with
  | nil depth boundary => simp
  | reads depth boundary text piece after hreads hinside ih =>
    rw [loneOptions_of_reads hreads] at hspans ⊢
    rcases List.forall_mem_append.mp hspans with ⟨hpiece, hrest⟩
    rw [List.forall_mem_append, ← ih hrest]
    by_cases hlone : ∃ option, piece = .group [option]
    · rcases hlone with ⟨option, rfl⟩
      generalize heq : Piece.group [option] = piece at hreads
      cases hreads with
      | group inside after hbalanced hparts hoptions =>
        have hone : groupOptions inside = [option] := (Piece.group.inj heq).symm
        have hclosed := hpiece (depth, option) List.mem_cons_self
        rw [canonicalText_canonicalText_lone hbalanced hparts hone hclosed]
        simp [Piece.loneOptions, Piece.endsInName, hone]
      | _ => cases heq
    · have hchoice : ∀ options, piece = .group options → 2 ≤ options.length := by
        rintro options rfl
        rcases options with _ | ⟨option, _ | ⟨next, others⟩⟩
        · exact absurd rfl hreads.group_ne_nil
        · exact absurd ⟨option, rfl⟩ hlone
        · exact Nat.le_add_left 2 others.length
      rw [canonicalText_of_reads (reads_canonicalText hreads hchoice),
        canonicalText_of_reads hreads, Piece.endsInName_rewrite,
        append_eq_append_iff_of_sublist (write_rewrite_sublist depth piece)
          (canonicalText_sublist _ _ _)]
      apply and_congr_left'
      cases hreads with
      | span type inside after hset hnested =>
        cases depth with
        | zero => cases hset
        | succ below =>
          have hspan := hinside below inside rfl hpiece
          simpa [Piece.rewrite, Piece.write, canonicalInside, Piece.loneOptions, loneInside]
            using hspan
      | group inside after hbalanced hparts hoptions =>
        rw [Piece.loneOptions_group (hchoice _ rfl)]
        exact iff_of_true rfl (List.forall_mem_nil _)
      | _ => exact iff_of_true rfl (List.forall_mem_nil _)

/-! ## Depth -/

/-- The number of opening brackets in a text. -/
def spanOpenings (text : Text) : Nat :=
  text.countP fun c => (BracketType.ofOpener? c).isSome

/-- With depth enough for its brackets a text begins with the same piece. -/
theorem Reads.of_depth {depth other : Nat} {boundary : Bool} {text after : Text} {piece : Piece}
    (h : Reads (spansAt depth) boundary text piece after) (hdepth : spanOpenings text ≤ depth)
    (hother : spanOpenings text ≤ other) : Reads (spansAt other) boundary text piece after := by
  refine h.of_spansAt ?_
  rintro type rest rfl
  have hpos : 0 < spanOpenings (type.opener :: rest) := by simp [spanOpenings]
  exact ⟨Nat.lt_of_lt_of_le hpos hdepth, Nat.lt_of_lt_of_le hpos hother⟩

/-- Brackets for which there is depth enough are read alike at all depths. -/
theorem canonicalText_depth (depth : Nat) (boundary : Bool) (text : Text)
    (h : spanOpenings text ≤ depth) {other : Nat} (hother : spanOpenings text ≤ other) :
    canonicalText other boundary text = canonicalText depth boundary text := by
  induction depth, boundary, text using readInduction generalizing other with
  | nil depth boundary => rw [canonicalText_nil, canonicalText_nil]
  | reads depth boundary text piece after hreads hinside ih =>
    have hcount : spanOpenings after ≤ spanOpenings text := hreads.suffix.sublist.countP_le
    rw [canonicalText_of_reads (hreads.of_depth h hother), canonicalText_of_reads hreads,
      ih (Nat.le_trans hcount h) (Nat.le_trans hcount hother)]
    cases hreads with
    | span type inside after hspans hnested =>
      have hspan : spanOpenings inside + 1 ≤
          spanOpenings (type.opener :: inside ++ type.closer :: after) := by
        simp [spanOpenings, List.countP_append]
      cases depth with
      | zero => cases hspans
      | succ below =>
        cases other with
        | zero => omega
        | succ other =>
          have hsame : canonicalText other true inside = canonicalText below true inside :=
            hinside below inside rfl (by omega) (by omega)
          simp [Piece.write, canonicalInside, hsame]
    | _ => rfl

/-- A lone option has at most the depth that the text has. -/
theorem depth_le_of_mem_loneOptions (depth : Nat) (boundary : Bool) (text : Text) :
    ∀ lone ∈ loneOptions depth boundary text, lone.1 ≤ depth := by
  induction depth, boundary, text using readInduction with
  | nil depth boundary => simp
  | reads depth boundary text piece after hreads hinside ih =>
    rw [loneOptions_of_reads hreads]
    refine List.forall_mem_append.mpr ⟨?_, ih⟩
    unfold Piece.loneOptions
    split
    · simp
    · rename_i type inside
      cases depth with
      | zero => exact List.forall_mem_nil _
      | succ below =>
        intro lone hlone
        exact Nat.le_succ_of_le (hinside below inside rfl lone hlone)
    · exact List.forall_mem_nil _

/-! ## Normal form -/

/-- The normal form of a prompt is its canonical text. -/
theorem normalizePrompt_eq {surroundings : Surroundings} {options : CompileOptions}
    (hoptions : surroundings.optionsFor none = .ok options)
    (hplain : options.expandWildcards = false) (text : Text) :
    normalizePrompt surroundings text = .ok (canonicalText maxNesting true text) := by
  rw [normalizePrompt, normalize_readPrompt, compile_readPrompt hoptions hplain]

/-- A prompt is brought to normal form, and to bring it there again changes nothing if all its
groups have two options.  If some groups have a lone option, and each of these leaves no span
open, and has tidy groups or no more brackets than there is depth for, then it changes nothing
if each lone option is normal by itself, and only then. -/
theorem normalizePrompt_normalizePrompt {surroundings : Surroundings} {options : CompileOptions}
    (hoptions : surroundings.optionsFor none = .ok options)
    (hplain : options.expandWildcards = false) (text : Text) :
    ∃ normal, normalizePrompt surroundings text = .ok normal ∧
      ((readPrompt text).OffersChoices → normalizePrompt surroundings normal = .ok normal) ∧
      ((∀ lone ∈ loneOptions maxNesting true text, ClosesSpans lone.2 ∧
          (TidyGroups lone.2 ∨ spanOpenings lone.2 ≤ lone.1)) →
        (normalizePrompt surroundings normal = .ok normal ↔
          ∀ lone ∈ loneOptions maxNesting true text,
            normalizePrompt surroundings lone.2 = .ok lone.2)) := by
  refine ⟨canonicalText maxNesting true text, normalizePrompt_eq hoptions hplain text, ?_⟩
  have hagain : (∀ lone ∈ loneOptions maxNesting true text, ClosesSpans lone.2) →
      (normalizePrompt surroundings (canonicalText maxNesting true text) =
          .ok (canonicalText maxNesting true text) ↔
        ∀ lone ∈ loneOptions maxNesting true text,
          canonicalText lone.1 true lone.2 = lone.2) := by
    intro hspans
    rw [normalizePrompt_eq hoptions hplain, Except.ok.injEq]
    exact canonicalText_canonicalText maxNesting true text hspans
  constructor
  · intro hchoices
    have hnone : loneOptions maxNesting true text = [] :=
      loneOptions_eq_nil_iff.mpr (offersChoices_readPrompt.mp hchoices)
    rw [hnone] at hagain
    exact (hagain (List.forall_mem_nil _)).mpr (List.forall_mem_nil _)
  · intro hlone
    rw [hagain fun lone hmem => (hlone lone hmem).1]
    refine forall₂_congr fun lone hmem => ?_
    rw [normalizePrompt_eq hoptions hplain, Except.ok.injEq]
    rcases (hlone lone hmem).2 with htidy | hdepth
    · rw [canonicalText_eq_self _ _ _ htidy, canonicalText_eq_self _ _ _ htidy]
    · have hmax := depth_le_of_mem_loneOptions maxNesting true text lone hmem
      rw [canonicalText_depth lone.1 true lone.2 hdepth (Nat.le_trans hdepth hmax)]

/-- A lone option with a span and a tidy group in it is normal, so the normal form is final. -/
theorem normalizePrompt_normalizePrompt_tidy :
    ∃ normal, normalizePrompt ⟨.ok {}, 0⟩ "([(a|b)] |)".toList = .ok normal ∧
      normalizePrompt ⟨.ok {}, 0⟩ normal = .ok normal := by
  have hoptions : Surroundings.optionsFor ⟨.ok {}, 0⟩ none = .ok ⟨false, none, 50⟩ := rfl
  have hgroup : Reads (spansAt maxNesting) true "([(a|b)] |)".toList
      (.group ["[(a|b)]".toList]) [] :=
    .group "[(a|b)] |".toList [] (by decide) (by decide) (by decide)
  have hlone : loneOptions maxNesting true "([(a|b)] |)".toList =
      [(maxNesting, "[(a|b)]".toList)] := by
    rw [loneOptions_of_reads hgroup, loneOptions_nil]
    rfl
  rcases normalizePrompt_normalizePrompt hoptions rfl "([(a|b)] |)".toList with
    ⟨normal, hnormal, -, hagain⟩
  rw [hlone] at hagain
  refine ⟨normal, hnormal, (hagain ?_).mpr ?_⟩
  · exact List.forall_mem_singleton.mpr ⟨by decide, Or.inl (by decide)⟩
  · refine List.forall_mem_singleton.mpr ?_
    rw [normalizePrompt_eq hoptions rfl, canonicalText_eq_self _ _ _ (by decide)]

/-- In a lone option a group that is not tidy is kept by the first pass and tidied by the
second. -/
theorem normalizePrompt_normalizePrompt_lone :
    normalizePrompt ⟨.ok {}, 0⟩ "((a |b)|)".toList = .ok "((a |b))".toList ∧
      normalizePrompt ⟨.ok {}, 0⟩ "((a |b))".toList = .ok "((a|b))".toList ∧
      "((a|b))".toList ≠ "((a |b))".toList := by
  have hoptions : Surroundings.optionsFor ⟨.ok {}, 0⟩ none = .ok ⟨false, none, 50⟩ := rfl
  have hlone : Reads (spansAt maxNesting) true "((a |b)|)".toList (.group ["(a |b)".toList]) [] :=
    .group "(a |b)|".toList [] (by decide) (by decide) (by decide)
  have hparen : Reads (spansAt maxNesting) true "((a |b))".toList (.literal ['('])
      "(a |b))".toList :=
    .paren "(a |b))".toList (by decide)
  have hgroup : Reads (spansAt maxNesting) true "(a |b))".toList (.group [['a'], ['b']]) [')'] :=
    .group "a |b".toList [')'] (by decide) (by decide) (by decide)
  have hclose : ∀ boundary, Reads (spansAt maxNesting) boundary [')'] (.literal [')']) [] :=
    fun _ => .char ')' [] (by decide) (by decide) fun _ => ⟨by decide, nofun⟩
  refine ⟨?_, ?_, by decide⟩
  · rw [normalizePrompt_eq hoptions rfl, canonicalText_of_reads hlone, canonicalText_nil]
    rfl
  · have hboundary : (!(Piece.literal ['(']).endsInName) = true := by decide
    rw [normalizePrompt_eq hoptions rfl, canonicalText_of_reads hparen, hboundary,
      canonicalText_of_reads hgroup, canonicalText_of_reads (hclose _), canonicalText_nil]
    rfl

end PromptMarkup

import PromptMarkup.Proofs.SingleSegments

/-!
# Lists of options

An inline wildcard is printed as its options with bars between them, in parentheses.  Printing loses
nothing if each option keeps its bars to itself: its parentheses have their partners in it, and
every bar stands inside some of them.  All of this is said by counting parentheses.  The scan that
finds the end of a group stops where its count falls below zero, and the one that divides the
options never lets it fall so far, but on such texts both count alike.

Main statements:

- {lit}`groupDepth?_eq_some_iff`: the number of open groups is told by counting parentheses.
- {lit}`isOption_iff`: the options that survive printing are the tidy ones.
- {lit}`compile_readInlineWildcard`: options are read back as they were printed, and those that are
  read can be printed.
-/

namespace PromptMarkup

/-! ## Counted parentheses -/

/-- A character that closes no group changes the depth by the parentheses in it. -/
theorem depthAfter_eq {depth : Nat} {c : Char} (h : ¬(depth = 0 ∧ c = ')')) :
    depth + [c].count '(' = depthAfter depth c + [c].count ')' := by
  unfold depthAfter
  by_cases hopen : c = '('
  · simp [hopen]
  · by_cases hclose : c = ')'
    · have : depth ≠ 0 := fun hzero => h ⟨hzero, hclose⟩
      simp [hclose]
      omega
    · simp [hopen, hclose]

/-- A group is closed only while one is open, and where bars do not count as text, they stand in
open groups only.  The number of open groups after a text is that before it, with the opening
parentheses added and the closing ones taken away. -/
theorem groupDepth?_eq_some_iff {bars : Bool} {depth last : Nat} {text : Text} :
    groupDepth? bars depth text = some last ↔
      (∀ before, before <+: text → before.count ')' ≤ depth + before.count '(') ∧
        depth + text.count '(' = last + text.count ')' ∧
        (bars = false → ∀ before after, text = before ++ '|' :: after →
          before.count ')' < depth + before.count '(') := by
  induction text generalizing depth with
  | nil => simp [groupDepth?]
  | cons c rest ih =>
    have hcount : ∀ (mark : Char) (text : Text),
        (c :: text).count mark = [c].count mark + text.count mark := by
      intro mark text
      rw [← List.count_append, List.singleton_append]
    rw [groupDepth?_cons, ih]
    constructor
    · rintro ⟨hgo, hstarts, htotal, hbars⟩
      have hstep := depthAfter_eq fun hstop => hgo ⟨hstop.1, Or.inl hstop.2⟩
      refine ⟨?_, ?_, ?_⟩
      · rintro (_ | ⟨d, before⟩) hbefore
        · simp
        · rcases List.cons_prefix_cons.mp hbefore with ⟨rfl, htail⟩
          have hle := hstarts before htail
          simp only [hcount _ before]
          omega
      · simp only [hcount _ rest]
        omega
      · rintro hfree (_ | ⟨d, before⟩) after hsplit
        · cases hsplit
          have hdepth : depth ≠ 0 := fun hzero => hgo ⟨hzero, Or.inr ⟨rfl, hfree⟩⟩
          simpa using Nat.pos_of_ne_zero hdepth
        · cases hsplit
          have hlt := hbars hfree before after rfl
          simp only [hcount _ before]
          omega
    · rintro ⟨hstarts, htotal, hbars⟩
      have hgo : ¬(depth = 0 ∧ (c = ')' ∨ (c = '|' ∧ bars = false))) := by
        rintro ⟨rfl, rfl | ⟨rfl, hfree⟩⟩
        · have hle := hstarts [')'] ⟨rest, rfl⟩
          exact absurd hle (by decide)
        · exact absurd (hbars hfree [] rest rfl) (by decide)
      have hstep := depthAfter_eq fun hstop => hgo ⟨hstop.1, Or.inl hstop.2⟩
      refine ⟨hgo, fun before hbefore => ?_, ?_, fun hfree before after hsplit => ?_⟩
      · have hle := hstarts (c :: before) (List.cons_prefix_cons.mpr ⟨rfl, hbefore⟩)
        simp only [hcount _ before] at hle
        omega
      · simp only [hcount _ rest] at htotal
        omega
      · have hlt := hbars hfree (c :: before) after (by rw [hsplit]; rfl)
        simp only [hcount _ before] at hlt
        omega

/-! ## Options -/

/-- An option that can be printed between bars.  No start of it has more closing than opening
parentheses, all of it has as many of either, and every bar stands where some are open. -/
structure IsOption (option : Text) : Prop where
  nonempty : option ≠ []
  trimmed : Trimmed option
  closes_le : ∀ before, before <+: option → before.count ')' ≤ before.count '('
  closes_eq : option.count ')' = option.count '('
  bars : ∀ before after, option = before ++ '|' :: after → before.count ')' < before.count '('

/-- The options that can be printed between bars are the tidy ones. -/
theorem isOption_iff {option : Text} : IsOption option ↔ TidyOption option := by
  have hundivided : Undivided option ↔
      (∀ before, before <+: option → before.count ')' ≤ before.count '(') ∧
        option.count ')' = option.count '(' ∧
        ∀ before after, option = before ++ '|' :: after →
          before.count ')' < before.count '(' := by
    rw [Undivided, groupDepth?_eq_some_iff]
    simp only [Nat.zero_add, true_implies, eq_comm]
  constructor
  · intro h
    exact ⟨hundivided.mpr ⟨h.closes_le, h.closes_eq, h.bars⟩, h.nonempty, h.trimmed.trim_eq⟩
  · intro h
    rcases hundivided.mp h.undivided with ⟨hle, heq, hbars⟩
    exact ⟨h.nonempty, trimmed_iff.mpr h.trimmed, hle, heq, hbars⟩

instance (option : Text) : Decidable (IsOption option) :=
  decidable_of_iff (Undivided option ∧ option ≠ [] ∧ trim option = option)
    ⟨fun h => isOption_iff.mpr ⟨h.1, h.2.1, h.2.2⟩,
      fun h => ⟨(isOption_iff.mp h).undivided, h.nonempty, h.trimmed.trim_eq⟩⟩

/-- The text of an inline wildcard has its options between bars. -/
theorem render_inlineWildcard {ι : Type} (id : ι) (options : List Text) :
    (Segment.inlineWildcard id (options.map .str)).render =
      .ok ('(' :: joinWith ['|'] options ++ [')']) := by
  show (optionTexts (options.map .str)).map _ = _
  rw [optionTexts_map_str]
  rfl

/-- Tidy options are read back from between their bars. -/
theorem readInlineWildcard_joinWith {options : List Text} (hne : options ≠ [])
    (h : ∀ option ∈ options, TidyOption option) :
    readInlineWildcard ('(' :: joinWith ['|'] options ++ [')']) =
      .ok (.inlineWildcard () (options.map .str)) := by
  have hread := groupOptions_joinWith hne h
  exact readInlineWildcard_eq_ok_iff.mpr ⟨joinWith ['|'] options,
    balanced_joinWith fun option hoption => (h option hoption).undivided, by rwa [hread], rfl,
    by rw [hread]⟩

/-- The options that are read are tidy, and there is one at least. -/
theorem exists_options_of_readInlineWildcard {text : Text} {choice : Segment Unit}
    (h : readInlineWildcard text = .ok choice) :
    ∃ options, choice = .inlineWildcard () (options.map .str) ∧ options ≠ [] ∧
      ∀ option ∈ options, TidyOption option := by
  rcases readInlineWildcard_eq_ok_iff.mp h with ⟨inside, hbalanced, hne, -, rfl⟩
  exact ⟨groupOptions inside, rfl, hne,
    fun option hoption => tidyOption_of_mem_groupOptions hbalanced hoption⟩

/-- Options survive printing.  If some options can be printed between bars, the text of
their inline wildcard has them so, in parentheses; what stands between the parentheses is divided
into the options, and the text is read as the inline wildcard.  Every inline wildcard that is read
from a text has options that can be printed, so its own text is read as the same one. -/
theorem compile_readInlineWildcard {surroundings : Surroundings} {given : Option CompileOptions}
    {settings : CompileOptions} (hsettings : surroundings.optionsFor given = .ok settings)
    (hplain : settings.expandWildcards = false) :
    (∀ options : List Text, options ≠ [] → (∀ option ∈ options, IsOption option) →
      splitOptions (joinWith ['|'] options) = options ∧
      readInlineWildcard ('(' :: joinWith ['|'] options ++ [')']) =
        .ok (.inlineWildcard () (options.map .str)) ∧
      compile surroundings given (.inlineWildcard () (options.map .str) : Segment Unit) =
        .ok ('(' :: joinWith ['|'] options ++ [')'])) ∧
    ∀ text choice, readInlineWildcard text = .ok choice →
      (∃ options, choice = .inlineWildcard () (options.map .str) ∧ options ≠ [] ∧
        ∀ option ∈ options, IsOption option) ∧
      ∃ printed, compile surroundings given choice = .ok printed ∧
        readInlineWildcard printed = .ok choice := by
  have hcompile : ∀ options : List Text,
      compile surroundings given (.inlineWildcard () (options.map .str) : Segment Unit) =
        .ok ('(' :: joinWith ['|'] options ++ [')']) :=
    fun options => compile_of_render hsettings hplain rfl (render_inlineWildcard () options)
  constructor
  · intro options hne hoptions
    have htidy : ∀ option ∈ options, TidyOption option :=
      fun option hoption => isOption_iff.mp (hoptions option hoption)
    exact ⟨splitOptions_joinWith hne htidy, readInlineWildcard_joinWith hne htidy,
      hcompile options⟩
  · intro text choice hread
    rcases exists_options_of_readInlineWildcard hread with ⟨options, rfl, hne, htidy⟩
    exact ⟨⟨options, rfl, hne, fun option hoption => isOption_iff.mpr (htidy option hoption)⟩,
      _, hcompile options, readInlineWildcard_joinWith hne htidy⟩

/-- An option with bars in its own groups, and a text with blank options. -/
theorem compile_readInlineWildcard_nested :
    (∀ option ∈ ["a b".toList, "(c|(d|))e".toList], IsOption option) ∧
    (splitOptions "a b|(c|(d|))e".toList = ["a b".toList, "(c|(d|))e".toList] ∧
      readInlineWildcard "(a b|(c|(d|))e)".toList =
        .ok (.inlineWildcard () [.str "a b".toList, .str "(c|(d|))e".toList]) ∧
      compile ⟨.ok {}, 0⟩ none
          (.inlineWildcard () [.str "a b".toList, .str "(c|(d|))e".toList] : Segment Unit) =
        .ok "(a b|(c|(d|))e)".toList) ∧
    readInlineWildcard "( |(a|b) |)".toList = .ok (.inlineWildcard () [.str "(a|b)".toList]) ∧
    ∃ printed, compile ⟨.ok {}, 0⟩ none
        (.inlineWildcard () [.str "(a|b)".toList] : Segment Unit) = .ok printed ∧
      readInlineWildcard printed = .ok (.inlineWildcard () [.str "(a|b)".toList]) := by
  have hsettings : Surroundings.optionsFor ⟨.ok {}, 0⟩ none = .ok ⟨false, none, 50⟩ := rfl
  have hoptions : ∀ option ∈ ["a b".toList, "(c|(d|))e".toList], IsOption option := by decide
  have hread : readInlineWildcard "( |(a|b) |)".toList =
      .ok (.inlineWildcard () [.str "(a|b)".toList]) := rfl
  rcases compile_readInlineWildcard hsettings rfl with ⟨hprinted, hback⟩
  exact ⟨hoptions, hprinted _ (List.cons_ne_nil _ _) hoptions, hread, (hback _ _ hread).2⟩

end PromptMarkup

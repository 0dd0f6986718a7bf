import PromptMarkup.Proofs.DeletedCharacters
import PromptMarkup.Proofs.PatchedSegments
import PromptMarkup.Proofs.ShownWeights
import PromptMarkup.Proofs.WellMadeTree
import PromptMarkup.Workflow.Prompt

/-!
# Lines of a weight report

A weight report has a text for each span of a prompt: what the span holds, and its weight.  The
texts are joined by line feeds, but nothing keeps a line feed out of what a span holds, since a
prompt may have several lines.  So the report can be read back span by span only where no span
holds a line feed; elsewhere it has more lines than spans.

Main statements:

- {lit}`splitOn_joinWith`: joined texts are split where the texts themselves are split, too.
- {lit}`reportLines_eq_ok_iff`: the texts of a report.
- {lit}`WellMade.hasSpanParts`: what a span holds is a part of the text of its tree.
- {lit}`weightReport_lines`: a prompt has a report, whose lines are the texts of its spans if and
  only if none of them holds a line feed.
-/

namespace PromptMarkup

/-! ## Lines of joined texts -/

/-- Joined texts are split at the separator into the parts into which each of them is split. -/
theorem splitOn_joinWith (c : Char) {texts : List Text} (hne : texts ≠ []) :
    (joinWith [c] texts).splitOn c = texts.flatMap (List.splitOn c) := by
  induction texts with
  | nil => exact absurd rfl hne
  | cons text rest ih =>
    by_cases hrest : rest = []
    · subst hrest
      simp [joinWith]
    · rw [joinWith_cons hrest, List.append_assoc, List.singleton_append, List.flatMap_cons,
        ← ih hrest]
      exact List.splitOnP_append_cons _ _ (beq_self_eq_true c)

/-- A text is split into a part more than it has separators. -/
theorem length_splitOn (c : Char) (text : Text) :
    (text.splitOn c).length = text.count c + 1 := by
  unfold List.splitOn
  induction text with
  | nil => rfl
  | cons d rest ih =>
    rw [List.splitOnP_cons_eq_if_modifyHead, List.count_cons]
    split
    · rw [List.length_cons, ih]
    · rw [List.length_modifyHead, ih, Nat.add_zero]

/-- Joined texts are split into as many parts as there are separators in the texts, besides one for
each text. -/
theorem length_splitOn_joinWith (c : Char) {texts : List Text} (hne : texts ≠ []) :
    ((joinWith [c] texts).splitOn c).length = texts.length + texts.flatten.count c := by
  rw [splitOn_joinWith c hne]
  clear hne
  induction texts with
  | nil => rfl
  | cons text rest ih =>
    rw [List.flatMap_cons, List.length_append, ih, length_splitOn, List.length_cons,
      List.flatten_cons, List.count_append]
    omega

/-- Joined texts are split into the texts again if and only if none of them has a separator, which
is when there are as many parts as texts. -/
theorem splitOn_joinWith_eq_iff (c : Char) {texts : List Text} (hne : texts ≠ []) :
    ((joinWith [c] texts).splitOn c = texts ↔ ∀ text ∈ texts, c ∉ text) ∧
      (((joinWith [c] texts).splitOn c).length = texts.length ↔ ∀ text ∈ texts, c ∉ text) := by
  have hlength : ((joinWith [c] texts).splitOn c).length = texts.length →
      ∀ text ∈ texts, c ∉ text := by
    intro hsame text htext hmem
    rw [length_splitOn_joinWith c hne] at hsame
    have hnone : c ∉ texts.flatten := List.count_eq_zero.mp (by omega)
    exact hnone (List.mem_flatten.mpr ⟨text, htext, hmem⟩)
  have hsplit : (∀ text ∈ texts, c ∉ text) → (joinWith [c] texts).splitOn c = texts := by
    intro hnone
    rw [splitOn_joinWith c hne]
    calc texts.flatMap (List.splitOn c) = texts.flatMap fun text => [text] :=
          List.flatMap_congr fun text htext => List.splitOn_eq_singleton (hnone text htext)
      _ = texts := List.flatMap_singleton' texts
  exact ⟨⟨fun heq => hlength (congrArg List.length heq), hsplit⟩,
    ⟨hlength, fun hnone => congrArg List.length (hsplit hnone)⟩⟩

/-! ## Weights on one line -/

/-- What is left of a text without a character at its end is a part of it. -/
theorem dropEnd_sublist (c : Char) (text : Text) : (dropEnd c text).Sublist text := by
  have hreverse := (List.dropWhile_sublist (· == c) (l := text.reverse)).reverse
  rwa [List.reverse_reverse] at hreverse

/-- A number has no line feed. -/
theorem lineFeed_not_mem_natText (n : Nat) : '\n' ∉ natText n := by
  intro hmem
  have hdigit := Nat.isDigit_of_mem_toDigits (by decide) (by decide) hmem
  exact absurd hdigit (by decide)

/-- A weight has no line feed. -/
theorem lineFeed_not_mem_weightText (value : Binary64) : '\n' ∉ weightText value := by
  intro hmem
  have hplaces : '\n' ∈ value.fixedPlaces weightPlaces :=
    ((dropEnd_sublist '.' _).trans (dropEnd_sublist '0' _)).subset hmem
  unfold Binary64.fixedPlaces at hplaces
  split at hplaces
  · exact absurd hplaces (by decide)
  · rename_i negative _
    cases negative <;> exact absurd hplaces (by decide)
  · rename_i negative significand exponent _
    have hsign : '\n' ∉ (if negative = true then ['-'] else []) := by
      cases negative <;> decide
    rcases List.mem_append.mp hplaces with hmem | hmem
    · exact hsign hmem
    · rcases List.mem_append.mp hmem with hmem | hmem
      · exact lineFeed_not_mem_natText _ hmem
      · rcases List.mem_cons.mp hmem with hpoint | hmem
        · exact absurd hpoint (by decide)
        · rcases List.mem_append.mp hmem with hmem | hmem
          · exact absurd (List.eq_of_mem_replicate hmem) (by decide)
          · exact lineFeed_not_mem_natText _ hmem

/-! ## Texts of a report -/

namespace Segment

variable {ι : Type}

/-- The text of a span in a report: what it holds, and its weight. -/
def ReportsAs (span : Segment ι) (line : Text) : Prop :=
  ∃ inside value, renderList span.children = .ok inside ∧ span.displayWeight = .ok value ∧
    line = inside ++ ' ' :: 'x' :: weightText value

/-- What a span holds has no line feed. -/
def HoldsOneLine (span : Segment ι) : Prop :=
  ∀ inside, renderList span.children = .ok inside → '\n' ∉ inside

/-- The text of a span in a report has no line feed if and only if what it holds has none. -/
theorem ReportsAs.holdsOneLine_iff {span : Segment ι} {line : Text} (h : span.ReportsAs line) :
    span.HoldsOneLine ↔ '\n' ∉ line := by
  rcases h with ⟨inside, value, hinside, -, rfl⟩
  have hweight : '\n' ∉ ' ' :: 'x' :: weightText value := by
    simp [lineFeed_not_mem_weightText]
  constructor
  · intro hline hmem
    exact (List.mem_append.mp hmem).elim (hline inside hinside) hweight
  · intro hline other hother
    rw [hinside] at hother
    cases hother
    exact fun hmem => hline (List.mem_append_left _ hmem)

end Segment

section Report

variable {ι : Type} {surroundings : Surroundings} {settings : Settings}
  (hsettings : surroundings.settings = .ok settings)

include hsettings

/-- Segments that are there are compiled one after the other to their texts. -/
theorem compileAll_eq {segments : List (Segment ι)}
    (hpresent : ∀ segment ∈ segments, segment.isPresent = true) :
    compileAll surroundings segments = (Segment.renderList segments).mapError .render := by
  have hoptions : surroundings.optionsFor none = .ok ⟨false, none, settings.maxExpansionDepth⟩ := by
    rw [Surroundings.optionsFor, hsettings]
    rfl
  induction segments with
  | nil => rfl
  | cons segment rest ih =>
    rcases List.forall_mem_cons.mp hpresent with ⟨hsegment, hrest⟩
    rw [compileAll, compile_of_plain hoptions rfl hsegment, ih hrest, Segment.renderList]
    cases segment.render with
    | error e => rfl
    | ok text =>
      cases Segment.renderList rest <;> rfl

/-- The text that is made for a span, if its children are there. -/
theorem reportLine_eq_ok_iff {span : Segment ι} {line : Text}
    (hpresent : ∀ child ∈ span.children, child.isPresent = true) :
    reportLine surroundings span = .ok line ↔ span.ReportsAs line := by
  rw [reportLine, compileAll_eq hsettings hpresent]
  simp only [bind_eq_ok_iff, mapError_eq_ok_iff, Except.ok.injEq]
  constructor
  · rintro ⟨inside, hinside, value, hvalue, rfl⟩
    exact ⟨inside, value, hinside, hvalue, rfl⟩
  · rintro ⟨inside, value, hinside, hvalue, rfl⟩
    exact ⟨inside, hinside, value, hvalue, rfl⟩

/-- The texts that are made for some spans, one for each. -/
theorem reportLines_eq_ok_iff {spans : List (Segment ι)} {lines : List Text}
    (hpresent : ∀ span ∈ spans, ∀ child ∈ span.children, child.isPresent = true) :
    reportLines surroundings spans = .ok lines ↔
      List.Forall₂ Segment.ReportsAs spans lines := by
  induction spans generalizing lines with
  | nil => cases lines <;> simp [reportLines]
  | cons span rest ih =>
    rcases List.forall_mem_cons.mp hpresent with ⟨hspan, hrest⟩
    simp only [reportLines, bind_eq_ok_iff, reportLine_eq_ok_iff hsettings hspan, ih hrest,
      Except.ok.injEq]
    constructor
    · rintro ⟨line, hline, more, hmore, rfl⟩
      exact .cons hline hmore
    · rintro (_ | ⟨hline, hmore⟩)
      exact ⟨_, hline, _, hmore, rfl⟩

end Report

/-! ## Spans of a prompt -/

/-- A span with a level in range, of which the text of what it holds is a part of a text. -/
def SpanPart (whole : Text) (span : Segment Unit) : Prop :=
  ∃ type level children inside, level ≤ maxLevel ∧ span = .weighted () type level children ∧
    (∀ child ∈ children, child.isPresent = true) ∧
    Segment.renderList children = .ok inside ∧ inside <:+: whole

/-- A part of a part is a part. -/
theorem SpanPart.of_isInfix {part whole : Text} {span : Segment Unit} (h : SpanPart part span)
    (hpart : part <:+: whole) : SpanPart whole span := by
  rcases h with ⟨type, level, children, inside, hlevel, hspan, hpresent, hinside, hwithin⟩
  exact ⟨type, level, children, inside, hlevel, hspan, hpresent, hinside, hwithin.trans hpart⟩

/-- The text of a span in a report is there. -/
theorem SpanPart.exists_reportsAs {whole : Text} {span : Segment Unit} (h : SpanPart whole span) :
    ∃ line, span.ReportsAs line := by
  rcases h with ⟨type, level, children, inside, hlevel, rfl, -, hinside, -⟩
  exact ⟨_, inside, _, hinside, displayWeight_eq type hlevel, rfl⟩

/-- A tree has a text, and what its spans hold are parts of it. -/
def HasSpanParts (segment : Segment Unit) : Prop :=
  ∃ text, segment.render = .ok text ∧
    ∀ span ∈ segment.nodes, span.isWeighted = true → SpanPart text span

/-- The spans of some trees are parts of the texts of the trees, one after the other. -/
theorem spanPart_of_mem_nodesList {segments : List (Segment Unit)}
    (h : ∀ segment ∈ segments, HasSpanParts segment) :
    ∃ texts, Segment.renderList segments = .ok texts ∧
      ∀ span ∈ Segment.nodesList segments, span.isWeighted = true → SpanPart texts span := by
  induction segments with
  | nil => exact ⟨[], rfl, List.forall_mem_nil _⟩
  | cons segment rest ih =>
    rcases List.forall_mem_cons.mp h with ⟨⟨text, htext, hsegment⟩, hrest⟩
    rcases ih hrest with ⟨texts, htexts, hspans⟩
    refine ⟨text ++ texts, Segment.renderList_cons htext htexts, fun span hspan hweighted => ?_⟩
    rcases List.mem_append.mp hspan with hspan | hspan
    · exact (hsegment span hspan hweighted).of_isInfix (List.prefix_append _ _).isInfix
    · exact (hspans span hspan hweighted).of_isInfix (List.suffix_append _ _).isInfix

/-- A well-made segment is there. -/
theorem WellMade.isPresent {segment : Segment Unit} (h : WellMade segment) :
    segment.isPresent = true := by
  cases h <;> rfl

/-- A segment that is a text, a preset or an inline wildcard has no spans. -/
theorem hasSpanParts_leaf {head : Head Unit} {text : Text}
    (hrender : (Segment.leaf head).render = .ok text)
    (hkind : (Segment.leaf head).isWeighted = false) : HasSpanParts (.leaf head) := by
  refine ⟨text, hrender, fun span hspan hweighted => ?_⟩
  rw [List.mem_singleton.mp hspan, hkind] at hweighted
  cases hweighted

/-- What the spans of a well-made segment hold are parts of its text. -/
theorem WellMade.hasSpanParts {segment : Segment Unit} (h : WellMade segment) :
    HasSpanParts segment := by
  induction h with
  | text content => exact hasSpanParts_leaf rfl rfl
  | weighted type level children _ hmax _ heach _ ih =>
    rcases spanPart_of_mem_nodesList ih with ⟨inside, hinside, hspans⟩
    refine ⟨enclose type level inside, render_span hmax hinside, fun span hspan hweighted => ?_⟩
    have hwithin : inside <:+: enclose type level inside := ⟨_, _, rfl⟩
    rcases List.mem_cons.mp hspan with rfl | hspan
    · exact ⟨type, level, children, inside, hmax, rfl, fun child hchild =>
        (heach child hchild).isPresent, hinside, hwithin⟩
    · exact (hspans span hspan hweighted).of_isInfix hwithin
  | random name => exact hasSpanParts_leaf rfl rfl
  | fixed name value => exact hasSpanParts_leaf rfl rfl
  | inlineWildcard options =>
    have hrender : (Kind.inlineWildcard (options.map .str)).render [] =
        .ok ('(' :: joinWith ['|'] options ++ [')']) := by
      rw [Kind.render, optionTexts_map_str]
      rfl
    exact hasSpanParts_leaf hrender rfl

/-- The spans of a prompt, each before those in it. -/
def promptSpans (prompt : Text) : List (Segment Unit) :=
  (readPrompt prompt).nodes.filter Segment.isWeighted

/-- What the spans of a prompt hold are parts of its canonical text. -/
theorem spanPart_of_mem_promptSpans {prompt : Text} {span : Segment Unit}
    (h : span ∈ promptSpans prompt) : SpanPart (canonicalText maxNesting true prompt) span := by
  rcases List.mem_filter.mp h with ⟨hspan, hweighted⟩
  rcases wellMade_readPrompt prompt with ⟨children, hroot, hwell⟩
  rcases spanPart_of_mem_nodesList fun child hchild => (hwell.each child hchild).hasSpanParts with
    ⟨inside, hinside, hspans⟩
  have hrender := render_readPrompt prompt
  rw [hroot, promptRoot, Segment.render_branch hinside] at hrender
  cases hrender
  rw [hroot] at hspan
  rcases List.mem_cons.mp hspan with rfl | hspan
  · cases hweighted
  · exact hspans span hspan hweighted

/-- No span of a prompt of one line holds a line feed. -/
theorem holdsOneLine_of_not_mem {prompt : Text} (hprompt : '\n' ∉ prompt) :
    ∀ span ∈ promptSpans prompt, span.HoldsOneLine := by
  intro span hspan inside hinside hmem
  rcases spanPart_of_mem_promptSpans hspan with
    ⟨type, level, children, part, -, rfl, -, hpart, hwithin⟩
  have hsame : part = inside := Except.ok.inj (hpart.symm.trans hinside)
  subst hsame
  exact hprompt ((deletes_canonicalText maxNesting true prompt).sublist.subset (hwithin.subset hmem))

/-- Spans each of which has a text in a report have a list of them. -/
theorem exists_forall₂_reportsAs {spans : List (Segment Unit)}
    (h : ∀ span ∈ spans, ∃ line, span.ReportsAs line) :
    ∃ lines, List.Forall₂ Segment.ReportsAs spans lines := by
  induction spans with
  | nil => exact ⟨[], .nil⟩
  | cons span rest ih =>
    rcases List.forall_mem_cons.mp h with ⟨⟨line, hline⟩, hrest⟩
    rcases ih hrest with ⟨lines, hlines⟩
    exact ⟨line :: lines, .cons hline hlines⟩

/-- The texts of a report have no line feeds if and only if the spans hold none. -/
theorem forall_holdsOneLine_iff {ι : Type} {spans : List (Segment ι)} {lines : List Text}
    (h : List.Forall₂ Segment.ReportsAs spans lines) :
    (∀ span ∈ spans, span.HoldsOneLine) ↔ ∀ line ∈ lines, '\n' ∉ line := by
  induction h with
  | nil => exact iff_of_true (List.forall_mem_nil _) (List.forall_mem_nil _)
  | cons hline _ ih => rw [List.forall_mem_cons, List.forall_mem_cons, hline.holdsOneLine_iff, ih]

/-- A prompt has a report, with a text for each of its spans in their order, each behind a line
feed but the first.  The lines of the report are these texts, or as many, if and only if none of
the spans holds a line feed, as is so in a prompt of one line. -/
theorem weightReport_lines {surroundings : Surroundings} {settings : Settings}
    (hsettings : surroundings.settings = .ok settings) (prompt : Text) :
    ∃ lines,
      weightReport surroundings prompt =
        .ok ⟨joinWith ['\n'] lines, (promptSpans prompt).length⟩ ∧
      List.Forall₂ Segment.ReportsAs (promptSpans prompt) lines ∧
      (promptSpans prompt ≠ [] →
        ((joinWith ['\n'] lines).splitOn '\n' = lines ↔
          ∀ span ∈ promptSpans prompt, span.HoldsOneLine) ∧
        (((joinWith ['\n'] lines).splitOn '\n').length = (promptSpans prompt).length ↔
          ∀ span ∈ promptSpans prompt, span.HoldsOneLine)) ∧
      ('\n' ∉ prompt → ∀ span ∈ promptSpans prompt, span.HoldsOneLine) := by
  have hpresent : ∀ span ∈ promptSpans prompt, ∀ child ∈ span.children,
      child.isPresent = true := by
    intro span hspan
    rcases spanPart_of_mem_promptSpans hspan with ⟨_, _, _, _, -, rfl, hchildren, -⟩
    exact hchildren
  rcases exists_forall₂_reportsAs fun span hspan =>
    (spanPart_of_mem_promptSpans hspan).exists_reportsAs with ⟨lines, hlines⟩
  have hreport := (reportLines_eq_ok_iff hsettings hpresent).mpr hlines
  refine ⟨lines, ?_, hlines, fun hspans => ?_, holdsOneLine_of_not_mem⟩
  · have hfilter : (readPrompt prompt).nodes.filter Segment.isWeighted = promptSpans prompt := rfl
    rw [weightReport, hfilter, hreport]
    rfl
  · have hne : lines ≠ [] := by
      rintro rfl
      exact hspans (List.forall₂_nil_right_iff.mp hlines)
    rw [forall_holdsOneLine_iff hlines, hlines.length_eq]
    exact splitOn_joinWith_eq_iff '\n' hne

/-- A prompt with a span in another one, and a second line. -/
def twoSpans : Text :=
  "\x7ba [b]\x7d\nc".toList

/-- The report has a line for each of the spans, neither of which holds a line feed. -/
theorem weightReport_lines_twoSpans :
    weightReport ⟨.ok {}, 0⟩ twoSpans = .ok ⟨"a [b] x1.05\nb x0.9524".toList, 2⟩ ∧
      List.Forall₂ Segment.ReportsAs (promptSpans twoSpans)
        ["a [b] x1.05".toList, "b x0.9524".toList] ∧
      ∀ span ∈ promptSpans twoSpans, span.HoldsOneLine := by
  have hsettings : Surroundings.settings ⟨.ok {}, 0⟩ = .ok {} := rfl
  have hreport : weightReport ⟨.ok {}, 0⟩ twoSpans =
      .ok ⟨"a [b] x1.05\nb x0.9524".toList, 2⟩ := by
    decide +kernel
  have hcount : (promptSpans twoSpans).length = 2 := by decide +kernel
  have hspans : promptSpans twoSpans ≠ [] := List.ne_nil_of_length_pos (by omega)
  rcases weightReport_lines hsettings twoSpans with ⟨lines, hfound, hlines, hsplit, -⟩
  rcases hsplit hspans with ⟨hsame, hnumber⟩
  have hjoined : joinWith ['\n'] lines = "a [b] x1.05\nb x0.9524".toList :=
    congrArg WeightReport.report (Except.ok.inj (hfound.symm.trans hreport))
  rw [hjoined, hcount] at hnumber
  have hone := hnumber.mp (by decide +kernel)
  have htexts := hsame.mpr hone
  rw [hjoined] at htexts
  have hparts : "a [b] x1.05\nb x0.9524".toList.splitOn '\n' =
      ["a [b] x1.05".toList, "b x0.9524".toList] := by
    decide +kernel
  rw [← htexts, hparts] at hlines
  exact ⟨hreport, hlines, hone⟩

/-- A span that holds a line feed takes two lines of the report. -/
theorem weightReport_two_lines :
    weightReport ⟨.ok {}, 0⟩ "\x7ba\nb\x7d".toList = .ok ⟨"a\nb x1.05".toList, 1⟩ ∧
      ("a\nb x1.05".toList.splitOn '\n').length = 2 := by
  exact ⟨by decide +kernel, by decide +kernel⟩

end PromptMarkup

import PromptMarkup.Markup.Group
import PromptMarkup.Proofs.TrimmedText

/-!
# The grammar of groups

Which parentheses belong together, and which bars divide a group, is said by one scan
that keeps the number of open groups.  A text is balanced if the scan ends where it
began without falling below, and undivided if also no bar stands outside its groups.

Main statements:

- {lit}`groupClose?_eq_some_iff`: a group closes after the first balanced text that is
  followed by a closing parenthesis.
- {lit}`tidyOption_of_mem_groupOptions`: the options of a balanced text are undivided,
  not empty and trimmed.
- {lit}`readGroup?_joinWith`: such options, joined with bars, are read back.
-/

namespace PromptMarkup

/-! ## Depth -/

/-- The number of open groups after a text, with a number of them open before it.
There is none if a parenthesis closes no group, and where bars do not count as text,
none if a bar stands outside all groups. -/
def groupDepth? (bars : Bool) : Nat → Text → Option Nat
  | depth, [] => some depth
  | depth, c :: rest =>
    if depth = 0 ∧ (c = ')' ∨ (c = '|' ∧ bars = false)) then none
    else groupDepth? bars (depthAfter depth c) rest

/-- A text in which each parenthesis has its partner. -/
def Balanced (text : Text) : Prop :=
  groupDepth? true 0 text = some 0

/-- A balanced text without a bar outside its groups. -/
def Undivided (text : Text) : Prop :=
  groupDepth? false 0 text = some 0

instance (text : Text) : Decidable (Balanced text) :=
  inferInstanceAs (Decidable (_ = _))

instance (text : Text) : Decidable (Undivided text) :=
  inferInstanceAs (Decidable (_ = _))

/-- The depth after two texts is that after the second, from that after the first. -/
theorem groupDepth?_append (bars : Bool) (depth : Nat) (first second : Text) :
    groupDepth? bars depth (first ++ second) =
      (groupDepth? bars depth first).bind fun middle => groupDepth? bars middle second := by
  induction first generalizing depth with
  | nil => rfl
  | cons c rest ih =>
    rw [List.cons_append, groupDepth?, groupDepth?]
    split
    · rfl
    · exact ih (depthAfter depth c)

/-- A character takes a depth to the next one, unless it closes no group or is a bar that
does not count as text. -/
theorem groupDepth?_cons {bars : Bool} {depth last : Nat} {c : Char} {rest : Text} :
    groupDepth? bars depth (c :: rest) = some last ↔
      ¬(depth = 0 ∧ (c = ')' ∨ (c = '|' ∧ bars = false))) ∧
        groupDepth? bars (depthAfter depth c) rest = some last := by
  rw [groupDepth?]
  split <;> simp_all

/-- A character changes every depth in the same way, unless it closes the last group. -/
theorem depthAfter_add {depth : Nat} {c : Char} (extra : Nat) (h : ¬(depth = 0 ∧ c = ')')) :
    depthAfter (depth + extra) c = depthAfter depth c + extra := by
  unfold depthAfter
  split
  · omega
  · split
    · have : depth ≠ 0 := fun hzero => h ⟨hzero, ‹_›⟩
      omega
    · rfl

/-- What is read below a depth is read in the same way above it; bars inside a group
never matter. -/
theorem groupDepth?_add {bars bars' : Bool} {depth last : Nat} {text : Text} (extra : Nat)
    (h : groupDepth? bars depth text = some last)
    (hbars : bars = false ∨ bars' = true ∨ 0 < extra) :
    groupDepth? bars' (depth + extra) text = some (last + extra) := by
  induction text generalizing depth with
  | nil =>
    cases h
    rfl
  | cons c rest ih =>
    rcases groupDepth?_cons.mp h with ⟨hgo, hrest⟩
    refine groupDepth?_cons.mpr ⟨?_, ?_⟩
    · rintro ⟨hzero, hstop⟩
      grind
    · rw [depthAfter_add extra fun hstop => hgo ⟨hstop.1, Or.inl hstop.2⟩]
      exact ih hrest

/-- An undivided text is balanced. -/
theorem Undivided.balanced {text : Text} (h : Undivided text) : Balanced text :=
  groupDepth?_add 0 h (Or.inl rfl)

/-- A balanced text leaves every depth as it is. -/
theorem Balanced.depth {text : Text} (h : Balanced text) (depth : Nat) :
    groupDepth? true depth text = some depth := by
  simpa using groupDepth?_add depth h (Or.inr (Or.inl rfl))

/-- An undivided text leaves every depth as it is, whether bars count as text or
not. -/
theorem Undivided.depth {text : Text} (h : Undivided text) (bars : Bool) (depth : Nat) :
    groupDepth? bars depth text = some depth := by
  simpa using groupDepth?_add depth h (Or.inl rfl)

/-- Balanced texts one after the other are balanced. -/
theorem Balanced.append {first second : Text} (h : Balanced first) (h' : Balanced second) :
    Balanced (first ++ second) := by
  rw [Balanced, groupDepth?_append, h]
  exact h'

/-- Undivided texts one after the other are undivided. -/
theorem Undivided.append {first second : Text} (h : Undivided first) (h' : Undivided second) :
    Undivided (first ++ second) := by
  rw [Undivided, groupDepth?_append, h]
  exact h'

/-- The characters that the grammar of groups looks at. -/
def isGroupMark (c : Char) : Bool :=
  c = '(' || c = ')' || c = '|'

/-- A character that is no mark changes no depth. -/
theorem groupDepth?_cons_of_plain {c : Char} (hc : isGroupMark c = false) (bars : Bool)
    (depth : Nat) (rest : Text) :
    groupDepth? bars depth (c :: rest) = groupDepth? bars depth rest := by
  simp only [isGroupMark, Bool.or_eq_false_iff, decide_eq_false_iff_not] at hc
  rcases hc with ⟨⟨hopen, hclose⟩, hbar⟩
  simp [groupDepth?, depthAfter, hopen, hclose, hbar]

/-- A text without marks is undivided. -/
theorem undivided_of_plain {text : Text} (h : ∀ c ∈ text, isGroupMark c = false) :
    Undivided text := by
  induction text with
  | nil => rfl
  | cons c rest ih =>
    rw [Undivided, groupDepth?_cons_of_plain (h c List.mem_cons_self)]
    exact ih fun other hother => h other (List.mem_cons_of_mem _ hother)

/-- A blank character is no mark. -/
theorem isGroupMark_of_isBlank {c : Char} (h : isBlank c = true) : isGroupMark c = false := by
  cases hmark : isGroupMark c with
  | false => rfl
  | true =>
    simp only [isGroupMark, Bool.or_eq_true, decide_eq_true_eq] at hmark
    rcases hmark with (rfl | rfl) | rfl <;> exact absurd h (by decide)

/-- A group around a balanced text is undivided, whatever bars it has. -/
theorem Balanced.undivided_group {inside : Text} (h : Balanced inside) :
    Undivided ('(' :: inside ++ [')']) := by
  have hdepth : groupDepth? false 1 inside = some 1 :=
    groupDepth?_add 1 h (Or.inr (Or.inr Nat.one_pos))
  have hgroup : groupDepth? false 1 (inside ++ [')']) = some 0 := by
    rw [groupDepth?_append, hdepth]
    rfl
  exact hgroup

/-- An undivided text that begins with a parenthesis begins with a group. -/
theorem exists_group_of_undivided {rest : Text} (h : Undivided ('(' :: rest)) :
    ∃ inside after, rest = inside ++ ')' :: after ∧ Balanced inside ∧ Undivided after := by
  have hopen : groupDepth? false 1 rest = some 0 := h
  have hgroup : ∀ (text : Text) (depth : Nat), groupDepth? false (depth + 1) text = some 0 →
      ∃ inside after, text = inside ++ ')' :: after ∧ groupDepth? true depth inside = some 0 ∧
        Undivided after := by
    intro text
    induction text with
    | nil => exact fun _ h => nomatch h
    | cons c text ih =>
      intro depth htext
      have hrest := (groupDepth?_cons.mp htext).2
      by_cases hend : depth = 0 ∧ c = ')'
      · rcases hend with ⟨rfl, rfl⟩
        exact ⟨[], text, rfl, rfl, hrest⟩
      · rw [depthAfter_add 1 hend] at hrest
        rcases ih _ hrest with ⟨inside, after, rfl, hinside, hafter⟩
        refine ⟨c :: inside, after, rfl, groupDepth?_cons.mpr ⟨?_, hinside⟩, hafter⟩
        simpa using hend
  exact hgroup rest 0 hopen

/-- A balanced text that is not undivided has a bar after its first undivided part. -/
theorem exists_bar_of_balanced {text : Text} (h : Balanced text) (hbars : ¬Undivided text) :
    ∃ first rest, text = first ++ '|' :: rest ∧ Undivided first := by
  have hbar : ∀ (text : Text) (depth : Nat), groupDepth? true depth text = some 0 →
      groupDepth? false depth text ≠ some 0 →
        ∃ first rest, text = first ++ '|' :: rest ∧ groupDepth? false depth first = some 0 := by
    intro text
    induction text with
    | nil => exact fun depth h hne => absurd h hne
    | cons c text ih =>
      intro depth htext hne
      have hgo := groupDepth?_cons.mp htext
      by_cases hend : depth = 0 ∧ c = '|'
      · rcases hend with ⟨rfl, rfl⟩
        exact ⟨[], text, rfl, rfl⟩
      · have hstop : ¬(depth = 0 ∧ (c = ')' ∨ (c = '|' ∧ false = false))) := by
          grind
        have hnext : groupDepth? false (depthAfter depth c) text ≠ some 0 :=
          fun hzero => hne (groupDepth?_cons.mpr ⟨hstop, hzero⟩)
        rcases ih _ hgo.2 hnext with ⟨first, rest, rfl, hfirst⟩
        exact ⟨c :: first, rest, rfl, groupDepth?_cons.mpr ⟨hstop, hfirst⟩⟩
  exact hbar text 0 h hbars

/-! ## Where a group closes -/

/-- A closing parenthesis outside all inner groups ends a group, and every other
character belongs to it. -/
theorem groupClose?_cons (depth : Nat) (c : Char) (rest : Text) :
    groupClose? depth (c :: rest) =
      if depth = 0 ∧ c = ')' then some ([], rest)
      else (groupClose? (depthAfter depth c) rest).map fun (inside, after) =>
        (c :: inside, after) := by
  cases depth with
  | zero =>
    rw [groupClose?, depthAfter]
    by_cases hopen : c = '('
    · simp [hopen]
    · by_cases hclose : c = ')' <;> simp [hopen, hclose]
  | succ depth =>
    rw [groupClose?, depthAfter]
    by_cases hopen : c = '('
    · simp [hopen]
    · by_cases hclose : c = ')' <;> simp [hopen, hclose]

/-- A group closes after the first text that is balanced, from the depth on at which
it is read, and is followed by a closing parenthesis. -/
theorem groupClose?_eq_some_iff {depth : Nat} {text inside after : Text} :
    groupClose? depth text = some (inside, after) ↔
      text = inside ++ ')' :: after ∧ groupDepth? true depth inside = some 0 := by
  induction text generalizing depth inside with
  | nil => simp [groupClose?]
  | cons c rest ih =>
    rw [groupClose?_cons]
    constructor
    · intro h
      split at h
      · rename_i hclose
        cases h
        exact ⟨by rw [hclose.2]; rfl, by rw [hclose.1]; rfl⟩
      · rename_i hopen
        rcases Option.map_eq_some_iff.mp h with ⟨⟨tail, after'⟩, htail, heq⟩
        cases heq
        rcases ih.mp htail with ⟨rfl, hscan⟩
        exact ⟨rfl, groupDepth?_cons.mpr ⟨by simpa using hopen, hscan⟩⟩
    · rintro ⟨hsplit, hscan⟩
      cases inside with
      | nil =>
        cases hsplit
        cases hscan
        simp
      | cons d tail =>
        cases hsplit
        rcases groupDepth?_cons.mp hscan with ⟨hgo, hrest⟩
        rw [if_neg fun hstop => hgo ⟨hstop.1, Or.inl hstop.2⟩, ih.mpr ⟨rfl, hrest⟩]
        rfl

/-- A text that takes the depth to another one stands before what closes the group from
there. -/
theorem groupClose?_append {depth last : Nat} {first : Text} (second : Text)
    (h : groupDepth? true depth first = some last) :
    groupClose? depth (first ++ second) =
      (groupClose? last second).map fun (inside, after) => (first ++ inside, after) := by
  induction first generalizing depth with
  | nil =>
    cases h
    simp
  | cons c rest ih =>
    rcases groupDepth?_cons.mp h with ⟨hgo, hrest⟩
    rw [List.cons_append, groupClose?_cons, if_neg fun hstop => hgo ⟨hstop.1, Or.inl hstop.2⟩,
      ih hrest, Option.map_map]
    rfl

/-- Where a group closes it does so whatever follows. -/
theorem groupClose?_append_right {depth : Nat} {text inside after : Text}
    (h : groupClose? depth text = some (inside, after)) (more : Text) :
    groupClose? depth (text ++ more) = some (inside, after ++ more) := by
  rcases groupClose?_eq_some_iff.mp h with ⟨rfl, hinside⟩
  exact groupClose?_eq_some_iff.mpr ⟨by simp, hinside⟩

/-- No group closes if the depth never falls below what it is at first. -/
theorem groupClose?_eq_none_iff {depth : Nat} {text : Text} :
    groupClose? depth text = none ↔ groupDepth? true depth text ≠ none := by
  induction text generalizing depth with
  | nil => simp [groupClose?, groupDepth?]
  | cons c rest ih =>
    rw [groupClose?_cons, groupDepth?]
    by_cases hclose : depth = 0 ∧ c = ')'
    · simp [hclose]
    · simpa [hclose] using ih

/-- A balanced text before a closing parenthesis is what stands in a group. -/
theorem Balanced.groupClose? {inside : Text} (h : Balanced inside) (after : Text) :
    groupClose? 0 (inside ++ ')' :: after) = some (inside, after) :=
  groupClose?_eq_some_iff.mpr ⟨rfl, h⟩

/-! ## Parts -/

/-- Put a text before the first part. -/
def prependPart (text : Text) : List Text → List Text
  | [] => [text]
  | part :: rest => (text ++ part) :: rest

/-- A text before the first part leaves the number of parts as it is. -/
theorem length_prependPart {parts : List Text} (text : Text) (hne : parts ≠ []) :
    (prependPart text parts).length = parts.length := by
  cases parts with
  | nil => exact absurd rfl hne
  | cons part rest => rfl

/-- There is always a part. -/
theorem rawParts_ne_nil (depth : Nat) (text : Text) : rawParts depth text ≠ [] := by
  cases text with
  | nil => exact List.cons_ne_nil _ _
  | cons c rest =>
    rw [rawParts]
    split
    · exact List.cons_ne_nil _ _
    · cases rawParts (depthAfter depth c) rest <;> exact List.cons_ne_nil _ _

/-- Joined with bars the parts of a text are the text. -/
theorem joinWith_rawParts (depth : Nat) (text : Text) :
    joinWith ['|'] (rawParts depth text) = text := by
  induction text generalizing depth with
  | nil => rfl
  | cons c rest ih =>
    rw [rawParts]
    split
    · rename_i hbar
      have hne := rawParts_ne_nil 0 rest
      have hrest := ih 0
      cases hparts : rawParts 0 rest with
      | nil => exact absurd hparts hne
      | cons part others =>
        rw [hparts] at hrest
        rw [joinWith, hrest, hbar.1]
        · rfl
        · exact List.cons_ne_nil _ _
    · have hrest := ih (depthAfter depth c)
      cases hparts : rawParts (depthAfter depth c) rest with
      | nil => exact absurd hparts (rawParts_ne_nil _ _)
      | cons part others =>
        rw [hparts] at hrest
        rw [← hrest]
        cases others <;> rfl

/-- A text without a bar outside its groups belongs to the first part. -/
theorem rawParts_append {depth last : Nat} {first : Text} (second : Text)
    (h : groupDepth? false depth first = some last) :
    rawParts depth (first ++ second) = prependPart first (rawParts last second) := by
  induction first generalizing depth with
  | nil =>
    cases h
    have hne := rawParts_ne_nil last second
    cases hparts : rawParts last second with
    | nil => exact absurd hparts hne
    | cons part rest => simp [prependPart, hparts]
  | cons c rest ih =>
    rcases groupDepth?_cons.mp h with ⟨hgo, hrest⟩
    have hbar : ¬(c = '|' ∧ depth = 0) := fun hbar => hgo ⟨hbar.2, Or.inr ⟨hbar.1, rfl⟩⟩
    rw [List.cons_append, rawParts, if_neg hbar, ih hrest]
    cases rawParts last second <;> rfl

/-- An undivided text is its only part. -/
theorem Undivided.rawParts {text : Text} (h : Undivided text) : rawParts 0 text = [text] := by
  simpa [PromptMarkup.rawParts, prependPart] using rawParts_append [] h

/-- Undivided texts joined with bars are the parts of the text. -/
theorem rawParts_joinWith {parts : List Text} (hne : parts ≠ [])
    (h : ∀ part ∈ parts, Undivided part) : rawParts 0 (joinWith ['|'] parts) = parts := by
  induction parts with
  | nil => exact absurd rfl hne
  | cons part rest ih =>
    have hpart := h part List.mem_cons_self
    cases rest with
    | nil => exact hpart.rawParts
    | cons next rest =>
      have hrest := ih (List.cons_ne_nil _ _) fun other hother =>
        h other (List.mem_cons_of_mem _ hother)
      rw [joinWith, List.append_assoc, rawParts_append _ hpart]
      · simp [rawParts, hrest, prependPart]
      · exact List.cons_ne_nil _ _

/-- Undivided texts joined with bars are balanced. -/
theorem balanced_joinWith {parts : List Text} (h : ∀ part ∈ parts, Undivided part) :
    Balanced (joinWith ['|'] parts) := by
  induction parts with
  | nil => rfl
  | cons part rest ih =>
    have hpart := (h part List.mem_cons_self).balanced
    cases rest with
    | nil => exact hpart
    | cons next rest =>
      have hrest := ih fun other hother => h other (List.mem_cons_of_mem _ hother)
      have hbar : Balanced ['|'] := rfl
      rw [joinWith]
      · exact (hpart.append hbar).append hrest
      · exact List.cons_ne_nil _ _

/-- The first part of a text that closes all groups closes them, and every other part is
undivided. -/
theorem groupDepth?_parts {depth : Nat} {text part : Text} {others : List Text}
    (h : groupDepth? true depth text = some 0) (hparts : rawParts depth text = part :: others) :
    groupDepth? false depth part = some 0 ∧ ∀ other ∈ others, Undivided other := by
  induction text generalizing depth part others with
  | nil =>
    cases h
    cases hparts
    exact ⟨rfl, nofun⟩
  | cons c rest ih =>
    rw [rawParts] at hparts
    split at hparts
    · rename_i hbar
      cases hparts
      rcases hbar with ⟨rfl, rfl⟩
      have hrest : groupDepth? true 0 rest = some 0 := h
      refine ⟨rfl, fun other hother => ?_⟩
      cases hsplit : rawParts 0 rest with
      | nil => exact absurd hsplit (rawParts_ne_nil _ _)
      | cons first later =>
        rcases ih hrest hsplit with ⟨hfirst, hlater⟩
        rw [hsplit] at hother
        rcases List.mem_cons.mp hother with rfl | hother
        · exact hfirst
        · exact hlater other hother
    · rename_i hbar
      cases hsplit : rawParts (depthAfter depth c) rest with
      | nil => exact absurd hsplit (rawParts_ne_nil _ _)
      | cons first later =>
        rw [hsplit] at hparts
        cases hparts
        rcases groupDepth?_cons.mp h with ⟨hgo, hrest⟩
        rcases ih hrest hsplit with ⟨hfirst, hlater⟩
        refine ⟨groupDepth?_cons.mpr ⟨?_, hfirst⟩, hlater⟩
        rintro ⟨hzero, hclose | ⟨hmark, -⟩⟩
        · exact hgo ⟨hzero, Or.inl hclose⟩
        · exact hbar ⟨hmark, hzero⟩

/-- The parts of a balanced text are undivided. -/
theorem undivided_of_mem_rawParts {text part : Text} (h : Balanced text)
    (hpart : part ∈ rawParts 0 text) : Undivided part := by
  cases hparts : rawParts 0 text with
  | nil => exact absurd hparts (rawParts_ne_nil _ _)
  | cons first others =>
    rcases groupDepth?_parts h hparts with ⟨hfirst, hothers⟩
    rw [hparts] at hpart
    rcases List.mem_cons.mp hpart with rfl | hpart
    · exact hfirst
    · exact hothers part hpart

/-! ## Options -/

/-- Trimming leaves a text undivided. -/
theorem Undivided.trim {text : Text} (h : Undivided text) : Undivided (trim text) := by
  rcases exists_trim_append text with ⟨before, after, hsplit, hbefore, hafter⟩
  have hstart : Undivided before :=
    undivided_of_plain fun c hc => isGroupMark_of_isBlank (hbefore c hc)
  have hend : Undivided after :=
    undivided_of_plain fun c hc => isGroupMark_of_isBlank (hafter c hc)
  rw [Undivided, hsplit, groupDepth?_append, groupDepth?_append, hstart] at h
  rcases Option.bind_eq_some_iff.mp h with ⟨depth, hdepth, hlast⟩
  rw [hend.depth] at hlast
  rw [Undivided, ← hlast]
  exact hdepth

/-- A separator stands between the first part and the others. -/
theorem joinWith_cons {separator part : Text} {rest : List Text} (hne : rest ≠ []) :
    joinWith separator (part :: rest) = part ++ separator ++ joinWith separator rest := by
  cases rest with
  | nil => exact absurd rfl hne
  | cons next rest => rfl

/-- What is in joined texts is in one of them, or is a bar. -/
theorem mem_joinWith {parts : List Text} {c : Char} (h : c ∈ joinWith ['|'] parts) :
    c = '|' ∨ ∃ part ∈ parts, c ∈ part := by
  induction parts with
  | nil => cases h
  | cons part rest ih =>
    cases rest with
    | nil => exact Or.inr ⟨part, List.mem_cons_self, h⟩
    | cons next rest =>
      rw [joinWith] at h
      · rcases List.mem_append.mp h with hfirst | hrest
        · rcases List.mem_append.mp hfirst with hpart | hbar
          · exact Or.inr ⟨part, List.mem_cons_self, hpart⟩
          · exact Or.inl (List.mem_singleton.mp hbar)
        · rcases ih hrest with hbar | ⟨other, hother, hmem⟩
          · exact Or.inl hbar
          · exact Or.inr ⟨other, List.mem_cons_of_mem _ hother, hmem⟩
      · exact List.cons_ne_nil _ _

/-- A part is an unbroken piece of what the parts are joined to. -/
theorem isInfix_joinWith {separator part : Text} {parts : List Text} (h : part ∈ parts) :
    part <:+: joinWith separator parts := by
  induction parts with
  | nil => cases h
  | cons first rest ih =>
    by_cases hne : rest = []
    · subst hne
      rw [List.mem_singleton.mp h]
      exact List.infix_refl first
    · rw [joinWith_cons hne]
      rcases List.mem_cons.mp h with rfl | hrest
      · exact ⟨[], separator ++ joinWith separator rest, by simp⟩
      · exact (ih hrest).trans (List.suffix_append _ _).isInfix

/-- An option is an unbroken piece of the text it was read from. -/
theorem isInfix_of_mem_groupOptions {text option : Text} (h : option ∈ groupOptions text) :
    option <:+: text := by
  rcases List.mem_map.mp (List.mem_filter.mp h).1 with ⟨part, hpart, rfl⟩
  rcases exists_trim_append part with ⟨before, after, hsplit, -, -⟩
  have htrim : trim part <:+: part := ⟨before, after, hsplit.symm⟩
  have hinfix : part <:+: joinWith ['|'] (rawParts 0 text) := isInfix_joinWith hpart
  rw [joinWith_rawParts] at hinfix
  exact htrim.trans hinfix

/-- A text without options has no parentheses. -/
theorem not_mem_of_groupOptions_eq_nil {text : Text} (h : groupOptions text = []) :
    '(' ∉ text := by
  intro hmem
  rw [← joinWith_rawParts 0 text] at hmem
  rcases mem_joinWith hmem with hbar | ⟨part, hpart, hopen⟩
  · cases hbar
  · -- The part is blank, as it is no option.
    have hblank : trim part = [] := by
      have hnot := List.filter_eq_nil_iff.mp h (trim part) (List.mem_map_of_mem hpart)
      simpa using hnot
    rcases exists_trim_append part with ⟨before, after, hsplit, hbefore, hafter⟩
    rw [hsplit, hblank, List.append_nil] at hopen
    rcases List.mem_append.mp hopen with hopen | hopen
    · exact absurd (hbefore _ hopen) (by decide)
    · exact absurd (hafter _ hopen) (by decide)

/-- Blank characters only are no options. -/
theorem groupOptions_eq_nil_of_blank {inside : Text} (h : ∀ c ∈ inside, isBlank c = true) :
    groupOptions inside = [] := by
  have hparts : rawParts 0 inside = [inside] :=
    (undivided_of_plain fun c hc => isGroupMark_of_isBlank (h c hc)).rawParts
  have htrim : trim inside = [] := trim_eq_nil_iff.mpr h
  rw [groupOptions, splitOptions, hparts]
  simp [htrim]

/-- An option as it is printed: undivided, not empty and trimmed. -/
structure TidyOption (option : Text) : Prop where
  undivided : Undivided option
  nonempty : option ≠ []
  trimmed : trim option = option

/-- The options of a balanced text are tidy. -/
theorem tidyOption_of_mem_groupOptions {text option : Text} (h : Balanced text)
    (hoption : option ∈ groupOptions text) : TidyOption option := by
  rcases List.mem_filter.mp hoption with ⟨hmem, hne⟩
  rcases List.mem_map.mp hmem with ⟨part, hpart, rfl⟩
  exact ⟨(undivided_of_mem_rawParts h hpart).trim, by simpa using hne, trim_trim part⟩

/-- Tidy options joined with bars are the parts of the text. -/
theorem splitOptions_joinWith {options : List Text} (hne : options ≠ [])
    (h : ∀ option ∈ options, TidyOption option) :
    splitOptions (joinWith ['|'] options) = options := by
  rw [splitOptions, rawParts_joinWith hne fun option hoption => (h option hoption).undivided]
  exact (List.map_congr_left fun option hoption => (h option hoption).trimmed).trans
    (List.map_id' options)

/-- Tidy options joined with bars are the options of the text. -/
theorem groupOptions_joinWith {options : List Text} (hne : options ≠ [])
    (h : ∀ option ∈ options, TidyOption option) :
    groupOptions (joinWith ['|'] options) = options := by
  rw [groupOptions, splitOptions_joinWith hne h]
  exact List.filter_eq_self.mpr fun option hoption => by simp [(h option hoption).nonempty]

/-- An undivided text in parentheses is no choice. -/
theorem Undivided.readGroup?_eq_none {inside : Text} (h : Undivided inside) (after : Text) :
    readGroup? (inside ++ ')' :: after) = none := by
  rw [readGroup?, h.balanced.groupClose?]
  simp [splitOptions, h.rawParts]

/-- Two tidy options or more, joined with bars, are read back as a group. -/
theorem readGroup?_joinWith {options : List Text} (hlength : 2 ≤ options.length)
    (h : ∀ option ∈ options, TidyOption option) (after : Text) :
    readGroup? (joinWith ['|'] options ++ ')' :: after) = some (options, after) := by
  have hne : options ≠ [] := List.ne_nil_of_length_pos (by omega)
  have hbalanced := balanced_joinWith fun option hoption => (h option hoption).undivided
  rw [readGroup?, hbalanced.groupClose?]
  simp [splitOptions_joinWith hne h, groupOptions_joinWith hne h, hlength, hne]

end PromptMarkup

import Mathlib.Data.List.DropRight
import PromptMarkup.Text.Blank

/-!
# Trimmed texts

Trimming takes the blank characters at both ends of a text away and nothing else, so the trimmed
texts are those that have none there.

Main statements:

- {lit}`exists_trim_append`: only blank characters are taken away.
- {lit}`trimmed_iff`: the trimmed texts are those that trimming leaves alone.
- {lit}`trim_append_append`: blank characters around a trimmed text are trimmed away.
-/

namespace PromptMarkup

/-- A text without blank characters at its ends. -/
structure Trimmed (text : Text) : Prop where
  first : ∀ c ∈ text.head?, isBlank c = false
  last : ∀ c ∈ text.getLast?, isBlank c = false

/-- A trimmed text has nothing to trim at its end. -/
theorem Trimmed.trimEnd_eq {text : Text} (h : Trimmed text) : trimEnd text = text := by
  refine List.rdropWhile_eq_self_iff.mpr fun hne => ?_
  simp [h.last _ (List.getLast?_eq_some_getLast hne)]

/-- A text without blank characters at its ends is trimmed already. -/
theorem Trimmed.trim_eq {text : Text} (h : Trimmed text) : trim text = text := by
  have hstart : trimStart text = text := by
    cases text with
    | nil => rfl
    | cons c rest =>
      exact List.dropWhile_cons_of_neg (by simp [h.first c rfl])
  rw [trim, hstart, h.trimEnd_eq]

/-- Trimming takes blank characters away at both ends, and what it leaves is
trimmed. -/
theorem exists_trim_append (text : Text) :
    ∃ before after : Text, text = before ++ trim text ++ after ∧
      (∀ c ∈ before, isBlank c = true) ∧ (∀ c ∈ after, isBlank c = true) := by
  refine ⟨text.takeWhile isBlank, (trimStart text).rtakeWhile isBlank, ?_, ?_, ?_⟩
  · have hend : trim text ++ (trimStart text).rtakeWhile isBlank = trimStart text :=
      List.rdropWhile_append_rtakeWhile
    rw [List.append_assoc, hend]
    exact List.takeWhile_append_dropWhile.symm
  · exact fun c hc => List.mem_takeWhile_imp hc
  · exact fun c hc => List.mem_rtakeWhile_imp hc

/-- What trimming leaves has no blank characters at its ends. -/
theorem trimmed_trim (text : Text) : Trimmed (trim text) := by
  constructor
  · -- The first character that is left comes first after the blank ones at the start.
    intro c hc
    have hprefix : trim text <+: trimStart text := List.rdropWhile_prefix isBlank _
    rcases hprefix with ⟨after, hafter⟩
    have hhead : (trimStart text).head? = some c := by
      rw [← hafter, List.head?_append, Option.mem_def.mp hc]
      rfl
    have hnot := List.head?_dropWhile_not isBlank text
    rw [show text.dropWhile isBlank = trimStart text from rfl, hhead] at hnot
    exact hnot
  · intro c hc
    rcases List.mem_getLast?_eq_getLast hc with ⟨hne, hlast⟩
    have hnot := List.rdropWhile_last_not isBlank (trimStart text) hne
    rw [hlast]
    exact Bool.eq_false_iff.mpr hnot

/-- The trimmed texts are those that trimming leaves alone. -/
theorem trimmed_iff {text : Text} : Trimmed text ↔ trim text = text :=
  ⟨Trimmed.trim_eq, fun h => h ▸ trimmed_trim text⟩

instance (text : Text) : Decidable (Trimmed text) :=
  decidable_of_iff _ trimmed_iff.symm

/-- What was trimmed is trimmed. -/
@[simp] theorem trim_trim (text : Text) : trim (trim text) = trim text :=
  (trimmed_trim text).trim_eq

/-- Only blank characters are trimmed away altogether. -/
theorem trim_eq_nil_iff {text : Text} : trim text = [] ↔ ∀ c ∈ text, isBlank c = true := by
  constructor
  · intro h c hc
    rcases exists_trim_append text with ⟨before, after, hsplit, hbefore, hafter⟩
    rw [hsplit, h, List.append_nil] at hc
    exact (List.mem_append.mp hc).elim (hbefore c) (hafter c)
  · intro h
    have hstart : trimStart text = [] := List.dropWhile_eq_nil_iff.mpr h
    rw [trim, hstart]
    rfl

/-- Blank characters around a trimmed text are trimmed away. -/
theorem trim_append_append {before text after : Text} (hbefore : ∀ c ∈ before, isBlank c = true)
    (h : Trimmed text) (hafter : ∀ c ∈ after, isBlank c = true) :
    trim (before ++ text ++ after) = text := by
  rcases eq_or_ne text [] with rfl | hne
  · refine trim_eq_nil_iff.mpr fun c hc => ?_
    rw [List.append_nil] at hc
    exact (List.mem_append.mp hc).elim (hbefore c) (hafter c)
  · have hstart : trimStart (before ++ text ++ after) = text ++ after := by
      rw [trimStart, List.append_assoc, List.dropWhile_append_of_pos hbefore]
      rcases List.exists_cons_of_ne_nil hne with ⟨c, rest, rfl⟩
      exact List.dropWhile_cons_of_neg (by simp [h.first c rfl])
    have hend : trimEnd (text ++ after) = trimEnd text := by
      rw [trimEnd, List.reverse_append, List.dropWhile_append_of_pos (by simpa using hafter)]
      rfl
    rw [trim, hstart, hend, h.trimEnd_eq]

/-- What stands between two trimmed texts is not at an end. -/
theorem Trimmed.between {first second : Text} (hfirst : Trimmed first) (hne : first ≠ [])
    (hsecond : Trimmed second) (hne' : second ≠ []) (middle : Text) :
    Trimmed (first ++ middle ++ second) := by
  constructor
  · rcases List.exists_cons_of_ne_nil hne with ⟨c, rest, rfl⟩
    exact hfirst.first
  · rw [List.getLast?_append_of_ne_nil _ hne']
    exact hsecond.last

/-- Blank characters at the end of a text that begins with another one are trimmed away. -/
theorem exists_trimmed_cons {c : Char} (hc : isBlank c = false) (rest : Text) :
    ∃ kept after, rest = kept ++ after ∧ Trimmed (c :: kept) ∧
      ∀ other ∈ after, isBlank other = true := by
  refine ⟨rest.rdropWhile isBlank, rest.rtakeWhile isBlank,
    List.rdropWhile_append_rtakeWhile.symm, ⟨?_, ?_⟩, fun other => List.mem_rtakeWhile_imp⟩
  · rintro other ⟨⟩
    exact hc
  · intro other hother
    rcases eq_or_ne (rest.rdropWhile isBlank) [] with hnil | hne
    · rw [hnil] at hother
      cases hother
      exact hc
    · rw [List.getLast?_cons_of_ne_nil hne] at hother
      rcases List.mem_getLast?_eq_getLast hother with ⟨_, rfl⟩
      exact Bool.eq_false_iff.mpr (List.rdropWhile_last_not isBlank rest hne)

end PromptMarkup

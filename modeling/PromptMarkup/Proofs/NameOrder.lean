import Mathlib.Data.List.Lex
import PromptMarkup.Library.Presets

/-!
# The order of names and paths

Names are ordered by their code points and paths by their names.  Either order is total, so what is
sorted by names or paths that are all different can stand in one order only, and the first of
some entries is the one that comes before all others.

Main statements:

- {lit}`pairwise_mergeSort_before`: what was sorted stands in order.
- {lit}`eq_of_pairwise_before`: in order, the same members make the same list.
- {lit}`find?_eq_some_iff_of_pairwise`: what is found first comes before all else that could be.
-/

namespace PromptMarkup

/-! ## Orders -/

/-- Lists are ordered totally if their members are. -/
theorem isStrictTotalOrder_lex {α : Type} [BEq α] [LawfulBEq α] (before : α → α → Bool)
    [IsStrictTotalOrder α fun a b => before a b = true] :
    IsStrictTotalOrder (List α) fun s t => s.lex t before = true := by
  have hlex : (fun s t : List α => s.lex t before = true) =
      List.Lex fun a b => before a b = true := by
    funext s t
    exact propext (List.lex_eq_true_iff_lex before)
  rw [hlex]
  exact { isStrictWeakOrder_of_isOrderConnected with }

/-- Characters are ordered totally by their code points. -/
instance isStrictTotalOrder_charBefore :
    IsStrictTotalOrder Char fun a b => decide (a.toNat < b.toNat) = true where
  trichotomous a b hab hba := by
    simp only [decide_eq_true_eq] at hab hba
    exact Char.toNat_inj.mp (by omega)
  irrefl a := by simp
  trans a b c hab hbc := by
    simp only [decide_eq_true_eq] at hab hbc ⊢
    omega

/-- Texts are ordered totally. -/
instance isStrictTotalOrder_textBefore :
    IsStrictTotalOrder Text fun s t => textBefore s t = true :=
  isStrictTotalOrder_lex fun a b : Char => decide (a.toNat < b.toNat)

/-- Paths are ordered totally. -/
instance isStrictTotalOrder_pathBefore :
    IsStrictTotalOrder (List Text) fun p q => pathBefore p q = true :=
  isStrictTotalOrder_lex textBefore

/-- A text comes before all longer ones that begin with it. -/
theorem textBefore_append {text more : Text} (hne : more ≠ []) :
    textBefore text (text ++ more) = true := by
  refine (List.lex_eq_true_iff_lex _).mpr ?_
  rcases List.exists_cons_of_ne_nil hne with ⟨c, rest, rfl⟩
  induction text with
  | nil => exact List.Lex.nil
  | cons d text ih => exact List.Lex.cons ih

/-! ## Sorted lists -/

section

variable {α β : Type} (before : β → β → Bool) [IsStrictTotalOrder β fun a b => before a b = true]
  (key : α → β)

/-- What does not come before another key is that key or comes after it. -/
theorem before_eq_false_iff {a b : β} :
    before a b = false ↔ a = b ∨ before b a = true := by
  constructor
  · intro h
    rcases trichotomous_of (fun a b => before a b = true) a b with hab | heq | hba
    · rw [h] at hab
      cases hab
    · exact Or.inl heq
    · exact Or.inr hba
  · rintro (rfl | hba)
    · exact Bool.eq_false_iff.mpr (irrefl_of (fun a b => before a b = true) a)
    · exact Bool.eq_false_iff.mpr (asymm_of (fun a b => before a b = true) hba)

/-- What was sorted by keys that are all different stands in the order of the keys. -/
theorem pairwise_mergeSort_before {list : List α} (hnodup : (list.map key).Nodup) :
    (list.mergeSort fun a b => !before (key b) (key a)).Pairwise fun a b =>
      before (key a) (key b) = true := by
  have hsorted : (list.mergeSort fun a b => !before (key b) (key a)).Pairwise fun a b =>
      (!before (key b) (key a)) = true := by
    refine List.pairwise_mergeSort (fun a b c hab hbc => ?_) (fun a b => ?_) list
    · rw [Bool.not_eq_true', before_eq_false_iff] at hab hbc ⊢
      rcases hab with hab | hab
      · exact hab ▸ hbc
      · rcases hbc with hbc | hbc
        · exact Or.inr (hbc ▸ hab)
        · exact Or.inr (trans_of (fun a b => before a b = true) hab hbc)
    · rw [Bool.or_eq_true, Bool.not_eq_true', Bool.not_eq_true', before_eq_false_iff]
      cases hab : before (key a) (key b) with
      | true => exact Or.inl (Or.inr rfl)
      | false => exact Or.inr rfl
  have hperm := List.mergeSort_perm list fun a b => !before (key b) (key a)
  have hdifferent := List.pairwise_map.mp ((hperm.map key).nodup_iff.mpr hnodup)
  refine (hsorted.and hdifferent).imp fun {a b} h => ?_
  rcases h with ⟨hle, hne⟩
  rw [Bool.not_eq_true', before_eq_false_iff] at hle
  exact hle.resolve_left (Ne.symm hne)

/-- In the order of some keys the same members make the same list. -/
theorem eq_of_pairwise_before {first second : List α}
    (hfirst : first.Pairwise fun a b => before (key a) (key b) = true)
    (hsecond : second.Pairwise fun a b => before (key a) (key b) = true)
    (hmem : ∀ a, a ∈ first ↔ a ∈ second) : first = second := by
  have hnodup : ∀ list : List α, (list.Pairwise fun a b => before (key a) (key b) = true) →
      list.Nodup := by
    refine fun list h => h.imp fun {a b} hab heq => ?_
    exact irrefl_of (fun a b => before a b = true) (key a) (heq ▸ hab)
  refine List.Perm.eq_of_pairwise (fun a b _ _ hab hba => ?_) hfirst hsecond
    ((List.perm_ext_iff_of_nodup (hnodup _ hfirst) (hnodup _ hsecond)).mpr hmem)
  exact absurd hba (asymm_of (fun a b => before a b = true) hab)

end

/-- In a list that stands in some order, what is found first comes before everything else that
could be found. -/
theorem find?_eq_some_iff_of_pairwise {α : Type} {order : α → α → Prop} [Std.Asymm order]
    {list : List α} (hlist : list.Pairwise order) {wanted : α → Bool} {a : α} :
    list.find? wanted = some a ↔ a ∈ list ∧ wanted a = true ∧
      ∀ b ∈ list, wanted b = true → b = a ∨ order a b := by
  induction list with
  | nil => simp
  | cons first rest ih =>
    rcases List.pairwise_cons.mp hlist with ⟨hfirst, hrest⟩
    rw [List.find?_cons]
    cases hwanted : wanted first with
    | true =>
      constructor
      · rintro ⟨⟩
        refine ⟨List.mem_cons_self, hwanted, fun b hb _ => ?_⟩
        exact (List.mem_cons.mp hb).imp_right (hfirst b)
      · rintro ⟨hmem, -, hleast⟩
        rcases List.mem_cons.mp hmem with rfl | hmem
        · rfl
        · rcases hleast first List.mem_cons_self hwanted with rfl | hafter
          · rfl
          · exact absurd hafter (asymm_of order (hfirst a hmem))
    | false =>
      refine (ih hrest).trans ⟨?_, ?_⟩
      · rintro ⟨hmem, hself, hleast⟩
        refine ⟨List.mem_cons_of_mem _ hmem, hself, fun b hb hother => ?_⟩
        rcases List.mem_cons.mp hb with rfl | hb
        · rw [hwanted] at hother
          cases hother
        · exact hleast b hb hother
      · rintro ⟨hmem, hself, hleast⟩
        rcases List.mem_cons.mp hmem with rfl | hmem
        · rw [hwanted] at hself
          cases hself
        · exact ⟨hmem, hself, fun b hb => hleast b (List.mem_cons_of_mem _ hb)⟩

end PromptMarkup

import PromptMarkup.Proofs.TreeExpansion
import PromptMarkup.Segment.Create

/-!
# Damaged trees

A damaged tree is written as well as it can be.  Two kinds of damage break it off nevertheless:
the level of a span with a bracket type is an infinite number, or, where choices are made, the
values of a random preset are a number or a truth value.  Every other tree has a text, whatever
else its fields hold.  A segment below a preset or an inline wildcard breaks nothing off, since
its text is not in that of the tree.

Main statements:

- {lit}`Segment.outcome_render` and {lit}`Segment.outcome_resolve`: a tree has a text, as it
  stands and with its choices made, unless one of its segments breaks it off.
- {lit}`compile_isOk_iff`: a tree is compiled if and only if none does.
-/

namespace PromptMarkup

variable {ι : Type}

/-! ## Damage -/

/-- Whether the level of a span is an infinite number. -/
def Stored.isInfinite : Stored Int → Bool
  | .damaged (.float x) =>
    match x.view with
    | .infinite _ => true
    | _ => false
  | _ => false

/-- Whether something is stored as the values of a preset that has no items. -/
def lacksItems (metadata : Option Object) : Bool :=
  match (metadata.getD []).get? "values" with
  | some stored => stored.items?.isNone
  | none => false

/-- Whether a segment breaks off the text of its tree: a span with a bracket type does by an
infinite level, and a random preset of which a value is to be drawn by values without items. -/
def Head.breaksOff (expanding : Bool) (head : Head ι) : Bool :=
  match head.kind with
  | .weighted bracketType level => bracketType.bracketType?.isSome && level.isInfinite
  | .preset _ mode _ => expanding && mode.mode? ≠ some .fixed && lacksItems head.metadata
  | _ => false

/-- A segment with lists that have a length; the options of an inline wildcard are texts. -/
structure Head.HasLengths (head : Head ι) : Prop where
  options : ∀ options, head.kind = .inlineWildcard options →
    ∃ texts : List Text, options = texts.map .str ∧ texts.length < bracketBound ∧
      ∀ text ∈ texts, text.length < bracketBound
  values : ∀ values, head.kind.type? = some .preset → presetValues head.metadata = .ok values →
    values.length < bracketBound

namespace Segment

mutual

/-- The heads of the segments whose texts are in that of a tree, each before those of its
children. -/
def shownHeads : Segment ι → List (Head ι)
  | .missing => []
  | .leaf head => [head]
  | .branch head children =>
    head :: if head.kind.showsChildren then shownHeadsIn children else []

/-- The heads of a list of trees whose texts are shown, one tree after the other. -/
def shownHeadsIn : List (Segment ι) → List (Head ι)
  | [] => []
  | child :: rest => child.shownHeads ++ shownHeadsIn rest

end

end Segment

/-! ## Outcomes -/

/-- What comes of a tree: something good, unless the tree is broken, and else one of the two
faults that damage leads to. -/
inductive Outcome {α : Type} (good : α → Prop) : Bool → Except RenderError α → Prop where
  | given (a : α) : good a → Outcome good false (.ok a)
  | infiniteLevel : Outcome good true (.error .infiniteLevel)
  | valuesNotList : Outcome good true (.error .valuesNotList)

namespace Outcome

variable {α β : Type} {broken broken' : Bool} {good : α → Prop} {good' : β → Prop}
  {result : Except RenderError α}

/-- What is given may be changed. -/
theorem map (h : Outcome good broken result) {f : α → β} (hf : ∀ a, good a → good' (f a)) :
    Outcome good' broken (result.map f) := by
  cases h with
  | given a hgood => exact .given (f a) (hf a hgood)
  | infiniteLevel => exact .infiniteLevel
  | valuesNotList => exact .valuesNotList

/-- Two parts after one another are broken if one of them is. -/
theorem bind (h : Outcome good broken result) {next : α → Except RenderError β}
    (hnext : ∀ a, good a → Outcome good' broken' (next a)) :
    Outcome good' (broken || broken') (result.bind next) := by
  cases h with
  | given a hgood => exact hnext a hgood
  | infiniteLevel => exact .infiniteLevel
  | valuesNotList => exact .valuesNotList

/-- A result is given if and only if nothing is broken. -/
theorem isOk_iff (h : Outcome good broken result) : (∃ a, result = .ok a) ↔ broken = false := by
  cases h with
  | given a hgood => exact iff_of_true ⟨a, rfl⟩ rfl
  | infiniteLevel => exact iff_of_false nofun nofun
  | valuesNotList => exact iff_of_false nofun nofun

/-- There are no other faults. -/
theorem error_cases (h : Outcome good broken result) {fault : RenderError}
    (hfault : result = .error fault) : fault = .infiniteLevel ∨ fault = .valuesNotList := by
  subst hfault
  cases h with
  | infiniteLevel => exact Or.inl rfl
  | valuesNotList => exact Or.inr rfl

end Outcome

/-! ## Segments -/

/-- A level stands for a number of brackets if it is no infinite number. -/
theorem Stored.outcome_brackets (level : Stored Int) :
    Outcome (fun _ => True) level.isInfinite level.brackets := by
  cases level with
  | valid level => exact .given (clampLevel level) trivial
  | damaged raw =>
    cases raw with
    | float x =>
      rw [Stored.isInfinite, Stored.brackets]
      cases x.view with
      | nan => exact .given 0 trivial
      | infinite negative => exact .infiniteLevel
      | finite negative significand exponent => exact .given _ trivial
    | int level => exact .given (clampLevel level) trivial
    | bool b => exact .given (clampLevel b.toInt) trivial
    | str text =>
      rw [Stored.brackets]
      exact .given _ trivial
    | null => exact .given 0 trivial
    | list items => exact .given 0 trivial
    | object fields => exact .given 0 trivial

/-- A span has a text around its content if it has no bracket type or no infinite level. -/
theorem outcome_wrapWeighted (bracketType : Stored BracketType) (level : Stored Int)
    (content : Text) :
    Outcome (fun _ => True) (bracketType.bracketType?.isSome && level.isInfinite)
      (wrapWeighted bracketType level content) := by
  unfold wrapWeighted
  cases bracketType.bracketType? with
  | none => exact .given content trivial
  | some type => exact level.outcome_brackets.map fun _ _ => trivial

/-- The values of a preset are found if they have items. -/
theorem outcome_presetValues (metadata : Option Object) :
    Outcome (fun values => presetValues metadata = .ok values) (lacksItems metadata)
      (presetValues metadata) := by
  unfold lacksItems presetValues
  cases (metadata.getD []).get? "values" with
  | none => exact .given [] rfl
  | some stored =>
    dsimp only
    cases stored.items? with
    | none => exact .valuesNotList
    | some values => exact .given values rfl

namespace Head

/-- A segment has a text around that of its children unless it breaks it off. -/
theorem outcome_render (head : Head ι) (h : head.HasLengths) (inner : Text) :
    Outcome (fun _ => True) (head.breaksOff false) (head.kind.render inner) := by
  rcases head with ⟨id, kind, metadata⟩
  cases kind with
  | text content => exact .given _ trivial
  | unknown => exact .given _ trivial
  | weighted bracketType level => exact outcome_wrapWeighted bracketType level inner
  | preset name mode selected =>
    rw [Kind.render]
    split
    · exact .given _ trivial
    · exact .given _ trivial
  | inlineWildcard options =>
    rcases h.options options rfl with ⟨texts, rfl, -⟩
    rw [Kind.render, optionTexts_map_str]
    exact .given _ trivial

/-- With its choices made a segment has a text as well, and draws between zero and one are
left. -/
theorem outcome_resolve {σ : Type} {source : DrawSource σ} (limit : Int) (head : Head ι)
    (h : head.HasLengths) (inner : Text) {state : σ} (hunit : source.GivesUnit state) :
    Outcome (fun result => source.GivesUnit result.2) (head.breaksOff true)
      (head.resolve source limit inner state) := by
  have hvalues : ∀ values : List Value, values.length < bracketBound →
      Outcome (fun result => source.GivesUnit result.2) false (drawValue source values state) := by
    intro values hlength
    cases values with
    | nil => exact .given ([], state) hunit
    | cons first rest =>
      have hcount := log2_le_of_le_bracketBound (Nat.le_of_lt hlength)
      rcases hunit.inUnit.exists_pick (List.cons_ne_nil first rest) hcount with
        ⟨-, -, value, -, hpick⟩
      simp only [drawValue, hpick]
      exact .given _ (hunit.of_gives (.cons (.nil _)))
  rcases head with ⟨id, kind, metadata⟩
  cases kind with
  | text content => exact .given (content.getD [] ++ inner, state) hunit
  | unknown => exact .given (inner, state) hunit
  | weighted bracketType level =>
    exact (outcome_wrapWeighted bracketType level inner).map fun _ _ => hunit
  | preset name mode selected =>
    by_cases hmode : mode.mode? = some .fixed
    · simp only [resolve, breaksOff, hmode, if_pos]
      exact .given (selected.getD [], state) hunit
    · have hbind : resolve source limit ⟨id, .preset name mode selected, metadata⟩ inner state =
          (presetValues metadata).bind fun values => drawValue source values state := by
        simp only [resolve, if_neg hmode]
        cases presetValues metadata <;> rfl
      have hdrawn := (outcome_presetValues metadata).bind fun values hstored =>
        hvalues values (h.values values rfl hstored)
      rw [hbind]
      simpa [breaksOff, hmode] using hdrawn
  | inlineWildcard options =>
    rcases h.options options rfl with ⟨texts, rfl, hcount, hlength⟩
    by_cases hnone : texts = []
    · subst hnone
      exact .given ([], state) hunit
    · rcases exists_drawOption limit hunit hnone
        (log2_le_of_le_bracketBound (Nat.le_of_lt hcount)) hlength with
        ⟨-, -, -, out, last, hdraw, -, hlast⟩
      simp only [resolve, hdraw]
      exact .given (out, last) hlast

end Head

namespace Segment

/-! ## Trees -/

/-- The lists of all segments that are shown in a tree have lengths. -/
def HasLengths (root : Segment ι) : Prop :=
  ∀ head ∈ root.shownHeads, head.HasLengths

/-- Whether a segment that is shown in a tree breaks off its text. -/
def breaksOff (expanding : Bool) (root : Segment ι) : Bool :=
  root.shownHeads.any (Head.breaksOff expanding)

/-- A list of trees is broken off if one of them is. -/
theorem any_shownHeadsIn (expanding : Bool) (trees : List (Segment ι)) :
    (shownHeadsIn trees).any (Head.breaksOff expanding) = trees.any (breaksOff expanding) := by
  induction trees with
  | nil => rfl
  | cons tree rest ih => rw [shownHeadsIn, List.any_append, ih, List.any_cons, breaksOff]

/-- A shown head of a list of trees is one of a tree. -/
theorem mem_shownHeadsIn {head : Head ι} {trees : List (Segment ι)} :
    head ∈ shownHeadsIn trees ↔ ∃ tree ∈ trees, head ∈ tree.shownHeads := by
  induction trees with
  | nil => simp [shownHeadsIn]
  | cons tree rest ih => simp [shownHeadsIn, ih]

/-- A segment is broken off by itself, or by one of its children if they are shown. -/
theorem breaksOff_branch (expanding : Bool) (head : Head ι) (children : List (Segment ι)) :
    (branch head children).breaksOff expanding =
      (head.breaksOff expanding ||
        head.kind.showsChildren && children.any (breaksOff expanding)) := by
  rw [breaksOff, shownHeads, List.any_cons]
  cases head.kind.showsChildren with
  | true => rw [if_pos rfl, any_shownHeadsIn, Bool.true_and]
  | false => simp

/-- The lists of the segment itself have lengths. -/
theorem HasLengths.head {head : Head ι} {children : List (Segment ι)}
    (h : (branch head children).HasLengths) : head.HasLengths :=
  h head (by simp [shownHeads])

/-- The lists in the children have lengths if these are shown. -/
theorem HasLengths.child {head : Head ι} {children : List (Segment ι)}
    (h : (branch head children).HasLengths) (hshown : head.kind.showsChildren = true)
    {child : Segment ι} (hchild : child ∈ children) : child.HasLengths := by
  intro other hother
  apply h other
  rw [shownHeads, if_pos hshown]
  exact List.mem_cons_of_mem _ (mem_shownHeadsIn.mpr ⟨child, hchild, hother⟩)

/-- Trees after one another have a text unless one of them is broken off. -/
theorem outcome_renderList {trees : List (Segment ι)}
    (h : ∀ tree ∈ trees, Outcome (fun _ => True) (tree.breaksOff false) tree.render) :
    Outcome (fun _ => True) (trees.any (breaksOff false)) (renderList trees) := by
  induction trees with
  | nil => exact .given [] trivial
  | cons tree rest ih =>
    rcases List.forall_mem_cons.mp h with ⟨htree, hrest⟩
    have hbind : renderList (tree :: rest) =
        tree.render.bind fun text => (renderList rest).map (text ++ ·) := by
      rw [renderList]
      cases tree.render <;> rfl
    rw [List.any_cons, hbind]
    exact htree.bind fun text _ => (ih hrest).map fun _ _ => trivial

/-- A tree has a text unless one of its segments breaks it off. -/
theorem outcome_render {root : Segment ι} (h : root.HasLengths) :
    Outcome (fun _ => True) (root.breaksOff false) root.render := by
  induction root with
  | missing => exact .given [] trivial
  | leaf head =>
    have hhead := head.outcome_render (h head List.mem_cons_self) []
    rwa [breaksOff, shownHeads, List.any_cons, List.any_nil, Bool.or_false]
  | branch head children ih =>
    have hhead := head.outcome_render h.head
    rw [breaksOff_branch]
    cases hshown : head.kind.showsChildren with
    | true =>
      have hbind : (branch head children).render = (renderList children).bind fun inner =>
          head.kind.render inner := by
        rw [render, if_pos hshown]
        cases renderList children <;> rfl
      have hchildren := outcome_renderList fun child hchild => ih child hchild (h.child hshown hchild)
      rw [hbind, Bool.true_and, Bool.or_comm]
      exact hchildren.bind fun inner _ => hhead inner
    | false =>
      rw [render, hshown, Bool.false_and, Bool.or_false]
      exact hhead []

/-! ## Trees with choices made -/

section Resolve

variable {σ : Type} {source : DrawSource σ}

/-- With choices made trees after one another have a text unless one of them is broken off. -/
theorem outcome_resolveList (limit : Int) {trees : List (Segment ι)}
    (h : ∀ tree ∈ trees, ∀ state, source.GivesUnit state →
      Outcome (fun result => source.GivesUnit result.2) (tree.breaksOff true)
        (tree.resolve source limit state)) {state : σ} (hunit : source.GivesUnit state) :
    Outcome (fun result => source.GivesUnit result.2) (trees.any (breaksOff true))
      (resolveList source limit trees state) := by
  induction trees generalizing state with
  | nil => exact .given ([], state) hunit
  | cons tree rest ih =>
    rcases List.forall_mem_cons.mp h with ⟨htree, hrest⟩
    have hbind : resolveList source limit (tree :: rest) state =
        (tree.resolve source limit state).bind fun result =>
          (resolveList source limit rest result.2).map fun last =>
            (result.1 ++ last.1, last.2) := by
      rw [resolveList]
      cases tree.resolve source limit state <;> rfl
    rw [List.any_cons, hbind]
    exact (htree state hunit).bind fun result hresult =>
      (ih hrest hresult).map fun _ hlast => hlast

/-- With choices made a tree has a text unless one of its segments breaks it off, whatever is
drawn between zero and one. -/
theorem outcome_resolve (limit : Int) {root : Segment ι} (h : root.HasLengths) {state : σ}
    (hunit : source.GivesUnit state) :
    Outcome (fun result => source.GivesUnit result.2) (root.breaksOff true)
      (root.resolve source limit state) := by
  induction root generalizing state with
  | missing => exact .given ([], state) hunit
  | leaf head =>
    have hhead := head.outcome_resolve limit (h head List.mem_cons_self) [] hunit
    rwa [breaksOff, shownHeads, List.any_cons, List.any_nil, Bool.or_false]
  | branch head children ih =>
    rw [breaksOff_branch]
    cases hshown : head.kind.showsChildren with
    | true =>
      have hbind : (branch head children).resolve source limit state =
          (resolveList source limit children state).bind fun result =>
            head.resolve source limit result.1 result.2 := by
        rw [resolve, if_pos hshown]
        cases resolveList source limit children state <;> rfl
      have hchildren := outcome_resolveList limit (fun child hchild _ hstate =>
        ih child hchild (h.child hshown hchild) hstate) hunit
      rw [hbind, Bool.true_and, Bool.or_comm]
      exact hchildren.bind fun result hresult =>
        head.outcome_resolve limit h.head result.1 hresult
    | false =>
      rw [resolve, hshown, Bool.false_and, Bool.or_false]
      exact head.outcome_resolve limit h.head [] hunit

end Resolve

end Segment

/-! ## Compiling -/

/-- With a seed a tree that is there is compiled, in either mode, if and only if none of the
segments that are shown in it breaks it off.  There is no fault but an infinite level and values
without items.  The integers among the values of presets are taken to be short enough to be
written, as in {lit}`Value.text`. -/
theorem compile_isOk_iff (surroundings : Surroundings) {options : CompileOptions}
    (hseed : options.seed.isSome = true) {root : Segment ι} (hpresent : root.isPresent = true)
    (hlengths : root.HasLengths) :
    ((∃ text, compile surroundings (some options) root = .ok text) ↔
        ∀ head ∈ root.shownHeads, head.breaksOff options.expandWildcards = false) ∧
      ∀ fault, compile surroundings (some options) root = .error fault →
        fault = .render .infiniteLevel ∨ fault = .render .valuesNotList := by
  have hcompiled : ∃ result : Except RenderError Text,
      compile surroundings (some options) root = result.mapError .render ∧
        Outcome (fun _ => True) (root.breaksOff options.expandWildcards) result := by
    rcases options with ⟨expanding, given, depth⟩
    rcases Option.isSome_iff_exists.mp hseed with ⟨seed, rfl⟩
    cases expanding with
    | false =>
      exact ⟨root.render, compile_of_isPresent hpresent surroundings _,
        Segment.outcome_render hlengths⟩
    | true =>
      have houtcome := Segment.outcome_resolve depth hlengths (Twister.givesUnit (.ofSeed seed))
      refine ⟨(root.resolve Twister.source depth (.ofSeed seed)).map (·.1), ?_,
        houtcome.map fun _ _ => trivial⟩
      rw [compile_expanded_root rfl hpresent]
      cases root.resolve Twister.source depth (.ofSeed seed) <;> rfl
  rcases hcompiled with ⟨result, hcompile, houtcome⟩
  have hwhole : root.breaksOff options.expandWildcards = false ↔
      ∀ head ∈ root.shownHeads, head.breaksOff options.expandWildcards = false := by
    simp [Segment.breaksOff]
  rw [hcompile, ← hwhole, ← houtcome.isOk_iff]
  cases result with
  | ok text => exact ⟨iff_of_true ⟨text, rfl⟩ ⟨text, rfl⟩, nofun⟩
  | error fault =>
    refine ⟨iff_of_false nofun nofun, ?_⟩
    rintro _ hfault
    cases hfault
    exact (houtcome.error_cases rfl).imp (congrArg _) (congrArg _)

/-- A tree in which nothing is as it should be, and nothing breaks it off. -/
def damagedTree : Segment NodeId :=
  .branch ⟨.named "root", .text none, none⟩
    [.branch ⟨.named "span", .weighted (.damaged (.list [])) (.damaged (.float (.infinity true))),
        none⟩
        [.missing, .text (.named "word") ['a']],
      .leaf ⟨.named "level", .weighted (.valid .increase) (.damaged (.ofString "lots")), none⟩,
      .branch ⟨.named "odd", .unknown, none⟩
        [.leaf ⟨.named "tag", .preset ['k'] (.damaged .null) none,
          some [("values", .ofString "bc")]⟩]]

/-- The damaged tree is compiled with its choices made. -/
theorem compile_isOk_iff_damagedTree :
    damagedTree.isPresent = true ∧ damagedTree.HasLengths ∧
      ∃ text, compile ⟨.ok {}, 0⟩ (some ⟨true, some 0, 0⟩) damagedTree = .ok text := by
  have hlengths : damagedTree.HasLengths := by
    intro head hhead
    simp only [damagedTree, Segment.text, Segment.shownHeads, Segment.shownHeadsIn,
      Kind.showsChildren, if_true, List.nil_append, List.append_nil, List.cons_append,
      List.mem_cons, List.not_mem_nil, or_false] at hhead
    rcases hhead with rfl | rfl | rfl | rfl | rfl | rfl
    iterate 5 · constructor <;> intros <;> contradiction
    · refine ⟨fun values hkind => by contradiction, fun values _ hvalues => ?_⟩
      cases hvalues
      decide
  have hseed : (CompileOptions.mk true (some 0) 0).seed.isSome = true := rfl
  exact ⟨rfl, hlengths, (compile_isOk_iff ⟨.ok {}, 0⟩ hseed rfl hlengths).1.mpr (by decide)⟩

/-- An infinite level breaks a tree off in both modes, and a number in place of the values of a
preset where choices are made. -/
theorem compile_breaksOff :
    (∀ expanding, compile ⟨.ok {}, 0⟩ (some ⟨expanding, some 0, 0⟩)
        (Segment.branch
          ⟨NodeId.named "span", .weighted (.valid .increase) (.damaged (.float (.infinity false))),
            none⟩
          [.text (.named "word") ['a']]) = .error (.render .infiniteLevel)) ∧
      compile ⟨.ok {}, 0⟩ (some ⟨true, some 0, 0⟩)
        (Segment.leaf ⟨NodeId.named "tag", .preset ['k'] (.valid .random) none,
          some [("values", .int 5)]⟩) = .error (.render .valuesNotList) := by
  refine ⟨fun expanding => ?_, rfl⟩
  cases expanding <;> rfl

end PromptMarkup

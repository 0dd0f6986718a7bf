import PromptMarkup.Proofs.TreeExpansion
import PromptMarkup.Proofs.ValidEdits

/-!
# Accepted options

The constructor of inline wildcards and a patch of one look at the texts that options would show,
not at what the options are: a list is accepted if it has an option that is not blank when it is
shown.  So numbers, truth values, lists and objects are accepted among the options, and the
constructor takes nothing and blank options as well.  A segment can be written only where its
options are texts.  As it stands all of its options are written; with its choice made only the
option that is drawn is.

Main statements:

- {lit}`Segment.AcceptsOptions.exists_options`: which options are accepted.
- {lit}`Segment.prints_compile` and {lit}`Segment.draws_compile`: what an inline wildcard is
  compiled to, as it stands and with its choice made.
- {lit}`compile_acceptedOptions`: accepted options can be compiled with every seed in either mode
  if and only if all of them are texts.
-/

namespace PromptMarkup

variable {ι : Type}

/-! ## Options that are texts -/

/-- Whether a value is a text. -/
def Value.isText : Value → Bool
  | .str _ => true
  | _ => false

/-- A value that is a text is some text. -/
theorem Value.exists_eq_str {value : Value} (h : value.isText = true) :
    ∃ text, value = .str text := by
  cases value <;> first | exact ⟨_, rfl⟩ | cases h

/-- Values that are texts are some texts. -/
theorem exists_eq_map_str {values : List Value} (h : ∀ value ∈ values, value.isText = true) :
    ∃ texts : List Text, values = texts.map .str := by
  induction values with
  | nil => exact ⟨[], rfl⟩
  | cons first rest ih =>
    rcases List.forall_mem_cons.mp h with ⟨hfirst, hrest⟩
    rcases Value.exists_eq_str hfirst with ⟨text, rfl⟩
    rcases ih hrest with ⟨texts, rfl⟩
    exact ⟨text :: texts, rfl⟩

/-- Options among which there is one that is no text have no texts. -/
theorem optionTexts_of_not_isText {options : List Value} {option : Value} (hmem : option ∈ options)
    (htext : option.isText = false) : optionTexts options = .error .optionNotText := by
  induction options with
  | nil => cases hmem
  | cons first rest ih =>
    cases first with
    | str text =>
      rcases List.mem_cons.mp hmem with rfl | hmem
      · cases htext
      · rw [optionTexts, ih hmem]
        rfl
    | _ => rfl

/-! ## What is compiled -/

/-- What options are printed to: their texts with bars between them in parentheses, and a fault if
one of them is no text. -/
inductive Prints : List Value → Except CompileError Text → Prop where
  | texts (texts : List Text) :
    Prints (texts.map .str) (.ok ('(' :: joinWith ['|'] texts ++ [')']))
  | notText {options : List Value} {option : Value} : option ∈ options → option.isText = false →
    Prints options (.error (.render .optionNotText))

/-- What an option that was drawn comes to: the text that it is expanded to, and a fault if it is no
text. -/
inductive Resolves (limit : Int) : Value → Except CompileError Text → Prop where
  | text {option out : Text} {draws : List Binary64} : Expands limit 1 option draws out →
    Resolves limit (.str option) (.ok out)
  | notText {option : Value} : option.isText = false →
    Resolves limit option (.error (.render (optionError limit option)))

/-- Options are printed if and only if all of them are texts. -/
theorem Prints.isOk_iff {options : List Value} {result : Except CompileError Text}
    (h : Prints options result) :
    (∃ text, result = .ok text) ↔ ∀ option ∈ options, option.isText = true := by
  cases h with
  | texts texts =>
    refine iff_of_true ⟨_, rfl⟩ fun option hoption => ?_
    rcases List.mem_map.mp hoption with ⟨text, -, rfl⟩
    rfl
  | notText hmem htext =>
    exact iff_of_false nofun fun hall => Bool.eq_false_iff.mp htext (hall _ hmem)

/-- An option that was drawn comes to a text if and only if it is a text. -/
theorem Resolves.isOk_iff {limit : Int} {option : Value} {result : Except CompileError Text}
    (h : Resolves limit option result) : (∃ text, result = .ok text) ↔ option.isText = true := by
  cases h with
  | text hexpands => exact iff_of_true ⟨_, rfl⟩ rfl
  | notText htext => exact iff_of_false nofun (Bool.eq_false_iff.mp htext)

/-- A list with a length, in which each text has one. -/
def HaveLengths (options : List Value) : Prop :=
  options.length < bracketBound ∧ ∀ text, .str text ∈ options → text.length < bracketBound

/-- Lengths are left when some options are dropped. -/
theorem HaveLengths.filter {options : List Value} (h : HaveLengths options) (keep : Value → Bool) :
    HaveLengths (options.filter keep) :=
  ⟨Nat.lt_of_le_of_lt (List.length_filter_le keep options) h.1,
    fun text htext => h.2 text (List.mem_filter.mp htext).1⟩

/-- One of some options is drawn, and the text of an inline wildcard is what it comes to. -/
theorem draws_drawOption {σ : Type} {source : DrawSource σ} {state : σ}
    (hunit : source.GivesUnit state) {options : List Value} (hne : options ≠ [])
    (hlengths : HaveLengths options) (limit : Int) :
    ∃ option ∈ options, pick (source.next state).1 options = .ok option ∧
      Resolves limit option
        (((drawOption source limit options state).mapError .render).map (·.1)) := by
  rcases hunit.inUnit.exists_pick hne (log2_le_of_le_bracketBound (Nat.le_of_lt hlengths.1)) with
    ⟨share, -, option, hitem, hpick⟩
  have hoption := List.mem_of_getElem? hitem
  refine ⟨option, hoption, hpick, ?_⟩
  rcases List.exists_cons_of_ne_nil hne with ⟨first, rest, rfl⟩
  simp only [drawOption, hpick]
  cases option with
  | str text =>
    have hnext := hunit.of_gives (.cons (.nil _))
    rcases exists_expandStack limit hnext (hlengths.2 text hoption) with
      ⟨draws, out, last, hstack, -, hexpands⟩
    dsimp only
    rw [hstack]
    exact .text hexpands
  | _ => exact .notText rfl

namespace Segment

variable {segment : Segment ι} {options : List Value}

/-- A segment of some kind is there. -/
theorem isPresent_of_kind? {kind : Kind} (hkind : segment.kind? = some kind) :
    segment.isPresent = true := by
  rcases Option.map_eq_some_iff.mp hkind with ⟨head, hhead, -⟩
  exact isPresent_of_head? hhead

/-- An inline wildcard is written as its options, whatever its children are. -/
theorem render_of_options (hkind : segment.kind? = some (.inlineWildcard options)) :
    segment.render = (Kind.inlineWildcard options).render [] := by
  cases segment with
  | missing => cases hkind
  | leaf head =>
    have hhead : head.kind = .inlineWildcard options := Option.some.inj hkind
    rw [render, hhead]
  | branch head children =>
    have hhead : head.kind = .inlineWildcard options := Option.some.inj hkind
    rw [render, hhead]
    rfl

/-- With its choice made an inline wildcard is one of its options, whatever its children are. -/
theorem resolve_of_options {σ : Type} (hkind : segment.kind? = some (.inlineWildcard options))
    (source : DrawSource σ) (limit : Int) (state : σ) :
    segment.resolve source limit state = drawOption source limit options state := by
  cases segment with
  | missing => cases hkind
  | leaf head =>
    have hhead : head.kind = .inlineWildcard options := Option.some.inj hkind
    rw [resolve, Head.resolve, hhead]
  | branch head children =>
    have hhead : head.kind = .inlineWildcard options := Option.some.inj hkind
    rw [resolve, Head.resolve, hhead]
    rfl

/-- As it stands an inline wildcard is compiled to what its options are printed to. -/
theorem prints_compile (hkind : segment.kind? = some (.inlineWildcard options))
    (surroundings : Surroundings) (given : Option Int) (limit : Int) :
    Prints options (compile surroundings (some ⟨false, given, limit⟩) segment) := by
  rw [compile_of_plain rfl rfl (isPresent_of_kind? hkind), render_of_options hkind, Kind.render]
  by_cases htexts : ∀ option ∈ options, option.isText = true
  · rcases exists_eq_map_str htexts with ⟨texts, rfl⟩
    rw [optionTexts_map_str]
    exact .texts texts
  · push Not at htexts
    rcases htexts with ⟨option, hoption, htext⟩
    have htext := Bool.eq_false_iff.mpr htext
    rw [optionTexts_of_not_isText hoption htext]
    exact .notText hoption htext

/-- With its choice made an inline wildcard is compiled to what the option that is drawn comes
to. -/
theorem draws_compile (hkind : segment.kind? = some (.inlineWildcard options))
    (hne : options ≠ []) (hlengths : HaveLengths options) (surroundings : Surroundings)
    (seed limit : Int) :
    ∃ option ∈ options, pick (Twister.source.next (.ofSeed seed)).1 options = .ok option ∧
      Resolves limit option (compile surroundings (some ⟨true, some seed, limit⟩) segment) := by
  have hcompile : compile surroundings (some ⟨true, some seed, limit⟩) segment =
      ((segment.resolve Twister.source limit (.ofSeed seed)).mapError .render).map (·.1) :=
    compile_expanded_root rfl (isPresent_of_kind? hkind)
  rw [hcompile, resolve_of_options hkind]
  exact draws_drawOption (Twister.givesUnit _) hne hlengths limit

/-! ## What is accepted -/

/-- Options are accepted by the constructor, which makes a segment of them, or by a patch of an
inline wildcard, which may also replace its children and merge metadata. -/
inductive AcceptsOptions (raw : Value) : Segment ι → Prop where
  | made {id : ι} {segment : Segment ι} : inlineWildcard? id raw = .ok segment →
    AcceptsOptions raw segment
  | patched {old segment : Segment ι} {patch : Patch ι} :
    patch.kind = .inlineWildcard (.set raw) → old.update patch = .ok segment →
    AcceptsOptions raw segment

/-- Accepted options are those of a list, as they are or without those that are nothing or blank,
and there are some. -/
theorem AcceptsOptions.exists_options {raw : Value} (h : segment.AcceptsOptions raw) :
    ∃ options, segment.kind? = some (.inlineWildcard options) ∧ options ≠ [] ∧
      (raw = .list options ∨ writesOptions raw options) := by
  cases h with
  | made hmade =>
    rcases inlineWildcard?_eq_ok_iff.mp hmade with ⟨options, rfl, ⟨option, hoption, -⟩, rfl⟩
    exact ⟨options, rfl, List.ne_nil_of_mem hoption, Or.inl rfl⟩
  | patched hpatch hupdate =>
    rcases update_eq_ok_iff.mp hupdate with ⟨head, kind, -, hmakes, rfl⟩
    rw [hpatch] at hmakes
    generalize head.kind = old at hmakes
    cases hmakes with
    | @inlineWildcard _ old new hoptions =>
      have hwrites : writesOptions raw new := hoptions
      exact ⟨new, by simp [kind?], hwrites.choose_spec.2.2, Or.inr hwrites⟩

end Segment

/-- Accepted options are some, as they are in the list that was given, or without those that are
nothing or blank if they were patched.  As it stands the segment is compiled to what all of them are
printed to, and with its choice made to what the one that is drawn comes to.  So it is compiled with
every seed in either mode if and only if all of its options are texts. -/
theorem compile_acceptedOptions {raw : Value} {segment : Segment ι}
    (h : segment.AcceptsOptions raw)
    (hlengths : ∀ items, raw = .list items → HaveLengths items) (surroundings : Surroundings) :
    ∃ options, segment.kind? = some (.inlineWildcard options) ∧ options ≠ [] ∧
      (raw = .list options ∨ writesOptions raw options) ∧
      (∀ given limit,
        Prints options (compile surroundings (some ⟨false, given, limit⟩) segment)) ∧
      (∀ seed limit, ∃ option ∈ options,
        pick (Twister.source.next (.ofSeed seed)).1 options = .ok option ∧
        Resolves limit option (compile surroundings (some ⟨true, some seed, limit⟩) segment)) ∧
      ((∀ compileOptions : CompileOptions, compileOptions.seed.isSome = true →
          ∃ text, compile surroundings (some compileOptions) segment = .ok text) ↔
        ∀ option ∈ options, option.isText = true) := by
  rcases h.exists_options with ⟨options, hkind, hne, hraw⟩
  have hlength : HaveLengths options := by
    rcases hraw with rfl | ⟨items, rfl, rfl, -⟩
    · exact hlengths options rfl
    · exact (hlengths items rfl).filter isKeptOption
  have hprints := Segment.prints_compile hkind surroundings
  have hdraws := Segment.draws_compile hkind hne hlength surroundings
  refine ⟨options, hkind, hne, hraw, hprints, hdraws, fun hcompiled => ?_, ?_⟩
  · exact (hprints (some 0) 0).isOk_iff.mp (hcompiled ⟨false, some 0, 0⟩ rfl)
  · rintro htexts ⟨expanding, given, limit⟩ hseed
    rcases Option.isSome_iff_exists.mp hseed with ⟨seed, rfl⟩
    cases expanding with
    | false => exact (hprints (some seed) limit).isOk_iff.mpr htexts
    | true =>
      rcases hdraws seed limit with ⟨option, hoption, -, hresolves⟩
      exact hresolves.isOk_iff.mpr (htexts option hoption)

/-- A number, nothing, a blank text, and a text with a group in it. -/
def mixedOptions : Value :=
  .list [.int 1, .null, .str [' '], .str ['a', '(', 'b', '|', 'c', ')']]

/-- A patch with mixed options leaves a number and a text, so it is not always compiled. -/
theorem compile_acceptedOptions_mixed :
    let options : List Value := [.int 1, .str ['a', '(', 'b', '|', 'c', ')']]
    let segment : Segment NodeId := .inlineWildcard (.named "w") options
    segment.AcceptsOptions mixedOptions ∧
      (∀ items, mixedOptions = .list items → HaveLengths items) ∧
      Prints options (compile ⟨.ok {}, 0⟩ (some ⟨false, none, 0⟩) segment) ∧
      ¬∀ compileOptions : CompileOptions, compileOptions.seed.isSome = true →
        ∃ text, compile ⟨.ok {}, 0⟩ (some compileOptions) segment = .ok text := by
  intro options segment
  have hupdate : (Segment.inlineWildcard (.named "w") [.str ['x']]).update
      ⟨.inlineWildcard (.set mixedOptions), .keep, .keep⟩ = .ok segment := rfl
  have haccepts : segment.AcceptsOptions mixedOptions := .patched rfl hupdate
  have hlengths : ∀ items, mixedOptions = .list items → HaveLengths items := by
    rintro items ⟨⟩
    exact ⟨by decide, by simp [bracketBound]⟩
  rcases compile_acceptedOptions haccepts hlengths ⟨.ok {}, 0⟩ with
    ⟨found, hkind, -, -, hprints, -, hall⟩
  cases hkind
  refine ⟨haccepts, hlengths, hprints none 0, fun hcompiled => ?_⟩
  have htext := hall.mp hcompiled (.int 1) List.mem_cons_self
  cases htext

/-- A number is accepted as the only option, by the constructor and by a patch, and the segment is
compiled in neither mode. -/
theorem compile_acceptedOptions_number :
    let segment : Segment NodeId := .inlineWildcard (.named "w") [.int 1]
    Segment.inlineWildcard? (.named "w") (.list [.int 1]) = .ok segment ∧
      (Segment.inlineWildcard (.named "w") [.str ['a']]).update
        ⟨.inlineWildcard (.set (.list [.int 1])), .keep, .keep⟩ = .ok segment ∧
      ∀ expanding, compile ⟨.ok {}, 0⟩ (some ⟨expanding, some 0, 0⟩) segment =
        .error (.render .optionNotText) := by
  intro segment
  refine ⟨rfl, rfl, fun expanding => ?_⟩
  cases expanding with
  | false => rfl
  | true =>
    have hlengths : HaveLengths [.int 1] := ⟨by decide, by simp⟩
    rcases segment.draws_compile rfl (List.cons_ne_nil _ _) hlengths ⟨.ok {}, 0⟩ 0 0 with
      ⟨option, hoption, -, hresolves⟩
    rw [List.mem_singleton.mp hoption] at hresolves
    generalize compile _ _ segment = result at hresolves ⊢
    cases hresolves
    rfl

end PromptMarkup

import Arranger.Pattern.Compiling
import Arranger.Proofs.Pattern.Groups
import Arranger.Proofs.Pattern.Writable

/-!
# The shape of patterns

A pattern that is read from a text has a step, and each of its steps is a term or a mix of two terms at
least that are in no group. Nothing is inside another thing of its kind: the text has a token behind
each step and each term, and one for each alias. The table of groups has the names in order of their
first steps, and for each name the places of its steps.

## Main definitions

* `Arranger.Step.Shaped` — a step as it can be written.
* `Arranger.TableOf` — a table has the groups of steps.
* `Arranger.Lexeme.alias?` — the alias that a lexeme is.

## Main results

* `Arranger.Pattern.tableOf_groups` — the table of a pattern has the groups of its steps.
* `Arranger.Grammar.Tree.countP_endsGroup`, `Tree.countP_endsTerm`, `Tree.filterMap_alias?` — the
  steps, the terms and the aliases of a tree among its lexemes.
* `Arranger.Pattern.ofText_shape` — the shape of a pattern that is read from a text.
-/

namespace Arranger

/-! ## Shapes -/

/-- A mix has two parts at least, and none of them is in a group. -/
def Step.Shaped : Step → Prop
  | single _ => True
  | mix _ parts => 2 ≤ parts.length ∧ ∀ part ∈ parts, part.beat.group = none

/-- The table has the groups of the steps. -/
structure TableOf (steps : List Step) (groups : List ShuffleGroup) : Prop where
  /-- No name occurs twice. -/
  nodup : (groups.map ShuffleGroup.name).Nodup
  /-- The names are those of the steps. -/
  names : ∀ name, name ∈ groups.map ShuffleGroup.name ↔ ∃ step ∈ steps, step.group? = some name
  /-- The names are in order of their first appearance: a slot of a group is in front of all slots of
  a later one. -/
  appearance : groups.Pairwise fun group later =>
    ∃ first ∈ group.slots, ∀ other ∈ later.slots, first < other
  /-- The slots of a group rise. -/
  rising : ∀ group ∈ groups, group.slots.Pairwise (· < ·)
  /-- The slots of a group are the places of the steps of its name. -/
  slots : ∀ group ∈ groups, ∀ slot, slot ∈ group.slots ↔
    ∃ step, steps[slot]? = some step ∧ step.group? = some group.name

/-- **The table of a pattern has the groups of its steps.** -/
lemma Pattern.tableOf_groups (pattern : Pattern) : TableOf pattern.steps pattern.groups := by
  have hnames : pattern.groups.map ShuffleGroup.name = pattern.groupNames := by
    rw [groups_eq, groupTable, List.map_map]
    exact List.map_id _
  have hslots : ∀ group ∈ pattern.groups, group.slots = pattern.slotsOf group.name := by
    rw [groups_eq]
    intro group hmem
    obtain ⟨name, -, rfl⟩ := List.mem_map.mp hmem
    rfl
  refine ⟨?_, fun name => ?_, ?_, fun group hgroup => ?_, fun group hgroup slot => ?_⟩
  · rw [hnames]
    exact nodup_append_keepFirst List.nodup_nil _
  · rw [hnames, mem_groupNames]
  · rw [groups_eq, groupTable, List.pairwise_map]
    exact keepFirst_pairwise_slotsFrom 0 pattern.steps
  · rw [hslots group hgroup]
    exact slotsFrom_pairwise _ _ _
  · rw [hslots group hgroup]
    exact mem_slotsOf

/-! ## Trees and their lexemes -/

/-- The alias that a lexeme is, if it is one. -/
def Lexeme.alias? : Lexeme → Option String
  | source name => some name
  | _ => none

namespace Grammar

/-- The step of an admissible tree has the shape. -/
lemma Group.shaped_step {group : Group} (h : group.Admissible) : group.step.Shaped := by
  cases group with
  | single phrase => trivial
  | mixed mode first second more =>
    refine ⟨by simp, fun part hmem => ?_⟩
    obtain ⟨phrase, hphrase, rfl⟩ := List.mem_map.mp hmem
    show phrase.groups.head? = none
    rw [(h phrase hphrase).2]
    rfl

/-- No lexeme of a term closes one. -/
lemma Phrase.countP_endsTerm (phrase : Phrase) : phrase.lexemes.countP Lexeme.endsTerm = 0 :=
  List.countP_eq_zero.mpr fun lexeme hmem => by simp [phrase.endsTerm_lexemes lexeme hmem]

/-- The parts of a mix behind the first have a mix character each. -/
lemma Group.countP_endsTerm_parts (mode : MixMode) (phrases : List Phrase) :
    (partLexemes mode phrases).countP Lexeme.endsTerm = phrases.length := by
  induction phrases with
  | nil => rfl
  | cons phrase phrases ih =>
    rw [partLexemes_cons, List.countP_cons_of_pos (endsTerm_mixMode mode), List.countP_append,
      phrase.countP_endsTerm, ih, Nat.zero_add, List.length_cons]

/-- All terms of a step but the last have a token behind them that closes them. -/
lemma Group.countP_endsTerm (group : Group) :
    group.lexemes.countP Lexeme.endsTerm + 1 = group.step.terms.length := by
  rw [terms_step, List.length_map]
  cases group with
  | single phrase => rw [lexemes, phrase.countP_endsTerm, phrases, List.length_singleton]
  | mixed mode first second more =>
    rw [lexemes, List.countP_append, first.countP_endsTerm, countP_endsTerm_parts, Nat.zero_add]
    rfl

/-- **The terms of a tree** have a token behind each. -/
lemma Tree.countP_endsTerm (tree : Tree) :
    tree.lexemes.countP Lexeme.endsTerm = tree.pattern.terms.length := by
  have hrest : ∀ groups : List Group, (restLexemes groups).countP Lexeme.endsTerm =
      ((groups.map Group.step).flatMap Step.terms).length + 1 := by
    intro groups
    induction groups with
    | nil => rfl
    | cons group groups ih =>
      have hgroup := group.countP_endsTerm
      rw [restLexemes_cons, List.countP_cons_of_pos rfl, List.countP_append, ih, List.map_cons,
        List.flatMap_cons, List.length_append]
      omega
  have hfirst := tree.first.countP_endsTerm
  rw [lexemes, List.countP_append, hrest, Pattern.terms, pattern, List.map_cons, List.flatMap_cons,
    List.length_append]
  omega

/-- **The steps of a tree** have a token behind each. -/
lemma Tree.countP_endsGroup (tree : Tree) :
    tree.lexemes.countP endsGroup = tree.pattern.steps.length := by
  have hgroup : ∀ group : Group, group.lexemes.countP endsGroup = 0 := fun group =>
    List.countP_eq_zero.mpr fun lexeme hmem => by simp [group.endsGroup_lexemes lexeme hmem]
  have hrest : ∀ groups : List Group, (restLexemes groups).countP endsGroup = groups.length + 1 := by
    intro groups
    induction groups with
    | nil => rfl
    | cons group groups ih =>
      rw [restLexemes_cons, List.countP_cons_of_pos rfl, List.countP_append, hgroup, ih,
        List.length_cons]
      omega
  rw [lexemes, List.countP_append, hgroup, hrest, pattern, List.length_map, List.length_cons]
  omega

/-- The only alias of a term is the one in front of it. -/
lemma Phrase.filterMap_alias? (phrase : Phrase) :
    phrase.lexemes.filterMap Lexeme.alias? = phrase.source.toList := by
  have hword : ∀ (lead : List Char) (word : Word), (word.lexemes lead).filterMap Lexeme.alias? = [] := by
    intro lead word
    unfold Word.lexemes
    cases word.parameter <;> rfl
  have hreference : phrase.reference.lexemes.filterMap Lexeme.alias? = [] := by
    cases phrase.reference with
    | number value => rfl
    | negative value => rfl
    | position offset => rcases offset with _ | ⟨_ | _, value⟩ <;> rfl
    | glued word => exact hword ['i'] word
    | random low high step => cases step <;> rfl
  have hsuffix : ∀ suffix : Suffix, suffix.lexemes.filterMap Lexeme.alias? = [] := by
    intro suffix
    cases suffix with
    | effects word => exact hword [] word
    | _ => rfl
  have hsuffixes : (phrase.suffixes.flatMap Suffix.lexemes).filterMap Lexeme.alias? = [] := by
    rw [List.filterMap_flatMap, List.flatMap_eq_nil_iff]
    exact fun suffix _ => hsuffix suffix
  rw [lexemes, List.filterMap_append, List.filterMap_append, hreference, hsuffixes, List.append_nil,
    List.append_nil]
  cases phrase.source <;> rfl

/-- The aliases of a step are those of its terms. -/
lemma Group.filterMap_alias? (group : Group) :
    group.lexemes.filterMap Lexeme.alias? = group.step.terms.filterMap Term.source := by
  have hphrases : ∀ phrases : List Phrase,
      phrases.flatMap (fun phrase => phrase.source.toList) =
        (phrases.map Phrase.term).filterMap Term.source := by
    intro phrases
    rw [List.filterMap_map, List.filterMap_eq_flatMap_toList]
    rfl
  rw [terms_step, ← hphrases]
  cases group with
  | single phrase =>
    rw [lexemes, phrase.filterMap_alias?, phrases, List.flatMap_singleton]
  | mixed mode first second more =>
    have hpart : ∀ phrase : Phrase,
        (mode.lexeme :: phrase.lexemes).filterMap Lexeme.alias? = phrase.source.toList := by
      intro phrase
      rw [List.filterMap_cons_none (by cases mode <;> rfl), phrase.filterMap_alias?]
    rw [lexemes, List.filterMap_append, first.filterMap_alias?, partLexemes, List.filterMap_flatMap,
      List.flatMap_congr fun phrase _ => hpart phrase]
    rfl

/-- **The aliases of a tree** are those of its terms. -/
lemma Tree.filterMap_alias? (tree : Tree) :
    tree.lexemes.filterMap Lexeme.alias? = tree.pattern.terms.filterMap Term.source := by
  have hgroups : ∀ groups : List Group,
      groups.flatMap (fun group => group.lexemes.filterMap Lexeme.alias?) =
        ((groups.map Group.step).flatMap Step.terms).filterMap Term.source := by
    intro groups
    rw [List.filterMap_flatMap, List.flatMap_map]
    exact List.flatMap_congr fun group _ => group.filterMap_alias?
  have hrest : (restLexemes tree.more).filterMap Lexeme.alias? =
      tree.more.flatMap fun group => group.lexemes.filterMap Lexeme.alias? := by
    rw [restLexemes, List.filterMap_append, List.filterMap_flatMap]
    exact List.append_nil _
  rw [lexemes, List.filterMap_append, hrest]
  exact hgroups (tree.first :: tree.more)

end Grammar

/-! ## Texts -/

/-- **The shape of a pattern.** A pattern that is read from a text has a step. Each step is a term or a
mix of two terms at least, none of which is in a group, and a term is a beat with an alias or without
one. The table has the groups of the steps. Neither steps nor terms nor aliases are inside others: the
steps are as many as the commas and the end of the text, the terms are as many as the tokens that close
one, and their aliases are those of the text, in order. -/
theorem Pattern.ofText_shape {text : String} {pattern : Pattern} (h : ofText text = .ok pattern) :
    pattern.steps ≠ [] ∧ (∀ step ∈ pattern.steps, step.Shaped) ∧
      TableOf pattern.steps pattern.groups ∧
      ∃ tokens, scan text = .ok tokens ∧
        pattern.steps.length = (tokens.map Token.lexeme).countP Grammar.endsGroup ∧
        pattern.terms.length = (tokens.map Token.lexeme).countP Lexeme.endsTerm ∧
        pattern.terms.filterMap Term.source = (tokens.map Token.lexeme).filterMap Lexeme.alias? := by
  obtain ⟨tokens, hscan, htokens⟩ := bind_eq_ok_iff.mp h
  obtain ⟨tree, hlexemes, hadmissible, rfl⟩ := ofTokens_sound (scanFrom_scanned hscan) htokens
  refine ⟨List.cons_ne_nil _ _, fun step hstep => ?_, tableOf_groups _, tokens, hscan, ?_⟩
  · obtain ⟨group, hgroup, rfl⟩ := List.mem_map.mp hstep
    exact Grammar.Group.shaped_step (hadmissible group hgroup)
  · rw [← hlexemes]
    exact ⟨tree.countP_endsGroup.symm, tree.countP_endsTerm.symm, tree.filterMap_alias?.symm⟩

/-- Two groups with a mix of two aliases between their members. -/
theorem Pattern.ofText_shape_two_groups :
    ∃ (pattern : Pattern) (tokens : List Token), ofText "1#x,[b]2;[a]3,4#y,ir#x" = .ok pattern ∧
      scan "1#x,[b]2;[a]3,4#y,ir#x" = .ok tokens ∧
      pattern.steps ≠ [] ∧ (∀ step ∈ pattern.steps, step.Shaped) ∧
      TableOf pattern.steps [⟨"x", [0, 3]⟩, ⟨"y", [2]⟩] ∧
      (tokens.map Token.lexeme).countP Grammar.endsGroup = 4 ∧
      (tokens.map Token.lexeme).countP Lexeme.endsTerm = 5 ∧
      (tokens.map Token.lexeme).filterMap Lexeme.alias? = ["b", "a"] := by
  have htext : ofText "1#x,[b]2;[a]3,4#y,ir#x" = .ok
      ⟨[.single ⟨none, { ref := .literal 1, group := some "x" }⟩,
        .mix .sum [⟨some "b", { ref := .literal 2 }⟩, ⟨some "a", { ref := .literal 3 }⟩],
        .single ⟨none, { ref := .literal 4, group := some "y" }⟩,
        .single ⟨none, { ref := .position 0, effects := [.reverse], group := some "x" }⟩]⟩ := by
    decide +kernel
  obtain ⟨hsteps, hshaped, htable, tokens, hscan, hgroups, hterms, haliases⟩ := ofText_shape htext
  exact ⟨_, tokens, htext, hscan, hsteps, hshaped, htable, hgroups.symm, hterms.symm, haliases.symm⟩

end Arranger

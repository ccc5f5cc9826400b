import Arranger.Proofs.Pattern.Terms
import Arranger.Proofs.Pattern.Tokens

/-!
# Reading steps and patterns

The tokens are divided into runs and bars without a loss, and what the readers of these accept is
what the grammar derives.

## Main definitions

* `Arranger.Run.Proper`, `Bar.Proper` — runs and bars as the division makes them.
* `Arranger.Bar.lexemes`, `Bar.closing` — the lexemes of a bar, and the token behind it.

## Main results

* `Arranger.exists_bar` — tokens start with the first of their bars.
* `Arranger.Bar.read_sound`, `Bar.read_complete` — a step.
* `Arranger.Pattern.ofTokens_sound`, `Pattern.ofTokens_complete` — a pattern.
-/

namespace Arranger

open Grammar

/-! ## Proper runs and bars -/

/-- A run as the division makes it. -/
structure Run.Proper (run : Run) : Prop where
  /-- No token closes a term. -/
  inside : ∀ lexeme ∈ run.tokens.map Token.lexeme, lexeme.endsTerm = false
  /-- No word is empty. -/
  words : NonemptyWords run.tokens
  /-- The token behind it closes a term. -/
  closing : run.closing.lexeme.endsTerm = true

/-- The runs behind a token are those of a bar: each stands behind a mix character, and there is
none behind the last. -/
def Linked (opening : Token) : List Run → Prop
  | [] => opening.lexeme.mixMode? = none
  | run :: more => opening.lexeme.mixMode? ≠ none ∧ run.Proper ∧ Linked run.closing more

/-- The lexemes of runs with the tokens between them and the one in front. -/
def linkedLexemes (opening : Token) : List Run → List Lexeme
  | [] => []
  | run :: more =>
    opening.lexeme :: (run.tokens.map Token.lexeme ++ linkedLexemes run.closing more)

/-- The token behind the last of some runs, or the one in front where there is none. -/
def lastClosing (opening : Token) : List Run → Token
  | [] => opening
  | run :: more => lastClosing run.closing more

namespace Bar

/-- A bar as the division makes it. -/
structure Proper (bar : Bar) : Prop where
  /-- The first run is proper. -/
  first : bar.first.Proper
  /-- The others are linked to it. -/
  others : Linked bar.first.closing bar.others

/-- The lexemes of a bar. -/
def lexemes (bar : Bar) : List Lexeme :=
  bar.first.tokens.map Token.lexeme ++ linkedLexemes bar.first.closing bar.others

/-- The token behind a bar. -/
def closing (bar : Bar) : Token :=
  lastClosing bar.first.closing bar.others

end Bar

/-! ## The division -/

/-- The first run is the first one of the first bar, and the rest of the division does not depend
on its tokens. -/
lemma exists_joinRuns (closing : Token) (more : List Run) :
    ∃ others rest, ∀ tokens,
      joinRuns (⟨tokens, closing⟩ :: more) = ⟨⟨tokens, closing⟩, others⟩ :: rest := by
  cases hmode : closing.lexeme.mixMode? with
  | none =>
    refine ⟨[], joinRuns more, fun tokens => ?_⟩
    rw [joinRuns, hmode]
  | some mode =>
    cases hmore : joinRuns more with
    | nil =>
      refine ⟨[], [], fun tokens => ?_⟩
      rw [joinRuns, hmode, hmore]
    | cons bar rest =>
      refine ⟨bar.first :: bar.others, rest, fun tokens => ?_⟩
      rw [joinRuns, hmode, hmore]

/-- The mode of a mix character is its own. -/
lemma mixMode?_eq_some_iff {lexeme : Lexeme} {mode : MixMode} :
    lexeme.mixMode? = some mode ↔ lexeme = mode.lexeme := by
  constructor
  · intro h
    cases lexeme <;> cases h <;> rfl
  · rintro rfl
    cases mode <;> rfl

/-- A token that closes a term without mixing closes a step. -/
lemma comma_or_stop {lexeme : Lexeme} (hends : lexeme.endsTerm = true)
    (hmode : lexeme.mixMode? = none) : lexeme = .comma ∨ lexeme = .stop := by
  cases lexeme with
  | comma => exact .inl rfl
  | stop => exact .inr rfl
  | semicolon => cases hmode
  | caret => cases hmode
  | _ => cases hends

/-- **Tokens start with the first of their bars.** The token behind it is the end of the text, or
a comma with the tokens of the other bars behind it.

**Proof sketch.** Induction on the tokens. A token that closes no term goes to the front of the
first run, a comma is a bar without tokens, and a mix character puts a run without tokens in front
of the first bar. -/
lemma exists_bar {tokens : List Token} (h : Scanned tokens) :
    ∃ bar rest, bars tokens = bar :: bars rest ∧ bar.Proper ∧
      tokens.map Token.lexeme = bar.lexemes ++ bar.closing.lexeme :: rest.map Token.lexeme ∧
        rest.length < tokens.length ∧
          (bar.closing.lexeme = .stop ∧ rest = [] ∨ bar.closing.lexeme = .comma ∧ Scanned rest) := by
  induction h with
  | stop position =>
    refine ⟨⟨⟨[], ⟨.stop, position⟩⟩, []⟩, [], rfl, ⟨⟨?_, ?_, rfl⟩, rfl⟩, rfl, ?_, .inl ⟨rfl, rfl⟩⟩
    · simp
    · simp [NonemptyWords]
    · simp
  | @cons token tokens hlexeme htokens ih =>
    have hstop : token.lexeme ≠ .stop := fun heq => by rw [heq] at hlexeme; exact hlexeme
    have hword : token.lexeme ≠ .word "" := fun heq => by rw [heq] at hlexeme; exact hlexeme.1 rfl
    obtain ⟨bar, rest, hbars, hproper, hlexemes, hlength, hclosing⟩ := ih
    have hshorter : rest.length < (token :: tokens).length := hlength.trans (Nat.lt_succ_self _)
    have hempty : Run.Proper ⟨[], token⟩ ∨ token.lexeme.endsTerm = false := by
      cases hends : token.lexeme.endsTerm with
      | false => exact .inr rfl
      | true => exact .inl ⟨by simp, by simp [NonemptyWords], hends⟩
    rcases hempty with hempty | hends
    · have hruns : runs (token :: tokens) = ⟨[], token⟩ :: runs tokens := by
        rw [runs, if_pos hempty.closing]
      cases hmode : token.lexeme.mixMode? with
      | none =>
        have hcomma : token.lexeme = .comma :=
          (comma_or_stop hempty.closing hmode).resolve_right hstop
        refine ⟨⟨⟨[], token⟩, []⟩, tokens, ?_, ⟨hempty, hmode⟩, rfl, Nat.lt_succ_self _,
          .inr ⟨hcomma, htokens⟩⟩
        rw [bars, hruns, joinRuns, hmode]
        rfl
      | some mode =>
        refine ⟨⟨⟨[], token⟩, bar.first :: bar.others⟩, rest, ?_,
          ⟨hempty, by simp [hmode], hproper.first, hproper.others⟩, ?_, hshorter, hclosing⟩
        · rw [bars] at hbars
          rw [bars, hruns, joinRuns, hmode, hbars]
        · rw [List.map_cons, hlexemes]
          rfl
    · cases hruns : runs tokens with
      | nil =>
        rw [bars, hruns] at hbars
        cases hbars
      | cons run more =>
        obtain ⟨inside, closing⟩ := run
        obtain ⟨others, rest', hjoin⟩ := exists_joinRuns closing more
        rw [bars, hruns, hjoin] at hbars
        obtain ⟨rfl, hrest⟩ := List.cons.inj hbars
        refine ⟨⟨⟨token :: inside, closing⟩, others⟩, rest, ?_, ⟨⟨?_, ?_, hproper.first.closing⟩,
          hproper.others⟩, ?_, hshorter, hclosing⟩
        · rw [bars, runs, if_neg (by simp [hends]), hruns]
          exact (hjoin (token :: inside)).trans (by rw [hrest])
        · rw [List.map_cons, List.forall_mem_cons]
          exact ⟨hends, hproper.first.inside⟩
        · exact List.forall_mem_cons.mpr ⟨hword, hproper.first.words⟩
        · rw [List.map_cons, hlexemes]
          rfl

/-! ## Parts of a mix -/

/-- Linked runs start with what closes a term. -/
lemma endsTerm_head_linkedLexemes {opening : Token} {more : List Run} (h : Linked opening more) :
    ∀ lexeme ∈ (linkedLexemes opening more).head?, lexeme.endsTerm = true := by
  cases more with
  | nil => simp [linkedLexemes]
  | cons run more =>
    rintro lexeme ⟨⟩
    have hmode := h.1
    revert hmode
    cases opening.lexeme <;> simp [Lexeme.mixMode?, Lexeme.endsTerm]

/-- **What is read as the parts of a mix is derived by the grammar.** -/
lemma readParts_sound {mode : MixMode} {opening : Token} {more : List Run} {terms : List Term}
    (hlinked : Linked opening more) (h : readParts mode opening more = .ok terms) :
    ∃ phrases : List Phrase, Group.partLexemes mode phrases = linkedLexemes opening more ∧
      (∀ phrase ∈ phrases, phrase.Admissible) ∧ phrases.map Phrase.term = terms := by
  induction more generalizing opening terms with
  | nil =>
    cases h
    exact ⟨[], rfl, by simp, rfl⟩
  | cons run more ih =>
    obtain ⟨_, hproper, hlinkedMore⟩ := hlinked
    rw [readParts] at h
    split_ifs at h with hmode
    obtain ⟨term, hterm, h⟩ := bind_eq_ok_iff.mp h
    obtain ⟨terms', hterms, h⟩ := bind_eq_ok_iff.mp h
    cases h
    obtain ⟨phrase, hphrase, hadmissible, rfl⟩ := Run.read_sound hproper.words hterm
    obtain ⟨phrases, hphrases, hall, rfl⟩ := ih hlinkedMore hterms
    refine ⟨phrase :: phrases, ?_, List.forall_mem_cons.mpr ⟨hadmissible, hall⟩, rfl⟩
    rw [Group.partLexemes_cons, hphrase, hphrases, ← mixMode?_eq_some_iff.mp hmode]
    rfl

/-- **What the grammar derives is read as the parts of a mix.** -/
lemma readParts_complete {mode : MixMode} {opening : Token} {more : List Run}
    {phrases : List Phrase} (hlinked : Linked opening more)
    (hlexemes : Group.partLexemes mode phrases = linkedLexemes opening more)
    (h : ∀ phrase ∈ phrases, phrase.Admissible) :
    readParts mode opening more = .ok (phrases.map Phrase.term) := by
  induction more generalizing opening phrases with
  | nil =>
    cases phrases with
    | nil => rfl
    | cons phrase phrases => cases hlexemes
  | cons run more ih =>
    obtain ⟨_, hproper, hlinkedMore⟩ := hlinked
    cases phrases with
    | nil => cases hlexemes
    | cons phrase phrases =>
      rw [List.forall_mem_cons] at h
      rw [Group.partLexemes_cons] at hlexemes
      obtain ⟨hmode, hparts⟩ := List.cons.inj hlexemes
      obtain ⟨hphrase, hmore⟩ : phrase.lexemes = run.tokens.map Token.lexeme ∧
          Group.partLexemes mode phrases = linkedLexemes run.closing more :=
        append_unique phrase.endsTerm_lexemes hproper.inside (endsTerm_head_partLexemes mode _)
          (endsTerm_head_linkedLexemes hlinkedMore) hparts
      rw [readParts, if_pos (mixMode?_eq_some_iff.mpr hmode.symm)]
      refine bind_eq_ok_iff.mpr ⟨_, Run.read_complete hphrase h.1, ?_⟩
      exact bind_eq_ok_iff.mpr ⟨_, ih hlinkedMore hmore h.2, rfl⟩

/-! ## Steps -/

/-- A phrase has a group if its term does. -/
lemma isSome_group_term {phrase : Phrase} :
    phrase.term.beat.group.isSome = false ↔ phrase.groups = [] := by
  show phrase.groups.head?.isSome = false ↔ _
  cases phrase.groups <;> simp

/-- There is no group mark in a mix if no term has a group. -/
lemma any_isSome_group {phrases : List Phrase} :
    (phrases.map Phrase.term).any (·.beat.group.isSome) = false ↔
      ∀ phrase ∈ phrases, phrase.groups = [] := by
  rw [List.any_map, List.any_eq_false]
  refine forall₂_congr fun phrase _ => ?_
  rw [← isSome_group_term]
  simp

/-- **What is read as a step is derived by the grammar.** -/
theorem Bar.read_sound {bar : Bar} {step : Step} (hproper : bar.Proper)
    (h : bar.read = .ok step) :
    ∃ group : Group, group.lexemes = bar.lexemes ∧ group.Admissible ∧ group.step = step := by
  obtain ⟨first, others⟩ := bar
  obtain ⟨term, hterm, h⟩ := bind_eq_ok_iff.mp h
  obtain ⟨phrase, hphrase, hadmissible, rfl⟩ := Run.read_sound hproper.first.words hterm
  have hlinked := hproper.others
  cases others with
  | nil =>
    have hsingle : step = .single phrase.term := by
      cases hmode : first.closing.lexeme.mixMode? <;> rw [hmode] at h <;> cases h <;> rfl
    refine ⟨.single phrase, ?_, hadmissible, hsingle.symm⟩
    rw [Group.lexemes, hphrase, Bar.lexemes, linkedLexemes, List.append_nil]
  | cons second more =>
    obtain ⟨mode, hmode⟩ := Option.ne_none_iff_exists'.mp hlinked.1
    rw [hmode] at h
    obtain ⟨terms, hterms, h⟩ := bind_eq_ok_iff.mp h
    obtain ⟨phrases, hphrases, hall, rfl⟩ := readParts_sound hlinked hterms
    rw [← List.map_cons] at h
    dsimp only at h
    split_ifs at h with hgroup
    cases h
    rw [Bool.not_eq_true, any_isSome_group] at hgroup
    cases phrases with
    | nil => cases hphrases
    | cons second' more' =>
      refine ⟨.mixed mode phrase second' more', ?_, ?_, rfl⟩
      · rw [Group.lexemes, hphrase, hphrases]
        rfl
      · intro part hmem
        exact ⟨List.forall_mem_cons.mpr ⟨hadmissible, hall⟩ part hmem, hgroup part hmem⟩

/-- **What the grammar derives is read as a step.** -/
theorem Bar.read_complete {bar : Bar} {group : Group} (hproper : bar.Proper)
    (hlexemes : group.lexemes = bar.lexemes) (h : group.Admissible) :
    bar.read = .ok group.step := by
  obtain ⟨first, others⟩ := bar
  have hlinked := hproper.others
  cases group with
  | single phrase =>
    obtain ⟨hphrase, hothers⟩ := append_unique phrase.endsTerm_lexemes hproper.first.inside
      (by simp) (endsTerm_head_linkedLexemes hlinked) ((List.append_nil _).trans hlexemes)
    cases others with
    | nil =>
      refine bind_eq_ok_iff.mpr ⟨_, Run.read_complete hphrase h, ?_⟩
      cases first.closing.lexeme.mixMode? <;> rfl
    | cons second more => cases hothers
  | mixed mode phrase second' more' =>
    obtain ⟨hphrase, hparts⟩ := append_unique phrase.endsTerm_lexemes hproper.first.inside
      (endsTerm_head_partLexemes mode _) (endsTerm_head_linkedLexemes hlinked) hlexemes
    cases others with
    | nil => cases hparts
    | cons second more =>
      have hall : ∀ part ∈ phrase :: second' :: more', part.Admissible :=
        fun part hmem => (h part hmem).1
      have hgroup := any_isSome_group.mpr fun part hmem => (h part hmem).2
      rw [List.forall_mem_cons] at hall
      have hmode : first.closing.lexeme.mixMode? = some mode :=
        mixMode?_eq_some_iff.mpr (List.cons.inj hparts).1.symm
      refine bind_eq_ok_iff.mpr ⟨_, Run.read_complete hphrase hall.1, ?_⟩
      dsimp only
      rw [hmode]
      refine bind_eq_ok_iff.mpr ⟨_, readParts_complete hlinked hparts hall.2, ?_⟩
      rw [← List.map_cons, if_neg (by rw [hgroup]; exact Bool.false_ne_true)]
      rfl

/-! ## Patterns -/

/-- No lexeme of a proper bar closes a step. -/
lemma Bar.endsGroup_lexemes {bar : Bar} (h : bar.Proper) :
    ∀ lexeme ∈ bar.lexemes, endsGroup lexeme = false := by
  have hrun : ∀ run : Run, run.Proper → ∀ lexeme ∈ run.tokens.map Token.lexeme,
      endsGroup lexeme = false :=
    fun run hrun lexeme hmem => endsGroup_of_endsTerm (hrun.inside lexeme hmem)
  have hlinked : ∀ (more : List Run) (opening : Token), Linked opening more →
      ∀ lexeme ∈ linkedLexemes opening more, endsGroup lexeme = false := by
    intro more
    induction more with
    | nil => simp [linkedLexemes]
    | cons run more ih =>
      rintro opening ⟨hmode, hproper, hmore⟩ lexeme hmem
      rw [linkedLexemes, List.mem_cons, List.mem_append] at hmem
      rcases hmem with rfl | hmem | hmem
      · revert hmode
        cases opening.lexeme <;> simp [Lexeme.mixMode?, endsGroup]
      · exact hrun run hproper lexeme hmem
      · exact ih run.closing hmore lexeme hmem
  intro lexeme hmem
  rcases List.mem_append.mp hmem with hmem | hmem
  · exact hrun bar.first h.first lexeme hmem
  · exact hlinked bar.others _ h.others lexeme hmem

/-- What is read as steps is derived by the grammar. -/
lemma bars_sound {tokens : List Token} {steps : List Step} (hscanned : Scanned tokens)
    (h : (bars tokens).mapM Bar.read = .ok steps) :
    ∃ (first : Group) (more : List Group),
      first.lexemes ++ Tree.restLexemes more = tokens.map Token.lexeme ∧
        (∀ group ∈ first :: more, group.Admissible) ∧ (first :: more).map Group.step = steps := by
  induction hlength : tokens.length using Nat.strongRecOn generalizing tokens steps with
  | ind length ih =>
    obtain ⟨bar, rest, hbars, hproper, hlexemes, hshorter, hclosing⟩ := exists_bar hscanned
    rw [hbars] at h
    obtain ⟨step, steps', hstep, hsteps, rfl⟩ := mapM_cons_eq_ok_iff.mp h
    obtain ⟨group, hgroup, hadmissible, rfl⟩ := Bar.read_sound hproper hstep
    rcases hclosing with ⟨hstop, rfl⟩ | ⟨hcomma, hrest⟩
    · cases hsteps
      refine ⟨group, [], ?_, by simpa using hadmissible, rfl⟩
      rw [hlexemes, hgroup, hstop]
      rfl
    · obtain ⟨first, more, hmore, hall, rfl⟩ :=
        ih rest.length (hlength ▸ hshorter) hrest hsteps rfl
      refine ⟨group, first :: more, ?_, List.forall_mem_cons.mpr ⟨hadmissible, hall⟩, rfl⟩
      rw [hlexemes, hgroup, hcomma, Tree.restLexemes_cons, hmore]

/-- The first bar of tokens that the grammar derives has the lexemes of the first step. -/
lemma exists_bar_of_group {tokens : List Token} {first : Group} {more : List Group}
    (hscanned : Scanned tokens)
    (hlexemes : first.lexemes ++ Tree.restLexemes more = tokens.map Token.lexeme) :
    ∃ bar rest, bars tokens = bar :: bars rest ∧ bar.Proper ∧ first.lexemes = bar.lexemes ∧
      Tree.restLexemes more = bar.closing.lexeme :: rest.map Token.lexeme ∧
        (bar.closing.lexeme = .stop ∧ rest = [] ∨
          bar.closing.lexeme = .comma ∧ Scanned rest) := by
  obtain ⟨bar, rest, hbars, hproper, hsplit, _, hclosing⟩ := exists_bar hscanned
  rw [hsplit] at hlexemes
  have hends : endsGroup bar.closing.lexeme = true := by
    rcases hclosing with ⟨hstop, _⟩ | ⟨hcomma, _⟩
    · rw [hstop]
      rfl
    · rw [hcomma]
      rfl
  obtain ⟨hfirst, hrest⟩ := append_unique first.endsGroup_lexemes
    (Bar.endsGroup_lexemes hproper) (endsGroup_head_restLexemes _) (by simpa using hends) hlexemes
  exact ⟨bar, rest, hbars, hproper, hfirst, hrest, hclosing⟩

/-- What the grammar derives is read as steps. -/
lemma bars_complete {tokens : List Token} {first : Group} {more : List Group}
    (hscanned : Scanned tokens)
    (hlexemes : first.lexemes ++ Tree.restLexemes more = tokens.map Token.lexeme)
    (h : ∀ group ∈ first :: more, group.Admissible) :
    (bars tokens).mapM Bar.read = .ok ((first :: more).map Group.step) := by
  induction more generalizing tokens first with
  | nil =>
    obtain ⟨bar, rest, hbars, hproper, hfirst, hrest, _⟩ := exists_bar_of_group hscanned hlexemes
    have hread := Bar.read_complete hproper hfirst (h first (List.mem_cons_self ..))
    obtain rfl : rest = [] := List.map_eq_nil_iff.mp (List.cons.inj hrest).2.symm
    rw [hbars]
    exact mapM_cons_eq_ok_iff.mpr ⟨_, [], hread, rfl, rfl⟩
  | cons second more ih =>
    obtain ⟨bar, rest, hbars, hproper, hfirst, hrest, hclosing⟩ :=
      exists_bar_of_group hscanned hlexemes
    rw [List.forall_mem_cons] at h
    have hread := Bar.read_complete hproper hfirst h.1
    rw [Tree.restLexemes_cons] at hrest
    obtain ⟨hcomma, hmore⟩ := List.cons.inj hrest
    rcases hclosing with ⟨hstop, _⟩ | ⟨_, hscannedRest⟩
    · rw [hstop] at hcomma
      cases hcomma
    · rw [hbars]
      exact mapM_cons_eq_ok_iff.mpr ⟨_, _, hread, ih hscannedRest hmore h.2, rfl⟩

/-- **What is read as a pattern is derived by the grammar.** -/
theorem Pattern.ofTokens_sound {tokens : List Token} {pattern : Pattern}
    (hscanned : Scanned tokens) (h : ofTokens tokens = .ok pattern) :
    ∃ tree : Tree, tree.lexemes = tokens.map Token.lexeme ∧ tree.Admissible ∧
      tree.pattern = pattern := by
  obtain ⟨steps, hsteps, hpattern⟩ := bind_eq_ok_iff.mp h
  cases hpattern
  obtain ⟨first, more, hlexemes, hadmissible, rfl⟩ := bars_sound hscanned hsteps
  exact ⟨⟨first, more⟩, hlexemes, hadmissible, rfl⟩

/-- **What the grammar derives is read as a pattern.** -/
theorem Pattern.ofTokens_complete {tokens : List Token} {tree : Tree} (hscanned : Scanned tokens)
    (hlexemes : tree.lexemes = tokens.map Token.lexeme) (h : tree.Admissible) :
    ofTokens tokens = .ok tree.pattern :=
  bind_eq_ok_iff.mpr ⟨_, bars_complete hscanned hlexemes h, rfl⟩

end Arranger

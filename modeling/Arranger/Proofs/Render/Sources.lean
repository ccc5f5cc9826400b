import Arranger.Pattern.Compiling
import Arranger.Proofs.Pattern.Groups
import Arranger.Proofs.Plan.Twins
import Arranger.Render.Basic

/-!
# Renderings and the songs of the table

A rendering looks up the aliases of its pattern and no others, and a song sounds the same under an
alias and as the song at hand. So two patterns with the same beats are rendered alike on two tables
if their terms have the same songs there.

## Main definitions

* `Arranger.SongTable.AgreeOn` — tables with the same songs under some names.
* `Arranger.Term.Unprefixed` — a term that may have lost an alias.

## Main results

* `Arranger.checkAliases_aliases` — checking each alias once finds the same as checking all.
* `Arranger.render_congr` — the same beats of the same songs are rendered alike.
* `Arranger.render_sources` — what a rendering does not depend on.
-/

namespace Arranger

/-! ## Aliases -/

/-- The alias of a term is one of those of its pattern. -/
lemma Pattern.mem_aliases {pattern : Pattern} {term : Term} (hterm : term ∈ pattern.terms)
    {name : String} (hsource : term.source = some name) : name ∈ pattern.aliases :=
  mem_keepFirst.mpr ⟨List.mem_filterMap.mpr ⟨term, hterm, hsource⟩, List.not_mem_nil⟩

/-- A name that the table has passes the check. -/
lemma checkAliases_cons_of_isSome {table : SongTable} {name : String}
    (h : (table.get? name).isSome) (names : List String) :
    checkAliases table (name :: names) = checkAliases table names := by
  obtain ⟨song, hsong⟩ := Option.isSome_iff_exists.mp h
  rw [checkAliases, SongTable.resolve, hsong]
  rfl

/-- A name that the table does not have is the fault of the check. -/
lemma checkAliases_cons_of_eq_none {table : SongTable} {name : String}
    (h : table.get? name = none) (names : List String) :
    checkAliases table (name :: names) = .error (.unknownAlias name) := by
  rw [checkAliases, SongTable.resolve, h]
  rfl

/-- Names that the table is known to have need not be checked again.

**Proof sketch.** By induction on the names. A name that is missing ends the check, so the names
seen before any other one are all there. -/
lemma checkAliases_keepFirst {table : SongTable} {seen : List String}
    (hseen : ∀ name ∈ seen, (table.get? name).isSome) (names : List String) :
    checkAliases table (keepFirst seen names) = checkAliases table names := by
  induction names generalizing seen with
  | nil => rfl
  | cons name names ih =>
    rw [keepFirst]
    split_ifs with hmem
    · rw [checkAliases_cons_of_isSome (hseen name hmem), ih hseen]
    · cases hname : table.get? name with
      | none => rw [checkAliases_cons_of_eq_none hname, checkAliases_cons_of_eq_none hname]
      | some song =>
        have hfound : (table.get? name).isSome := Option.isSome_of_eq_some hname
        rw [checkAliases_cons_of_isSome hfound, checkAliases_cons_of_isSome hfound]
        exact ih (List.forall_mem_cons.mpr ⟨hfound, hseen⟩)

/-- **The aliases of a pattern are checked as if every term had its alias checked.** -/
lemma checkAliases_aliases (table : SongTable) (pattern : Pattern) :
    checkAliases table pattern.aliases =
      checkAliases table (pattern.terms.filterMap Term.source) :=
  checkAliases_keepFirst (fun _ hmem => absurd hmem List.not_mem_nil) _

/-- To check the alias of a term is to look for its song. -/
lemma Stage.checkAliases_cons (stage : Stage) (term : Term) (terms : List Term) :
    checkAliases stage.table ((term :: terms).filterMap Term.source) =
      (stage.songOf term).bind fun _ =>
        checkAliases stage.table (terms.filterMap Term.source) := by
  rw [songOf]
  cases hsource : term.source with
  | none => rw [List.filterMap_cons_none hsource]; rfl
  | some name => rw [List.filterMap_cons_some hsource]; rfl

/-- Terms with the same songs pass the check alike. -/
lemma Stage.checkAliases_congr {stage other : Stage} {terms others : List Term}
    (h : List.Forall₂ (fun term term' => other.songOf term' = stage.songOf term) terms others) :
    checkAliases other.table (others.filterMap Term.source) =
      checkAliases stage.table (terms.filterMap Term.source) := by
  induction h with
  | nil => rfl
  | cons hsong _ ih => rw [checkAliases_cons, checkAliases_cons, hsong, ih]

/-! ## The same beats of the same songs -/

section Twins

variable {stage : Stage} {R : Term → Term → Prop}
  (hbeat : ∀ term other, R term other → other.beat = term.beat)

include hbeat

/-- Leaves of the same beat sound alike. -/
lemma Leaf.Twin.perform_eq {term other : Term} {leaf leaf' : Leaf}
    (h : leaf.Twin stage R term other leaf') (channelCount : ℕ) :
    leaf'.perform channelCount = leaf.perform channelCount := by
  obtain ⟨hterm, -, -, hleaf, hleaf'⟩ := h
  have heq := hbeat _ _ hterm
  cases hleaf with
  | silence hsilent =>
    cases hleaf' with
    | silence _ => rw [heq]
    | extract hsilent' => rw [heq, hsilent] at hsilent'; cases hsilent'
  | extract hsilent =>
    cases hleaf' with
    | silence hsilent' => rw [heq, hsilent] at hsilent'; cases hsilent'
    | extract _ => rw [perform, perform, heq]

/-- Plans of the same beats sound alike. -/
lemma Plan.Twin.perform_eq {step other : Step} {plan plan' : Plan}
    (h : plan.Twin stage R step other plan') (limiter : Limiter) (channelCount : ℕ) :
    plan'.perform limiter channelCount = plan.perform limiter channelCount := by
  cases h with
  | single h => exact h.perform_eq hbeat channelCount
  | @mix mode parts others leaves leaves' h =>
    rw [perform, perform, h.map_eq fun _ _ _ _ h => h.perform_eq hbeat channelCount]

omit hbeat in
/-- To perform plans is to join their segments. -/
lemma performAll_eq_foldl (limiter : Limiter) (channelCount : ℕ) (plans : List Plan) :
    performAll limiter channelCount plans =
      (plans.map (Plan.perform limiter channelCount)).foldl Segment.append
        (Segment.silent channelCount 0) :=
  List.foldl_map.symm

omit hbeat in
/-- Plans with the same segments sound alike, one after another. -/
lemma perform_congr {song : Song} {limiter : Limiter} {plans plans' : List Plan}
    (h : plans'.map (Plan.perform limiter song.recording.channelCount) =
      plans.map (Plan.perform limiter song.recording.channelCount)) :
    perform song limiter plans' = perform song limiter plans := by
  rw [perform, perform, performAll_eq_foldl, performAll_eq_foldl, h]

/-- Plans of the same beats sound alike, one after another. -/
lemma perform_eq_of_inStep {cues cues' : List Cue} {plans plans' : List Plan}
    (h : InStep (fun cue cue' => Plan.Twin stage R cue.step cue'.step) cues cues' plans plans')
    (song : Song) (limiter : Limiter) :
    perform song limiter plans' = perform song limiter plans :=
  perform_congr (h.map_eq fun _ _ _ _ h => h.perform_eq hbeat limiter _)

end Twins

/-- **The same beats of the same songs are rendered alike**, whatever the aliases of the songs. -/
theorem render_congr {pattern other : Pattern} {song : Song} {table table' : SongTable}
    {options : RenderOptions}
    (h : pattern.Rel (fun term term' => term'.beat = term.beat ∧
      Stage.songOf ⟨song, table', options.repetition⟩ term' =
        Stage.songOf ⟨song, table, options.repetition⟩ term) other) (entropy : UInt64) :
    render other song table' options entropy = render pattern song table options entropy := by
  have hcheck : checkAliases table' other.aliases = checkAliases table pattern.aliases := by
    rw [checkAliases_aliases, checkAliases_aliases]
    exact @Stage.checkAliases_congr ⟨song, table, options.repetition⟩
      ⟨song, table', options.repetition⟩ _ _ (h.terms.imp fun _ _ h => h.2)
  have hplan := @Stage.plan_twin ⟨song, table, options.repetition⟩
    ⟨song, table', options.repetition⟩ _ rfl rfl
    (fun term term' h => ⟨⟨by rw [h.1], by rw [h.1], by rw [h.1]⟩, h.2⟩) _ _ h
    (.ofSeed (options.seed.getD entropy))
  rw [render, render, hcheck]
  refine congrArg _ (funext fun _ => ?_)
  dsimp only
  generalize Stage.plan _ pattern _ = run, Stage.plan _ other _ = run' at hplan ⊢
  cases hplan with
  | error fault cursor => rfl
  | ok cursor h =>
    exact congrArg Except.ok (perform_eq_of_inStep (fun _ _ h => h.1) h song _)

/-! ## What a rendering does not depend on -/

/-- Tables that have the same songs under some names. -/
def SongTable.AgreeOn (names : List String) (table other : SongTable) : Prop :=
  ∀ name ∈ names, other.get? name = table.get? name

instance (names : List String) (table other : SongTable) :
    Decidable (table.AgreeOn names other) :=
  inferInstanceAs (Decidable (∀ name ∈ names, other.get? name = table.get? name))

/-- A term that may have lost an alias, and is the same otherwise. -/
inductive Term.Unprefixed (name : String) : Term → Term → Prop where
  /-- The term is the same. -/
  | same (term : Term) : Unprefixed name term term
  /-- The alias is lost. -/
  | lost (beat : Beat) : Unprefixed name ⟨some name, beat⟩ ⟨none, beat⟩

/-- A term that has lost an alias has the same beat. -/
lemma Term.Unprefixed.beat_eq {name : String} {term other : Term} (h : term.Unprefixed name other) :
    other.beat = term.beat := by
  cases h <;> rfl

/-- Tables that agree on the alias of a term have the same song for it. -/
lemma Stage.songOf_agree {song : Song} {table other : SongTable} {names : List String}
    (h : table.AgreeOn names other) {term : Term}
    (hterm : ∀ name, term.source = some name → name ∈ names) (repetition : Repeat) :
    songOf ⟨song, other, repetition⟩ term = songOf ⟨song, table, repetition⟩ term := by
  rw [songOf, songOf]
  cases hsource : term.source with
  | none => rfl
  | some name =>
    dsimp only
    rw [SongTable.resolve, SongTable.resolve, h name (hterm name hsource)]

/-- A term that has lost an alias of the song at hand has the same song. -/
lemma Stage.songOf_unprefixed {song : Song} {table : SongTable} {name : String}
    (h : table.get? name = some song) {term other : Term} (hterm : Term.Unprefixed name term other)
    (repetition : Repeat) :
    songOf ⟨song, table, repetition⟩ other = songOf ⟨song, table, repetition⟩ term := by
  cases hterm with
  | same => rfl
  | lost beat =>
    show Except.ok song = table.resolve name
    rw [SongTable.resolve, h]

/-- **A rendering depends only on the songs that its pattern names**, and not on whether a song has
an alias. Another table gives the same recording or fault if it has the same songs under the aliases
of the pattern. And if an alias has the song at hand, then terms can lose that alias. -/
theorem render_sources (pattern : Pattern) (song : Song) (table : SongTable)
    (options : RenderOptions) (entropy : UInt64) :
    (∀ table', table.AgreeOn pattern.aliases table' →
      render pattern song table' options entropy = render pattern song table options entropy) ∧
      ∀ name other, table.get? name = some song → pattern.Rel (Term.Unprefixed name) other →
        render other song table options entropy = render pattern song table options entropy := by
  constructor
  · intro table' h
    refine render_congr (Pattern.rel_self fun term hterm => ⟨rfl, ?_⟩) entropy
    exact Stage.songOf_agree h (fun name hsource => Pattern.mem_aliases hterm hsource) _
  · intro name other hname hrel
    have hsong : ∀ term term', Term.Unprefixed name term term' → term'.beat = term.beat ∧
        Stage.songOf ⟨song, table, options.repetition⟩ term' =
          Stage.songOf ⟨song, table, options.repetition⟩ term := fun term term' h =>
      ⟨h.beat_eq, Stage.songOf_unprefixed hname h _⟩
    exact render_congr (hrel.imp hsong) entropy

/-- Two shuffled beats, one of them random, and a mix with another song in between. A table with one
more song makes no difference, and the song at hand need not be named where it is. -/
theorem render_sources_two_beats :
    ∃ (song : Song) (table table' : SongTable) (pattern other : Pattern),
      table.get? "a" = some song ∧ table.get? "c" = none ∧ table'.get? "c" = some song ∧
      Pattern.ofText "[a]1r#x,[b]2;[a]i,[a]@1_2#x" = .ok pattern ∧
      Pattern.ofText "1r#x,[b]2;[a]i,@1_2#x" = .ok other ∧
      table.AgreeOn pattern.aliases table' ∧ pattern.Rel (Term.Unprefixed "a") other ∧
      render pattern song table' ⟨some 5, .fill, 1⟩ 0 =
        render pattern song table ⟨some 5, .fill, 1⟩ 0 ∧
      render other song table ⟨some 5, .fill, 1⟩ 0 =
        render pattern song table ⟨some 5, .fill, 1⟩ 0 := by
  have htext : Pattern.ofText "[a]1r#x,[b]2;[a]i,[a]@1_2#x" = .ok
      ⟨[.single ⟨some "a", { ref := .literal 1, effects := [.reverse], group := some "x" }⟩,
        .mix .sum [⟨some "b", { ref := .literal 2 }⟩, ⟨some "a", { ref := .position 0 }⟩],
        .single ⟨some "a", { ref := .random 1 2 1, group := some "x" }⟩]⟩ := by
    decide +kernel
  have hother : Pattern.ofText "1r#x,[b]2;[a]i,@1_2#x" = .ok
      ⟨[.single ⟨none, { ref := .literal 1, effects := [.reverse], group := some "x" }⟩,
        .mix .sum [⟨some "b", { ref := .literal 2 }⟩, ⟨some "a", { ref := .position 0 }⟩],
        .single ⟨none, { ref := .random 1 2 1, group := some "x" }⟩]⟩ := by
    decide +kernel
  have hrel : Pattern.Rel (Term.Unprefixed "a")
      ⟨[.single ⟨some "a", { ref := .literal 1, effects := [.reverse], group := some "x" }⟩,
        .mix .sum [⟨some "b", { ref := .literal 2 }⟩, ⟨some "a", { ref := .position 0 }⟩],
        .single ⟨some "a", { ref := .random 1 2 1, group := some "x" }⟩]⟩
      ⟨[.single ⟨none, { ref := .literal 1, effects := [.reverse], group := some "x" }⟩,
        .mix .sum [⟨some "b", { ref := .literal 2 }⟩, ⟨some "a", { ref := .position 0 }⟩],
        .single ⟨none, { ref := .random 1 2 1, group := some "x" }⟩]⟩ :=
    .cons (.single (.lost _)) <| .cons (.mix .sum (.cons (.same _) (.cons (.same _) .nil))) <|
      .cons (.single (.lost _)) .nil
  have hagree : SongTable.AgreeOn ["a", "b"]
      ((SongTable.empty.insert "a" ⟨⟨[[1, 0]], 1⟩, ⟨[0, 1, 2], 2⟩⟩).insert "b"
        ⟨⟨[[0, 1, 1]], 1⟩, ⟨[0, 1, 3], 3⟩⟩)
      (((SongTable.empty.insert "a" ⟨⟨[[1, 0]], 1⟩, ⟨[0, 1, 2], 2⟩⟩).insert "b"
        ⟨⟨[[0, 1, 1]], 1⟩, ⟨[0, 1, 3], 3⟩⟩).insert "c" ⟨⟨[[1, 0]], 1⟩, ⟨[0, 1, 2], 2⟩⟩) := by
    decide +kernel
  obtain ⟨htables, haliases⟩ := render_sources
    ⟨[.single ⟨some "a", { ref := .literal 1, effects := [.reverse], group := some "x" }⟩,
      .mix .sum [⟨some "b", { ref := .literal 2 }⟩, ⟨some "a", { ref := .position 0 }⟩],
      .single ⟨some "a", { ref := .random 1 2 1, group := some "x" }⟩]⟩
    ⟨⟨[[1, 0]], 1⟩, ⟨[0, 1, 2], 2⟩⟩
    ((SongTable.empty.insert "a" ⟨⟨[[1, 0]], 1⟩, ⟨[0, 1, 2], 2⟩⟩).insert "b"
      ⟨⟨[[0, 1, 1]], 1⟩, ⟨[0, 1, 3], 3⟩⟩) ⟨some 5, .fill, 1⟩ 0
  exact ⟨_, _, _, _, _, by decide +kernel, by decide +kernel, by decide +kernel, htext,
    hother, hagree, hrel, htables _ hagree, haliases "a" _ (by decide +kernel) hrel⟩

end Arranger

import Arranger.Proofs.Effect.Writing
import Arranger.Proofs.Pattern.Steps

/-!
# Patterns that can be written

What the grammar derives from scanned tokens has numbers, names and effects that can be read again
as they are written.

## Main definitions

* `Arranger.Pattern.hasInfinity` — whether a literal, a range or a gain of a pattern is infinite.
* `Arranger.BeatRef.Writable`, `Slice.Writable`, `Term.Writable`, `Step.Writable`,
  `Pattern.Writable` — what can be read again as it is written.

## Main results

* `Arranger.Grammar.Tree.writable_pattern` — derived patterns without infinities can be written.
-/

namespace Arranger

/-! ## Infinities in patterns -/

/-- Whether the reference has a number that is infinite. -/
def BeatRef.hasInfinity : BeatRef → Bool
  | literal number => number.isInfinite
  | position _ => false
  | random low high step => low.isInfinite || high.isInfinite || step.isInfinite

/-- Whether the beat or a gain of the term is infinite. -/
def Term.hasInfinity (term : Term) : Bool :=
  term.beat.ref.hasInfinity || term.beat.effects.any Effect.hasInfiniteGain

/-- Whether a literal, a bound or a step of a range, or a gain of the pattern is infinite. -/
def Pattern.hasInfinity (pattern : Pattern) : Bool :=
  pattern.terms.any Term.hasInfinity

/-! ## What can be written -/

/-- A beat reference that can be read again as it is written. -/
def BeatRef.Writable : BeatRef → Prop
  | literal number => number.isFinite = true
  | position offset => offset.natAbs ≤ maxOffset
  | random low high step =>
    (∀ x ∈ [low, high, step], x.isFinite = true ∧ x.isNegative = false) ∧
      0 < step ∧ low ≤ high ∧ ∃ count, choices? low high step = some count ∧ count ≤ maxChoices

/-- A slice that can be read again as it is written. -/
def Slice.Writable : Slice → Prop
  | head fraction | tail fraction =>
    (fraction.isFinite = true ∧ fraction.isNegative = false) ∧ 0 < fraction ∧ fraction ≤ 1

/-- A term that can be read again as it is written. -/
structure Term.Writable (term : Term) : Prop where
  /-- The alias is one. -/
  source : ∀ name ∈ term.source, (Lexeme.source name).Proper
  /-- The reference can be read again. -/
  ref : term.beat.ref.Writable
  /-- The slice can be read again. -/
  slice : ∀ slice ∈ term.beat.slice, slice.Writable
  /-- The effects can be read again. -/
  effects : ∀ effect ∈ term.beat.effects, effect.Writable
  /-- The name of the group is one. -/
  group : ∀ name ∈ term.beat.group, (Lexeme.group name).Proper

/-- A step that can be read again as it is written. -/
def Step.Writable : Step → Prop
  | single term => term.Writable
  | mix _ parts => 2 ≤ parts.length ∧ ∀ term ∈ parts, term.Writable ∧ term.beat.group = none

/-- A pattern that can be read again as it is written. -/
def Pattern.Writable (pattern : Pattern) : Prop :=
  pattern.steps ≠ [] ∧ ∀ step ∈ pattern.steps, step.Writable

/-! ## Numbers that are read -/

namespace Binary

variable {format : Format} {x : Binary format}

/-- The other sign does not change whether a number is infinite. -/
lemma isInfinite_neg : (-x).isInfinite = x.isInfinite := by
  cases x <;> rfl

end Binary

/-- An offset of the grammar is not too large. -/
lemma toWord_le_maxOffset {x : Double} (hwhole : x.isWhole = true)
    (hle : x ≤ Binary.ofNat maxOffset) (hsign : x.isNegative = false) : x.toWord ≤ maxOffset := by
  have hshort : maxOffset ≤ 2 ^ Format.double.precision := by decide
  obtain ⟨hx, hden⟩ := Bool.and_eq_true_iff.mp hwhole
  have hvalue : x.value = x.value.num := (Rat.den_eq_one_iff _).mp (by simpa using hden) |>.symm
  have hnonneg := Binary.value_nonneg hsign
  obtain ⟨n, hn⟩ := Int.eq_ofNat_of_zero_le (Rat.num_nonneg.mpr hnonneg)
  rw [hn] at hvalue
  rw [Binary.le_iff hx (Binary.isFinite_ofNat hshort), Binary.value_ofNat hshort, hvalue] at hle
  rw [Binary.toWord_of_value_eq hx (by exact_mod_cast hvalue)]
  exact (min_le_left _ _).trans (by exact_mod_cast hle)

/-- A fraction of the grammar can be read again. -/
lemma fraction_spec {x : Double} (hpos : 0 < x) (hle : x ≤ 1) :
    x.isFinite = true ∧ x.isNegative = false := by
  have hfinite := Binary.isFinite_of_le (Binary.zero_spec _).1 (Binary.one_spec _).1
    (Binary.le_of_lt hpos) hle
  exact ⟨hfinite, Binary.isNegative_of_pos ((Binary.pos_iff hfinite).mp hpos)⟩

namespace Grammar

/-! ## Parts of a term -/

/-- A letter has no number or the one of the word. -/
lemma snd_of_mem_numbered {parameter : Option Double} {letters : List Char}
    {code : Char × Option Double} (h : code ∈ numbered parameter letters) :
    code.2 = none ∨ code.2 = parameter := by
  induction letters with
  | nil => cases h
  | cons letter letters ih =>
    rcases List.mem_cons.mp h with rfl | h
    · dsimp only
      split_ifs
      · exact .inr rfl
      · exact .inl rfl
    · exact ih h

/-- The effects of a word can be read again, if their gain is not infinite. -/
lemma Word.writable_of_mem_effects {word : Word} {lead : List Char}
    (hproper : ∀ lexeme ∈ word.lexemes lead, lexeme.Proper) {effect : Effect}
    (hmem : effect ∈ word.effects) (hgain : effect.hasInfiniteGain = false) :
    effect.Writable := by
  obtain ⟨code, hcode, hof⟩ := List.mem_filterMap.mp hmem
  have hok : Effect.ofCode code.1 code.2 = .ok effect := by
    cases hof' : Effect.ofCode code.1 code.2 with
    | error rejection => rw [hof'] at hof; cases hof
    | ok effect' => rw [hof'] at hof; cases hof; rfl
  refine Effect.writable_of_ofCode hok ?_ hgain
  intro x hx
  rcases snd_of_mem_numbered hcode with hnone | hparameter
  · rw [hnone] at hx
    cases hx
  · rw [hparameter] at hx
    refine (hproper (.number x) ?_).2
    rw [Word.lexemes, Option.mem_def.mp hx]
    exact List.mem_cons_of_mem _ (List.mem_singleton_self _)

/-- References can be read again, if they are not infinite. -/
lemma Reference.writable_ref {reference : Reference}
    (hproper : ∀ lexeme ∈ reference.lexemes, lexeme.Proper) (h : reference.Admissible)
    (hfinite : reference.ref.hasInfinity = false) : reference.ref.Writable := by
  cases reference with
  | number value =>
    exact Binary.isFinite_of_not_isInfinite (hproper _ (List.mem_singleton_self _)).1 hfinite
  | negative value =>
    show (-value).isFinite = true
    rw [Binary.isFinite_neg]
    refine Binary.isFinite_of_not_isInfinite (hproper (.number value) (by simp [lexemes])).1 ?_
    rw [← Binary.isInfinite_neg]
    exact hfinite
  | position offset =>
    cases offset with
    | none => exact Nat.zero_le _
    | some signed =>
      obtain ⟨sign, value⟩ := signed
      obtain ⟨hwhole, hle⟩ := h _ rfl
      have hvalue := hproper (.number value) (by simp [lexemes, optional, offsetLexemes])
      have hword := toWord_le_maxOffset hwhole hle hvalue.2
      show (sign.apply value.toWord).natAbs ≤ maxOffset
      cases sign with
      | plus => simpa [Sign.apply] using hword
      | minus => simpa [Sign.apply] using hword
  | glued word => exact Nat.zero_le _
  | random low high step =>
    change (low.isInfinite || high.isInfinite || (step.getD 1).isInfinite) = false at hfinite
    rw [Bool.or_eq_false_iff, Bool.or_eq_false_iff] at hfinite
    obtain ⟨⟨hlowFinite, hhighFinite⟩, hstepFinite⟩ := hfinite
    have hlow := hproper (.number low) (by simp [lexemes])
    have hhigh := hproper (.number high) (by simp [lexemes])
    have hstep : step.getD 1 ≠ .nan ∧ (step.getD 1).isNegative = false := by
      cases step with
      | none =>
        obtain ⟨hone, -, hsign⟩ := Binary.one_spec .double
        exact ⟨Binary.ne_nan hone, hsign⟩
      | some value => exact hproper (.number value) (by simp [lexemes, optional, stepLexemes])
    refine ⟨?_, h⟩
    rw [List.forall_mem_cons, List.forall_mem_cons, List.forall_mem_singleton]
    exact ⟨⟨Binary.isFinite_of_not_isInfinite hlow.1 hlowFinite, hlow.2⟩,
      ⟨Binary.isFinite_of_not_isInfinite hhigh.1 hhighFinite, hhigh.2⟩,
      ⟨Binary.isFinite_of_not_isInfinite hstep.1 hstepFinite, hstep.2⟩⟩

/-- Slices can be read again. -/
lemma Suffix.writable_of_slice? {suffix : Suffix} {slice : Slice} (h : suffix.Admissible)
    (hslice : suffix.slice? = some slice) : slice.Writable := by
  cases suffix with
  | head fraction => cases hslice; exact ⟨fraction_spec h.1 h.2, h⟩
  | tail fraction => cases hslice; exact ⟨fraction_spec h.1 h.2, h⟩
  | effects word => cases hslice
  | silent => cases hslice
  | uncounted => cases hslice
  | group name => cases hslice

/-- The names of groups are proper. -/
lemma Suffix.proper_of_group? {suffix : Suffix} {name : String}
    (hproper : ∀ lexeme ∈ suffix.lexemes, lexeme.Proper) (hgroup : suffix.group? = some name) :
    (Lexeme.group name).Proper := by
  cases suffix with
  | group name' => cases hgroup; exact hproper _ (List.mem_singleton_self _)
  | effects word => cases hgroup
  | head fraction => cases hgroup
  | tail fraction => cases hgroup
  | silent => cases hgroup
  | uncounted => cases hgroup

section Effects

variable {effect : Effect}

/-- The effects of a suffix can be read again. -/
lemma Suffix.writable_of_mem_effectList {suffix : Suffix}
    (hproper : ∀ lexeme ∈ suffix.lexemes, lexeme.Proper) (hmem : effect ∈ suffix.effectList)
    (hgain : effect.hasInfiniteGain = false) : effect.Writable := by
  cases suffix with
  | effects word => exact Word.writable_of_mem_effects hproper hmem hgain
  | head fraction => cases hmem
  | tail fraction => cases hmem
  | silent => cases hmem
  | uncounted => cases hmem
  | group name => cases hmem

/-- The effects in one word with a position can be read again. -/
lemma Reference.writable_of_mem_effectList {reference : Reference}
    (hproper : ∀ lexeme ∈ reference.lexemes, lexeme.Proper) (hmem : effect ∈ reference.effectList)
    (hgain : effect.hasInfiniteGain = false) : effect.Writable := by
  cases reference with
  | glued word => exact Word.writable_of_mem_effects hproper hmem hgain
  | number value => cases hmem
  | negative value => cases hmem
  | position offset => cases hmem
  | random low high step => cases hmem

end Effects

/-! ## Terms, steps and patterns -/

/-- The slice of a term can be read again. -/
lemma Phrase.writable_of_mem_slice {phrase : Phrase} (h : phrase.Admissible) {slice : Slice}
    (hslice : slice ∈ phrase.term.beat.slice) : slice.Writable := by
  obtain ⟨suffix, hmem, hslice⟩ := List.mem_filterMap.mp (List.mem_of_head? hslice)
  exact Suffix.writable_of_slice? (h.suffixes suffix hmem) hslice

section Lexemes

variable {phrase : Phrase} (hproper : ∀ lexeme ∈ phrase.lexemes, lexeme.Proper)

include hproper

/-- The lexemes of a reference are proper, if those of its term are. -/
lemma Phrase.proper_reference : ∀ lexeme ∈ phrase.reference.lexemes, lexeme.Proper :=
  fun lexeme hmem => hproper lexeme (by simp [lexemes, hmem])

/-- The lexemes of a suffix are proper, if those of its term are. -/
lemma Phrase.proper_suffix : ∀ suffix ∈ phrase.suffixes, ∀ lexeme ∈ suffix.lexemes,
    lexeme.Proper := fun suffix hmem lexeme hlexeme =>
  hproper lexeme (List.mem_append_right _ (List.mem_flatMap.mpr ⟨suffix, hmem, hlexeme⟩))

/-- The effects of a term can be read again, if their gain is not infinite. -/
lemma Phrase.writable_of_mem_effects {effect : Effect} (hmem : effect ∈ phrase.term.beat.effects)
    (hgain : effect.hasInfiniteGain = false) : effect.Writable := by
  rcases List.mem_append.mp hmem with hmem | hmem
  · exact Reference.writable_of_mem_effectList (proper_reference hproper) hmem hgain
  · obtain ⟨suffix, hsuffix, hmem⟩ := List.mem_flatMap.mp hmem
    exact Suffix.writable_of_mem_effectList (proper_suffix hproper suffix hsuffix) hmem hgain

/-- Terms can be read again, if they have no infinity. -/
lemma Phrase.writable_term (h : phrase.Admissible) (hfinite : phrase.term.hasInfinity = false) :
    phrase.term.Writable := by
  obtain ⟨href, hgains⟩ := Bool.or_eq_false_iff.mp hfinite
  refine ⟨?_, Reference.writable_ref (proper_reference hproper) h.reference href, ?_, ?_, ?_⟩
  · intro name hname
    have hsource : phrase.source = some name := hname
    exact hproper _ (by simp [lexemes, optional, hsource])
  · exact fun slice hslice => writable_of_mem_slice h hslice
  · intro effect hmem
    have hgain : effect.hasInfiniteGain = false := by
      simpa using List.any_eq_false.mp hgains effect hmem
    exact writable_of_mem_effects hproper hmem hgain
  · intro name hname
    obtain ⟨suffix, hmem, hgroup⟩ := List.mem_filterMap.mp (List.mem_of_head? hname)
    exact Suffix.proper_of_group? (proper_suffix hproper suffix hmem) hgroup

end Lexemes

/-- The terms of a step. -/
def Group.phrases : Group → List Phrase
  | single phrase => [phrase]
  | mixed _ first second more => first :: second :: more

section Phrases

variable {group : Group} {phrase : Phrase} (hphrase : phrase ∈ group.phrases)

include hphrase

/-- The lexemes of a term are among those of its step. -/
lemma Group.mem_lexemes {lexeme : Lexeme} (hmem : lexeme ∈ phrase.lexemes) :
    lexeme ∈ group.lexemes := by
  cases group with
  | single phrase' =>
    obtain rfl := List.mem_singleton.mp hphrase
    exact hmem
  | mixed mode first second more =>
    rcases List.mem_cons.mp hphrase with rfl | hphrase
    · exact List.mem_append_left _ hmem
    · exact List.mem_append_right _
        (List.mem_flatMap.mpr ⟨phrase, hphrase, List.mem_cons_of_mem _ hmem⟩)

/-- The terms of an admissible step are admissible. -/
lemma Group.admissible_of_mem_phrases (h : group.Admissible) : phrase.Admissible := by
  cases group with
  | single phrase' =>
    obtain rfl := List.mem_singleton.mp hphrase
    exact h
  | mixed mode first second more => exact (h phrase hphrase).1

/-- The lexemes of a term are proper, if those of its step are that end no term. -/
lemma Group.proper_of_mem_phrases
    (hproper : ∀ lexeme ∈ group.lexemes, lexeme.endsTerm = false → lexeme.Proper) :
    ∀ lexeme ∈ phrase.lexemes, lexeme.Proper := fun lexeme hmem =>
  hproper lexeme (Group.mem_lexemes hphrase hmem) (phrase.endsTerm_lexemes lexeme hmem)

end Phrases

/-- The terms that a step denotes. -/
lemma Group.terms_step (group : Group) : group.step.terms = group.phrases.map Phrase.term := by
  cases group <;> rfl

/-- The lexemes of a step are among those of its pattern. -/
lemma Tree.mem_lexemes {tree : Tree} {group : Group} (hgroup : group ∈ tree.first :: tree.more)
    {lexeme : Lexeme} (hmem : lexeme ∈ group.lexemes) : lexeme ∈ tree.lexemes := by
  rcases List.mem_cons.mp hgroup with rfl | hgroup
  · exact List.mem_append_left _ hmem
  · exact List.mem_append_right _ (List.mem_append_left _
      (List.mem_flatMap.mpr ⟨group, hgroup, List.mem_cons_of_mem _ hmem⟩))

/-- Steps can be read again, if they have no infinity. -/
lemma Group.writable_step {group : Group}
    (hproper : ∀ lexeme ∈ group.lexemes, lexeme.endsTerm = false → lexeme.Proper)
    (h : group.Admissible) (hfinite : ∀ term ∈ group.step.terms, term.hasInfinity = false) :
    group.step.Writable := by
  have hterm : ∀ phrase ∈ group.phrases, phrase.term.Writable := by
    intro phrase hphrase
    refine Phrase.writable_term (Group.proper_of_mem_phrases hphrase hproper)
      (Group.admissible_of_mem_phrases hphrase h) ?_
    rw [Group.terms_step] at hfinite
    exact hfinite _ (List.mem_map_of_mem hphrase)
  cases group with
  | single phrase => exact hterm phrase (List.mem_singleton_self _)
  | mixed mode first second more =>
    refine ⟨by simp, ?_⟩
    intro term hmem
    obtain ⟨phrase, hphrase, rfl⟩ := List.mem_map.mp hmem
    refine ⟨hterm phrase hphrase, ?_⟩
    show phrase.groups.head? = none
    rw [(h phrase hphrase).2]
    rfl

/-- **Derived patterns can be read again**, if they have no infinity. -/
theorem Tree.writable_pattern {tree : Tree}
    (hproper : ∀ lexeme ∈ tree.lexemes, lexeme.endsTerm = false → lexeme.Proper)
    (h : tree.Admissible) (hfinite : tree.pattern.hasInfinity = false) : tree.pattern.Writable := by
  refine ⟨by simp [pattern], ?_⟩
  intro step hmem
  obtain ⟨group, hgroup, rfl⟩ := List.mem_map.mp hmem
  refine Group.writable_step (fun lexeme hlexeme => ?_) (h group hgroup) ?_
  · exact hproper lexeme (Tree.mem_lexemes hgroup hlexeme)
  · intro term hterm
    simpa using List.any_eq_false.mp hfinite term (List.mem_flatMap.mpr ⟨_, hmem, hterm⟩)

end Grammar

/-- Scanned tokens that end no term are proper. -/
lemma Scanned.proper {tokens : List Token} (h : Scanned tokens) :
    ∀ lexeme ∈ tokens.map Token.lexeme, lexeme.endsTerm = false → lexeme.Proper := by
  induction h with
  | stop position =>
    rw [List.map_singleton, List.forall_mem_singleton]
    intro hends
    cases hends
  | cons hproper hscanned ih =>
    rw [List.map_cons, List.forall_mem_cons]
    exact ⟨fun _ => hproper, ih⟩

end Arranger

import Arranger.Proofs.Effect.Writing
import Arranger.Proofs.Pattern.Grammar
import Arranger.Proofs.Pattern.Scanning

/-!
# Effects in words

Effects are written one behind the other. The letters of those without a number run together with
the letters behind them, so that what is written is a list of words.

## Main definitions

* `Arranger.Grammar.spell` — the words that effects are written in.
* `Arranger.Grammar.ledLexemes` — the lexemes of words with more letters in front.

## Main results

* `Arranger.Grammar.spell_spec` — the words denote the effects.
* `Arranger.Grammar.scans_words` — what is written is scanned as the words.
-/

namespace Arranger

namespace Grammar

/-! ## Words of effects -/

/-- The words that effects are written in. A letter without a number joins the word behind it. -/
def spell : List Effect → List Word
  | [] => []
  | effect :: effects =>
    match effect.parameter?, spell effects with
    | none, word :: words => ⟨effect.code, word.letters, word.parameter⟩ :: words
    | parameter, words => ⟨effect.code, [], parameter⟩ :: words

/-- An effect with a number is a word of its own. -/
lemma spell_of_some {effect : Effect} {x : Double} (effects : List Effect)
    (h : effect.parameter? = some x) :
    spell (effect :: effects) = ⟨effect.code, [], some x⟩ :: spell effects := by
  rw [spell, h]

/-- The last effect is a word of its own. -/
lemma spell_singleton (effect : Effect) :
    spell [effect] = [⟨effect.code, [], effect.parameter?⟩] := by
  rw [spell, spell]
  cases effect.parameter? <;> rfl

/-- Another effect without a number joins the first word. -/
lemma spell_of_none {effect : Effect} {effects : List Effect} {word : Word} {words : List Word}
    (h : effect.parameter? = none) (hwords : spell effects = word :: words) :
    spell (effect :: effects) = ⟨effect.code, word.letters, word.parameter⟩ :: words := by
  rw [spell, h, hwords]

/-- Effects are written in at least one word. -/
lemma exists_spell_eq_cons {effects : List Effect} (h : effects ≠ []) :
    ∃ word words, spell effects = word :: words := by
  obtain ⟨effect, effects, rfl⟩ := List.exists_cons_of_ne_nil h
  rw [spell]
  split
  · exact ⟨_, _, rfl⟩
  · exact ⟨_, _, rfl⟩

/-! ## What the words denote -/

/-- The word of one letter denotes its effect. -/
lemma Word.effects_of_ofCode {code : Char} {parameter : Option Double} {effect : Effect}
    (h : Effect.ofCode code parameter = .ok effect) :
    Word.effects ⟨code, [], parameter⟩ = [effect] ∧ Word.Admissible ⟨code, [], parameter⟩ := by
  constructor
  · simp [Word.effects, Word.letters, numbered, h, Except.toOption]
  · simp [Word.Admissible, Word.letters, numbered, h]

/-- One more letter in front denotes one more effect in front. -/
lemma Word.effects_cons_of_ofCode {code : Char} {effect : Effect} (word : Word)
    (h : Effect.ofCode code none = .ok effect) :
    Word.effects ⟨code, word.letters, word.parameter⟩ = effect :: word.effects ∧
      (Word.Admissible ⟨code, word.letters, word.parameter⟩ ↔ word.Admissible) := by
  have hnumbered : numbered word.parameter (code :: word.letters) =
      (code, none) :: numbered word.parameter word.letters := rfl
  constructor
  · unfold Word.effects
    rw [show Word.letters ⟨code, word.letters, word.parameter⟩ = code :: word.letters from rfl,
      hnumbered, List.filterMap_cons_some (by rw [h]; rfl)]
  · unfold Word.Admissible
    rw [show Word.letters ⟨code, word.letters, word.parameter⟩ = code :: word.letters from rfl,
      hnumbered, List.forall_mem_cons]
    exact and_iff_right ⟨effect, h⟩

/-- **The words denote the effects that they are written for.** -/
lemma spell_spec {effects : List Effect} (h : ∀ effect ∈ effects, effect.Writable) :
    (spell effects).flatMap Word.effects = effects ∧ ∀ word ∈ spell effects, word.Admissible := by
  induction effects with
  | nil => exact ⟨rfl, by rintro word ⟨⟩⟩
  | cons effect effects ih =>
    rw [List.forall_mem_cons] at h
    obtain ⟨heffects, hadmissible⟩ := ih h.2
    have hreads := h.1.reads
    have hone := Word.effects_of_ofCode hreads
    cases hparameter : effect.parameter? with
    | some x =>
      rw [hparameter] at hone
      rw [spell_of_some effects hparameter, List.flatMap_cons, heffects, hone.1,
        List.forall_mem_cons]
      exact ⟨rfl, hone.2, hadmissible⟩
    | none =>
      rcases eq_or_ne effects [] with rfl | hne
      · rw [spell_singleton, List.flatMap_singleton, List.forall_mem_singleton]
        exact hone
      · obtain ⟨word, words, hwords⟩ := exists_spell_eq_cons hne
        rw [hparameter] at hreads
        have hmore := Word.effects_cons_of_ofCode word hreads
        rw [hwords, List.flatMap_cons] at heffects
        rw [hwords, List.forall_mem_cons] at hadmissible
        rw [spell_of_none hparameter hwords, List.flatMap_cons, hmore.1, List.cons_append, heffects,
          List.forall_mem_cons, hmore.2]
        exact ⟨rfl, hadmissible⟩

/-! ## Scanning words -/

/-- The lexemes of words with more letters in front of the first one. -/
def ledLexemes (lead : List Char) : List Word → List Lexeme
  | [] => []
  | word :: words => word.lexemes lead ++ words.flatMap (Word.lexemes [])

/-- Without more letters these are the lexemes of the words. -/
lemma ledLexemes_nil (words : List Word) : ledLexemes [] words = words.flatMap (Word.lexemes []) := by
  cases words <;> rfl

/-- What is written for effects starts with a letter. -/
lemma head_effects {effects : List Effect} {rest : List Char}
    (h : ∀ effect ∈ effects, effect.Writable) {c : Char}
    (hc : c ∈ (effects.flatMap Effect.write ++ rest).head?) :
    isLetterChar c = true ∨ c ∈ rest.head? := by
  cases effects with
  | nil => exact .inr hc
  | cons effect effects =>
    cases hc
    exact .inl (h effect (List.mem_cons_self ..)).letter

/-- **What is written for effects is scanned as their words**, where no letter and no numeral goes
on.

**Proof sketch.** Induction on the effects, for any letters in front. An effect with a number ends
the word and the others start a new one; an effect without a number hands its letter on. -/
lemma scans_effects {effects : List Effect} {rest : List Char} {lexemes : List Lexeme}
    (h : ∀ effect ∈ effects, effect.Writable) (hne : effects ≠ [])
    (hletter : ∀ c ∈ rest.head?, isLetterChar c = false)
    (hnumber : ∀ c ∈ rest.head?, continuesNumber c = false) (hrest : Scans rest lexemes)
    (lead : List Char) (hlead : ∀ c ∈ lead, isLetterChar c = true) :
    Scans (lead ++ (effects.flatMap Effect.write ++ rest))
      (ledLexemes lead (spell effects) ++ lexemes) := by
  induction effects generalizing lead with
  | nil => exact absurd rfl hne
  | cons effect effects ih =>
    rw [List.forall_mem_cons] at h
    have hled : ∀ c ∈ lead ++ [effect.code], isLetterChar c = true := by
      rw [List.forall_mem_append, List.forall_mem_singleton]
      exact ⟨hlead, h.1.letter⟩
    have hledNe : lead ++ [effect.code] ≠ [] := by simp
    cases hparameter : effect.parameter? with
    | some x =>
      obtain ⟨hfinite, hsign⟩ := h.1.parameter x hparameter
      have htail : Scans (effects.flatMap Effect.write ++ rest)
          ((spell effects).flatMap (Word.lexemes []) ++ lexemes) := by
        rcases eq_or_ne effects [] with rfl | hne'
        · exact hrest
        · have hscans := ih h.2 hne' [] (by rintro c ⟨⟩)
          rwa [List.nil_append, ledLexemes_nil] at hscans
      have hnumeral : ∀ c ∈ (effects.flatMap Effect.write ++ rest).head?,
          continuesNumber c = false := by
        intro c hc
        rcases head_effects h.2 hc with hc | hc
        · exact not_continuesNumber_of_letter hc
        · exact hnumber c hc
      have hscans := scans_word hledNe hled (head_writeNumber hfinite hsign)
        (scans_number hfinite hsign hnumeral htail)
      rw [spell_of_some effects hparameter]
      simpa [Effect.write, hparameter, ledLexemes, Word.lexemes, Word.letters, optional,
        writeNumber] using hscans
    | none =>
      rcases eq_or_ne effects [] with rfl | hne'
      · have hscans := scans_word hledNe hled hletter hrest
        rw [spell_singleton]
        simpa [Effect.write, hparameter, ledLexemes, Word.lexemes, Word.letters, optional] using hscans
      · obtain ⟨word, words, hwords⟩ := exists_spell_eq_cons hne'
        have hscans := ih h.2 hne' _ hled
        rw [hwords] at hscans
        rw [spell_of_none hparameter hwords]
        simpa [Effect.write, hparameter, ledLexemes, Word.lexemes, Word.letters, optional] using hscans

/-- What is written for any number of effects is scanned as their words. -/
lemma scans_words {effects : List Effect} {rest : List Char} {lexemes : List Lexeme}
    (h : ∀ effect ∈ effects, effect.Writable) (hletter : ∀ c ∈ rest.head?, isLetterChar c = false)
    (hnumber : ∀ c ∈ rest.head?, continuesNumber c = false) (hrest : Scans rest lexemes) :
    Scans (effects.flatMap Effect.write ++ rest)
      ((spell effects).flatMap (Word.lexemes []) ++ lexemes) := by
  rcases eq_or_ne effects [] with rfl | hne
  · exact hrest
  · have hscans := scans_effects h hne hletter hnumber hrest [] (by rintro c ⟨⟩)
    rwa [List.nil_append, ledLexemes_nil] at hscans

end Grammar

end Arranger

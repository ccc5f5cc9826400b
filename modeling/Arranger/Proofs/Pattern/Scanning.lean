import Arranger.Proofs.Pattern.Numerals
import Arranger.Proofs.Pattern.Tokens

/-!
# Scanning what is written

For each kind of lexeme, the characters that it is written with are scanned as it, if what stands
behind them does not go on with it.

## Main definitions

* `Arranger.Scans` — characters are scanned as lexemes, wherever they stand.

## Main results

* `Arranger.scans_char`, `scans_word`, `scans_number`, `scans_group`, `scans_source` — one lexeme
  with other characters behind it.
-/

namespace Arranger

/-! ## Characters -/

/-- A letter does not go on with a number. -/
lemma not_continuesNumber_of_letter {c : Char} (h : isLetterChar c = true) :
    continuesNumber c = false := by
  have hpoint : c ≠ '.' := by rintro rfl; exact absurd h (by decide)
  simp [continuesNumber, not_digit_of_letter h, hpoint]

/-- The first character of a number is no letter. -/
lemma head_writeNumber {x : Double} {rest : List Char} (hx : x.isFinite = true)
    (hsign : x.isNegative = false) :
    ∀ c ∈ (writeNumber x ++ rest).head?, isLetterChar c = false := by
  obtain ⟨value, hspells, _⟩ := spells_writeNumber hx hsign
  obtain ⟨first, more, hfirst, hdigit⟩ := hspells.exists_cons
  rw [hfirst]
  rintro c ⟨⟩
  rw [Bool.eq_false_iff]
  intro hletter
  rw [not_digit_of_letter hletter] at hdigit
  cases hdigit

/-! ## Scanning from any position -/

/-- The characters are scanned as the lexemes, wherever they stand. -/
def Scans (cs : List Char) (lexemes : List Lexeme) : Prop :=
  ∀ position, ∃ tokens, scanFrom position cs = .ok tokens ∧ tokens.map Token.lexeme = lexemes

/-- No characters are scanned as the end of the text. -/
lemma scans_nil : Scans [] [.stop] := by
  intro position
  exact ⟨_, by rw [scanFrom], rfl⟩

/-! ## Kinds of tokens -/

/-- **A spelling is scanned** where the next character does not go on with it. -/
lemma scans_of_spelling {cs rest : List Char} {lexeme : Lexeme} {lexemes : List Lexeme}
    (hcs : lexeme.Spelling cs) (hrest : ∀ c ∈ rest.head?, lexeme.goesOn cs c = false)
    (h : Scans rest lexemes) : Scans (cs ++ rest) (lexeme :: lexemes) := by
  obtain ⟨first, more, rfl, hblank⟩ := hcs.exists_cons
  intro position
  obtain ⟨tokens, htokens, hlexemes⟩ := h (position + 1 + more.length)
  refine ⟨⟨lexeme, position⟩ :: tokens, ?_, by rw [List.map_cons, hlexemes]⟩
  rw [List.cons_append, scanFrom_of_scanToken hblank (scanToken_of_spelling hcs hrest position),
    htokens]
  rfl

/-- A token of a single character is scanned. -/
lemma scans_char {c : Char} {rest : List Char} {lexeme : Lexeme} {lexemes : List Lexeme}
    (hc : Lexeme.ofChar? c = some lexeme) (h : Scans rest lexemes) :
    Scans (c :: rest) (lexeme :: lexemes) := by
  have hmark := Lexeme.ofChar?_eq_some_iff.mp hc
  refine scans_of_spelling (.mark hmark) (fun c _ => ?_) h
  cases lexeme <;> first | rfl | cases hmark

/-- A word is scanned where no letter follows. -/
lemma scans_word {letters rest : List Char} {lexemes : List Lexeme} (hne : letters ≠ [])
    (hletters : ∀ c ∈ letters, isLetterChar c = true)
    (hrest : ∀ c ∈ rest.head?, isLetterChar c = false) (h : Scans rest lexemes) :
    Scans (letters ++ rest) (.word (String.ofList letters) :: lexemes) :=
  scans_of_spelling (.word hne hletters) hrest h

/-- What characters spell is scanned where no digit and no point follows. -/
lemma scans_spelled {cs rest : List Char} {value : ℚ} {lexemes : List Lexeme}
    (hcs : Spells cs value) (hrest : ∀ c ∈ rest.head?, continuesNumber c = false)
    (h : Scans rest lexemes) : Scans (cs ++ rest) (.number (Binary.round value) :: lexemes) := by
  have hspelling : (Lexeme.number (Binary.round value)).Spelling cs := by
    cases hcs with
    | whole hne hdigits => exact .whole hne hdigits
    | fraction hne hdigits hplaces => exact .point (by simp [hne]) hdigits hplaces
  exact scans_of_spelling hspelling (fun c hc => Lexeme.not_goesOn_number (hrest c hc) _ _) h

/-- A number is scanned where no digit and no point follows. -/
lemma scans_number {x : Double} {rest : List Char} {lexemes : List Lexeme}
    (hx : x.isFinite = true) (hsign : x.isNegative = false)
    (hrest : ∀ c ∈ rest.head?, continuesNumber c = false) (h : Scans rest lexemes) :
    Scans (writeNumber x ++ rest) (.number x :: lexemes) := by
  obtain ⟨value, hspells, hvalue⟩ := spells_writeNumber hx hsign
  have hscans := scans_spelled hspells hrest h
  rwa [hvalue] at hscans

/-- A natural number is scanned where no digit and no point follows. -/
lemma scans_toDigits (n : ℕ) {rest : List Char} {lexemes : List Lexeme}
    (hrest : ∀ c ∈ rest.head?, continuesNumber c = false) (h : Scans rest lexemes) :
    Scans (Nat.toDigits 10 n ++ rest) (.number (Binary.ofNat n) :: lexemes) :=
  scans_spelled (spells_toDigits n) hrest h

/-- A group mark is scanned where no character of a name follows. -/
lemma scans_group {name rest : List Char} {lexemes : List Lexeme} (hne : name ≠ [])
    (hname : ∀ c ∈ name, isGroupChar c = true)
    (hrest : ∀ c ∈ rest.head?, isGroupChar c = false) (h : Scans rest lexemes) :
    Scans ('#' :: name ++ rest) (.group (String.ofList name) :: lexemes) :=
  scans_of_spelling (.group hne hname) hrest h

/-- An alias is scanned. -/
lemma scans_source {name rest : List Char} {lexemes : List Lexeme} (hne : name ≠ [])
    (hname : ∀ c ∈ name, isAliasChar c = true) (h : Scans rest lexemes) :
    Scans ('[' :: name ++ ']' :: rest) (.source (String.ofList name) :: lexemes) := by
  have hnone : ∀ c ∈ ([] : List Char), isBlank c = true := by simp
  have hspelling := Lexeme.Spelling.source hne hnone hname hnone
  have hscans := scans_of_spelling hspelling (fun _ _ => rfl) h
  simpa using hscans

end Arranger

import Arranger.Pattern.Compiling
import Arranger.Proofs.Pattern.Alike
import Arranger.Proofs.Pattern.Commas

/-!
# Blanks between tokens

Blanks in front of a token move it and all tokens behind it, and change nothing else: no token goes
on with a blank, and no reader decides anything by a position.

## Main definitions

* `Arranger.insertAt` — a text with characters put into it.
* `Arranger.Token.moved`, `PatternError.movedFrom` — a token and an error where they are then.

## Main results

* `Arranger.LaidOut.insert` — tokens laid out over characters with blanks in front of one of them.
* `Arranger.Pattern.ofText_insertAt_blanks` — the tokens and the pattern of a text with blanks in
  front of a token.
-/

namespace Arranger

open List (Forall₂)

/-! ## Places that move -/

/-- The text with other characters in front of the one at a position. -/
def insertAt (text : String) (position : ℕ) (inserted : String) : String :=
  String.ofList (text.toList.take position ++ inserted.toList ++ text.toList.drop position)

/-- Where a position is when so many characters come in at a start. -/
def moveFrom (start amount position : ℕ) : ℕ :=
  if position < start then position else position + amount

/-- The token with so many characters in front of it. -/
def Token.moved (amount : ℕ) (token : Token) : Token :=
  { token with position := token.position + amount }

/-- The same error where it is when so many characters come in at a start. -/
def PatternError.movedFrom (start amount : ℕ) (error : PatternError) : PatternError :=
  { error with position := moveFrom start amount error.position }

/-! ## Layouts that move -/

/-- Neither a name nor a word nor a number goes on with a blank. -/
lemma breaks_of_blank {c : Char} (h : isBlank c = true) : breaks c = true := by
  by_contra hnot
  have hvisible : 33 ≤ c.toNat ∧ c.toNat ≤ 126 := by
    rw [breaks, Bool.and_eq_true, Bool.not_eq_true', isGroupChar, Bool.or_eq_false_iff,
      Bool.or_eq_false_iff, bne_iff_ne, beq_eq_false_iff_ne] at hnot
    by_cases hdigit : isDigitChar c = true
    · have := toNat_of_isDigitChar hdigit
      omega
    · by_cases hletter : isLetterChar c = true
      · have := toNat_of_isLetterChar hletter
        omega
      · obtain rfl | rfl : c = '_' ∨ c = '.' := by
          simpa [hdigit, hletter, imp_iff_not_or] using hnot
        · decide
        · decide
  rw [isBlank_of_visible hvisible.1 hvisible.2] at h
  cases h

/-- Blanks may be in front of the tokens. -/
lemma LaidOut.blanks {blanks : List Char} (hblanks : ∀ c ∈ blanks, isBlank c = true)
    {position : ℕ} {cs : List Char} {tokens : List Token}
    (h : LaidOut (position + blanks.length) cs tokens) : LaidOut position (blanks ++ cs) tokens := by
  induction blanks generalizing position with
  | nil => exact h
  | cons c blanks ih =>
    rw [List.forall_mem_cons] at hblanks
    rw [List.length_cons, Nat.add_comm blanks.length, ← Nat.add_assoc] at h
    exact .blank hblanks.1 (ih hblanks.2 h)

/-- Tokens may be laid out over the same characters at other positions. -/
lemma LaidOut.moved (amount : ℕ) {position : ℕ} {cs : List Char} {tokens : List Token}
    (h : LaidOut position cs tokens) :
    LaidOut (position + amount) cs (tokens.map (Token.moved amount)) := by
  induction h with
  | stop position => exact .stop _
  | blank hblank _ ih =>
    rw [Nat.add_right_comm] at ih
    exact .blank hblank ih
  | token hblank htoken _ ih =>
    rw [Nat.add_right_comm, Nat.add_right_comm _ 1 amount] at ih
    exact .token hblank (scanToken_next (fun c hc => .inl hc) htoken _) ih

/-- **Blanks in front of a token move it and all tokens behind it.**

**Proof sketch.** By induction on the layout. A token in front of the blanks does not go on with
them. From the place of the blanks on the same layout is moved as a whole. -/
lemma LaidOut.insert {blanks : List Char} (hblanks : ∀ c ∈ blanks, isBlank c = true)
    {position : ℕ} {cs : List Char} {before after : List Token} {token : Token}
    (h : LaidOut position cs (before ++ token :: after)) :
    ∃ front back, cs = front ++ back ∧ token.position = position + front.length ∧
      LaidOut position (front ++ blanks ++ back)
        (before ++ (token :: after).map (Token.moved blanks.length)) := by
  generalize htokens : before ++ token :: after = tokens at h
  induction h generalizing before with
  | stop position =>
    obtain ⟨rfl, htoken⟩ : before = [] ∧ token :: after = [⟨.stop, position⟩] := by
      rcases List.append_eq_singleton_iff.mp htokens with h | ⟨-, h⟩
      · exact h
      · cases h
    rw [htoken]
    cases htoken
    exact ⟨[], [], rfl, rfl, .blanks hblanks (.stop _)⟩
  | @blank _ c _ _ hblank _ ih =>
    obtain ⟨front, back, rfl, hposition, hlaid⟩ := ih htokens
    refine ⟨c :: front, back, rfl, ?_, .blank hblank hlaid⟩
    rw [hposition, List.length_cons]
    omega
  | @token position first more rest lexeme tokens hblank htoken hlaid ih =>
    cases before with
    | nil =>
      -- the blanks are in front of this token, so it is moved with all behind it
      rw [List.nil_append] at htokens
      rw [htokens]
      cases htokens
      exact ⟨[], _, rfl, rfl, .blanks hblanks ((LaidOut.token hblank htoken hlaid).moved _)⟩
    | cons other before =>
      obtain ⟨rfl, hothers⟩ := List.cons.inj htokens
      obtain ⟨front, back, rfl, hposition, hinserted⟩ := ih hothers
      refine ⟨first :: (more ++ front), back, by simp, ?_, ?_⟩
      · rw [hposition, List.length_cons, List.length_append]
        omega
      · -- what follows this token begins as before, or with the first of the blanks
        have hnext : ∀ c ∈ (front ++ blanks ++ back).head?,
            c ∈ (front ++ back).head? ∨ breaks c = true := by
          intro c hc
          cases front with
          | cons _ _ => exact .inl hc
          | nil =>
            cases blanks with
            | nil => exact .inl hc
            | cons blank blanks =>
              obtain rfl : blank = c := Option.some.inj hc
              exact .inr (breaks_of_blank (hblanks blank List.mem_cons_self))
        have hinserted' := LaidOut.token hblank (scanToken_next hnext htoken position) hinserted
        rwa [← List.append_assoc, ← List.append_assoc] at hinserted'

/-! ## Tokens in their order -/

/-- A token and all its letters are in front of another one. -/
def Token.Before (token other : Token) : Prop :=
  token.position < other.position ∧
    ∀ letters, token.lexeme = .word letters → token.position + letters.toList.length ≤ other.position

/-- No token is in front of the characters. -/
lemma LaidOut.position_le {position : ℕ} {cs : List Char} {tokens : List Token}
    (h : LaidOut position cs tokens) : ∀ token ∈ tokens, position ≤ token.position := by
  induction h with
  | stop position => simp
  | blank _ _ ih => exact fun token hmem => Nat.le_of_succ_le (ih token hmem)
  | token _ _ _ ih =>
    rw [List.forall_mem_cons]
    exact ⟨Nat.le_refl _, fun token hmem => by have := ih token hmem; omega⟩

/-- **Every token is in front of those behind it** with all its letters. -/
lemma LaidOut.pairwise {position : ℕ} {cs : List Char} {tokens : List Token}
    (h : LaidOut position cs tokens) : tokens.Pairwise Token.Before := by
  induction h with
  | stop position => exact List.pairwise_singleton _ _
  | blank _ _ ih => exact ih
  | token _ htoken hlaid ih =>
    refine List.pairwise_cons.mpr ⟨fun other hmem => ?_, ih⟩
    have hbehind := hlaid.position_le other hmem
    refine ⟨by dsimp only; omega, ?_⟩
    rintro letters rfl
    rw [(scanToken_eq_ok_iff.mp htoken).1.toList_eq, List.length_cons]
    dsimp only
    omega

/-- Tokens are alike to those that are moved with one of them and all that are behind it. -/
lemma alike_moved {before after : List Token} {token : Token} (amount : ℕ)
    (h : (before ++ token :: after).Pairwise Token.Before) :
    Forall₂ (Token.Alike fun _ position position' =>
        position' = moveFrom token.position amount position)
      (before ++ token :: after) (before ++ (token :: after).map (Token.moved amount)) := by
  obtain ⟨-, hafter, hbefore⟩ := List.pairwise_append.mp h
  have hbehind : ∀ other ∈ token :: after, token.position ≤ other.position :=
    List.forall_mem_cons.mpr
      ⟨Nat.le_refl _, fun other hmem => ((List.pairwise_cons.mp hafter).1 other hmem).1.le⟩
  refine List.rel_append (List.forall₂_same.mpr fun other hmem => ?_)
    (List.forall₂_map_right_iff.mpr (List.forall₂_same.mpr fun other hmem => ?_))
  · obtain ⟨hfront, hletters⟩ := hbefore other hmem token List.mem_cons_self
    refine ⟨rfl, fun cause _ => (if_pos hfront).symm, fun word hword => ?_⟩
    have := hletters word hword
    exact lettersAlike_of_forall fun i hi cause => (if_pos (by omega)).symm
  · have hnot := hbehind other hmem
    refine ⟨rfl, fun cause _ => (if_neg (by omega)).symm, fun word hword => ?_⟩
    refine lettersAlike_of_forall fun i hi cause => ?_
    rw [moveFrom, if_neg (by omega), Token.moved]
    dsimp only
    omega

/-! ## Texts -/

/-- **Blanks between tokens mean nothing.** Blanks that are put in front of a token of a text, or at
its end, move this token and all behind it and change no other thing about the tokens. Then the text
spells the same pattern as before, or the same is wrong with it, at the same place of the text if
that is in front of the blanks and moved by their number if not.

**Proof sketch.** The tokens are laid out over the text with the blanks as they were before, and
tokens that differ in their positions alone are read alike. A place that an error points at in a
token in front of the blanks is one of its letters at most, so it is in front of the blanks too. -/
theorem Pattern.ofText_insertAt_blanks {text blanks : String} {before after : List Token}
    {token : Token} (hscan : scan text = .ok (before ++ token :: after))
    (hblanks : ∀ c ∈ blanks.toList, isBlank c = true) :
    scan (insertAt text token.position blanks) =
        .ok (before ++ (token :: after).map (Token.moved blanks.length)) ∧
      ofText (insertAt text token.position blanks) =
        (ofText text).mapError (PatternError.movedFrom token.position blanks.length) := by
  have hlaid := scanFrom_eq_ok_iff.mp hscan
  obtain ⟨front, back, htext, hposition, hinserted⟩ := hlaid.insert hblanks
  have hscan' : scan (insertAt text token.position blanks) =
      .ok (before ++ (token :: after).map (Token.moved blanks.length)) := by
    rw [scan, insertAt, String.toList_ofList, htext, hposition, Nat.zero_add,
      List.take_left, List.drop_left]
    exact scanFrom_eq_ok_iff.mpr hinserted
  refine ⟨hscan', ?_⟩
  rw [ofText, ofText, hscan, hscan']
  have hread := ofTokens_alike (alike_moved blanks.length hlaid.pairwise)
  simp only [bind, Except.bind]
  generalize ofTokens (before ++ token :: after) = found at hread ⊢
  generalize ofTokens (before ++ (token :: after).map (Token.moved blanks.length)) = found' at hread ⊢
  cases hread with
  | error h => rw [h]; rfl
  | ok h => rw [h]; rfl

/-- Two blanks between an alias and a word with a letter of no effect. -/
theorem Pattern.ofText_insertAt_blanks_third_letter :
    scan "[é]irq" = .ok ([⟨.source "é", 0⟩] ++ ⟨.word "irq", 3⟩ :: [⟨.stop, 6⟩]) ∧
      (∀ c ∈ "\t\u3000".toList, isBlank c = true) ∧
      ofText "[é]irq" = .error ⟨.badEffect (.unknown 'q'), 5⟩ ∧
      ofText "[é]\t\u3000irq" = .error ⟨.badEffect (.unknown 'q'), 7⟩ := by
  have hscan : scan "[é]irq" = .ok ([⟨.source "é", 0⟩] ++ ⟨.word "irq", 3⟩ :: [⟨.stop, 6⟩]) := by
    decide +kernel
  have hblanks : ∀ c ∈ "\t\u3000".toList, isBlank c = true := by
    simp [isBlank, blankChars, CharClass.contains]
  have herror : ofText "[é]irq" = .error ⟨.badEffect (.unknown 'q'), 5⟩ := by decide +kernel
  refine ⟨hscan, hblanks, herror, ?_⟩
  have hinserted := (ofText_insertAt_blanks hscan hblanks).2
  rw [herror] at hinserted
  exact hinserted

end Arranger

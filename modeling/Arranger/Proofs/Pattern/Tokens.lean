import Arranger.Proofs.Number.Order
import Arranger.Proofs.Pattern.LaidOut

/-!
# The tokens of the scanner

What holds of every token that a text is divided into.

## Main definitions

* `Arranger.Lexeme.Proper` — what a lexeme of the scanner meets.
* `Arranger.Scanned` — tokens as the scanner leaves them.

## Main results

* `Arranger.scanFrom_scanned` — the scanner leaves proper tokens, and the end of the text behind them.
-/

namespace Arranger

/-! ## Proper lexemes -/

/-- What a lexeme of the scanner meets: a number is one without a minus sign, a word is one of
letters, an alias and a group name are of the characters that these may have, and the end of the
text is no lexeme of a character. -/
def Lexeme.Proper : Lexeme → Prop
  | number value => value ≠ .nan ∧ value.isNegative = false
  | word letters => letters.toList ≠ [] ∧ ∀ c ∈ letters.toList, isLetterChar c = true
  | source name => name.toList ≠ [] ∧ trimBlank name.toList = name.toList ∧
      ∀ c ∈ name.toList, isAliasChar c = true
  | group name => name.toList ≠ [] ∧ ∀ c ∈ name.toList, isGroupChar c = true
  | stop => False
  | _ => True

/-- Tokens as the scanner leaves them: proper ones, and the end of the text behind them. -/
inductive Scanned : List Token → Prop where
  /-- Nothing but the end. -/
  | stop (position : ℕ) : Scanned [⟨.stop, position⟩]
  /-- One token more. -/
  | cons {token : Token} {tokens : List Token} :
      token.lexeme.Proper → Scanned tokens → Scanned (token :: tokens)

/-! ## Single tokens -/

/-- A number of digits is a number without a minus sign. -/
lemma toBinary_spec {format : Format} (d : Decimal) :
    (d.toBinary : Binary format) ≠ .nan ∧ (d.toBinary : Binary format).isNegative = false := by
  have hvalue : ¬ d.value < 0 :=
    not_lt.mpr (mul_nonneg (Nat.cast_nonneg _) (Rat.zpow_nonneg (by norm_num)))
  have hpack : ∀ m e, (Binary.pack false m e : Binary format) ≠ .nan ∧
      (Binary.pack false m e : Binary format).isNegative = false := by
    intro m e
    unfold Binary.pack
    split_ifs
    · exact ⟨by simp, rfl⟩
    · exact ⟨by simp, rfl⟩
  unfold Decimal.toBinary Binary.round Binary.roundSigned Binary.zero
  rw [decide_eq_false hvalue]
  dsimp only
  split_ifs
  · exact hpack _ _
  · exact hpack _ _
  · exact hpack _ _

/-- What has a spelling is proper. -/
lemma Lexeme.Spelling.proper {lexeme : Lexeme} {cs : List Char} (h : lexeme.Spelling cs) :
    lexeme.Proper := by
  cases h with
  | mark hmark => cases lexeme <;> trivial
  | word hne hletters =>
    rw [Proper, String.toList_ofList]
    exact ⟨hne, hletters⟩
  | group hne hname =>
    rw [Proper, String.toList_ofList]
    exact ⟨hne, hname⟩
  | source hne hbefore hname hbehind =>
    rw [Proper, String.toList_ofList]
    have hnone : ∀ c ∈ ([] : List Char), isBlank c = true := by simp
    have htrim := trimBlank_append hnone (fun c hmem => not_blank_of_aliasChar (hname c hmem)) hnone
      hne
    rw [List.nil_append, List.append_nil] at htrim
    exact ⟨hne, htrim, hname⟩
  | whole hne hdigits => exact toBinary_spec _
  | point hne hdigits hplaces => exact toBinary_spec _

/-- Every token of the scanner is proper. -/
lemma scanToken_proper {position : ℕ} {first : Char} {rest after : List Char} {lexeme : Lexeme}
    (h : scanToken position first rest = .ok (lexeme, after)) : lexeme.Proper := by
  obtain ⟨more, -, hspelling, -⟩ := spelling_of_scanToken h
  exact hspelling.proper

/-! ## All tokens -/

/-- Tokens that are laid out over characters are proper ones with the end of the text behind them. -/
lemma LaidOut.scanned {position : ℕ} {cs : List Char} {tokens : List Token}
    (h : LaidOut position cs tokens) : Scanned tokens := by
  induction h with
  | stop position => exact .stop position
  | blank _ _ ih => exact ih
  | token _ htoken _ ih => exact .cons (scanToken_proper htoken) ih

/-- **The scanner leaves proper tokens**, and the end of the text behind them. -/
lemma scanFrom_scanned {position : ℕ} {cs : List Char} {tokens : List Token}
    (h : scanFrom position cs = .ok tokens) : Scanned tokens :=
  (scanFrom_eq_ok_iff.mp h).scanned

end Arranger

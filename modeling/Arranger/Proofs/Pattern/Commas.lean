import Arranger.Pattern.Compiling
import Arranger.Proofs.Pattern.Scanning
import Arranger.Proofs.Pattern.Steps

/-!
# Texts with a comma between them

No token goes on beyond a comma. So a text is scanned as it is alone where a comma follows, and two
texts with a comma between them are read as the steps of the first and then those of the second.

## Main results

* `Arranger.scans_append` — the tokens of a text do not depend on what follows a character that breaks.
* `Arranger.Pattern.ofText_append_comma` — the pattern of two texts with a comma between them.
-/

namespace Arranger

/-! ## All tokens -/

/-- Blanks are skipped. -/
lemma scans_blank {c : Char} {rest : List Char} {lexemes : List Lexeme} (hc : isBlank c = true)
    (h : Scans rest lexemes) : Scans (c :: rest) lexemes := by
  intro position
  rw [scanFrom, if_pos hc]
  exact h (position + 1)

/-- **The tokens of a text do not depend on what follows** behind a character that breaks, nor on
where the text is.

**Proof sketch.** By induction on the layout. What is left of the text behind a token is followed by
the same characters as the text itself. -/
lemma scans_append {position : ℕ} {cs rest : List Char} {tokens : List Token}
    {lexemes : List Lexeme} (h : scanFrom position cs = .ok tokens)
    (hrest : ∀ c ∈ rest.head?, breaks c = true) (hscans : Scans rest lexemes) :
    ∃ front, tokens.map Token.lexeme = front ++ [.stop] ∧
      Scans (cs ++ rest) (front ++ lexemes) := by
  rw [scanFrom_eq_ok_iff] at h
  induction h with
  | stop position => exact ⟨[], rfl, hscans⟩
  | blank hblank _ ih =>
    obtain ⟨front, htokens, hfront⟩ := ih
    exact ⟨front, htokens, scans_blank hblank hfront⟩
  | @token _ first more after lexeme _ _ htoken _ ih =>
    obtain ⟨front, htokens, hfront⟩ := ih
    obtain ⟨hspelling, hafter⟩ := scanToken_eq_ok_iff.mp htoken
    have hnext : ∀ c ∈ (after ++ rest).head?, lexeme.goesOn (first :: more) c = false := by
      intro c hc
      cases after with
      | nil => exact lexeme.not_goesOn_of_breaks (hrest c hc) _
      | cons next after => exact hafter c hc
    refine ⟨lexeme :: front, congrArg (lexeme :: ·) htokens, ?_⟩
    have hscans := scans_of_spelling hspelling hnext hfront
    rwa [← List.append_assoc] at hscans

/-- What is scanned somewhere is scanned alike everywhere. -/
lemma scans_of_scanFrom {position : ℕ} {cs : List Char} {tokens : List Token}
    (h : scanFrom position cs = .ok tokens) : Scans cs (tokens.map Token.lexeme) := by
  obtain ⟨front, hmap, hfront⟩ := scans_append h (by rintro c ⟨⟩) scans_nil
  rw [hmap]
  simpa using hfront

/-! ## Patterns -/

namespace Pattern

open Grammar

/-- **Two texts with a comma between them** are read as the steps of the first and then those of the
second.

**Proof sketch.** The lexemes of the joined text are those of the first, a comma, and those of the
second. So the grammar derives from it the steps of both. -/
theorem ofText_append_comma {text other : String} {first second : Pattern}
    (hfirst : ofText text = .ok first) (hsecond : ofText other = .ok second) :
    ofText (text ++ "," ++ other) = .ok ⟨first.steps ++ second.steps⟩ := by
  obtain ⟨tokens, hscan, htokens⟩ := bind_eq_ok_iff.mp hfirst
  obtain ⟨tokens', hscan', htokens'⟩ := bind_eq_ok_iff.mp hsecond
  obtain ⟨tree, htree, hadmissible, rfl⟩ := ofTokens_sound (scanFrom_scanned hscan) htokens
  obtain ⟨tree', htree', hadmissible', rfl⟩ := ofTokens_sound (scanFrom_scanned hscan') htokens'
  obtain ⟨front, hmap, hfront⟩ := scans_append hscan (by rintro c ⟨⟩; rfl)
    (scans_char (c := ',') rfl (scans_of_scanFrom hscan'))
  obtain ⟨joined, hjoined, hlexemes⟩ := hfront 0
  have hspelled : front = tree.first.lexemes ++
      tree.more.flatMap fun group => .comma :: group.lexemes := by
    rw [← htree, Tree.lexemes, Tree.restLexemes, ← List.append_assoc] at hmap
    exact (List.append_cancel_right hmap).symm
  have hderived : Tree.lexemes ⟨tree.first, tree.more ++ tree'.first :: tree'.more⟩ =
      joined.map Token.lexeme := by
    rw [hlexemes, hspelled, ← htree', Tree.lexemes, Tree.lexemes]
    simp [Tree.restLexemes]
  have hall : Tree.Admissible ⟨tree.first, tree.more ++ tree'.first :: tree'.more⟩ := by
    rw [Tree.Admissible, ← List.cons_append, List.forall_mem_append]
    exact ⟨hadmissible, hadmissible'⟩
  have htext : scan (text ++ "," ++ other) = .ok joined := by
    rw [scan, String.toList_append, String.toList_append, List.append_assoc]
    exact hjoined
  refine bind_eq_ok_iff.mpr ⟨joined, htext, ?_⟩
  rw [ofTokens_complete (scanFrom_scanned hjoined) hderived hall]
  simp [Tree.pattern]

end Pattern

end Arranger

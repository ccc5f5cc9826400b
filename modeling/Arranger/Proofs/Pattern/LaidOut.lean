import Arranger.Proofs.Pattern.Spelling

/-!
# Tokens laid out over their text

Scanning goes through a text from its start: a blank is skipped, and a token takes the characters
that it is made of. What is known of every single token is known of all tokens by induction on this.

## Main definitions

* `Arranger.LaidOut` — tokens laid out over the characters from a position on.

## Main results

* `Arranger.scanFrom_eq_ok_iff` — the tokens of characters are the ones laid out over them.
* `Arranger.exists_scanToken_of_error` — scanning fails at a character where no token can be scanned.
-/

namespace Arranger

/-! ## Tokens over characters -/

/-- The tokens are laid out over the characters, the first of which is at the position. -/
inductive LaidOut : ℕ → List Char → List Token → Prop where
  /-- Behind the last character is the end of the text. -/
  | stop (position : ℕ) : LaidOut position [] [⟨.stop, position⟩]
  /-- A blank belongs to no token. -/
  | blank {position : ℕ} {c : Char} {rest : List Char} {tokens : List Token}
      (hblank : isBlank c = true) (h : LaidOut (position + 1) rest tokens) :
      LaidOut position (c :: rest) tokens
  /-- A token takes the characters that it is made of. -/
  | token {position : ℕ} {first : Char} {more after : List Char} {lexeme : Lexeme}
      {tokens : List Token} (hblank : isBlank first = false)
      (htoken : scanToken position first (more ++ after) = .ok (lexeme, after))
      (h : LaidOut (position + 1 + more.length) after tokens) :
      LaidOut position (first :: (more ++ after)) (⟨lexeme, position⟩ :: tokens)

/-- How scanning goes on behind a first token. -/
lemma scanFrom_of_scanToken {position : ℕ} {first : Char} {more after : List Char} {lexeme : Lexeme}
    (hblank : isBlank first = false)
    (htoken : scanToken position first (more ++ after) = .ok (lexeme, after)) :
    scanFrom position (first :: (more ++ after)) =
      (scanFrom (position + 1 + more.length) after).map (⟨lexeme, position⟩ :: ·) := by
  rw [scanFrom, if_neg (by rw [hblank]; exact Bool.false_ne_true)]
  split
  · next herror =>
    rw [htoken] at herror
    cases herror
  · next lexeme' after' hsome =>
    rw [htoken] at hsome
    cases hsome
    dsimp only
    rw [List.length_append, Nat.add_sub_cancel]
    cases scanFrom (position + 1 + more.length) after <;> rfl

/-- **The tokens of characters are the ones laid out over them.**

**Proof sketch.** By induction on the number of characters in one direction and on the layout in the
other one. -/
lemma scanFrom_eq_ok_iff {position : ℕ} {cs : List Char} {tokens : List Token} :
    scanFrom position cs = .ok tokens ↔ LaidOut position cs tokens := by
  constructor
  · intro h
    induction hlength : cs.length using Nat.strongRecOn generalizing position cs tokens with
    | ind length ih =>
      cases cs with
      | nil =>
        rw [scanFrom] at h
        cases h
        exact .stop position
      | cons first rest =>
        rw [List.length_cons] at hlength
        cases hblank : isBlank first with
        | true =>
          rw [scanFrom, if_pos hblank] at h
          exact .blank hblank (ih rest.length (by omega) h rfl)
        | false =>
          cases htoken : scanToken position first rest with
          | error error =>
            rw [scanFrom, if_neg (by rw [hblank]; exact Bool.false_ne_true)] at h
            split at h
            · cases h
            · next hsome =>
              rw [htoken] at hsome
              cases hsome
          | ok found =>
            obtain ⟨lexeme, after⟩ := found
            obtain ⟨more, rfl, -⟩ := spelling_of_scanToken htoken
            rw [scanFrom_of_scanToken hblank htoken] at h
            obtain ⟨tokens', htokens, rfl⟩ := map_eq_ok_iff.mp h
            rw [List.length_append] at hlength
            exact .token hblank htoken (ih after.length (by omega) htokens rfl)
  · intro h
    induction h with
    | stop position => rw [scanFrom]
    | blank hblank _ ih => rw [scanFrom, if_pos hblank, ih]
    | token hblank htoken _ ih =>
      rw [scanFrom_of_scanToken hblank htoken, ih]
      rfl

/-- **Scanning fails at a character** where no token can be scanned. -/
lemma exists_scanToken_of_error {position : ℕ} {cs : List Char} {error : PatternError}
    (h : scanFrom position cs = .error error) :
    ∃ front first rest, cs = front ++ first :: rest ∧
      scanToken (position + front.length) first rest = .error error := by
  induction hlength : cs.length using Nat.strongRecOn generalizing position cs with
  | ind length ih =>
    cases cs with
    | nil =>
      rw [scanFrom] at h
      cases h
    | cons first rest =>
      rw [List.length_cons] at hlength
      cases hblank : isBlank first with
      | true =>
        rw [scanFrom, if_pos hblank] at h
        obtain ⟨front, first', rest', rfl, herror⟩ := ih rest.length (by omega) h rfl
        exact ⟨first :: front, first', rest', rfl, by
          rwa [List.length_cons, Nat.add_comm front.length, ← Nat.add_assoc]⟩
      | false =>
        cases htoken : scanToken position first rest with
        | error error' =>
          rw [scanFrom, if_neg (by rw [hblank]; exact Bool.false_ne_true)] at h
          split at h
          · next error'' herror =>
            cases h
            exact ⟨[], first, rest, rfl, herror⟩
          · next hsome =>
            rw [htoken] at hsome
            cases hsome
        | ok found =>
          obtain ⟨lexeme, after⟩ := found
          obtain ⟨more, rfl, -⟩ := spelling_of_scanToken htoken
          rw [scanFrom_of_scanToken hblank htoken, map_eq_error_iff] at h
          rw [List.length_append] at hlength
          obtain ⟨front, first', rest', rfl, herror⟩ := ih after.length (by omega) h rfl
          refine ⟨first :: (more ++ front), first', rest', by simp, ?_⟩
          have hplace : position + (first :: (more ++ front)).length =
              position + 1 + more.length + front.length := by
            rw [List.length_cons, List.length_append]
            omega
          rwa [hplace]

/-- A token is where the characters say, and one of its spellings stands there. -/
lemma LaidOut.exists_append {position : ℕ} {cs : List Char} {tokens : List Token}
    (h : LaidOut position cs tokens) {token : Token} (hmem : token ∈ tokens) :
    ∃ front back, cs = front ++ back ∧ token.position = position + front.length ∧
      (token.lexeme = .stop ∨
        ∃ spelling rest, back = spelling ++ rest ∧ token.lexeme.Spelling spelling) := by
  induction h with
  | stop position =>
    obtain rfl := List.mem_singleton.mp hmem
    exact ⟨[], [], rfl, rfl, .inl rfl⟩
  | @blank _ c _ _ _ _ ih =>
    obtain ⟨front, back, rfl, hposition, hback⟩ := ih hmem
    exact ⟨c :: front, back, rfl, by rw [hposition, List.length_cons]; omega, hback⟩
  | @token position first more after lexeme tokens hblank htoken hlaid ih =>
    rcases List.mem_cons.mp hmem with rfl | hmem
    · exact ⟨[], _, rfl, rfl, .inr ⟨first :: more, after, rfl, (scanToken_eq_ok_iff.mp htoken).1⟩⟩
    · obtain ⟨front, back, rfl, hposition, hback⟩ := ih hmem
      refine ⟨first :: (more ++ front), back, by simp, ?_, hback⟩
      rw [hposition, List.length_cons, List.length_append]
      omega

end Arranger

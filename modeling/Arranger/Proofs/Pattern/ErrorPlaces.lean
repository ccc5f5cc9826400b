import Arranger.Pattern.Compiling
import Arranger.Proofs.Pattern.Alike
import Arranger.Proofs.Pattern.Tokens

/-!
# The places of errors

The position of an error counts the characters in front of the place, so it points into the text or
behind its end. An error that is about a character points at it.

## Main definitions

* `Arranger.PatternError.PointsInto` — an error points at the character that it is about.

## Main results

* `Arranger.scanFrom_error` — errors of the scanner point into the text.
* `Arranger.LaidOut.pointsInto` — so do errors about the tokens that it leaves.
* `Arranger.Pattern.ofText_error` — so do all errors in a text, in words.
-/

namespace Arranger

open List (Forall₂)

/-! ## Rejected letters -/

/-- A rejection names the letter that it rejects, and only letters of no effect are unknown. -/
lemma Effect.code_of_ofCode_error {code : Char} {parameter : Option Double} {rejection : Rejection}
    (h : ofCode code parameter = .error rejection) :
    rejection.code = code ∧
      (rejection.isUnknown = true → code ∉ ['s', 'r', 'v', 'd', 'b', 'g', 'c']) := by
  unfold ofCode at h
  split at h
  · cases h
    exact ⟨rfl, nofun⟩
  · split at h
    · unfold ofSpeed at h
      split_ifs at h
      cases h
      exact ⟨rfl, nofun⟩
    · split_ifs at h
      cases h
      exact ⟨rfl, nofun⟩
    · cases h
    · unfold ofHold at h
      dsimp only at h
      split_ifs at h
      cases h
      exact ⟨rfl, nofun⟩
    · unfold ofDepth at h
      split at h <;> cases h
      exact ⟨rfl, nofun⟩
    · unfold ofPasses at h
      split at h <;> cases h
      exact ⟨rfl, nofun⟩
    · split at h
      · cases h
      · unfold ofChannel at h
        split_ifs at h
        cases h
        exact ⟨rfl, nofun⟩
    · next hs hr hv hd hb hg hc =>
      cases h
      exact ⟨rfl, fun _ => by simpa using ⟨hs, hr, hv, hd, hb, hg, hc⟩⟩

/-! ## Errors that point at characters -/

/-- An error is not behind the end of the characters, and it is at the character that it is about. -/
structure PatternError.PointsInto (error : PatternError) (cs : List Char) : Prop where
  /-- The position is one of the characters, or behind the last one. -/
  position_le : error.position ≤ cs.length
  /-- A character that starts no token is at the position. -/
  unexpected : ∀ c, error.cause = .unexpectedChar c → cs[error.position]? = some c
  /-- A letter that is rejected is at the position. If it is unknown, then it is no effect. -/
  rejected : ∀ rejection, error.cause = .badEffect rejection →
    cs[error.position]? = some rejection.code ∧ isLetterChar rejection.code = true ∧
      (rejection.isUnknown = true → rejection.code ∉ ['s', 'r', 'v', 'd', 'b', 'g', 'c'])

/-- An error that does not name its character has to be in the text or at its end. -/
lemma PatternError.PointsInto.of_isPlain {error : PatternError} {cs : List Char}
    (hplain : error.cause.isPlain = true) (hposition : error.position ≤ cs.length) :
    error.PointsInto cs := by
  refine ⟨hposition, fun c hcause => ?_, fun rejection hcause => ?_⟩
  · rw [hcause] at hplain
    cases hplain
  · rw [hcause] at hplain
    cases hplain

/-! ## Errors of the scanner -/

/-- An error between brackets is at the opening one or at a character behind it. -/
lemma scanBracket_error {opening position : ℕ} {cs : List Char} {error : PatternError}
    (hopening : opening ≤ position) (h : scanBracket opening position cs = .error error) :
    error.cause.isPlain = true ∧ error.position ≤ position + cs.length := by
  induction cs generalizing position with
  | nil =>
    cases h
    exact ⟨rfl, hopening⟩
  | cons c cs ih =>
    by_cases hclose : c = ']'
    · subst hclose
      cases h
    · by_cases hopen : c = '['
      · subst hopen
        cases h
        exact ⟨rfl, Nat.le_add_right ..⟩
      · rw [scanBracket_cons hclose hopen, map_eq_error_iff] at h
        obtain ⟨hplain, hposition⟩ := ih (Nat.le_succ_of_le hopening) h
        refine ⟨hplain, ?_⟩
        rw [List.length_cons]
        omega

/-- An error in an alias is at its bracket. -/
lemma aliasOf_error {opening : ℕ} {inside : List Char} {error : PatternError}
    (h : aliasOf opening inside = .error error) :
    error.cause.isPlain = true ∧ error.position = opening := by
  unfold aliasOf at h
  split at h
  · cases h
    exact ⟨rfl, rfl⟩
  · split at h
    · cases h
      exact ⟨rfl, rfl⟩
    · cases h

/-- **A token that cannot be scanned** has an error at one of its characters, and this is the first
one if it is the error. -/
lemma scanToken_error {position : ℕ} {first : Char} {rest : List Char} {error : PatternError}
    (h : scanToken position first rest = .error error) :
    error = ⟨.unexpectedChar first, position⟩ ∨
      error.cause.isPlain = true ∧ error.position ≤ position + 1 + rest.length := by
  unfold scanToken at h
  split at h
  · cases h
  · split_ifs at h with hopen hclose hmark hnumber hletter
    · rcases bind_eq_error_iff.mp h with h | ⟨⟨inside, after⟩, -, h⟩
      · exact .inr (scanBracket_error (Nat.le_succ position) h)
      · rcases bind_eq_error_iff.mp h with h | ⟨name, -, h⟩
        · obtain ⟨hplain, hposition⟩ := aliasOf_error h
          exact .inr ⟨hplain, by omega⟩
        · cases h
    · cases h
      exact .inr ⟨rfl, by dsimp only; omega⟩
    · split at h
      · cases h
        exact .inr ⟨rfl, by dsimp only; omega⟩
      · cases h
    · cases h
      exact .inl rfl

/-- **Errors of the scanner point into the text.** -/
lemma scanFrom_error {cs : List Char} {error : PatternError} (h : scanFrom 0 cs = .error error) :
    error.PointsInto cs := by
  obtain ⟨front, first, rest, rfl, htoken⟩ := exists_scanToken_of_error h
  rw [Nat.zero_add] at htoken
  rcases scanToken_error htoken with rfl | ⟨hplain, hposition⟩
  · refine ⟨by simp, ?_, nofun⟩
    rintro c ⟨⟩
    simp
  · refine .of_isPlain hplain ?_
    rw [List.length_append, List.length_cons]
    omega

/-! ## Errors about tokens -/

/-- **Errors at the letters of a word** point at them. -/
lemma lettersAlike_pointsInto {cs front letters more : List Char}
    (hcs : cs = front ++ letters ++ more) (hletters : ∀ c ∈ letters, isLetterChar c = true) :
    LettersAlike (fun cause position _ => PatternError.PointsInto ⟨cause, position⟩ cs)
      front.length front.length letters := by
  induction letters generalizing front with
  | nil => trivial
  | cons code codes ih =>
    rw [List.forall_mem_cons] at hletters
    have hplace : cs[front.length]? = some code := by
      rw [hcs]
      simp
    have hposition : front.length ≤ cs.length := by
      rw [hcs]
      simp
    refine ⟨fun cause hplain => .of_isPlain hplain hposition, fun parameter rejection hcode => ?_, ?_⟩
    · obtain ⟨rfl, hunknown⟩ := Effect.code_of_ofCode_error hcode
      refine ⟨hposition, nofun, ?_⟩
      rintro _ ⟨⟩
      exact ⟨hplace, hletters.1, hunknown⟩
    · have hsplit : cs = front ++ [code] ++ codes ++ more := by
        rw [hcs]
        simp
      have hnext := ih hsplit hletters.2
      rwa [List.length_append] at hnext

/-- **Errors about the tokens of a text point into it.** -/
lemma LaidOut.pointsInto {cs : List Char} {tokens : List Token} (h : LaidOut 0 cs tokens) :
    Forall₂ (Token.Alike fun cause position _ => PatternError.PointsInto ⟨cause, position⟩ cs)
      tokens tokens := by
  refine List.forall₂_same.mpr fun token hmem => ?_
  obtain ⟨front, back, hcs, hposition, hback⟩ := h.exists_append hmem
  rw [Nat.zero_add] at hposition
  refine ⟨rfl, fun cause hplain => .of_isPlain hplain ?_, fun word hword => ?_⟩
  · rw [hcs, hposition, List.length_append]
    exact Nat.le_add_right ..
  · rcases hback with hstop | ⟨letters, more, rfl, hspelling⟩
    · rw [hword] at hstop
      cases hstop
    · rw [hword] at hspelling
      obtain rfl := hspelling.toList_eq
      rw [hposition]
      exact lettersAlike_pointsInto (by rw [hcs, List.append_assoc]) hspelling.proper.2

/-! ## Texts -/

/-- **Errors point into the text**, whatever its characters are. The position of an error is at most
the number of characters. An unknown effect is at the letter that the message names, and this is no
letter of an effect. A number that does not fit an effect is reported at the letter of the effect, and
a character that starts no token at this character.

**Proof sketch.** The scanner fails at a character, where a token should start or inside its
brackets. The readers find errors at tokens and at letters of words, and a word is made of the
characters from its position on. The letters behind the position `i` are one place further. -/
theorem Pattern.ofText_error {text : String} {error : PatternError}
    (h : ofText text = .error error) :
    error.position ≤ text.length ∧
      (error.isUnknownEffect = true →
        ∃ c, text.toList[error.position]? = some c ∧ isLetterChar c = true ∧
          c ∉ ['s', 'r', 'v', 'd', 'b', 'g', 'c'] ∧
          error.cause.message = s!"unknown effect '{c}'") ∧
      (∀ rejection, error.cause = .badEffect rejection →
        text.toList[error.position]? = some rejection.code) ∧
      ∀ c, error.cause = .unexpectedChar c → text.toList[error.position]? = some c := by
  have hpoints : error.PointsInto text.toList := by
    rcases bind_eq_error_iff.mp h with hscan | ⟨tokens, hscan, hread⟩
    · exact scanFrom_error hscan
    · have halike := ofTokens_alike (scanFrom_eq_ok_iff.mp hscan).pointsInto
      rw [hread] at halike
      cases halike with
      | error hpoints => exact hpoints
  refine ⟨hpoints.position_le, fun hunknown => ?_, fun rejection hcause => ?_, hpoints.unexpected⟩
  · obtain ⟨cause, position⟩ := error
    cases cause with
    | badEffect rejection =>
      obtain ⟨hplace, hletter, hnone⟩ := hpoints.rejected rejection rfl
      exact ⟨rejection.code, hplace, hletter, hnone hunknown, if_pos hunknown⟩
    | _ => cases hunknown
  · exact (hpoints.rejected rejection hcause).1

/-- The third letter behind an alias and a blank that take two and three bytes. -/
theorem Pattern.ofText_error_third_letter :
    ofText "[é]\u3000irq" = .error ⟨.badEffect (.unknown 'q'), 6⟩ ∧
      6 ≤ "[é]\u3000irq".length ∧ "[é]\u3000irq".toList[6]? = some 'q' := by
  have herror : ofText "[é]\u3000irq" = .error ⟨.badEffect (.unknown 'q'), 6⟩ := by decide +kernel
  obtain ⟨hposition, -, hrejected, -⟩ := ofText_error herror
  exact ⟨herror, hposition, hrejected (.unknown 'q') rfl⟩

end Arranger

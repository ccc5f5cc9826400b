import Arranger.Proofs.Pattern.Candidates
import Arranger.Proofs.Pattern.Writing

/-!
# Numbers of short digit strings

A number in a text may have any number of digits, and with more than three hundred of them it can be
infinite. A text with shorter runs of digits has no infinite number, and none that is too large for
the end of a range. To see this, every token is traced back to the place in the text where the
scanner has found it.

## Main definitions

* `Arranger.HasShortRuns` — texts whose runs of digits have at most 307 members.
* `Arranger.rangeChars` — the characters of a range of whole numbers.

## Main results

* `Arranger.foundIn_of_mem` — the scanner finds every token at some place in the text.
* `Arranger.toBinary_le` — **the number of a short run of digits**.
* `Arranger.Pattern.moderate_of_hasShortRuns` — the references in a text with short runs of digits.
* `Arranger.spelled_digits`, `spelled_rangeChars` — texts of whole numbers, with any number of digits.
-/

namespace Arranger

/-! ## Where tokens are found -/

/-- A lexeme that the scanner finds at some place in the characters. -/
def FoundIn (cs : List Char) (lexeme : Lexeme) : Prop :=
  ∃ position first rest after, first :: rest <:+ cs ∧
    scanToken position first rest = .ok (lexeme, after)

/-- What is found in the end of characters is found in all of them. -/
lemma FoundIn.of_suffix {cs cs' : List Char} {lexeme : Lexeme} (h : FoundIn cs lexeme)
    (hsuffix : cs <:+ cs') : FoundIn cs' lexeme := by
  obtain ⟨position, first, rest, after, hplace, htoken⟩ := h
  exact ⟨position, first, rest, after, hplace.trans hsuffix, htoken⟩

/-- **The scanner finds every token** at some place in the text, apart from the end of the text. -/
lemma foundIn_of_mem {position : ℕ} {cs : List Char} {tokens : List Token}
    (h : scanFrom position cs = .ok tokens) {token : Token} (hmem : token ∈ tokens) :
    token.lexeme = .stop ∨ FoundIn cs token.lexeme := by
  rw [scanFrom_eq_ok_iff] at h
  induction h with
  | stop position => exact .inl (by rw [List.mem_singleton.mp hmem])
  | blank _ _ ih => exact (ih hmem).imp_right (FoundIn.of_suffix · (List.suffix_cons _ _))
  | @token position first more after _ _ _ htoken _ ih =>
    rcases List.mem_cons.mp hmem with rfl | hmem
    · exact .inr ⟨position, first, more ++ after, after, List.suffix_rfl, htoken⟩
    · have hsuffix : after <:+ first :: (more ++ after) :=
        (List.suffix_append _ _).trans (List.suffix_cons _ _)
      exact (ih hmem).imp_right (FoundIn.of_suffix · hsuffix)

/-! ## Short runs of digits -/

/-- Digits denote a number below the power of ten with as many zeros. -/
lemma ofDigitChars_lt {cs : List Char} (hdigits : ∀ c ∈ cs, isDigitChar c = true) (init : ℕ) :
    Nat.ofDigitChars 10 cs init < (init + 1) * 10 ^ cs.length := by
  induction cs generalizing init with
  | nil => simp
  | cons c cs ih =>
    rw [List.forall_mem_cons] at hdigits
    have hdigit : c.toNat - '0'.toNat ≤ 9 := by
      have hrange := (toNat_of_isDigitChar hdigits.1).2
      have hzero : '0'.toNat = 48 := rfl
      omega
    rw [Nat.ofDigitChars_cons, List.length_cons]
    calc Nat.ofDigitChars 10 cs (10 * init + (c.toNat - '0'.toNat))
        < (10 * init + (c.toNat - '0'.toNat) + 1) * 10 ^ cs.length := ih hdigits.2 _
      _ ≤ (10 * (init + 1)) * 10 ^ cs.length := Nat.mul_le_mul_right _ (by omega)
      _ = (init + 1) * 10 ^ (cs.length + 1) := by ring

/-- Digits with a point denote a number below the power of ten with as many zeros as there are digits
before the point. -/
lemma value_ofChars_lt {whole places : List Char} (hwhole : ∀ c ∈ whole, isDigitChar c = true)
    (hplaces : ∀ c ∈ places, isDigitChar c = true) :
    (Decimal.ofChars whole places).value < 10 ^ whole.length := by
  have hdigits : ∀ c ∈ whole ++ places, isDigitChar c = true := fun c hmem =>
    (List.mem_append.mp hmem).elim (hwhole c) (hplaces c)
  have hlt := ofDigitChars_lt hdigits 0
  rw [zero_add, one_mul, List.length_append, pow_add] at hlt
  have hcast : (Nat.ofDigitChars 10 (whole ++ places) 0 : ℚ) <
      10 ^ whole.length * 10 ^ places.length := by exact_mod_cast hlt
  rw [Decimal.ofChars, Decimal.value, zpow_neg, zpow_natCast, ← div_eq_mul_inv]
  exact (div_lt_iff₀ (by positivity)).mpr hcast

/-- The runs of digits of the text have at most 307 members. -/
def HasShortRuns (text : String) : Prop :=
  ∀ run, run <:+: text.toList → (∀ c ∈ run, isDigitChar c = true) → run.length ≤ 307

/-- **The number of a short run of digits** is finite, and at most half of the limit of the format. -/
lemma toBinary_le {digits places : List Char} (hdigits : ∀ c ∈ digits, isDigitChar c = true)
    (hplaces : ∀ c ∈ places, isDigitChar c = true) (hshort : digits.length ≤ 307) :
    ((Decimal.ofChars digits places).toBinary : Double).isFinite = true ∧
      ((Decimal.ofChars digits places).toBinary : Double).value ≤ Format.double.limit / 2 := by
  have hlt := value_ofChars_lt hdigits hplaces
  rw [Decimal.toBinary, Binary.round]
  generalize (Decimal.ofChars digits places) = decimal at hlt ⊢
  have hnonneg : 0 ≤ decimal.value :=
    mul_nonneg (Nat.cast_nonneg _) (Rat.zpow_nonneg (by norm_num))
  have hhalf : decimal.value ≤ Format.double.limit * ((2 : ℤ) / 4) := by
    have hpower : (10 : ℚ) ^ 307 ≤ 2 * 2 ^ (1022 : ℤ) := by
      exact_mod_cast (by decide +kernel : 10 ^ 307 ≤ 2 * 2 ^ 1022)
    have hten := (pow_le_pow_right₀ (by norm_num : (1 : ℚ) ≤ 10) hshort).trans hpower
    rw [Format.double_limit_eq]
    generalize (2 : ℚ) ^ (1022 : ℤ) = place at hten ⊢
    push_cast
    linarith
  have hlimit : 0 < Format.double.limit := two_zpow_pos _
  obtain ⟨hfinite, hvalue⟩ := Binary.roundSigned_of_le_limit (q := decimal.value)
    (by rw [abs_of_nonneg hnonneg]; push_cast at hhalf; linarith) false
  refine ⟨hfinite, ?_⟩
  rw [hvalue]
  have hround := (Format.representable_quarters (by decide : |(2 : ℤ)| ≤ 2 ^ 53)).nearest_le hhalf
  push_cast at hround
  linarith

/-! ## Texts with short runs -/

/-- The numbers that are found in a text with short runs of digits. -/
lemma FoundIn.number_le {text : String} (hshort : HasShortRuns text) {value : Double}
    (h : FoundIn text.toList (.number value)) :
    value.isFinite = true ∧ value.value ≤ Format.double.limit / 2 := by
  obtain ⟨position, first, rest, after, hplace, htoken⟩ := h
  obtain ⟨more, rfl, hspelling, -⟩ := spelling_of_scanToken htoken
  obtain ⟨digits, places, rfl, hfront, hdigits, hplaces⟩ := hspelling.exists_digits
  refine toBinary_le hdigits hplaces (hshort digits ?_ hdigits)
  exact (hfront.trans (List.prefix_append _ after)).isInfix.trans hplace.isInfix

namespace Grammar

/-- A reference with numbers that are not too large is moderate. -/
lemma Reference.moderate_ref {reference : Reference}
    (h : ∀ value, .number value ∈ reference.lexemes →
      value.isFinite = true ∧ value.value ≤ Format.double.limit / 2) :
    reference.ref.Moderate := by
  cases reference with
  | number value => exact (h value (by simp [lexemes])).1
  | negative value =>
    show (-value).isFinite = true
    rw [Binary.isFinite_neg]
    exact (h value (by simp [lexemes])).1
  | position offset => cases offset <;> trivial
  | glued word => trivial
  | random low high step =>
    refine ⟨?_, (h high (by simp [lexemes])).2⟩
    cases step with
    | none => exact (Binary.one_spec .double).1
    | some step => exact (h step (by simp [lexemes, optional, stepLexemes])).1

end Grammar

/-- **The references in a text with short runs of digits** are moderate. -/
lemma Pattern.moderate_of_hasShortRuns {text : String} {pattern : Pattern}
    (h : ofText text = .ok pattern) (hshort : HasShortRuns text) :
    ∀ term ∈ pattern.terms, term.beat.ref.Moderate := by
  intro term hterm
  obtain ⟨tokens, hscan, -⟩ := bind_eq_ok_iff.mp h
  obtain ⟨phrase, -, hlexemes, rfl⟩ := exists_phrase_of_scan hscan h hterm
  refine Grammar.Reference.moderate_ref fun value hmem => ?_
  have hphrase : .number value ∈ phrase.lexemes :=
    List.mem_append_left _ (List.mem_append_right _ hmem)
  obtain ⟨token, htoken, hlexeme⟩ := List.mem_map.mp (hlexemes _ hphrase).2
  have hfound := (foundIn_of_mem hscan htoken).resolve_left (by rw [hlexeme]; nofun)
  rw [hlexeme] at hfound
  exact hfound.number_le hshort

/-! ## Texts of whole numbers -/

section WholeNumbers

open Grammar

/-- The digits of a whole number spell a literal, with any number of digits. -/
lemma spelled_digits (n : ℕ) :
    Spelled (Nat.toDigits 10 n) (.single ⟨none, { ref := .literal (.ofNat n) }⟩) := by
  refine ⟨.single ⟨none, .number (.ofNat n), []⟩, ?_, rfl, fun rest lexemes hrest h => ?_⟩
  · exact ⟨trivial, by simp, Nat.zero_le _, Nat.zero_le _⟩
  · exact scans_toDigits n (fun c hc => (breaks_iff.mp (hrest c hc)).2.2) h

/-- The characters of a range of whole numbers. -/
def rangeChars (low high step : ℕ) : List Char :=
  '@' :: (Nat.toDigits 10 low ++ '_' :: (Nat.toDigits 10 high ++ '_' :: Nat.toDigits 10 step))

/-- The characters of a range spell it, if it is admissible. -/
lemma spelled_rangeChars {low high step : ℕ}
    (h : (Reference.random (.ofNat low) (.ofNat high) (some (.ofNat step))).Admissible) :
    Spelled (rangeChars low high step)
      (.single ⟨none, { ref := .random (.ofNat low) (.ofNat high) (.ofNat step) }⟩) := by
  refine ⟨.single ⟨none, .random (.ofNat low) (.ofNat high) (some (.ofNat step)), []⟩, ?_, rfl,
    fun rest lexemes hrest hscans => ?_⟩
  · exact ⟨h, by simp, Nat.zero_le _, Nat.zero_le _⟩
  · have hstep := scans_toDigits step (fun c hc => (breaks_iff.mp (hrest c hc)).2.2) hscans
    have hhigh := scans_toDigits high (by rintro c ⟨⟩; rfl) (scans_char (c := '_') rfl hstep)
    have hlow := scans_toDigits low (by rintro c ⟨⟩; rfl) (scans_char (c := '_') rfl hhigh)
    have hwhole := scans_char (c := '@') rfl hlow
    rw [rangeChars]
    simp only [List.cons_append, List.append_assoc]
    exact hwhole

/-- Characters that spell a step are read as the pattern of this step. -/
lemma Pattern.ofText_of_spelled {cs : List Char} {step : Step} (h : Spelled cs step) :
    ofText (String.ofList cs) = .ok ⟨[step]⟩ := by
  have hread := @ofText_joinWith Unit (fun _ => cs) (fun _ => step) [()] (List.cons_ne_nil _ _)
    fun _ _ => h
  rwa [List.map_singleton, List.map_singleton, joinWith] at hread

end WholeNumbers

end Arranger

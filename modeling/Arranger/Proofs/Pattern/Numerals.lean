import Mathlib.Data.List.TakeWhile
import Arranger.Number.Notation
import Arranger.Pattern.Printing
import Arranger.Pattern.Scanning
import Arranger.Proofs.Number.Decimal

/-!
# Numerals

A number without a minus sign that is written into a pattern is scanned again as the same number,
whatever stands behind it that is neither a digit nor a point.

## Main definitions

* `Arranger.Spells` — characters spell a decimal.

## Main results

* `Arranger.exists_numeral` — the characters that the scanner takes for a number.
* `Arranger.scanNumber_point`, `scanNumber_whole` — what it takes for one of them.
* `Arranger.spells_writeNumber` — a number is spelled by its characters.
* `Arranger.spells_toDigits` — so is a natural number by its digits.
-/

namespace Arranger

/-! ## Digits -/

/-- The characters of the two tests are the same. -/
lemma isDigitChar_of_isDigit {c : Char} (h : c.isDigit = true) : isDigitChar c = true := by
  simpa [isDigitChar, Char.isDigit, Char.le_def, UInt32.le_iff_toNat_le] using h

/-- Digits are digits. -/
lemma isDigitChar_of_mem_toDigits {n : ℕ} {c : Char} (h : c ∈ Nat.toDigits 10 n) :
    isDigitChar c = true :=
  isDigitChar_of_isDigit (Nat.isDigit_of_mem_toDigits (by norm_num) (by norm_num) h)

/-! ## Scanning -/

section Front

variable {α : Type} {p : α → Bool} {front rest : List α}

/-- The members at the front that meet a test are all taken, where the next one does not. -/
lemma takeWhile_front (hfront : ∀ x ∈ front, p x = true) (hrest : ∀ x ∈ rest.head?, p x = false) :
    (front ++ rest).takeWhile p = front := by
  rw [List.takeWhile_append_of_pos hfront]
  cases rest with
  | nil => simp
  | cons x xs => rw [List.takeWhile_cons, hrest x rfl]; simp

/-- The members at the front that meet a test are all dropped, where the next one does not. -/
lemma dropWhile_front (hfront : ∀ x ∈ front, p x = true) (hrest : ∀ x ∈ rest.head?, p x = false) :
    (front ++ rest).dropWhile p = rest := by
  rw [List.dropWhile_append_of_pos hfront]
  cases rest with
  | nil => rfl
  | cons x xs => rw [List.dropWhile_cons, hrest x rfl]; rfl

/-- The first member that is left does not meet the test. -/
lemma not_of_head_dropWhile : ∀ x ∈ (rest.dropWhile p).head?, p x = false := by
  intro x hx
  have hnot := List.head?_dropWhile_not p rest
  rw [hx] at hnot
  simpa using hnot

end Front

/-- Characters spell a rational, with a point or without one. -/
inductive Spells : List Char → ℚ → Prop where
  /-- Digits without a point. -/
  | whole {digits : List Char} : digits ≠ [] → (∀ c ∈ digits, isDigitChar c = true) →
      Spells digits (Decimal.ofChars digits []).value
  /-- Digits with a point. -/
  | fraction {digits places : List Char} : digits ≠ [] → (∀ c ∈ digits, isDigitChar c = true) →
      (∀ c ∈ places, isDigitChar c = true) →
      Spells (digits ++ '.' :: places) (Decimal.ofChars digits places).value

/-- Whether a character goes on with a number. -/
def continuesNumber (c : Char) : Bool :=
  isDigitChar c || c == '.'

/-- A character that does not go on with a number is no digit. -/
lemma not_digit_of_head {rest : List Char} (h : ∀ c ∈ rest.head?, continuesNumber c = false) :
    ∀ c ∈ rest.head?, isDigitChar c = false :=
  fun c hc => (Bool.or_eq_false_iff.mp (h c hc)).1

/-- The first character of a numeral is a digit. -/
lemma Spells.exists_cons {cs : List Char} {value : ℚ} (h : Spells cs value) :
    ∃ c more, cs = c :: more ∧ isDigitChar c = true := by
  have hfirst : ∀ digits : List Char, digits ≠ [] → (∀ c ∈ digits, isDigitChar c = true) →
      ∃ c more, digits = c :: more ∧ isDigitChar c = true := by
    intro digits hne hdigits
    obtain ⟨c, more, rfl⟩ := List.exists_cons_of_ne_nil hne
    exact ⟨c, more, rfl, hdigits c (List.mem_cons_self ..)⟩
  cases h with
  | whole hne hdigits => exact hfirst _ hne hdigits
  | fraction hne hdigits hplaces =>
    obtain ⟨c, more, rfl, hc⟩ := hfirst _ hne hdigits
    exact ⟨c, more ++ '.' :: _, rfl, hc⟩

/-- Digits with a point between them are a number, where no digit follows. -/
lemma scanNumber_point {whole places rest : List Char} (hwhole : ∀ c ∈ whole, isDigitChar c = true)
    (hplaces : ∀ c ∈ places, isDigitChar c = true) (hrest : ∀ c ∈ rest.head?, isDigitChar c = false) :
    scanNumber (whole ++ '.' :: places ++ rest) = ((Decimal.ofChars whole places).toBinary, rest) := by
  have hpoint : ∀ c ∈ ('.' :: (places ++ rest)).head?, isDigitChar c = false := by
    rintro c ⟨⟩
    rfl
  rw [List.append_assoc, List.cons_append, scanNumber, takeWhile_front hwhole hpoint,
    dropWhile_front hwhole hpoint]
  show ((Decimal.ofChars whole ((places ++ rest).takeWhile isDigitChar)).toBinary,
    (places ++ rest).dropWhile isDigitChar) = _
  rw [takeWhile_front hplaces hrest, dropWhile_front hplaces hrest]

/-- Digits are a number, where no digit and no point follows. -/
lemma scanNumber_whole {whole rest : List Char} (hwhole : ∀ c ∈ whole, isDigitChar c = true)
    (hrest : ∀ c ∈ rest.head?, continuesNumber c = false) :
    scanNumber (whole ++ rest) = ((Decimal.ofChars whole []).toBinary, rest) := by
  have hnoDigit := not_digit_of_head hrest
  rw [scanNumber, takeWhile_front hwhole hnoDigit, dropWhile_front hwhole hnoDigit]
  split
  · simp [continuesNumber] at hrest
  · rfl

/-- The characters of a number have a point among them or not. -/
lemma exists_numeral (cs : List Char) :
    (∃ whole places rest, cs = whole ++ '.' :: places ++ rest ∧
      (∀ c ∈ whole, isDigitChar c = true) ∧ (∀ c ∈ places, isDigitChar c = true) ∧
        ∀ c ∈ rest.head?, isDigitChar c = false) ∨
      ∃ whole rest, cs = whole ++ rest ∧ (∀ c ∈ whole, isDigitChar c = true) ∧
        ∀ c ∈ rest.head?, continuesNumber c = false := by
  have htaken : ∀ cs : List Char, ∀ c ∈ cs.takeWhile isDigitChar, isDigitChar c = true :=
    fun cs c hc => List.mem_takeWhile_imp hc
  have hsplit := List.takeWhile_append_dropWhile (p := isDigitChar) (l := cs)
  cases hdrop : cs.dropWhile isDigitChar with
  | nil =>
    refine .inr ⟨cs.takeWhile isDigitChar, [], ?_, htaken cs, by rintro c ⟨⟩⟩
    rw [← hdrop, hsplit]
  | cons c rest =>
    rw [hdrop] at hsplit
    by_cases hpoint : c = '.'
    · subst hpoint
      refine .inl ⟨cs.takeWhile isDigitChar, rest.takeWhile isDigitChar, rest.dropWhile isDigitChar,
        ?_, htaken cs, htaken rest, not_of_head_dropWhile⟩
      rw [List.append_assoc, List.cons_append, List.takeWhile_append_dropWhile, hsplit]
    · refine .inr ⟨cs.takeWhile isDigitChar, c :: rest, hsplit.symm, htaken cs, ?_⟩
      rintro c' ⟨⟩
      have hhead : c ∈ (cs.dropWhile isDigitChar).head? := by rw [hdrop]; rfl
      have hdigit := not_of_head_dropWhile c hhead
      simp [continuesNumber, hdigit, hpoint]

/-! ## Writing -/

/-- A natural number is spelled by its digits. -/
lemma spells_toDigits (n : ℕ) : Spells (Nat.toDigits 10 n) n := by
  have hvalue : (Decimal.ofChars (Nat.toDigits 10 n) []).value = n := by
    simp [Decimal.ofChars, Decimal.value]
  rw [← hvalue]
  exact .whole Nat.toDigits_ne_nil fun c => isDigitChar_of_mem_toDigits

/-- Zeros are digits. -/
lemma isDigitChar_of_mem_replicate {k : ℕ} {c : Char} (h : c ∈ List.replicate k '0') :
    isDigitChar c = true := by
  rw [List.eq_of_mem_replicate h]
  rfl

/-- Digits with zeros behind them spell a multiple of a power of ten. -/
lemma spells_zeros (n zeros : ℕ) :
    Spells (Nat.toDigits 10 n ++ List.replicate zeros '0') (Decimal.value ⟨n, .ofNat zeros⟩) := by
  have hvalue : (Decimal.ofChars (Nat.toDigits 10 n ++ List.replicate zeros '0') []).value =
      Decimal.value ⟨n, .ofNat zeros⟩ := by
    rw [Decimal.ofChars, List.append_nil, Nat.ofDigitChars_append, Nat.ofDigitChars_ten_toDigits,
      Nat.ofDigitChars_replicate_zero, Decimal.value, Decimal.value, Int.ofNat_eq_natCast,
      zpow_natCast]
    push_cast
    simp [mul_comm]
  rw [← hvalue]
  refine .whole ?_ fun c hmem => ?_
  · simp [Nat.toDigits_ne_nil]
  · rcases List.mem_append.mp hmem with hmem | hmem
    · exact isDigitChar_of_mem_toDigits hmem
    · exact isDigitChar_of_mem_replicate hmem

/-- Digits with a point between them spell a number of units of a power of ten. -/
lemma spells_point {digits : List Char} {n places : ℕ} (hdigits : ∀ c ∈ digits, isDigitChar c = true)
    (hlength : places + 2 ≤ digits.length) (hvalue : Nat.ofDigitChars 10 digits 0 = n) :
    Spells (digits.take (digits.length - (places + 1)) ++
      '.' :: digits.drop (digits.length - (places + 1))) (Decimal.value ⟨n, .negSucc places⟩) := by
  set cut := digits.length - (places + 1) with hcut
  have hread : (Decimal.ofChars (digits.take cut) (digits.drop cut)).value =
      Decimal.value ⟨n, .negSucc places⟩ := by
    have hdrop : (digits.drop cut).length = places + 1 := by
      rw [List.length_drop]
      omega
    rw [Decimal.ofChars, List.take_append_drop, hdrop, hvalue, Int.negSucc_eq]
    rfl
  rw [← hread]
  refine .fraction ?_ (fun c hmem => hdigits c (List.mem_of_mem_take hmem))
    fun c hmem => hdigits c (List.mem_of_mem_drop hmem)
  rw [← List.length_pos_iff, List.length_take]
  omega

/-- **A decimal is spelled by its digits with the point in its place.** -/
lemma spells_placePoint (d : Decimal) :
    Spells (Notation.placePoint false (Nat.toDigits 10 d.digits) d.exponent) d.value := by
  obtain ⟨n, exponent⟩ := d
  cases exponent with
  | ofNat zeros =>
    rw [Notation.placePoint, if_neg Bool.false_ne_true, List.append_nil]
    exact spells_zeros n zeros
  | negSucc places =>
    refine spells_point (fun c hmem => ?_) ?_ ?_
    · rcases List.mem_append.mp hmem with hmem | hmem
      · exact isDigitChar_of_mem_replicate hmem
      · exact isDigitChar_of_mem_toDigits hmem
    · rw [List.length_append, List.length_replicate]
      omega
    · rw [Nat.ofDigitChars_append, Nat.ofDigitChars_replicate_zero, Nat.mul_zero,
        Nat.ofDigitChars_ten_toDigits]

/-- A finite number is written as a decimal that reads back as its magnitude, with the sign in
front, and the number with the other sign as the same decimal. -/
lemma exists_decimal {x : Double} (hx : x.isFinite = true) :
    ∃ d : Decimal, d.toBinary = x.abs ∧
      writeNumber x = (if x.isNegative then ['-'] else []) ++ Notation.plain.writeDecimal d ∧
        writeNumber (-x) =
          (if (-x).isNegative then ['-'] else []) ++ Notation.plain.writeDecimal d := by
  cases x with
  | nan => cases hx
  | infinite s => cases hx
  | finite s m e hc =>
    cases m with
    | zero =>
      refine ⟨⟨0, 0⟩, Binary.toBinary_of_value_eq hx ?_, rfl, rfl⟩
      rw [Binary.abs_value_finite]
      simp [Decimal.value]
    | succ m =>
      refine ⟨_, Binary.toBinary_shortest hx, rfl, ?_⟩
      rw [← Binary.shortest_neg hx]
      rfl

/-- **A number without a minus sign is spelled by its characters.** -/
theorem spells_writeNumber {x : Double} (hx : x.isFinite = true) (hsign : x.isNegative = false) :
    ∃ value, Spells (writeNumber x) value ∧ Binary.round value = x := by
  obtain ⟨d, hread, hwrite, _⟩ := exists_decimal hx
  refine ⟨d.value, ?_, hread.trans (Binary.abs_of_not_isNegative hsign)⟩
  rw [hwrite, hsign, if_neg Bool.false_ne_true, List.nil_append]
  exact spells_placePoint d

/-- A number with a minus sign is written with the sign in front. -/
lemma writeNumber_neg {x : Double} (hx : x.isFinite = true) (hsign : x.isNegative = false) :
    writeNumber (-x) = '-' :: writeNumber x := by
  obtain ⟨d, _, hwrite, hneg⟩ := exists_decimal hx
  rw [hneg, hwrite, Binary.isNegative_neg hx, hsign]
  rfl

end Arranger

import Arranger.Pattern.Compiling
import Arranger.Proofs.Number.Sum
import Arranger.Proofs.Number.Magnitude
import Arranger.Proofs.Pattern.Writable

/-!
# Bounds on the numbers of a pattern

The numbers in a pattern that is read from a text keep within bounds, and what is made of the
pattern later relies on it: there is always something to choose from, never too much to shift, and
no count that is zero where it must not be.

## Main definitions

* `Arranger.BeatRef.Bounded`, `Slice.Bounded`, `Effect.Bounded`, `Term.Bounded` — the bounds.

## Main results

* `Arranger.Effect.Writable.bounded` — effects that can be written keep within bounds.
* `Arranger.Pattern.exists_phrase_of_ofText` — the terms of a pattern that is read from a text are
  those of admissible parse trees.
* `Arranger.Pattern.bounded_of_ofText` — they keep within bounds.
-/

namespace Arranger

/-! ## The bounds -/

/-- The bounds on the numbers of a reference. An offset is no more than `2 ^ 32` either way, and a
random range is finite, not negative and the right way round, has a positive step and holds from one
to `2 ^ 20` numbers. -/
def BeatRef.Bounded : BeatRef → Prop
  | literal _ => True
  | position offset => offset.natAbs ≤ 2 ^ 32
  | random low high step =>
    low.isFinite = true ∧ high.isFinite = true ∧ 0 ≤ low ∧ low ≤ high ∧ 0 < step ∧
      ∃ count, choices? low high step = some count ∧ 1 ≤ count ∧ count ≤ 2 ^ 20

/-- The bounds on the fraction of a slice: it is positive and at most one. -/
def Slice.Bounded : Slice → Prop
  | head fraction | tail fraction => 0 < fraction ∧ fraction ≤ 1

/-- The bounds on the number of an effect. A gain has none. -/
def Effect.Bounded : Effect → Prop
  | speed factor => factor.isFinite = true ∧ 1 / 64 ≤ factor
  | downsample hold => 1 ≤ hold
  | bitcrush depth => 1 ≤ depth ∧ depth ≤ 24
  | gradient passes => 1 ≤ passes ∧ passes ≤ 8
  | isolate channel => channel = 0 ∨ channel = 1
  | reverse | volume _ | swap => True

/-- A term whose numbers keep within bounds. -/
structure Term.Bounded (term : Term) : Prop where
  /-- The reference does. -/
  ref : term.beat.ref.Bounded
  /-- The slice does. -/
  slice : ∀ slice ∈ term.beat.slice, slice.Bounded
  /-- The effects do. -/
  effects : ∀ effect ∈ term.beat.effects, effect.Bounded

/-! ## Random ranges -/

/-- A range with candidates has finite ends and at least one candidate. -/
lemma isFinite_of_choices? {low high step : Double} {count : ℕ}
    (h : choices? low high step = some count) :
    low.isFinite = true ∧ high.isFinite = true ∧ 1 ≤ count := by
  simp only [choices?] at h
  split_ifs at h with hrange
  cases h
  simp only [Bool.or_eq_true, Bool.not_eq_true', not_or, Bool.not_eq_false] at hrange
  obtain ⟨⟨hspan, -⟩, -⟩ := hrange
  have hsum := Binary.isFinite_of_mapWhole hspan
  have hquotient := (Binary.isFinite_of_isFinite_add hsum).1
  have hdifference := Binary.isFinite_of_isFinite_div hquotient
  obtain ⟨hhigh, hlow⟩ := Binary.isFinite_of_isFinite_add hdifference
  rw [Binary.isFinite_neg] at hlow
  exact ⟨hlow, hhigh, Nat.le_add_left 1 _⟩

/-! ## Effects -/

namespace Effect

/-- A whole number within bounds is no less than the lower and no more than the upper one. -/
lemma bounds_of_wholeWithin? {high k : ℕ} {x : Double} (hhigh : high ≤ 2 ^ 53)
    (h : wholeWithin? 1 (Binary.ofNat high) x = some k) : 1 ≤ k ∧ k ≤ high := by
  simp only [wholeWithin?] at h
  split_ifs at h with hrange
  obtain ⟨hlow, hhigh'⟩ := hrange
  cases h
  obtain ⟨hone, hvalueOne, -⟩ := Binary.one_spec .double
  obtain ⟨hhighFinite, hhighValue, -⟩ := Binary.ofNat_spec .double hhigh
  have hfinite := Binary.isFinite_of_le hone hhighFinite hlow hhigh'
  obtain ⟨-, hvalue⟩ := Binary.roundAway_spec (Binary.isFinite_of_roundAway hfinite)
  rw [Binary.le_iff hone hfinite, hvalueOne, hvalue] at hlow
  rw [Binary.le_iff hfinite hhighFinite, hhighValue, hvalue] at hhigh'
  obtain ⟨n, hn⟩ := Int.eq_ofNat_of_zero_le (zero_le_one.trans (by exact_mod_cast hlow))
  have hword := Binary.toWord_of_value_eq (n := n) hfinite (by rw [hvalue, hn]; rfl)
  rw [hn] at hlow hhigh'
  have hlow : 1 ≤ n := by exact_mod_cast hlow
  have hhigh' : n ≤ high := by exact_mod_cast hhigh'
  have hmax : 1 ≤ maxWord := by decide
  rw [hword]
  omega

/-- **Effects that can be read again keep within bounds.** -/
theorem Writable.bounded {effect : Effect} (h : effect.Writable) : effect.Bounded := by
  have hreads := h.reads
  cases effect with
  | speed factor =>
    have hfinite := (h.parameter factor rfl).1
    refine ⟨hfinite, ?_⟩
    by_contra hslow
    have hslower : factor < minSpeed :=
      Binary.lt_of_not_le (by decide +kernel) (Binary.ne_nan hfinite) hslow
    simp [ofCode, code, parameter?, ofSpeed, hfinite, hslower] at hreads
  | reverse => trivial
  | volume gain => trivial
  | downsample hold =>
    by_contra hshort
    obtain rfl : hold = 0 := Nat.lt_one_iff.mp (not_le.mp hshort)
    revert hreads
    decide +kernel
  | bitcrush depth =>
    simp only [ofCode, code, parameter?, ofDepth] at hreads
    split_ifs at hreads
    split at hreads
    · next k hk =>
      cases hreads
      exact bounds_of_wholeWithin? (show 24 ≤ 2 ^ 53 by decide) hk
    · cases hreads
  | gradient passes =>
    simp only [ofCode, code, parameter?, ofPasses] at hreads
    split_ifs at hreads
    split at hreads
    · next k hk =>
      cases hreads
      exact bounds_of_wholeWithin? (show 8 ≤ 2 ^ 53 by decide) hk
    · cases hreads
  | swap => trivial
  | isolate channel =>
    simp only [ofCode, code, parameter?, ofChannel] at hreads
    split_ifs at hreads
    · cases hreads
      exact .inl rfl
    · cases hreads
      exact .inr rfl

/-- The effects of letters and numbers keep within bounds. -/
lemma bounded_of_ofCode {code : Char} {parameter : Option Double} {effect : Effect}
    (h : ofCode code parameter = .ok effect) : effect.Bounded := by
  obtain ⟨-, hother, hvolume⟩ := ofCode_spec h
  by_cases hcode : code = 'v'
  · obtain rfl := hvolume hcode
    trivial
  · exact (hother hcode).bounded

end Effect

/-! ## Terms of texts -/

namespace Grammar

/-- Admissible references keep within bounds. -/
lemma Reference.bounded_ref {reference : Reference}
    (hproper : ∀ lexeme ∈ reference.lexemes, lexeme.Proper) (h : reference.Admissible) :
    reference.ref.Bounded := by
  cases reference with
  | number value => trivial
  | negative value => trivial
  | position offset =>
    have hfinite : (position offset).ref.hasInfinity = false := by cases offset <;> rfl
    have hwritable := writable_ref hproper h hfinite
    cases offset with
    | none => exact hwritable
    | some signed => exact hwritable
  | glued word => exact Nat.zero_le _
  | random low high step =>
    obtain ⟨hstep, hle, count, hcount, hmax⟩ := h
    obtain ⟨hlow, hhigh, hone⟩ := isFinite_of_choices? hcount
    have hsign : low.isNegative = false := (hproper (.number low) (by simp [lexemes])).2
    have hnonneg : 0 ≤ low := by
      obtain ⟨hzero, hvalue, -⟩ := Binary.zero_spec .double
      rw [Binary.le_iff hzero hlow, hvalue]
      exact Binary.value_nonneg hsign
    exact ⟨hlow, hhigh, hnonneg, hle, hstep, count, hcount, hone, hmax⟩

/-- Admissible terms keep within bounds. -/
lemma Phrase.bounded_term {phrase : Phrase} (hproper : ∀ lexeme ∈ phrase.lexemes, lexeme.Proper)
    (h : phrase.Admissible) : phrase.term.Bounded := by
  refine ⟨Reference.bounded_ref (proper_reference hproper) h.reference, ?_, ?_⟩
  · intro slice hslice
    have hwritable := writable_of_mem_slice h hslice
    cases slice with
    | head fraction => exact hwritable.2
    | tail fraction => exact hwritable.2
  · intro effect hmem
    by_cases hgain : effect.hasInfiniteGain = true
    · -- only a gain can be infinite, and a gain has no bounds
      cases effect with
      | volume gain => trivial
      | _ => cases hgain
    · rw [Bool.not_eq_true] at hgain
      exact (writable_of_mem_effects hproper hmem hgain).bounded

end Grammar

namespace Pattern

open Grammar

variable {text : String} {pattern : Pattern}

/-- The terms of a pattern that is read from tokens are denoted by admissible parse trees of some of
the tokens. -/
lemma exists_phrase_of_scan {tokens : List Token} (hscan : scan text = .ok tokens)
    (h : ofText text = .ok pattern) {term : Term} (hterm : term ∈ pattern.terms) :
    ∃ phrase : Phrase, phrase.Admissible ∧
      (∀ lexeme ∈ phrase.lexemes, lexeme.Proper ∧ lexeme ∈ tokens.map Token.lexeme) ∧
      phrase.term = term := by
  rw [ofText, hscan] at h
  have hscanned : Scanned tokens := scanFrom_scanned hscan
  obtain ⟨tree, hlexemes, hadmissible, rfl⟩ := ofTokens_sound hscanned h
  have hproper := hscanned.proper
  rw [← hlexemes] at hproper ⊢
  obtain ⟨step, hstep, hterm⟩ := List.mem_flatMap.mp hterm
  obtain ⟨group, hgroup, rfl⟩ := List.mem_map.mp hstep
  rw [Group.terms_step] at hterm
  obtain ⟨phrase, hphrase, rfl⟩ := List.mem_map.mp hterm
  refine ⟨phrase, Group.admissible_of_mem_phrases hphrase (hadmissible group hgroup), ?_, rfl⟩
  intro lexeme hmem
  have htree := Tree.mem_lexemes hgroup (Group.mem_lexemes hphrase hmem)
  exact ⟨hproper lexeme htree (phrase.endsTerm_lexemes lexeme hmem), htree⟩

/-- The terms of a pattern that is read from a text are denoted by admissible parse trees with
proper lexemes. -/
lemma exists_phrase_of_ofText (h : ofText text = .ok pattern) {term : Term}
    (hterm : term ∈ pattern.terms) :
    ∃ phrase : Phrase, phrase.Admissible ∧ (∀ lexeme ∈ phrase.lexemes, lexeme.Proper) ∧
      phrase.term = term := by
  obtain ⟨tokens, hscan, -⟩ := bind_eq_ok_iff.mp h
  obtain ⟨phrase, hadmissible, hlexemes, rfl⟩ := exists_phrase_of_scan hscan h hterm
  exact ⟨phrase, hadmissible, fun lexeme hmem => (hlexemes lexeme hmem).1, rfl⟩

/-- Every step of a pattern that is read from a text has a term. -/
lemma terms_ne_nil_of_ofText (h : ofText text = .ok pattern) :
    ∀ step ∈ pattern.steps, step.terms ≠ [] := by
  obtain ⟨tokens, hscan, htokens⟩ := bind_eq_ok_iff.mp h
  obtain ⟨tree, -, -, rfl⟩ := ofTokens_sound (scanFrom_scanned hscan) htokens
  intro step hstep
  obtain ⟨group, -, rfl⟩ := List.mem_map.mp hstep
  cases group with
  | single phrase => exact List.cons_ne_nil _ _
  | mixed mode first second more => exact List.cons_ne_nil _ _

/-- **The terms of a pattern that is read from a text keep within bounds.** -/
theorem bounded_of_ofText (h : ofText text = .ok pattern) :
    ∀ term ∈ pattern.terms, term.Bounded := by
  intro term hterm
  obtain ⟨phrase, hadmissible, hproper, rfl⟩ := exists_phrase_of_ofText h hterm
  exact Phrase.bounded_term hproper hadmissible

end Pattern

end Arranger

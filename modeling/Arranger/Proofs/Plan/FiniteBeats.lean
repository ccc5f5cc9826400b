import Arranger.Proofs.Number.Sum
import Arranger.Proofs.Pattern.Digits
import Arranger.Proofs.Plan.Succession

/-!
# Finite beat numbers

A pattern that plays once looks up the numbers of its references as they are, and where they are not
finite the lookup fails. The reader of patterns makes sure of some of it: no number in a pattern is
not-a-number, and the ends of a random range are finite. It does not make sure of a literal or of the
step of a range. So a text with a very long number is read as a pattern that cannot be planned.
Shorter numbers are safe.

## Main results

* `Arranger.Stream.drawLong_lt` — what is drawn is below its bound.
* `Arranger.BeatRef.Bounded.isFinite_resolve` — references that stand for finite numbers.
* `Arranger.Pattern.finite_beats` — **which beat numbers of a text are finite**.
-/

namespace Arranger

/-! ## Draws -/

namespace Stream

/-- What is drawn from words below a modulus is below its bound. -/
lemma drawFrom_lt {next : Stream → ℕ × Stream} {modulus bound : ℕ}
    (hnext : ∀ stream, (next stream).1 < modulus) (hbound : 0 < bound) (attempts : ℕ)
    (stream : Stream) : (drawFrom next modulus bound attempts stream).1 < bound := by
  have hword : ∀ stream, (next stream).1 * bound / modulus < bound := fun stream => by
    have hlt := hnext stream
    rw [Nat.div_lt_iff_lt_mul (by omega), Nat.mul_comm bound]
    exact Nat.mul_lt_mul_of_pos_right hlt hbound
  induction attempts generalizing stream with
  | zero => exact hword stream
  | succ attempts ih =>
    show (if (next stream).1 * bound % modulus ≤ acceptedZone modulus bound then
      ((next stream).1 * bound / modulus, (next stream).2)
      else drawFrom next modulus bound attempts (next stream).2).1 < bound
    split_ifs
    · exact hword stream
    · exact ih _

/-- **What is drawn is below its bound.** -/
lemma drawLong_lt {bound : ℕ} (hbound : 0 < bound) (stream : Stream) :
    (stream.drawLong bound).1 < bound := by
  refine drawFrom_lt (fun stream => ?_) hbound _ stream
  have hlow := stream.peek.toNat_lt
  have hhigh := (stream.skip 1).peek.toNat_lt
  rw [longWord]
  dsimp only
  omega

end Stream

/-! ## References -/

/-- **References that stand for finite numbers** are looked up by finite numbers, where nothing is
added to them. -/
lemma BeatRef.Bounded.isFinite_resolve {ref : BeatRef} (h : ref.Bounded) (hfinite : ref.IsFinite)
    {size position beatCount : ℕ} {stream : Stream} {beat : Double}
    (hresolve : (ref.resolve ⟨size, .ofNat 0, position⟩ beatCount stream).1 = .ok beat) :
    beat.isFinite = true := by
  cases ref with
  | literal number =>
    cases hresolve
    exact Binary.isFinite_add_ofNat_zero hfinite
  | position offset =>
    rw [resolve] at hresolve
    split at hresolve
    · next number hnumber =>
      cases hresolve
      have hmax : (maxStepNumber : ℤ) + 1 ≤ 2 ^ 64 := by decide
      obtain ⟨-, -, hlow, hhigh⟩ := movedStep?_eq_some_iff.mp hnumber
      exact Binary.isFinite_ofInt (abs_le.mpr ⟨by omega, by omega⟩)
    · cases hresolve
  | random low high step =>
    obtain ⟨-, -, -, -, -, count, hcount, hone, -⟩ := h
    rw [resolve, hcount] at hresolve
    cases hresolve
    exact Binary.isFinite_add_ofNat_zero
      (hfinite count hcount _ (stream.drawLong_lt (Nat.lt_of_lt_of_le Nat.zero_lt_one hone)))

namespace Stage

/-- Where a pattern plays once, what is looked up is the number of one of its terms, with nothing
added. -/
lemma exists_resolve_of_mem_requests {stage : Stage} (honce : stage.repetition = .once)
    {pattern : Pattern} {cursor : Cursor} {request : Request}
    (h : request ∈ stage.requests pattern cursor) :
    ∃ term ∈ pattern.terms, ∃ size position stream,
      (term.beat.ref.resolve ⟨size, .ofNat 0, position⟩ request.map.beatCount stream).1 =
        .ok request.beat := by
  obtain ⟨cue, hcue, term, hterm, size, position, stream, hmem⟩ := exists_place_of_mem_planNotes h
  rw [repetitions_eq_one (.inl honce), cues, List.range_one, List.flatMap_singleton,
    Nat.zero_mul] at hcue
  obtain ⟨step, -, rfl⟩ := List.mem_map.mp hcue
  refine ⟨term, hterm, size, position, stream, ?_⟩
  unfold termRequests at hmem
  split at hmem
  · cases hmem
  · split at hmem
    · cases hmem
    · next hresolve =>
      obtain rfl := List.mem_singleton.mp hmem
      exact hresolve

end Stage

/-! ## Texts -/

namespace Pattern

open Grammar

/-- No literal in a pattern that is read from a text is not-a-number. -/
lemma literal_ne_nan {text : String} {pattern : Pattern} (h : ofText text = .ok pattern)
    {term : Term} (hterm : term ∈ pattern.terms) {number : Double}
    (hliteral : term.beat.ref = .literal number) : number ≠ .nan := by
  obtain ⟨phrase, -, hproper, rfl⟩ := exists_phrase_of_ofText h hterm
  have hreference := Grammar.Phrase.proper_reference hproper
  change phrase.reference.ref = .literal number at hliteral
  generalize phrase.reference = reference at hreference hliteral
  cases reference with
  | number value =>
    obtain rfl := BeatRef.literal.inj hliteral
    exact (hreference (.number value) (by simp [Grammar.Reference.lexemes])).1
  | negative value =>
    obtain rfl := BeatRef.literal.inj hliteral
    have hvalue := (hreference (.number value) (by simp [Grammar.Reference.lexemes])).1
    intro hnan
    apply hvalue
    rw [← Binary.neg_neg value, hnan]
    rfl
  | position offset => rcases offset with _ | _ <;> cases hliteral
  | glued word => cases hliteral
  | random low high step => cases hliteral

/-- **Which beat numbers of a text are finite.** Take a text that is read as a pattern. Each of its
references keeps within the bounds, so that the ends of a range are finite and in order. A literal is
a number, but may be infinite. A range whose step is infinite has one candidate, which is not a
number. Without an infinite literal or step, and without a range that ends above half of the limit of
the format, the literals and all the candidates are finite.

So they are if no run of digits in the text has more than 307 members. Where they are, and the
pattern plays once, nothing that is looked up while it is planned is infinite or not a number.

**Proof sketch.** The digits of a number in the text are a run, and a number with so few digits is
below half of the limit. A draw is below the number of candidates, and this many steps are not much
longer than the range. A position is a whole number, with nothing added where the pattern plays
once. -/
theorem finite_beats {text : String} {pattern : Pattern} (h : ofText text = .ok pattern) :
    (∀ term ∈ pattern.terms, term.beat.ref.Bounded ∧
      (∀ number, term.beat.ref = .literal number → number ≠ .nan) ∧
      (∀ low high step, term.beat.ref = .random low high step → step.isFinite = false →
        choices? low high step = some 1 ∧ candidate low step 0 = .nan) ∧
      (term.beat.ref.Moderate → term.beat.ref.IsFinite)) ∧
    (HasShortRuns text → ∀ term ∈ pattern.terms, term.beat.ref.IsFinite) ∧
    ∀ (stage : Stage) (cursor : Cursor), stage.repetition = .once →
      (∀ term ∈ pattern.terms, term.beat.ref.IsFinite) →
      ∀ request ∈ stage.requests pattern cursor, request.beat.isFinite = true := by
  have hbounded := bounded_of_ofText h
  refine ⟨fun term hterm => ?_, fun hshort term hterm => ?_, ?_⟩
  · have href := (hbounded term hterm).ref
    refine ⟨href, fun number hliteral => literal_ne_nan h hterm hliteral, ?_, href.isFinite⟩
    intro low high step hrandom hstep
    rw [hrandom] at href
    exact href.candidate_eq_nan hstep
  · exact (hbounded term hterm).ref.isFinite (moderate_of_hasShortRuns h hshort term hterm)
  · intro stage cursor honce hfinite request hrequest
    obtain ⟨term, hterm, size, position, stream, hresolve⟩ :=
      Stage.exists_resolve_of_mem_requests honce hrequest
    exact (hbounded term hterm).ref.isFinite_resolve (hfinite term hterm) hresolve

/-- A literal with a minus sign, a range and a position, planned from the third step of a song of
three beats on. -/
theorem finite_beats_three_steps :
    ∃ pattern, ofText "-2,@1_2_0.5,i-4" = .ok pattern ∧
      (∀ term ∈ pattern.terms, term.beat.ref.IsFinite) ∧
      (Stage.requests ⟨⟨⟨[[0, 1, 0]], 1⟩, ⟨[0, 1, 2, 3], 3⟩⟩, .empty, .once⟩ pattern
        ⟨.ofSeed 3, 2⟩).length = 3 ∧
      ∀ request ∈ Stage.requests ⟨⟨⟨[[0, 1, 0]], 1⟩, ⟨[0, 1, 2, 3], 3⟩⟩, .empty, .once⟩ pattern
        ⟨.ofSeed 3, 2⟩, request.beat.isFinite = true := by
  have htext : ofText "-2,@1_2_0.5,i-4" = .ok ⟨[.single ⟨none, { ref := .literal (-2) }⟩,
      .single ⟨none, { ref := .random 1 2 (1 / 2) }⟩,
      .single ⟨none, { ref := .position (-4) }⟩]⟩ := by
    decide +kernel
  have hshort : HasShortRuns "-2,@1_2_0.5,i-4" := fun run hrun _ =>
    hrun.length_le.trans (by decide)
  obtain ⟨-, hfinite, hplanned⟩ := finite_beats htext
  exact ⟨_, htext, hfinite hshort, by decide +kernel,
    hplanned _ _ rfl (hfinite hshort)⟩

/-- **Texts with very long numbers** are read as patterns that cannot be planned. The number with 309
zeros is an infinite literal. As the step of a range it leaves one candidate, which is not a number.
And a range from zero to the largest number by half of the limit has three finite numbers and three
candidates, of which the last is infinite. -/
theorem ofText_long_numbers :
    ofText (String.ofList (Nat.toDigits 10 (10 ^ 309))) =
      .ok ⟨[.single ⟨none, { ref := .literal (.infinite false) }⟩]⟩ ∧
    (Stage.plan ⟨⟨⟨[[0]], 2⟩, ⟨[0, 1], 1⟩⟩, .empty, .once⟩
      ⟨[.single ⟨none, { ref := .literal (.infinite false) }⟩]⟩ (.ofSeed 0)).1 =
        .error (.beatOutOfRange (.infinite false) 1) ∧
    ofText (String.ofList (rangeChars 1 2 (10 ^ 309))) =
      .ok ⟨[.single ⟨none, { ref := .random 1 2 (.infinite false) }⟩]⟩ ∧
    choices? 1 2 (.infinite false) = some 1 ∧ candidate 1 (.infinite false) 0 = .nan ∧
    (Stage.plan ⟨⟨⟨[[0]], 2⟩, ⟨[0, 1], 1⟩⟩, .empty, .once⟩
      ⟨[.single ⟨none, { ref := .random 1 2 (.infinite false) }⟩]⟩ (.ofSeed 0)).1 =
        .error (.beatOutOfRange .nan 1) ∧
    ofText (String.ofList (rangeChars 0 (2 ^ 1024 - 2 ^ 971) (2 ^ 1023))) = .ok ⟨[.single ⟨none,
      { ref := .random 0 (.ofNat (2 ^ 1024 - 2 ^ 971)) (.ofNat (2 ^ 1023)) }⟩]⟩ ∧
    choices? 0 (.ofNat (2 ^ 1024 - 2 ^ 971)) (.ofNat (2 ^ 1023)) = some 3 ∧
    (.ofNat (2 ^ 1024 - 2 ^ 971) : Double).isFinite = true ∧
    candidate 0 (.ofNat (2 ^ 1023)) 2 = .infinite false := by
  have hinfinite : (.ofNat (10 ^ 309) : Double) = .infinite false := by decide +kernel
  have hstep : (Reference.random (.ofNat 1) (.ofNat 2) (some (.ofNat (10 ^ 309)))).Admissible := by
    rw [hinfinite]
    exact ⟨by decide +kernel, by decide +kernel, 1, by decide +kernel, by decide⟩
  have hrange : (Reference.random (.ofNat 0) (.ofNat (2 ^ 1024 - 2 ^ 971))
      (some (.ofNat (2 ^ 1023)))).Admissible :=
    ⟨by decide +kernel, by decide +kernel, 3, by decide +kernel, by decide⟩
  refine ⟨hinfinite ▸ ofText_of_spelled (spelled_digits _), by decide +kernel,
    hinfinite ▸ ofText_of_spelled (spelled_rangeChars hstep), by decide +kernel, by decide +kernel,
    by decide +kernel, ofText_of_spelled (spelled_rangeChars hrange), by decide +kernel,
    by decide +kernel, by decide +kernel⟩

end Pattern

end Arranger

import Mathlib.Data.List.Forall2
import Mathlib.Tactic.SplitIfs
import Mathlib.Data.Nat.Notation
import Arranger.Pattern.Reading
import Arranger.Proofs.Fallible

/-!
# Tokens at other places

No reader decides anything by the position of a token: positions only go into errors. So from tokens
that differ in their positions alone the same is read, or it is the same that is wrong. Where two
errors are is related as the positions of their tokens are, whatever relation that is.

## Main definitions

* `Arranger.Token.Alike` — two tokens that differ in their positions alone, with a relation between
  these for everything that can be wrong there.
* `Arranger.ReadAlike` — two results, or two errors with the same cause at related positions.

## Main results

* `Arranger.Pattern.ofTokens_alike` — tokens that are alike are read alike.

## Implementation notes

The relation between positions may depend on the cause. An error in an effect is at its letter, which
need not be where the word starts, so a word brings a relation for each of its letters.
-/

namespace Arranger

open List (Forall₂)

/-! ## Errors and results -/

/-- Whether a cause does not name the character at its place. -/
def PatternError.Cause.isPlain : PatternError.Cause → Bool
  | unexpectedChar _ | badEffect _ => false
  | _ => true

variable {Q : PatternError.Cause → ℕ → ℕ → Prop} {α β γ δ : Type}

/-- Two results are related, or two errors have one cause and their positions are related. -/
inductive ReadAlike (Q : PatternError.Cause → ℕ → ℕ → Prop) (S : α → β → Prop) :
    Except PatternError α → Except PatternError β → Prop where
  /-- There are two errors. -/
  | error {cause : PatternError.Cause} {position position' : ℕ} (h : Q cause position position') :
      ReadAlike Q S (.error ⟨cause, position⟩) (.error ⟨cause, position'⟩)
  /-- There are two results. -/
  | ok {a : α} {b : β} (h : S a b) : ReadAlike Q S (.ok a) (.ok b)

/-- Computations in sequence are alike if the first ones are and then the second ones. -/
lemma ReadAlike.bind {S : α → β → Prop} {T : γ → δ → Prop} {x : Except PatternError α}
    {y : Except PatternError β} {f : α → Except PatternError γ} {g : β → Except PatternError δ}
    (h : ReadAlike Q S x y) (hnext : ∀ a b, S a b → ReadAlike Q T (f a) (g b)) :
    ReadAlike Q T (x >>= f) (y >>= g) := by
  cases h with
  | error h => exact .error h
  | ok h => exact hnext _ _ h

/-- Members that are alike have results that are alike. -/
lemma ReadAlike.mapM {R : α → β → Prop} {S : γ → δ → Prop} {as : List α} {bs : List β}
    {f : α → Except PatternError γ} {g : β → Except PatternError δ} (h : Forall₂ R as bs)
    (hmembers : ∀ a b, R a b → ReadAlike Q S (f a) (g b)) :
    ReadAlike Q (Forall₂ S) (as.mapM f) (bs.mapM g) := by
  induction h with
  | nil => exact .ok .nil
  | cons hfirst _ ih =>
    rw [List.mapM_cons, List.mapM_cons]
    exact (hmembers _ _ hfirst).bind fun _ _ hresult => ih.bind fun _ _ hmore =>
      .ok (.cons hresult hmore)

/-! ## Tokens -/

/-- Letters at two places. Everything that can be wrong at a letter is wrong at related positions. -/
def LettersAlike (Q : PatternError.Cause → ℕ → ℕ → Prop) (position position' : ℕ) :
    List Char → Prop
  | [] => True
  | code :: codes =>
    (∀ cause, cause.isPlain = true → Q cause position position') ∧
      (∀ parameter rejection, Effect.ofCode code parameter = .error rejection →
        Q (.badEffect rejection) position position') ∧
      LettersAlike Q (position + 1) (position' + 1) codes

/-- Letters are alike if the positions of each one are related whatever is wrong there. -/
lemma lettersAlike_of_forall {position position' : ℕ} {letters : List Char}
    (h : ∀ i < letters.length, ∀ cause, Q cause (position + i) (position' + i)) :
    LettersAlike Q position position' letters := by
  induction letters generalizing position position' with
  | nil => trivial
  | cons code codes ih =>
    refine ⟨fun cause _ => h 0 (Nat.succ_pos _) cause, fun _ rejection _ =>
      h 0 (Nat.succ_pos _) (.badEffect rejection), ih fun i hi cause => ?_⟩
    have hnext := h (i + 1) (Nat.succ_lt_succ hi) cause
    rwa [Nat.add_comm i, ← Nat.add_assoc, ← Nat.add_assoc] at hnext

/-- Two tokens that differ in their positions alone. Everything that can be wrong at the tokens is
wrong at related positions. -/
structure Token.Alike (Q : PatternError.Cause → ℕ → ℕ → Prop) (token other : Token) : Prop where
  /-- The tokens are of the same kind and carry the same. -/
  lexeme : token.lexeme = other.lexeme
  /-- The positions are related. -/
  place : ∀ cause, cause.isPlain = true → Q cause token.position other.position
  /-- The positions of the letters are related. -/
  letters : ∀ word, token.lexeme = .word word →
    LettersAlike Q token.position other.position word.toList

/-- What was read is the same, and the tokens that are left are alike. -/
def RestAlike (Q : PatternError.Cause → ℕ → ℕ → Prop) (found other : α × List Token) : Prop :=
  found.1 = other.1 ∧ Forall₂ (Token.Alike Q) found.2 other.2

/-! ## Single tokens -/

section Readers

variable {closing closing' : Token} {tokens tokens' : List Token}

/-- Tokens that are alike are as many, and the first two of them are of one kind. -/
lemma alike_cases (h : Forall₂ (Token.Alike Q) tokens tokens') :
    (tokens = [] ∧ tokens' = []) ∨
      ∃ lexeme position position' rest rest', tokens = ⟨lexeme, position⟩ :: rest ∧
        tokens' = ⟨lexeme, position'⟩ :: rest' ∧
          Token.Alike Q ⟨lexeme, position⟩ ⟨lexeme, position'⟩ ∧
            Forall₂ (Token.Alike Q) rest rest' := by
  cases h with
  | nil => exact .inl ⟨rfl, rfl⟩
  | @cons token other rest rest' hfirst hrest =>
    obtain ⟨lexeme, position⟩ := token
    obtain ⟨lexeme', position'⟩ := other
    obtain rfl : lexeme = lexeme' := hfirst.lexeme
    exact .inr ⟨lexeme, position, position', rest, rest', rfl, rfl, hfirst, hrest⟩

/-- Tokens that are alike begin with the same number, or with none. -/
lemma alike_number_cases (h : Forall₂ (Token.Alike Q) tokens tokens') :
    (∃ value position position' rest rest', tokens = ⟨.number value, position⟩ :: rest ∧
      tokens' = ⟨.number value, position'⟩ :: rest' ∧ Forall₂ (Token.Alike Q) rest rest') ∨
      (∀ value position rest, tokens = ⟨.number value, position⟩ :: rest → False) ∧
        ∀ value position rest, tokens' = ⟨.number value, position⟩ :: rest → False := by
  obtain ⟨rfl, rfl⟩ | ⟨lexeme, position, position', rest, rest', rfl, rfl, -, hrest⟩ := alike_cases h
  · exact .inr ⟨by rintro _ _ _ ⟨⟩, by rintro _ _ _ ⟨⟩⟩
  · cases lexeme with
    | number value => exact .inl ⟨value, position, position', rest, rest', rfl, rfl, hrest⟩
    | _ => exact .inr ⟨by rintro _ _ _ ⟨⟩, by rintro _ _ _ ⟨⟩⟩

/-- The next tokens are alike. -/
lemma headD_alike (hclosing : closing.Alike Q closing') (h : Forall₂ (Token.Alike Q) tokens tokens') :
    (tokens.headD closing).Alike Q (tokens'.headD closing') := by
  cases h with
  | nil => exact hclosing
  | cons hfirst hrest => exact hfirst

/-- Errors about the next token are alike. -/
lemma unexpected_alike {S : α → β → Prop} (cause : Lexeme → PatternError.Cause)
    (hplain : ∀ found, (cause found).isPlain = true) (hclosing : closing.Alike Q closing')
    (h : Forall₂ (Token.Alike Q) tokens tokens') :
    ReadAlike Q S (.error (unexpected cause closing tokens))
      (.error (unexpected cause closing' tokens')) := by
  have hnext := headD_alike hclosing h
  simp only [unexpected, hnext.lexeme]
  exact .error (hnext.place _ (hplain _))

/-- Numbers are read alike. -/
lemma readNumber_alike (hclosing : closing.Alike Q closing')
    (h : Forall₂ (Token.Alike Q) tokens tokens') :
    ReadAlike Q (RestAlike Q) (readNumber closing tokens) (readNumber closing' tokens') := by
  have herror := unexpected_alike (S := RestAlike Q (α := Double)) .expectedNumber
    (fun _ => rfl) hclosing h
  obtain ⟨rfl, rfl⟩ | ⟨lexeme, position, position', rest, rest', rfl, rfl, hfirst, hrest⟩ :=
    alike_cases h
  · exact herror
  · cases lexeme with
    | number value => exact .ok ⟨rfl, hrest⟩
    | _ => exact herror

/-- Whole numbers are read alike. -/
lemma readInteger_alike (hclosing : closing.Alike Q closing')
    (h : Forall₂ (Token.Alike Q) tokens tokens') :
    ReadAlike Q (RestAlike Q) (readInteger closing tokens) (readInteger closing' tokens') := by
  have herror := unexpected_alike (S := RestAlike Q (α := ℕ)) .expectedInteger
    (fun _ => rfl) hclosing h
  obtain ⟨rfl, rfl⟩ | ⟨lexeme, position, position', rest, rest', rfl, rfl, hfirst, hrest⟩ :=
    alike_cases h
  · exact herror
  · cases lexeme with
    | number value =>
      simp only [readInteger]
      split_ifs with hwhole hsmall
      · exact .ok ⟨rfl, hrest⟩
      · exact .error (hfirst.place _ rfl)
      · exact .error (hfirst.place _ rfl)
    | _ => exact herror

/-- The characters `_` are read alike. -/
lemma readUnderscore_alike (hclosing : closing.Alike Q closing')
    (h : Forall₂ (Token.Alike Q) tokens tokens') :
    ReadAlike Q (Forall₂ (Token.Alike Q)) (readUnderscore closing tokens)
      (readUnderscore closing' tokens') := by
  have herror := unexpected_alike (S := Forall₂ (Token.Alike Q))
    (.expectedToken .underscore) (fun _ => rfl) hclosing h
  obtain ⟨rfl, rfl⟩ | ⟨lexeme, position, position', rest, rest', rfl, rfl, hfirst, hrest⟩ :=
    alike_cases h
  · exact herror
  · cases lexeme with
    | underscore => exact .ok hrest
    | _ => exact herror

/-! ## Beat references -/

/-- Offsets are read alike. -/
lemma readOffset_alike (hclosing : closing.Alike Q closing')
    (h : Forall₂ (Token.Alike Q) tokens tokens') :
    ReadAlike Q (RestAlike Q) (readOffset closing tokens) (readOffset closing' tokens') := by
  have hnone := h
  obtain ⟨rfl, rfl⟩ | ⟨lexeme, position, position', rest, rest', rfl, rfl, hfirst, hrest⟩ :=
    alike_cases h
  · exact .ok ⟨rfl, hnone⟩
  · cases lexeme with
    | plus =>
      exact (readInteger_alike hclosing hrest).bind fun _ _ hoffset =>
        .ok ⟨congrArg Int.ofNat hoffset.1, hoffset.2⟩
    | minus =>
      exact (readInteger_alike hclosing hrest).bind fun _ _ hoffset =>
        .ok ⟨congrArg (fun offset : ℕ => -(offset : Int)) hoffset.1, hoffset.2⟩
    | _ => exact .ok ⟨rfl, hnone⟩

/-- Steps of random ranges are read alike. -/
lemma readRandomStep_alike (hclosing : closing.Alike Q closing')
    (h : Forall₂ (Token.Alike Q) tokens tokens') :
    ReadAlike Q (RestAlike Q) (readRandomStep closing tokens) (readRandomStep closing' tokens') := by
  have hnone := h
  obtain ⟨rfl, rfl⟩ | ⟨lexeme, position, position', rest, rest', rfl, rfl, hfirst, hrest⟩ :=
    alike_cases h
  · exact .ok ⟨rfl, hnone⟩
  · cases lexeme with
    | underscore => exact readNumber_alike hclosing hrest
    | _ => exact .ok ⟨rfl, hnone⟩

/-- Random references at two places are alike. -/
lemma randomRef_alike {position position' : ℕ}
    (hplace : ∀ cause, cause.isPlain = true → Q cause position position') (low high step : Double) :
    ReadAlike Q Eq (randomRef position low high step) (randomRef position' low high step) := by
  simp only [randomRef]
  split_ifs
  · exact .error (hplace _ rfl)
  · exact .error (hplace _ rfl)
  · split
    · exact .error (hplace _ rfl)
    · exact .ok rfl

/-- Random references are read alike. -/
lemma readRandom_alike {position position' : ℕ}
    (hplace : ∀ cause, cause.isPlain = true → Q cause position position')
    (hclosing : closing.Alike Q closing') (h : Forall₂ (Token.Alike Q) tokens tokens') :
    ReadAlike Q (RestAlike Q) (readRandom closing position tokens)
      (readRandom closing' position' tokens') := by
  refine (readNumber_alike hclosing h).bind ?_
  rintro ⟨low, rest⟩ ⟨_, rest'⟩ ⟨rfl, hrest⟩
  refine (readUnderscore_alike hclosing hrest).bind fun rest rest' hrest => ?_
  refine (readNumber_alike hclosing hrest).bind ?_
  rintro ⟨high, rest⟩ ⟨_, rest'⟩ ⟨rfl, hrest⟩
  refine (readRandomStep_alike hclosing hrest).bind ?_
  rintro ⟨step, rest⟩ ⟨_, rest'⟩ ⟨rfl, hrest⟩
  exact (randomRef_alike hplace low high step).bind fun _ _ href => .ok ⟨href, hrest⟩

/-- **Beat references are read alike**, also where letters of effects are glued to them. -/
lemma readRef_alike (hclosing : closing.Alike Q closing')
    (h : Forall₂ (Token.Alike Q) tokens tokens') :
    ReadAlike Q (RestAlike Q) (readRef closing tokens) (readRef closing' tokens') := by
  have herror := unexpected_alike (S := RestAlike Q (α := BeatRef)) .expectedBeat
    (fun _ => rfl) hclosing h
  obtain ⟨rfl, rfl⟩ | ⟨lexeme, position, position', rest, rest', rfl, rfl, hfirst, hrest⟩ :=
    alike_cases h
  · exact herror
  · cases lexeme with
    | number value => exact .ok ⟨rfl, hrest⟩
    | minus =>
      exact (readNumber_alike hclosing hrest).bind fun _ _ hvalue =>
        .ok ⟨congrArg (fun value : Double => BeatRef.literal (-value)) hvalue.1, hvalue.2⟩
    | «at» => exact readRandom_alike hfirst.place hclosing hrest
    | word letters =>
      have hletters := hfirst.letters letters rfl
      simp only [readRef]
      split
      · exact (readOffset_alike hclosing hrest).bind fun _ _ hoffset =>
          .ok ⟨congrArg BeatRef.position hoffset.1, hoffset.2⟩
      · next more hmore heq =>
        rw [heq] at hletters
        -- the letters behind the first one are a word of their own, one place further
        obtain ⟨-, -, hglued⟩ := hletters
        refine .ok ⟨rfl, .cons ⟨rfl, ?_, ?_⟩ hrest⟩
        · cases more with
          | nil => exact (hmore rfl).elim
          | cons code codes => exact hglued.1
        · rintro word ⟨⟩
          rwa [String.toList_ofList]
      · exact .error (hfirst.place _ rfl)
    | _ => exact herror

/-! ## Suffixes -/

/-- Effects at two places are alike. -/
lemma readEffects_alike {parameter : Option Double} {position position' : ℕ} {letters : List Char}
    (h : LettersAlike Q position position' letters) :
    ReadAlike Q Eq (readEffects parameter position letters)
      (readEffects parameter position' letters) := by
  induction letters generalizing position position' with
  | nil => exact .ok rfl
  | cons code codes ih =>
    obtain ⟨-, hrejected, hcodes⟩ := h
    rw [readEffects, readEffects]
    split
    · next rejection hcode => exact .error (hrejected _ rejection hcode)
    · exact (ih hcodes).bind fun _ _ heffects => .ok (congrArg (_ :: ·) heffects)

/-- Words at two places are taken on alike. -/
lemma Beat.withWord_alike (beat : Beat) {word : String} (parameter : Option Double)
    {position position' : ℕ} (h : LettersAlike Q position position' word.toList) :
    ReadAlike Q Eq (beat.withWord word parameter position)
      (beat.withWord word parameter position') :=
  (readEffects_alike h).bind fun _ _ heffects => .ok (by rw [heffects])

/-- Slices at two places are taken on alike. -/
lemma Beat.withSlice_alike (beat : Beat) (slice : Double → Slice) (fraction : Double)
    {position position' : ℕ}
    (hplace : ∀ cause, cause.isPlain = true → Q cause position position') :
    ReadAlike Q Eq (beat.withSlice slice fraction position)
      (beat.withSlice slice fraction position') := by
  unfold withSlice
  split_ifs
  · exact .error (hplace _ rfl)
  · exact .ok rfl
  · exact .error (hplace _ rfl)

/-- Group marks at two places are taken on alike. -/
lemma Beat.withGroup_alike (beat : Beat) (name : String) {position position' : ℕ}
    (hplace : ∀ cause, cause.isPlain = true → Q cause position position') :
    ReadAlike Q Eq (beat.withGroup name position) (beat.withGroup name position') := by
  unfold withGroup
  split_ifs
  · exact .error (hplace _ rfl)
  · exact .ok rfl

/-- **Suffixes are read alike.**

**Proof sketch.** By induction on the number of tokens. A number behind a word or a mark goes with it
in both lists or in none. -/
lemma readSuffixes_alike (beat : Beat) (hclosing : closing.Alike Q closing')
    (h : Forall₂ (Token.Alike Q) tokens tokens') :
    ReadAlike Q Eq (readSuffixes closing beat tokens) (readSuffixes closing' beat tokens') := by
  induction hlength : tokens.length using Nat.strongRecOn generalizing beat tokens tokens' with
  | ind length ih =>
    have hbind : ∀ {x y : Except PatternError Beat} {rest rest' : List Token},
        ReadAlike Q Eq x y → rest.length < length → Forall₂ (Token.Alike Q) rest rest' →
          ReadAlike Q Eq (x >>= fun beat => readSuffixes closing beat rest)
            (y >>= fun beat => readSuffixes closing' beat rest') := by
      intro x y rest rest' hbeat hshorter hrest
      refine hbeat.bind ?_
      rintro beat _ rfl
      exact ih rest.length hshorter beat hrest rfl
    obtain ⟨rfl, rfl⟩ | ⟨lexeme, position, position', rest, rest', rfl, rfl, hfirst, hrest⟩ :=
      alike_cases h
    · exact .ok rfl
    · rw [List.length_cons] at hlength
      cases lexeme with
      | word letters =>
        have hletters := hfirst.letters letters rfl
        obtain ⟨value, _, _, more, more', rfl, rfl, hmore⟩ | ⟨hnone, hnone'⟩ :=
          alike_number_cases hrest
        · rw [readSuffixes, readSuffixes]
          rw [List.length_cons] at hlength
          exact hbind (beat.withWord_alike (some value) hletters) (by omega) hmore
        · rw [readSuffixes, readSuffixes]
          · exact hbind (beat.withWord_alike none hletters) (by omega) hrest
          · exact hnone'
          · exact hnone
      | greater =>
        obtain ⟨value, _, _, more, more', rfl, rfl, hmore⟩ | ⟨hnone, hnone'⟩ :=
          alike_number_cases hrest
        · rw [readSuffixes, readSuffixes]
          rw [List.length_cons] at hlength
          exact hbind (beat.withSlice_alike .head value hfirst.place) (by omega) hmore
        · rw [readSuffixes, readSuffixes]
          · exact unexpected_alike .expectedNumber (fun _ => rfl) hclosing hrest
          · exact hnone'
          · exact hnone
      | less =>
        obtain ⟨value, _, _, more, more', rfl, rfl, hmore⟩ | ⟨hnone, hnone'⟩ :=
          alike_number_cases hrest
        · rw [readSuffixes, readSuffixes]
          rw [List.length_cons] at hlength
          exact hbind (beat.withSlice_alike .tail value hfirst.place) (by omega) hmore
        · rw [readSuffixes, readSuffixes]
          · exact unexpected_alike .expectedNumber (fun _ => rfl) hclosing hrest
          · exact hnone'
          · exact hnone
      | bang => exact ih rest.length (by omega) { beat with silent := true } hrest rfl
      | question => exact ih rest.length (by omega) { beat with uncounted := true } hrest rfl
      | group name =>
        exact hbind (beat.withGroup_alike name hfirst.place) (by omega) hrest
      | _ => exact .error (hfirst.place _ rfl)

/-! ## Terms, steps and patterns -/

/-- Aliases are read alike. -/
lemma readAlias_alike (h : Forall₂ (Token.Alike Q) tokens tokens') :
    RestAlike Q (readAlias tokens) (readAlias tokens') := by
  have hnone := h
  obtain ⟨rfl, rfl⟩ | ⟨lexeme, position, position', rest, rest', rfl, rfl, hfirst, hrest⟩ :=
    alike_cases h
  · exact ⟨rfl, hnone⟩
  · cases lexeme with
    | source name => exact ⟨rfl, hrest⟩
    | _ => exact ⟨rfl, hnone⟩

end Readers

/-- The tokens of two terms are alike. -/
structure Run.Alike (Q : PatternError.Cause → ℕ → ℕ → Prop) (run other : Run) : Prop where
  /-- The tokens of the terms are alike. -/
  tokens : Forall₂ (Token.Alike Q) run.tokens other.tokens
  /-- What follows is alike. -/
  closing : run.closing.Alike Q other.closing

/-- The tokens of two steps are alike. -/
structure Bar.Alike (Q : PatternError.Cause → ℕ → ℕ → Prop) (bar other : Bar) : Prop where
  /-- The first terms are alike. -/
  first : bar.first.Alike Q other.first
  /-- So are the others. -/
  others : Forall₂ (Run.Alike Q) bar.others other.others

/-- Tokens that are alike are divided alike into terms. -/
lemma runs_alike {tokens tokens' : List Token} (h : Forall₂ (Token.Alike Q) tokens tokens') :
    Forall₂ (Run.Alike Q) (runs tokens) (runs tokens') := by
  induction h with
  | nil => exact .nil
  | @cons token other tokens tokens' hfirst _ ih =>
    rw [runs, runs, ← hfirst.lexeme]
    split_ifs
    · exact .cons ⟨.nil, hfirst⟩ ih
    · generalize runs tokens = found, runs tokens' = found' at ih
      cases ih with
      | nil => exact .nil
      | cons hrun hmore => exact .cons ⟨.cons hfirst hrun.tokens, hrun.closing⟩ hmore

/-- Terms that are alike are joined alike to steps. -/
lemma joinRuns_alike {found found' : List Run} (h : Forall₂ (Run.Alike Q) found found') :
    Forall₂ (Bar.Alike Q) (joinRuns found) (joinRuns found') := by
  induction h with
  | nil => exact .nil
  | @cons run other more more' hrun _ ih =>
    rw [joinRuns, joinRuns, ← hrun.closing.lexeme]
    generalize joinRuns more = joined, joinRuns more' = joined' at ih
    cases run.closing.lexeme.mixMode? with
    | none => exact .cons ⟨hrun, .nil⟩ ih
    | some mode =>
      cases ih with
      | nil => exact .cons ⟨hrun, .nil⟩ .nil
      | cons hbar hbars => exact .cons ⟨hrun, .cons hbar.first hbar.others⟩ hbars

/-- Terms are read alike. -/
lemma Run.read_alike {run other : Run} (h : run.Alike Q other) :
    ReadAlike Q Eq run.read other.read := by
  have halias := readAlias_alike h.tokens
  refine (readRef_alike h.closing halias.2).bind ?_
  rintro ⟨ref, rest⟩ ⟨_, rest'⟩ ⟨rfl, hrest⟩
  refine (readSuffixes_alike _ h.closing hrest).bind ?_
  rintro beat _ rfl
  exact .ok (congrArg (fun source => Term.mk source beat) halias.1)

/-- The parts of mixes are read alike. -/
lemma readParts_alike (mode : MixMode) {opening opening' : Token} {found found' : List Run}
    (hopening : opening.Alike Q opening') (h : Forall₂ (Run.Alike Q) found found') :
    ReadAlike Q Eq (readParts mode opening found) (readParts mode opening' found') := by
  induction h generalizing opening opening' with
  | nil => exact .ok rfl
  | cons hrun _ ih =>
    rw [readParts, readParts, ← hopening.lexeme]
    split_ifs
    · refine (Run.read_alike hrun).bind ?_
      rintro term _ rfl
      exact (ih hrun.closing).bind fun _ _ hterms => .ok (congrArg (term :: ·) hterms)
    · exact .error (hopening.place _ rfl)

/-- Steps are read alike. -/
lemma Bar.read_alike {bar other : Bar} (h : bar.Alike Q other) :
    ReadAlike Q Eq bar.read other.read := by
  have hplace := (headD_alike h.first.closing h.first.tokens).place
  refine (Run.read_alike h.first).bind ?_
  rintro first _ rfl
  have hothers := h.others
  dsimp only
  rw [← h.first.closing.lexeme]
  generalize bar.others = others, other.others = others' at hothers
  cases hmode : bar.first.closing.lexeme.mixMode? with
  | none => exact .ok rfl
  | some mode =>
    cases hothers with
    | nil => exact .ok rfl
    | cons hsecond hmore =>
      refine (readParts_alike mode h.first.closing (.cons hsecond hmore)).bind ?_
      rintro terms _ rfl
      split_ifs
      · exact .error (hplace _ rfl)
      · exact .ok rfl

/-- **Tokens that are alike are read alike.** -/
theorem Pattern.ofTokens_alike {tokens tokens' : List Token}
    (h : Forall₂ (Token.Alike Q) tokens tokens') :
    ReadAlike Q Eq (ofTokens tokens) (ofTokens tokens') := by
  refine (ReadAlike.mapM (joinRuns_alike (runs_alike h)) fun _ _ => Bar.read_alike).bind ?_
  intro steps steps' hsteps
  rw [List.forall₂_eq_eq_eq] at hsteps
  exact .ok (congrArg Pattern.mk hsteps)

end Arranger

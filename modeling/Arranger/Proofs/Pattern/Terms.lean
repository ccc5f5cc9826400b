import Arranger.Proofs.Number.Order
import Arranger.Proofs.Pattern.Suffixes

/-!
# Reading terms

What the readers of beats and terms accept is what the grammar derives.

## Main results

* `Arranger.randomRef_eq_ok_iff` — the conditions on a random range.
* `Arranger.readRef_sound`, `readRef_append` — the beat of a term.
* `Arranger.Run.read_sound`, `Run.read_complete` — a whole term.
-/

namespace Arranger

open Grammar

/-! ## Single tokens -/

/-- A number is read where there is one. -/
lemma readNumber_eq_ok_iff {closing : Token} {tokens rest : List Token} {value : Double} :
    readNumber closing tokens = .ok (value, rest) ↔
      ∃ position, tokens = ⟨.number value, position⟩ :: rest := by
  constructor
  · intro h
    match tokens with
    | [] => simp [readNumber] at h
    | ⟨lexeme, position⟩ :: tokens =>
      cases lexeme with
      | number found =>
        cases h
        exact ⟨position, rfl⟩
      | _ => simp [readNumber] at h
  · rintro ⟨position, rfl⟩
    rfl

/-- An offset is read where there is a number that is whole and not too large. -/
lemma readInteger_eq_ok_iff {closing : Token} {tokens rest : List Token} {n : ℕ} :
    readInteger closing tokens = .ok (n, rest) ↔
      ∃ value position, tokens = ⟨.number value, position⟩ :: rest ∧ value.isWhole = true ∧
        value ≤ Binary.ofNat maxOffset ∧ value.toWord = n := by
  constructor
  · intro h
    match tokens with
    | [] => simp [readInteger] at h
    | ⟨lexeme, position⟩ :: tokens =>
      cases lexeme with
      | number value =>
        rw [readInteger] at h
        split_ifs at h with hwhole hle
        cases h
        exact ⟨value, position, rfl, hwhole, hle, rfl⟩
      | _ => simp [readInteger] at h
  · rintro ⟨value, position, rfl, hwhole, hle, rfl⟩
    rw [readInteger, if_pos hwhole, if_pos hle]

/-- The character is read where it stands. -/
lemma readUnderscore_eq_ok_iff {closing : Token} {tokens rest : List Token} :
    readUnderscore closing tokens = .ok rest ↔
      ∃ position, tokens = ⟨.underscore, position⟩ :: rest := by
  constructor
  · intro h
    match tokens with
    | [] => simp [readUnderscore] at h
    | ⟨lexeme, position⟩ :: tokens =>
      cases lexeme with
      | underscore =>
        cases h
        exact ⟨position, rfl⟩
      | _ => simp [readUnderscore] at h
  · rintro ⟨position, rfl⟩
    rfl

/-! ## Random ranges -/

/-- A range with candidates has no more than `maxChoices`, and none of its numbers is
not-a-number. -/
lemma choices?_eq_some {low high step : Double} {count : ℕ}
    (h : choices? low high step = some count) :
    count ≤ maxChoices ∧ low ≠ .nan ∧ high ≠ .nan ∧ step ≠ .nan := by
  simp only [choices?] at h
  split_ifs at h with hrange
  rw [Option.some.injEq] at h
  simp only [Bool.or_eq_true, Bool.not_eq_true', decide_eq_true_eq, not_or] at hrange
  obtain ⟨⟨hfinite, _⟩, hmax⟩ := hrange
  rw [Bool.not_eq_false] at hfinite
  have hnan : ∀ x : Double, x = .nan → (x + slack).floor.isFinite = false := by
    rintro x rfl
    rw [Binary.nan_add]
    rfl
  refine ⟨?_, ?_, ?_, ?_⟩
  · have hfiniteMax : (Binary.ofNat maxChoices : Double).isFinite = true :=
      Binary.isFinite_ofNat (by decide)
    rw [Binary.le_iff hfiniteMax hfinite, Binary.value_ofNat (by decide), not_le] at hmax
    have hword := Binary.toWord_lt (by decide) hfinite hmax
    omega
  · rintro rfl
    rw [hnan _ (by rw [Binary.sub_nan, Binary.nan_div])] at hfinite
    cases hfinite
  · rintro rfl
    rw [hnan _ (by rw [Binary.nan_sub, Binary.nan_div])] at hfinite
    cases hfinite
  · rintro rfl
    rw [hnan _ (by rw [Binary.div_nan])] at hfinite
    cases hfinite

/-- A random reference is accepted under the conditions of the grammar. -/
lemma randomRef_eq_ok_iff {position : ℕ} {low high step : Double} {ref : BeatRef} :
    randomRef position low high step = .ok ref ↔
      (0 < step ∧ low ≤ high ∧ ∃ count, choices? low high step = some count ∧
        count ≤ maxChoices) ∧ .random low high step = ref := by
  unfold randomRef
  constructor
  · intro h
    split_ifs at h with hstep hrange
    split at h
    · cases h
    · next count hcount =>
      cases h
      obtain ⟨hmax, hlow, hhigh, hstepNan⟩ := choices?_eq_some hcount
      have hzero := Binary.ne_nan (Binary.zero_spec .double).1
      exact ⟨⟨Binary.lt_of_not_le hstepNan hzero hstep, Binary.le_of_not_lt hhigh hlow hrange,
        count, hcount, hmax⟩, rfl⟩
  · rintro ⟨⟨hstep, hrange, count, hcount, _⟩, rfl⟩
    rw [if_neg (Binary.not_le_of_lt hstep), if_neg (Binary.not_lt_of_le hrange), hcount]

/-- What is read as a step is one, or nothing where none is written. -/
lemma readRandomStep_sound {closing : Token} {tokens rest : List Token} {step : Double}
    (h : readRandomStep closing tokens = .ok (step, rest)) :
    ∃ (written : Option Double) (front : List Token), tokens = front ++ rest ∧
      front.map Token.lexeme = Grammar.optional Reference.stepLexemes written ∧
        written.getD 1 = step := by
  by_cases hmark : ∃ position more, tokens = ⟨.underscore, position⟩ :: more
  · obtain ⟨position, more, rfl⟩ := hmark
    obtain ⟨position', rfl⟩ := readNumber_eq_ok_iff.mp h
    exact ⟨some step, [_, _], rfl, rfl, rfl⟩
  · rw [readRandomStep] at h
    · cases h
      exact ⟨none, [], rfl, rfl, rfl⟩
    · exact fun position more heq => hmark ⟨position, more, heq⟩

/-- A step is read, or one where none is written. -/
lemma readRandomStep_append {closing : Token} {front rest : List Token} {written : Option Double}
    (hfront : front.map Token.lexeme = Grammar.optional Reference.stepLexemes written)
    (hrest : Follows (rest.map Token.lexeme)) :
    readRandomStep closing (front ++ rest) = .ok (written.getD 1, rest) := by
  cases written with
  | none =>
    obtain rfl := List.map_eq_nil_iff.mp hfront
    rw [List.nil_append, readRandomStep]
    · rfl
    · rintro position more rfl
      exact not_follows rfl hrest
  | some step =>
    obtain ⟨position, number, rfl, hnumber⟩ := exists_token hfront
    obtain ⟨position', nothing, rfl, hnothing⟩ := exists_token hnumber
    obtain rfl := List.map_eq_nil_iff.mp hnothing
    rfl

/-! ## Beats -/

/-- What is read as an offset is an admissible one, or zero where none is written. -/
lemma readOffset_sound {closing : Token} {tokens rest : List Token} {offset : ℤ}
    (h : readOffset closing tokens = .ok (offset, rest)) :
    ∃ (written : Option (Sign × Double)) (front : List Token), tokens = front ++ rest ∧
      front.map Token.lexeme = Grammar.optional Reference.offsetLexemes written ∧
        (Reference.position written).Admissible ∧
          (Reference.position written).ref = .position offset := by
  by_cases hplus : ∃ position more, tokens = ⟨.plus, position⟩ :: more
  · obtain ⟨position, more, rfl⟩ := hplus
    obtain ⟨⟨n, more'⟩, hread, hreturn⟩ := bind_eq_ok_iff.mp h
    obtain ⟨value, position', rfl, hwhole, hle, rfl⟩ := readInteger_eq_ok_iff.mp hread
    cases hreturn
    refine ⟨some (.plus, value), [_, _], rfl, rfl, ?_, rfl⟩
    rintro signed ⟨⟩
    exact ⟨hwhole, hle⟩
  · by_cases hminus : ∃ position more, tokens = ⟨.minus, position⟩ :: more
    · obtain ⟨position, more, rfl⟩ := hminus
      obtain ⟨⟨n, more'⟩, hread, hreturn⟩ := bind_eq_ok_iff.mp h
      obtain ⟨value, position', rfl, hwhole, hle, rfl⟩ := readInteger_eq_ok_iff.mp hread
      cases hreturn
      refine ⟨some (.minus, value), [_, _], rfl, rfl, ?_, rfl⟩
      rintro signed ⟨⟩
      exact ⟨hwhole, hle⟩
    · rw [readOffset] at h
      · cases h
        exact ⟨none, [], rfl, rfl, (by rintro signed ⟨⟩), rfl⟩
      · exact fun position more heq => hplus ⟨position, more, heq⟩
      · exact fun position more heq => hminus ⟨position, more, heq⟩

/-- An admissible offset is read, or zero where none is written. -/
lemma readOffset_append {closing : Token} {front rest : List Token}
    {written : Option (Sign × Double)}
    (hfront : front.map Token.lexeme = Grammar.optional Reference.offsetLexemes written)
    (hadmissible : (Reference.position written).Admissible)
    (hrest : Follows (rest.map Token.lexeme)) :
    ∃ offset, readOffset closing (front ++ rest) = .ok (offset, rest) ∧
      (Reference.position written).ref = .position offset := by
  rcases written with _ | ⟨sign, value⟩
  · obtain rfl := List.map_eq_nil_iff.mp hfront
    refine ⟨0, ?_, rfl⟩
    rw [List.nil_append, readOffset]
    · rintro position more rfl
      exact not_follows rfl hrest
    · rintro position more rfl
      exact not_follows rfl hrest
  · obtain ⟨position, number, rfl, hnumber⟩ := exists_token hfront
    obtain ⟨position', nothing, rfl, hnothing⟩ := exists_token hnumber
    obtain rfl := List.map_eq_nil_iff.mp hnothing
    obtain ⟨hwhole, hle⟩ := hadmissible _ rfl
    have hread : readInteger closing (⟨.number value, position'⟩ :: rest) =
        .ok (value.toWord, rest) :=
      readInteger_eq_ok_iff.mpr ⟨value, position', rfl, hwhole, hle, rfl⟩
    cases sign with
    | plus => exact ⟨value.toWord, bind_eq_ok_iff.mpr ⟨_, hread, rfl⟩, rfl⟩
    | minus => exact ⟨-value.toWord, bind_eq_ok_iff.mpr ⟨_, hread, rfl⟩, rfl⟩

/-- What is read as a random range is an admissible one. -/
lemma readRandom_sound {closing : Token} {position : ℕ} {tokens rest : List Token} {ref : BeatRef}
    (h : readRandom closing position tokens = .ok (ref, rest)) :
    ∃ (low high : Double) (step : Option Double) (front : List Token), tokens = front ++ rest ∧
      .at :: front.map Token.lexeme = (Reference.random low high step).lexemes ∧
        (Reference.random low high step).Admissible ∧
          (Reference.random low high step).ref = ref := by
  obtain ⟨⟨low, rest₁⟩, hlow, h⟩ := bind_eq_ok_iff.mp h
  obtain ⟨rest₂, hmark, h⟩ := bind_eq_ok_iff.mp h
  obtain ⟨⟨high, rest₃⟩, hhigh, h⟩ := bind_eq_ok_iff.mp h
  obtain ⟨⟨step, rest₄⟩, hstep, h⟩ := bind_eq_ok_iff.mp h
  obtain ⟨ref', href, h⟩ := bind_eq_ok_iff.mp h
  obtain ⟨position₁, rfl⟩ := readNumber_eq_ok_iff.mp hlow
  obtain ⟨position₂, rfl⟩ := readUnderscore_eq_ok_iff.mp hmark
  obtain ⟨position₃, rfl⟩ := readNumber_eq_ok_iff.mp hhigh
  obtain ⟨written, front, rfl, hfront, rfl⟩ := readRandomStep_sound hstep
  obtain ⟨hadmissible, rfl⟩ := randomRef_eq_ok_iff.mp href
  cases h
  refine ⟨low, high, written, _ :: _ :: _ :: front, rfl, ?_, hadmissible, rfl⟩
  simp [Reference.lexemes, hfront]

/-- An admissible random range is read. -/
lemma readRandom_append {closing : Token} {position : ℕ} {front rest : List Token}
    {low high : Double} {step : Option Double}
    (hfront : .at :: front.map Token.lexeme = (Reference.random low high step).lexemes)
    (hadmissible : (Reference.random low high step).Admissible)
    (hrest : Follows (rest.map Token.lexeme)) :
    readRandom closing position (front ++ rest) =
      .ok ((Reference.random low high step).ref, rest) := by
  rw [Reference.lexemes, List.cons_append, List.cons.injEq] at hfront
  obtain ⟨position₁, front₁, rfl, hfront₁⟩ := exists_token hfront.2
  obtain ⟨position₂, front₂, rfl, hfront₂⟩ := exists_token hfront₁
  obtain ⟨position₃, front₃, rfl, hfront₃⟩ := exists_token hfront₂
  refine bind_eq_ok_iff.mpr ⟨(low, _), rfl, ?_⟩
  refine bind_eq_ok_iff.mpr ⟨_, rfl, ?_⟩
  refine bind_eq_ok_iff.mpr ⟨(high, front₃ ++ rest), rfl, ?_⟩
  refine bind_eq_ok_iff.mpr ⟨_, readRandomStep_append hfront₃ hrest, ?_⟩
  exact bind_eq_ok_iff.mpr ⟨_, randomRef_eq_ok_iff.mpr ⟨hadmissible, rfl⟩, rfl⟩

/-- What is read as a beat is an admissible one without effects, or the position with the effects
behind it given back. -/
lemma readRef_sound {closing : Token} {tokens rest : List Token} {ref : BeatRef}
    (h : readRef closing tokens = .ok (ref, rest)) :
    (∃ (reference : Reference) (front : List Token), tokens = front ++ rest ∧
      front.map Token.lexeme = reference.lexemes ∧ reference.Admissible ∧ reference.ref = ref ∧
        ∀ word, reference ≠ .glued word) ∨
    ∃ first more position tail,
      tokens = ⟨.word (String.ofList ('i' :: first :: more)), position⟩ :: tail ∧
        rest = ⟨.word (String.ofList (first :: more)), position + 1⟩ :: tail ∧
          ref = .position 0 := by
  match tokens with
  | [] => simp [readRef] at h
  | ⟨lexeme, position⟩ :: tokens =>
    cases lexeme with
    | number value =>
      cases h
      exact .inl ⟨.number value, [_], rfl, rfl, trivial, rfl, by simp⟩
    | minus =>
      obtain ⟨⟨value, rest'⟩, hread, hreturn⟩ := bind_eq_ok_iff.mp h
      obtain ⟨position', rfl⟩ := readNumber_eq_ok_iff.mp hread
      cases hreturn
      exact .inl ⟨.negative value, [_, _], rfl, rfl, trivial, rfl, by simp⟩
    | «at» =>
      obtain ⟨low, high, step, front, rfl, hfront, hadmissible, href⟩ := readRandom_sound h
      exact .inl ⟨.random low high step, _ :: front, rfl, hfront, hadmissible, href, by simp⟩
    | word letters =>
      rw [readRef] at h
      split at h
      · next hletters =>
        obtain ⟨⟨offset, rest'⟩, hread, hreturn⟩ := bind_eq_ok_iff.mp h
        obtain ⟨written, front, rfl, hfront, hadmissible, href⟩ := readOffset_sound hread
        cases hreturn
        refine .inl ⟨.position written, _ :: front, rfl, ?_, hadmissible, href, by simp⟩
        have hword : letters = "i" := String.toList_inj.mp hletters
        rw [List.map_cons, hfront, hword]
        rfl
      · next more hne hletters =>
        cases more with
        | nil => exact absurd rfl hne
        | cons first more =>
          cases h
          refine .inr ⟨first, more, position, tokens, ?_, rfl, rfl⟩
          rw [← hletters, String.ofList_toList]
      · cases h
    | _ => simp [readRef] at h

/-- An admissible beat without effects is read. -/
lemma readRef_append {closing : Token} {front rest : List Token} {reference : Reference}
    (hfront : front.map Token.lexeme = reference.lexemes) (hadmissible : reference.Admissible)
    (hplain : ∀ word, reference ≠ .glued word) (hrest : Follows (rest.map Token.lexeme)) :
    readRef closing (front ++ rest) = .ok (reference.ref, rest) := by
  obtain ⟨position, tokens, rfl, htokens⟩ : ∃ position tokens,
      front = ⟨reference.lexemes.headD .stop, position⟩ :: tokens ∧
        tokens.map Token.lexeme = reference.lexemes.tail := by
    cases reference <;> exact exists_token hfront
  cases reference with
  | number value =>
    obtain rfl := List.map_eq_nil_iff.mp htokens
    rfl
  | negative value =>
    obtain ⟨position', nothing, rfl, hnothing⟩ := exists_token htokens
    obtain rfl := List.map_eq_nil_iff.mp hnothing
    rfl
  | position offset =>
    obtain ⟨n, hread, href⟩ := readOffset_append htokens hadmissible hrest
    rw [href]
    exact bind_eq_ok_iff.mpr ⟨_, hread, rfl⟩
  | glued word => exact absurd rfl (hplain word)
  | random low high step => exact readRandom_append hfront hadmissible hrest

/-- The position with letters behind it is read, and the letters are given back. -/
lemma readRef_glued {closing : Token} {first : Char} {more : List Char} {position : ℕ}
    {rest : List Token} :
    readRef closing (⟨.word (String.ofList ('i' :: first :: more)), position⟩ :: rest) =
      .ok (.position 0, ⟨.word (String.ofList (first :: more)), position + 1⟩ :: rest) := by
  rw [readRef, String.toList_ofList]
  rfl

/-! ## Terms -/

/-- A beat without suffixes takes on suffixes under the conditions of the grammar. -/
lemma takes_bare {ref : BeatRef} {suffixes : List Suffix} {result : Beat} :
    Beat.Takes ⟨ref, none, [], false, false, none⟩ suffixes result ↔
      (∀ suffix ∈ suffixes, suffix.Admissible) ∧
        (suffixes.filterMap Suffix.slice?).length ≤ 1 ∧
          (suffixes.filterMap Suffix.group?).length ≤ 1 ∧
            { ref := ref
              slice := (suffixes.filterMap Suffix.slice?).head?
              effects := suffixes.flatMap Suffix.effectList
              silent := suffixes.contains .silent
              uncounted := suffixes.contains .uncounted
              group := (suffixes.filterMap Suffix.group?).head? } = result :=
  ⟨fun ⟨hadmissible, hslices, hgroups, hresult⟩ => ⟨hadmissible, hslices, hgroups, hresult⟩,
    fun ⟨hadmissible, hslices, hgroups, hresult⟩ => ⟨hadmissible, hslices, hgroups, hresult⟩⟩

/-- The suffixes of a beat that come with its reference: the effects of a glued word. -/
def Grammar.Reference.suffixes : Reference → List Suffix
  | .glued word => [.effects word]
  | _ => []

/-- The suffixes that come with a reference ask for no slice. -/
lemma filterMap_slice?_suffixes (reference : Reference) :
    reference.suffixes.filterMap Suffix.slice? = [] := by
  cases reference <;> rfl

/-- The suffixes that come with a reference name no group. -/
lemma filterMap_group?_suffixes (reference : Reference) :
    reference.suffixes.filterMap Suffix.group? = [] := by
  cases reference <;> rfl

/-- The suffixes that come with a reference have its effects. -/
lemma flatMap_effectList_suffixes (reference : Reference) :
    reference.suffixes.flatMap Suffix.effectList = reference.effectList := by
  cases reference <;> simp [Reference.suffixes, Reference.effectList, Suffix.effectList]

/-- The suffixes that come with a reference are no marks. -/
lemma contains_suffixes (reference : Reference) :
    reference.suffixes.contains .silent = false ∧
      reference.suffixes.contains .uncounted = false := by
  cases reference <;> simp [Reference.suffixes]

/-- The suffixes that come with an admissible reference are admissible. -/
lemma admissible_suffixes {reference : Reference} (h : reference.Admissible) :
    ∀ suffix ∈ reference.suffixes, suffix.Admissible := by
  cases reference with
  | glued word =>
    rintro suffix hmem
    rw [List.mem_singleton.mp hmem]
    exact h
  | _ => simp [Reference.suffixes]

/-- The beat of a phrase is its bare reference with all suffixes taken on. -/
lemma phrase_takes_iff (phrase : Phrase) {result : Beat} (h : phrase.reference.Admissible) :
    Beat.Takes ⟨phrase.reference.ref, none, [], false, false, none⟩
        (phrase.reference.suffixes ++ phrase.suffixes) result ↔
      phrase.Admissible ∧ phrase.term.beat = result := by
  rw [takes_bare, List.filterMap_append, List.filterMap_append, List.flatMap_append,
    filterMap_slice?_suffixes, filterMap_group?_suffixes, flatMap_effectList_suffixes,
    List.contains_append, List.contains_append, (contains_suffixes _).1, (contains_suffixes _).2]
  constructor
  · rintro ⟨hsuffixes, hslices, hgroups, hresult⟩
    exact ⟨⟨h, fun suffix hmem => hsuffixes suffix (List.mem_append_right _ hmem), hslices,
      hgroups⟩, hresult⟩
  · rintro ⟨⟨_, hsuffixes, hslices, hgroups⟩, hresult⟩
    refine ⟨fun suffix hmem => ?_, hslices, hgroups, hresult⟩
    rcases List.mem_append.mp hmem with hown | hmore
    · exact admissible_suffixes h suffix hown
    · exact hsuffixes suffix hmore

/-- The alias in front is read, or none where there is none. -/
lemma readAlias_sound {tokens rest : List Token} {source : Option String}
    (h : readAlias tokens = (source, rest)) :
    ∃ front, tokens = front ++ rest ∧
      front.map Token.lexeme = Grammar.optional (fun name => [.source name]) source := by
  by_cases hmark : ∃ name position more, tokens = ⟨.source name, position⟩ :: more
  · obtain ⟨name, position, more, rfl⟩ := hmark
    cases h
    exact ⟨[_], rfl, rfl⟩
  · rw [readAlias] at h
    · cases h
      exact ⟨[], rfl, rfl⟩
    · exact fun name position more heq => hmark ⟨name, position, more, heq⟩

/-- The alias in front of a beat is read. -/
lemma readAlias_append {front rest : List Token} {source : Option String} {reference : Reference}
    {lexemes : List Lexeme}
    (hfront : front.map Token.lexeme = Grammar.optional (fun name => [.source name]) source)
    (hrest : rest.map Token.lexeme = reference.lexemes ++ lexemes) :
    readAlias (front ++ rest) = (source, rest) := by
  cases source with
  | none =>
    obtain rfl := List.map_eq_nil_iff.mp hfront
    rw [List.nil_append, readAlias]
    rintro name position more rfl
    cases reference <;> simp [Reference.lexemes, Word.lexemes] at hrest
  | some name =>
    obtain ⟨position, nothing, rfl, hnothing⟩ := exists_token hfront
    obtain rfl := List.map_eq_nil_iff.mp hnothing
    rfl

/-- Suffixes that start with a word start with its effects. -/
lemma exists_word_suffix {suffixes : List Suffix} {first : Char} {more : List Char}
    {lexemes : List Lexeme}
    (h : suffixes.flatMap Suffix.lexemes = .word (String.ofList (first :: more)) :: lexemes) :
    ∃ parameter others, suffixes = .effects ⟨first, more, parameter⟩ :: others ∧
      lexemes = Grammar.optional (fun value => [.number value]) parameter ++
        others.flatMap Suffix.lexemes := by
  cases suffixes with
  | nil => simp at h
  | cons suffix others =>
    cases suffix with
    | effects word =>
      obtain ⟨first', more', parameter⟩ := word
      obtain ⟨hword, hlexemes⟩ := List.cons.inj h
      cases word_ofList_inj.mp hword
      exact ⟨parameter, others, rfl, hlexemes.symm⟩
    | _ => simp [Suffix.lexemes] at h

/-- **What is read as a term is derived by the grammar.**

**Proof sketch.** Where the position and effects are one word, the reader of the beat gives the
letters of the effects back, and they are the first suffix that the reader of suffixes finds. -/
theorem Run.read_sound {run : Run} {term : Term} (hwords : NonemptyWords run.tokens)
    (h : run.read = .ok term) :
    ∃ phrase : Phrase, phrase.lexemes = run.tokens.map Token.lexeme ∧ phrase.Admissible ∧
      phrase.term = term := by
  unfold Run.read at h
  cases hsource : readAlias run.tokens with
  | mk source rest =>
  rw [hsource] at h
  obtain ⟨front, htokens, hfront⟩ := readAlias_sound hsource
  have hwordsRest : NonemptyWords rest := fun token hmem =>
    hwords token (htokens ▸ List.mem_append_right front hmem)
  obtain ⟨⟨ref, more⟩, href, h⟩ := bind_eq_ok_iff.mp h
  obtain ⟨beat, hbeat, h⟩ := bind_eq_ok_iff.mp h
  cases h
  rcases readRef_sound href with
    ⟨reference, front', rfl, hfront', hadmissible, rfl, hplain⟩ |
    ⟨letter, letters, position, tail, rfl, rfl, rfl⟩
  · have hwordsMore : NonemptyWords more := fun token hmem =>
      hwordsRest token (List.mem_append_right front' hmem)
    obtain ⟨suffixes, hsuffixes, htakes⟩ := readSuffixes_sound hwordsMore hbeat
    have hnone : reference.suffixes = [] := by
      cases reference with
      | glued word => exact absurd rfl (hplain word)
      | _ => rfl
    rw [← List.nil_append suffixes, ← hnone] at htakes
    obtain ⟨hphrase, rfl⟩ :=
      (phrase_takes_iff ⟨source, reference, suffixes⟩ hadmissible).mp htakes
    refine ⟨_, ?_, hphrase, rfl⟩
    rw [htokens, List.map_append, List.map_append, hfront, hfront', ← hsuffixes,
      ← List.append_assoc]
    rfl
  · have hwordsMore : NonemptyWords (⟨.word (String.ofList (letter :: letters)), position + 1⟩ ::
        tail) := by
      intro token hmem
      rcases List.mem_cons.mp hmem with rfl | hmem
      · exact fun heq => absurd (word_ofList_inj.mp heq) (List.cons_ne_nil _ _)
      · exact hwordsRest token (List.mem_cons_of_mem _ hmem)
    obtain ⟨suffixes, hsuffixes, htakes⟩ := readSuffixes_sound hwordsMore hbeat
    obtain ⟨parameter, others, rfl, htail⟩ := exists_word_suffix hsuffixes
    have hword : (Reference.glued ⟨letter, letters, parameter⟩).Admissible :=
      htakes.admissible _ (List.mem_cons_self ..)
    obtain ⟨hphrase, rfl⟩ :=
      (phrase_takes_iff ⟨source, .glued ⟨letter, letters, parameter⟩, others⟩ hword).mp htakes
    refine ⟨_, ?_, hphrase, rfl⟩
    rw [htokens, List.map_append, hfront, List.map_cons, htail]
    simp [Phrase.lexemes, Reference.lexemes, Word.lexemes, Word.letters]

/-- **What the grammar derives is read as a term.** -/
theorem Run.read_complete {run : Run} {phrase : Phrase}
    (hlexemes : phrase.lexemes = run.tokens.map Token.lexeme) (h : phrase.Admissible) :
    run.read = .ok phrase.term := by
  obtain ⟨source, reference, suffixes⟩ := phrase
  rw [Phrase.lexemes, List.append_assoc] at hlexemes
  obtain ⟨front, rest, htokens, hfront, hrest⟩ := List.map_eq_append_iff.mp hlexemes.symm
  obtain ⟨front', more, rfl, hfront', hmore⟩ := List.map_eq_append_iff.mp hrest
  have htakes := (phrase_takes_iff _ h.reference).mpr ⟨h, rfl⟩
  have hfollows : Follows (more.map Token.lexeme) := by
    rw [hmore]
    exact follows_suffixes suffixes
  unfold Run.read
  rw [htokens, readAlias_append hfront hrest]
  by_cases hglued : ∃ word, reference = .glued word
  · obtain ⟨word, rfl⟩ := hglued
    obtain ⟨position, parameter, rfl, hparameter⟩ := exists_token hfront'
    refine bind_eq_ok_iff.mpr ⟨_, readRef_glued, bind_eq_ok_iff.mpr ⟨_, ?_, rfl⟩⟩
    refine readSuffixes_complete ?_ htakes
    simp [Reference.suffixes, Suffix.lexemes, Word.lexemes, Word.letters, hparameter, hmore]
  · refine bind_eq_ok_iff.mpr
      ⟨_, readRef_append hfront' h.reference (fun word heq => hglued ⟨word, heq⟩) hfollows, ?_⟩
    refine bind_eq_ok_iff.mpr ⟨_, readSuffixes_complete ?_ htakes, rfl⟩
    rw [hmore]
    cases reference with
    | glued word => exact absurd ⟨word, rfl⟩ hglued
    | _ => rfl

end Arranger

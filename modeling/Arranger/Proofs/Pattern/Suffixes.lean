import Arranger.Proofs.Fallible
import Arranger.Proofs.Pattern.Unambiguity

/-!
# Reading suffixes

What the reader of suffixes accepts is what the grammar derives.

## Main definitions

* `Arranger.Beat.Takes` — a beat takes on suffixes and becomes another one.

## Main results

* `Arranger.readEffects_eq_ok_iff` — the effects of a word.
* `Arranger.readSuffixes_sound`, `readSuffixes_complete` — the suffixes of a beat.
-/

namespace Arranger

open Grammar

/-! ## Words -/

/-- The reader of effects accepts the words whose letters are all effects. -/
lemma readEffects_eq_ok_iff {parameter : Option Double} {position : ℕ} {letters : List Char}
    {effects : List Effect} :
    readEffects parameter position letters = .ok effects ↔
      (∀ code ∈ numbered parameter letters, ∃ effect, Effect.ofCode code.1 code.2 = .ok effect) ∧
        (numbered parameter letters).filterMap
          (fun code => (Effect.ofCode code.1 code.2).toOption) = effects := by
  induction letters generalizing position effects with
  | nil => simp [readEffects, numbered]
  | cons letter letters ih =>
    rw [readEffects, numbered, List.forall_mem_cons, List.filterMap_cons]
    cases hcode : Effect.ofCode letter (if letters.isEmpty then parameter else none) with
    | error rejection => simp
    | ok effect =>
      dsimp only
      rw [bind_eq_ok_iff]
      constructor
      · rintro ⟨more, hmore, hcons⟩
        obtain ⟨hletters, rfl⟩ := ih.mp hmore
        cases hcons
        exact ⟨⟨⟨effect, rfl⟩, hletters⟩, rfl⟩
      · rintro ⟨⟨_, hletters⟩, rfl⟩
        exact ⟨_, ih.mpr ⟨hletters, rfl⟩, rfl⟩

/-! ## Taking on suffixes -/

namespace Beat

/-- The beat with suffixes behind its own. -/
def extend (beat : Beat) (suffixes : List Suffix) : Beat where
  ref := beat.ref
  slice := (beat.slice.toList ++ suffixes.filterMap Suffix.slice?).head?
  effects := beat.effects ++ suffixes.flatMap Suffix.effectList
  silent := beat.silent || suffixes.contains .silent
  uncounted := beat.uncounted || suffixes.contains .uncounted
  group := (beat.group.toList ++ suffixes.filterMap Suffix.group?).head?

/-- The beat may take on the suffixes and then is the result. -/
structure Takes (beat : Beat) (suffixes : List Suffix) (result : Beat) : Prop where
  /-- The suffixes are admissible. -/
  admissible : ∀ suffix ∈ suffixes, suffix.Admissible
  /-- There is no second slice. -/
  slices_le : (beat.slice.toList ++ suffixes.filterMap Suffix.slice?).length ≤ 1
  /-- There is no second group mark. -/
  groups_le : (beat.group.toList ++ suffixes.filterMap Suffix.group?).length ≤ 1
  /-- The result has the suffixes. -/
  extend_eq : beat.extend suffixes = result

/-- Without suffixes nothing changes. -/
lemma takes_nil {beat result : Beat} : beat.Takes [] result ↔ beat = result := by
  have hextend : beat.extend [] = beat := by
    obtain ⟨ref, slice, effects, silent, uncounted, group⟩ := beat
    cases slice <;> cases group <;> simp [extend]
  constructor
  · intro h
    rw [← h.extend_eq, hextend]
  · rintro rfl
    refine ⟨by simp, ?_, ?_, hextend⟩
    · cases beat.slice <;> simp
    · cases beat.group <;> simp

/-- A list of at most one member is that of its first. -/
lemma toList_head? {α : Type} {xs : List α} (h : xs.length ≤ 1) : xs.head?.toList = xs := by
  match xs, h with
  | [], _ => rfl
  | [x], _ => rfl

/-- Suffixes are taken on one after the other. -/
lemma takes_cons {beat result : Beat} {suffix : Suffix} {suffixes : List Suffix} :
    beat.Takes (suffix :: suffixes) result ↔
      ∃ next, beat.Takes [suffix] next ∧ next.Takes suffixes result := by
  have hsplit : ∀ {α : Type} (f : Suffix → Option α) (own : List α),
      own ++ (suffix :: suffixes).filterMap f =
        own ++ [suffix].filterMap f ++ suffixes.filterMap f := by
    intro α f own
    rw [List.append_assoc, ← List.filterMap_append, List.singleton_append]
  have hextend : ∀ hslices : (beat.slice.toList ++ [suffix].filterMap Suffix.slice?).length ≤ 1,
      ∀ hgroups : (beat.group.toList ++ [suffix].filterMap Suffix.group?).length ≤ 1,
      (beat.extend [suffix]).extend suffixes = beat.extend (suffix :: suffixes) := by
    intro hslices hgroups
    simp only [extend, toList_head? hslices, toList_head? hgroups, ← hsplit]
    simp [Bool.or_assoc]
  constructor
  · intro ⟨hadmissible, hslices, hgroups, hresult⟩
    rw [List.forall_mem_cons] at hadmissible
    rw [hsplit] at hslices hgroups
    have hslicesOne := Nat.le_trans (List.sublist_append_left _ _).length_le hslices
    have hgroupsOne := Nat.le_trans (List.sublist_append_left _ _).length_le hgroups
    refine ⟨beat.extend [suffix], ⟨by simpa using hadmissible.1, hslicesOne, hgroupsOne, rfl⟩,
      hadmissible.2, ?_, ?_, (hextend hslicesOne hgroupsOne).trans hresult⟩
    · simpa only [extend, toList_head? hslicesOne] using hslices
    · simpa only [extend, toList_head? hgroupsOne] using hgroups
  · rintro ⟨_, ⟨hadmissible, hslices, hgroups, rfl⟩, hadmissible', hslices', hgroups', hresult⟩
    refine ⟨?_, ?_, ?_, (hextend hslices hgroups).symm.trans hresult⟩
    · rw [List.forall_mem_cons]
      exact ⟨hadmissible suffix (List.mem_singleton_self suffix), hadmissible'⟩
    · rw [hsplit]
      simpa only [extend, toList_head? hslices] using hslices'
    · rw [hsplit]
      simpa only [extend, toList_head? hgroups] using hgroups'

/-- One more member is no second one if the list is empty or there is none. -/
lemma length_toList_append_le {α : Type} (own added : Option α) :
    (own.toList ++ added.toList).length ≤ 1 ↔ (added.isSome → own = none) := by
  cases own <;> cases added <;> simp

/-- What it takes to take on one suffix. -/
lemma takes_singleton {beat result : Beat} {suffix : Suffix} :
    beat.Takes [suffix] result ↔
      suffix.Admissible ∧ (suffix.slice?.isSome → beat.slice = none) ∧
        (suffix.group?.isSome → beat.group = none) ∧ beat.extend [suffix] = result := by
  have hone : ∀ {α : Type} (f : Suffix → Option α), [suffix].filterMap f = (f suffix).toList := by
    intro α f
    cases h : f suffix <;> simp [h]
  rw [← length_toList_append_le, ← length_toList_append_le, ← hone, ← hone]
  constructor
  · rintro ⟨hadmissible, hslices, hgroups, hresult⟩
    exact ⟨hadmissible suffix (List.mem_singleton_self suffix), hslices, hgroups, hresult⟩
  · rintro ⟨hadmissible, hslices, hgroups, hresult⟩
    exact ⟨by simpa using hadmissible, hslices, hgroups, hresult⟩

/-- A word is taken on as its effects. -/
lemma withWord_eq_ok_iff (position : ℕ) {beat next : Beat} {word : Word} :
    beat.withWord (String.ofList word.letters) word.parameter position = .ok next ↔
      beat.Takes [.effects word] next := by
  have hextend : beat.extend [.effects word] =
      { beat with effects := beat.effects ++ word.effects } := by
    obtain ⟨ref, slice, effects, silent, uncounted, group⟩ := beat
    cases slice <;> cases group <;>
      simp [extend, Suffix.slice?, Suffix.group?, Suffix.effectList]
  rw [withWord, bind_eq_ok_iff, String.toList_ofList, takes_singleton, hextend]
  constructor
  · rintro ⟨effects, heffects, hresult⟩
    obtain ⟨hadmissible, rfl⟩ := readEffects_eq_ok_iff.mp heffects
    cases hresult
    exact ⟨hadmissible, by simp [Suffix.slice?], by simp [Suffix.group?], rfl⟩
  · rintro ⟨hadmissible, _, _, rfl⟩
    exact ⟨_, readEffects_eq_ok_iff.mpr ⟨hadmissible, rfl⟩, rfl⟩

/-- A slice is taken on if it is the only one. -/
lemma withSlice_eq_ok_iff {beat next : Beat} {slice : Double → Slice} {suffix : Suffix}
    {fraction : Double} {position : ℕ} (hslice : suffix.slice? = some (slice fraction))
    (hadmissible : suffix.Admissible ↔ 0 < fraction ∧ fraction ≤ 1)
    (hextend : beat.slice = none →
      beat.extend [suffix] = { beat with slice := some (slice fraction) })
    (hgroup : suffix.group? = none) :
    beat.withSlice slice fraction position = .ok next ↔ beat.Takes [suffix] next := by
  rw [takes_singleton, hslice, hgroup, hadmissible, withSlice]
  split_ifs with hfraction hsome
  · have hne : beat.slice ≠ none := by
      intro hnone
      rw [hnone] at hsome
      cases hsome
    simp [hne]
  · have hnone : beat.slice = none := by simpa using hsome
    rw [hextend hnone]
    simp [hfraction, hnone]
  · simp [hfraction]

/-- A group mark is taken on if it is the only one. -/
lemma withGroup_eq_ok_iff {beat next : Beat} {name : String} {position : ℕ} :
    beat.withGroup name position = .ok next ↔ beat.Takes [.group name] next := by
  have hextend : beat.group = none →
      beat.extend [.group name] = { beat with group := some name } := by
    obtain ⟨ref, slice, effects, silent, uncounted, group⟩ := beat
    rintro rfl
    cases slice <;> simp [extend, Suffix.slice?, Suffix.group?, Suffix.effectList]
  rw [takes_singleton, withGroup]
  split_ifs with hsome
  · have hne : beat.group ≠ none := by
      intro hnone
      rw [hnone] at hsome
      cases hsome
    simp [hne, Suffix.group?]
  · have hnone : beat.group = none := by simpa using hsome
    rw [hextend hnone]
    simp [hnone, Suffix.slice?, Suffix.Admissible]

/-- The two marks are always taken on. -/
lemma takes_silent {beat next : Beat} :
    beat.Takes [.silent] next ↔ { beat with silent := true } = next := by
  rw [takes_singleton]
  obtain ⟨ref, slice, effects, silent, uncounted, group⟩ := beat
  cases slice <;> cases group <;>
    simp [extend, Suffix.slice?, Suffix.group?, Suffix.effectList, Suffix.Admissible]

/-- The two marks are always taken on. -/
lemma takes_uncounted {beat next : Beat} :
    beat.Takes [.uncounted] next ↔ { beat with uncounted := true } = next := by
  rw [takes_singleton]
  obtain ⟨ref, slice, effects, silent, uncounted, group⟩ := beat
  cases slice <;> cases group <;>
    simp [extend, Suffix.slice?, Suffix.group?, Suffix.effectList, Suffix.Admissible]

end Beat

/-! ## The reader of suffixes -/

/-- Whether tokens start with a number. -/
def StartsNumber (tokens : List Token) : Prop :=
  ∃ value position rest, tokens = ⟨.number value, position⟩ :: rest

/-- A token with a given lexeme starts tokens whose lexemes start with it. -/
lemma exists_token {tokens : List Token} {lexeme : Lexeme} {lexemes : List Lexeme}
    (h : tokens.map Token.lexeme = lexeme :: lexemes) :
    ∃ position rest, tokens = ⟨lexeme, position⟩ :: rest ∧ rest.map Token.lexeme = lexemes := by
  obtain ⟨⟨_, position⟩, rest, rfl, rfl, hrest⟩ := List.map_eq_cons_iff.mp h
  exact ⟨position, rest, rfl, hrest⟩

/-- A word is read with the number behind it, if there is one. -/
lemma readSuffixes_word {closing : Token} {beat result : Beat} {word : Word} {position : ℕ}
    {front rest : List Token}
    (hfront : front.map Token.lexeme = Grammar.optional (fun value => [.number value]) word.parameter)
    (hrest : word.parameter = none → ¬ StartsNumber rest) :
    readSuffixes closing beat (⟨.word (String.ofList word.letters), position⟩ :: (front ++ rest)) =
        .ok result ↔
      ∃ next, beat.Takes [.effects word] next ∧ readSuffixes closing next rest = .ok result := by
  simp only [← Beat.withWord_eq_ok_iff position]
  cases hparameter : word.parameter with
  | none =>
    rw [hparameter] at hfront
    obtain rfl := List.map_eq_nil_iff.mp hfront
    rw [List.nil_append, readSuffixes, bind_eq_ok_iff]
    intro value position' more heq
    exact hrest hparameter ⟨value, position', more, heq⟩
  | some value =>
    rw [hparameter] at hfront
    obtain ⟨position', nothing, rfl, hnothing⟩ := exists_token hfront
    obtain rfl := List.map_eq_nil_iff.mp hnothing
    rw [List.cons_append, List.nil_append, readSuffixes, bind_eq_ok_iff]

/-- **One suffix is read.** Its tokens are taken on, and the reader goes on behind them. A word
without a number must not be followed by one. -/
lemma readSuffixes_append {closing : Token} {beat result : Beat} {suffix : Suffix}
    {front rest : List Token} (hfront : front.map Token.lexeme = suffix.lexemes)
    (hrest : ∀ word, suffix = .effects word → word.parameter = none → ¬ StartsNumber rest) :
    readSuffixes closing beat (front ++ rest) = .ok result ↔
      ∃ next, beat.Takes [suffix] next ∧ readSuffixes closing next rest = .ok result := by
  cases suffix with
  | effects word =>
    obtain ⟨position, parameter, rfl, hparameter⟩ := exists_token hfront
    exact readSuffixes_word hparameter (hrest word rfl)
  | head fraction =>
    obtain ⟨position, tokens, rfl, htokens⟩ := exists_token hfront
    obtain ⟨position', nothing, rfl, hnothing⟩ := exists_token htokens
    obtain rfl := List.map_eq_nil_iff.mp hnothing
    have hslice : ∀ next, beat.withSlice .head fraction position = .ok next ↔
        beat.Takes [.head fraction] next := fun next =>
      Beat.withSlice_eq_ok_iff rfl Iff.rfl (fun hnone => by
        simp [Beat.extend, hnone, Suffix.slice?, Suffix.group?, Suffix.effectList]) rfl
    simp only [← hslice]
    rw [List.cons_append, List.cons_append, List.nil_append, readSuffixes, bind_eq_ok_iff]
  | tail fraction =>
    obtain ⟨position, tokens, rfl, htokens⟩ := exists_token hfront
    obtain ⟨position', nothing, rfl, hnothing⟩ := exists_token htokens
    obtain rfl := List.map_eq_nil_iff.mp hnothing
    have hslice : ∀ next, beat.withSlice .tail fraction position = .ok next ↔
        beat.Takes [.tail fraction] next := fun next =>
      Beat.withSlice_eq_ok_iff rfl Iff.rfl (fun hnone => by
        simp [Beat.extend, hnone, Suffix.slice?, Suffix.group?, Suffix.effectList]) rfl
    simp only [← hslice]
    rw [List.cons_append, List.cons_append, List.nil_append, readSuffixes, bind_eq_ok_iff]
  | silent =>
    obtain ⟨position, nothing, rfl, hnothing⟩ := exists_token hfront
    obtain rfl := List.map_eq_nil_iff.mp hnothing
    rw [List.cons_append, List.nil_append, readSuffixes]
    simp [Beat.takes_silent]
  | uncounted =>
    obtain ⟨position, nothing, rfl, hnothing⟩ := exists_token hfront
    obtain rfl := List.map_eq_nil_iff.mp hnothing
    rw [List.cons_append, List.nil_append, readSuffixes]
    simp [Beat.takes_uncounted]
  | group name =>
    obtain ⟨position, nothing, rfl, hnothing⟩ := exists_token hfront
    obtain rfl := List.map_eq_nil_iff.mp hnothing
    rw [List.cons_append, List.nil_append, readSuffixes, bind_eq_ok_iff]
    simp only [Beat.withGroup_eq_ok_iff]

/-- No word among the tokens is empty. -/
def NonemptyWords (tokens : List Token) : Prop :=
  ∀ token ∈ tokens, token.lexeme ≠ .word ""

/-- Where the reader succeeds, the tokens start with a suffix. -/
lemma exists_suffix {closing : Token} {beat result : Beat} {token : Token} {tokens : List Token}
    (hwords : NonemptyWords (token :: tokens))
    (h : readSuffixes closing beat (token :: tokens) = .ok result) :
    ∃ (suffix : Suffix) (front rest : List Token), token :: tokens = front ++ rest ∧ front ≠ [] ∧
      front.map Token.lexeme = suffix.lexemes ∧
      ∀ word, suffix = .effects word → word.parameter = none → ¬ StartsNumber rest := by
  obtain ⟨lexeme, position⟩ := token
  cases lexeme with
  | word letters =>
    have hletters : letters.toList ≠ [] := by
      intro hnil
      refine hwords _ (List.mem_cons_self ..) ?_
      rw [← String.ofList_toList (s := letters), hnil]
    obtain ⟨first, more, hcons⟩ := List.exists_cons_of_ne_nil hletters
    have hword : letters = String.ofList (first :: more) := by
      rw [← hcons, String.ofList_toList]
    by_cases hnumber : StartsNumber tokens
    · obtain ⟨value, position', rest, rfl⟩ := hnumber
      refine ⟨.effects ⟨first, more, some value⟩, [_, _], rest, rfl, List.cons_ne_nil _ _, ?_, ?_⟩
      · rw [hword]
        rfl
      · rintro word ⟨⟩ hnone
        cases hnone
    · refine ⟨.effects ⟨first, more, none⟩, [_], tokens, rfl, List.cons_ne_nil _ _, ?_, ?_⟩
      · rw [hword]
        rfl
      · exact fun _ _ _ => hnumber
  | greater =>
    by_cases hnumber : StartsNumber tokens
    · obtain ⟨fraction, position', rest, rfl⟩ := hnumber
      exact ⟨.head fraction, [_, _], rest, rfl, List.cons_ne_nil _ _, rfl, by simp⟩
    · rw [readSuffixes] at h
      · cases h
      · exact fun fraction position' rest heq => hnumber ⟨fraction, position', rest, heq⟩
  | less =>
    by_cases hnumber : StartsNumber tokens
    · obtain ⟨fraction, position', rest, rfl⟩ := hnumber
      exact ⟨.tail fraction, [_, _], rest, rfl, List.cons_ne_nil _ _, rfl, by simp⟩
    · rw [readSuffixes] at h
      · cases h
      · exact fun fraction position' rest heq => hnumber ⟨fraction, position', rest, heq⟩
  | bang => exact ⟨.silent, [_], tokens, rfl, List.cons_ne_nil _ _, rfl, by simp⟩
  | question => exact ⟨.uncounted, [_], tokens, rfl, List.cons_ne_nil _ _, rfl, by simp⟩
  | group name => exact ⟨.group name, [_], tokens, rfl, List.cons_ne_nil _ _, rfl, by simp⟩
  | _ => simp [readSuffixes] at h

/-- **What is read as suffixes is derived by the grammar.** -/
theorem readSuffixes_sound {closing : Token} {beat result : Beat} {tokens : List Token}
    (hwords : NonemptyWords tokens) (h : readSuffixes closing beat tokens = .ok result) :
    ∃ suffixes : List Suffix, suffixes.flatMap Suffix.lexemes = tokens.map Token.lexeme ∧
      beat.Takes suffixes result := by
  induction hlength : tokens.length using Nat.strongRecOn generalizing tokens beat with
  | ind length ih =>
    cases tokens with
    | nil =>
      refine ⟨[], rfl, Beat.takes_nil.mpr ?_⟩
      simpa [readSuffixes] using h
    | cons token tokens =>
      obtain ⟨suffix, front, rest, hsplit, hne, hfront, hrest⟩ := exists_suffix hwords h
      rw [hsplit, readSuffixes_append hfront hrest] at h
      obtain ⟨next, hnext, hmore⟩ := h
      have hshorter : rest.length < length := by
        rw [← hlength, hsplit, List.length_append]
        have := List.length_pos_of_ne_nil hne
        omega
      have hwordsRest : NonemptyWords rest := fun token hmem =>
        hwords token (hsplit ▸ List.mem_append_right front hmem)
      obtain ⟨suffixes, hsuffixes, htakes⟩ := ih rest.length hshorter hwordsRest hmore rfl
      refine ⟨suffix :: suffixes, ?_, Beat.takes_cons.mpr ⟨next, hnext, htakes⟩⟩
      rw [hsplit, List.map_append, List.flatMap_cons, hfront, hsuffixes]

/-- **What the grammar derives is read as suffixes.** -/
theorem readSuffixes_complete {closing : Token} {beat result : Beat} {tokens : List Token}
    {suffixes : List Suffix}
    (hlexemes : suffixes.flatMap Suffix.lexemes = tokens.map Token.lexeme)
    (htakes : beat.Takes suffixes result) : readSuffixes closing beat tokens = .ok result := by
  induction suffixes generalizing tokens beat with
  | nil =>
    obtain rfl := List.map_eq_nil_iff.mp hlexemes.symm
    rw [readSuffixes, Beat.takes_nil.mp htakes]
  | cons suffix suffixes ih =>
    obtain ⟨front, rest, rfl, hfront, hrest⟩ := List.map_eq_append_iff.mp hlexemes.symm
    obtain ⟨next, hnext, htakesRest⟩ := Beat.takes_cons.mp htakes
    have hnumber : ¬ StartsNumber rest := by
      rintro ⟨value, position, more, rfl⟩
      have hfollows := follows_suffixes suffixes
      rw [List.flatMap_def, ← hrest] at hfollows
      exact not_follows rfl hfollows
    rw [readSuffixes_append hfront fun _ _ _ => hnumber]
    exact ⟨next, hnext, ih hrest.symm htakesRest⟩

end Arranger

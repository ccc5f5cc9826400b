import Arranger.Pattern.Compiling
import Arranger.Pattern.Printing
import Arranger.Proofs.Pattern.Words
import Arranger.Proofs.Pattern.Writable

/-!
# The derivation of what is written

The grammar derives what is written for a pattern: the parse tree has the slice in front of the
effects, then the marks and the group, and effects directly behind a position are in one word with
it.

## Main definitions

* `Arranger.Grammar.referenceOf`, `suffixesOf`, `phraseOf` — the parse tree of a term.
* `Arranger.Grammar.Spelled` — characters that spell a step.

## Main results

* `Arranger.Grammar.phraseOf_spec` — the tree of a term meets the conditions and denotes the term.
* `Arranger.Grammar.scans_term` — what is written for a term is scanned as its tree.
* `Arranger.Grammar.spelled_write` — what is written for a step spells it.
* `Arranger.Pattern.ofText_joinWith` — characters that spell steps are read as the pattern of these.
-/

namespace Arranger

namespace Grammar

/-! ## Parse trees -/

/-- The parse tree of a beat reference. -/
def referenceOf : BeatRef → Reference
  | .literal number => if number.isNegative then .negative (-number) else .number number
  | .position (.ofNat 0) => .position none
  | .position (.ofNat offset) => .position (some (.plus, Binary.ofNat offset))
  | .position (.negSucc offset) => .position (some (.minus, Binary.ofNat (offset + 1)))
  | .random low high step => .random low high (some step)

/-- The suffix that asks for a slice. -/
def suffixOf : Slice → Suffix
  | .head fraction => .head fraction
  | .tail fraction => .tail fraction

/-- The marks of a beat and its group. -/
def marksOf (beat : Beat) : List Suffix :=
  (if beat.silent then [.silent] else []) ++ (if beat.uncounted then [.uncounted] else [])
    ++ (beat.group.map Suffix.group).toList

/-- The suffixes for a slice, words of effects and the marks of a beat. -/
def suffixesOf (slice : Option Slice) (words : List Word) (beat : Beat) : List Suffix :=
  (slice.map suffixOf).toList ++ words.map .effects ++ marksOf beat

/-- The parse tree of a term. Effects directly behind the position are in one word with it. -/
def phraseOf (term : Term) : Phrase :=
  match term.beat.ref, term.beat.slice, spell term.beat.effects with
  | .position (.ofNat 0), none, word :: words =>
    ⟨term.source, .glued word, suffixesOf none words term.beat⟩
  | ref, slice, words => ⟨term.source, referenceOf ref, suffixesOf slice words term.beat⟩

/-! ## References -/

/-- An offset that is not too large is admissible and read again. -/
lemma offset_spec {n : ℕ} (h : n ≤ maxOffset) :
    (Binary.ofNat n : Double).isWhole = true ∧ (Binary.ofNat n : Double) ≤ Binary.ofNat maxOffset ∧
      (Binary.ofNat n : Double).toWord = n := by
  have hmax : maxOffset ≤ 2 ^ Format.double.precision := by decide
  have hshort := h.trans hmax
  refine ⟨?_, (Binary.ofNat_le_iff hshort hmax).mpr h, ?_⟩
  · simp [Binary.isWhole, Binary.isFinite_ofNat hshort, Binary.value_ofNat hshort]
  · exact Binary.toWord_ofNat hshort (h.trans (by decide))

/-- The parse tree of a reference meets the conditions and denotes the reference. -/
lemma referenceOf_spec {ref : BeatRef} (h : ref.Writable) :
    (referenceOf ref).ref = ref ∧ (referenceOf ref).Admissible := by
  cases ref with
  | literal number =>
    rw [referenceOf]
    split_ifs
    · exact ⟨congrArg BeatRef.literal (Binary.neg_neg number), trivial⟩
    · exact ⟨rfl, trivial⟩
  | position offset =>
    cases offset with
    | ofNat n =>
      cases n with
      | zero => exact ⟨rfl, by rintro signed ⟨⟩⟩
      | succ n =>
        obtain ⟨hwhole, hle, hword⟩ := offset_spec (n := n + 1) h
        refine ⟨?_, by rintro signed ⟨⟩; exact ⟨hwhole, hle⟩⟩
        rw [referenceOf, Reference.ref, hword]
        · rfl
        · simp
    | negSucc n =>
      obtain ⟨hwhole, hle, hword⟩ := offset_spec (n := n + 1) h
      refine ⟨?_, by rintro signed ⟨⟩; exact ⟨hwhole, hle⟩⟩
      rw [referenceOf, Reference.ref, hword]
      rfl
  | random low high step => exact ⟨rfl, h.2⟩

/-! ## Suffixes -/

section Suffixes

variable (slice : Option Slice) (words : List Word) (beat : Beat)

/-- What is not asked of words is asked of the slice and the marks. -/
lemma filterMap_suffixesOf {β : Type} (f : Suffix → Option β)
    (hword : ∀ word, f (.effects word) = none) :
    (suffixesOf slice words beat).filterMap f =
      (slice.map suffixOf).toList.filterMap f ++ (marksOf beat).filterMap f := by
  have hwords : (words.map Suffix.effects).filterMap f = [] := by
    simp [List.filterMap_map, hword]
  rw [suffixesOf, List.filterMap_append, List.filterMap_append, hwords, List.append_nil]

/-- The suffixes ask for the slice. -/
lemma slices_suffixesOf :
    (suffixesOf slice words beat).filterMap Suffix.slice? = slice.toList := by
  have hslice : (slice.map suffixOf).toList.filterMap Suffix.slice? = slice.toList := by
    rcases slice with _ | _ | _ <;> rfl
  have hmarks : (marksOf beat).filterMap Suffix.slice? = [] := by
    unfold marksOf
    cases beat.silent <;> cases beat.uncounted <;> cases beat.group <;> rfl
  rw [filterMap_suffixesOf slice words beat _ fun _ => rfl, hslice, hmarks, List.append_nil]

/-- The suffixes name the group. -/
lemma groups_suffixesOf :
    (suffixesOf slice words beat).filterMap Suffix.group? = beat.group.toList := by
  have hslice : (slice.map suffixOf).toList.filterMap Suffix.group? = [] := by
    rcases slice with _ | _ | _ <;> rfl
  have hmarks : (marksOf beat).filterMap Suffix.group? = beat.group.toList := by
    unfold marksOf
    cases beat.silent <;> cases beat.uncounted <;> cases beat.group <;> rfl
  rw [filterMap_suffixesOf slice words beat _ fun _ => rfl, hslice, hmarks, List.nil_append]

/-- The suffixes add the effects of the words. -/
lemma effects_suffixesOf :
    (suffixesOf slice words beat).flatMap Suffix.effectList = words.flatMap Word.effects := by
  have hslice : ((slice.map suffixOf).toList).flatMap Suffix.effectList = [] := by
    rcases slice with _ | _ | _ <;> rfl
  have hmarks : (marksOf beat).flatMap Suffix.effectList = [] := by
    unfold marksOf
    cases beat.silent <;> cases beat.uncounted <;> cases beat.group <;> rfl
  have hwords : (words.map Suffix.effects).flatMap Suffix.effectList =
      words.flatMap Word.effects := by
    rw [List.flatMap_map]
    rfl
  rw [suffixesOf, List.flatMap_append, List.flatMap_append, hslice, hmarks, hwords,
    List.append_nil, List.nil_append]

/-- A mark is among the suffixes if it is among the marks. -/
lemma contains_suffixesOf {mark : Suffix} (hslice : mark.slice? = none)
    (hword : ∀ word, mark ≠ .effects word) :
    (suffixesOf slice words beat).contains mark = (marksOf beat).contains mark := by
  rw [Bool.eq_iff_iff, List.contains_iff_mem, List.contains_iff_mem, suffixesOf, List.append_assoc,
    List.mem_append, List.mem_append]
  constructor
  · rintro (hmem | hmem | hmem)
    · rcases slice with _ | _ | _
      · cases hmem
      · rw [List.mem_singleton.mp hmem] at hslice
        cases hslice
      · rw [List.mem_singleton.mp hmem] at hslice
        cases hslice
    · obtain ⟨word, _, rfl⟩ := List.mem_map.mp hmem
      exact absurd rfl (hword word)
    · exact hmem
  · exact fun hmem => .inr (.inr hmem)

/-- The marks of a beat and its group are among the suffixes. -/
lemma marks_suffixesOf :
    (suffixesOf slice words beat).contains .silent = beat.silent ∧
      (suffixesOf slice words beat).contains .uncounted = beat.uncounted := by
  rw [contains_suffixesOf slice words beat rfl (by rintro word ⟨⟩),
    contains_suffixesOf slice words beat rfl (by rintro word ⟨⟩)]
  unfold marksOf
  cases beat.silent <;> cases beat.uncounted <;> cases beat.group <;> simp

/-- Suffixes of slices and words that meet the conditions meet them. -/
lemma admissible_suffixesOf (hslice : ∀ s ∈ slice, s.Writable)
    (hwords : ∀ word ∈ words, word.Admissible) :
    ∀ suffix ∈ suffixesOf slice words beat, suffix.Admissible := by
  unfold suffixesOf
  rw [List.forall_mem_append, List.forall_mem_append]
  refine ⟨⟨?_, ?_⟩, ?_⟩
  · rcases slice with _ | s
    · rintro suffix ⟨⟩
    · intro suffix hmem
      rw [Option.map_some, Option.toList_some, List.mem_singleton] at hmem
      subst hmem
      cases s with
      | head fraction => exact (hslice _ rfl).2
      | tail fraction => exact (hslice _ rfl).2
  · intro suffix hmem
    obtain ⟨word, hword, rfl⟩ := List.mem_map.mp hmem
    exact hwords word hword
  · unfold marksOf
    cases beat.silent <;> cases beat.uncounted <;> cases beat.group <;>
      simp [Suffix.Admissible]

/-- What a phrase with the suffixes denotes. -/
lemma term_suffixesOf (source : Option String) (reference : Reference) :
    Phrase.term ⟨source, reference, suffixesOf slice words beat⟩ =
      ⟨source, { beat with
        ref := reference.ref
        slice := slice
        effects := reference.effectList ++ words.flatMap Word.effects }⟩ := by
  obtain ⟨hsilent, huncounted⟩ := marks_suffixesOf slice words beat
  rw [Phrase.term, hsilent, huncounted, effects_suffixesOf, Phrase.slices, slices_suffixesOf,
    Phrase.groups, groups_suffixesOf, Option.head?_toList, Option.head?_toList]

/-- A phrase with the suffixes meets the conditions. -/
lemma admissible_phrase (source : Option String) {reference : Reference}
    (hreference : reference.Admissible) (hslice : ∀ s ∈ slice, s.Writable)
    (hwords : ∀ word ∈ words, word.Admissible) :
    Phrase.Admissible ⟨source, reference, suffixesOf slice words beat⟩ := by
  refine ⟨hreference, admissible_suffixesOf slice words beat hslice hwords, ?_, ?_⟩
  · rw [Phrase.slices, slices_suffixesOf]
    exact Option.length_toList_le
  · rw [Phrase.groups, groups_suffixesOf]
    exact Option.length_toList_le

end Suffixes

/-! ## Terms -/

/-- Only a position has effects in one word with it. -/
lemma effectList_referenceOf (ref : BeatRef) : (referenceOf ref).effectList = [] := by
  unfold referenceOf
  split
  · split_ifs <;> rfl
  all_goals rfl

/-- **The parse tree of a term** meets the conditions and denotes the term. -/
lemma phraseOf_spec {term : Term} (h : term.Writable) :
    (phraseOf term).Admissible ∧ (phraseOf term).term = term := by
  obtain ⟨heffects, hwords⟩ := spell_spec h.effects
  obtain ⟨hdenotes, hreference⟩ := referenceOf_spec h.ref
  have hslice := h.slice
  obtain ⟨source, ref, slice, effects, silent, uncounted, group⟩ := term
  unfold phraseOf
  dsimp only at heffects hwords hdenotes hreference hslice ⊢
  split
  · next word words hspell =>
    rw [hspell, List.flatMap_cons] at heffects
    rw [hspell, List.forall_mem_cons] at hwords
    refine ⟨admissible_phrase _ words _ source hwords.1 hslice hwords.2, ?_⟩
    rw [term_suffixesOf]
    show _ = Term.mk source _
    rw [← heffects]
    rfl
  · refine ⟨admissible_phrase _ _ _ source hreference hslice hwords, ?_⟩
    rw [term_suffixesOf, hdenotes, effectList_referenceOf, heffects, List.nil_append]

/-! ## Scanning terms -/

/-- The characters of a group, if there is one. -/
def groupChars : Option String → List Char
  | some name => writeGroup name
  | none => []

/-- The characters of the marks of a beat and of its group. -/
def markChars (beat : Beat) : List Char :=
  (if beat.silent then ['!'] else []) ++ (if beat.uncounted then ['?'] else [])
    ++ groupChars beat.group

/-- The characters of a slice, if there is one. -/
def sliceChars : Option Slice → List Char
  | some slice => slice.write
  | none => []

/-- The characters of a beat are those of its parts. -/
lemma write_beat (beat : Beat) (rest : List Char) :
    beat.write ++ rest = beat.ref.write ++
      (sliceChars beat.slice ++ (beat.effects.flatMap Effect.write ++ (markChars beat ++ rest))) := by
  have hwrite : beat.write = beat.ref.write ++ sliceChars beat.slice
      ++ beat.effects.flatMap Effect.write ++ (if beat.silent then ['!'] else [])
      ++ (if beat.uncounted then ['?'] else []) ++ groupChars beat.group := rfl
  rw [hwrite, markChars]
  simp only [List.append_assoc]

variable {rest : List Char} {lexemes : List Lexeme}

/-- Marks and groups break. -/
lemma head_markChars (beat : Beat) (hrest : ∀ c ∈ rest.head?, breaks c = true) :
    ∀ c ∈ (markChars beat ++ rest).head?, breaks c = true := by
  unfold markChars
  cases beat.silent with
  | true => rintro c ⟨⟩; rfl
  | false =>
    cases beat.uncounted with
    | true => rintro c ⟨⟩; rfl
    | false =>
      cases beat.group with
      | some name => rintro c ⟨⟩; rfl
      | none => exact hrest

/-- Marks and groups are scanned. -/
lemma scans_markChars {beat : Beat} (hgroup : ∀ name ∈ beat.group, (Lexeme.group name).Proper)
    (hrest : ∀ c ∈ rest.head?, breaks c = true) (h : Scans rest lexemes) :
    Scans (markChars beat ++ rest) ((marksOf beat).flatMap Suffix.lexemes ++ lexemes) := by
  unfold markChars marksOf
  have hname : Scans (groupChars beat.group ++ rest)
      ((beat.group.map Suffix.group).toList.flatMap Suffix.lexemes ++ lexemes) := by
    cases hbeat : beat.group with
    | none => exact h
    | some name =>
      obtain ⟨hne, hchars⟩ := hgroup name hbeat
      have hscans := scans_group hne hchars (fun c hc => (breaks_iff.mp (hrest c hc)).1) h
      rwa [String.ofList_toList] at hscans
  cases beat.silent <;> cases beat.uncounted
  · exact hname
  · exact scans_char rfl hname
  · exact scans_char rfl hname
  · exact scans_char rfl (scans_char rfl hname)

/-- A slice is scanned where no numeral goes on. -/
lemma scans_sliceChars {slice : Option Slice} (hslice : ∀ s ∈ slice, s.Writable)
    (hrest : ∀ c ∈ rest.head?, continuesNumber c = false) (h : Scans rest lexemes) :
    Scans (sliceChars slice ++ rest)
      ((slice.map suffixOf).toList.flatMap Suffix.lexemes ++ lexemes) := by
  cases slice with
  | none => exact h
  | some s =>
    cases s with
    | head fraction =>
      obtain ⟨hfinite, hsign⟩ := (hslice _ rfl).1
      exact scans_char rfl (scans_number hfinite hsign hrest h)
    | tail fraction =>
      obtain ⟨hfinite, hsign⟩ := (hslice _ rfl).1
      exact scans_char rfl (scans_number hfinite hsign hrest h)

/-- A reference is scanned where no numeral and, behind the position, no letter goes on. -/
lemma scans_ref {ref : BeatRef} (hwritable : ref.Writable)
    (hnumber : ∀ c ∈ rest.head?, continuesNumber c = false)
    (hletter : ref = .position 0 → ∀ c ∈ rest.head?, isLetterChar c = false)
    (h : Scans rest lexemes) :
    Scans (ref.write ++ rest) ((referenceOf ref).lexemes ++ lexemes) := by
  have hposition : ∀ c ∈ ['i'], isLetterChar c = true := by simp; decide
  cases ref with
  | literal number =>
    have hfinite : number.isFinite = true := hwritable
    rw [referenceOf, BeatRef.write]
    split_ifs with hsign
    · have hpositive : (-number).isNegative = false := by
        rw [Binary.isNegative_neg hfinite, hsign]
        rfl
      have hneg : (-number).isFinite = true := by rwa [Binary.isFinite_neg]
      have hwrite := writeNumber_neg hneg hpositive
      rw [Binary.neg_neg] at hwrite
      rw [hwrite]
      exact scans_char rfl (scans_number hneg hpositive hnumber h)
    · exact scans_number hfinite (by simpa using hsign) hnumber h
  | position offset =>
    cases offset with
    | ofNat n =>
      cases n with
      | zero => exact scans_word (List.cons_ne_nil _ _) hposition (hletter rfl) h
      | succ n =>
        exact scans_word (List.cons_ne_nil _ _) hposition (by rintro c ⟨⟩; rfl)
          (scans_char rfl (scans_toDigits (n + 1) hnumber h))
    | negSucc n =>
      exact scans_word (List.cons_ne_nil _ _) hposition (by rintro c ⟨⟩; rfl)
        (scans_char rfl (scans_toDigits (n + 1) hnumber h))
  | random low high step =>
    obtain ⟨⟨hlow, hlowSign⟩, ⟨hhigh, hhighSign⟩, hstep, hstepSign⟩ :
        (low.isFinite = true ∧ low.isNegative = false) ∧
          (high.isFinite = true ∧ high.isNegative = false) ∧
            step.isFinite = true ∧ step.isNegative = false := by
      simpa using hwritable.1
    have hscans := scans_char (c := '@') rfl (scans_number hlow hlowSign (by rintro c ⟨⟩; rfl)
      (scans_char (c := '_') rfl (scans_number hhigh hhighSign (by rintro c ⟨⟩; rfl)
        (scans_char (c := '_') rfl (scans_number hstep hstepSign hnumber h)))))
    simpa [BeatRef.write, referenceOf, Reference.lexemes, optional, Reference.stepLexemes]
      using hscans

/-- The lexemes of the suffixes are those of their parts. -/
lemma lexemes_suffixesOf (slice : Option Slice) (words : List Word) (beat : Beat) :
    (suffixesOf slice words beat).flatMap Suffix.lexemes ++ lexemes =
      (slice.map suffixOf).toList.flatMap Suffix.lexemes ++
        (words.flatMap (Word.lexemes []) ++
          ((marksOf beat).flatMap Suffix.lexemes ++ lexemes)) := by
  rw [suffixesOf, List.flatMap_append, List.flatMap_append, List.flatMap_map, List.append_assoc,
    List.append_assoc]
  rfl

/-- The beat of a term is scanned as its parse tree.

**Proof sketch.** The marks break. In front of them stand the effects, which start with a letter, in
front of these the slice, which starts with a mark, and the reference in front of all. A letter
comes directly behind the position just if the effects are in one word with it. -/
lemma scans_beat {term : Term} (hwritable : term.Writable)
    (hrest : ∀ c ∈ rest.head?, breaks c = true) (h : Scans rest lexemes) :
    Scans (term.beat.write ++ rest) ((phraseOf term).reference.lexemes ++
      ((phraseOf term).suffixes.flatMap Suffix.lexemes ++ lexemes)) := by
  have hmarks := scans_markChars hwritable.group hrest h
  have hbreaks := head_markChars term.beat hrest
  have hletter : ∀ c ∈ (markChars term.beat ++ rest).head?, isLetterChar c = false :=
    fun c hc => (breaks_iff.mp (hbreaks c hc)).2.1
  have hnumber : ∀ c ∈ (markChars term.beat ++ rest).head?, continuesNumber c = false :=
    fun c hc => (breaks_iff.mp (hbreaks c hc)).2.2
  have hwords := scans_words hwritable.effects hletter hnumber hmarks
  have hafter : ∀ c ∈ (term.beat.effects.flatMap Effect.write ++ (markChars term.beat ++ rest)).head?,
      continuesNumber c = false := by
    intro c hc
    rcases head_effects hwritable.effects hc with hc | hc
    · exact not_continuesNumber_of_letter hc
    · exact hnumber c hc
  rw [write_beat]
  unfold phraseOf
  split
  · next word words href hslice hspell =>
    have hne : term.beat.effects ≠ [] := by
      intro hnil
      rw [hnil] at hspell
      cases hspell
    have hscans := scans_effects hwritable.effects hne hletter hnumber hmarks ['i']
      (by simp; decide)
    rw [hspell, ledLexemes, List.append_assoc] at hscans
    rw [lexemes_suffixesOf, href, hslice]
    exact hscans
  · next hglued =>
    rw [lexemes_suffixesOf]
    refine scans_ref hwritable.ref ?_ ?_ (scans_sliceChars hwritable.slice hafter hwords)
    · cases hslice : term.beat.slice with
      | none => exact hafter
      | some slice => cases slice <;> rintro c ⟨⟩ <;> rfl
    · intro href
      cases hslice : term.beat.slice with
      | some slice => cases slice <;> rintro c ⟨⟩ <;> rfl
      | none =>
        rcases eq_or_ne term.beat.effects [] with hnil | hne
        · rw [hnil]
          exact hletter
        · obtain ⟨word, words, hspell⟩ := exists_spell_eq_cons hne
          exact absurd hspell (hglued word words href hslice)

/-- **What is written for a term is scanned as its parse tree.** -/
lemma scans_term {term : Term} (hwritable : term.Writable)
    (hrest : ∀ c ∈ rest.head?, breaks c = true) (h : Scans rest lexemes) :
    Scans (term.write ++ rest) ((phraseOf term).lexemes ++ lexemes) := by
  have hbeat := scans_beat hwritable hrest h
  have hsource : (phraseOf term).source = term.source := by
    unfold phraseOf
    split <;> rfl
  rw [Phrase.lexemes, hsource, List.append_assoc, List.append_assoc]
  unfold Term.write
  cases hname : term.source with
  | none => exact hbeat
  | some name =>
    obtain ⟨hne, -, hchars⟩ := hwritable.source name hname
    have hscans := scans_source hne hchars hbeat
    rw [String.ofList_toList] at hscans
    simpa [optional] using hscans

/-! ## Scanning steps and patterns -/

/-- The characters between the parts of a mix are scanned. -/
lemma ofChar?_symbol (mode : MixMode) : Lexeme.ofChar? mode.symbol = some mode.lexeme := by
  cases mode <;> rfl

/-- The characters between the parts of a mix break. -/
lemma breaks_symbol (mode : MixMode) : breaks mode.symbol = true := by
  cases mode <;> rfl

/-- What is written for the parts of a mix is scanned as their parse trees. -/
lemma scans_parts (mode : MixMode) {first : Term} {more : List Term}
    (hwritable : ∀ term ∈ first :: more, term.Writable)
    (hrest : ∀ c ∈ rest.head?, breaks c = true) (h : Scans rest lexemes) :
    Scans (joinWith mode.symbol ((first :: more).map Term.write) ++ rest)
      ((phraseOf first).lexemes ++ (Group.partLexemes mode (more.map phraseOf) ++ lexemes)) := by
  induction more generalizing first with
  | nil => exact scans_term (hwritable first (List.mem_cons_self ..)) hrest h
  | cons second more ih =>
    rw [List.forall_mem_cons] at hwritable
    have hmore := scans_char (ofChar?_symbol mode) (ih hwritable.2)
    have hscans := scans_term hwritable.1 (by rintro c ⟨⟩; exact breaks_symbol mode) hmore
    rw [show (second :: more).map phraseOf = phraseOf second :: more.map phraseOf from rfl,
      Group.partLexemes_cons]
    simpa [joinWith] using hscans

/-- The characters spell the step: in front of what breaks, they are scanned as a parse tree that
denotes the step. -/
def Spelled (cs : List Char) (step : Step) : Prop :=
  ∃ group : Group, group.Admissible ∧ group.step = step ∧
    ∀ rest lexemes, (∀ c ∈ rest.head?, breaks c = true) → Scans rest lexemes →
      Scans (cs ++ rest) (group.lexemes ++ lexemes)

/-- **What is written for a step spells it.** -/
lemma spelled_write {step : Step} (hwritable : step.Writable) : Spelled step.write step := by
  cases step with
  | single term =>
    obtain ⟨hadmissible, hterm⟩ := phraseOf_spec hwritable
    exact ⟨.single (phraseOf term), hadmissible, congrArg Step.single hterm,
      fun _ _ => scans_term hwritable⟩
  | mix mode parts =>
    obtain ⟨hlength, hparts⟩ := hwritable
    obtain ⟨first, second, more, rfl⟩ : ∃ first second more, parts = first :: second :: more := by
      match parts, hlength with
      | first :: second :: more, _ => exact ⟨first, second, more, rfl⟩
    refine ⟨.mixed mode (phraseOf first) (phraseOf second) (more.map phraseOf), ?_, ?_, ?_⟩
    · show ∀ phrase ∈ (first :: second :: more).map phraseOf, phrase.Admissible ∧ phrase.groups = []
      intro phrase hmem
      obtain ⟨term, hterm, rfl⟩ := List.mem_map.mp hmem
      obtain ⟨hadmissible, hdenotes⟩ := phraseOf_spec (hparts term hterm).1
      have hgroup : (phraseOf term).groups.head? = none := by
        rw [← (hparts term hterm).2]
        exact congrArg (fun t : Term => t.beat.group) hdenotes
      exact ⟨hadmissible, List.head?_eq_none_iff.mp hgroup⟩
    · show Step.mix mode (((first :: second :: more).map phraseOf).map Phrase.term) = _
      have hterms : ((first :: second :: more).map phraseOf).map Phrase.term =
          first :: second :: more := by
        rw [List.map_map]
        exact (List.map_congr_left fun term hterm =>
          (phraseOf_spec (hparts term hterm).1).2).trans (List.map_id _)
      rw [hterms]
    · intro rest lexemes hrest h
      have hscans := scans_parts mode (fun term hterm => (hparts term hterm).1) hrest h
      rw [Group.lexemes, List.append_assoc]
      exact hscans

/-- **The grammar derives what is spelled**, with commas between the steps. -/
lemma exists_tree {α : Type} {chars : α → List Char} {step : α → Step} {first : α} {more : List α}
    (h : ∀ x ∈ first :: more, Spelled (chars x) (step x)) :
    ∃ tree : Tree, tree.Admissible ∧ tree.pattern = ⟨(first :: more).map step⟩ ∧
      Scans (joinWith ',' ((first :: more).map chars)) tree.lexemes := by
  induction more generalizing first with
  | nil =>
    obtain ⟨group, hadmissible, hstep, hscans⟩ := h first (List.mem_cons_self ..)
    refine ⟨⟨group, []⟩, ?_, ?_, ?_⟩
    · rw [Tree.Admissible, List.forall_mem_singleton]
      exact hadmissible
    · rw [Tree.pattern, List.map_singleton, List.map_singleton, hstep]
    · have hstop := hscans [] [.stop] (by rintro c ⟨⟩) scans_nil
      rwa [List.append_nil] at hstop
  | cons second more ih =>
    rw [List.forall_mem_cons] at h
    obtain ⟨group, hadmissible, hstep, hscans⟩ := h.1
    obtain ⟨⟨firstGroup, groups⟩, htree, hpattern, hrest⟩ := ih h.2
    refine ⟨⟨group, firstGroup :: groups⟩, ?_, ?_, ?_⟩
    · rw [Tree.Admissible, List.forall_mem_cons]
      exact ⟨hadmissible, htree⟩
    · rw [Tree.pattern, Pattern.mk.injEq] at hpattern
      rw [Tree.pattern, List.map_cons, hpattern, hstep]
      rfl
    · have hcomma := hscans _ _ (by rintro c ⟨⟩; rfl) (scans_char (c := ',') rfl hrest)
      rw [Tree.lexemes, Tree.restLexemes_cons]
      exact hcomma

end Grammar

/-- **Characters that spell steps are read as the pattern of these**, with commas between them. -/
theorem Pattern.ofText_joinWith {α : Type} {chars : α → List Char} {step : α → Step} {xs : List α}
    (hne : xs ≠ []) (h : ∀ x ∈ xs, Grammar.Spelled (chars x) (step x)) :
    Pattern.ofText (String.ofList (joinWith ',' (xs.map chars))) = .ok ⟨xs.map step⟩ := by
  obtain ⟨first, more, rfl⟩ := List.exists_cons_of_ne_nil hne
  obtain ⟨tree, hadmissible, hpattern, hscans⟩ := Grammar.exists_tree h
  obtain ⟨tokens, hscan, hlexemes⟩ := hscans 0
  rw [← hpattern]
  refine bind_eq_ok_iff.mpr ⟨tokens, ?_, ?_⟩
  · rw [scan, String.toList_ofList]
    exact hscan
  · exact ofTokens_complete (scanFrom_scanned hscan) hlexemes.symm hadmissible

end Arranger

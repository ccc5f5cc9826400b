import Arranger.Proofs.Pattern.Grammar

/-!
# The grammar is unambiguous

No two parse trees spell the same lexemes. Above the terms this holds because there is one way to
cut the lexemes in front of the first separator, and below them because the first lexeme of a part
tells which part it is and no optional part can be taken for a suffix.

## Main definitions

* `Arranger.Grammar.Follows` — nothing or a suffix comes next.

## Main results

* `Arranger.Grammar.append_unique` — the one way to cut a list.
* `Arranger.Grammar.Phrase.lexemes_injective`, `Group.lexemes_injective`,
  `Tree.lexemes_injective` — terms, steps and patterns are determined by their lexemes.
-/

namespace Arranger

namespace Grammar

/-! ## Cutting lists -/

/-- There is one way to cut a list in front of its first separator. -/
lemma append_unique {α : Type} {separates : α → Bool} {front front' rest rest' : List α}
    (hfront : ∀ x ∈ front, separates x = false) (hfront' : ∀ x ∈ front', separates x = false)
    (hrest : ∀ x ∈ rest.head?, separates x = true)
    (hrest' : ∀ x ∈ rest'.head?, separates x = true) (h : front ++ rest = front' ++ rest') :
    front = front' ∧ rest = rest' := by
  induction front generalizing front' with
  | nil =>
    cases front' with
    | nil => exact ⟨rfl, h⟩
    | cons x xs =>
      rw [List.nil_append] at h
      have htrue := hrest x (by rw [h]; rfl)
      rw [hfront' x (List.mem_cons_self ..)] at htrue
      cases htrue
  | cons x xs ih =>
    cases front' with
    | nil =>
      rw [List.nil_append] at h
      have htrue := hrest' x (by rw [← h]; rfl)
      rw [hfront x (List.mem_cons_self ..)] at htrue
      cases htrue
    | cons y ys =>
      rw [List.cons_append, List.cons_append, List.cons.injEq] at h
      rw [List.forall_mem_cons] at hfront hfront'
      obtain ⟨rfl, hrests⟩ := ih hfront.2 hfront'.2 h.2
      exact ⟨by rw [h.1], hrests⟩

/-! ## Suffixes -/

/-- Whether a lexeme starts a suffix. -/
def startsSuffix : Lexeme → Bool
  | .word _ | .greater | .less | .bang | .question | .group _ => true
  | _ => false

/-- Nothing or a suffix comes next. -/
def Follows (lexemes : List Lexeme) : Prop :=
  ∀ lexeme ∈ lexemes.head?, startsSuffix lexeme = true

/-- Suffixes may follow. -/
lemma follows_suffixes (suffixes : List Suffix) : Follows (suffixes.flatMap Suffix.lexemes) := by
  intro lexeme hhead
  cases suffixes with
  | nil => simp at hhead
  | cons suffix suffixes =>
    cases suffix <;> simp [Suffix.lexemes, Word.lexemes] at hhead <;> rw [← hhead] <;> rfl

/-- Words of the same letters only are the same. -/
lemma word_ofList_inj {letters letters' : List Char} :
    Lexeme.word (String.ofList letters) = .word (String.ofList letters') ↔ letters = letters' := by
  rw [Lexeme.word.injEq, String.ofList_inj]

/-- A lexeme that starts no suffix does not follow where nothing but suffixes does. -/
lemma not_follows {lexeme : Lexeme} {rest : List Lexeme} (h : startsSuffix lexeme = false) :
    ¬ Follows (lexeme :: rest) := by
  intro hfollows
  have htrue := hfollows lexeme rfl
  rw [h] at htrue
  cases htrue

/-- Whether something is left out, and what it is, is determined by its lexemes, where nothing but
suffixes follows. -/
lemma optional_append_inj {α : Type} {lexemes : α → List Lexeme} {part part' : Option α}
    {rest rest' : List Lexeme}
    (hstart : ∀ some more, ¬ Follows (lexemes some ++ more))
    (hinjective : ∀ some some' more more', lexemes some ++ more = lexemes some' ++ more' →
      some = some' ∧ more = more')
    (hrest : Follows rest) (hrest' : Follows rest')
    (h : optional lexemes part ++ rest = optional lexemes part' ++ rest') :
    part = part' ∧ rest = rest' := by
  cases part with
  | none =>
    cases part' with
    | none => exact ⟨rfl, h⟩
    | some value' =>
      change rest = lexemes value' ++ rest' at h
      exact absurd (h ▸ hrest) (hstart value' rest')
  | some value =>
    cases part' with
    | none =>
      change lexemes value ++ rest = rest' at h
      exact absurd (h ▸ hrest') (hstart value rest)
    | some value' =>
      obtain ⟨rfl, hrests⟩ := hinjective value value' rest rest' h
      exact ⟨rfl, hrests⟩

/-- A word is determined by its lexemes, where nothing but suffixes follows. -/
lemma Word.lexemes_append_inj {lead : List Char} {word word' : Word} {rest rest' : List Lexeme}
    (hrest : Follows rest) (hrest' : Follows rest')
    (h : word.lexemes lead ++ rest = word'.lexemes lead ++ rest') :
    word = word' ∧ rest = rest' := by
  obtain ⟨first, more, parameter⟩ := word
  obtain ⟨first', more', parameter'⟩ := word'
  rw [lexemes, lexemes, List.cons_append, List.cons_append, List.cons.injEq, word_ofList_inj,
    List.append_cancel_left_eq] at h
  obtain ⟨hletters, h⟩ := h
  cases hletters
  obtain ⟨hparameter, hrests⟩ := optional_append_inj (fun _ _ => not_follows rfl)
    (fun _ _ _ _ heq => by simpa using heq) hrest hrest' h
  cases hparameter
  exact ⟨rfl, hrests⟩

/-- A suffix is determined by its lexemes, where nothing but suffixes follows. -/
lemma Suffix.lexemes_append_inj {suffix suffix' : Suffix} {rest rest' : List Lexeme}
    (hrest : Follows rest) (hrest' : Follows rest')
    (h : suffix.lexemes ++ rest = suffix'.lexemes ++ rest') : suffix = suffix' ∧ rest = rest' := by
  cases suffix with
  | effects word =>
    cases suffix' with
    | effects word' =>
      obtain ⟨rfl, hrests⟩ := Word.lexemes_append_inj hrest hrest' h
      exact ⟨rfl, hrests⟩
    | _ => simp [lexemes, Word.lexemes] at h
  | _ =>
    cases suffix' with
    | effects word' => simp [lexemes, Word.lexemes] at h
    | _ => simp_all [lexemes]

/-- Suffixes are determined by their lexemes. -/
lemma suffixes_injective {suffixes suffixes' : List Suffix}
    (h : suffixes.flatMap Suffix.lexemes = suffixes'.flatMap Suffix.lexemes) :
    suffixes = suffixes' := by
  induction suffixes generalizing suffixes' with
  | nil =>
    cases suffixes' with
    | nil => rfl
    | cons suffix' suffixes' => cases suffix' <;> simp [Suffix.lexemes, Word.lexemes] at h
  | cons suffix suffixes ih =>
    cases suffixes' with
    | nil => cases suffix <;> simp [Suffix.lexemes, Word.lexemes] at h
    | cons suffix' suffixes' =>
      rw [List.flatMap_cons, List.flatMap_cons] at h
      obtain ⟨rfl, hrest⟩ :=
        Suffix.lexemes_append_inj (follows_suffixes _) (follows_suffixes _) h
      rw [ih hrest]

/-! ## Beats and terms -/

/-- A glued word is longer than the letter of the position. -/
lemma glued_ne_position (word : Word) :
    Lexeme.word (String.ofList (['i'] ++ word.letters)) ≠ .word "i" := by
  intro h
  have hletters := word_ofList_inj.mp (h.trans (show _ = Lexeme.word (String.ofList ['i']) from rfl))
  simp [Word.letters] at hletters

/-- A beat is determined by its lexemes, where nothing but suffixes follows. -/
lemma Reference.lexemes_append_inj {reference reference' : Reference} {rest rest' : List Lexeme}
    (hrest : Follows rest) (hrest' : Follows rest')
    (h : reference.lexemes ++ rest = reference'.lexemes ++ rest') :
    reference = reference' ∧ rest = rest' := by
  cases reference with
  | number value =>
    cases reference' with
    | number value' =>
      cases h
      exact ⟨rfl, rfl⟩
    | _ => simp [lexemes, Word.lexemes] at h
  | negative value =>
    cases reference' with
    | negative value' =>
      cases h
      exact ⟨rfl, rfl⟩
    | _ => simp [lexemes, Word.lexemes] at h
  | position offset =>
    cases reference' with
    | position offset' =>
      have hstart : ∀ signed more, ¬ Follows (offsetLexemes signed ++ more) := by
        rintro ⟨sign, value⟩ more
        cases sign <;> exact not_follows rfl
      have hinjective : ∀ signed signed' more more',
          offsetLexemes signed ++ more = offsetLexemes signed' ++ more' →
            signed = signed' ∧ more = more' := by
        rintro ⟨sign, value⟩ ⟨sign', value'⟩ more more' heq
        cases sign <;> cases sign' <;> simp_all [offsetLexemes, Sign.lexeme]
      obtain ⟨rfl, hrests⟩ :=
        optional_append_inj hstart hinjective hrest hrest' (List.cons.inj h).2
      exact ⟨rfl, hrests⟩
    | glued word' => exact absurd (List.cons.inj h).1.symm (glued_ne_position word')
    | _ => simp [lexemes] at h
  | glued word =>
    cases reference' with
    | glued word' =>
      obtain ⟨rfl, hrests⟩ := Word.lexemes_append_inj hrest hrest' h
      exact ⟨rfl, hrests⟩
    | position offset' => exact absurd (List.cons.inj h).1 (glued_ne_position word)
    | _ => simp [lexemes, Word.lexemes] at h
  | random low high step =>
    cases reference' with
    | random low' high' step' =>
      obtain ⟨rfl, rfl, hsteps⟩ : low = low' ∧ high = high' ∧
          optional stepLexemes step ++ rest = optional stepLexemes step' ++ rest' := by
        simpa [lexemes] using h
      obtain ⟨rfl, hrests⟩ := optional_append_inj (fun _ _ => not_follows rfl)
        (fun _ _ _ _ heq => by simpa [stepLexemes] using heq) hrest hrest' hsteps
      exact ⟨rfl, hrests⟩
    | _ => simp [lexemes, Word.lexemes] at h

/-- A term is determined by its lexemes. -/
lemma Phrase.lexemes_injective {phrase phrase' : Phrase} (h : phrase.lexemes = phrase'.lexemes) :
    phrase = phrase' := by
  obtain ⟨source, reference, suffixes⟩ := phrase
  obtain ⟨source', reference', suffixes'⟩ := phrase'
  have hinner : source = source' ∧
      reference.lexemes ++ suffixes.flatMap Suffix.lexemes =
        reference'.lexemes ++ suffixes'.flatMap Suffix.lexemes := by
    cases source <;> cases source' <;> simp only [lexemes, optional, List.nil_append] at h
    · exact ⟨rfl, h⟩
    · cases reference <;> simp [Reference.lexemes, Word.lexemes] at h
    · cases reference' <;> simp [Reference.lexemes, Word.lexemes] at h
    · simpa using h
  obtain ⟨rfl, hrest⟩ := hinner
  obtain ⟨rfl, hsuffixes⟩ :=
    Reference.lexemes_append_inj (follows_suffixes _) (follows_suffixes _) hrest
  rw [suffixes_injective hsuffixes]

/-! ## Steps and patterns -/

/-- No lexeme of a word closes a term. -/
lemma Word.endsTerm_lexemes (lead : List Char) (word : Word) :
    ∀ lexeme ∈ word.lexemes lead, lexeme.endsTerm = false := by
  unfold lexemes
  cases word.parameter <;> simp [optional, Lexeme.endsTerm]

/-- No lexeme of a suffix closes a term. -/
lemma Suffix.endsTerm_lexemes (suffix : Suffix) :
    ∀ lexeme ∈ suffix.lexemes, lexeme.endsTerm = false := by
  cases suffix with
  | effects word => exact word.endsTerm_lexemes []
  | _ => simp [lexemes, Lexeme.endsTerm]

/-- No lexeme of a beat closes a term. -/
lemma Reference.endsTerm_lexemes (reference : Reference) :
    ∀ lexeme ∈ reference.lexemes, lexeme.endsTerm = false := by
  cases reference with
  | glued word => exact word.endsTerm_lexemes ['i']
  | position offset =>
    rcases offset with _ | ⟨_ | _, value⟩ <;>
      simp [lexemes, optional, offsetLexemes, Sign.lexeme, Lexeme.endsTerm]
  | random low high step =>
    cases step <;> simp [lexemes, optional, stepLexemes, Lexeme.endsTerm]
  | _ => simp [lexemes, Lexeme.endsTerm]

/-- No lexeme of a term closes a term. -/
lemma Phrase.endsTerm_lexemes (phrase : Phrase) :
    ∀ lexeme ∈ phrase.lexemes, lexeme.endsTerm = false := by
  intro lexeme hmem
  rw [lexemes, List.mem_append, List.mem_append] at hmem
  rcases hmem with (hsource | hreference) | hsuffixes
  · cases hname : phrase.source <;> simp_all [optional, Lexeme.endsTerm]
  · exact phrase.reference.endsTerm_lexemes lexeme hreference
  · obtain ⟨suffix, _, hsuffix⟩ := List.mem_flatMap.mp hsuffixes
    exact suffix.endsTerm_lexemes lexeme hsuffix

/-- The lexemes that close a step. -/
def endsGroup : Lexeme → Bool
  | .comma | .stop => true
  | _ => false

/-- What closes a step closes a term. -/
lemma endsGroup_of_endsTerm {lexeme : Lexeme} (h : lexeme.endsTerm = false) :
    endsGroup lexeme = false := by
  cases lexeme <;> first | rfl | cases h

/-- No lexeme of a step closes a step. -/
lemma Group.endsGroup_lexemes (group : Group) :
    ∀ lexeme ∈ group.lexemes, endsGroup lexeme = false := by
  have hphrase : ∀ phrase : Phrase, ∀ lexeme ∈ phrase.lexemes, endsGroup lexeme = false :=
    fun phrase lexeme hmem => endsGroup_of_endsTerm (phrase.endsTerm_lexemes lexeme hmem)
  cases group with
  | single phrase => exact hphrase phrase
  | mixed mode first second more =>
    intro lexeme hmem
    rcases List.mem_append.mp hmem with hfirst | hparts
    · exact hphrase first lexeme hfirst
    · obtain ⟨phrase, _, hlexeme⟩ := List.mem_flatMap.mp hparts
      rcases List.mem_cons.mp hlexeme with rfl | hlexeme
      · cases mode <;> rfl
      · exact hphrase phrase lexeme hlexeme

/-- The mix character closes a term. -/
lemma endsTerm_mixMode (mode : MixMode) : mode.lexeme.endsTerm = true := by
  cases mode <;> rfl

/-- Terms with a mix character in front of each start with one. -/
lemma endsTerm_head_partLexemes (mode : MixMode) (phrases : List Phrase) :
    ∀ lexeme ∈ (Group.partLexemes mode phrases).head?, lexeme.endsTerm = true := by
  cases phrases with
  | nil => simp [Group.partLexemes]
  | cons phrase phrases =>
    rintro lexeme ⟨⟩
    exact endsTerm_mixMode mode

/-- Terms with mix characters between them are determined by their lexemes.

**Proof sketch.** No term holds a lexeme that closes a term. The first of these in the list
therefore closes the first term on either side, and the rest is left to the induction. -/
lemma parts_injective (mode mode' : MixMode) {first first' : Phrase} {more more' : List Phrase}
    (h : first.lexemes ++ Group.partLexemes mode more =
      first'.lexemes ++ Group.partLexemes mode' more') :
    first = first' ∧ more = more' ∧ (more ≠ [] → mode = mode') := by
  induction more generalizing first first' more' with
  | nil =>
    obtain ⟨hfirst, hmore⟩ := append_unique first.endsTerm_lexemes first'.endsTerm_lexemes
      (endsTerm_head_partLexemes mode _) (endsTerm_head_partLexemes mode' _) h
    cases more' with
    | nil => exact ⟨Phrase.lexemes_injective hfirst, rfl, fun hne => absurd rfl hne⟩
    | cons second' more' => cases hmore
  | cons second more ih =>
    obtain ⟨hfirst, hmore⟩ := append_unique first.endsTerm_lexemes first'.endsTerm_lexemes
      (endsTerm_head_partLexemes mode _) (endsTerm_head_partLexemes mode' _) h
    cases more' with
    | nil => cases hmore
    | cons second' more' =>
      rw [Group.partLexemes_cons, Group.partLexemes_cons, List.cons.injEq] at hmore
      have hmode : mode = mode' := by
        have hlexeme := hmore.1
        cases mode <;> cases mode' <;> first | rfl | cases hlexeme
      obtain ⟨rfl, rfl, _⟩ := ih hmore.2
      exact ⟨Phrase.lexemes_injective hfirst, rfl, fun _ => hmode⟩

/-- A step is determined by its lexemes. -/
lemma Group.lexemes_injective {group group' : Group} (h : group.lexemes = group'.lexemes) :
    group = group' := by
  cases group with
  | single phrase =>
    cases group' with
    | single phrase' => rw [Phrase.lexemes_injective h]
    | mixed mode' first' second' more' =>
      have hparts : phrase.lexemes ++ partLexemes mode' [] =
          first'.lexemes ++ partLexemes mode' (second' :: more') := (List.append_nil _).trans h
      obtain ⟨_, hmore, _⟩ := parts_injective mode' mode' hparts
      cases hmore
  | mixed mode first second more =>
    cases group' with
    | single phrase' =>
      have hparts : first.lexemes ++ partLexemes mode (second :: more) =
          phrase'.lexemes ++ partLexemes mode [] := h.trans (List.append_nil _).symm
      obtain ⟨_, hmore, _⟩ := parts_injective mode mode hparts
      cases hmore
    | mixed mode' first' second' more' =>
      obtain ⟨rfl, hmore, hmode⟩ := parts_injective mode mode' h
      cases hmore
      rw [hmode (List.cons_ne_nil _ _)]

/-- What stands behind a step starts with what closes one. -/
lemma endsGroup_head_restLexemes (groups : List Group) :
    ∀ lexeme ∈ (Tree.restLexemes groups).head?, endsGroup lexeme = true := by
  cases groups with
  | nil =>
    rintro lexeme ⟨⟩
    rfl
  | cons group groups =>
    rintro lexeme ⟨⟩
    rfl

/-- **The grammar is unambiguous**: a pattern is determined by its lexemes. -/
theorem Tree.lexemes_injective {tree tree' : Tree} (h : tree.lexemes = tree'.lexemes) :
    tree = tree' := by
  obtain ⟨first, more⟩ := tree
  obtain ⟨first', more'⟩ := tree'
  induction more generalizing first first' more' with
  | nil =>
    obtain ⟨hfirst, hmore⟩ := append_unique first.endsGroup_lexemes first'.endsGroup_lexemes
      (endsGroup_head_restLexemes _) (endsGroup_head_restLexemes _) h
    cases more' with
    | nil => rw [Group.lexemes_injective hfirst]
    | cons second' more' => cases hmore
  | cons second more ih =>
    obtain ⟨hfirst, hmore⟩ := append_unique first.endsGroup_lexemes first'.endsGroup_lexemes
      (endsGroup_head_restLexemes _) (endsGroup_head_restLexemes _) h
    cases more' with
    | nil => cases hmore
    | cons second' more' =>
      rw [restLexemes_cons, restLexemes_cons, List.cons.injEq] at hmore
      cases ih second second' more' hmore.2
      rw [Group.lexemes_injective hfirst]

end Grammar

end Arranger

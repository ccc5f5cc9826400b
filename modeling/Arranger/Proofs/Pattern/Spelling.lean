import Mathlib.Tactic.SplitIfs
import Arranger.Proofs.Fallible
import Arranger.Proofs.Pattern.Numerals

/-!
# Spellings of lexemes

Each kind of lexeme has its characters: a mark is always the same one, a word is its letters, a
group has its mark in front, an alias stands in brackets with blanks around it, and a number is digits
with at most one point. The scanner takes a spelling from the start of the characters, up to one that
does not go on with it, and this says all about what it does there.

## Main definitions

* `Arranger.Lexeme.Spelling` — characters that a lexeme may be made of.
* `Arranger.Lexeme.goesOn` — whether a character would be one more of a lexeme.
* `Arranger.breaks` — whether no lexeme goes on with a character.

## Main results

* `Arranger.spelling_of_scanToken`, `scanToken_of_spelling` — the scanner takes what is spelled.
* `Arranger.scanToken_eq_ok_iff` — the two in one.
* `Arranger.scanToken_next` — a token depends on the next character at most.
-/

namespace Arranger

/-! ## Characters -/

/-- The visible characters of the Latin alphabet are not blank. -/
lemma isBlank_of_visible {c : Char} (hlow : 33 ≤ c.toNat) (hhigh : c.toNat ≤ 126) :
    isBlank c = false := by
  simp [isBlank, blankChars, CharClass.contains]
  omega

/-- The range of a digit. -/
lemma toNat_of_isDigitChar {c : Char} (h : isDigitChar c = true) :
    48 ≤ c.toNat ∧ c.toNat ≤ 57 := by
  simpa [isDigitChar, Char.le_def, UInt32.le_iff_toNat_le] using h

/-- The range of a letter. -/
lemma toNat_of_isLetterChar {c : Char} (h : isLetterChar c = true) :
    97 ≤ c.toNat ∧ c.toNat ≤ 122 ∨ 65 ≤ c.toNat ∧ c.toNat ≤ 90 := by
  simpa [isLetterChar, Char.le_def, UInt32.le_iff_toNat_le] using h

/-- A letter is no digit. -/
lemma not_digit_of_letter {c : Char} (h : isLetterChar c = true) : isDigitChar c = false := by
  rw [Bool.eq_false_iff]
  intro hdigit
  have := toNat_of_isDigitChar hdigit
  have := toNat_of_isLetterChar h
  omega

/-- Letters and digits are no tokens of a single character. -/
lemma ofChar?_eq_none {c : Char} (h : isDigitChar c = true ∨ isLetterChar c = true) :
    Lexeme.ofChar? c = none := by
  unfold Lexeme.ofChar?
  split <;> first | rfl | (revert h; decide)

/-- A character is in no class whose ranges are apart from those of a class that it is in. -/
lemma CharClass.not_contains_of_contains {charClass other : CharClass}
    (h : ∀ range ∈ charClass.ranges, ∀ range' ∈ other.ranges,
      range.2 < range'.1 ∨ range'.2 < range.1) {c : Char} (hc : charClass.contains c = true) :
    other.contains c = false := by
  obtain ⟨range, hrange, hin⟩ := List.any_eq_true.mp hc
  refine List.any_eq_false.mpr fun range' hrange' hin' => ?_
  have hapart := h range hrange range' hrange'
  rw [Bool.and_eq_true, decide_eq_true_eq, decide_eq_true_eq] at hin hin'
  omega

/-- No character of an alias is blank. -/
lemma not_blank_of_aliasChar {c : Char} (h : isAliasChar c = true) : isBlank c = false := by
  rw [Bool.eq_false_iff]
  intro hblank
  have hapart : ∀ range ∈ blankChars.ranges, ∀ range' ∈ alphanumericChars.ranges,
      range.2 < range'.1 ∨ range'.2 < range.1 := by decide +kernel
  have hletter : isAlphanumeric c = false := CharClass.not_contains_of_contains hapart hblank
  rw [isAliasChar, hletter, Bool.false_or, Bool.or_eq_true, Bool.or_eq_true, beq_iff_eq, beq_iff_eq,
    beq_iff_eq] at h
  obtain (rfl | rfl) | rfl := h
  all_goals revert hblank; decide

/-! ## Blanks at the ends -/

/-- Characters are blanks, what is trimmed of them, and blanks. -/
lemma exists_trimBlank (cs : List Char) :
    ∃ before behind, cs = before ++ trimBlank cs ++ behind ∧
      (∀ c ∈ before, isBlank c = true) ∧ ∀ c ∈ behind, isBlank c = true := by
  refine ⟨cs.takeWhile isBlank, ((cs.dropWhile isBlank).reverse.takeWhile isBlank).reverse, ?_,
    fun c => List.mem_takeWhile_imp, fun c hmem => List.mem_takeWhile_imp (List.mem_reverse.mp hmem)⟩
  rw [List.append_assoc, trimBlank, ← List.reverse_append, List.takeWhile_append_dropWhile,
    List.reverse_reverse, List.takeWhile_append_dropWhile]

/-- Blanks are trimmed off up to characters that are not blank. -/
lemma trimBlank_append {before name behind : List Char} (hbefore : ∀ c ∈ before, isBlank c = true)
    (hname : ∀ c ∈ name, isBlank c = false) (hbehind : ∀ c ∈ behind, isBlank c = true)
    (hne : name ≠ []) : trimBlank (before ++ name ++ behind) = name := by
  obtain ⟨first, more, rfl⟩ := List.exists_cons_of_ne_nil hne
  have hfront : (before ++ (first :: more) ++ behind).dropWhile isBlank =
      first :: more ++ behind := by
    rw [List.append_assoc]
    refine dropWhile_front hbefore ?_
    rintro c ⟨⟩
    exact hname first List.mem_cons_self
  rw [trimBlank, hfront, List.reverse_append, dropWhile_front, List.reverse_reverse]
  · exact fun c hmem => hbehind c (List.mem_reverse.mp hmem)
  · exact fun c hmem => hname c (List.mem_reverse.mp (List.mem_of_mem_head? hmem))

/-! ## Spellings -/

namespace Lexeme

/-- The character of a lexeme that is always a single one. -/
def mark? : Lexeme → Option Char
  | comma => some ','
  | semicolon => some ';'
  | caret => some '^'
  | plus => some '+'
  | minus => some '-'
  | «at» => some '@'
  | underscore => some '_'
  | bang => some '!'
  | question => some '?'
  | greater => some '>'
  | less => some '<'
  | _ => none

/-- The characters that a lexeme may be made of. The end of the text has none. -/
inductive Spelling : Lexeme → List Char → Prop where
  /-- A mark is its character. -/
  | mark {lexeme : Lexeme} {c : Char} (hmark : lexeme.mark? = some c) : Spelling lexeme [c]
  /-- A word is its letters. -/
  | word {letters : List Char} (hne : letters ≠ [])
      (hletters : ∀ c ∈ letters, isLetterChar c = true) :
      Spelling (.word (String.ofList letters)) letters
  /-- A group is its name behind a mark. -/
  | group {name : List Char} (hne : name ≠ []) (hname : ∀ c ∈ name, isGroupChar c = true) :
      Spelling (.group (String.ofList name)) ('#' :: name)
  /-- An alias is in brackets, with blanks around it or not. -/
  | source {before name behind : List Char} (hne : name ≠ [])
      (hbefore : ∀ c ∈ before, isBlank c = true) (hname : ∀ c ∈ name, isAliasChar c = true)
      (hbehind : ∀ c ∈ behind, isBlank c = true) :
      Spelling (.source (String.ofList name)) ('[' :: (before ++ name ++ behind ++ [']']))
  /-- A number may be digits. -/
  | whole {digits : List Char} (hne : digits ≠ []) (hdigits : ∀ c ∈ digits, isDigitChar c = true) :
      Spelling (.number (Decimal.ofChars digits []).toBinary) digits
  /-- A number may be digits with a point in front of them, between them or behind them. -/
  | point {digits places : List Char} (hne : digits ++ places ≠ [])
      (hdigits : ∀ c ∈ digits, isDigitChar c = true) (hplaces : ∀ c ∈ places, isDigitChar c = true) :
      Spelling (.number (Decimal.ofChars digits places).toBinary) (digits ++ '.' :: places)

/-- Whether a character would be one more of a lexeme with the given ones. A number has no second
point. -/
def goesOn (lexeme : Lexeme) (cs : List Char) (c : Char) : Bool :=
  match lexeme with
  | word _ => isLetterChar c
  | group _ => isGroupChar c
  | number _ => if '.' ∈ cs then isDigitChar c else continuesNumber c
  | _ => false

/-- The single characters are the marks. -/
lemma ofChar?_eq_some_iff {c : Char} {lexeme : Lexeme} :
    ofChar? c = some lexeme ↔ lexeme.mark? = some c := by
  constructor
  · intro h
    unfold ofChar? at h
    split at h <;> cases h <;> rfl
  · intro h
    cases lexeme <;> cases h <;> rfl

end Lexeme

/-! ## What the scanner takes -/

/-- A character that is no bracket is one of those between brackets. -/
lemma scanBracket_cons {c : Char} (hclose : c ≠ ']') (hopen : c ≠ '[') (opening position : ℕ)
    (rest : List Char) :
    scanBracket opening position (c :: rest) =
      (scanBracket opening (position + 1) rest).map fun found => (c :: found.1, found.2) := by
  rw [scanBracket]
  · cases scanBracket opening (position + 1) rest <;> rfl
  · exact hclose
  · exact hopen

/-- What stands between brackets goes up to the closing one. -/
lemma eq_append_of_scanBracket {opening position : ℕ} {cs inside after : List Char}
    (h : scanBracket opening position cs = .ok (inside, after)) : cs = inside ++ ']' :: after := by
  induction cs generalizing position inside with
  | nil => cases h
  | cons c cs ih =>
    by_cases hclose : c = ']'
    · subst hclose
      cases h
      rfl
    · by_cases hopen : c = '['
      · subst hopen
        cases h
      · rw [scanBracket_cons hclose hopen] at h
        obtain ⟨⟨inside', after'⟩, hinside, heq⟩ := map_eq_ok_iff.mp h
        cases heq
        rw [ih hinside, List.cons_append]

/-- An alias is between brackets with blanks around it. -/
lemma exists_of_aliasOf {opening : ℕ} {inside : List Char} {name : String}
    (h : aliasOf opening inside = .ok name) :
    trimBlank inside ≠ [] ∧ (∀ c ∈ trimBlank inside, isAliasChar c = true) ∧
      name = String.ofList (trimBlank inside) := by
  unfold aliasOf at h
  split at h
  · cases h
  · next hne =>
    split at h
    · cases h
    · next hfind =>
      cases h
      exact ⟨hne, fun c hmem => by simpa using List.find?_eq_none.mp hfind c hmem, rfl⟩

/-- A number takes digits and at most one point from the start of the characters, up to one that does
not go on with it. -/
lemma spelling_of_scanNumber {first : Char} {rest : List Char}
    (h : (isDigitChar first || (first = '.' && rest.head?.any isDigitChar)) = true) :
    ∃ value more after, scanNumber (first :: rest) = (value, after) ∧ rest = more ++ after ∧
      (Lexeme.number value).Spelling (first :: more) ∧
        ∀ c ∈ after.head?, (Lexeme.number value).goesOn (first :: more) c = false := by
  rcases exists_numeral (first :: rest) with ⟨digits, places, after, heq, hdigits, hplaces, hafter⟩ |
      ⟨digits, after, heq, hdigits, hafter⟩
  · have hscan := scanNumber_point hdigits hplaces hafter
    have hne : digits ++ places ≠ [] := by
      intro hnil
      obtain ⟨rfl, rfl⟩ := List.append_eq_nil_iff.mp hnil
      obtain ⟨rfl, rfl⟩ := List.cons.inj heq
      obtain ⟨c, hc, hdigit⟩ : ∃ c ∈ rest.head?, isDigitChar c = true := by
        simpa [Option.any_eq_true, isDigitChar] using h
      rw [hafter c hc] at hdigit
      cases hdigit
    have hspelling := Lexeme.Spelling.point hne hdigits hplaces
    rw [← heq] at hscan
    obtain ⟨hnil, -⟩ | ⟨more, hmore, hrest⟩ := List.cons_eq_append_iff.mp heq
    · cases digits <;> cases hnil
    · have hpoint : '.' ∈ first :: more := by simp [← hmore]
      rw [hmore] at hspelling
      refine ⟨_, more, after, hscan, hrest, hspelling, fun c hc => ?_⟩
      rw [Lexeme.goesOn, if_pos hpoint]
      exact hafter c hc
  · have hscan := scanNumber_whole hdigits hafter
    rw [← heq] at hscan
    obtain ⟨-, hfirst⟩ | ⟨more, rfl, hrest⟩ := List.cons_eq_append_iff.mp heq
    · have hnot := hafter first (by rw [hfirst]; rfl)
      simp only [continuesNumber, Bool.or_eq_false_iff, beq_eq_false_iff_ne] at hnot
      simp [hnot.1, hnot.2] at h
    · have hpoint : '.' ∉ first :: more := fun hmem => absurd (hdigits _ hmem) (by decide)
      refine ⟨_, more, after, hscan, hrest, .whole (List.cons_ne_nil _ _) hdigits, fun c hc => ?_⟩
      rw [Lexeme.goesOn, if_neg hpoint]
      exact hafter c hc

/-- **The scanner takes a spelling** from the start of the characters, up to one that does not go on
with it. -/
theorem spelling_of_scanToken {position : ℕ} {first : Char} {rest after : List Char}
    {lexeme : Lexeme} (h : scanToken position first rest = .ok (lexeme, after)) :
    ∃ more, rest = more ++ after ∧ lexeme.Spelling (first :: more) ∧
      ∀ c ∈ after.head?, lexeme.goesOn (first :: more) c = false := by
  unfold scanToken at h
  split at h
  · next hchar =>
    cases h
    have hmark := Lexeme.ofChar?_eq_some_iff.mp hchar
    refine ⟨[], rfl, .mark hmark, fun c _ => ?_⟩
    cases lexeme <;> first | rfl | cases hmark
  · split_ifs at h with hopen hclose hgroup hnumber hletter
    · obtain ⟨⟨inside, after'⟩, hinside, h⟩ := bind_eq_ok_iff.mp h
      obtain ⟨name, hname, h⟩ := bind_eq_ok_iff.mp h
      cases h
      obtain ⟨hne, hchars, rfl⟩ := exists_of_aliasOf hname
      obtain ⟨before, behind, htrim, hbefore, hbehind⟩ := exists_trimBlank inside
      refine ⟨inside ++ [']'], ?_, ?_, fun c _ => rfl⟩
      · rw [eq_append_of_scanBracket hinside, List.append_assoc, List.singleton_append]
      · have hspelling := Lexeme.Spelling.source hne hbefore hchars hbehind
        rwa [← htrim, ← hopen] at hspelling
    · split at h
      · cases h
      · next hne =>
        cases h
        have hspelling := Lexeme.Spelling.group hne fun c => List.mem_takeWhile_imp
        rw [← hgroup] at hspelling
        exact ⟨_, List.takeWhile_append_dropWhile.symm, hspelling, not_of_head_dropWhile⟩
    · obtain ⟨value, more, after', hscan, hrest, hspelling, hafter⟩ := spelling_of_scanNumber hnumber
      rw [hscan] at h
      cases h
      exact ⟨more, hrest, hspelling, hafter⟩
    · cases h
      refine ⟨rest.takeWhile isLetterChar, List.takeWhile_append_dropWhile.symm,
        .word (List.cons_ne_nil _ _) ?_, not_of_head_dropWhile⟩
      exact List.forall_mem_cons.mpr ⟨hletter, fun c => List.mem_takeWhile_imp⟩

/-! ## What it takes for a spelling -/

/-- Characters between brackets that are no brackets are what stands between these. -/
lemma scanBracket_append {opening position : ℕ} {inside rest : List Char}
    (hinside : ∀ c ∈ inside, c ≠ ']' ∧ c ≠ '[') :
    scanBracket opening position (inside ++ ']' :: rest) = .ok (inside, rest) := by
  induction inside generalizing position with
  | nil => rw [List.nil_append, scanBracket]
  | cons c inside ih =>
    rw [List.forall_mem_cons] at hinside
    rw [List.cons_append, scanBracket_cons hinside.1.1 hinside.1.2, ih hinside.2]
    rfl

/-- The characters of an alias between blanks are read as it. -/
lemma aliasOf_append {opening : ℕ} {before name behind : List Char} (hne : name ≠ [])
    (hbefore : ∀ c ∈ before, isBlank c = true) (hname : ∀ c ∈ name, isAliasChar c = true)
    (hbehind : ∀ c ∈ behind, isBlank c = true) :
    aliasOf opening (before ++ name ++ behind) = .ok (String.ofList name) := by
  have hfind : name.find? (!isAliasChar ·) = none :=
    List.find?_eq_none.mpr fun c hmem => by simp [hname c hmem]
  rw [aliasOf, trimBlank_append hbefore (fun c hmem => not_blank_of_aliasChar (hname c hmem)) hbehind
    hne]
  obtain ⟨first, more, rfl⟩ := List.exists_cons_of_ne_nil hne
  dsimp only
  rw [hfind]

/-- What is taken as a number is a token where a number starts. -/
lemma scanToken_of_scanNumber {first : Char} {rest after : List Char} {value : Double}
    (hstart : (isDigitChar first || (first = '.' && rest.head?.any isDigitChar)) = true)
    (hscan : scanNumber (first :: rest) = (value, after)) (position : ℕ) :
    scanToken position first rest = .ok (.number value, after) := by
  have hfirst : isDigitChar first = true ∨ first = '.' := by
    rw [Bool.or_eq_true, Bool.and_eq_true, decide_eq_true_eq] at hstart
    exact hstart.imp_right And.left
  have hchar : Lexeme.ofChar? first = none ∧ first ≠ '[' ∧ first ≠ ']' ∧ first ≠ '#' := by
    rcases hfirst with hdigit | rfl
    · refine ⟨ofChar?_eq_none (.inl hdigit), ?_, ?_, ?_⟩
      all_goals rintro rfl; exact absurd hdigit (by decide)
    · decide
  obtain ⟨hnone, hopen, hclose, hmark⟩ := hchar
  rw [scanToken, hnone]
  dsimp only
  rw [if_neg hopen, if_neg hclose, if_neg hmark, if_pos hstart, hscan]

/-- **The scanner takes every spelling** up to a character that does not go on with it. -/
theorem scanToken_of_spelling {lexeme : Lexeme} {first : Char} {more after : List Char}
    (h : lexeme.Spelling (first :: more))
    (hafter : ∀ c ∈ after.head?, lexeme.goesOn (first :: more) c = false) (position : ℕ) :
    scanToken position first (more ++ after) = .ok (lexeme, after) := by
  generalize hcs : first :: more = cs at h hafter
  cases h with
  | mark hmark =>
    obtain ⟨rfl, rfl⟩ := List.cons.inj hcs
    rw [scanToken, Lexeme.ofChar?_eq_some_iff.mpr hmark]
    rfl
  | word hne hletters =>
    subst hcs
    rw [List.forall_mem_cons] at hletters
    obtain ⟨hfirst, hmore⟩ := hletters
    have hopen : first ≠ '[' := by rintro rfl; exact absurd hfirst (by decide)
    have hclose : first ≠ ']' := by rintro rfl; exact absurd hfirst (by decide)
    have hmark : first ≠ '#' := by rintro rfl; exact absurd hfirst (by decide)
    have hpoint : first ≠ '.' := by rintro rfl; exact absurd hfirst (by decide)
    have hnumber : (isDigitChar first || (first = '.' && (more ++ after).head?.any isDigitChar)) =
        false := by
      rw [not_digit_of_letter hfirst, decide_eq_false hpoint, Bool.false_and, Bool.or_self]
    rw [scanToken, ofChar?_eq_none (.inr hfirst)]
    dsimp only
    rw [if_neg hopen, if_neg hclose, if_neg hmark, hnumber, if_neg Bool.false_ne_true,
      if_pos hfirst, takeWhile_front hmore hafter, dropWhile_front hmore hafter]
  | @group name hne hname =>
    obtain ⟨rfl, rfl⟩ := List.cons.inj hcs
    have htake : (more ++ after).takeWhile isGroupChar = more := takeWhile_front hname hafter
    have hdrop : (more ++ after).dropWhile isGroupChar = after := dropWhile_front hname hafter
    rw [scanToken, show Lexeme.ofChar? '#' = none from rfl]
    dsimp only
    rw [if_neg (by decide), if_neg (by decide), if_pos rfl, htake, hdrop]
    obtain ⟨c, name', rfl⟩ := List.exists_cons_of_ne_nil hne
    rfl
  | @source before name behind hne hbefore hname hbehind =>
    obtain ⟨rfl, rfl⟩ := List.cons.inj hcs
    have hinside : ∀ c ∈ before ++ name ++ behind, c ≠ ']' ∧ c ≠ '[' := by
      intro c hmem
      have hkind : isBlank c = true ∨ isAliasChar c = true := by
        rcases List.mem_append.mp hmem with hmem | hmem
        · exact (List.mem_append.mp hmem).imp (hbefore c) (hname c)
        · exact .inl (hbehind c hmem)
      constructor
      all_goals rintro rfl; exact absurd hkind (by decide +kernel)
    rw [List.append_assoc, List.singleton_append]
    exact bind_eq_ok_iff.mpr ⟨_, scanBracket_append hinside,
      bind_eq_ok_iff.mpr ⟨_, aliasOf_append hne hbefore hname hbehind, rfl⟩⟩
  | whole hne hdigits =>
    subst hcs
    have hpoint : '.' ∉ first :: more := fun hmem => absurd (hdigits _ hmem) (by decide)
    have hleft : ∀ c ∈ after.head?, continuesNumber c = false := by
      simpa only [Lexeme.goesOn, if_neg hpoint] using hafter
    refine scanToken_of_scanNumber ?_ (scanNumber_whole hdigits hleft) position
    rw [hdigits first List.mem_cons_self, Bool.true_or]
  | @point digits places hne hdigits hplaces =>
    have hpoint : '.' ∈ digits ++ '.' :: places := by simp
    have hleft : ∀ c ∈ after.head?, isDigitChar c = false := by
      simpa only [Lexeme.goesOn, if_pos hpoint] using hafter
    have hscan := scanNumber_point hdigits hplaces hleft
    rw [← hcs] at hscan
    refine scanToken_of_scanNumber ?_ hscan position
    cases digits with
    | nil =>
      obtain ⟨rfl, rfl⟩ := List.cons.inj hcs
      obtain ⟨c, places, rfl⟩ := List.exists_cons_of_ne_nil hne
      exact hplaces c List.mem_cons_self
    | cons c digits =>
      obtain ⟨rfl, -⟩ := List.cons.inj hcs
      rw [hdigits first List.mem_cons_self, Bool.true_or]

/-- **What is taken as a token**: the characters of a spelling, where the next character does not go
on with it. -/
theorem scanToken_eq_ok_iff {position : ℕ} {first : Char} {more after : List Char}
    {lexeme : Lexeme} :
    scanToken position first (more ++ after) = .ok (lexeme, after) ↔
      lexeme.Spelling (first :: more) ∧
        ∀ c ∈ after.head?, lexeme.goesOn (first :: more) c = false := by
  constructor
  · intro h
    obtain ⟨more', hmore, hspelling, hafter⟩ := spelling_of_scanToken h
    rw [List.append_cancel_right hmore]
    exact ⟨hspelling, hafter⟩
  · exact fun ⟨hspelling, hafter⟩ => scanToken_of_spelling hspelling hafter position

/-! ## What is known of spellings -/

namespace Lexeme.Spelling

variable {lexeme : Lexeme} {cs : List Char}

/-- A spelling starts with a character that is not blank. -/
lemma exists_cons (h : lexeme.Spelling cs) :
    ∃ first more, cs = first :: more ∧ isBlank first = false := by
  cases h with
  | @mark lexeme c hmark =>
    refine ⟨c, [], rfl, ?_⟩
    cases lexeme <;> cases hmark <;> rfl
  | word hne hletters =>
    obtain ⟨first, more, rfl⟩ := List.exists_cons_of_ne_nil hne
    have hrange := toNat_of_isLetterChar (hletters first List.mem_cons_self)
    exact ⟨first, more, rfl, isBlank_of_visible (by omega) (by omega)⟩
  | group hne hname => exact ⟨_, _, rfl, rfl⟩
  | source hne hbefore hname hbehind => exact ⟨_, _, rfl, rfl⟩
  | whole hne hdigits =>
    obtain ⟨first, more, rfl⟩ := List.exists_cons_of_ne_nil hne
    have hrange := toNat_of_isDigitChar (hdigits first List.mem_cons_self)
    exact ⟨first, more, rfl, isBlank_of_visible (by omega) (by omega)⟩
  | @point digits places hne hdigits hplaces =>
    cases digits with
    | nil => exact ⟨_, _, rfl, rfl⟩
    | cons first digits =>
      have hrange := toNat_of_isDigitChar (hdigits first List.mem_cons_self)
      exact ⟨first, _, rfl, isBlank_of_visible (by omega) (by omega)⟩

/-- A word has one spelling. -/
lemma toList_eq {letters : String} (h : (Lexeme.word letters).Spelling cs) : letters.toList = cs := by
  cases h with
  | mark hmark => cases hmark
  | word hne hletters => exact String.toList_ofList

/-- The number of a spelling is read from digits, those in front of a point and those behind it. -/
lemma exists_digits {value : Double} (h : (Lexeme.number value).Spelling cs) :
    ∃ digits places, value = (Decimal.ofChars digits places).toBinary ∧ digits <+: cs ∧
      (∀ c ∈ digits, isDigitChar c = true) ∧ ∀ c ∈ places, isDigitChar c = true := by
  cases h with
  | mark hmark => cases hmark
  | whole hne hdigits => exact ⟨cs, [], rfl, List.prefix_rfl, hdigits, by simp⟩
  | point hne hdigits hplaces => exact ⟨_, _, rfl, List.prefix_append _ _, hdigits, hplaces⟩

/-- There is no comma behind the first character of a spelling. -/
lemma comma_not_mem {first : Char} {more : List Char} (h : lexeme.Spelling (first :: more)) :
    ',' ∉ more := by
  generalize hcs : first :: more = cs at h
  intro hmem
  cases h with
  | mark hmark =>
    obtain ⟨-, rfl⟩ := List.cons.inj hcs
    cases hmem
  | word hne hletters =>
    subst hcs
    exact absurd (hletters _ (List.mem_cons_of_mem _ hmem)) (by decide)
  | group hne hname =>
    obtain ⟨-, rfl⟩ := List.cons.inj hcs
    exact absurd (hname _ hmem) (by decide)
  | source hne hbefore hname hbehind =>
    obtain ⟨-, rfl⟩ := List.cons.inj hcs
    rw [List.mem_append, List.mem_append, List.mem_append] at hmem
    rcases hmem with ((hmem | hmem) | hmem) | hmem
    · exact absurd (hbefore _ hmem) (by decide)
    · exact absurd (hname _ hmem) (by decide +kernel)
    · exact absurd (hbehind _ hmem) (by decide)
    · exact absurd hmem (by decide)
  | whole hne hdigits =>
    subst hcs
    exact absurd (hdigits _ (List.mem_cons_of_mem _ hmem)) (by decide)
  | point hne hdigits hplaces =>
    have hall := List.mem_cons_of_mem first hmem
    rw [hcs, List.mem_append, List.mem_cons] at hall
    rcases hall with hmem | heq | hmem
    · exact absurd (hdigits _ hmem) (by decide)
    · exact absurd heq (by decide)
    · exact absurd (hplaces _ hmem) (by decide)

end Lexeme.Spelling

/-! ## Characters that break -/

/-- Whether no name, word or number goes on with a character. -/
def breaks (c : Char) : Bool :=
  !isGroupChar c && c != '.'

/-- Neither a group name nor a word nor a number goes on with a character that breaks. -/
lemma breaks_iff {c : Char} : breaks c = true ↔
    isGroupChar c = false ∧ isLetterChar c = false ∧ continuesNumber c = false := by
  simp only [breaks, isGroupChar, continuesNumber]
  cases isDigitChar c <;> cases isLetterChar c <;> simp

/-- No number goes on with a character that is neither a digit nor a point. -/
lemma Lexeme.not_goesOn_number {c : Char} (h : continuesNumber c = false) (value : Double)
    (cs : List Char) : (number value).goesOn cs c = false := by
  rw [goesOn]
  split_ifs
  · exact (Bool.or_eq_false_iff.mp h).1
  · exact h

/-- No lexeme goes on with a character that breaks. -/
lemma Lexeme.not_goesOn_of_breaks {c : Char} (h : breaks c = true) (lexeme : Lexeme)
    (cs : List Char) : lexeme.goesOn cs c = false := by
  obtain ⟨hgroup, hletter, hnumber⟩ := breaks_iff.mp h
  cases lexeme with
  | number value => exact not_goesOn_number hnumber value cs
  | word letters => exact hletter
  | group name => exact hgroup
  | _ => rfl

/-- **A token does not depend on what follows it**, nor on where it is, if the next character is the
one that was there or one that breaks. -/
lemma scanToken_next {position : ℕ} {first : Char} {more after rest : List Char} {lexeme : Lexeme}
    (hnext : ∀ c ∈ rest.head?, c ∈ after.head? ∨ breaks c = true)
    (h : scanToken position first (more ++ after) = .ok (lexeme, after)) (position' : ℕ) :
    scanToken position' first (more ++ rest) = .ok (lexeme, rest) := by
  obtain ⟨hspelling, hafter⟩ := scanToken_eq_ok_iff.mp h
  refine scanToken_of_spelling hspelling (fun c hc => ?_) position'
  exact (hnext c hc).elim (hafter c) fun hbreaks => lexeme.not_goesOn_of_breaks hbreaks _

end Arranger

import Arranger.Pattern.Error
import Arranger.Text.Alphanumeric
import Arranger.Text.Blank

/-!
# From text to tokens

Blanks separate tokens and mean nothing else. A number is a run of digits with at most one
point, a word is a run of letters, an alias stands in brackets, and all other tokens are single
characters.

## Main definitions

* `Arranger.scan` — the tokens of a text, ending with the end of the text.

## Implementation notes

`scanFrom` recurses on the characters that are left. Each kind of token with more than one
character has a function that returns the characters after it, with a lemma that these are no
more than it was given.
-/

namespace Arranger

/-- Whether a character is one of the ten digits. -/
def isDigitChar (c : Char) : Bool :=
  '0' ≤ c && c ≤ '9'

/-- Whether a character is one of the letters of the Latin alphabet. -/
def isLetterChar (c : Char) : Bool :=
  ('a' ≤ c && c ≤ 'z') || ('A' ≤ c && c ≤ 'Z')

/-- Whether a character may be part of a group name. -/
def isGroupChar (c : Char) : Bool :=
  isDigitChar c || isLetterChar c || c == '_'

/-- Whether a character may be part of an alias. -/
def isAliasChar (c : Char) : Bool :=
  isAlphanumeric c || c == '_' || c == '-' || c == '.'

/-- The number at the start of the characters, and what follows it. -/
def scanNumber (cs : List Char) : Double × List Char :=
  let whole := cs.takeWhile isDigitChar
  match cs.dropWhile isDigitChar with
  | '.' :: rest =>
    ((Decimal.ofChars whole (rest.takeWhile isDigitChar)).toBinary, rest.dropWhile isDigitChar)
  | rest => ((Decimal.ofChars whole []).toBinary, rest)

/-- The characters up to a closing bracket, and what follows the bracket. Without one before the
end or the next opening bracket it is an error; `position` is where the characters start and
`opening` where the bracket is. -/
def scanBracket (opening position : Nat) :
    List Char → Except PatternError (List Char × List Char)
  | [] => .error ⟨.unclosedBracket, opening⟩
  | ']' :: rest => .ok ([], rest)
  | '[' :: _ => .error ⟨.nestedBracket, position⟩
  | c :: rest => do
    let (inside, after) ← scanBracket opening (position + 1) rest
    return (c :: inside, after)

/-- The alias that the characters between two brackets spell. -/
def aliasOf (opening : Nat) (inside : List Char) : Except PatternError String :=
  match trimBlank inside with
  | [] => .error ⟨.emptyAlias, opening⟩
  | name =>
    match name.find? (!isAliasChar ·) with
    | some bad => .error ⟨.badAliasChar bad, opening⟩
    | none => .ok (String.ofList name)

/-- The token at the start of the characters, none of them skipped, and what follows it. -/
def scanToken (position : Nat) (first : Char) (rest : List Char) :
    Except PatternError (Lexeme × List Char) :=
  match Lexeme.ofChar? first with
  | some lexeme => .ok (lexeme, rest)
  | none =>
    if first = '[' then do
      let (inside, after) ← scanBracket position (position + 1) rest
      let name ← aliasOf position inside
      return (.source name, after)
    else if first = ']' then .error ⟨.unmatchedBracket, position⟩
    else if first = '#' then
      match rest.takeWhile isGroupChar with
      | [] => .error ⟨.missingGroupName, position⟩
      | name => .ok (.group (String.ofList name), rest.dropWhile isGroupChar)
    else if isDigitChar first || (first = '.' && rest.head?.any isDigitChar) then
      let (value, after) := scanNumber (first :: rest)
      .ok (.number value, after)
    else if isLetterChar first then
      .ok (.word (String.ofList (first :: rest.takeWhile isLetterChar)),
        rest.dropWhile isLetterChar)
    else .error ⟨.unexpectedChar first, position⟩

/-! ## What follows a token is shorter -/

theorem length_dropWhile_le (p : Char → Bool) (cs : List Char) :
    (cs.dropWhile p).length ≤ cs.length :=
  (List.dropWhile_suffix p).length_le

theorem length_scanBracket {opening position : Nat} {cs inside after : List Char}
    (h : scanBracket opening position cs = .ok (inside, after)) : after.length ≤ cs.length := by
  induction cs generalizing position inside with
  | nil => simp [scanBracket] at h
  | cons c cs ih =>
    unfold scanBracket at h
    split at h
    · simp at h
    · simp_all
    · simp at h
    · rename_i heq
      simp only [List.cons.injEq] at heq
      obtain ⟨rfl, rfl⟩ := heq
      cases hr : scanBracket opening (position + 1) cs with
      | error e => simp [hr, bind, Except.bind] at h
      | ok r =>
        simp only [hr, bind, Except.bind, pure, Except.pure, Except.ok.injEq,
          Prod.mk.injEq] at h
        have hrest : scanBracket opening (position + 1) cs = .ok (r.1, after) := by rw [hr, ← h.2]
        have := ih hrest
        simp only [List.length_cons]
        omega

theorem length_scanNumber_le {first : Char} {rest : List Char}
    (h : isDigitChar first || first = '.') :
    (scanNumber (first :: rest)).2.length ≤ rest.length := by
  unfold scanNumber
  by_cases hd : isDigitChar first = true
  · simp only [List.dropWhile_cons, hd, ↓reduceIte]
    have hle := length_dropWhile_le isDigitChar rest
    split
    · rename_i tail heq
      have := length_dropWhile_le isDigitChar tail
      rw [heq] at hle
      simp only [List.length_cons] at hle
      simp only
      omega
    · exact hle
  · have hp : first = '.' := by simpa [hd] using h
    subst hp
    simp only [List.dropWhile_cons, hd]
    exact length_dropWhile_le isDigitChar rest

theorem length_scanToken {position : Nat} {first : Char} {rest after : List Char}
    {lexeme : Lexeme} (h : scanToken position first rest = .ok (lexeme, after)) :
    after.length ≤ rest.length := by
  unfold scanToken at h
  split at h
  · simp_all
  · split at h
    · cases hb : scanBracket position (position + 1) rest with
      | error e => simp [hb, bind, Except.bind] at h
      | ok r =>
        cases ha : aliasOf position r.1 with
        | error e => simp [hb, ha, bind, Except.bind] at h
        | ok name =>
          simp only [hb, ha, bind, Except.bind, pure, Except.pure, Except.ok.injEq,
            Prod.mk.injEq] at h
          have hinside : scanBracket position (position + 1) rest = .ok (r.1, after) := by
            rw [hb, ← h.2]
          exact length_scanBracket hinside
    · split at h
      · simp at h
      · split at h
        · split at h
          · simp at h
          · simp only [Except.ok.injEq, Prod.mk.injEq] at h
            rw [← h.2]
            exact length_dropWhile_le _ _
        · split at h
          · rename_i hn
            simp only [Except.ok.injEq, Prod.mk.injEq] at h
            rw [← h.2]
            apply length_scanNumber_le
            cases hd : isDigitChar first <;> simp_all
          · split at h
            · simp only [Except.ok.injEq, Prod.mk.injEq] at h
              rw [← h.2]
              exact length_dropWhile_le _ _
            · simp at h

/-! ## The tokens of a text -/

/-- The tokens of the characters from a position on. -/
def scanFrom (position : Nat) : List Char → Except PatternError (List Token)
  | [] => .ok [⟨.stop, position⟩]
  | first :: rest =>
    if isBlank first then scanFrom (position + 1) rest
    else
      match h : scanToken position first rest with
      | .error error => .error error
      | .ok (lexeme, after) =>
        have := length_scanToken h
        match scanFrom (position + 1 + (rest.length - after.length)) after with
        | .error error => .error error
        | .ok tokens => .ok (⟨lexeme, position⟩ :: tokens)
termination_by cs => cs.length

/-- The tokens of a text. -/
def scan (text : String) : Except PatternError (List Token) :=
  scanFrom 0 text.toList

end Arranger

import Arranger.Proofs.Pattern.Blanks

/-!
# The division of a text into tokens

No character of a text is lost when it is scanned. From the position of each token up to that of the
next one stand its characters and then blanks, and in front of the first token there are only blanks.
The tokens are the only ones that divide the text so, if each of them is as long as it can be.

## Main definitions

* `Arranger.Token.UpTo` — a token takes the characters up to the next one.
* `Arranger.Division` — tokens divide a text.

## Main results

* `Arranger.LaidOut.isChain` — tokens that are laid out take the characters up to the next one.
* `Arranger.laidOut_of_isChain` — tokens that do so are laid out.
* `Arranger.scan_eq_ok_iff` — the tokens of a text are those that divide it.
-/

namespace Arranger

/-! ## Divisions -/

/-- The characters from the position of a token up to that of the next one are a spelling of the token
and blanks behind it, and the first character behind the spelling does not go on with it. -/
def Token.UpTo (cs : List Char) (token next : Token) : Prop :=
  ∃ front spelling blanks back, cs = front ++ spelling ++ blanks ++ back ∧
    token.position = front.length ∧ next.position = (front ++ spelling ++ blanks).length ∧
    token.lexeme.Spelling spelling ∧ (∀ c ∈ blanks, isBlank c = true) ∧
    ∀ c ∈ (blanks ++ back).head?, token.lexeme.goesOn spelling c = false

/-- The tokens divide the text. -/
structure Division (text : String) (tokens : List Token) : Prop where
  /-- Only blanks are in front of the first token. -/
  leading : ∃ first ∈ tokens.head?, ∃ blanks back, text.toList = blanks ++ back ∧
    first.position = blanks.length ∧ ∀ c ∈ blanks, isBlank c = true
  /-- Each token with the blanks behind it takes the characters up to the next one. -/
  pieces : tokens.IsChain (Token.UpTo text.toList)
  /-- Each token is in front of all those behind it. -/
  rising : tokens.Pairwise fun token later => token.position < later.position
  /-- The last token, and no other one, is the end of the text. Its position is the number of
  characters. -/
  ending : ∃ front, tokens = front ++ [⟨.stop, text.length⟩] ∧
    ∀ token ∈ front, token.lexeme ≠ .stop

/-! ## Layouts divide -/

namespace LaidOut

variable {position : ℕ} {cs : List Char} {tokens : List Token}

/-- The first token is behind the blanks at the start. -/
lemma exists_leading (h : LaidOut position cs tokens) :
    ∃ first ∈ tokens.head?, ∃ blanks back, cs = blanks ++ back ∧
      first.position = position + blanks.length ∧ ∀ c ∈ blanks, isBlank c = true := by
  induction h with
  | stop position => exact ⟨_, rfl, [], [], rfl, rfl, by simp⟩
  | @blank position c _ _ hblank _ ih =>
    obtain ⟨first, hfirst, blanks, back, rfl, hposition, hblanks⟩ := ih
    refine ⟨first, hfirst, c :: blanks, back, rfl, ?_, List.forall_mem_cons.mpr ⟨hblank, hblanks⟩⟩
    rw [hposition, List.length_cons]
    omega
  | token _ _ _ _ => exact ⟨_, rfl, [], _, rfl, rfl, by simp⟩

/-- **Tokens that are laid out** take the characters up to the next one.

**Proof sketch.** By induction on the layout, where the characters in front are given. What is left
behind a token starts with the blanks in front of the next one. -/
lemma isChain (h : LaidOut position cs tokens) {front : List Char} (hfront : front.length = position) :
    tokens.IsChain (Token.UpTo (front ++ cs)) := by
  induction h generalizing front with
  | stop position => exact .singleton _
  | @blank position c rest _ _ _ ih =>
    have hlength : (front ++ [c]).length = position + 1 := by rw [List.length_append, hfront]; rfl
    have hchain := ih hlength
    rwa [List.append_assoc, List.singleton_append] at hchain
  | @token position first more after lexeme tokens hblank htoken hlaid ih =>
    have hlength : (front ++ first :: more).length = position + 1 + more.length := by
      rw [List.length_append, List.length_cons, hfront]
      omega
    have hchain := ih hlength
    rw [List.append_assoc, List.cons_append] at hchain
    obtain ⟨next, hnext, blanks, back, rfl, hposition, hblanks⟩ := hlaid.exists_leading
    obtain ⟨hspelling, hafter⟩ := scanToken_eq_ok_iff.mp htoken
    obtain ⟨others, rfl⟩ := List.head?_eq_some_iff.mp hnext
    refine List.isChain_cons_cons.mpr ⟨⟨front, first :: more, blanks, back, by simp, hfront.symm, ?_,
      hspelling, hblanks, hafter⟩, hchain⟩
    rw [List.length_append, hlength, hposition]

/-- The end of the text is behind all other tokens. -/
lemma exists_ending (h : LaidOut position cs tokens) :
    ∃ front, tokens = front ++ [⟨.stop, position + cs.length⟩] ∧
      ∀ token ∈ front, token.lexeme ≠ .stop := by
  induction h with
  | stop position => exact ⟨[], rfl, by simp⟩
  | blank _ _ ih =>
    obtain ⟨front, rfl, hfront⟩ := ih
    exact ⟨front, by rw [List.length_cons]; congr 3; omega, hfront⟩
  | @token position first more after lexeme tokens _ htoken _ ih =>
    obtain ⟨front, rfl, hfront⟩ := ih
    have hstop : lexeme ≠ .stop := by
      rintro rfl
      exact scanToken_proper htoken
    refine ⟨⟨lexeme, position⟩ :: front, ?_, List.forall_mem_cons.mpr ⟨hstop, hfront⟩⟩
    rw [List.length_cons, List.length_append, List.cons_append]
    congr 4
    omega

end LaidOut

/-! ## Divisions are layouts -/

/-- **Tokens that take the characters up to the next one** are laid out.

**Proof sketch.** By induction on the tokens. The scanner takes the spelling of the first one, and the
blanks behind it are skipped. -/
lemma laidOut_of_isChain {front back : List Char} {token : Token} {others : List Token}
    (hposition : token.position = front.length)
    (hchain : (token :: others).IsChain (Token.UpTo (front ++ back)))
    (hlast : (token :: others).getLast? = some ⟨.stop, (front ++ back).length⟩) :
    LaidOut front.length back (token :: others) := by
  induction others generalizing token front back with
  | nil =>
    obtain rfl : token = ⟨.stop, (front ++ back).length⟩ := Option.some.inj hlast
    obtain rfl : back = [] := by simpa using hposition
    rw [List.append_nil]
    exact .stop front.length
  | cons next others ih =>
    obtain ⟨hnext, hothers⟩ := List.isChain_cons_cons.mp hchain
    obtain ⟨front', spelling, blanks, back', htext, hfront, hend, hspelling, hblanks, hafter⟩ := hnext
    rw [List.append_assoc, List.append_assoc] at htext
    obtain ⟨rfl, rfl⟩ := List.append_inj htext (hposition.symm.trans hfront)
    rw [← List.append_assoc, ← List.append_assoc] at hothers hlast
    have hlaid := ih hend hothers (by rwa [List.getLast?_cons_cons] at hlast)
    rw [List.length_append] at hlaid
    have hrest := LaidOut.blanks hblanks hlaid
    obtain ⟨first, more, rfl, hblank⟩ := hspelling.exists_cons
    obtain ⟨lexeme, position⟩ := token
    obtain rfl : position = front.length := hposition
    refine .token hblank (scanToken_of_spelling hspelling hafter _) ?_
    rwa [List.length_append, List.length_cons, Nat.add_comm more.length, ← Nat.add_assoc] at hrest

/-! ## Texts -/

/-- **The tokens of a text are those that divide it.** The positions of the tokens rise, the last one
is the end of the text, and no other one is. Only blanks are in front of the first token. From each
token up to the next one are the characters that it is made of, and only blanks behind them. No token
could be longer. A text that can be divided so is scanned, and it can be so in one way only. -/
theorem scan_eq_ok_iff {text : String} {tokens : List Token} :
    scan text = .ok tokens ↔ Division text tokens := by
  rw [scan, scanFrom_eq_ok_iff]
  constructor
  · intro h
    obtain ⟨first, hfirst, blanks, back, htext, hposition, hblanks⟩ := h.exists_leading
    obtain ⟨front, htokens, hfront⟩ := h.exists_ending
    rw [Nat.zero_add] at hposition htokens
    exact ⟨⟨first, hfirst, blanks, back, htext, hposition, hblanks⟩, h.isChain List.length_nil,
      h.pairwise.imp fun hbefore => hbefore.1, ⟨front, htokens, hfront⟩⟩
  · rintro ⟨⟨first, hfirst, blanks, back, htext, hposition, hblanks⟩, hpieces, -, front, htokens, -⟩
    obtain ⟨others, rfl⟩ := List.head?_eq_some_iff.mp hfirst
    rw [htext] at hpieces ⊢
    have hlast : (first :: others).getLast? = some ⟨.stop, (blanks ++ back).length⟩ := by
      rw [htokens, List.getLast?_concat, ← htext]
      rfl
    have hlaid := laidOut_of_isChain hposition hpieces hlast
    exact .blanks hblanks (by rwa [Nat.zero_add])

/-- A number goes on up to a second point. -/
example : scan " 1..5[ é ]ir!" = .ok [⟨.number 1, 1⟩, ⟨.number (1 / 2), 3⟩, ⟨.source "é", 5⟩,
    ⟨.word "ir", 10⟩, ⟨.bang, 12⟩, ⟨.stop, 13⟩] := by
  decide +kernel

end Arranger

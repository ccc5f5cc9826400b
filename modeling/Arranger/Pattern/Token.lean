import Arranger.Number.Notation
import Arranger.Text.Quoted

/-!
# Tokens

The words of the pattern language with the places where they start.

## Main definitions

* `Arranger.Lexeme` — the kinds of tokens with what they carry.
* `Arranger.Lexeme.endsTerm` — whether a token closes the term before it.
* `Arranger.Lexeme.tag` — the name of a token, as messages show it.
* `Arranger.Token` — a lexeme at a position.
-/

namespace Arranger

/-- A word of the pattern language. -/
inductive Lexeme where
  /-- A number. -/
  | number (value : Double)
  /-- A run of letters. -/
  | word (letters : String)
  /-- An alias in brackets. -/
  | source (name : String)
  /-- A group mark. -/
  | group (name : String)
  /-- The character `,`. -/
  | comma
  /-- The character `;`. -/
  | semicolon
  /-- The character `^`. -/
  | caret
  /-- The character `+`. -/
  | plus
  /-- The character `-`. -/
  | minus
  /-- The character `@`. -/
  | at
  /-- The character `_`. -/
  | underscore
  /-- The character `!`. -/
  | bang
  /-- The character `?`. -/
  | question
  /-- The character `>`. -/
  | greater
  /-- The character `<`. -/
  | less
  /-- The end of the text. -/
  | stop
deriving DecidableEq

namespace Lexeme

/-- Whether the token closes a term. -/
def endsTerm : Lexeme → Bool
  | comma | semicolon | caret | stop => true
  | _ => false

/-- The name of the kind of token. -/
def kind : Lexeme → String
  | number _ => "Number"
  | word _ => "Word"
  | source _ => "Source"
  | group _ => "Group"
  | comma => "Comma"
  | semicolon => "Semicolon"
  | caret => "Caret"
  | plus => "Plus"
  | minus => "Minus"
  | «at» => "At"
  | underscore => "Underscore"
  | bang => "Bang"
  | question => "Question"
  | greater => "Greater"
  | less => "Less"
  | stop => "Eof"

/-- The name of the token with what it carries in parentheses. -/
def tag (lexeme : Lexeme) : String :=
  match lexeme with
  | number value => lexeme.kind ++ "(" ++ String.ofList (Notation.tagged.write value) ++ ")"
  | word text | source text | group text => lexeme.kind ++ "(" ++ quote text ++ ")"
  | _ => lexeme.kind

/-- The token that a single character is, if it is one. -/
def ofChar? : Char → Option Lexeme
  | ',' => some comma
  | ';' => some semicolon
  | '^' => some caret
  | '+' => some plus
  | '-' => some minus
  | '@' => some «at»
  | '_' => some underscore
  | '!' => some bang
  | '?' => some question
  | '>' => some greater
  | '<' => some less
  | _ => none

end Lexeme

/-- A word of the pattern language with the position of its first character. -/
structure Token where
  /-- What the token is. -/
  lexeme : Lexeme
  /-- The number of characters before it. -/
  position : Nat
deriving DecidableEq

end Arranger

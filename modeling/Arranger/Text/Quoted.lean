import Arranger.Text.Combining

/-!
# Quoted texts

A text between double quotes, as token names show the text of a token.

## Main definitions

* `Arranger.quote` — the text in quotes.
-/

namespace Arranger

/-- The characters that stand for `c` inside quotes: quotes and backslashes are escaped, and a
combining letter is written as its code point. -/
def quoteChar (c : Char) : List Char :=
  if c = '"' || c = '\\' then ['\\', c]
  else if isCombining c then
    ['\\', 'u', '\x7b'] ++ Nat.toDigits 16 c.toNat ++ ['\x7d']
  else [c]

/-- The text in double quotes. -/
def quote (text : String) : String :=
  String.ofList ('"' :: text.toList.flatMap quoteChar ++ ['"'])

end Arranger

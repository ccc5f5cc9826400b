/-!
# Escapes

Characters that are not written as themselves: in double quotes a backslash stands before a letter
or the number of a character, and in a tag a percent sign stands before the number of a byte.

## Main definitions

* `Arranger.Yaml.escaped?` — the character of a letter behind a backslash.
* `Arranger.Yaml.hexChar?` — the character of a number.
* `Arranger.Yaml.percentBytes?` — the bytes of a text with percent signs.
-/

namespace Arranger.Yaml

/-! ## Backslashes -/

/-- The character that a backslash and a letter stand for. -/
def escaped? : Char → Option Char
  | '0' => some '\x00'
  | 'a' => some '\x07'
  | 'b' => some '\x08'
  | 't' => some '\t'
  | '\t' => some '\t'
  | 'n' => some '\n'
  | 'v' => some '\x0b'
  | 'f' => some '\x0c'
  | 'r' => some '\r'
  | 'e' => some '\x1b'
  | ' ' => some ' '
  | '"' => some '"'
  | '/' => some '/'
  | '\\' => some '\\'
  | 'N' => some '\u0085'
  | '_' => some '\u00a0'
  | 'L' => some '\u2028'
  | 'P' => some '\u2029'
  | _ => none

/-- The value of a hexadecimal digit. -/
def hexDigit? (c : Char) : Option Nat :=
  if '0' ≤ c ∧ c ≤ '9' then some (c.toNat - 48)
  else if 'a' ≤ c ∧ c ≤ 'f' then some (c.toNat - 87)
  else if 'A' ≤ c ∧ c ≤ 'F' then some (c.toNat - 55)
  else none

/-- The number that hexadecimal digits spell. -/
def hexNumber? (digits : List Char) : Option Nat :=
  digits.foldlM (fun n c => (hexDigit? c).map (n * 16 + ·)) 0

/-- The character with the number that hexadecimal digits spell. -/
def hexChar? (digits : List Char) : Option Char := do
  let n ← hexNumber? digits
  if n < 0xD800 ∨ (0xDFFF < n ∧ n ≤ 0x10FFFF) then some (Char.ofNat n) else none

/-! ## Percent signs -/

/-- The number of bytes that follow the first byte of a character. -/
def bytesAfter? (first : UInt8) : Option Nat :=
  if first < 0x80 then some 0
  else if first < 0xC0 then none
  else if first < 0xE0 then some 1
  else if first < 0xF0 then some 2
  else if first < 0xF8 then some 3
  else none

/-- Whether a byte can follow the first one of a character. -/
def isFollowing (byte : UInt8) : Bool :=
  0x80 ≤ byte && byte < 0xC0

/-- The bytes of characters in which a percent sign is followed by the two digits of a byte. A
character that is begun so must be finished so, where `pending` bytes are missing; which character
it is, and whether there is one of those bytes, does not matter. -/
def percentBytes? (pending : Nat) : List Char → Option (List UInt8)
  | [] => if pending = 0 then some [] else none
  | '%' :: a :: b :: rest => do
    let byte := UInt8.ofNat (← hexNumber? [a, b])
    match pending with
    | 0 => return byte :: (← percentBytes? (← bytesAfter? byte) rest)
    | pending + 1 =>
      if isFollowing byte then return byte :: (← percentBytes? pending rest) else failure
  | c :: rest => do
    if c == '%' || pending != 0 then failure
    return (String.singleton c).toUTF8.toList ++ (← percentBytes? 0 rest)

end Arranger.Yaml

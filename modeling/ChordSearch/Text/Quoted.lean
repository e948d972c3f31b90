import ChordSearch.Text.Utf8
import ChordSearch.Text.Printable

/-! # Quoted text

Messages show untrusted text in double quotes, escaped so that the result is printable
ASCII-or-Unicode text that reads back to the same bytes:

* a quote or a backslash gets a backslash in front;
* a printable character stands for itself;
* bell, backspace, form feed, line feed, carriage return, tab and vertical tab are written
  `\a \b \f \n \r \t \v`;
* another control below the space, and delete, are written `\x` and two hex digits, as is a
  stray byte that starts no character;
* any other character is written `\u` and four hex digits, or `\U` and eight above `FFFF`.

Hex digits are lowercase. The code point notation `U+0041 'A'` used for a single byte is
also here: at least four uppercase digits, then the character in quotes when it is
printable.
-/

namespace ChordSearch.Quoted

/-- The lowercase hex digits of `n`, padded with zeros to `width`. -/
def hexPad (width n : Nat) : String :=
  let ds := Nat.toDigits 16 n
  String.ofList (List.replicate (width - ds.length) '0' ++ ds)

/-- How one glyph is written between the quotes. -/
def escape : Glyph → String
  | .stray b => "\\x" ++ hexPad 2 b.toNat
  | .scalar c =>
    if c = '"' ∨ c = '\\' then String.ofList ['\\', c]
    else if Printable.isPrintable c then String.singleton c
    else match c.toNat with
      | 7 => "\\a"
      | 8 => "\\b"
      | 12 => "\\f"
      | 10 => "\\n"
      | 13 => "\\r"
      | 9 => "\\t"
      | 11 => "\\v"
      | n =>
        if n < 0x20 ∨ n = 0x7F then "\\x" ++ hexPad 2 n
        else if n < 0x10000 then "\\u" ++ hexPad 4 n
        else "\\U" ++ hexPad 8 n

/-- Bytes in double quotes, escaped as the module comment says. -/
def quote (b : Bytes) : String :=
  "\"" ++ String.join ((Utf8.decode b).map escape) ++ "\""

/-- A string in double quotes, escaped as the module comment says. -/
def quoteString (s : String) : String := quote (Bytes.ofString s)

/-- The code point notation: `U+` and at least four uppercase hex digits, then the
character in single quotes when it is printable. -/
def codePoint (n : Nat) : String :=
  let digits := (hexPad 4 n).toUpper
  let c := Char.ofNat n
  if c.toNat = n ∧ Printable.isPrintable c then
    "U+" ++ digits ++ " '" ++ String.singleton c ++ "'"
  else "U+" ++ digits

example : quoteString "a\"b\n" = "\"a\\\"b\\n\"" := by decide +kernel

end ChordSearch.Quoted

import ChordSearch.Text.Utf8
import ChordSearch.Text.Lower

/-! # Trimming, fields and lower case on bytes

Three rules read bytes as glyphs (see `Utf8.decode`):

* trimming drops blank characters from both ends and keeps the bytes between as they were;
* fields are the maximal runs of non-blank glyphs, each kept as its original bytes, so a
  stray byte stays inside a field untouched;
* lower-casing writes every character's simple lower-case form, and every stray byte as the
  replacement character `U+FFFD`.

A stray byte is never blank.
-/

/-! ## Blank characters

A blank is a character with the Unicode White_Space property: the ASCII tab, line feed,
vertical tab, form feed, carriage return and space, the next-line control `U+0085`, the
no-break space `U+00A0`, the Ogham space mark `U+1680`, the spaces `U+2000`–`U+200A`, the
line and paragraph separators `U+2028` and `U+2029`, the narrow no-break space `U+202F`,
the medium mathematical space `U+205F` and the ideographic space `U+3000`. The zero-width
space `U+200B`, the byte order mark `U+FEFF` and the Mongolian vowel separator `U+180E` are
not blanks.
-/

namespace ChordSearch

/-- Whether a character is a blank: it has the Unicode White_Space property. -/
def isBlank (c : Char) : Bool :=
  let n := c.toNat
  (0x09 ≤ n && n ≤ 0x0D) || n == 0x20 || n == 0x85 || n == 0xA0 || n == 0x1680 ||
    (0x2000 ≤ n && n ≤ 0x200A) || n == 0x2028 || n == 0x2029 || n == 0x202F ||
    n == 0x205F || n == 0x3000

end ChordSearch

namespace ChordSearch.Text

/-- Whether a glyph is a blank character. -/
def Glyph.isBlank : Glyph → Bool
  | .scalar c => ChordSearch.isBlank c
  | .stray _ => false

/-- Drop blank characters from both ends. -/
def trim (b : Bytes) : Bytes :=
  let gs := (Utf8.decode b).dropWhile Glyph.isBlank
  Utf8.encode (gs.reverse.dropWhile Glyph.isBlank).reverse

/-- Split glyphs into maximal runs of non-blank ones, last run first while building. -/
def runs : List Glyph → List (List Glyph) → List Glyph → List (List Glyph)
  | [], acc, cur => if cur.isEmpty then acc else cur.reverse :: acc
  | g :: gs, acc, cur =>
    if Glyph.isBlank g then runs gs (if cur.isEmpty then acc else cur.reverse :: acc) []
    else runs gs acc (g :: cur)

/-- The maximal runs of non-blank characters, in order, as their original bytes. -/
def fields (b : Bytes) : List Bytes := ((runs (Utf8.decode b) [] []).reverse).map Utf8.encode

/-- Every character in its simple lower-case form, stray bytes replaced by `U+FFFD`. -/
def lower (b : Bytes) : Bytes := Utf8.ofChars ((Utf8.chars b).map Lower.toLower)

end ChordSearch.Text

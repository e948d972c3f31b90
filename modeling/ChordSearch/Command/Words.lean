import ChordSearch.Text.Utf8

/-! # Command words

An operator line is split into words the way a shell would, without expansion:

* blanks (space, tab, carriage return, line feed) separate words;
* single quotes keep everything up to the next single quote;
* double quotes keep everything up to the next double quote, except that a backslash takes
  the next character literally;
* outside quotes a backslash takes the next character literally;
* quotes may sit inside a word and join with it, and `''` alone is an empty word;
* a `#` that starts a word starts a comment, which runs to the end of the line.

A quote left open, or a backslash at the end, makes the whole line unreadable. A stray byte
reads as the replacement character.
-/

namespace ChordSearch.Words

/-- Why a line does not split into words. -/
inductive Error where
  | unclosedQuote
  | danglingEscape
  deriving DecidableEq

/-- The text of a splitting error. -/
def Error.message : Error → String
  | .unclosedQuote => "EOF found when expecting closing quote"
  | .danglingEscape => "EOF found after escape character"

/-- Where the reader stands. -/
inductive Mode where
  | between | word | escape | escapeInDouble | double | single | comment

/-- The characters that separate words. -/
def isBreak (c : Char) : Bool := c = ' ' || c = '\t' || c = '\r' || c = '\n'

/-- Read characters in a mode, with the current word and the finished words, both
reversed. -/
def read : List Char → Mode → List Char → List (List Char) → Except Error (List (List Char))
  | [], m, cur, acc =>
    match m with
    | .between | .comment => .ok acc.reverse
    | .word => .ok (cur.reverse :: acc).reverse
    | .escape | .escapeInDouble => .error .danglingEscape
    | .double | .single => .error .unclosedQuote
  | c :: cs, m, cur, acc =>
    match m with
    | .between =>
      if isBreak c then read cs .between [] acc
      else if c = '"' then read cs .double [] acc
      else if c = '\'' then read cs .single [] acc
      else if c = '\\' then read cs .escape [] acc
      else if c = '#' then read cs .comment [] acc
      else read cs .word [c] acc
    | .word =>
      if isBreak c then read cs .between [] (cur.reverse :: acc)
      else if c = '"' then read cs .double cur acc
      else if c = '\'' then read cs .single cur acc
      else if c = '\\' then read cs .escape cur acc
      else read cs .word (c :: cur) acc
    | .escape => read cs .word (c :: cur) acc
    | .escapeInDouble => read cs .double (c :: cur) acc
    | .double =>
      if c = '"' then read cs .word cur acc
      else if c = '\\' then read cs .escapeInDouble cur acc
      else read cs .double (c :: cur) acc
    | .single =>
      if c = '\'' then read cs .word cur acc else read cs .single (c :: cur) acc
    | .comment => if c = '\n' then read cs .between [] acc else read cs .comment cur acc

/-- Split an operator line into words. -/
def split (line : Bytes) : Except Error (List Bytes) :=
  (read (Utf8.chars line) .between [] []).map (·.map Utf8.ofChars)

end ChordSearch.Words

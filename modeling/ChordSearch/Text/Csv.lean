import ChordSearch.Bytes

/-! # One record of comma-separated values

A record is the first line of a text, split at commas into fields. A field that starts with
a double quote runs to the next lone quote, a doubled quote standing for one quote; the
closing quote must end the field. A quote anywhere inside an unquoted field is refused, as
is a quoted field whose closing quote is followed by something other than a comma or the
end of the line, or that is never closed. Positions in errors count bytes from 1.
-/

namespace ChordSearch.Csv

/-- Why a record is refused, and the column where it was found. -/
inductive ReadError where
  | bareQuote (column : Nat)
  | strayQuote (column : Nat)
  deriving DecidableEq, Repr

/-- The text of a refusal. -/
def ReadError.message : ReadError → String
  | .bareQuote c => "parse error on line 1, column " ++ toString c ++ ": bare \" in non-quoted-field"
  | .strayQuote c =>
    "parse error on line 1, column " ++ toString c ++ ": extraneous or missing \" in quoted-field"

/-- The UTF-8 length of some characters. -/
def byteLength (cs : List Char) : Nat := cs.foldl (fun n c => n + c.utf8Size) 0

/-- The rest of a quoted field after its opening quote, read so far into `acc` in reverse;
`col` is the column of the next character. Gives the field and what follows its closing
quote (`none` at the end of the line). -/
def quoted (acc : List Char) (col : Nat) : List Char → Except ReadError (String × Option (List Char))
  | [] => .error (.strayQuote col)
  | '"' :: '"' :: r => quoted ('"' :: acc) (col + 2) r
  | '"' :: ',' :: r => .ok (String.ofList acc.reverse, some r)
  | ['"'] => .ok (String.ofList acc.reverse, none)
  | '"' :: _ => .error (.strayQuote col)
  | c :: r => quoted (c :: acc) (col + c.utf8Size) r

/-- The fields of a line from column `col` on, with the fields read so far in reverse; each
round reads one field, so the line's length bounds the rounds. -/
def fields : Nat → List String → Nat → List Char → Except ReadError (List String)
  | 0, acc, _, _ => .ok acc.reverse
  | fuel + 1, acc, col, '"' :: r =>
    match quoted [] (col + 1) r with
    | .error e => .error e
    | .ok (f, none) => .ok (f :: acc).reverse
    | .ok (f, some rest) => fields fuel (f :: acc) (col + 1 + byteLength r - byteLength rest) rest
  | fuel + 1, acc, col, cs =>
    let field := cs.takeWhile (· ≠ ',')
    match field.idxOf? '"' with
    | some j => .error (.bareQuote (col + byteLength (field.take j)))
    | none =>
      match cs.drop field.length with
      | ',' :: rest => fields fuel (String.ofList field :: acc) (col + byteLength field + 1) rest
      | _ => .ok (String.ofList field :: acc).reverse

/-- The first record of a text: the fields of its first line, a carriage return before the
line feed dropped. -/
def firstRecord (s : String) : Except ReadError (List String) :=
  let line := s.toList.takeWhile (· ≠ '\n')
  let line := if line.getLast? = some '\r' then line.dropLast else line
  fields (line.length + 1) [] 1 line

end ChordSearch.Csv

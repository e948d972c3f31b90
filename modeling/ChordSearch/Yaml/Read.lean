import ChordSearch.Json.Value
import ChordSearch.Text.Integer

/-! # Reading YAML configuration

Configuration files in YAML are read in the block style that such files use: a mapping is
written one `key: value` per line, a nested mapping or a sequence below its key, indented
deeper; a sequence is written one `- item` per line; a value may also be written on its
line in flow style, `[a, b]` or `{k: v}`, which may run over several lines. Comments start
with `#` after a blank or at the start of a line. A document marker `---` is skipped.

A plain scalar is resolved by its text: `~`, `null` and nothing are null; `true` and `false`
(in lower, capitalised or upper case) are booleans; whole numbers in any base notation are
integers; decimal numbers with a point or an exponent are floats; everything else is text.
Quoted scalars are always text; double quotes resolve backslash escapes and single quotes
write a quote twice.

A flow collection that is never closed is refused with the line where reading stopped: the
line of its opening bracket, counted from zero, or, when that is the first line, the line
where the text ended. A line in a mapping without a `:` is refused too, with its line
counted from one. A key written twice in one mapping is refused when the document is
turned into a table.
-/

namespace ChordSearch.Yaml

/-- Why a YAML text is refused; the text says it. -/
structure ReadError where
  message : String
  deriving DecidableEq, Repr

/-- A refusal at a line, the line left out when it is zero. -/
def failAt (line : Nat) (problem : String) : ReadError :=
  ⟨"yaml: " ++ (if line = 0 then "" else "line " ++ toString line ++ ": ") ++ problem⟩

/-- A refusal found while splitting the text into tokens, at the line numbered `index`
from zero: the first line goes unnamed, any other is named counting from one. -/
def scannerFail (index : Nat) (problem : String) : ReadError :=
  failAt (if index = 0 then 0 else index + 1) problem

/-- A quoted scalar opened on the line numbered `index` from zero that the text ends inside:
named by that line, or by the line the text ends on when it opened on the first. -/
def unclosedQuote (endLine index : Nat) : ReadError :=
  scannerFail (if index ≠ 0 then index else endLine) "found unexpected end of stream"

/-- A parsed node: a scalar with its resolved value, or a collection. A mapping keeps its
entries in order with the line of each key. -/
inductive Node where
  | scalar (v : Value)
  | seq (items : List Node)
  | map (entries : List (String × Nat × Node))

/-- The texts that are null. -/
def isNullText (s : String) : Bool := s = "" ∨ s = "~" ∨ s = "null" ∨ s = "Null" ∨ s = "NULL"

/-- Whether a text is a float in decimal notation: a sign, digits with an optional point
(or a point and digits), and an optional exponent. -/
def isFloatText (s : String) : Bool :=
  let cs := s.toList
  let cs := match cs with | '+' :: r => r | '-' :: r => r | r => r
  let int := cs.takeWhile Char.isDigit
  let cs := cs.drop int.length
  let (ok, cs) := match cs with
    | '.' :: r =>
      let frac := r.takeWhile Char.isDigit
      (!int.isEmpty || !frac.isEmpty, r.drop frac.length)
    | r => (!int.isEmpty, r)
  let expOk := match cs with
    | [] => true
    | e :: r =>
      if e = 'e' ∨ e = 'E' then
        let r := match r with | '+' :: x => x | '-' :: x => x | x => x
        !r.isEmpty && r.all Char.isDigit
      else false
  ok && expOk

/-- The value a plain scalar's text resolves to. -/
def resolve (s : String) : Value :=
  if isNullText s then .null
  else if s = "true" ∨ s = "True" ∨ s = "TRUE" then .bool true
  else if s = "false" ∨ s = "False" ∨ s = "FALSE" then .bool false
  else
    match s.toList.head? with
    | some c =>
      if c.isDigit ∨ c = '+' ∨ c = '-' ∨ c = '.' then
        let plain := String.ofList (s.toList.filter (· ≠ '_'))
        match Integer.readInt plain 64 with
        | .ok v => .num (toString v)
        | .error _ =>
          match Integer.readNat plain 64 with
          | .ok v => .num (toString v)
          | .error _ => if isFloatText plain then .num plain else .str (Bytes.ofString s)
      else .str (Bytes.ofString s)
    | none => .null

/-- The value of hex digits. -/
def hexValue (ds : List Char) : Option Nat :=
  ds.foldl (fun acc c => acc.bind fun a =>
    if c.isDigit then some (a * 16 + (c.toNat - 48))
    else if 'a' ≤ c.toLower ∧ c.toLower ≤ 'f' then some (a * 16 + (c.toLower.toNat - 87))
    else none) (some 0)

/-- The characters of a double-quoted scalar after its opening quote, and the rest after the
closing quote; `none` when it is not closed or an escape is unknown. -/
def doubleQuoted : List Char → List Char → Option (List Char × List Char)
  | _, [] => none
  | acc, '"' :: r => some (acc.reverse, r)
  | acc, '\\' :: e :: r =>
    let simple : Option Char := match e with
      | '0' => some (Char.ofNat 0) | 'a' => some (Char.ofNat 7) | 'b' => some (Char.ofNat 8)
      | 't' => some '\t' | '\t' => some '\t' | 'n' => some '\n' | 'v' => some (Char.ofNat 11)
      | 'f' => some (Char.ofNat 12) | 'r' => some '\r' | 'e' => some (Char.ofNat 27)
      | ' ' => some ' ' | '"' => some '"' | '/' => some '/' | '\\' => some '\\'
      | 'N' => some (Char.ofNat 0x85) | '_' => some (Char.ofNat 0xA0)
      | 'L' => some (Char.ofNat 0x2028) | 'P' => some (Char.ofNat 0x2029)
      | _ => none
    match simple with
    | some c => doubleQuoted (c :: acc) r
    | none =>
      let width := if e = 'x' then 2 else if e = 'u' then 4 else if e = 'U' then 8 else 0
      if width = 0 then none
      else match hexValue (r.take width) with
        | some v => if (r.take width).length = width then doubleQuoted (Char.ofNat v :: acc) (r.drop width) else none
        | none => none
  | acc, c :: r => doubleQuoted (c :: acc) r
termination_by _ cs => cs.length
decreasing_by all_goals simp_all <;> omega

/-- The characters of a single-quoted scalar after its opening quote, and the rest after
the closing quote. -/
def singleQuoted : List Char → List Char → Option (List Char × List Char)
  | _, [] => none
  | acc, '\'' :: '\'' :: r => singleQuoted ('\'' :: acc) r
  | acc, '\'' :: r => some (acc.reverse, r)
  | acc, c :: r => singleQuoted (c :: acc) r

/-- A line's content with its comment removed: a `#` at the start or after a blank, outside
quotes. -/
def stripComment (cs : List Char) : List Char :=
  let rec go (prevBlank : Bool) (quote : Option Char) : List Char → List Char
    | [] => []
    | c :: r =>
      match quote with
      | some q => c :: go false (if c = q then none else some q) r
      | none =>
        if c = '#' ∧ prevBlank then []
        else if c = '"' ∨ c = '\'' then c :: go false (some c) r
        else c :: go (c = ' ' ∨ c = '\t') none r
  go true none cs

/-- Drop blanks at both ends. -/
def trimBlanks (cs : List Char) : List Char :=
  ((cs.dropWhile (fun c => c = ' ' ∨ c = '\t')).reverse.dropWhile (fun c => c = ' ' ∨ c = '\t')).reverse

/-- One line of the document: its number from zero, its indent, and its content without
the indent and comment. -/
structure Line where
  number : Nat
  indent : Nat
  content : List Char

/-- The lines of a text. -/
def linesOf (text : String) : List Line :=
  let raw := text.splitOn "\n"
  (List.range raw.length).zip raw |>.map fun (i, l) =>
    let cs := l.toList
    let cs := if cs.getLast? = some '\r' then cs.dropLast else cs
    let indent := (cs.takeWhile (· = ' ')).length
    ⟨i, indent, trimBlanks (stripComment (cs.drop indent))⟩

/-- Whether a line holds nothing to read. -/
def Line.isBlank (l : Line) : Bool := l.content.isEmpty

/-- Whether a line is a document marker. -/
def Line.isMarker (l : Line) : Bool :=
  l.indent = 0 ∧ (l.content = ['-', '-', '-'] ∨ l.content.take 4 = ['-', '-', '-', ' '] ∨
    l.content = ['.', '.', '.'])

/-- Whether a line starts a sequence item. -/
def Line.isItem (l : Line) : Bool :=
  l.content = ['-'] ∨ l.content.take 2 = ['-', ' ']

/-- Split a mapping line into its key text and the rest after `:`; the key is quoted or
plain, a plain key ending at the first `:` followed by a blank or the end. -/
def splitKey (cs : List Char) : Option (String × List Char) :=
  match cs with
  | '"' :: r => do
    let (k, rest) ← doubleQuoted [] r
    match trimBlanks rest with
    | ':' :: after => some (String.ofList k, after)
    | _ => none
  | '\'' :: r => do
    let (k, rest) ← singleQuoted [] r
    match trimBlanks rest with
    | ':' :: after => some (String.ofList k, after)
    | _ => none
  | _ =>
    let rec find (acc : List Char) : List Char → Option (String × List Char)
      | [] => none
      | [':'] => some (String.ofList (trimBlanks acc.reverse), [])
      | ':' :: c :: r =>
        if c = ' ' ∨ c = '\t' then some (String.ofList (trimBlanks acc.reverse), c :: r)
        else find (':' :: acc) (c :: r)
      | c :: r => find (c :: acc) r
    find [] cs

/-- Text positioned in a flow: characters with the line each stands on. -/
abbrev Flow := List (Char × Nat)

/-- The flow text from a line's content on, the following lines' contents after it, each
line ended by a line feed. -/
def flowOf (first : List Char) (l : Line) (rest : List Line) : Flow :=
  (first ++ ['\n']).map (·, l.number) ++
    rest.flatMap fun m => (List.replicate m.indent ' ' ++ m.content ++ ['\n']).map (·, m.number)

/-- Skip blanks and line feeds in a flow. -/
def skipFlowBlanks (f : Flow) : Flow := f.dropWhile fun (c, _) => c = ' ' ∨ c = '\t' ∨ c = '\n'

/-- The line a flow stands on, or the end's line when it is empty. -/
def flowLine (endLine : Nat) : Flow → Nat
  | [] => endLine
  | (_, n) :: _ => n

/-- A plain scalar in a flow: up to a flow indicator, a line feed, or `: `. -/
def flowPlain (f : Flow) : List Char × Flow :=
  let rec go (acc : List Char) : Flow → List Char × Flow
    | [] => (acc.reverse, [])
    | (c, n) :: r =>
      if c = ',' ∨ c = '[' ∨ c = ']' ∨ c = '{' ∨ c = '}' ∨ c = '\n' then (acc.reverse, (c, n) :: r)
      else if c = ':' then
        match r with
        | (d, _) :: _ =>
          if d = ' ' ∨ d = '\n' ∨ d = ',' ∨ d = ']' ∨ d = '}' then (acc.reverse, (c, n) :: r)
          else go (c :: acc) r
        | [] => (acc.reverse, (c, n) :: r)
      else go (c :: acc) r
  let (cs, rest) := go [] f
  (trimBlanks cs, rest)

mutual

/-- One node of a flow and the flow after it; `endLine` is where the text ends. -/
def flowNode (endLine : Nat) : Nat → Flow → Except ReadError (Node × Flow)
  | 0, _ => .error (failAt 0 "document too deeply nested")
  | fuel + 1, f =>
    match skipFlowBlanks f with
    | (('[', n) :: r) => flowSeq endLine n fuel [] r
    | (('{', n) :: r) => flowMap endLine n fuel [] r
    | (('"', q) :: r) =>
      match doubleQuoted [] (r.map (·.1)) with
      | some (cs, rest) => .ok (.scalar (.str (Bytes.ofString (String.ofList cs))), r.drop (r.length - rest.length))
      | none => .error (unclosedQuote endLine q)
    | (('\'', q) :: r) =>
      match singleQuoted [] (r.map (·.1)) with
      | some (cs, rest) => .ok (.scalar (.str (Bytes.ofString (String.ofList cs))), r.drop (r.length - rest.length))
      | none => .error (unclosedQuote endLine q)
    | f =>
      let (cs, rest) := flowPlain f
      .ok (.scalar (resolve (String.ofList cs)), rest)

/-- The entries of a flow sequence opened on line `open_`, read so far in reverse. -/
def flowSeq (endLine open_ : Nat) : Nat → List Node → Flow → Except ReadError (Node × Flow)
  | 0, _, _ => .error (failAt 0 "document too deeply nested")
  | fuel + 1, acc, f =>
    let stop (g : Flow) : ReadError :=
      failAt (if open_ ≠ 0 then open_ else flowLine endLine g) "did not find expected ',' or ']'"
    match skipFlowBlanks f with
    | ((']', _) :: r) => .ok (.seq acc.reverse, r)
    | [] => .error (stop [])
    | g =>
      match flowNode endLine fuel g with
      | .error e => .error e
      | .ok (item, r) =>
        -- an entry `k: v` inside a sequence is a mapping of one pair
        let (item, r) := match skipFlowBlanks r with
          | ((':', n) :: r') =>
            match flowNode endLine fuel r' with
            | .ok (v, r'') =>
              let k := match item with | .scalar (.str s) => Bytes.show s | .scalar v => v.text | _ => ""
              (Node.map [(k, n, v)], r'')
            | .error _ => (item, r)
          | r' => (item, r')
        match skipFlowBlanks r with
        | ((',', _) :: r') => flowSeq endLine open_ fuel (item :: acc) r'
        | ((']', _) :: r') => .ok (.seq (item :: acc).reverse, r')
        | g' => .error (stop g')

/-- The entries of a flow mapping opened on line `open_`, read so far in reverse. -/
def flowMap (endLine open_ : Nat) : Nat → List (String × Nat × Node) → Flow →
    Except ReadError (Node × Flow)
  | 0, _, _ => .error (failAt 0 "document too deeply nested")
  | fuel + 1, acc, f =>
    let stop (g : Flow) : ReadError :=
      failAt (if open_ ≠ 0 then open_ else flowLine endLine g) "did not find expected ',' or '\x7d'"
    match skipFlowBlanks f with
    | (('}', _) :: r) => .ok (.map acc.reverse, r)
    | [] => .error (stop [])
    | g =>
      let line := flowLine endLine g
      match flowNode endLine fuel g with
      | .error e => .error e
      | .ok (key, r) =>
        let k := match key with | .scalar (.str s) => Bytes.show s | .scalar v => v.text | _ => ""
        let entry : Except ReadError (Node × Flow) := match skipFlowBlanks r with
          | ((':', _) :: r') => flowNode endLine fuel r'
          | r' => .ok (.scalar .null, r')
        match entry with
        | .error e => .error e
        | .ok (v, r) =>
          match skipFlowBlanks r with
          | ((',', _) :: r') => flowMap endLine open_ fuel ((k, line, v) :: acc) r'
          | (('}', _) :: r') => .ok (.map ((k, line, v) :: acc).reverse, r')
          | g' => .error (stop g')

end

/-- The lines after a flow that ended on the line numbered `n`. -/
def linesAfter (ls : List Line) (rest : Flow) : List Line :=
  match rest with
  | [] => []
  | (_, n) :: _ =>
    -- what follows the flow on its own line must be blank
    ls.filter (·.number > n)

/-- The value written on a line after a key or a sequence dash, with the lines after it:
a flow collection, a quoted scalar, or a plain scalar. -/
def inlineNode (endLine : Nat) (l : Line) (cs : List Char) (rest : List Line) :
    Except ReadError (Node × List Line) :=
  match cs with
  | '[' :: _ | '{' :: _ =>
    match flowNode endLine (endLine + (flowOf cs l rest).length + 2) (flowOf cs l rest) with
    | .ok (n, after) => .ok (n, linesAfter rest after)
    | .error e => .error e
  | '"' :: r =>
    match doubleQuoted [] r with
    | some (s, _) => .ok (.scalar (.str (Bytes.ofString (String.ofList s))), rest)
    | none => .error (unclosedQuote endLine l.number)
  | '\'' :: r =>
    match singleQuoted [] r with
    | some (s, _) => .ok (.scalar (.str (Bytes.ofString (String.ofList s))), rest)
    | none => .error (unclosedQuote endLine l.number)
  | _ =>
    -- a plain value may not itself hold a key
    if (splitKey cs).isSome then .error (scannerFail l.number "mapping values are not allowed in this context")
    else .ok (.scalar (resolve (String.ofList cs)), rest)

mutual

/-- The block node starting at the first line that is not blank, when it is indented at
least `least`; `null` when there is none. -/
def blockNode (endLine least : Nat) : Nat → List Line → Except ReadError (Node × List Line)
  | 0, _ => .error (failAt 0 "document too deeply nested")
  | fuel + 1, ls =>
    match ls.dropWhile (·.isBlank) with
    | [] => .ok (.scalar .null, [])
    | l :: rest =>
      if l.indent < least then .ok (.scalar .null, l :: rest)
      else if l.isItem then blockSeq endLine l.indent fuel [] (l :: rest)
      else match splitKey l.content with
        | some _ => blockMap endLine l.indent fuel [] (l :: rest)
        | none => inlineNode endLine l l.content rest

/-- The entries of a block mapping at `indent`, read so far in reverse. -/
def blockMap (endLine indent : Nat) : Nat → List (String × Nat × Node) → List Line →
    Except ReadError (Node × List Line)
  | 0, _, _ => .error (failAt 0 "document too deeply nested")
  | fuel + 1, acc, ls =>
    match ls.dropWhile (·.isBlank) with
    | [] => .ok (.map acc.reverse, [])
    | l :: rest =>
      if l.indent < indent then .ok (.map acc.reverse, l :: rest)
      else if l.indent > indent then
        .error (failAt (l.number + 1) "mapping values are not allowed in this context")
      else if l.isItem then
        -- an item where a key belongs: named by the line the mapping starts on, from zero
        let start := ((acc.getLast?.map (·.2.1)).getD l.number)
        .error (failAt (if start ≠ 0 then start else l.number) "did not find expected key")
      else match splitKey l.content with
        | none =>
          let line := if l.number ≠ 0 then l.number + 1 else l.number + 2
          .error (failAt line "could not find expected ':'")
        | some (k, after) =>
          let value : Except ReadError (Node × List Line) :=
            match trimBlanks after with
            | [] =>
              match rest.dropWhile (·.isBlank) with
              | m :: _ =>
                if m.indent = indent ∧ m.isItem then blockSeq endLine indent fuel [] rest
                else blockNode endLine (indent + 1) fuel rest
              | [] => .ok (.scalar .null, rest)
            | cs => inlineNode endLine l cs rest
          match value with
          | .error e => .error e
          | .ok (v, rest') => blockMap endLine indent fuel ((k, l.number, v) :: acc) rest'

/-- The items of a block sequence at `indent`, read so far in reverse. -/
def blockSeq (endLine indent : Nat) : Nat → List Node → List Line → Except ReadError (Node × List Line)
  | 0, _, _ => .error (failAt 0 "document too deeply nested")
  | fuel + 1, acc, ls =>
    match ls.dropWhile (·.isBlank) with
    | [] => .ok (.seq acc.reverse, [])
    | l :: rest =>
      if l.indent < indent ∨ !l.isItem then .ok (.seq acc.reverse, l :: rest)
      else
        let body := trimBlanks (l.content.drop 1)
        let item : Except ReadError (Node × List Line) :=
          if body.isEmpty then blockNode endLine (indent + 1) fuel rest
          else
            -- the item's content stands as a line of its own, indented past the dash
            let pad := (l.content.drop 1).takeWhile (· = ' ')
            blockNode endLine (indent + 1) fuel (⟨l.number, indent + 1 + pad.length, body⟩ :: rest)
        match item with
        | .error e => .error e
        | .ok (v, rest') => blockSeq endLine indent fuel (v :: acc) rest'

end

/-- Read a YAML document into a node. -/
def parse (text : String) : Except ReadError Node :=
  let ls := (linesOf text).filter fun l => !l.isMarker
  let endLine := (text.toList.filter (· = '\n')).length
  -- a tab may not start a line's content in the block layout
  let tabbed := (text.splitOn "\n").zipIdx.find? fun (l, _) => (l.toList.dropWhile (· = ' ')).head? = some '\t'
  match tabbed with
  | some (_, i) => .error (scannerFail i "found character that cannot start any token")
  | none =>
  match blockNode endLine 0 (text.length + 2) ls with
  | .error e => .error e
  | .ok (n, rest) =>
    match rest.dropWhile (·.isBlank) with
    | [] => .ok n
    | l :: _ => .error (failAt (l.number + 1) "did not find expected <document start>")

mutual

/-- A node as a value, keys lowercased; a key written twice is refused with the lines of
both. -/
def Node.toValue : Node → Except ReadError Value
  | .scalar v => .ok v
  | .seq items => (Node.itemsToValues items).map .arr
  | .map entries => (Node.entriesToValues [] entries).map .obj

/-- The values of sequence items. -/
def Node.itemsToValues : List Node → Except ReadError (List Value)
  | [] => .ok []
  | n :: ns => do return (← n.toValue) :: (← Node.itemsToValues ns)

/-- The members of mapping entries, `seen` holding the keys read with their lines. -/
def Node.entriesToValues (seen : List (String × Nat)) :
    List (String × Nat × Node) → Except ReadError (List (Bytes × Value))
  | [] => .ok []
  | (k, line, n) :: es =>
    match seen.find? (·.1 = k) with
    | some (_, first) =>
      .error ⟨"yaml: unmarshal errors:\n  line " ++ toString (line + 1) ++ ": mapping key " ++
        Quoted.quoteString k ++ " already defined at line " ++ toString (first + 1)⟩
    | none => do
      let v ← n.toValue
      let vs ← Node.entriesToValues ((k, line) :: seen) es
      return (Bytes.ofString (String.ofList (k.toList.map Char.toLower)), v) :: vs

end

/-- The kind of a node as its tag is written. -/
def Node.tag : Node → String
  | .scalar (.str s) => "!!str " ++ "\x60" ++ Bytes.show s ++ "\x60"
  | .scalar (.num _) => "!!int"
  | .scalar (.bool _) => "!!bool"
  | .scalar _ => "!!null"
  | .seq _ => "!!seq"
  | .map _ => "!!map"

/-- Read a YAML document that is a mapping into a table; an empty document is an empty
table. -/
def readTable (text : String) : Except ReadError Value := do
  let n ← parse text
  match n with
  | .map _ => n.toValue
  | .scalar .null => return .obj []
  | other =>
    throw ⟨"yaml: unmarshal errors:\n  line 1: cannot unmarshal " ++ other.tag ++
      " into map[string]interface \x7b\x7d"⟩

end ChordSearch.Yaml

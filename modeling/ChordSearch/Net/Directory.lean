import ChordSearch.Net.Address
import ChordSearch.Cause
import ChordSearch.Text.Quoted

/-! # The node directory

Operators name nodes by small numbers; the directory maps each number to the IPv4 address
the node is reached at, and back. It is built from a table of decimal keys and address
texts: every key must read as a 32-bit number, every value as an address, every address
must be IPv4, and no two numbers may share an address.
-/

/-! ## Decimal numbers

Reading unsigned decimal text with an upper bound: digits only, no sign, no blanks, at
least one digit. A digit that would take the value past the bound stops reading at once,
so text that overflows before a bad character is out of range rather than malformed.
-/

namespace ChordSearch.Decimal

/-- Why decimal text does not read as a number. -/
inductive Error where
  | malformed (text : Bytes)
  | range (text : Bytes)
  deriving DecidableEq

/-- The text of a decimal error. -/
def Error.message : Error → String
  | .malformed s => "strconv.ParseUint: parsing " ++ Quoted.quote s ++ ": invalid syntax"
  | .range s => "strconv.ParseUint: parsing " ++ Quoted.quote s ++ ": value out of range"

/-- Read digits onto `acc`, refusing a value above `max`. -/
def readOnto (whole : Bytes) (max : Nat) (acc : Nat) : Bytes → Except Error Nat
  | [] => .ok acc
  | c :: rest =>
    if 48 ≤ c ∧ c ≤ 57 then
      let v := acc * 10 + (c.toNat - 48)
      if v > max then .error (.range whole) else readOnto whole max v rest
    else .error (.malformed whole)

/-- Read unsigned decimal text no greater than `max`. -/
def parse (max : Nat) (s : Bytes) : Except Error Nat :=
  if s.isEmpty then .error (.malformed s) else readOnto s max 0 s

/-- Read a 32-bit unsigned number. -/
def parseU32 (s : Bytes) : Except Error UInt32 := (parse 0xFFFFFFFF s).map UInt32.ofNat

end ChordSearch.Decimal

namespace ChordSearch

/-- Why a table does not make a directory. -/
inductive DirectoryError where
  | badNumber (key : Bytes) (cause : Decimal.Error)
  | badAddress (key : Bytes) (cause : Address.ParseError)
  | notIPv4 (num : UInt32) (addr : Address)
  | shared (first second : UInt32) (addr : Address)
  deriving DecidableEq

/-- The text of a directory error. -/
def DirectoryError.message : DirectoryError → String
  | .badNumber k e => "invalid node number " ++ Quoted.quote k ++ ": " ++ e.message
  | .badAddress k e => "node " ++ String.ofList (Utf8.chars k) ++ ": " ++ e.message
  | .notIPv4 n a => "node " ++ toString n.toNat ++ ": address " ++ a.toText ++ " is not IPv4"
  | .shared a b addr =>
    "nodes " ++ toString a.toNat ++ " and " ++ toString b.toNat ++ " share address " ++ addr.toText

/-- A failed look-up in the directory. -/
inductive LookupError where
  | unknownNode (num : UInt32)
  | unknownAddress (addr : Address)
  deriving DecidableEq

/-- The text of a look-up error. -/
def LookupError.message : LookupError → String
  | .unknownNode n => "unknown node: " ++ toString n.toNat
  | .unknownAddress a => "unknown address: " ++ a.toText

/-- The cause of a look-up error. -/
def LookupError.cause : LookupError → Cause
  | .unknownNode _ => .unknownNode
  | .unknownAddress _ => .unknownAddress

/-- Numbers and their IPv4 addresses, ascending by number, numbers and addresses distinct. -/
structure Directory where
  entries : List (UInt32 × Address)
  deriving DecidableEq, Inhabited

namespace Directory

/-- Read the table's keys and values, in the table's order. -/
def readEntries : List (Bytes × Bytes) → Except DirectoryError (List (UInt32 × Address))
  | [] => .ok []
  | (k, v) :: rest => do
    let n ← (Decimal.parseU32 k).mapError (.badNumber k)
    let a ← (Address.parse v).mapError (.badAddress k)
    return (n, a) :: (← readEntries rest)

/-- Insert an entry by number; a later entry for the same number replaces the earlier. -/
def insertEntry (e : UInt32 × Address) : List (UInt32 × Address) → List (UInt32 × Address)
  | [] => [e]
  | x :: xs =>
    if e.1 < x.1 then e :: x :: xs
    else if e.1 = x.1 then e :: xs
    else x :: insertEntry e xs

/-- The first entry, in number order, whose address an earlier entry already has. -/
def firstShared : List (UInt32 × Address) → List (UInt32 × Address) → Option DirectoryError
  | _, [] => none
  | seen, (n, a) :: rest =>
    match seen.find? (·.2 = a) with
    | some (m, _) => some (.shared m n a)
    | none => firstShared ((n, a) :: seen) rest

/-- Build a directory from a table of decimal keys and address texts. -/
def ofTable (table : List (Bytes × Bytes)) : Except DirectoryError Directory := do
  let es ← readEntries table
  let sorted := es.foldl (fun acc e => insertEntry e acc) []
  match sorted.find? (!·.2.isV4) with
  | some (n, a) => .error (.notIPv4 n a)
  | none =>
    match firstShared [] sorted with
    | some e => .error e
    | none => .ok ⟨sorted⟩

/-- The address of a node. -/
def resolve (d : Directory) (n : UInt32) : Except LookupError Address :=
  match d.entries.find? (·.1 = n) with
  | some (_, a) => .ok a
  | none => .error (.unknownNode n)

/-- The number of the node at an address. -/
def reverseLookup (d : Directory) (a : Address) : Except LookupError UInt32 :=
  match d.entries.find? (·.2 = a) with
  | some (n, _) => .ok n
  | none => .error (.unknownAddress a)

/-- Every entry, ascending by number. -/
def nodes (d : Directory) : List (UInt32 × Address) := d.entries

end Directory

end ChordSearch

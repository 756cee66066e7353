/-
# SharedCells.Json.Basic -- JSON documents

A document is a tree; the type of its numbers is a parameter. Of two members of an object
with the same name the later one counts.

`Json.pretty` writes a document over several lines: two blanks per level, one item or member
a line, a blank after the colon, and nothing between the brackets of an empty list or
object.
-/

namespace SharedCells

/-- **`Json ν`** -- a document whose numbers are from `ν`. -/
inductive Json (ν : Type) where
  | null
  | bool (b : Bool)
  | number (n : ν)
  | string (s : String)
  | array (items : List (Json ν))
  | object (members : List (String × Json ν))

namespace Json

variable {ν : Type}

/-- **`get?`** -- the member of that name of an object. -/
def get? (name : String) : Json ν → Option (Json ν)
  | object members => members.reverse.lookup name
  | _ => none

/-- The number that a document consists of. -/
def number? : Json ν → Option ν
  | number n => some n
  | _ => none

/-! ## Writing -/

/-- **`escape`** -- a character inside a string. -/
def escape (c : Char) : List Char :=
  match c with
  | '"' => ['\\', '"']
  | '\\' => ['\\', '\\']
  | '\x08' => ['\\', 'b']
  | '\x0c' => ['\\', 'f']
  | '\n' => ['\\', 'n']
  | '\r' => ['\\', 'r']
  | '\t' => ['\\', 't']
  | c =>
    if c.toNat < 32 then
      ['\\', 'u', '0', '0', (c.toNat / 16).digitChar, (c.toNat % 16).digitChar]
    else [c]

/-- A string in quotes. -/
def quote (s : String) : List Char := '"' :: s.toList.flatMap escape ++ ['"']

/-- The start of a line at the given depth. -/
def lineStart (depth : Nat) : List Char := '\n' :: List.replicate (2 * depth) ' '

mutual

/-- **`pretty`** -- a document over several lines, its first line without indentation; `num`
writes the numbers. -/
def pretty (num : ν → List Char) (depth : Nat) : Json ν → List Char
  | null => "null".toList
  | bool true => "true".toList
  | bool false => "false".toList
  | number n => num n
  | string s => quote s
  | array [] => ['[', ']']
  | array (item :: rest) =>
    '[' :: lineStart (depth + 1) ++ pretty num (depth + 1) item
      ++ prettyItems num (depth + 1) rest ++ lineStart depth ++ [']']
  | object [] => ['\x7b', '\x7d']
  | object ((name, value) :: rest) =>
    '\x7b' :: lineStart (depth + 1) ++ quote name ++ [':', ' '] ++ pretty num (depth + 1) value
      ++ prettyMembers num (depth + 1) rest ++ lineStart depth ++ ['\x7d']

/-- The items after the first, each after a comma. -/
def prettyItems (num : ν → List Char) (depth : Nat) : List (Json ν) → List Char
  | [] => []
  | item :: rest =>
    ',' :: lineStart depth ++ pretty num depth item ++ prettyItems num depth rest

/-- The members after the first, each after a comma. -/
def prettyMembers (num : ν → List Char) (depth : Nat) : List (String × Json ν) → List Char
  | [] => []
  | (name, value) :: rest =>
    ',' :: lineStart depth ++ quote name ++ [':', ' '] ++ pretty num depth value
      ++ prettyMembers num depth rest

end

end Json

end SharedCells

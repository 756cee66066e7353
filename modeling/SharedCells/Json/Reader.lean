/-
# SharedCells.Json.Reader -- reading JSON texts

`Json.read` takes a text that is one JSON document, with blanks around and between its
parts, or says what is wrong with it. Lists and objects nest at most 127 deep; a code point
beyond the first plane is written as a pair of surrogates, and a surrogate on its own is
refused.

Every reader takes the characters that are left and gives what it read with the characters
then left. Nesting is counted down in the recursion of `value`. The loops over the parts of
a string, a list or an object count down the characters left, of which each round takes at
least one; so they never run out before the text does.
-/

import SharedCells.Json.Basic
import SharedCells.Json.Number

namespace SharedCells.Json

namespace Reader

/-- Blanks between the parts of a document. -/
def isBlank (c : Char) : Bool := c = ' ' ∨ c = '\n' ∨ c = '\t' ∨ c = '\r'

/-- The text without its leading blanks. -/
def skipBlanks (cs : List Char) : List Char := cs.dropWhile isBlank

/-! ## Strings -/

/-- Four hexadecimal digits. -/
def hexUnit (cs : List Char) : Except Fault (Nat × List Char) :=
  if Fault.byteCount (cs.take 4) < 4 then .error ⟨.unfinishedString, [], 0⟩
  else
    match Numeral.ofHexDigits? (cs.take 4) with
    | some n => .ok (n, cs.drop 4)
    | none => .error ⟨.invalidEscape, cs, 4⟩

/-- Is it the first half of a surrogate pair? -/
def isHigh (n : Nat) : Bool := 0xD800 ≤ n ∧ n ≤ 0xDBFF

/-- Is it the second half of a surrogate pair? -/
def isLow (n : Nat) : Bool := 0xDC00 ≤ n ∧ n ≤ 0xDFFF

/-- The second half of a surrogate pair, with the escape it is written as. -/
def secondHalf (high : Nat) : List Char → Except Fault (Char × List Char)
  | [] => .error ⟨.unfinishedString, [], 0⟩
  | ['\\'] => .error ⟨.unfinishedString, [], 0⟩
  | '\\' :: 'u' :: cs => do
    let (low, rest) ← hexUnit cs
    if isLow low then
      .ok (Char.ofNat (0x10000 + (high - 0xD800) * 0x400 + (low - 0xDC00)), rest)
    else .error ⟨.loneSurrogate, rest, 0⟩
  | '\\' :: cs => .error ⟨.unfinishedSurrogatePair, cs, 1⟩
  | cs => .error ⟨.unfinishedSurrogatePair, cs, 1⟩

/-- The character written as one or two groups of four hexadecimal digits. -/
def codePoint (cs : List Char) : Except Fault (Char × List Char) := do
  let (n, rest) ← hexUnit cs
  if isLow n then .error ⟨.loneSurrogate, rest, 0⟩
  else if isHigh n then secondHalf n rest
  else .ok (Char.ofNat n, rest)

/-- The character that an escape stands for, its backslash already taken. -/
def unescape : List Char → Except Fault (Char × List Char)
  | [] => .error ⟨.unfinishedString, [], 0⟩
  | '"' :: rest => .ok ('"', rest)
  | '\\' :: rest => .ok ('\\', rest)
  | '/' :: rest => .ok ('/', rest)
  | 'b' :: rest => .ok ('\x08', rest)
  | 'f' :: rest => .ok ('\x0c', rest)
  | 'n' :: rest => .ok ('\n', rest)
  | 'r' :: rest => .ok ('\r', rest)
  | 't' :: rest => .ok ('\t', rest)
  | 'u' :: rest => codePoint rest
  | cs => .error ⟨.invalidEscape, cs, 1⟩

/-- The characters up to the closing quote. -/
def characters : Nat → List Char → Except Fault (List Char × List Char)
  | 0, _ => .error ⟨.unfinishedString, [], 0⟩
  | _, [] => .error ⟨.unfinishedString, [], 0⟩
  | fuel + 1, c :: rest =>
    if c = '"' then .ok ([], rest)
    else if c = '\\' then do
      let (d, rest) ← unescape rest
      let (more, left) ← characters fuel rest
      .ok (d :: more, left)
    else if c.toNat < 32 then .error ⟨.controlCharacter, c :: rest, 1⟩
    else do
      let (more, left) ← characters fuel rest
      .ok (c :: more, left)

/-- A string, its opening quote already taken. -/
def string (cs : List Char) : Except Fault (String × List Char) := do
  let (text, rest) ← characters (cs.length + 1) cs
  .ok (String.ofList text, rest)

/-! ## Words, lists and objects -/

/-- What reading a document gives: the document and the text left over. -/
abbrev Result := Except Fault (Json Number × List Char)

/-- The rest of a word that stands for a document. -/
def word (meaning : Json Number) : List Char → List Char → Result
  | [], cs => .ok (meaning, cs)
  | _, [] => .error ⟨.unfinishedValue, [], 0⟩
  | e :: es, c :: cs =>
    if c = e then word meaning es cs else .error ⟨.expectedWord, c :: cs, 1⟩

/-- The items of a list up to its closing bracket; `first` says that none came yet. -/
def items (item : List Char → Result) :
    Nat → Bool → List Char → Except Fault (List (Json Number) × List Char)
  | 0, _, _ => .error ⟨.unfinishedList, [], 0⟩
  | fuel + 1, first, cs =>
    let next (cs : List Char) : Except Fault (List (Json Number) × List Char) := do
      let (v, rest) ← item cs
      let (vs, left) ← items item fuel false rest
      .ok (v :: vs, left)
    match skipBlanks cs with
    | [] => .error ⟨.unfinishedList, [], 0⟩
    | c :: rest =>
      if c = ']' then .ok ([], rest)
      else if first then next (c :: rest)
      else if c = ',' then
        match skipBlanks rest with
        | [] => .error ⟨.unfinishedValue, [], 0⟩
        | d :: more =>
          if d = ']' then .error ⟨.trailingComma, d :: more, 1⟩ else next (d :: more)
      else .error ⟨.expectedListCommaOrEnd, c :: rest, 1⟩

/-- The colon between a member's name and its value. -/
def colon (cs : List Char) : Except Fault (List Char) :=
  match skipBlanks cs with
  | [] => .error ⟨.unfinishedObject, [], 0⟩
  | c :: rest => if c = ':' then .ok rest else .error ⟨.expectedColon, c :: rest, 1⟩

/-- The members of an object up to its closing bracket; `first` says that none came yet. -/
def members (value : List Char → Result) :
    Nat → Bool → List Char → Except Fault (List (String × Json Number) × List Char)
  | 0, _, _ => .error ⟨.unfinishedObject, [], 0⟩
  | fuel + 1, first, cs =>
    let next (c : Char) (cs : List Char) :
        Except Fault (List (String × Json Number) × List Char) := do
      if c ≠ '"' then .error ⟨.keyNotString, c :: cs, 1⟩
      else
        let (name, rest) ← string cs
        let (v, rest) ← value (← colon rest)
        let (vs, left) ← members value fuel false rest
        .ok ((name, v) :: vs, left)
    match skipBlanks cs with
    | [] => .error ⟨.unfinishedObject, [], 0⟩
    | c :: rest =>
      if c = '\x7d' then .ok ([], rest)
      else if first then next c rest
      else if c = ',' then
        match skipBlanks rest with
        | [] => .error ⟨.unfinishedValue, [], 0⟩
        | d :: more =>
          if d = '\x7d' then .error ⟨.trailingComma, d :: more, 1⟩ else next d more
      else .error ⟨.expectedObjectCommaOrEnd, c :: rest, 1⟩

/-- A number as a document. -/
def numeric (negative : Bool) (cs : List Char) : Result := do
  let (n, rest) ← Number.read negative cs
  .ok (.number n, rest)

/-- A document whose lists and objects hold documents that `inner` reads; there can be none
where `inner` is missing. -/
def valueWith (inner : Option (List Char → Result)) (cs : List Char) : Result :=
  match skipBlanks cs with
  | [] => .error ⟨.unfinishedValue, [], 0⟩
  | 'n' :: rest => word .null "ull".toList rest
  | 't' :: rest => word (.bool true) "rue".toList rest
  | 'f' :: rest => word (.bool false) "alse".toList rest
  | '-' :: rest => numeric true rest
  | '"' :: rest => do
    let (s, left) ← string rest
    .ok (.string s, left)
  | '[' :: rest =>
    match inner with
    | none => .error ⟨.tooDeep, '[' :: rest, 1⟩
    | some item => do
      let (vs, left) ← items item (rest.length + 1) true rest
      .ok (.array vs, left)
  | '\x7b' :: rest =>
    match inner with
    | none => .error ⟨.tooDeep, '\x7b' :: rest, 1⟩
    | some value => do
      let (vs, left) ← members value (rest.length + 1) true rest
      .ok (.object vs, left)
  | c :: rest =>
    if c.isDigit then numeric false (c :: rest) else .error ⟨.expectedValue, c :: rest, 1⟩

/-- **`value`** -- a document whose lists and objects nest at most as deep as given. -/
def value : Nat → List Char → Result
  | 0 => valueWith none
  | depth + 1 => valueWith (some (value depth))

/-- How deep lists and objects may nest. -/
def greatestDepth : Nat := 127

end Reader

/-- **`read`** -- the document that the text is. -/
def read (text : String) : Except Fault (Json Number) := do
  let (v, rest) ← Reader.value Reader.greatestDepth text.toList
  match Reader.skipBlanks rest with
  | [] => .ok v
  | left => .error ⟨.trailingCharacters, left, 1⟩

end SharedCells.Json

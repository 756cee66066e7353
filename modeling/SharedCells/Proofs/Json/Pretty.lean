/-
# SharedCells.Proofs.Json.Pretty -- what is written as JSON is read back

`Json.pretty` writes a document, its numbers as a parameter says, and `Json.read` reads it. What is
read has the same shape, and in place of each number the one that its text is read as: `Denotes`
says so, and keeps count of the nesting, which the reader bounds.

The reader is followed from the leaves up. Each part is read the same whatever follows it, as long
as that cannot go on with a number (`Reads`); so the loops over items and members take one part
after another.

* `characters_escaped` : the text of a string.
* `items_prettyItems`, `members_prettyMembers` : the loops.
* `value_pretty` : a document with more text behind it.
* `read_pretty` : a document that is the whole text.
-/

import SharedCells.Json.Reader
import SharedCells.Proofs.Json.Number

namespace SharedCells.Json

namespace Reader

variable {cs left rest : List Char} {fuel : Nat}

/-! ## Strings -/

/-- Four digits that stand for a control character. -/
theorem hexUnit_control {n : Nat} (hn : n < 32) (rest : List Char) :
    hexUnit ('0' :: '0' :: (n / 16).digitChar :: (n % 16).digitChar :: rest) = .ok (n, rest) := by
  have hdigits : ∀ n < 32, Fault.byteCount ['0', '0', (n / 16).digitChar, (n % 16).digitChar] = 4 ∧
      Numeral.ofHexDigits? ['0', '0', (n / 16).digitChar, (n % 16).digitChar] = some n := by decide
  obtain ⟨hcount, hvalue⟩ := hdigits n hn
  have htake : ('0' :: '0' :: (n / 16).digitChar :: (n % 16).digitChar :: rest).take 4 =
      ['0', '0', (n / 16).digitChar, (n % 16).digitChar] := rfl
  rw [hexUnit, htake, hcount, if_neg (by decide), hvalue]
  rfl

theorem unescape_control {c : Char} (hc : c.toNat < 32) (rest : List Char) :
    unescape ('u' :: '0' :: '0' :: (c.toNat / 16).digitChar :: (c.toNat % 16).digitChar :: rest) =
      .ok (c, rest) := by
  have hlow : isLow c.toNat = false := by simp [isLow]; omega
  have hhigh : isHigh c.toNat = false := by simp [isHigh]; omega
  show codePoint _ = _
  rw [codePoint, hexUnit_control hc]
  show (if isLow c.toNat = true then _ else if isHigh c.toNat = true then _ else
    Except.ok (Char.ofNat c.toNat, rest)) = _
  rw [hlow, hhigh, Char.ofNat_toNat]
  rfl

/-- An escape is one character. -/
theorem characters_backslash {c : Char} {more : List Char} (hc : unescape cs = .ok (c, rest))
    (h : characters fuel rest = .ok (more, left)) :
    characters (fuel + 1) ('\\' :: cs) = .ok (c :: more, left) := by
  rw [characters, if_neg (by decide), if_pos rfl, hc]
  show (characters fuel rest).bind _ = _
  rw [h]
  rfl

/-- So is a character that needs no escape. -/
theorem characters_plain {c : Char} {more : List Char} (hquote : c ≠ '"') (hback : c ≠ '\\')
    (hgreat : ¬ c.toNat < 32) (h : characters fuel rest = .ok (more, left)) :
    characters (fuel + 1) (c :: rest) = .ok (c :: more, left) := by
  rw [characters, if_neg hquote, if_neg hback, if_neg hgreat, h]
  rfl

/-- A character is read as it was written. -/
theorem characters_escape {more : List Char} (c : Char)
    (h : characters fuel rest = .ok (more, left)) :
    characters (fuel + 1) (escape c ++ rest) = .ok (c :: more, left) := by
  unfold escape
  split
  case h_8 hquote hback _ _ _ _ _ =>
    split
    case isTrue hcontrol => exact characters_backslash (unescape_control hcontrol rest) h
    case isFalse hgreat => exact characters_plain hquote hback hgreat h
  all_goals exact characters_backslash rfl h

/-- **`characters_escaped`** -- the characters of a string, up to its closing quote. -/
theorem characters_escaped {text : List Char} (hfuel : text.length < fuel) (rest : List Char) :
    characters fuel (text.flatMap escape ++ '"' :: rest) = .ok (text, rest) := by
  induction text generalizing fuel with
  | nil =>
      obtain ⟨fuel, rfl⟩ := Nat.exists_eq_add_of_lt hfuel
      rw [List.length_nil, Nat.zero_add]
      exact if_pos rfl
  | cons c text ih =>
      obtain ⟨fuel, rfl⟩ : ∃ more, fuel = more + 1 := ⟨fuel - 1, by omega⟩
      rw [List.length_cons] at hfuel
      rw [List.flatMap_cons, List.append_assoc]
      exact characters_escape c (ih (by omega))

theorem length_le_flatMap_escape (text : List Char) :
    text.length ≤ (text.flatMap escape).length := by
  have hone : ∀ c, 1 ≤ (escape c).length := by
    intro c
    unfold escape
    repeat' split
    all_goals simp
  induction text with
  | nil => exact Nat.le_refl 0
  | cons c text ih =>
      rw [List.flatMap_cons, List.length_append, List.length_cons]
      have hc := hone c
      omega

/-- A quoted string, behind its first quote. -/
theorem string_quoted (s : String) (rest : List Char) :
    string (s.toList.flatMap escape ++ '"' :: rest) = .ok (s, rest) := by
  have hlength := length_le_flatMap_escape s.toList
  rw [string, characters_escaped (by rw [List.length_append]; omega)]
  show Except.ok (String.ofList s.toList, rest) = _
  rw [String.ofList_toList]

/-! ## Blanks -/

theorem skipBlanks_of_not_isBlank {c : Char} (h : isBlank c = false) :
    skipBlanks (c :: cs) = c :: cs :=
  List.dropWhile_cons_of_neg (by simp [h])

theorem skipBlanks_cons {c : Char} (h : isBlank c = true) :
    skipBlanks (c :: cs) = skipBlanks cs :=
  List.dropWhile_cons_of_pos h

/-- The start of a line is blank. -/
theorem skipBlanks_lineStart (depth : Nat) (cs : List Char) :
    skipBlanks (lineStart depth ++ cs) = skipBlanks cs := by
  have hblank : ∀ c ∈ lineStart depth, isBlank c = true := by
    intro c hc
    rcases List.mem_cons.mp hc with rfl | hc
    · rfl
    · rw [List.eq_of_mem_replicate hc]
      rfl
  exact List.dropWhile_append_of_pos hblank

theorem valueWith_blank (inner : Option (List Char → Result)) (cs : List Char) :
    valueWith inner (' ' :: cs) = valueWith inner cs := by
  rw [valueWith, valueWith, skipBlanks_cons rfl]

/-! ## Parts of a document -/

/-- **`Reads`** -- a text that begins a document, and that is taken as this document whatever comes
after it. -/
structure Reads (reader : List Char → Result) (text : List Char) (v : Json Number) : Prop where
  starts : ∃ c more, text = c :: more ∧ isBlank c = false ∧ c ≠ ']'
  takes : ∀ rest, Number.Ends rest → reader (text ++ rest) = .ok (v, rest)

variable {reader : List Char → Result} {text : List Char} {v : Json Number}

/-- Behind the start of a line stands the document itself. -/
theorem Reads.skipBlanks_line (h : Reads reader text v) (depth : Nat) (rest : List Char) :
    ∃ c more, text ++ rest = c :: more ∧ c ≠ ']' ∧
      skipBlanks (lineStart depth ++ (text ++ rest)) = c :: more := by
  obtain ⟨c, more, rfl, hblank, hend⟩ := h.starts
  refine ⟨c, more ++ rest, rfl, hend, ?_⟩
  rw [skipBlanks_lineStart, List.cons_append, skipBlanks_of_not_isBlank hblank]

/-! ## Lists -/

theorem items_end (first : Bool) (depth : Nat) (rest : List Char) :
    items reader (fuel + 1) first (lineStart depth ++ ']' :: rest) = .ok ([], rest) := by
  rw [items, skipBlanks_lineStart, skipBlanks_of_not_isBlank rfl]
  exact if_pos rfl

/-- The first item of a list, and what is read after it. -/
theorem items_first {vs : List (Json Number)} (h : Reads reader text v) (depth : Nat)
    (hrest : Number.Ends rest) (hmore : items reader fuel false rest = .ok (vs, left)) :
    items reader (fuel + 1) true (lineStart depth ++ (text ++ rest)) = .ok (v :: vs, left) := by
  obtain ⟨c, more, hcons, hend, hskip⟩ := h.skipBlanks_line depth rest
  have hitem := h.takes rest hrest
  rw [items, hskip]
  dsimp only
  rw [if_neg hend, if_pos rfl, ← hcons, hitem]
  show (items reader fuel false rest).bind _ = _
  rw [hmore]
  rfl

/-- Any other item stands behind a comma. -/
theorem items_comma {vs : List (Json Number)} (h : Reads reader text v) (depth : Nat)
    (hrest : Number.Ends rest) (hmore : items reader fuel false rest = .ok (vs, left)) :
    items reader (fuel + 1) false (',' :: (lineStart depth ++ (text ++ rest))) =
      .ok (v :: vs, left) := by
  obtain ⟨c, more, hcons, hend, hskip⟩ := h.skipBlanks_line depth rest
  have hitem := h.takes rest hrest
  rw [items, skipBlanks_of_not_isBlank rfl]
  dsimp only
  rw [if_neg (by decide), if_neg Bool.false_ne_true, if_pos rfl, hskip]
  dsimp only
  rw [if_neg hend, ← hcons, hitem]
  show (items reader fuel false rest).bind _ = _
  rw [hmore]
  rfl

/-! ## Objects -/

theorem members_end (first : Bool) (depth : Nat) (rest : List Char) :
    members reader (fuel + 1) first (lineStart depth ++ '\x7d' :: rest) = .ok ([], rest) := by
  rw [members, skipBlanks_lineStart, skipBlanks_of_not_isBlank rfl]
  exact if_pos rfl

/-- A member: its name in quotes, a colon, a blank, and its value. -/
def memberText (name : String) (text : List Char) : List Char :=
  quote name ++ [':', ' '] ++ text

theorem memberText_append (name : String) (text rest : List Char) : memberText name text ++ rest =
    '"' :: (name.toList.flatMap escape ++ '"' :: ':' :: ' ' :: (text ++ rest)) := by
  simp [memberText, quote]

theorem skipBlanks_memberText (name : String) (text : List Char) (depth : Nat) (rest : List Char) :
    skipBlanks (lineStart depth ++ (memberText name text ++ rest)) =
      memberText name text ++ rest := by
  rw [skipBlanks_lineStart, memberText_append, skipBlanks_of_not_isBlank rfl]

theorem colon_cons (cs : List Char) : colon (':' :: cs) = .ok cs := by
  rw [colon, skipBlanks_of_not_isBlank rfl]
  exact if_pos rfl

/-- A member is read, and then those after it. -/
theorem member_next {name : String} {vs : List (String × Json Number)} (h : Reads reader text v)
    (hblank : ∀ cs, reader (' ' :: cs) = reader cs) (hrest : Number.Ends rest)
    (hmore : members reader fuel false rest = .ok (vs, left)) :
    (do
      let (name, rest) ← string (name.toList.flatMap escape ++ '"' :: ':' :: ' ' :: (text ++ rest))
      let (v, rest) ← reader (← colon rest)
      let (vs, left) ← members reader fuel false rest
      .ok ((name, v) :: vs, left) : Except Fault (List (String × Json Number) × List Char)) =
        .ok ((name, v) :: vs, left) := by
  rw [string_quoted]
  dsimp only [bind, Except.bind]
  rw [colon_cons]
  dsimp only
  rw [hblank, h.takes rest hrest]
  dsimp only
  rw [hmore]

/-- The first member of an object, and what is read after it. -/
theorem members_first (name : String) {vs : List (String × Json Number)} (h : Reads reader text v)
    (hblank : ∀ cs, reader (' ' :: cs) = reader cs) (depth : Nat) (hrest : Number.Ends rest)
    (hmore : members reader fuel false rest = .ok (vs, left)) :
    members reader (fuel + 1) true (lineStart depth ++ (memberText name text ++ rest)) =
      .ok ((name, v) :: vs, left) := by
  rw [members, skipBlanks_memberText, memberText_append]
  dsimp only
  rw [if_neg (by decide), if_pos rfl, if_neg (by decide)]
  exact member_next h hblank hrest hmore

/-- Any other member stands behind a comma. -/
theorem members_comma (name : String) {vs : List (String × Json Number)} (h : Reads reader text v)
    (hblank : ∀ cs, reader (' ' :: cs) = reader cs) (depth : Nat) (hrest : Number.Ends rest)
    (hmore : members reader fuel false rest = .ok (vs, left)) :
    members reader (fuel + 1) false (',' :: (lineStart depth ++ (memberText name text ++ rest))) =
      .ok ((name, v) :: vs, left) := by
  rw [members, skipBlanks_of_not_isBlank rfl]
  dsimp only
  rw [if_neg (by decide), if_neg Bool.false_ne_true, if_pos rfl, skipBlanks_memberText,
    memberText_append]
  dsimp only
  rw [if_neg (by decide), if_neg (by decide)]
  exact member_next h hblank hrest hmore

end Reader

/-! ## What a document denotes -/

variable {ν : Type} {num : ν → List Char}

/-- **`Leaf`** -- a document that is no list and no object, and what it is read as. -/
inductive Leaf (num : ν → List Char) : Json ν → Json Number → Prop
  | null : Leaf num .null .null
  | bool (b : Bool) : Leaf num (.bool b) (.bool b)
  | number {n : ν} {x : Number} (h : Number.IsText (num n) x) : Leaf num (.number n) (.number x)
  | string (s : String) : Leaf num (.string s) (.string s)

/-- **`Nested`** -- lists and objects are read part by part. -/
inductive Nested (part : Json ν → Json Number → Prop) : Json ν → Json Number → Prop
  | array {ds : List (Json ν)} {vs : List (Json Number)} (h : List.Forall₂ part ds vs) :
      Nested part (.array ds) (.array vs)
  | object {ds : List (String × Json ν)} {vs : List (String × Json Number)}
      (h : List.Forall₂ (fun d v => d.1 = v.1 ∧ part d.2 v.2) ds vs) :
      Nested part (.object ds) (.object vs)

/-- **`Denotes`** -- what a document is read as that nests at most as deep as given. -/
def Denotes (num : ν → List Char) : Nat → Json ν → Json Number → Prop
  | 0, d, v => Leaf num d v
  | depth + 1, d, v => Leaf num d v ∨ Nested (Denotes num depth) d v

namespace Reader

variable {reader : List Char → Result} {part : Json ν → Json Number → Prop}

theorem prettyItems_cons (d : Json ν) (ds : List (Json ν)) (depth : Nat) (rest : List Char) :
    prettyItems num depth (d :: ds) ++ rest =
      ',' :: (lineStart depth ++ (pretty num depth d ++ (prettyItems num depth ds ++ rest))) := by
  simp [prettyItems]

theorem prettyMembers_cons (name : String) (d : Json ν) (ds : List (String × Json ν)) (depth : Nat)
    (rest : List Char) : prettyMembers num depth ((name, d) :: ds) ++ rest =
      ',' :: (lineStart depth ++
        (memberText name (pretty num depth d) ++ (prettyMembers num depth ds ++ rest))) := by
  simp [prettyMembers, memberText]

theorem pretty_array_cons (d : Json ν) (ds : List (Json ν)) (depth : Nat) (rest : List Char) :
    pretty num depth (.array (d :: ds)) ++ rest =
      '[' :: (lineStart (depth + 1) ++ (pretty num (depth + 1) d ++
        (prettyItems num (depth + 1) ds ++ (lineStart depth ++ ']' :: rest)))) := by
  simp [pretty]

theorem pretty_object_cons (name : String) (d : Json ν) (ds : List (String × Json ν)) (depth : Nat)
    (rest : List Char) : pretty num depth (.object ((name, d) :: ds)) ++ rest =
      '\x7b' :: (lineStart (depth + 1) ++ (memberText name (pretty num (depth + 1) d) ++
        (prettyMembers num (depth + 1) ds ++ (lineStart depth ++ '\x7d' :: rest)))) := by
  simp [pretty, memberText]

theorem ends_prettyItems (ds : List (Json ν)) (depth depth' : Nat) (rest : List Char) :
    Number.Ends (prettyItems num depth ds ++ (lineStart depth' ++ rest)) := by
  cases ds with
  | nil => exact Number.ends_cons (by decide)
  | cons d ds =>
      rw [prettyItems]
      exact Number.ends_cons (by decide)

theorem ends_prettyMembers (ds : List (String × Json ν)) (depth depth' : Nat) (rest : List Char) :
    Number.Ends (prettyMembers num depth ds ++ (lineStart depth' ++ rest)) := by
  cases ds with
  | nil => exact Number.ends_cons (by decide)
  | cons d ds =>
      rw [prettyMembers]
      exact Number.ends_cons (by decide)

/-- **`items_prettyItems`** -- the items after the first one, and the end of the list. -/
theorem items_prettyItems {depth fuel : Nat} {ds : List (Json ν)} {vs : List (Json Number)}
    (hpart : ∀ d v, part d v → Reads reader (pretty num depth d) v)
    (h : List.Forall₂ part ds vs) (hfuel : ds.length < fuel) (depth' : Nat) (rest : List Char) :
    items reader fuel false (prettyItems num depth ds ++ (lineStart depth' ++ ']' :: rest)) =
      .ok (vs, rest) := by
  induction h generalizing fuel with
  | nil =>
      obtain ⟨fuel, rfl⟩ : ∃ more, fuel = more + 1 := ⟨fuel - 1, by omega⟩
      exact items_end false depth' rest
  | @cons d v ds vs hd _ ih =>
      obtain ⟨fuel, rfl⟩ : ∃ more, fuel = more + 1 := ⟨fuel - 1, by omega⟩
      rw [List.length_cons] at hfuel
      have hmore := ih (Nat.lt_of_succ_lt_succ hfuel)
      rw [prettyItems_cons]
      exact items_comma (hpart d v hd) depth (ends_prettyItems ds depth depth' _) hmore

/-- **`members_prettyMembers`** -- the members after the first one, and the end of the object. -/
theorem members_prettyMembers {depth fuel : Nat} {ds : List (String × Json ν)}
    {vs : List (String × Json Number)}
    (hpart : ∀ d v, part d v → Reads reader (pretty num depth d) v)
    (hblank : ∀ cs, reader (' ' :: cs) = reader cs)
    (h : List.Forall₂ (fun d v => d.1 = v.1 ∧ part d.2 v.2) ds vs) (hfuel : ds.length < fuel)
    (depth' : Nat) (rest : List Char) :
    members reader fuel false
      (prettyMembers num depth ds ++ (lineStart depth' ++ '\x7d' :: rest)) = .ok (vs, rest) := by
  induction h generalizing fuel with
  | nil =>
      obtain ⟨fuel, rfl⟩ : ∃ more, fuel = more + 1 := ⟨fuel - 1, by omega⟩
      exact members_end false depth' rest
  | @cons d v ds vs hd _ ih =>
      obtain ⟨fuel, rfl⟩ : ∃ more, fuel = more + 1 := ⟨fuel - 1, by omega⟩
      obtain ⟨name, d⟩ := d
      obtain ⟨name, v⟩ := v
      obtain ⟨rfl, hd⟩ := hd
      rw [List.length_cons] at hfuel
      have hmore := ih (Nat.lt_of_succ_lt_succ hfuel)
      rw [prettyMembers_cons]
      exact members_comma name (hpart d v hd) hblank depth (ends_prettyMembers ds depth depth' _)
        hmore

theorem length_le_prettyItems (num : ν → List Char) (depth : Nat) (ds : List (Json ν)) :
    ds.length ≤ (prettyItems num depth ds).length := by
  induction ds with
  | nil => exact Nat.zero_le _
  | cons d ds ih =>
      simp only [prettyItems, List.length_append, List.length_cons]
      omega

theorem length_le_prettyMembers (num : ν → List Char) (depth : Nat)
    (ds : List (String × Json ν)) :
    ds.length ≤ (prettyMembers num depth ds).length := by
  induction ds with
  | nil => exact Nat.zero_le _
  | cons d ds ih =>
      simp only [prettyMembers, List.length_append, List.length_cons]
      omega

/-! ## Documents -/

theorem isBlank_of_isDigit {c : Char} (hc : c.isDigit = true) : isBlank c = false := by
  by_contra hblank
  simp only [isBlank, Bool.not_eq_false, decide_eq_true_eq] at hblank
  rcases hblank with rfl | rfl | rfl | rfl <;> exact absurd hc (by decide)

theorem valueWith_digit (inner : Option (List Char → Result)) {c : Char} (hc : c.isDigit = true)
    (cs : List Char) : valueWith inner (c :: cs) = numeric false (c :: cs) := by
  rw [valueWith, skipBlanks_of_not_isBlank (isBlank_of_isDigit hc)]
  split
  case h_1 heq => exact absurd heq nofun
  case h_9 heq =>
    obtain ⟨rfl, rfl⟩ := List.cons.inj heq
    exact if_pos hc
  all_goals
    next heq =>
      rw [(List.cons.inj heq).1] at hc
      exact absurd hc (by decide)

/-- A number begins with its sign or a digit. -/
theorem reads_number {inner : Option (List Char → Result)} {text : List Char} {x : Number}
    (h : Number.IsText text x) : Reads (valueWith inner) text (.number x) := by
  unfold Number.IsText Number.readSigned at h
  split at h
  case h_1 cs =>
    refine ⟨⟨'-', cs, rfl, rfl, by decide⟩, fun rest hrest => ?_⟩
    show numeric true (cs ++ rest) = _
    rw [numeric, Number.read_append hrest h]
    rfl
  case h_2 hsign =>
    obtain ⟨c, cs, rfl, hc⟩ := Number.exists_digit_of_read h
    have hend : c ≠ ']' := by
      rintro rfl
      exact absurd hc (by decide)
    refine ⟨⟨c, cs, rfl, isBlank_of_isDigit hc, hend⟩, fun rest hrest => ?_⟩
    rw [List.cons_append, valueWith_digit inner hc, ← List.cons_append, numeric,
      Number.read_append hrest h]
    rfl

/-- **`reads_leaf`** -- what is no list and no object is read at any depth. -/
theorem reads_leaf {inner : Option (List Char → Result)} {d : Json ν} {v : Json Number}
    (h : Leaf num d v) (depth : Nat) : Reads (valueWith inner) (pretty num depth d) v := by
  cases h with
  | null => exact ⟨⟨'n', _, rfl, rfl, by decide⟩, fun rest _ => rfl⟩
  | bool b =>
      cases b with
      | false => exact ⟨⟨'f', _, rfl, rfl, by decide⟩, fun rest _ => rfl⟩
      | true => exact ⟨⟨'t', _, rfl, rfl, by decide⟩, fun rest _ => rfl⟩
  | number h => exact reads_number h
  | string s =>
      refine ⟨⟨'"', _, rfl, rfl, by decide⟩, fun rest _ => ?_⟩
      have htext : pretty num depth (.string s) ++ rest =
          '"' :: (s.toList.flatMap escape ++ '"' :: rest) := by simp [pretty, quote]
      rw [htext]
      show (string _).bind _ = _
      rw [string_quoted]
      rfl

theorem valueWith_array {cs rest : List Char} {vs : List (Json Number)}
    (h : items reader (cs.length + 1) true cs = .ok (vs, rest)) :
    valueWith (some reader) ('[' :: cs) = .ok (.array vs, rest) := by
  show (items reader (cs.length + 1) true cs).bind _ = _
  rw [h]
  rfl

theorem valueWith_object {cs rest : List Char} {vs : List (String × Json Number)}
    (h : members reader (cs.length + 1) true cs = .ok (vs, rest)) :
    valueWith (some reader) ('\x7b' :: cs) = .ok (.object vs, rest) := by
  show (members reader (cs.length + 1) true cs).bind _ = _
  rw [h]
  rfl

theorem reads_array {depth : Nat} {ds : List (Json ν)} {vs : List (Json Number)}
    (hpart : ∀ d v, part d v → Reads reader (pretty num (depth + 1) d) v)
    (h : List.Forall₂ part ds vs) :
    Reads (valueWith (some reader)) (pretty num depth (.array ds)) (.array vs) := by
  cases h with
  | nil =>
      refine ⟨⟨'[', [']'], rfl, rfl, by decide⟩, fun rest _ => valueWith_array ?_⟩
      show items reader _ true (']' :: rest) = _
      rw [items, skipBlanks_of_not_isBlank rfl]
      exact if_pos rfl
  | @cons d v ds vs hd htail =>
      refine ⟨⟨'[', _, by rw [pretty]; rfl, rfl, by decide⟩, fun rest _ => ?_⟩
      have hlength := length_le_prettyItems num (depth + 1) ds
      rw [pretty_array_cons]
      refine valueWith_array (items_first (hpart d v hd) _ (ends_prettyItems ds _ _ _)
        (items_prettyItems hpart htail ?_ depth rest))
      simp only [List.length_append, List.length_cons]
      omega

theorem reads_object {depth : Nat} {ds : List (String × Json ν)} {vs : List (String × Json Number)}
    (hpart : ∀ d v, part d v → Reads reader (pretty num (depth + 1) d) v)
    (hblank : ∀ cs, reader (' ' :: cs) = reader cs)
    (h : List.Forall₂ (fun d v => d.1 = v.1 ∧ part d.2 v.2) ds vs) :
    Reads (valueWith (some reader)) (pretty num depth (.object ds)) (.object vs) := by
  cases h with
  | nil =>
      refine ⟨⟨'\x7b', ['\x7d'], rfl, rfl, by decide⟩, fun rest _ => valueWith_object ?_⟩
      show members reader _ true ('\x7d' :: rest) = _
      rw [members, skipBlanks_of_not_isBlank rfl]
      exact if_pos rfl
  | @cons d v ds vs hd htail =>
      obtain ⟨name, d⟩ := d
      obtain ⟨name, v⟩ := v
      obtain ⟨rfl, hd⟩ := hd
      refine ⟨⟨'\x7b', _, by rw [pretty]; rfl, rfl, by decide⟩, fun rest _ => ?_⟩
      have hlength := length_le_prettyMembers num (depth + 1) ds
      rw [pretty_object_cons]
      refine valueWith_object (members_first name (hpart d v hd) hblank _
        (ends_prettyMembers ds _ _ _) (members_prettyMembers hpart hblank htail ?_ depth rest))
      simp only [List.length_append, List.length_cons]
      omega

/-- **`reads_nested`** -- lists and objects are read if their parts are. -/
theorem reads_nested {d : Json ν} {v : Json Number}
    (hpart : ∀ d v, part d v → ∀ depth, Reads reader (pretty num depth d) v)
    (hblank : ∀ cs, reader (' ' :: cs) = reader cs) (h : Nested part d v) (depth : Nat) :
    Reads (valueWith (some reader)) (pretty num depth d) v := by
  cases h with
  | array h => exact reads_array (fun d v hd => hpart d v hd _) h
  | object h => exact reads_object (fun d v hd => hpart d v hd _) hblank h

/-- **`value_pretty`** -- a document that is not too deep is read, whatever follows it. -/
theorem value_pretty {depth : Nat} {d : Json ν} {v : Json Number} (h : Denotes num depth d v)
    (indent : Nat) : Reads (value depth) (pretty num indent d) v := by
  induction depth generalizing d v indent with
  | zero => exact reads_leaf h indent
  | succ depth ih =>
      have hblank : ∀ cs, value depth (' ' :: cs) = value depth cs := by
        cases depth <;> exact valueWith_blank _
      rcases h with hleaf | hnested
      · exact reads_leaf hleaf indent
      · exact reads_nested (fun d v h => ih h) hblank hnested indent

end Reader

/-- **`read_pretty`** -- a document that is the whole text. -/
theorem read_pretty {d : Json ν} {v : Json Number} (h : Denotes num Reader.greatestDepth d v) :
    read (String.ofList (d.pretty num 0)) = .ok v := by
  have hvalue := (Reader.value_pretty h 0).takes [] nofun
  rw [List.append_nil] at hvalue
  rw [read, String.toList_ofList, hvalue]
  rfl

end SharedCells.Json

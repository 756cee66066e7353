/-
# SharedCells.Text.Utf8 -- bytes that may be text

The names of files are bytes, and nothing says that the bytes are a text. `Utf8.encode` gives the
bytes of a text, and `Utf8.decode?` the text of bytes that are one.

Bytes have to be shown to a user in any case. `Utf8.shown` keeps the characters in them, and puts
the replacement character where a character breaks off: one for its first byte and those of the
next that still belong to it. Of a text this is the text itself: `shown_encode`.
-/

namespace SharedCells.Utf8

/-! ## Texts as bytes -/

/-- **`encode`** -- the bytes of a text. -/
def encode (text : String) : List UInt8 := text.toUTF8.data.toList

/-- **`decode?`** -- the text that the bytes are, if they are one. -/
def decode? (bytes : List UInt8) : Option String := String.fromUTF8? ⟨⟨bytes⟩⟩

theorem encode_injective {s t : String} (h : encode s = encode t) : s = t := by
  rw [← String.toByteArray_inj]
  exact congrArg (fun bytes => ByteArray.mk ⟨bytes⟩) h

theorem decode?_encode (text : String) : decode? (encode text) = some text :=
  dif_pos text.isValidUTF8

/-- Only the bytes of a text are read as that text. -/
theorem decode?_eq_some_iff {bytes : List UInt8} {text : String} :
    decode? bytes = some text ↔ bytes = encode text := by
  constructor
  · intro h
    unfold decode? String.fromUTF8? at h
    split at h
    case isTrue => exact congrArg encode (Option.some.inj h)
    case isFalse => exact absurd h nofun
  · rintro rfl
    exact decode?_encode text

/-- The bytes of a text are those of its characters in turn. -/
theorem encode_eq_flatMap (text : String) :
    encode text = text.toList.flatMap String.utf8EncodeChar := by
  rw [encode, String.toUTF8_eq_toByteArray, ← String.utf8Encode_toList, List.utf8Encode,
    List.toList_data_toByteArray]

/-! ## Bytes shown as text -/

/-- The range of a byte that goes on with a character. -/
def tail : UInt8 × UInt8 := (0x80, 0xBF)

/-- **`owed`** -- the bytes that have to follow a first byte, each with its range. -/
def owed (first : UInt8) : List (UInt8 × UInt8) :=
  if first < 0xC2 then []
  else if first ≤ 0xDF then [tail]
  else if first = 0xE0 then [(0xA0, 0xBF), tail]
  else if first = 0xED then [(0x80, 0x9F), tail]
  else if first ≤ 0xEF then [tail, tail]
  else if first = 0xF0 then [(0x90, 0xBF), tail, tail]
  else if first ≤ 0xF3 then [tail, tail, tail]
  else if first = 0xF4 then [(0x80, 0x8F), tail, tail]
  else []

/-- How many of the next bytes belong to a first byte. -/
def belonging (first : UInt8) (rest : List UInt8) : Nat :=
  ((rest.zip (owed first)).takeWhile fun (b, low, high) => low ≤ b && b ≤ high).length

/-- The characters shown for bytes, of which some were dealt with before. -/
def shownFrom (done : Nat) : List UInt8 → List Char
  | [] => []
  | first :: rest =>
    match done with
    | done + 1 => shownFrom done rest
    | 0 =>
      match ByteArray.utf8DecodeChar? ⟨⟨first :: rest⟩⟩ 0 with
      | some c => c :: shownFrom (c.utf8Size - 1) rest
      | none => '\ufffd' :: shownFrom (belonging first rest) rest

/-- **`shown`** -- the bytes as a text, with replacement characters where they are none. -/
def shown (bytes : List UInt8) : String := String.ofList (shownFrom 0 bytes)

theorem shownFrom_done (before rest : List UInt8) :
    shownFrom before.length (before ++ rest) = shownFrom 0 rest := by
  induction before with
  | nil => rfl
  | cons b before ih =>
      rw [List.cons_append, List.length_cons, shownFrom]
      exact ih

theorem decodeChar?_utf8EncodeChar (c : Char) (rest : List UInt8) :
    ByteArray.utf8DecodeChar? ⟨⟨String.utf8EncodeChar c ++ rest⟩⟩ 0 = some c := by
  have hbytes : (⟨⟨String.utf8EncodeChar c ++ rest⟩⟩ : ByteArray) =
      (String.utf8EncodeChar c).toByteArray ++ ⟨⟨rest⟩⟩ := by
    apply ByteArray.ext
    simp
  rw [hbytes]
  exact ByteArray.utf8DecodeChar?_utf8EncodeChar_append

/-- The bytes of a character are shown as that character. -/
theorem shownFrom_utf8EncodeChar (c : Char) (rest : List UInt8) :
    shownFrom 0 (String.utf8EncodeChar c ++ rest) = c :: shownFrom 0 rest := by
  have hdecode := decodeChar?_utf8EncodeChar c rest
  have hlength := String.length_utf8EncodeChar c
  cases hbytes : String.utf8EncodeChar c with
  | nil =>
      rw [hbytes] at hlength
      exact absurd hlength (Nat.ne_of_lt c.utf8Size_pos)
  | cons first more =>
      rw [hbytes] at hdecode hlength
      rw [List.cons_append] at hdecode ⊢
      rw [shownFrom, hdecode]
      dsimp only
      rw [← hlength, List.length_cons, Nat.add_sub_cancel, shownFrom_done]

/-- **`shown_encode`** -- a text is shown as it is. -/
theorem shown_encode (text : String) : shown (encode text) = text := by
  have hchars : ∀ cs : List Char, shownFrom 0 (cs.flatMap String.utf8EncodeChar) = cs := by
    intro cs
    induction cs with
    | nil => rfl
    | cons c cs ih => rw [List.flatMap_cons, shownFrom_utf8EncodeChar, ih]
  rw [shown, encode_eq_flatMap, hchars, String.ofList_toList]

/-- A byte that begins nothing, and two characters that break off after two bytes and after one. -/
example : shown [0x61, 0xFF, 0xE2, 0x82, 0x62, 0xED, 0xA0, 0xC3, 0xA9] = "a��b��é" := by
  decide +kernel

end SharedCells.Utf8

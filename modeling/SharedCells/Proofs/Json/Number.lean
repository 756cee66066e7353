/-
# SharedCells.Proofs.Json.Number -- a number with text behind it

The reader of numbers takes as much as it can. So a text that is a number is read as the same number
where more text follows, as long as the next character cannot go on with it (`Ends`). This is shown
for one reader after another, in the form in which each calls the next.

* `read_append` : a number is read the same whatever ends it.
* `read_decimal` : a count is read as the number that was written.
* `exists_read_point` : a decimal with a point is read as some number, unless it is too great.
-/

import Mathlib.Data.List.TakeWhile
import SharedCells.Json.Number
import SharedCells.Proofs.Rate.Worth
import SharedCells.Width

namespace SharedCells.Json.Number

variable {negative : Bool} {significand skipped first bound n : Nat} {exponent : Int}
  {cs left rest : List Char} {x : Number}

/-! ## Where digits end -/

/-- The text does not begin with a digit. -/
def NoDigit (rest : List Char) : Prop := ∀ c ∈ rest.head?, c.isDigit = false

/-- **`Ends`** -- the text does not begin with anything that could belong to a number before it. -/
def Ends (rest : List Char) : Prop :=
  ∀ c ∈ rest.head?, c.isDigit = false ∧ c ≠ '.' ∧ c ≠ 'e' ∧ c ≠ 'E'

theorem ends_cons {c : Char} (h : c.isDigit = false ∧ c ≠ '.' ∧ c ≠ 'e' ∧ c ≠ 'E') :
    Ends (c :: rest) := by
  intro d hd
  rwa [← Option.some.inj hd]

theorem Ends.noDigit (h : Ends rest) : NoDigit rest := fun c hc => (h c hc).1

theorem Ends.ne_cons {c : Char} (h : Ends rest) (hc : c = '.' ∨ c = 'e' ∨ c = 'E') :
    ∀ more, rest ≠ c :: more := by
  rintro more rfl
  obtain ⟨-, hpoint, hsmall, hbig⟩ := h c rfl
  rcases hc with rfl | rfl | rfl <;> contradiction

theorem digit?_of_not_isDigit {c : Char} (h : c.isDigit = false) : Numeral.digit? c = none := by
  rw [Numeral.digit?, h, if_neg Bool.false_ne_true]

theorem takeDigits_of_noDigit (h : NoDigit rest) : takeDigits bound n rest = (n, 0, rest) := by
  cases rest with
  | nil => rfl
  | cons c rest => rw [takeDigits, digit?_of_not_isDigit (h c rfl)]

/-- Digits are taken from the text in front. -/
theorem takeDigits_append (h : NoDigit rest) (n : Nat) (cs : List Char) :
    takeDigits bound n (cs ++ rest) = ((takeDigits bound n cs).1, (takeDigits bound n cs).2.1,
      (takeDigits bound n cs).2.2 ++ rest) := by
  induction cs generalizing n with
  | nil => exact takeDigits_of_noDigit h
  | cons c cs ih =>
      rw [List.cons_append, takeDigits, takeDigits]
      cases Numeral.digit? c with
      | none => rfl
      | some d =>
          dsimp only
          split
          case isTrue => rw [ih]
          case isFalse => rfl

theorem takeWhile_of_noDigit (h : NoDigit rest) : rest.takeWhile Char.isDigit = [] := by
  cases rest with
  | nil => rfl
  | cons c rest => rw [List.takeWhile_cons_of_neg (by simp [h c rfl])]

theorem dropWhile_of_noDigit (h : NoDigit rest) : rest.dropWhile Char.isDigit = rest := by
  cases rest with
  | nil => rfl
  | cons c rest => rw [List.dropWhile_cons_of_neg (by simp [h c rfl])]

theorem skipDigits_append (h : NoDigit rest) (cs : List Char) :
    skipDigits (cs ++ rest) = ((skipDigits cs).1, (skipDigits cs).2 ++ rest) := by
  induction cs with
  | nil => simp [skipDigits, takeWhile_of_noDigit h, dropWhile_of_noDigit h]
  | cons c cs ih =>
      simp only [skipDigits, Prod.mk.injEq, List.cons_append] at ih ⊢
      by_cases hc : c.isDigit = true
      · rw [List.takeWhile_cons_of_pos hc, List.takeWhile_cons_of_pos hc,
          List.dropWhile_cons_of_pos hc, List.dropWhile_cons_of_pos hc, List.length_cons,
          List.length_cons, ih.1, ih.2]
        exact ⟨rfl, rfl⟩
      · rw [List.takeWhile_cons_of_neg hc, List.takeWhile_cons_of_neg hc,
          List.dropWhile_cons_of_neg hc, List.dropWhile_cons_of_neg hc]
        exact ⟨rfl, rfl⟩

/-! ## One reader after another -/

/-- The text left over has no part in the number. -/
theorem ofParts_ok (h : ofParts negative significand exponent cs = .ok (x, left)) :
    left = cs ∧ ∀ cs', ofParts negative significand exponent cs' = .ok (x, cs') := by
  dsimp only [ofParts] at h ⊢
  split at h
  case isTrue hneg =>
    obtain ⟨rfl, rfl⟩ := Prod.mk.inj (Except.ok.inj h)
    exact ⟨rfl, fun cs' => if_pos hneg⟩
  case isFalse hneg =>
    split at h
    case isTrue hgreat =>
      split at h
      case isTrue hzero =>
        obtain ⟨rfl, rfl⟩ := Prod.mk.inj (Except.ok.inj h)
        refine ⟨rfl, fun cs' => ?_⟩
        rw [if_neg hneg, if_pos hgreat, if_pos hzero]
      case isFalse => exact absurd h nofun
    case isFalse hgreat =>
      split at h
      case h_1 => exact absurd h nofun
      case h_2 hfinite =>
        obtain ⟨rfl, rfl⟩ := Prod.mk.inj (Except.ok.inj h)
        refine ⟨rfl, fun cs' => ?_⟩
        rw [if_neg hneg, if_neg hgreat]

theorem ofParts_append (h : ofParts negative significand exponent cs = .ok (x, left)) :
    ofParts negative significand exponent (cs ++ rest) = .ok (x, left ++ rest) := by
  obtain ⟨rfl, hany⟩ := ofParts_ok h
  exact hany _

/-- **`exponentDigits`** -- the exponent after its sign; `down` says that it is negative. -/
def exponentDigits (negative : Bool) (significand : Nat) (start : Int) (down : Bool) :
    List Char → Result
  | [] => .error ⟨.unfinishedValue, [], 0⟩
  | c :: rest =>
    match Numeral.digit? c with
    | none => .error ⟨.invalidNumber, c :: rest, 1⟩
    | some d =>
      let (written, _, rest) := takeDigits (exponentBound + 1) d rest
      let (more, left) := skipDigits rest
      if 0 < more then
        if significand ≠ 0 ∧ !down then .error ⟨.numberOutOfRange, rest, 1⟩
        else .ok (signed negative (.ofNat 0), left)
      else
        let exponent := clampExponent (if down then start - written else start + written)
        ofParts negative significand exponent rest

theorem readExponent_eq (cs : List Char) : readExponent negative significand exponent cs =
    match cs with
    | '+' :: rest => exponentDigits negative significand exponent false rest
    | '-' :: rest => exponentDigits negative significand exponent true rest
    | rest => exponentDigits negative significand exponent false rest := by
  have hsplit : readExponent negative significand exponent cs =
      Function.uncurry (exponentDigits negative significand exponent)
        (match cs with
          | '+' :: rest => (false, rest)
          | '-' :: rest => (true, rest)
          | rest => (false, rest)) := rfl
  rw [hsplit]
  split <;> rfl

theorem exponentDigits_append {down : Bool} (hrest : NoDigit rest)
    (h : exponentDigits negative significand exponent down cs = .ok (x, left)) :
    exponentDigits negative significand exponent down (cs ++ rest) = .ok (x, left ++ rest) := by
  cases cs with
  | nil => exact absurd h nofun
  | cons c cs =>
      rw [List.cons_append]
      dsimp only [exponentDigits] at h ⊢
      cases hc : Numeral.digit? c with
      | none =>
          rw [hc] at h
          exact absurd h nofun
      | some d =>
          rw [hc] at h
          dsimp only at h ⊢
          rw [takeDigits_append hrest, skipDigits_append hrest]
          dsimp only
          split at h
          case isTrue hmore =>
            rw [if_pos hmore]
            split at h
            case isTrue => exact absurd h nofun
            case isFalse hzero =>
              obtain ⟨rfl, rfl⟩ := Prod.mk.inj (Except.ok.inj h)
              rw [if_neg hzero]
          case isFalse hmore =>
            rw [if_neg hmore]
            exact ofParts_append h

/-- The first character of a text with more behind it. -/
theorem append_ne_cons {c : Char} (hcs : ∀ more, cs ≠ c :: more)
    (hrest : ∀ more, rest ≠ c :: more) : ∀ more, cs ++ rest ≠ c :: more := by
  cases cs with
  | nil => exact hrest
  | cons d cs =>
      intro more heq
      exact hcs cs (by rw [(List.cons.inj heq).1])

theorem readExponent_append (hrest : NoDigit rest)
    (h : readExponent negative significand exponent cs = .ok (x, left)) :
    readExponent negative significand exponent (cs ++ rest) = .ok (x, left ++ rest) := by
  rw [readExponent_eq] at h ⊢
  split at h
  case h_1 => exact exponentDigits_append hrest h
  case h_2 => exact exponentDigits_append hrest h
  case h_3 hplus hminus =>
    rw [← exponentDigits_append hrest h]
    cases cs with
    | nil => exact absurd h nofun
    | cons c cs =>
        split
        case h_1 heq => exact absurd (by rw [(List.cons.inj heq).1]) (hplus cs)
        case h_2 heq => exact absurd (by rw [(List.cons.inj heq).1]) (hminus cs)
        case h_3 => rfl

theorem readTail_append (hrest : Ends rest)
    (h : readTail negative significand exponent cs = .ok (x, left)) :
    readTail negative significand exponent (cs ++ rest) = .ok (x, left ++ rest) := by
  unfold readTail at h
  split at h
  case h_1 => exact readExponent_append hrest.noDigit h
  case h_2 => exact readExponent_append hrest.noDigit h
  case h_3 hsmall hbig =>
    rw [← ofParts_append h]
    unfold readTail
    split
    case h_1 more heq => exact absurd heq (append_ne_cons hsmall (hrest.ne_cons (by simp)) more)
    case h_2 more heq => exact absurd heq (append_ne_cons hbig (hrest.ne_cons (by simp)) more)
    case h_3 => rfl

theorem readFraction_append (hrest : Ends rest)
    (h : readFraction negative significand exponent cs = .ok (x, left)) :
    readFraction negative significand exponent (cs ++ rest) = .ok (x, left ++ rest) := by
  dsimp only [readFraction] at h ⊢
  rw [takeDigits_append hrest.noDigit, skipDigits_append hrest.noDigit]
  dsimp only
  split at h
  case isTrue => split at h <;> exact absurd h nofun
  case isFalse hdigits =>
    rw [if_neg hdigits]
    exact readTail_append hrest h

theorem readRest_append (hrest : Ends rest)
    (h : readRest negative significand skipped cs = .ok (x, left)) :
    readRest negative significand skipped (cs ++ rest) = .ok (x, left ++ rest) := by
  unfold readRest at h
  split at h
  case h_1 => exact readFraction_append hrest h
  case h_2 hpoint =>
    rw [← readTail_append hrest h]
    unfold readRest
    split
    case h_1 more heq => exact absurd heq (append_ne_cons hpoint (hrest.ne_cons (by simp)) more)
    case h_2 => rfl

theorem readWhole_append (hrest : Ends rest)
    (h : readWhole negative first cs = .ok (x, left)) :
    readWhole negative first (cs ++ rest) = .ok (x, left ++ rest) := by
  dsimp only [readWhole] at h ⊢
  rw [takeDigits_append hrest.noDigit, skipDigits_append hrest.noDigit]
  dsimp only
  split at h
  case isTrue hmore =>
    rw [if_pos hmore]
    exact readRest_append hrest h
  case isFalse hmore =>
    rw [if_neg hmore]
    split at h
    case h_4 hpoint hsmall hbig =>
      obtain ⟨rfl, rfl⟩ := Prod.mk.inj (Except.ok.inj h)
      split
      case h_1 more heq => exact absurd heq (append_ne_cons hpoint (hrest.ne_cons (by simp)) more)
      case h_2 more heq => exact absurd heq (append_ne_cons hsmall (hrest.ne_cons (by simp)) more)
      case h_3 more heq => exact absurd heq (append_ne_cons hbig (hrest.ne_cons (by simp)) more)
      case h_4 => rfl
    all_goals
      next heq =>
        rw [heq] at h ⊢
        exact readRest_append hrest h

/-- **`read_append`** -- a number is read the same whatever ends it. -/
theorem read_append (hrest : Ends rest) (h : read negative cs = .ok (x, left)) :
    read negative (cs ++ rest) = .ok (x, left ++ rest) := by
  unfold read at h
  split at h
  case h_1 => exact absurd h nofun
  case h_2 more =>
    split at h
    case h_1 c more =>
      split at h
      case isTrue => exact absurd h nofun
      case isFalse hdigit =>
        rw [List.cons_append, List.cons_append, read, if_neg hdigit]
        exact readWhole_append hrest h
    case h_2 =>
      have happend := readWhole_append hrest h
      cases rest with
      | nil => exact happend
      | cons c rest =>
          rw [List.cons_append, List.nil_append, read, hrest.noDigit c rfl,
            if_neg Bool.false_ne_true]
          exact happend
  case h_3 c more hzero =>
    split at h
    case h_2 => exact absurd h nofun
    case h_1 d hd =>
      rw [List.cons_append, read]
      · rw [hd]
        exact readWhole_append hrest h
      · exact hzero

/-- A number without its sign begins with a digit. -/
theorem exists_digit_of_read (h : read negative cs = .ok (x, left)) :
    ∃ c more, cs = c :: more ∧ c.isDigit = true := by
  unfold read at h
  split at h
  case h_1 => exact absurd h nofun
  case h_2 more => exact ⟨'0', more, rfl, rfl⟩
  case h_3 c more _ =>
    refine ⟨c, more, rfl, ?_⟩
    by_contra hc
    rw [digit?_of_not_isDigit (Bool.eq_false_of_not_eq_true hc)] at h
    exact absurd h nofun

/-! ## Decimals -/

theorem digit?_of_isDigit {c : Char} (h : c.isDigit = true) :
    Numeral.digit? c = some (c.toNat - 48) := by
  rw [Numeral.digit?, if_pos h]

theorem digit_lt_ten {c : Char} (h : c.isDigit = true) : c.toNat - 48 < 10 := by
  simp only [Char.isDigit, Bool.and_eq_true, decide_eq_true_eq] at h
  have hle : c.toNat ≤ '9'.toNat := h.2
  have hnine : '9'.toNat = 57 := rfl
  omega

theorem ofDigitChars_cons (n : Nat) (c : Char) (cs : List Char) :
    Nat.ofDigitChars 10 (c :: cs) n = Nat.ofDigitChars 10 cs (10 * n + (c.toNat - 48)) :=
  Nat.ofDigitChars_cons

/-- A number does not get smaller by digits behind it. -/
theorem le_ofDigitChars (n : Nat) (cs : List Char) : n ≤ Nat.ofDigitChars 10 cs n := by
  rw [Nat.ofDigitChars_eq_ofDigitChars_zero]
  have hone : 1 ≤ 10 ^ cs.length := Nat.one_le_pow _ _ (by decide)
  have hmul := Nat.le_mul_of_pos_left n hone
  omega

/-- All digits are taken if the number that they make fits. -/
theorem takeDigits_of_fits (hcs : ∀ c ∈ cs, c.isDigit = true)
    (h : Nat.ofDigitChars 10 cs n < bound) :
    takeDigits bound n cs = (Nat.ofDigitChars 10 cs n, cs.length, []) := by
  induction cs generalizing n with
  | nil => rfl
  | cons c cs ih =>
      obtain ⟨hc, hcs⟩ := List.forall_mem_cons.mp hcs
      rw [ofDigitChars_cons] at h ⊢
      have hnext : 10 * n + (c.toNat - 48) < bound := (le_ofDigitChars _ cs).trans_lt h
      rw [takeDigits, digit?_of_isDigit hc]
      dsimp only
      rw [if_pos hnext, ih hcs h]
      rfl

/-- Of digits some are taken, and the others are left. -/
theorem takeDigits_of_digits (hn : n < bound) (hcs : ∀ c ∈ cs, c.isDigit = true) :
    ∃ m taken more, takeDigits bound n cs = (m, taken, more) ∧ m < bound ∧
      taken + more.length = cs.length ∧ ∀ c ∈ more, c.isDigit = true := by
  induction cs generalizing n with
  | nil => exact ⟨n, 0, [], rfl, hn, rfl, hcs⟩
  | cons c cs ih =>
      obtain ⟨hc, hcs'⟩ := List.forall_mem_cons.mp hcs
      by_cases hfits : 10 * n + (c.toNat - 48) < bound
      · obtain ⟨m, taken, more, htake, hm, hlength, hmore⟩ := ih hfits hcs'
        refine ⟨m, taken + 1, more, ?_, hm, ?_, hmore⟩
        · rw [takeDigits, digit?_of_isDigit hc]
          dsimp only
          rw [if_pos hfits, htake]
        · rw [List.length_cons]
          omega
      · refine ⟨n, 0, c :: cs, ?_, hn, Nat.zero_add _, hcs⟩
        rw [takeDigits, digit?_of_isDigit hc]
        exact if_neg hfits

theorem skipDigits_of_digits (hcs : ∀ c ∈ cs, c.isDigit = true) :
    skipDigits cs = (cs.length, []) := by
  have htake : cs.takeWhile Char.isDigit = cs := List.takeWhile_eq_self_iff.mpr hcs
  have hdrop : cs.dropWhile Char.isDigit = [] := List.dropWhile_eq_nil_iff.mpr hcs
  rw [skipDigits, htake, hdrop]

/-- Only the digits of zero begin with one. -/
theorem head?_decimal {n : Nat} (hn : n ≠ 0) : (Numeral.decimal n).head? ≠ some '0' := by
  have hdigit : ∀ d < 10, d ≠ 0 → d.digitChar ≠ '0' := by decide
  induction n using Nat.strongRecOn with
  | _ n ih =>
      rcases Nat.lt_or_ge n 10 with hlt | hge
      · rw [Numeral.decimal, Nat.toDigits_of_lt_base hlt]
        exact fun h => hdigit n hlt hn (Option.some.inj h)
      · rw [Numeral.decimal, Nat.toDigits_of_base_le (by decide) hge,
          List.head?_append_of_ne_nil _ Nat.toDigits_ne_nil]
        exact ih (n / 10) (Nat.div_lt_self (by omega) (by decide)) (by omega)

/-- **`read_decimal_append`** -- reading the digits of a number begins with the first one, and goes
on with the others. -/
theorem read_decimal_append (negative : Bool) (n : Nat) : ∃ first digits, first < 10 ∧
    (∀ c ∈ digits, c.isDigit = true) ∧ digits.length < (Numeral.decimal n).length ∧
      Nat.ofDigitChars 10 digits first = n ∧
        ∀ rest, NoDigit rest →
          read negative (Numeral.decimal n ++ rest) =
            readWhole negative first (digits ++ rest) := by
  rcases Nat.eq_zero_or_pos n with rfl | hn
  · refine ⟨0, [], by decide, nofun, by decide, rfl, fun rest hrest => ?_⟩
    show read negative ('0' :: rest) = _
    cases rest with
    | nil => rfl
    | cons c rest =>
        rw [read, hrest c rfl, if_neg Bool.false_ne_true]
        rfl
  · have hall : ∀ c ∈ Numeral.decimal n, c.isDigit = true := fun c hc =>
      Numeral.isDigit_of_mem_decimal hc
    have hhead := head?_decimal hn.ne'
    have hvalue : Nat.ofDigitChars 10 (Numeral.decimal n) 0 = n :=
      Nat.ofDigitChars_toDigits (by decide) (by decide)
    cases hdecimal : Numeral.decimal n with
    | nil => exact absurd hdecimal (Numeral.decimal_ne_nil n)
    | cons c digits =>
        rw [hdecimal] at hall hhead hvalue
        obtain ⟨hc, hdigits⟩ := List.forall_mem_cons.mp hall
        refine ⟨c.toNat - 48, digits, digit_lt_ten hc, hdigits, ?_, ?_, fun rest _ => ?_⟩
        · rw [List.length_cons]
          omega
        · rw [ofDigitChars_cons, Nat.mul_zero, Nat.zero_add] at hvalue
          exact hvalue
        · rw [List.cons_append, read]
          · rw [digit?_of_isDigit hc]
          · rintro rfl
            exact hhead rfl

/-- **`read_decimal`** -- a count is read as it was written. -/
theorem read_decimal {n : Nat} (hn : n < wordBound) :
    read false (Numeral.decimal n) = .ok (.natural n, []) := by
  obtain ⟨first, digits, -, hdigits, -, hvalue, hread⟩ := read_decimal_append false n
  have hall := hread [] nofun
  rw [List.append_nil, List.append_nil] at hall
  rw [hall]
  dsimp only [readWhole]
  rw [takeDigits_of_fits hdigits (by rw [hvalue]; exact hn), hvalue]
  rfl

/-- Where the exponent is not too great, nothing is out of range. -/
theorem exists_ofParts (negative : Bool) (hsignificand : significand < wordBound)
    (hexponent : exponent ≤ 30) (cs : List Char) :
    ∃ x, ofParts negative significand exponent cs = .ok (x, cs) := by
  dsimp only [ofParts]
  by_cases hneg : exponent < 0
  · exact ⟨_, if_pos hneg⟩
  rw [if_neg hneg, if_neg (by omega)]
  have hpower : 10 ^ exponent.toNat ≤ 2 ^ 100 :=
    (Nat.pow_le_pow_right (by decide) (by omega : exponent.toNat ≤ 30)).trans (by decide)
  have hwhole : significand ≤ 2 ^ 100 := (Nat.le_of_lt hsignificand).trans (by decide)
  obtain ⟨s, m, e, hfinite⟩ := Binary64.isFinite_mul_ofNat hwhole hpower
  have hmul : (Binary64.ofNat significand).mul (Binary64.powerOfTen exponent.toNat) =
    .finite s m e := hfinite
  exact ⟨_, by rw [hmul]⟩

/-- Digits behind a point are a number, however many there are. -/
theorem exists_readFraction (negative : Bool) (hsignificand : significand < wordBound)
    (hexponent : exponent ≤ 30) (hne : cs ≠ []) (hcs : ∀ c ∈ cs, c.isDigit = true) :
    ∃ x, readFraction negative significand exponent cs = .ok (x, []) := by
  obtain ⟨m, taken, more, htake, hm, hlength, hmore⟩ := takeDigits_of_digits hsignificand hcs
  have hsome : ¬ (taken = 0 ∧ more.length = 0) := by
    rintro ⟨rfl, hzero⟩
    rw [hzero] at hlength
    exact hne (List.eq_nil_of_length_eq_zero hlength.symm)
  have hlower : exponent - taken ≤ 30 := by omega
  obtain ⟨x, hx⟩ := exists_ofParts negative hm hlower []
  refine ⟨x, ?_⟩
  dsimp only [readFraction]
  rw [htake]
  dsimp only
  rw [skipDigits_of_digits hmore]
  dsimp only
  rw [if_neg hsome]
  exact hx

/-- **`exists_read_point`** -- a decimal is read, whole part, point and places. -/
theorem exists_read_point (negative : Bool) {n : Nat} (hn : (Numeral.decimal n).length ≤ 30)
    {places : List Char} (hne : places ≠ []) (hplaces : ∀ c ∈ places, c.isDigit = true) :
    ∃ x, read negative (Numeral.decimal n ++ '.' :: places) = .ok (x, []) := by
  have hpoint : NoDigit ('.' :: places) := by
    intro c hc
    rw [← Option.some.inj hc]
    rfl
  obtain ⟨first, digits, hfirst, hdigits, hlength, -, hread⟩ := read_decimal_append negative n
  rw [hread _ hpoint]
  have hsmall : first < wordBound := hfirst.trans (by decide)
  obtain ⟨m, taken, more, htake, hm, hsum, hmore⟩ := takeDigits_of_digits hsmall hdigits
  have hskip : skipDigits (more ++ '.' :: places) = (more.length, '.' :: places) := by
    rw [skipDigits_append hpoint, skipDigits_of_digits hmore]
    rfl
  -- The digits that do not fit are skipped, and raise the exponent by one each.
  have hexponent : (more.length : Int) ≤ 30 := by omega
  obtain ⟨x, hx⟩ := exists_readFraction negative hm hexponent hne hplaces
  refine ⟨x, ?_⟩
  dsimp only [readWhole]
  rw [takeDigits_append hpoint, htake]
  dsimp only
  rw [hskip]
  dsimp only
  split
  case isTrue => exact hx
  case isFalse hnone =>
    have hmore : more = [] := List.eq_nil_of_length_eq_zero (by omega)
    subst hmore
    exact hx

/-! ## Numbers with their sign -/

/-- A number, perhaps with a minus sign. -/
def readSigned : List Char → Result
  | '-' :: cs => read true cs
  | cs => read false cs

/-- **`IsText`** -- the text is one number, from its beginning to its end. -/
def IsText (cs : List Char) (x : Number) : Prop := readSigned cs = .ok (x, [])

/-- A text that is read without a sign does not begin with one. -/
theorem isText_of_read (h : read false cs = .ok (x, [])) : IsText cs x := by
  unfold IsText readSigned
  split
  case h_1 => exact absurd h nofun
  case h_2 => exact h

theorem isText_decimal (n : Value .word) :
    IsText (Numeral.decimal n.toNat) (.natural n.toNat) := isText_of_read (read_decimal n.isLt)

end SharedCells.Json.Number

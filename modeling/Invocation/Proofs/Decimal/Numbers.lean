/-
  Texts that denote numbers.

  * `Decimal.decimalValue`: the value of digits by their places;
  * `Decimal.IsWhole`, `Decimal.IsPoint`: the texts of whole numbers and of
    numbers with a point; no text is both (`Decimal.not_isPoint`);
  * `castInt?_eq_some_iff`, `castFloat?_isSome_iff`: these texts are cast, whole
    numbers within 64 bits;
  * `Decimal.readWhole?`: reading digit by digit, where every multiplication and
    every addition is checked; `castInt?_eq_readWhole?`: it reads the same
    numbers.
-/
import Invocation.Proofs.Signature.Specifiers
import Invocation.TypeRegistry
import Mathlib.Data.Nat.Digits.Defs

namespace Invocation

namespace Decimal

/-! ## Digits -/

/-- The value of digits by their places: the last one counts once, the one before it ten times, and so on. -/
def decimalValue (digits : List Char) : Nat := Nat.ofDigits 10 (digits.reverse.map digitValue)

theorem digitsValue_eq_decimalValue (digits : List Char) : digitsValue digits = decimalValue digits := by
  induction digits using List.reverseRecOn with
  | nil => rfl
  | append_singleton digits c ih =>
    rw [decimalValue, List.reverse_append, List.reverse_singleton, List.singleton_append, List.map_cons,
      Nat.ofDigits_cons, ← decimalValue, ← ih, digitsValue, List.foldl_append, List.foldl_cons,
      List.foldl_nil, ← digitsValue, Nat.add_comm]

theorem isDigit_of_mem_digitChars {n : Nat} {c : Char} (h : c ∈ digitChars n) : isDigit c = true := by
  have hdigit := Nat.isDigit_of_mem_toDigits (by decide) (by decide) h
  simp only [Char.isDigit, isDigit, Bool.and_eq_true, decide_eq_true_eq] at hdigit ⊢
  exact hdigit

theorem decimalValue_digitChars (n : Nat) : decimalValue (digitChars n) = n := by
  rw [← digitsValue_eq_decimalValue, digitsValue_eq_ofDigitChars]
  exact Nat.ofDigitChars_toDigits (by decide) (by decide)

/-! ## Signs -/

/-- A sign or none, and whether it is a minus. -/
inductive IsSign : List Char → Bool → Prop
  | none : IsSign [] false
  | plus : IsSign ['+'] false
  | minus : IsSign ['-'] true

theorem exists_isSign (cs : List Char) : ∃ sign, IsSign sign (takeSign cs).1 ∧ cs = sign ++ (takeSign cs).2 := by
  unfold takeSign
  split
  · exact ⟨['-'], .minus, rfl⟩
  · exact ⟨['+'], .plus, rfl⟩
  · exact ⟨[], .none, rfl⟩

/-- A sign is taken off what does not begin with a sign. -/
theorem takeSign_append {sign rest : List Char} {negative : Bool} (h : IsSign sign negative)
    (hrest : ∀ c ∈ rest.head?, c ≠ '+' ∧ c ≠ '-') : takeSign (sign ++ rest) = (negative, rest) := by
  cases h with
  | plus | minus => rfl
  | none =>
    unfold takeSign
    split
    · next hminus => exact absurd rfl (hrest '-' (congrArg List.head? hminus)).2
    · next hplus => exact absurd rfl (hrest '+' (congrArg List.head? hplus)).1
    · rfl

theorem ne_sign_of_isDigit {c : Char} (h : isDigit c = true) : c ≠ '+' ∧ c ≠ '-' := by
  constructor
  all_goals
    rintro rfl
    exact absurd h (by decide)

theorem head_ne_sign {digits : List Char} (h : ∀ c ∈ digits, isDigit c = true) :
    ∀ c ∈ digits.head?, c ≠ '+' ∧ c ≠ '-' :=
  fun c hc => ne_sign_of_isDigit (h c (List.mem_of_mem_head? hc))

/-- What begins with digits, or with the point behind them, does not begin with a sign. -/
theorem head_append_point_ne_sign {whole : List Char} (h : ∀ c ∈ whole, isDigit c = true)
    (fraction : List Char) : ∀ c ∈ (whole ++ '.' :: fraction).head?, c ≠ '+' ∧ c ≠ '-' := by
  intro c hc
  cases whole with
  | nil =>
    obtain rfl : '.' = c := Option.some.inj hc
    decide
  | cons d whole =>
    obtain rfl : d = c := Option.some.inj hc
    exact ne_sign_of_isDigit (h d List.mem_cons_self)

/-- A number with a sign. -/
def signed (negative : Bool) (n : Nat) : Int := if negative then -(n : Int) else n

/-! ## Numbers -/

/-- The text of a whole number: a sign or none, and digits, one at least. -/
def IsWhole (cs : List Char) (n : Int) : Prop :=
  ∃ sign negative digits, IsSign sign negative ∧ cs = sign ++ digits ∧ digits ≠ [] ∧
    (∀ c ∈ digits, isDigit c = true) ∧ n = signed negative (decimalValue digits)

/-- The text of a number with a point: a sign or none, and digits with one point among them, one digit at
least. -/
def IsPoint (cs : List Char) : Prop :=
  ∃ sign negative whole fraction, IsSign sign negative ∧ cs = sign ++ (whole ++ '.' :: fraction) ∧
    (∀ c ∈ whole, isDigit c = true) ∧ (∀ c ∈ fraction, isDigit c = true) ∧ (whole ≠ [] ∨ fraction ≠ [])

variable {cs : List Char} {n : Int}

/-- A text denotes one number at most. -/
theorem IsWhole.unique {m : Int} (h : IsWhole cs m) (h' : IsWhole cs n) : m = n := by
  obtain ⟨sign, negative, digits, hsign, rfl, -, hdigits, rfl⟩ := h
  obtain ⟨sign', negative', digits', hsign', htext, -, hdigits', rfl⟩ := h'
  have hparts := takeSign_append hsign (head_ne_sign hdigits)
  rw [htext, takeSign_append hsign' (head_ne_sign hdigits')] at hparts
  cases hparts
  rfl

/-- In the text of a whole number there is no point. -/
theorem not_isPoint (h : IsWhole cs n) : ¬ IsPoint cs := by
  obtain ⟨sign, negative, digits, hsign, rfl, -, hdigits, -⟩ := h
  rintro ⟨sign', negative', whole, fraction, -, hpoint, -⟩
  have hmem : '.' ∈ sign ++ digits := by
    rw [hpoint]
    simp
  rcases List.mem_append.1 hmem with hmem | hmem
  · cases hsign <;> simp at hmem
  · exact absurd (hdigits '.' hmem) (by decide)

theorem isWhole_intChars (n : Int) : IsWhole (Json.intChars n) n := by
  have hne : digitChars n.natAbs ≠ [] := Nat.toDigits_ne_nil
  have hdigits : ∀ c ∈ digitChars n.natAbs, isDigit c = true := fun c => isDigit_of_mem_digitChars
  rw [Json.intChars]
  split
  · refine ⟨['-'], true, digitChars n.natAbs, .minus, rfl, hne, hdigits, ?_⟩
    rw [decimalValue_digitChars, signed, if_pos rfl]
    omega
  · refine ⟨[], false, digitChars n.natAbs, .none, rfl, hne, hdigits, ?_⟩
    rw [decimalValue_digitChars, signed, if_neg Bool.false_ne_true]
    omega

end Decimal

open Decimal

variable {cs : List Char} {n : Int}

theorem fitsInt64_iff : fitsInt64 n = true ↔ Int64.minValue.toInt ≤ n ∧ n ≤ Int64.maxValue.toInt := by
  have hmin : Int64.minValue.toInt = -9223372036854775808 := rfl
  have hmax : Int64.maxValue.toInt = 9223372036854775807 := rfl
  simp [fitsInt64, hmin, hmax]

theorem castInt?_eq (cs : List Char) :
    castInt? cs =
      if (!(takeSign cs).2.isEmpty && (takeSign cs).2.all isDigit &&
          fitsInt64 (signed (takeSign cs).1 (digitsValue (takeSign cs).2))) = true then
        some (signed (takeSign cs).1 (digitsValue (takeSign cs).2))
      else none :=
  rfl

/-- Whole numbers within 64 bits are cast, and nothing else is. -/
theorem castInt?_eq_some_iff :
    castInt? cs = some n ↔ IsWhole cs n ∧ Int64.minValue.toInt ≤ n ∧ n ≤ Int64.maxValue.toInt := by
  rw [← fitsInt64_iff, castInt?_eq, digitsValue_eq_decimalValue, Option.ite_none_right_eq_some]
  simp only [Bool.and_eq_true, List.all_eq_true, Bool.not_eq_true', List.isEmpty_eq_false_iff,
    Option.some.injEq]
  constructor
  · rintro ⟨⟨⟨hne, hdigits⟩, hfits⟩, rfl⟩
    obtain ⟨sign, hsign, hcs⟩ := exists_isSign cs
    exact ⟨⟨sign, _, _, hsign, hcs, hne, hdigits, rfl⟩, hfits⟩
  · rintro ⟨⟨sign, negative, digits, hsign, rfl, hne, hdigits, rfl⟩, hfits⟩
    rw [takeSign_append hsign (head_ne_sign hdigits)]
    exact ⟨⟨⟨hne, hdigits⟩, hfits⟩, rfl⟩

/-! ## Reading digit by digit -/

namespace Decimal

/-- A number, if it fits 64 bits with sign. -/
def checked (n : Int) : Option Int := if fitsInt64 n then some n else none

/-- What has been read, with one more digit behind it: ten times as much and the digit more, or the digit
less behind a minus. -/
def pushDigit? (negative : Bool) (read : Int) (c : Char) : Option Int := do
  let tens ← checked (read * 10)
  checked (if negative then tens - digitValue c else tens + digitValue c)

/-- The whole number that characters denote, read from the left within 64 bits. -/
def readWhole? (cs : List Char) : Option Int :=
  let (negative, digits) := takeSign cs
  if !digits.isEmpty && digits.all isDigit then digits.foldlM (pushDigit? negative) 0 else none

/-- A number nearer to zero fits as well. -/
theorem fitsInt64_signed_of_le {negative : Bool} {m m' : Nat} (hle : m ≤ m')
    (h : fitsInt64 (signed negative m') = true) : fitsInt64 (signed negative m) = true := by
  simp only [fitsInt64, Bool.and_eq_true, decide_eq_true_eq] at h ⊢
  cases negative with
  | false =>
    simp only [signed, Bool.false_eq_true, if_false] at h ⊢
    omega
  | true =>
    simp only [signed, if_true] at h ⊢
    omega

/-- Of the two checks for one digit the second one would do. -/
theorem pushDigit?_signed (negative : Bool) (m : Nat) (c : Char) :
    pushDigit? negative (signed negative m) c = checked (signed negative (10 * m + digitValue c)) := by
  have htens : signed negative m * 10 = signed negative (10 * m) := by
    cases negative <;> simp [signed, Int.mul_comm]
  have hdigit : (if negative = true then signed negative (10 * m) - digitValue c
      else signed negative (10 * m) + digitValue c) = signed negative (10 * m + digitValue c) := by
    cases negative with
    | false => simp [signed]
    | true =>
      simp only [signed, if_true]
      omega
  rw [pushDigit?, htens]
  by_cases hfits : fitsInt64 (signed negative (10 * m)) = true
  · rw [checked, if_pos hfits, Option.bind_eq_bind, Option.bind_some, hdigit]
  · have hall : ¬ fitsInt64 (signed negative (10 * m + digitValue c)) = true :=
      mt (fitsInt64_signed_of_le (Nat.le_add_right _ _)) hfits
    rw [checked, if_neg hfits, checked, if_neg hall]
    rfl

theorem le_foldl_digits (digits : List Char) (m : Nat) :
    m ≤ digits.foldl (fun value c => 10 * value + digitValue c) m := by
  induction digits generalizing m with
  | nil => exact Nat.le_refl m
  | cons c rest ih => exact Nat.le_trans (by omega) (ih (10 * m + digitValue c))

/-- Digits are read to their end just if the whole number fits: once it is too large, it stays so. -/
theorem foldlM_pushDigit? (negative : Bool) (digits : List Char) {m : Nat}
    (hm : fitsInt64 (signed negative m) = true) :
    digits.foldlM (pushDigit? negative) (signed negative m) =
      checked (signed negative (digits.foldl (fun value c => 10 * value + digitValue c) m)) := by
  -- on the digits that are left, for every number that has been read and fits
  induction digits generalizing m with
  | nil =>
    rw [List.foldl_nil, checked, if_pos hm]
    rfl
  | cons c rest ih =>
    rw [List.foldlM_cons, List.foldl_cons, pushDigit?_signed]
    by_cases hfits : fitsInt64 (signed negative (10 * m + digitValue c)) = true
    · rw [checked, if_pos hfits, Option.bind_eq_bind, Option.bind_some, ih hfits]
    · have hall : ¬ fitsInt64 (signed negative
          (rest.foldl (fun value c => 10 * value + digitValue c) (10 * m + digitValue c))) = true :=
        mt (fitsInt64_signed_of_le (le_foldl_digits rest _)) hfits
      rw [checked, if_neg hfits, checked, if_neg hall]
      rfl

end Decimal

/-- Whole numbers are cast as they are read digit by digit. -/
theorem castInt?_eq_readWhole? (cs : List Char) : castInt? cs = readWhole? cs := by
  have hzero : ∀ negative, signed negative 0 = 0 := by decide
  have hread : ∀ negative digits, digits.foldlM (pushDigit? negative) 0 =
      checked (signed negative (digitsValue digits)) := by
    intro negative digits
    have h := foldlM_pushDigit? negative digits (m := 0) (by rw [hzero]; rfl)
    rwa [hzero] at h
  rw [castInt?_eq, readWhole?]
  generalize takeSign cs = parts
  obtain ⟨negative, digits⟩ := parts
  dsimp only
  rw [hread, checked]
  cases !digits.isEmpty && digits.all isDigit with
  | false => rfl
  | true => rfl

/-- Numbers with a point are cast, and nothing else is. -/
theorem castFloat?_isSome_iff : (castFloat? cs).isSome = true ↔ IsPoint cs := by
  rw [castFloat?, Option.isSome_map]
  constructor
  · intro h
    obtain ⟨sign, hsign, hcs⟩ := exists_isSign cs
    have hbody := List.takeWhile_append_dropWhile (p := isDigit) (l := (takeSign cs).2)
    simp only [pointNumeral?] at h
    split at h
    · next fraction hrest =>
      rw [hrest] at hbody
      rw [← hbody] at hcs
      split at h
      · next hall =>
        simp only [Bool.and_eq_true, List.all_eq_true] at hall
        exact ⟨sign, _, _, fraction, hsign, hcs, fun c => List.mem_takeWhile_imp, hall.1, by
          simpa [not_and_or] using hall.2⟩
      · cases h
    · cases h
  · rintro ⟨sign, negative, whole, fraction, hsign, rfl, hwhole, hfraction, hne⟩
    have hhead := head_append_point_ne_sign hwhole fraction
    have hsome : (fraction.all isDigit && !(whole.isEmpty && fraction.isEmpty)) = true := by
      rw [List.all_eq_true.2 hfraction, Bool.true_and]
      simpa [Bool.and_eq_false_iff] using hne
    have htake : (whole ++ '.' :: fraction).takeWhile isDigit = whole := by
      rw [List.takeWhile_append_of_pos hwhole]
      exact List.append_nil whole
    have hdrop : (whole ++ '.' :: fraction).dropWhile isDigit = '.' :: fraction :=
      List.dropWhile_append_of_pos hwhole
    simp only [pointNumeral?, takeSign_append hsign hhead, htake, hdrop, hsome, if_true, Option.isSome_some]

end Invocation

/-
  The patterns of numbers, and the tokens that are cast to numbers.

  * `Pattern.wholePattern`, `Pattern.pointPattern`: the patterns that numbers
    are told by; `Pattern.wholePattern_isMatch`, `Pattern.pointPattern_isMatch`:
    what their programs find;
  * `TypeRegistry.infer_of_overflow`: what becomes of whole numbers that are too
    large; `TypeRegistry.castNative_of_numberPatterns`: tokens are cast as their
    patterns tell; `TypeRegistry.castNative_numbers`: which tokens are cast to
    numbers.
-/
import Invocation.Proofs.Decimal.Numbers
import Invocation.Proofs.Pattern.Matcher
import Invocation.Proofs.Pattern.Parts

namespace Invocation

open Invocation.Decimal

namespace Pattern

/-! ## Patterns -/

/-- The pattern of whole numbers. -/
def wholePattern : String := "^[+-]?[0-9]+$"

/-- The pattern of numbers with a point. -/
def pointPattern : String := "^[+-]?([0-9]+\\.[0-9]*|\\.[0-9]+)$"

/-- A sign or none. -/
def sign : Pattern := .repeat_ true 0 (some 1) (.chars ⟨[(43, 43), (45, 45)]⟩)

/-- Digits, at least so many. -/
def digits (least : Nat) : Pattern := .repeat_ true least none (.chars ⟨[(48, 57)]⟩)

/-- Digits with a point behind the first digit or before it. -/
def pointed : Pattern :=
  .alt [.cat [digits 1, .text ['.'], digits 0], .cat [.text ['.'], digits 1]]

theorem parse_wholePattern :
    parse wholePattern = some (.cat (.start :: ([sign, digits 1] ++ [.stop]))) := by
  have h : parse wholePattern = some (.cat [.start, .repeat_ true 0 (some 1) (.chars ⟨[(43, 43), (45, 45)]⟩),
    .repeat_ true 1 none (.chars ⟨[(48, 57)]⟩), .stop]) := by cbv
  exact h

theorem parse_pointPattern :
    parse pointPattern = some (.cat (.start :: ([sign, .group 1 pointed] ++ [.stop]))) := by
  have h : parse pointPattern = some (.cat [.start, .repeat_ true 0 (some 1) (.chars ⟨[(43, 43), (45, 45)]⟩),
    .group 1 (.alt [.cat [.repeat_ true 1 none (.chars ⟨[(48, 57)]⟩), .text ['.'],
      .repeat_ true 0 none (.chars ⟨[(48, 57)]⟩)], .cat [.text ['.'],
      .repeat_ true 1 none (.chars ⟨[(48, 57)]⟩)]]), .stop]) := by cbv
  exact h

variable {before w after : List Char}

theorem matchesPart_digits {least : Nat} :
    MatchesPart before w after (digits least) ↔ least ≤ w.length ∧ ∀ c ∈ w, isDigit c = true := by
  have hset : ∀ c : Char, (⟨[(48, 57)]⟩ : CharSet).has c = true ↔ isDigit c = true := by
    intro c
    have hdigit : isDigit c = true ↔ 48 ≤ c.toNat ∧ c.toNat ≤ 57 := by
      simp only [isDigit, Bool.and_eq_true, decide_eq_true_eq]
      exact Iff.rfl
    simp [CharSet.has, Text.Ranges.has_cons, hdigit]
  rw [digits, matchesPart_repeat_chars]
  simp [hset]

theorem matchesPart_sign : MatchesPart before w after sign ↔ ∃ negative, IsSign w negative := by
  have hset : ∀ c : Char, (⟨[(43, 43), (45, 45)]⟩ : CharSet).has c = true ↔ c = '+' ∨ c = '-' := by
    intro c
    have hplus : c = '+' ↔ c.toNat = 43 := Char.toNat_inj.symm
    have hminus : c = '-' ↔ c.toNat = 45 := Char.toNat_inj.symm
    rw [hplus, hminus, CharSet.has, Text.Ranges.has_cons, Text.Ranges.has_cons, Text.Ranges.has_nil]
    grind
  rw [sign, matchesPart_repeat_chars]
  simp only [hset]
  constructor
  · rintro ⟨-, hlength, hsign⟩
    cases w with
    | nil => exact ⟨false, .none⟩
    | cons c rest =>
      obtain rfl : rest = [] := List.eq_nil_of_length_eq_zero (by simpa using hlength 1 rfl)
      rcases hsign c List.mem_cons_self with rfl | rfl
      · exact ⟨false, .plus⟩
      · exact ⟨true, .minus⟩
  · rintro ⟨negative, h⟩
    cases h <;> simp

/-- The pattern of whole numbers finds these. -/
theorem wholePattern_isMatch {token : String} :
    (Program.ofPattern (.cat (.start :: ([sign, digits 1] ++ [.stop])))).isMatch token = true ↔
      ∃ n, IsWhole token.toList n := by
  rw [Program.isMatch_anchored (wellFormed_of_parse parse_wholePattern)]
  simp only [matchesPart_cat_cons, matchesPart_cat_nil, matchesPart_sign, matchesPart_digits, IsWhole]
  constructor
  · rintro ⟨x, _, htoken, ⟨negative, hsign⟩, y, _, rfl, ⟨hlength, hdigits⟩, rfl⟩
    exact ⟨_, x, negative, y, hsign, by rw [htoken, List.append_nil],
      List.ne_nil_of_length_pos hlength, hdigits, rfl⟩
  · rintro ⟨_, x, negative, y, hsign, htoken, hne, hdigits, -⟩
    exact ⟨x, y, htoken, ⟨negative, hsign⟩, y, [], (List.append_nil y).symm,
      ⟨List.length_pos_iff.2 hne, hdigits⟩, rfl⟩

/-- Digits with a point among them. -/
theorem matchesPart_pointed : MatchesPart before w after pointed ↔
    ∃ whole fraction, w = whole ++ '.' :: fraction ∧ (∀ c ∈ whole, isDigit c = true) ∧
      (∀ c ∈ fraction, isDigit c = true) ∧ (whole ≠ [] ∨ fraction ≠ []) := by
  simp only [pointed, matchesPart_alt, List.exists_mem_cons_iff, List.not_mem_nil, false_and, exists_false,
    or_false, matchesPart_cat_cons, matchesPart_cat_nil, matchesPart_text, matchesPart_digits]
  constructor
  · rintro (⟨whole, _, rfl, ⟨hlength, hwhole⟩, _, _, rfl, rfl, fraction, _, rfl, ⟨-, hfraction⟩, rfl⟩ |
      ⟨_, _, rfl, rfl, fraction, _, rfl, ⟨hlength, hfraction⟩, rfl⟩)
    · exact ⟨whole, fraction, by simp, hwhole, hfraction, Or.inl (List.ne_nil_of_length_pos hlength)⟩
    · exact ⟨[], fraction, by simp, by simp, hfraction, Or.inr (List.ne_nil_of_length_pos hlength)⟩
  · rintro ⟨whole, fraction, rfl, hwhole, hfraction, hne⟩
    -- the first branch has a digit before the point, the second one none
    by_cases hempty : whole = []
    · subst hempty
      have hfraction' : fraction ≠ [] := hne.resolve_left (fun h => h rfl)
      exact Or.inr ⟨['.'], fraction, rfl, rfl, fraction, [], (List.append_nil _).symm,
        ⟨List.length_pos_iff.2 hfraction', hfraction⟩, rfl⟩
    · exact Or.inl ⟨whole, '.' :: fraction, rfl, ⟨List.length_pos_iff.2 hempty, hwhole⟩, ['.'], fraction,
        rfl, rfl, fraction, [], (List.append_nil _).symm, ⟨Nat.zero_le _, hfraction⟩, rfl⟩

/-- The pattern of numbers with a point finds these. -/
theorem pointPattern_isMatch {token : String} :
    (Program.ofPattern (.cat (.start :: ([sign, .group 1 pointed] ++ [.stop])))).isMatch token = true ↔
      IsPoint token.toList := by
  rw [Program.isMatch_anchored (wellFormed_of_parse parse_pointPattern)]
  simp only [matchesPart_cat_cons, matchesPart_cat_nil, matchesPart_sign, matchesPart_group,
    matchesPart_pointed, IsPoint]
  constructor
  · rintro ⟨x, _, htoken, ⟨negative, hsign⟩, _, _, rfl, ⟨whole, fraction, rfl, hwhole, hfraction, hne⟩, rfl⟩
    exact ⟨x, negative, whole, fraction, hsign, by rw [htoken, List.append_nil], hwhole, hfraction, hne⟩
  · rintro ⟨x, negative, whole, fraction, hsign, htoken, hwhole, hfraction, hne⟩
    exact ⟨x, _, htoken, ⟨negative, hsign⟩, _, [], (List.append_nil _).symm,
      ⟨whole, fraction, rfl, hwhole, hfraction, hne⟩, rfl⟩

end Pattern

open Pattern

/-- The two patterns are not too large. -/
theorem ofText?_numberPatterns :
    Matcher.ofText? wholePattern = some (matcher (.cat (.start :: ([sign, digits 1] ++ [.stop])))) ∧
      Matcher.ofText? pointPattern = some (matcher (.cat (.start :: ([sign, .group 1 pointed] ++ [.stop])))) := by
  constructor
  · exact Matcher.ofText?_eq_some_iff.2 ⟨_, parse_wholePattern, by cbv, rfl⟩
  · exact Matcher.ofText?_eq_some_iff.2 ⟨_, parse_pointPattern, by cbv, rfl⟩

namespace TypeRegistry

variable {settings : EffectiveSettings} {token : String}

theorem castNative_int_eq_some_iff {value : Value} :
    castNative settings .int token = some value ↔ ∃ n, value = .int n ∧ IsWhole token.toList n ∧
      Int64.minValue.toInt ≤ n ∧ n ≤ Int64.maxValue.toInt := by
  simp only [castNative, Option.map_eq_some_iff, castInt?_eq_some_iff]
  exact exists_congr fun n => by rw [and_comm, eq_comm]

theorem castNative_float_isSome_iff :
    (castNative settings .float token).isSome = true ↔ IsPoint token.toList := by
  rw [castNative, Option.isSome_map, castFloat?_isSome_iff]

/-- A whole number beyond 64 bits that is neither a word for true or false nor accepted by a custom type is
a text. -/
theorem infer_of_overflow {r : TypeRegistry} {n : Int} (hwhole : IsWhole token.toList n)
    (hbound : ¬ (Int64.minValue.toInt ≤ n ∧ n ≤ Int64.maxValue.toInt))
    (htruthy : settings.isTruthy token = false) (hfalsy : settings.isFalsy token = false)
    (htypes : ∀ t ∈ r.types, t.accepts token = false) :
    r.infer settings token = (.native .str, .str token) := by
  have hchain : ∀ t ∈ r.chain settings, t ∈ r.types := by
    intro t ht
    rw [chain] at ht
    split at ht
    · exact ht
    · obtain ⟨symbol, -, hget⟩ := List.mem_filterMap.1 ht
      exact List.mem_of_find?_eq_some hget
  have hcustom : inferCustom? (r.chain settings) token = none :=
    List.findSome?_eq_none_iff.2 fun t ht => by
      rw [CustomType.value?, htypes t (hchain t ht), if_neg Bool.false_ne_true, Option.map_none]
  have hbool : castNative settings .bool token = none := by
    rw [castNative, htruthy, hfalsy, if_neg Bool.false_ne_true, if_neg Bool.false_ne_true]
  have hint : castNative settings .int token = none := by
    refine Option.eq_none_iff_forall_ne_some.2 fun value hvalue => ?_
    obtain ⟨m, -, hm, hfits⟩ := castNative_int_eq_some_iff.1 hvalue
    obtain rfl : m = n := hm.unique hwhole
    exact hbound hfits
  have hfloat : castNative settings .float token = none := by
    rw [← Option.not_isSome_iff_eq_none, castNative_float_isSome_iff]
    exact not_isPoint hwhole
  rw [infer, hcustom, Option.none_or, inferNative?, NativeType.inferenceOrder]
  simp only [List.findSome?_cons, hbool, hint, hfloat, Option.map_none]
  rfl

/-- Casting to numbers is telling tokens by the patterns of numbers and then reading them, whole numbers digit by
digit with every step checked. -/
theorem castNative_of_numberPatterns (settings : EffectiveSettings) :
    ∃ whole point, Matcher.ofText? wholePattern = some whole ∧ Matcher.ofText? pointPattern = some point ∧
      ∀ token, castNative settings .int token =
          (if whole.isMatch token then (readWhole? token.toList).map .int else none) ∧
        castNative settings .float token =
          if point.isMatch token then (castFloat? token.toList).map .float else none := by
  refine ⟨_, _, ofText?_numberPatterns.1, ofText?_numberPatterns.2, fun token => ⟨?_, ?_⟩⟩
  · split
    · rw [castNative, castInt?_eq_readWhole?]
    · next hmatch =>
      refine Option.eq_none_iff_forall_ne_some.2 fun value hvalue => hmatch ?_
      obtain ⟨n, -, hwhole, -⟩ := castNative_int_eq_some_iff.1 hvalue
      exact wholePattern_isMatch.2 ⟨n, hwhole⟩
  · split
    · rw [castNative]
    · next hmatch =>
      rw [← Option.not_isSome_iff_eq_none, castNative_float_isSome_iff, ← pointPattern_isMatch]
      exact hmatch

/-- **Casting to whole numbers is exact up to 64 bits.** A token is cast to a whole number just if it is a
sign or none followed by ASCII digits, and if its value fits; so the text of every number of 64 bits is cast
to this number, and no number wraps. This is what reading the digits one by one comes to, with every step
checked. A token is cast to a number with a point just if it is a sign or none followed by digits with one
point among them. No token is cast to both. A whole number that does not fit is a text, if it is not a boolean
and no custom type accepts it. -/
theorem castNative_numbers (settings : EffectiveSettings) :
    (∀ token value, castNative settings .int token = some value ↔ ∃ n, value = .int n ∧
      IsWhole token.toList n ∧ Int64.minValue.toInt ≤ n ∧ n ≤ Int64.maxValue.toInt) ∧
    (∀ n, Int64.minValue.toInt ≤ n → n ≤ Int64.maxValue.toInt →
      castNative settings .int (Value.int n).text = some (.int n)) ∧
    (∀ token, (castNative settings .float token).isSome = true ↔ IsPoint token.toList) ∧
    (∀ token, castNative settings .int token = (readWhole? token.toList).map .int) ∧
    (∀ token, castNative settings .int token = none ∨ castNative settings .float token = none) ∧
    ∀ (r : TypeRegistry) (token : String) (n : Int), IsWhole token.toList n →
      ¬ (Int64.minValue.toInt ≤ n ∧ n ≤ Int64.maxValue.toInt) → settings.isTruthy token = false →
        settings.isFalsy token = false → (∀ t ∈ r.types, t.accepts token = false) →
          r.infer settings token = (.native .str, .str token) := by
  refine ⟨fun token value => castNative_int_eq_some_iff, ?_, fun token => castNative_float_isSome_iff, ?_, ?_,
    fun r token n => infer_of_overflow⟩
  · intro n hmin hmax
    refine castNative_int_eq_some_iff.2 ⟨n, rfl, ?_, hmin, hmax⟩
    rw [Value.text, String.toList_ofList]
    exact isWhole_intChars n
  · intro token
    rw [castNative, castInt?_eq_readWhole?]
  · intro token
    cases hint : castNative settings .int token with
    | none => exact Or.inl rfl
    | some value =>
      obtain ⟨n, -, hwhole, -⟩ := castNative_int_eq_some_iff.1 hint
      refine Or.inr ?_
      rw [← Option.not_isSome_iff_eq_none, castNative_float_isSome_iff]
      exact not_isPoint hwhole

/-- The least number, the greatest one behind a plus and zeros, and the one after it. -/
theorem castNative_numbers_bounds :
    castNative {} .int (Value.int Int64.minValue.toInt).text = some (.int Int64.minValue.toInt) ∧
      castNative {} .int "+0009223372036854775807" = some (.int 9223372036854775807) ∧
      IsWhole "9223372036854775808".toList 9223372036854775808 ∧
      ¬ (9223372036854775808 : Int) ≤ Int64.maxValue.toInt ∧
      infer ⟨[⟨"color", (· == "red"), fun token => .ok (.text token)⟩]⟩ {} "9223372036854775808" =
        (.native .str, .str "9223372036854775808") := by
  obtain ⟨hint, htext, -, -, -, hinfer⟩ := castNative_numbers {}
  have hmax : IsWhole "+0009223372036854775807".toList 9223372036854775807 :=
    ⟨['+'], false, "0009223372036854775807".toList, .plus, rfl, by decide, List.all_eq_true.1 rfl, by
      rw [← digitsValue_eq_decimalValue]; decide⟩
  have hnext : IsWhole "9223372036854775808".toList 9223372036854775808 :=
    ⟨[], false, "9223372036854775808".toList, .none, rfl, by decide, List.all_eq_true.1 rfl, by
      rw [← digitsValue_eq_decimalValue]; decide⟩
  have hbound : ¬ (9223372036854775808 : Int) ≤ Int64.maxValue.toInt := by decide
  refine ⟨htext _ (by decide) (by decide), (hint _ _).2 ⟨_, rfl, hmax, by decide, by decide⟩, hnext, hbound, ?_⟩
  refine hinfer ⟨[_]⟩ _ _ hnext (fun h => hbound h.2) (by decide) (by decide) ?_
  exact List.forall_mem_singleton.2 (by decide)

end TypeRegistry

end Invocation

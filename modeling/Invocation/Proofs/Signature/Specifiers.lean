/-
  Which texts are specifiers.

  * `Specifier.Spells`: the name of a built-in type, which a size in square
    brackets may follow, or an identifier alone, with any blanks around the
    parts;
  * `Specifier.ofChars_eq_ok_iff`: these are the texts that are read as
    specifiers, and what they declare.
-/
import Invocation.Proofs.Text.Blank
import Invocation.Signature.Specifier

namespace Invocation

open Invocation.Text Invocation.Decimal

/-! ## Built-in types -/

/-- The built-in types under their names. -/
def builtIns : List (String × ArgumentType) :=
  [("any", .any), ("bool", .native .bool), ("int", .native .int), ("float", .native .float),
    ("str", .native .str), ("string", .native .str)]

theorem mem_builtIns {name : String} {type : ArgumentType} :
    (name, type) ∈ builtIns ↔
      name = "any" ∧ type = .any ∨
        ∃ native, NativeType.ofName? name = some native ∧ type = .native native := by
  constructor
  · intro h
    simp only [builtIns, List.mem_cons, Prod.mk.injEq, List.not_mem_nil, or_false] at h
    rcases h with h | ⟨rfl, rfl⟩ | ⟨rfl, rfl⟩ | ⟨rfl, rfl⟩ | ⟨rfl, rfl⟩ | ⟨rfl, rfl⟩
    · exact Or.inl h
    all_goals exact Or.inr ⟨_, rfl, rfl⟩
  · rintro (⟨rfl, rfl⟩ | ⟨native, h, rfl⟩)
    · exact List.mem_cons_self
    · unfold NativeType.ofName? at h
      split at h <;> cases h <;> simp [builtIns]

theorem isNameChar_of_mem_builtIns {name : String} {type : ArgumentType} (h : (name, type) ∈ builtIns) :
    ∀ c ∈ name.toList, isNameChar c = true := by
  have hall : ∀ entry ∈ builtIns, entry.1.toList.all isNameChar = true := by decide
  exact List.all_eq_true.1 (hall _ h)

/-! ## Sizes -/

theorem digitsValue_eq_ofDigitChars (cs : List Char) : digitsValue cs = Nat.ofDigitChars 10 cs 0 := by
  have hzero : '0'.toNat = 48 := rfl
  rw [digitsValue, Nat.ofDigitChars, hzero]
  rfl

theorem isNameChar_of_isDigit {c : Char} (h : isDigit c = true) : isNameChar c = true := by
  have hdigit : 48 ≤ c.toNat ∧ c.toNat ≤ 57 := by
    simp only [isDigit, Bool.and_eq_true, decide_eq_true_eq] at h
    exact h
  have hdecimal : isDecimalDigit c = true := by
    rw [isDecimalDigit, decimalDigitRanges, Ranges.has_cons, if_neg (by omega), decide_eq_true hdigit.2,
      Bool.true_or]
  rw [isNameChar, isNumeric, hdecimal, Bool.true_or, Bool.or_true, Bool.true_or, Bool.true_or]

/-- The shape that stands between square brackets: nothing, or a number from 1 to `2 ^ 64 - 1` in decimal.
`UInt64.size` is `2 ^ 64`. -/
inductive Shape.Sizes : List Char → Shape → Prop
  | greedy : Sizes [] .greedy
  | fixed {digits : List Char} {count : Nat} (hne : digits ≠ [])
      (hdigits : ∀ c ∈ digits, isDigit c = true) (hcount : Nat.ofDigitChars 10 digits 0 = count)
      (hpos : 1 ≤ count) (hlt : count < UInt64.size) : Sizes digits (.fixed count)

namespace Shape.Sizes

variable {size : List Char} {shape : Shape}

theorem isNameChar (h : Shape.Sizes size shape) : ∀ c ∈ size, isNameChar c = true := by
  cases h with
  | greedy => exact fun _ hc => absurd hc List.not_mem_nil
  | fixed _ hdigits => exact fun c hc => isNameChar_of_isDigit (hdigits c hc)

theorem ne_scalar (h : Shape.Sizes size shape) : shape ≠ .scalar := by
  cases h <;> exact Shape.noConfusion

end Shape.Sizes

theorem Shape.ofSize?_eq_some_iff {size : List Char} {shape : Shape} :
    Shape.ofSize? size = some shape ↔ Shape.Sizes size shape := by
  have hvalue : digitsValue size = Nat.ofDigitChars 10 size 0 := digitsValue_eq_ofDigitChars size
  constructor
  · intro h
    rw [ofSize?] at h
    split at h
    · next hempty =>
      cases h
      rw [List.isEmpty_iff.1 hempty]
      exact .greedy
    · next hempty =>
      split at h
      · next hsize =>
        cases h
        simp only [Bool.and_eq_true, List.all_eq_true, decide_eq_true_eq] at hsize
        obtain ⟨⟨hdigits, hpos⟩, hle⟩ := hsize
        exact .fixed (fun hnil => hempty (by rw [hnil]; rfl)) hdigits hvalue.symm hpos
          (Nat.lt_succ_of_le hle)
      · cases h
  · intro h
    cases h with
    | greedy => rfl
    | @fixed _ count hne hdigits hcount hpos hlt =>
      rw [hcount] at hvalue
      have hempty : ¬ size.isEmpty = true := fun hempty => hne (List.isEmpty_iff.1 hempty)
      have hsize :
          (size.all isDigit && 0 < digitsValue size && digitsValue size ≤ 18446744073709551615) = true := by
        simp only [Bool.and_eq_true, List.all_eq_true, decide_eq_true_eq, hvalue]
        exact ⟨⟨hdigits, hpos⟩, Nat.le_of_lt_succ hlt⟩
      rw [ofSize?, if_neg hempty, if_pos hsize, hvalue]

/-! ## Specifiers -/

namespace Specifier

/-- What a text declares as a specifier. -/
inductive Spells : List Char → Specifier → Prop
  | scalar {name type before after} (h : (name, type) ∈ builtIns) (hbefore : Blanks before)
      (hafter : Blanks after) : Spells (before ++ name.toList ++ after) ⟨type, .scalar⟩
  | array {name type size shape before between left right after} (h : (name, type) ∈ builtIns)
      (hsize : Shape.Sizes size shape) (hbefore : Blanks before) (hbetween : Blanks between)
      (hleft : Blanks left) (hright : Blanks right) (hafter : Blanks after) :
      Spells (before ++ name.toList ++ between ++ '[' :: (left ++ size ++ right ++ ']' :: after))
        ⟨type, shape⟩
  | custom {name before after} (h : isIdentifier name = true) (hnot : ∀ type, (name, type) ∉ builtIns)
      (hbefore : Blanks before) (hafter : Blanks after) :
      Spells (before ++ name.toList ++ after) ⟨.custom name, .scalar⟩

/-! ### Parentheses -/

theorem not_mem_of_blanks {cs : List Char} (h : Blanks cs) : ')' ∉ cs :=
  fun hc => absurd (h _ hc) (by decide)

theorem not_mem_of_nameChars {cs : List Char} (h : ∀ c ∈ cs, isNameChar c = true) : ')' ∉ cs :=
  fun hc => absurd (h _ hc) (by decide)

theorem Spells.not_mem {text : List Char} {specifier : Specifier} (h : Spells text specifier) :
    ')' ∉ text := by
  cases h with
  | scalar h hbefore hafter =>
    simp [not_mem_of_blanks hbefore, not_mem_of_blanks hafter,
      not_mem_of_nameChars (isNameChar_of_mem_builtIns h)]
  | array h hsize hbefore hbetween hleft hright hafter =>
    simp [not_mem_of_blanks hbefore, not_mem_of_blanks hbetween, not_mem_of_blanks hleft,
      not_mem_of_blanks hright, not_mem_of_blanks hafter, not_mem_of_nameChars hsize.isNameChar,
      not_mem_of_nameChars (isNameChar_of_mem_builtIns h)]
  | custom h _ hbefore hafter =>
    have hname := List.all_eq_true.1 (all_isNameChar_of_isIdentifierChars h)
    simp [not_mem_of_blanks hbefore, not_mem_of_blanks hafter, not_mem_of_nameChars hname]

/-- No parenthesis stands in a specifier, nor among the blanks around it. -/
theorem not_mem_of_spells_trimChars {text : List Char} {specifier : Specifier}
    (h : Spells (trimChars text) specifier) : ')' ∉ text := by
  obtain ⟨before, after, hbefore, hafter, htext⟩ := exists_trimChars text
  rw [htext]
  simp [not_mem_of_blanks hbefore, not_mem_of_blanks hafter, h.not_mem]

/-! ### Parts of the text -/

theorem beforeCloser?_append {after : List Char} (hafter : Blanks after) (size : List Char) :
    beforeCloser? (size ++ ']' :: after) = some size := by
  have hdrop : (size ++ ']' :: after).reverse.dropWhile isBlank = ']' :: size.reverse := by
    rw [List.reverse_append, List.reverse_cons, List.append_assoc]
    refine dropWhile_isBlank_append (fun c hc => hafter c (List.mem_reverse.1 hc)) fun c hc => ?_
    cases hc
    decide
  simp only [beforeCloser?, hdrop, List.reverse_reverse]

theorem eq_of_beforeCloser? {cs size : List Char} (h : beforeCloser? cs = some size) :
    ∃ after, Blanks after ∧ cs = size ++ ']' :: after := by
  unfold beforeCloser? at h
  split at h
  · next rest hdrop =>
    cases h
    refine ⟨(cs.reverse.takeWhile isBlank).reverse,
      fun c hc => List.mem_takeWhile_imp (List.mem_reverse.1 hc), ?_⟩
    calc cs = (cs.reverse.takeWhile isBlank ++ ']' :: rest).reverse := by
          rw [← hdrop, List.takeWhile_append_dropWhile, List.reverse_reverse]
      _ = rest.reverse ++ ']' :: (cs.reverse.takeWhile isBlank).reverse := by
          rw [List.reverse_append, List.reverse_cons, List.append_assoc, List.singleton_append]
  · cases h

theorem split?_of_not_mem {text : List Char} (h : '[' ∉ text) :
    split? text = some (trimChars text, .scalar) := by
  have hdrop : text.dropWhile (· != '[') = [] :=
    List.dropWhile_eq_nil_iff.2 fun c hc => bne_iff_ne.2 fun hc' => h (hc' ▸ hc)
  simp only [split?, hdrop]

theorem split?_append {head : List Char} (h : '[' ∉ head) (rest : List Char) :
    split? (head ++ '[' :: rest) =
      (beforeCloser? rest).bind fun size =>
        (Shape.ofSize? (trimChars size)).bind fun shape => some (trimChars head, shape) := by
  have hall : ∀ c ∈ head, (c != '[') = true := fun c hc => bne_iff_ne.2 fun hc' => h (hc' ▸ hc)
  have hdrop : (head ++ '[' :: rest).dropWhile (· != '[') = '[' :: rest := by
    simp [List.dropWhile_append_of_pos hall]
  have htake : (head ++ '[' :: rest).takeWhile (· != '[') = head := by
    simp [List.takeWhile_append_of_pos hall]
  simp only [split?, hdrop, htake]
  rfl

/-- The parts of a text: what stands before the first square bracket, and the size in brackets. -/
theorem split?_eq_some {text base : List Char} {shape : Shape} (h : split? text = some (base, shape)) :
    shape = .scalar ∧ base = trimChars text ∨
      ∃ head size after, Blanks after ∧ Shape.Sizes (trimChars size) shape ∧
        text = head ++ '[' :: (size ++ ']' :: after) ∧ base = trimChars head := by
  by_cases hmem : '[' ∈ text
  · obtain ⟨head, rest, rfl, hhead⟩ := List.eq_append_cons_of_mem hmem
    rw [split?_append hhead] at h
    obtain ⟨size, hcloser, h⟩ := Option.bind_eq_some_iff.1 h
    obtain ⟨shape, hshape, h⟩ := Option.bind_eq_some_iff.1 h
    cases h
    obtain ⟨after, hafter, rfl⟩ := eq_of_beforeCloser? hcloser
    exact Or.inr ⟨head, size, after, hafter, Shape.ofSize?_eq_some_iff.1 hshape, rfl, rfl⟩
  · rw [split?_of_not_mem hmem] at h
    cases h
    exact Or.inl ⟨rfl, rfl⟩

/-- A name is no square bracket, and no blank. -/
theorem not_mem_of_isNameChar {before name after : List Char} (hname : ∀ c ∈ name, isNameChar c = true)
    (hbefore : Blanks before) (hafter : Blanks after) : '[' ∉ before ++ name ++ after := by
  intro h
  rcases List.mem_append.1 h with h | h
  · rcases List.mem_append.1 h with h | h
    · exact absurd (hbefore _ h) (by decide)
    · exact absurd (hname _ h) (by decide)
  · exact absurd (hafter _ h) (by decide)

/-! ### The whole text -/

theorem ofChars_of_builtIn {text base : List Char} {shape : Shape} {type : ArgumentType} (offset : Nat)
    (h : split? text = some (base, shape)) (htype : (String.ofList base, type) ∈ builtIns) :
    ofChars text offset = .ok ⟨type, shape⟩ := by
  simp only [ofChars, h]
  rcases mem_builtIns.1 htype with ⟨hany, rfl⟩ | ⟨native, hnative, rfl⟩
  · rw [if_pos hany]
  · rw [if_neg (fun hany => by rw [hany] at hnative; cases hnative), hnative]

theorem ofChars_of_not_builtIn {text base : List Char} {shape : Shape} (offset : Nat)
    (h : split? text = some (base, shape)) (hnot : ∀ type, (String.ofList base, type) ∉ builtIns) :
    ofChars text offset =
      if isIdentifierChars base then
        if shape = .scalar then .ok ⟨.custom (String.ofList base), shape⟩
        else .error (.customTypeArray (String.ofList base) offset)
      else .error (.invalidType (String.ofList text) offset) := by
  have hany : String.ofList base ≠ "any" := fun hany => hnot .any (mem_builtIns.2 (Or.inl ⟨hany, rfl⟩))
  have hnative : NativeType.ofName? (String.ofList base) = none :=
    Option.eq_none_iff_forall_ne_some.2 fun native hnative =>
      hnot (.native native) (mem_builtIns.2 (Or.inr ⟨native, hnative, rfl⟩))
  simp only [ofChars, h, if_neg hany, hnative]

theorem spells_of_ofChars {text : List Char} {offset : Nat} {specifier : Specifier}
    (h : ofChars text offset = .ok specifier) : Spells text specifier := by
  cases hsplit : split? text with
  | none => rw [ofChars, hsplit] at h; cases h
  | some parts =>
    obtain ⟨base, shape⟩ := parts
    have hparts := split?_eq_some hsplit
    by_cases hbuiltIn : ∃ type, (String.ofList base, type) ∈ builtIns
    · obtain ⟨type, htype⟩ := hbuiltIn
      rw [ofChars_of_builtIn offset hsplit htype] at h
      cases h
      rcases hparts with ⟨rfl, rfl⟩ | ⟨head, size, after, hafter, hsize, rfl, rfl⟩
      · obtain ⟨before, after, hbefore, hafter, heq⟩ := exists_trimChars text
        have hspells := Spells.scalar htype hbefore hafter
        rwa [String.toList_ofList, ← heq] at hspells
      · obtain ⟨before, between, hbefore, hbetween, hhead⟩ := exists_trimChars head
        obtain ⟨left, right, hleft, hright, hinner⟩ := exists_trimChars size
        have hspells := Spells.array htype hsize hbefore hbetween hleft hright hafter
        rwa [String.toList_ofList, ← hhead, ← hinner] at hspells
    · have hnot : ∀ type, (String.ofList base, type) ∉ builtIns :=
        fun type htype => hbuiltIn ⟨type, htype⟩
      rw [ofChars_of_not_builtIn offset hsplit hnot] at h
      split at h
      · next hidentifier =>
        split at h
        · next hscalar =>
          cases h
          rcases hparts with ⟨rfl, rfl⟩ | ⟨head, size, after, hafter, hsize, rfl, rfl⟩
          · obtain ⟨before, after, hbefore, hafter, heq⟩ := exists_trimChars text
            have hspells := Spells.custom (by rwa [isIdentifier, String.toList_ofList]) hnot hbefore hafter
            rwa [String.toList_ofList, ← heq] at hspells
          · exact absurd hscalar hsize.ne_scalar
        · cases h
      · cases h

theorem split?_of_name {before name after : List Char} (hname : ∀ c ∈ name, isNameChar c = true)
    (hbefore : Blanks before) (hafter : Blanks after) :
    split? (before ++ name ++ after) = some (name, .scalar) := by
  rw [split?_of_not_mem (not_mem_of_isNameChar hname hbefore hafter),
    trimChars_append_of_isNameChar hbefore hafter hname]

theorem ofChars_of_spells {text : List Char} {specifier : Specifier} (h : Spells text specifier)
    (offset : Nat) : ofChars text offset = .ok specifier := by
  cases h with
  | @scalar name type before after htype hbefore hafter =>
    have hsplit := split?_of_name (isNameChar_of_mem_builtIns htype) hbefore hafter
    exact ofChars_of_builtIn offset hsplit (by rwa [String.ofList_toList])
  | @array name type size shape before between left right after htype hsize hbefore hbetween hleft hright
      hafter =>
    have hname := isNameChar_of_mem_builtIns htype
    have hsplit :
        split? (before ++ name.toList ++ between ++ '[' :: (left ++ size ++ right ++ ']' :: after)) =
          some (name.toList, shape) := by
      rw [split?_append (not_mem_of_isNameChar hname hbefore hbetween), beforeCloser?_append hafter,
        Option.bind_some, trimChars_append_of_isNameChar hleft hright hsize.isNameChar,
        Shape.ofSize?_eq_some_iff.2 hsize, Option.bind_some,
        trimChars_append_of_isNameChar hbefore hbetween hname]
    exact ofChars_of_builtIn offset hsplit (by rwa [String.ofList_toList])
  | @custom name before after hidentifier hnot hbefore hafter =>
    have hname := List.all_eq_true.1 (all_isNameChar_of_isIdentifierChars hidentifier)
    have hsplit := split?_of_name hname hbefore hafter
    rw [ofChars_of_not_builtIn offset hsplit (by rwa [String.ofList_toList]),
      if_pos (show isIdentifierChars name.toList = true from hidentifier), if_pos rfl, String.ofList_toList]

/-- A text is read as a specifier exactly if it has the form of one, wherever it stands. -/
theorem ofChars_eq_ok_iff {text : List Char} {offset : Nat} {specifier : Specifier} :
    ofChars text offset = .ok specifier ↔ Spells text specifier :=
  ⟨spells_of_ofChars, fun h => ofChars_of_spells h offset⟩

end Specifier

end Invocation

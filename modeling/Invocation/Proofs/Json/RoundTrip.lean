/-
  What is written as JSON is read back.

  * `read_pretty`: the JSON text of a tree of texts, lists and objects is read
    as this tree, whatever characters its texts and the names of its fields
    hold;
  * `stringBody_escape`, `value?_pretty`: the same of the characters of a
    string and of a value, in front of anything. The fuel that is needed is
    the length of what is written;
  * `stringBody_escapeChar`: what stands for a character is read as it;
  * `Data.Textual`: trees of texts, lists and objects; `Tree.ofData` is a data
    tree as the value that is read.
-/
import Invocation.Json.Parser
import Invocation.Json.Printer

namespace Invocation

/-- A tree of texts, lists and objects. -/
inductive Data.Textual : Data → Prop where
  | text (s : String) : Textual (text s)
  | list {items : List Data} (h : ∀ d ∈ items, Textual d) : Textual (list items)
  | object {fields : List (String × Data)} (h : ∀ field ∈ fields, Textual field.2) :
      Textual (object fields)

/-- Items that are each read back as what they stand for are read back together. -/
theorem mapM_map_eq_some {α β γ : Type} {f : β → Option γ} {g : α → β} {h : α → γ} {xs : List α}
    (hread : ∀ x ∈ xs, f (g x) = some (h x)) : (xs.map g).mapM f = some (xs.map h) := by
  induction xs with
  | nil => rfl
  | cons x xs ih =>
    rw [List.map_cons, List.mapM_cons, hread x List.mem_cons_self,
      ih fun y hy => hread y (List.mem_cons_of_mem x hy)]
    rfl

namespace Json

/-! ## Data trees as values -/

namespace Tree

mutual

/-- The value that is written for a data tree. -/
def ofData : Data → Tree
  | .null => null
  | .bool b => bool b
  | .int n => int n
  | .float x => float x
  | .text s => string (some s)
  | .list items => list (ofItems items)
  | .object fields => object (ofFields fields)
  | .tagged tag payload => object [(some tag, ofData payload)]

/-- The values that are written for the items of a list. -/
def ofItems : List Data → List Tree
  | [] => []
  | d :: rest => ofData d :: ofItems rest

/-- The fields that are written for those of an object. -/
def ofFields : List (String × Data) → List (Option String × Tree)
  | [] => []
  | (k, d) :: rest => (some k, ofData d) :: ofFields rest

end

end Tree

/-! ## Strings -/

theorem hexValue?_hexDigit : ∀ n < 16, hexValue? (hexDigit n) = some n := by decide

theorem hexUnit?_of_lt {n : Nat} (h : n < 256) (rest : List Char) :
    hexUnit? ('0' :: '0' :: hexDigit (n / 16) :: hexDigit (n % 16) :: rest) = some (n, rest) := by
  have hzero : hexValue? '0' = some 0 := by decide
  have hhigh := hexValue?_hexDigit (n / 16) (by omega)
  have hlow := hexValue?_hexDigit (n % 16) (by omega)
  have hunit : ((0 * 16 + 0) * 16 + n / 16) * 16 + n % 16 = n := by omega
  simp only [hexUnit?, hzero, hhigh, hlow, Option.bind_eq_bind, Option.bind_some, hunit]

/-- The escape of a control character is read as that character. -/
theorem unicodeEscape?_control {c : Char} (h : c.toNat < 32) (rest : List Char) :
    unicodeEscape? ('0' :: '0' :: hexDigit (c.toNat / 16) :: hexDigit (c.toNat % 16) :: rest) =
      some (some c, rest) := by
  have hhigh : ¬ 0xD800 ≤ c.toNat := by omega
  have hlow : ¬ 0xDC00 ≤ c.toNat := by omega
  simp [unicodeEscape?, hexUnit?_of_lt (show c.toNat < 256 by omega), hhigh, hlow]

theorem stringBody_letter {letter c : Char} (hne : letter ≠ 'u') (hc : simpleEscape? letter = some c)
    (fuel : Nat) (rest : List Char) :
    stringBody (fuel + 1) ('\\' :: letter :: rest) =
      (stringBody fuel rest).map fun (tail, left) => (some c :: tail, left) := by
  rw [stringBody, hc]
  · cases stringBody fuel rest <;> rfl
  · exact hne

theorem stringBody_control {c : Char} (h : c.toNat < 32) (fuel : Nat) (rest : List Char) :
    stringBody (fuel + 1)
        ('\\' :: 'u' :: '0' :: '0' :: hexDigit (c.toNat / 16) :: hexDigit (c.toNat % 16) :: rest) =
      (stringBody fuel rest).map fun (tail, left) => (some c :: tail, left) := by
  simp only [stringBody, unicodeEscape?_control h, Option.bind_eq_bind, Option.bind_some]
  cases stringBody fuel rest <;> rfl

theorem stringBody_plain {c : Char} (hquote : c ≠ '"') (hbackslash : c ≠ '\\') (h : 32 ≤ c.toNat)
    (fuel : Nat) (rest : List Char) :
    stringBody (fuel + 1) (c :: rest) =
      (stringBody fuel rest).map fun (tail, left) => (some c :: tail, left) := by
  have hlow : ¬ c.toNat < 32 := Nat.not_lt.2 h
  rw [stringBody]
  · simp only [hlow, decide_false, beq_false_of_ne hbackslash, Bool.or_self, Bool.false_eq_true,
      if_false]
    cases stringBody fuel rest <;> rfl
  · exact hquote
  · exact fun _ heq _ => hbackslash heq
  · exact fun _ _ heq _ => hbackslash heq

/-- What stands for a character inside a string is read as this character. -/
theorem stringBody_escapeChar (fuel : Nat) (c : Char) (rest : List Char) :
    stringBody (fuel + 1) (escapeChar c ++ rest) =
      (stringBody fuel rest).map fun (tail, left) => (some c :: tail, left) := by
  unfold escapeChar
  split
  case isTrue h => subst h; exact stringBody_letter (by decide) rfl fuel rest
  case isFalse hquote =>
  split
  case isTrue h => subst h; exact stringBody_letter (by decide) rfl fuel rest
  case isFalse hbackslash =>
  split
  case isTrue h => exact stringBody_plain hquote hbackslash h fuel rest
  case isFalse hlow =>
  -- the controls below U+0020, of which five have a letter
  iterate 5
    split
    · next h => subst h; exact stringBody_letter (by decide) rfl fuel rest
  exact stringBody_control (Nat.not_le.1 hlow) fuel rest

theorem length_le_flatMap_escapeChar (cs : List Char) : cs.length ≤ (cs.flatMap escapeChar).length := by
  have hpos : ∀ c, 1 ≤ (escapeChar c).length := by
    intro c
    unfold escapeChar
    repeat' split
    all_goals simp
  induction cs with
  | nil => exact Nat.le_refl 0
  | cons c cs ih =>
    have hc := hpos c
    rw [List.flatMap_cons, List.length_append, List.length_cons]
    omega

/-- The characters of a string are read as those that are written. -/
theorem stringBody_escape {cs : List Char} {fuel : Nat} (h : cs.length < fuel) (rest : List Char) :
    stringBody fuel (cs.flatMap escapeChar ++ '"' :: rest) = some (cs.map some, rest) := by
  induction cs generalizing fuel with
  | nil =>
    obtain ⟨fuel, rfl⟩ := Nat.exists_eq_add_one.2 (Nat.zero_lt_of_lt h)
    rw [List.flatMap_nil, List.nil_append, stringBody, List.map_nil]
  | cons c cs ih =>
    obtain ⟨fuel, rfl⟩ := Nat.exists_eq_add_one.2 (Nat.zero_lt_of_lt h)
    rw [List.flatMap_cons, List.append_assoc, stringBody_escapeChar, ih (Nat.lt_of_succ_lt_succ h),
      Option.map_some, List.map_cons]

/-- A string is read as the text that is written, after the first of its quotation marks. -/
theorem string?_quote {s : String} {fuel : Nat} (h : (quote s).length ≤ fuel + 1) (rest : List Char) :
    string? fuel (s.toList.flatMap escapeChar ++ '"' :: rest) = some (some s, rest) := by
  have hlength := length_le_flatMap_escapeChar s.toList
  have hfuel : s.toList.length < fuel := by
    simp only [quote, List.length_cons, List.length_append, List.length_nil] at h
    omega
  have hparts : (s.toList.map some).mapM id = some (s.toList.map id) :=
    mapM_map_eq_some fun _ _ => rfl
  simp only [string?, stringBody_escape hfuel, Option.map_some, hparts, List.map_id,
    String.ofList_toList]

/-! ## Blanks -/

theorem skipSpace_of_head {c : Char} (h : isSpace c = false) (cs : List Char) :
    skipSpace (c :: cs) = c :: cs := List.dropWhile_cons_of_neg (by rw [h]; decide)

theorem skipSpace_blank (cs : List Char) : skipSpace (' ' :: cs) = skipSpace cs :=
  List.dropWhile_cons_of_pos rfl

theorem skipSpace_newLine (level : Nat) (cs : List Char) :
    skipSpace (newLine level ++ cs) = skipSpace cs := by
  refine List.dropWhile_append_of_pos fun b hb => ?_
  rcases List.mem_cons.1 hb with rfl | hb
  · rfl
  · rw [List.eq_of_mem_replicate hb]; rfl

/-! ## Values -/

/-- Whether a character can be the first one of a text, a list or an object. -/
def IsOpening (c : Char) : Prop := c = '"' ∨ c = '[' ∨ c = '{'

theorem IsOpening.not_isSpace {c : Char} (h : IsOpening c) : isSpace c = false := by
  rcases h with rfl | rfl | rfl <;> decide

theorem IsOpening.not_closing {c : Char} (h : IsOpening c) : c ≠ ']' := by
  rcases h with rfl | rfl | rfl <;> decide

theorem exists_opening {d : Data} (h : d.Textual) (level : Nat) :
    ∃ c tail, prettyChars level d = c :: tail ∧ IsOpening c := by
  cases h with
  | text s => exact ⟨_, _, rfl, .inl rfl⟩
  | @list items _ => cases items <;> exact ⟨_, _, rfl, .inr (.inl rfl)⟩
  | @object fields _ => cases fields <;> exact ⟨_, _, rfl, .inr (.inr rfl)⟩

/-- Nothing is written as an empty text, so the length of what is written leaves fuel for a step. -/
theorem exists_fuel {d : Data} (h : d.Textual) {level fuel : Nat}
    (hfuel : (prettyChars level d).length ≤ fuel) : ∃ n, fuel = n + 1 := by
  obtain ⟨c, tail, heq, -⟩ := exists_opening h level
  rw [heq, List.length_cons] at hfuel
  exact Nat.exists_eq_add_one.2 (Nat.zero_lt_of_lt hfuel)

theorem skipSpace_pretty {d : Data} (h : d.Textual) (level : Nat) (rest : List Char) :
    skipSpace (prettyChars level d ++ rest) = prettyChars level d ++ rest := by
  obtain ⟨c, tail, heq, hopening⟩ := exists_opening h level
  rw [heq, List.cons_append, skipSpace_of_head hopening.not_isSpace]

theorem quote_append (s : String) (rest : List Char) :
    quote s ++ rest = '"' :: (s.toList.flatMap escapeChar ++ '"' :: rest) := by simp [quote]

theorem skipSpace_quote (s : String) (rest : List Char) :
    skipSpace (quote s ++ rest) = quote s ++ rest := by
  rw [quote_append, @skipSpace_of_head '"' rfl]

/-- A tree is read as it is written, at each level and in front of anything. -/
def Reads (d : Data) : Prop :=
  ∀ level fuel rest, (prettyChars level d).length ≤ fuel →
    value? fuel (prettyChars level d ++ rest) = some (Tree.ofData d, rest)

theorem reads_text (s : String) : Reads (.text s) := by
  intro level fuel rest h
  obtain ⟨fuel, rfl⟩ := exists_fuel (.text s) h
  have hstring := string?_quote h rest
  simp only [prettyChars, atomChars, quote_append, value?, hstring, Option.map_some, Tree.ofData]

/-! ## Lists -/

theorem prettyItems_cons (level : Nat) (d : Data) (ds : List Data) (rest : List Char) :
    prettyItems level false (d :: ds) ++ rest =
      ',' :: (newLine level ++ (prettyChars level d ++ (prettyItems level false ds ++ rest))) := by
  simp [prettyItems]

theorem pretty_list_cons (level : Nat) (d : Data) (ds : List Data) (rest : List Char) :
    prettyChars level (.list (d :: ds)) ++ rest =
      '[' :: (newLine (level + 1) ++ (prettyChars (level + 1) d ++
        (prettyItems (level + 1) false ds ++ (newLine level ++ ']' :: rest)))) := by
  simp [prettyChars, prettyItems]

/-- The items of a list are read from the first one on, if each item is read. -/
theorem items?_pretty {level fuel : Nat} {d : Data} {ds : List Data}
    (htextual : ∀ e ∈ d :: ds, e.Textual) (hreads : ∀ e ∈ d :: ds, Reads e)
    (h : (prettyChars level d ++ prettyItems level false ds).length < fuel) (outer : Nat)
    (rest : List Char) :
    items? fuel
        (prettyChars level d ++ (prettyItems level false ds ++ (newLine outer ++ ']' :: rest))) =
      some (Tree.ofItems (d :: ds), rest) := by
  induction ds generalizing d fuel with
  | nil =>
    obtain ⟨fuel, rfl⟩ := Nat.exists_eq_add_one.2 (Nat.zero_lt_of_lt h)
    rw [List.length_append] at h
    have hd := hreads d List.mem_cons_self level fuel (newLine outer ++ ']' :: rest) (by omega)
    simp only [items?, prettyItems, List.nil_append, hd, skipSpace_newLine, @skipSpace_of_head ']' rfl,
      Option.bind_eq_bind, Option.bind_some, Tree.ofItems]
  | cons e ds ih =>
    obtain ⟨fuel, rfl⟩ := Nat.exists_eq_add_one.2 (Nat.zero_lt_of_lt h)
    have hlength := congrArg List.length (prettyItems_cons level e ds [])
    simp only [List.append_nil, List.length_append, List.length_cons] at h hlength
    have hfuel : (prettyChars level e ++ prettyItems level false ds).length < fuel := by
      rw [List.length_append]
      omega
    have hds := ih (fun e' he' => htextual e' (List.mem_cons_of_mem d he'))
      (fun e' he' => hreads e' (List.mem_cons_of_mem d he')) hfuel
    have he := htextual e (List.mem_cons_of_mem d List.mem_cons_self)
    have hd := hreads d List.mem_cons_self level fuel
      (prettyItems level false (e :: ds) ++ (newLine outer ++ ']' :: rest)) (by omega)
    rw [prettyItems_cons] at hd ⊢
    simp only [items?, hd, @skipSpace_of_head ',' rfl, skipSpace_newLine, skipSpace_pretty he, hds,
      Option.bind_eq_bind, Option.bind_some, Tree.ofItems]

theorem value?_items {c : Char} {cs rest : List Char} (hskip : skipSpace cs = c :: rest)
    (hne : c ≠ ']') (fuel : Nat) :
    value? (fuel + 1) ('[' :: cs) =
      (items? fuel (c :: rest)).map fun (items, left) => (.list items, left) := by
  simp only [value?, hskip]
  split
  · next heq => exact absurd (List.head_eq_of_cons_eq heq) hne
  · rfl

theorem reads_list {items : List Data} (htextual : ∀ d ∈ items, d.Textual)
    (hreads : ∀ d ∈ items, Reads d) : Reads (.list items) := by
  intro level fuel rest h
  obtain ⟨fuel, rfl⟩ := exists_fuel (.list htextual) h
  cases items with
  | nil =>
    simp only [prettyChars, List.cons_append, List.nil_append, value?,
      @skipSpace_of_head ']' rfl, Tree.ofData, Tree.ofItems]
  | cons d ds =>
    have hfuel : (prettyChars (level + 1) d ++ prettyItems (level + 1) false ds).length < fuel := by
      have hlength := congrArg List.length (pretty_list_cons level d ds rest)
      simp only [List.length_append, List.length_cons] at h hlength ⊢
      omega
    have hitems := items?_pretty htextual hreads hfuel level rest
    have hd := htextual d List.mem_cons_self
    have hskip := skipSpace_pretty hd (level + 1)
      (prettyItems (level + 1) false ds ++ (newLine level ++ ']' :: rest))
    -- the list is not taken for an empty one
    obtain ⟨c, tail, hc, hopening⟩ := exists_opening hd (level + 1)
    rw [← skipSpace_newLine (level + 1), hc, List.cons_append] at hskip
    rw [hc, List.cons_append] at hitems
    rw [pretty_list_cons, hc, List.cons_append, value?_items hskip hopening.not_closing, hitems,
      Option.map_some, Tree.ofData]

/-! ## Objects -/

theorem prettyFields_cons (level : Nat) (k : String) (d : Data) (fields : List (String × Data))
    (rest : List Char) :
    prettyFields level false ((k, d) :: fields) ++ rest =
      ',' :: (newLine level ++ (quote k ++ (':' :: ' ' ::
        (prettyChars level d ++ (prettyFields level false fields ++ rest))))) := by
  simp [prettyFields]

theorem pretty_object_cons (level : Nat) (k : String) (d : Data) (fields : List (String × Data))
    (rest : List Char) :
    prettyChars level (.object ((k, d) :: fields)) ++ rest =
      '{' :: (newLine (level + 1) ++ (quote k ++ (':' :: ' ' :: (prettyChars (level + 1) d ++
        (prettyFields (level + 1) false fields ++ (newLine level ++ '}' :: rest)))))) := by
  simp [prettyChars, prettyFields]

/-- The last field of an object is read up to the closing brace. -/
theorem fields?_last {level fuel : Nat} {d : Data} (htextual : d.Textual) (hreads : Reads d)
    {k : String} (h : (quote k).length + (prettyChars level d).length ≤ fuel)
    {rest left : List Char} (hrest : skipSpace rest = '}' :: left) :
    fields? (fuel + 1) (quote k ++ (':' :: ' ' :: (prettyChars level d ++ rest))) =
      some ([(some k, Tree.ofData d)], left) := by
  have hk := @string?_quote k fuel (by omega)
  have hd := hreads level fuel rest (by omega)
  simp only [fields?, quote_append, hk, @skipSpace_of_head ':' rfl, skipSpace_blank,
    skipSpace_pretty htextual, hd, hrest, Option.bind_eq_bind, Option.bind_some]

/-- A field before a comma is read up to it. -/
theorem fields?_more {level fuel : Nat} {d : Data} (htextual : d.Textual) (hreads : Reads d)
    {k : String} (h : (quote k).length + (prettyChars level d).length ≤ fuel)
    {rest rest' : List Char} (hrest : skipSpace rest = ',' :: rest')
    {fields : List (Option String × Tree)} {left : List Char}
    (hfields : fields? fuel (skipSpace rest') = some (fields, left)) :
    fields? (fuel + 1) (quote k ++ (':' :: ' ' :: (prettyChars level d ++ rest))) =
      some ((some k, Tree.ofData d) :: fields, left) := by
  have hk := @string?_quote k fuel (by omega)
  have hd := hreads level fuel rest (by omega)
  simp only [fields?, quote_append, hk, @skipSpace_of_head ':' rfl, skipSpace_blank,
    skipSpace_pretty htextual, hd, hrest, hfields, Option.bind_eq_bind, Option.bind_some]

/-- The fields of an object are read from the first one on, if the tree of each field is read. -/
theorem fields?_pretty {level fuel : Nat} {k : String} {d : Data} {fields : List (String × Data)}
    (htextual : ∀ field ∈ (k, d) :: fields, field.2.Textual)
    (hreads : ∀ field ∈ (k, d) :: fields, Reads field.2)
    (h : (quote k ++ (prettyChars level d ++ prettyFields level false fields)).length < fuel)
    (outer : Nat) (rest : List Char) :
    fields? fuel
        (quote k ++ (':' :: ' ' :: (prettyChars level d ++
          (prettyFields level false fields ++ (newLine outer ++ '}' :: rest))))) =
      some (Tree.ofFields ((k, d) :: fields), rest) := by
  induction fields generalizing k d fuel with
  | nil =>
    obtain ⟨fuel, rfl⟩ := Nat.exists_eq_add_one.2 (Nat.zero_lt_of_lt h)
    simp only [List.length_append] at h
    have hclose : skipSpace (newLine outer ++ '}' :: rest) = '}' :: rest := by
      rw [skipSpace_newLine, @skipSpace_of_head '}' rfl]
    have hd : d.Textual := htextual (k, d) List.mem_cons_self
    have hreadsd : Reads d := hreads (k, d) List.mem_cons_self
    rw [prettyFields, List.nil_append]
    exact fields?_last hd hreadsd (by omega) hclose
  | cons field fields ih =>
    obtain ⟨l, e⟩ := field
    obtain ⟨fuel, rfl⟩ := Nat.exists_eq_add_one.2 (Nat.zero_lt_of_lt h)
    have hlength := congrArg List.length (prettyFields_cons level l e fields [])
    simp only [List.append_nil, List.length_append, List.length_cons] at h hlength
    have hfuel : (quote l ++ (prettyChars level e ++ prettyFields level false fields)).length < fuel := by
      simp only [List.length_append]
      omega
    have hfields := ih (fun field' h' => htextual field' (List.mem_cons_of_mem (k, d) h'))
      (fun field' h' => hreads field' (List.mem_cons_of_mem (k, d) h')) hfuel
    -- the next name is what stands after the comma and the line break
    rw [← skipSpace_quote, ← skipSpace_newLine level] at hfields
    have hcomma := @skipSpace_of_head ',' rfl
    have hd : d.Textual := htextual (k, d) List.mem_cons_self
    have hreadsd : Reads d := hreads (k, d) List.mem_cons_self
    rw [prettyFields_cons]
    exact fields?_more hd hreadsd (by omega) (hcomma _) hfields

theorem value?_fields {cs rest : List Char} (hskip : skipSpace cs = '"' :: rest) (fuel : Nat) :
    value? (fuel + 1) ('{' :: cs) =
      (fields? fuel ('"' :: rest)).map fun (fields, left) => (.object fields, left) := by
  simp only [value?, hskip]
  rfl

theorem reads_object {fields : List (String × Data)} (htextual : ∀ field ∈ fields, field.2.Textual)
    (hreads : ∀ field ∈ fields, Reads field.2) : Reads (.object fields) := by
  intro level fuel rest h
  obtain ⟨fuel, rfl⟩ := exists_fuel (.object htextual) h
  cases fields with
  | nil =>
    simp only [prettyChars, List.cons_append, List.nil_append, value?,
      @skipSpace_of_head '}' rfl, Tree.ofData, Tree.ofFields]
  | cons field fields =>
    obtain ⟨k, d⟩ := field
    have hfuel : (quote k ++ (prettyChars (level + 1) d ++
        prettyFields (level + 1) false fields)).length < fuel := by
      have hlength := congrArg List.length (pretty_object_cons level k d fields rest)
      simp only [List.length_append, List.length_cons] at h hlength ⊢
      omega
    have hfields := fields?_pretty htextual hreads hfuel level rest
    have hname (cs : List Char) : skipSpace (newLine (level + 1) ++ '"' :: cs) = '"' :: cs := by
      rw [skipSpace_newLine, @skipSpace_of_head '"' rfl]
    rw [quote_append] at hfields
    rw [pretty_object_cons, quote_append, value?_fields (hname _), hfields, Option.map_some, Tree.ofData]

/-! ## The whole text -/

/-- What is written for a tree of texts, lists and objects is read as this tree. -/
theorem value?_pretty {d : Data} (h : d.Textual) : Reads d := by
  induction h with
  | text s => exact reads_text s
  | list h ih => exact reads_list h ih
  | object h ih => exact reads_object h ih

/-- **The JSON text of a tree of texts, lists and objects is read as this tree**, whatever characters
its texts and the names of its fields hold. -/
theorem read_pretty {d : Data} (h : d.Textual) : read (pretty d) = some (Tree.ofData d) := by
  have hskip := skipSpace_pretty h 0 []
  have hvalue := value?_pretty h 0 (2 * (prettyChars 0 d).length + 2) [] (by omega)
  rw [List.append_nil] at hskip hvalue
  simp only [read, pretty, String.toList_ofList, hskip, hvalue, Option.bind_eq_bind, Option.bind_some]
  rfl

end Json

end Invocation

/-
  Blanks, and what trimming and splitting leave of a text.

  * `isNameChar_of_isBlank`: no blank stands in a name;
  * `exists_trimChars`, `trimChars_append`: trimming takes blanks off both
    ends and nothing else; `trim_trim`: to trim again changes nothing;
  * `mem_words`: words are not empty and hold no blanks;
    `wordsOfChars_of_two`: two runs without blanks and a blank between them
    are two words.
-/
import Invocation.Text.Blank
import Invocation.Text.Identifier
import Mathlib.Data.List.DropRight
import Mathlib.Data.List.TakeWhile

namespace Invocation.Text

/-! ## Classes of characters -/

/-- The code points of ranges. -/
def Ranges.points (rs : Ranges) : List Nat := rs.flatMap fun (lo, hi) => List.range' lo (hi + 1 - lo)

theorem Ranges.mem_points_of_has {rs : Ranges} {n : Nat} (h : rs.has n = true) : n ∈ rs.points := by
  induction rs with
  | nil => cases h
  | cons r rest ih =>
    obtain ⟨lo, hi⟩ := r
    rw [has_cons] at h
    split at h
    · cases h
    · next hlo =>
      rw [points, List.flatMap_cons, List.mem_append]
      rcases Bool.or_eq_true _ _ ▸ h with hhi | hrest
      · have hhi : n ≤ hi := of_decide_eq_true hhi
        exact Or.inl (List.mem_range'_1.2 (by omega))
      · exact Or.inr (ih hrest)

/-- No blank stands in a name. -/
theorem isNameChar_of_isBlank {c : Char} (h : isBlank c = true) : isNameChar c = false := by
  have hpoints : ∀ n ∈ blankRanges.points,
      (alphabeticRanges.has n || (decimalDigitRanges.has n || otherNumberRanges.has n) ||
        n == '_'.toNat || n == '-'.toNat) = false := by
    decide +kernel
  have hc := hpoints c.toNat (Ranges.mem_points_of_has h)
  simp only [Bool.or_eq_false_iff, beq_eq_false_iff_ne, ne_eq, Char.toNat_inj] at hc
  simp [isNameChar, isAlphabetic, isNumeric, isDecimalDigit, hc]

theorem isBlank_of_isNameChar {c : Char} (h : isNameChar c = true) : isBlank c = false := by
  by_contra hb
  rw [isNameChar_of_isBlank (Bool.not_eq_false _ ▸ hb)] at h
  cases h

/-! ## Trimming -/

/-- Characters all of which are blanks. -/
def Blanks (cs : List Char) : Prop := ∀ c ∈ cs, isBlank c = true

theorem blanks_nil : Blanks [] := fun _ h => absurd h List.not_mem_nil

/-- Trimming takes blanks off both ends. -/
theorem exists_trimChars (cs : List Char) :
    ∃ before after, Blanks before ∧ Blanks after ∧ cs = before ++ trimChars cs ++ after := by
  refine ⟨cs.takeWhile isBlank, ((cs.dropWhile isBlank).reverse.takeWhile isBlank).reverse,
    fun c hc => List.mem_takeWhile_imp hc,
    fun c hc => List.mem_takeWhile_imp (List.mem_reverse.1 hc), ?_⟩
  rw [trimChars, trimEndChars, trimStartChars, List.append_assoc, ← List.reverse_append,
    List.takeWhile_append_dropWhile, List.reverse_reverse, List.takeWhile_append_dropWhile]

theorem dropWhile_isBlank_append {before cs : List Char} (hb : Blanks before)
    (hcs : ∀ c ∈ cs.head?, isBlank c = false) : (before ++ cs).dropWhile isBlank = cs := by
  rw [List.dropWhile_append_of_pos hb]
  cases cs with
  | nil => rfl
  | cons c cs => exact List.dropWhile_cons_of_neg (by simp [hcs c rfl])

/-- What begins and ends with other characters than blanks is what trimming leaves. -/
theorem trimChars_append {before cs after : List Char} (hb : Blanks before) (ha : Blanks after)
    (hcs : ∀ c ∈ cs, isBlank c = false) : trimChars (before ++ cs ++ after) = cs := by
  have hhead : ∀ {ds : List Char}, (∀ c ∈ ds, isBlank c = false) → ∀ c ∈ ds.head?, isBlank c = false :=
    fun h c hc => h c (List.mem_of_mem_head? hc)
  cases cs with
  | nil =>
    have hall : Blanks (before ++ [] ++ after) := by
      rw [List.append_nil]
      exact fun c hc => (List.mem_append.1 hc).elim (hb c) (ha c)
    rw [trimChars, trimEndChars, trimStartChars, List.dropWhile_eq_nil_iff.2 hall]
    rfl
  | cons c cs =>
    have hstart : trimStartChars (before ++ (c :: cs) ++ after) = (c :: cs) ++ after := by
      rw [trimStartChars, List.append_assoc]
      exact dropWhile_isBlank_append hb fun d hd => hcs d (by simp_all)
    have hrev : ((c :: cs) ++ after).reverse.dropWhile isBlank = (c :: cs).reverse := by
      rw [List.reverse_append]
      exact dropWhile_isBlank_append (fun d hd => ha d (List.mem_reverse.1 hd))
        (hhead fun d hd => hcs d (List.mem_reverse.1 hd))
    rw [trimChars, hstart, trimEndChars, hrev, List.reverse_reverse]

theorem trimChars_append_of_isNameChar {before cs after : List Char} (hb : Blanks before) (ha : Blanks after)
    (hcs : ∀ c ∈ cs, isNameChar c = true) : trimChars (before ++ cs ++ after) = cs :=
  trimChars_append hb ha fun c hc => isBlank_of_isNameChar (hcs c hc)

/-- What trimming leaves does not begin with a blank. -/
theorem isBlank_head_trimChars {cs : List Char} : ∀ c ∈ (trimChars cs).head?, isBlank c = false := by
  obtain ⟨rest, hrest⟩ : trimChars cs <+: trimStartChars cs := by
    rw [trimChars, trimEndChars, ← List.reverse_suffix, List.reverse_reverse]
    exact List.dropWhile_suffix _
  intro c hc
  have hhead := List.head?_dropWhile_not isBlank cs
  rw [← trimStartChars, ← hrest, List.head?_append, Option.mem_def.1 hc] at hhead
  simpa using hhead

/-- What is trimmed is trimmed once and for all. -/
theorem trimChars_trimChars (cs : List Char) : trimChars (trimChars cs) = trimChars cs := by
  have hstart : trimStartChars (trimChars cs) = trimChars cs :=
    dropWhile_isBlank_append blanks_nil isBlank_head_trimChars
  rw [trimChars, hstart, trimChars, trimEndChars, trimEndChars, List.reverse_reverse,
    List.dropWhile_idempotent]

theorem trim_trim (s : String) : trim (trim s) = trim s := by
  rw [trim, trim, String.toList_ofList, trimChars_trimChars]

/-! ## Words -/

theorem wordsFrom_of_not_blank {word cs : List Char} (hcs : ∀ c ∈ cs, isBlank c = false)
    (hne : word ++ cs ≠ []) : wordsFrom word cs = [word ++ cs] := by
  induction cs generalizing word with
  | nil =>
    rw [List.append_nil] at hne
    simp [wordsFrom, hne]
  | cons c cs ih =>
    rw [wordsFrom, hcs c List.mem_cons_self, if_neg Bool.false_ne_true,
      ih (fun d hd => hcs d (List.mem_cons_of_mem c hd)) (by simp), List.append_assoc,
      List.singleton_append]

theorem wordsOfChars_of_not_blank {cs : List Char} (hcs : ∀ c ∈ cs, isBlank c = false) (hne : cs ≠ []) :
    wordsOfChars cs = [cs] :=
  wordsFrom_of_not_blank hcs hne

/-- A word is not empty and holds no blank. -/
theorem mem_wordsFrom {word cs w : List Char} (hword : ∀ c ∈ word, isBlank c = false)
    (hw : w ∈ wordsFrom word cs) : w ≠ [] ∧ ∀ c ∈ w, isBlank c = false := by
  induction cs generalizing word with
  | nil =>
    rw [wordsFrom] at hw
    split at hw
    · cases hw
    · next hne =>
      obtain rfl := List.mem_singleton.1 hw
      exact ⟨by simpa using hne, hword⟩
  | cons c cs ih =>
    rw [wordsFrom] at hw
    split at hw
    · split at hw
      · exact ih (by simp) hw
      · next hne =>
        rcases List.mem_cons.1 hw with rfl | hw
        · exact ⟨by simpa using hne, hword⟩
        · exact ih (by simp) hw
    · next hc =>
      refine ih (fun d hd => ?_) hw
      rcases List.mem_append.1 hd with hd | hd
      · exact hword d hd
      · rw [List.mem_singleton.1 hd]
        exact Bool.eq_false_iff.2 hc

theorem mem_words {s w : String} (hw : w ∈ words s) :
    w.toList ≠ [] ∧ ∀ c ∈ w.toList, isBlank c = false := by
  obtain ⟨cs, hcs, rfl⟩ := List.mem_map.1 hw
  rw [String.toList_ofList]
  exact mem_wordsFrom (by simp) hcs

/-- Two runs without blanks and a blank between them are two words. -/
theorem wordsOfChars_of_two {b : Char} {xs ys : List Char} (hb : isBlank b = true)
    (hxs : ∀ c ∈ xs, isBlank c = false) (hys : ∀ c ∈ ys, isBlank c = false) (hx : xs ≠ [])
    (hy : ys ≠ []) : wordsOfChars (xs ++ b :: ys) = [xs, ys] := by
  rw [wordsOfChars_append_blank hb, wordsOfChars_of_not_blank hxs hx, wordsOfChars_of_not_blank hys hy,
    List.singleton_append]

end Invocation.Text

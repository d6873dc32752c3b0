/-
  Lower case once is lower case for good.

  The lower-case characters of a run of capitals make a run again, which no
  run of capitals meets.

  * `CaseRun.clears`, `CaseRun.isLegal`: the checks on the table of runs;
  * `isSettled_lowerChar`: the lower-case character of a character is its own
    lower case, and neither of the two capitals with a rule of their own;
  * `lowercase_lowercase`: so a text in lower case is its own lower case.
-/
import Invocation.Text.Lowercase

namespace Invocation.Text

/-! ## Runs of capitals -/

/-- A run of capitals: first and last code point, step, and distance to the lower case. -/
abbrev CaseRun := Nat × Nat × Nat × Int

namespace CaseRun

/-- Whether a code point belongs to a run. -/
def Has : CaseRun → Nat → Prop
  | (lo, hi, step, _), c => lo ≤ c ∧ c ≤ hi ∧ (c - lo) % step = 0

/-- The lower case of the first capital of a run. -/
def lowerFirst : CaseRun → Nat
  | (lo, _, _, delta) => (lo + delta).toNat

/-- The lower case of the last capital of a run. -/
def lowerLast : CaseRun → Nat
  | (_, hi, _, delta) => (hi + delta).toNat

/-- Whether the lower case of a run meets no capital of another one: it lies before or behind it, or
both have every second code point and not the same ones. -/
def clears : CaseRun → CaseRun → Bool
  | (first, last, step, delta), (lo, hi, step', _) =>
    let lowerFirst := lowerFirst (first, last, step, delta)
    let lowerLast := lowerLast (first, last, step, delta)
    Nat.blt lowerLast lo || Nat.blt hi lowerFirst ||
      (Nat.beq step' 2 && (Nat.beq step 2 || Nat.beq lowerFirst lowerLast) &&
        Nat.beq ((lowerFirst + lo) % 2) 1)

/-- Whether the lower case of a run consists of characters, none of which is the capital I with a
dot. -/
def isLegal (run : CaseRun) : Bool :=
  Nat.blt 0 (lowerFirst run) &&
    (Nat.blt (lowerLast run) 0x130 || Nat.blt 0x130 (lowerFirst run)) &&
    (Nat.blt (lowerLast run) 0xD800 ||
      (Nat.blt 0xDFFF (lowerFirst run) && Nat.blt (lowerLast run) 0x110000))

theorem clears_of_mem {run other : CaseRun} (hrun : run ∈ lowerRuns) (hother : other ∈ lowerRuns) :
    clears run other = true := by
  have hall : (lowerRuns.all fun run => lowerRuns.all (clears run)) = true := by decide +kernel
  exact List.all_eq_true.1 (List.all_eq_true.1 hall run hrun) other hother

theorem isLegal_of_mem {run : CaseRun} (hrun : run ∈ lowerRuns) : isLegal run = true := by
  have hall : (lowerRuns.all isLegal) = true := by decide +kernel
  exact List.all_eq_true.1 hall run hrun

/-- The lower case of a capital lies between those of the first and the last one. -/
theorem between_of_has {run : CaseRun} {c : Nat} (h : run.Has c) :
    lowerFirst run ≤ (c + run.2.2.2).toNat ∧ (c + run.2.2.2).toNat ≤ lowerLast run := by
  obtain ⟨lo, hi, step, delta⟩ := run
  obtain ⟨hlo, hhi, -⟩ : lo ≤ c ∧ c ≤ hi ∧ (c - lo) % step = 0 := h
  simp only [lowerFirst, lowerLast]
  omega

theorem not_has_of_clears {run other : CaseRun} {c : Nat} (hclears : clears run other = true)
    (hlegal : isLegal run = true) (h : run.Has c) : ¬ other.Has (c + run.2.2.2).toNat := by
  have hbetween := between_of_has h
  obtain ⟨first, last, step, delta⟩ := run
  obtain ⟨lo, hi, step', delta'⟩ := other
  obtain ⟨hfirst, hlast, hstep⟩ : first ≤ c ∧ c ≤ last ∧ (c - first) % step = 0 := h
  rintro ⟨hlo, hhi, hstep'⟩
  have hpos : 0 < lowerFirst (first, last, step, delta) := by
    simp only [isLegal, Bool.and_eq_true, Nat.blt_eq] at hlegal
    exact hlegal.1.1
  simp only [clears, Bool.or_eq_true, Bool.and_eq_true, Nat.blt_eq, Nat.beq_eq] at hclears
  rcases hclears with (hbefore | hbehind) | ⟨⟨rfl, hparity⟩, hodd⟩
  · omega
  · omega
  · -- both have every second code point, or the run is one capital
    simp only [lowerFirst, lowerLast] at *
    rcases hparity with rfl | hsingle
    · omega
    · omega

end CaseRun

/-! ## Lower case of a code point -/

theorem lowerBy_of_not_has {runs : List CaseRun} {c : Nat} (h : ∀ run ∈ runs, ¬ CaseRun.Has run c) :
    lowerBy runs c = c := by
  induction runs with
  | nil => rfl
  | cons run rest ih =>
    obtain ⟨hrun, hrest⟩ := List.forall_mem_cons.1 h
    obtain ⟨lo, hi, step, delta⟩ := run
    rw [lowerBy]
    split
    · rfl
    split
    · next hlo hin =>
      simp only [Bool.and_eq_true, decide_eq_true_eq, beq_iff_eq] at hin
      exact absurd ⟨Nat.le_of_not_lt hlo, hin.1, hin.2⟩ hrun
    · exact ih hrest

/-- A code point is its own lower case, or a capital of some run. -/
theorem lowerBy_cases (runs : List CaseRun) (c : Nat) :
    lowerBy runs c = c ∨
      ∃ run ∈ runs, CaseRun.Has run c ∧ lowerBy runs c = (c + run.2.2.2).toNat := by
  induction runs with
  | nil => exact .inl rfl
  | cons run rest ih =>
    obtain ⟨lo, hi, step, delta⟩ := run
    rw [lowerBy]
    split
    · exact .inl rfl
    split
    · next hlo hin =>
      simp only [Bool.and_eq_true, decide_eq_true_eq, beq_iff_eq] at hin
      exact .inr ⟨_, List.mem_cons_self, ⟨Nat.le_of_not_lt hlo, hin.1, hin.2⟩, rfl⟩
    · exact ih.imp_right fun ⟨run, hrun, h⟩ => ⟨run, List.mem_cons_of_mem _ hrun, h⟩

/-! ## Lower case of a text -/

/-- Whether a character is its own lower case in every text. -/
def IsSettled (c : Char) : Prop := c ≠ '\u03a3' ∧ c ≠ '\u0130' ∧ lowerChar c = c

instance (c : Char) : Decidable (IsSettled c) := inferInstanceAs (Decidable (_ ∧ _ ∧ _))

/-- The lower-case character of a character is settled. The capital I with a dot has none. -/
theorem isSettled_lowerChar {c : Char} (h : c ≠ '\u0130') : IsSettled (lowerChar c) := by
  have hsigma : lowerChar '\u03a3' ≠ '\u03a3' := by decide
  rcases lowerBy_cases lowerRuns c.toNat with hself | ⟨run, hrun, hhas, hlower⟩
  · have hc : lowerChar c = c := by rw [lowerChar, hself, Char.ofNat_toNat]
    rw [hc]
    exact ⟨fun heq => hsigma (heq ▸ hc), h, hc⟩
  · have hlegal := CaseRun.isLegal_of_mem hrun
    have hbetween := CaseRun.between_of_has hhas
    have hfixed : lowerBy lowerRuns (c.toNat + run.2.2.2).toNat = (c.toNat + run.2.2.2).toNat :=
      lowerBy_of_not_has fun other hother =>
        CaseRun.not_has_of_clears (CaseRun.clears_of_mem hrun hother) hlegal hhas
    rw [lowerChar, hlower]
    generalize (c.toNat + run.2.2.2).toNat = n at hbetween hfixed
    simp only [CaseRun.isLegal, Bool.and_eq_true, Bool.or_eq_true, Nat.blt_eq] at hlegal
    have hvalid : n.isValidChar := by
      simp only [Nat.isValidChar]
      omega
    have htoNat : (Char.ofNat n).toNat = n := by
      rw [Char.ofNat, dif_pos hvalid]
      rfl
    have hlowered : lowerChar (Char.ofNat n) = Char.ofNat n := by rw [lowerChar, htoNat, hfixed]
    refine ⟨fun heq => hsigma (heq ▸ hlowered), fun heq => ?_, hlowered⟩
    have hn : n = 0x130 := by rw [← htoNat, heq]; rfl
    omega

/-- Every character of a text in lower case is settled. -/
theorem isSettled_of_mem_lowerAfter {before cs : List Char} {c : Char}
    (h : c ∈ lowerAfter before cs) : IsSettled c := by
  have hsigma : IsSettled '\u03c3' := by decide
  have hfinal : IsSettled '\u03c2' := by decide
  have hi : IsSettled 'i' := by decide
  have hdot : IsSettled '\u0307' := by decide
  induction cs generalizing before with
  | nil => exact absurd h List.not_mem_nil
  | cons d rest ih =>
    rw [lowerAfter] at h
    split at h
    · rcases List.mem_cons.1 h with rfl | h
      · split
        · exact hfinal
        · exact hsigma
      · exact ih h
    split at h
    · rcases List.mem_cons.1 h with rfl | h
      · exact hi
      rcases List.mem_cons.1 h with rfl | h
      · exact hdot
      · exact ih h
    · next hne =>
      rcases List.mem_cons.1 h with rfl | h
      · exact isSettled_lowerChar hne
      · exact ih h

/-- Settled characters stay as they are. -/
theorem lowerAfter_of_isSettled {cs : List Char} (h : ∀ c ∈ cs, IsSettled c) (before : List Char) :
    lowerAfter before cs = cs := by
  induction cs generalizing before with
  | nil => rfl
  | cons c rest ih =>
    obtain ⟨⟨hsigma, hdotted, hlower⟩, hrest⟩ := List.forall_mem_cons.1 h
    rw [lowerAfter, if_neg hsigma, if_neg hdotted, hlower, ih hrest]

/-- **A text in lower case is its own lower case.** -/
theorem lowercase_lowercase (s : String) : lowercase (lowercase s) = lowercase s := by
  have hsettled : lowerChars (lowerChars s.toList) = lowerChars s.toList :=
    lowerAfter_of_isSettled (fun _ => isSettled_of_mem_lowerAfter) []
  rw [lowercase, lowercase, String.toList_ofList, hsettled]

end Invocation.Text

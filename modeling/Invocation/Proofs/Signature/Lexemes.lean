/-
  How a text splits into lexemes.

  * `Lexeme.Splits`: a text is blanks and lexemes in turn, where a name is a
    maximal run of name characters and a specifier ends at the first closing
    parenthesis;
  * `splits_of_scanFrom`, `scanFrom_of_splits`: scanning finds the lexemes of
    a text, and fails only if it splits into none; `splits_trimChars`: blanks
    at the ends of a text change nothing; `Splits.append`: two texts in a row;
  * `LaidOut`: texts in a row with blanks at will. `splits_of_laidOut`: where
    they are texts of lexemes, they split into these lexemes.
-/
import Invocation.Proofs.Text.Blank
import Invocation.Signature.Lexeme
import Mathlib.Data.List.Forall2
import Mathlib.Data.List.Induction

namespace Invocation.Lexeme

open Invocation.Text

/-- A text splits into lexemes, with any blanks before, between and after them. -/
inductive Splits : List Char → List Lexeme → Prop
  | nil : Splits [] []
  | blank {b cs ls} (hb : isBlank b = true) (h : Splits cs ls) : Splits (b :: cs) ls
  | opening (b : Bracket) {cs ls} (h : Splits cs ls) : Splits (b.opener :: cs) (opening b :: ls)
  | closing (b : Bracket) {cs ls} (h : Splits cs ls) : Splits (b.closer :: cs) (closing b :: ls)
  | operator (op : Operator) {cs ls} (h : Splits cs ls) : Splits (op.symbol :: cs) (operator op :: ls)
  | specifier {text cs ls} (ht : ')' ∉ text) (h : Splits cs ls) :
      Splits ('(' :: (text ++ ')' :: cs)) (specifier (trimChars text) :: ls)
  | name {run cs ls} (hne : run ≠ []) (hrun : ∀ c ∈ run, isNameChar c = true)
      (hmax : ∀ c ∈ cs.head?, isNameChar c = false) (h : Splits cs ls) :
      Splits (run ++ cs) (name run :: ls)

/-! ## Parts of a text -/

theorem closeSpecifier?_append {text : List Char} (ht : ')' ∉ text) (after : List Char) :
    closeSpecifier? (text ++ ')' :: after) = some (text, after) := by
  have hall : ∀ c ∈ text, (c != ')') = true := fun c hc => by
    rw [bne_iff_ne]
    rintro rfl
    exact ht hc
  simp [closeSpecifier?, List.dropWhile_append_of_pos hall, List.takeWhile_append_of_pos hall]

theorem eq_of_closeSpecifier? {cs text after : List Char} (h : closeSpecifier? cs = some (text, after)) :
    ')' ∉ text ∧ cs = text ++ ')' :: after := by
  unfold closeSpecifier? at h
  split at h
  · cases h
  · next d rest hd =>
    cases h
    have hdrop : d = ')' := by
      have h := List.head?_dropWhile_not (· != ')') cs
      rw [hd] at h
      simpa using h
    subst hdrop
    refine ⟨fun hmem => ?_, ?_⟩
    · simpa using List.mem_takeWhile_imp hmem
    · rw [← hd, List.takeWhile_append_dropWhile]

/-- The run of name characters in front is all of a run that something else follows. -/
theorem span_isNameChar {run cs : List Char} (hrun : ∀ c ∈ run, isNameChar c = true)
    (hmax : ∀ c ∈ cs.head?, isNameChar c = false) :
    (run ++ cs).takeWhile isNameChar = run ∧ (run ++ cs).dropWhile isNameChar = cs := by
  rw [List.takeWhile_append_of_pos hrun, List.dropWhile_append_of_pos hrun]
  cases cs with
  | nil => simp
  | cons c cs => simp [hmax c rfl]

theorem ofSymbol?_opener (b : Bracket) : ofSymbol? b.opener = some (opening b) := by cases b <;> rfl

theorem ofSymbol?_closer (b : Bracket) : ofSymbol? b.closer = some (closing b) := by cases b <;> rfl

theorem ofSymbol?_symbol (op : Operator) : ofSymbol? op.symbol = some (operator op) := by cases op <;> rfl

/-- A symbol is neither a blank nor a parenthesis nor a name character. -/
theorem kind_of_ofSymbol? {c : Char} {lexeme : Lexeme} (h : ofSymbol? c = some lexeme) :
    isBlank c = false ∧ c ≠ '(' ∧ isNameChar c = false := by
  unfold ofSymbol? at h
  split at h <;> cases h <;> decide

theorem splits_of_ofSymbol? {c : Char} {lexeme : Lexeme} {cs : List Char} {ls : List Lexeme}
    (hc : ofSymbol? c = some lexeme) (h : Splits cs ls) : Splits (c :: cs) (lexeme :: ls) := by
  unfold ofSymbol? at hc
  split at hc <;> cases hc
  · exact .opening .optional h
  · exact .opening .required h
  · exact .closing .optional h
  · exact .closing .required h
  · exact .operator .xor h
  · exact .operator .or h

/-- A run of name characters, and no name character comes after it. -/
structure IsRun (run after : List Char) : Prop where
  ne_nil : run ≠ []
  chars : ∀ c ∈ run, isNameChar c = true
  ends : ∀ c ∈ after.head?, isNameChar c = false

theorem IsRun.splits {run after : List Char} {ls : List Lexeme} (h : IsRun run after) (hafter : Splits after ls) :
    Splits (run ++ after) (name run :: ls) :=
  .name h.ne_nil h.chars h.ends hafter

/-- A run ends as it does when less comes after it. -/
theorem IsRun.left {run front back : List Char} (h : IsRun run (front ++ back)) : IsRun run front where
  ne_nil := h.ne_nil
  chars := h.chars
  ends c hc := h.ends c (by rw [List.head?_append, Option.mem_def.1 hc]; rfl)

theorem run_append (c : Char) (rest : List Char) :
    c :: rest = (c :: rest.takeWhile isNameChar) ++ rest.dropWhile isNameChar := by
  rw [List.cons_append, List.takeWhile_append_dropWhile]

/-- A name character and those that follow it are a run. -/
theorem isRun_takeWhile {c : Char} (hname : isNameChar c = true) (rest : List Char) :
    IsRun (c :: rest.takeWhile isNameChar) (rest.dropWhile isNameChar) := by
  refine ⟨List.cons_ne_nil _ _, fun d hd => ?_, fun d hd => ?_⟩
  · rcases List.mem_cons.1 hd with rfl | hd
    · exact hname
    · exact List.mem_takeWhile_imp hd
  · have hdrop := List.head?_dropWhile_not isNameChar rest
    rw [hd] at hdrop
    exact hdrop

/-! ## Scanning -/

theorem map_cons_eq_ok {x : Except SignatureError (List Placed)} {placed : Placed} {ps : List Placed}
    (h : x.map (placed :: ·) = .ok ps) : ∃ rest, x = .ok rest ∧ ps = placed :: rest := by
  cases x with
  | error e => cases h
  | ok rest => cases h; exact ⟨rest, rfl, rfl⟩

/-- Scanning finds lexemes into which the text splits. -/
theorem splits_of_scanFrom {offset : Nat} {cs : List Char} {ps : List Placed}
    (h : scanFrom offset cs = .ok ps) : Splits cs (ps.map Placed.lexeme) := by
  fun_induction scanFrom offset cs generalizing ps with
  | case1 => cases h; exact .nil
  | case2 offset b rest hb ih => exact .blank hb (ih h)
  | case3 => cases h
  | case4 offset rest text after hclose _ ih =>
    obtain ⟨ps, hps, rfl⟩ := map_cons_eq_ok h
    obtain ⟨ht, rfl⟩ := eq_of_closeSpecifier? hclose
    exact .specifier ht (ih hps)
  | case5 offset c rest _ _ hname run =>
    rename_i ih
    obtain ⟨ps, hps, rfl⟩ := map_cons_eq_ok h
    rw [run_append c rest]
    exact (isRun_takeWhile hname rest).splits (ih hps)
  | case6 offset c rest _ _ _ lexeme hc ih =>
    obtain ⟨ps, hps, rfl⟩ := map_cons_eq_ok h
    exact splits_of_ofSymbol? hc (ih hps)
  | case7 => cases h

theorem scanFrom_symbol {c : Char} {lexeme : Lexeme} (hc : ofSymbol? c = some lexeme) (offset : Nat)
    (cs : List Char) :
    scanFrom offset (c :: cs) = (scanFrom (offset + c.utf8Size) cs).map (⟨lexeme, offset⟩ :: ·) := by
  obtain ⟨hb, hp, hn⟩ := kind_of_ofSymbol? hc
  rw [scanFrom, if_neg (by simp [hb]), if_neg hp, if_neg (by simp [hn]), hc]

theorem scanFrom_specifier {text : List Char} (ht : ')' ∉ text) (offset : Nat) (cs : List Char) :
    scanFrom offset ('(' :: (text ++ ')' :: cs)) =
      (scanFrom (offset + byteCount text + 2) cs).map (⟨specifier (trimChars text), offset⟩ :: ·) := by
  have hclose := closeSpecifier?_append ht cs
  rw [scanFrom, if_neg (by decide), if_pos rfl]
  split
  · next h => rw [hclose] at h; cases h
  · next h => rw [hclose] at h; cases h; rfl

theorem scanFrom_name {run cs : List Char} (hne : run ≠ []) (hrun : ∀ c ∈ run, isNameChar c = true)
    (hmax : ∀ c ∈ cs.head?, isNameChar c = false) (offset : Nat) :
    scanFrom offset (run ++ cs) = (scanFrom (offset + byteCount run) cs).map (⟨name run, offset⟩ :: ·) := by
  cases run with
  | nil => exact absurd rfl hne
  | cons c rest =>
    have hc : isNameChar c = true := hrun c List.mem_cons_self
    have hp : c ≠ '(' := by
      rintro rfl
      exact absurd hc (by decide)
    obtain ⟨htake, hdrop⟩ := span_isNameChar (fun d hd => hrun d (List.mem_cons_of_mem c hd)) hmax
    rw [List.cons_append, scanFrom, if_neg (by simp [isBlank_of_isNameChar hc]), if_neg hp, if_pos hc,
      htake, hdrop]

/-- Of a text that splits, scanning finds the lexemes. -/
theorem scanFrom_of_splits {cs : List Char} {ls : List Lexeme} (h : Splits cs ls) (offset : Nat) :
    ∃ ps, scanFrom offset cs = .ok ps ∧ ps.map Placed.lexeme = ls := by
  induction h generalizing offset with
  | nil => exact ⟨[], by rw [scanFrom], rfl⟩
  | @blank b cs ls hb _ ih =>
    obtain ⟨ps, hps, hls⟩ := ih (offset + b.utf8Size)
    exact ⟨ps, by rw [scanFrom, if_pos hb, hps], hls⟩
  | @opening b cs ls _ ih =>
    obtain ⟨ps, hps, hls⟩ := ih (offset + b.opener.utf8Size)
    exact ⟨_, by rw [scanFrom_symbol (ofSymbol?_opener b), hps]; rfl, by rw [List.map_cons, hls]⟩
  | @closing b cs ls _ ih =>
    obtain ⟨ps, hps, hls⟩ := ih (offset + b.closer.utf8Size)
    exact ⟨_, by rw [scanFrom_symbol (ofSymbol?_closer b), hps]; rfl, by rw [List.map_cons, hls]⟩
  | @operator op cs ls _ ih =>
    obtain ⟨ps, hps, hls⟩ := ih (offset + op.symbol.utf8Size)
    exact ⟨_, by rw [scanFrom_symbol (ofSymbol?_symbol op), hps]; rfl, by rw [List.map_cons, hls]⟩
  | @specifier text cs ls ht _ ih =>
    obtain ⟨ps, hps, hls⟩ := ih (offset + byteCount text + 2)
    exact ⟨_, by rw [scanFrom_specifier ht, hps]; rfl, by rw [List.map_cons, hls]⟩
  | @name run cs ls hne hrun hmax _ ih =>
    obtain ⟨ps, hps, hls⟩ := ih (offset + byteCount run)
    exact ⟨_, by rw [scanFrom_name hne hrun hmax, hps]; rfl, by rw [List.map_cons, hls]⟩

/-! ## Trimming -/

/-- Blanks in front of a text do not matter. -/
theorem splits_of_blanks_append {before cs : List Char} {ls : List Lexeme} (hb : Blanks before)
    (h : Splits (before ++ cs) ls) : Splits cs ls := by
  induction before with
  | nil => exact h
  | cons b before ih =>
    obtain ⟨hb, hbefore⟩ := List.forall_mem_cons.1 hb
    obtain ⟨ps, hps, rfl⟩ := scanFrom_of_splits h 0
    rw [List.cons_append, scanFrom, if_pos hb] at hps
    exact ih hbefore (splits_of_scanFrom hps)

/-- A blank at the end of a text stands after a part in front that does not end with one. -/
theorem exists_of_append_blank {front rest cs : List Char} {b : Char} (hb : isBlank b = true)
    (h : front ++ rest = cs ++ [b]) (hfront : ∃ c ∈ front.getLast?, isBlank c = false) :
    ∃ rest', rest = rest' ++ [b] ∧ cs = front ++ rest' := by
  rcases List.eq_nil_or_concat rest with rfl | ⟨rest', c, rfl⟩
  · obtain ⟨c, hc, hblank⟩ := hfront
    rw [List.append_nil] at h
    rw [h, List.getLast?_append, List.getLast?_singleton, Option.some_or, Option.mem_some] at hc
    rw [← hc, hb] at hblank
    cases hblank
  · rw [List.concat_eq_append, ← List.append_assoc] at h
    obtain ⟨hcs, hc⟩ := List.append_inj' h rfl
    exact ⟨rest', by rw [List.concat_eq_append, hc], hcs.symm⟩

theorem splits_of_append_blank {cs : List Char} {b : Char} {ls : List Lexeme} (hb : isBlank b = true)
    (h : Splits (cs ++ [b]) ls) : Splits cs ls := by
  generalize htext : cs ++ [b] = text at h
  have hsymbol : ∀ {c : Char} {lexeme : Lexeme} {cs rest : List Char}, ofSymbol? c = some lexeme →
      cs ++ [b] = c :: rest → ∃ rest', rest = rest' ++ [b] ∧ cs = c :: rest' := fun hc heq =>
    exists_of_append_blank hb (show [_] ++ _ = _ from heq.symm) ⟨_, rfl, (kind_of_ofSymbol? hc).1⟩
  induction h generalizing cs with
  | nil => simp at htext
  | @blank c rest ls hc h ih =>
    cases cs with
    | nil =>
      obtain rfl : [] = rest := (List.cons.inj htext).2
      exact h
    | cons d cs =>
      obtain ⟨rfl, hrest⟩ := List.cons.inj htext
      exact .blank hc (ih hrest)
  | opening bracket _ ih =>
    obtain ⟨rest', rfl, rfl⟩ := hsymbol (ofSymbol?_opener bracket) htext
    exact .opening bracket (ih rfl)
  | closing bracket _ ih =>
    obtain ⟨rest', rfl, rfl⟩ := hsymbol (ofSymbol?_closer bracket) htext
    exact .closing bracket (ih rfl)
  | operator op _ ih =>
    obtain ⟨rest', rfl, rfl⟩ := hsymbol (ofSymbol?_symbol op) htext
    exact .operator op (ih rfl)
  | @specifier text rest ls ht _ ih =>
    have hfront : ('(' :: text ++ [')']) ++ rest = cs ++ [b] := by simp [htext]
    obtain ⟨rest', rfl, rfl⟩ := exists_of_append_blank hb hfront
      ⟨')', List.getLast?_concat, by decide⟩
    have hspecifier := Splits.specifier ht (ih rfl)
    rwa [List.append_cons, ← List.cons_append] at hspecifier
  | @name run rest ls hne hrun hmax _ ih =>
    have hlast : ∃ c ∈ run.getLast?, isBlank c = false :=
      ⟨_, List.getLast?_eq_some_getLast hne, isBlank_of_isNameChar (hrun _ (List.getLast_mem hne))⟩
    obtain ⟨rest', rfl, rfl⟩ := exists_of_append_blank hb htext.symm hlast
    refine .name hne hrun (fun c hc => hmax c ?_) (ih rfl)
    rw [List.head?_append, Option.mem_def.1 hc]
    rfl

/-- Blanks at the end of a text do not matter. -/
theorem splits_of_append_blanks {cs after : List Char} {ls : List Lexeme} (ha : Blanks after)
    (h : Splits (cs ++ after) ls) : Splits cs ls := by
  induction after using List.reverseRecOn with
  | nil => rwa [List.append_nil] at h
  | append_singleton after b ih =>
    rw [← List.append_assoc] at h
    exact ih (fun c hc => ha c (List.mem_append_left _ hc)) (splits_of_append_blank (ha b (by simp)) h)

/-- The lexemes of a text are those of what trimming leaves of it. -/
theorem splits_trimChars {cs : List Char} {ls : List Lexeme} (h : Splits cs ls) :
    Splits (trimChars cs) ls := by
  obtain ⟨before, after, hbefore, hafter, hcs⟩ := exists_trimChars cs
  rw [hcs, List.append_assoc] at h
  exact splits_of_append_blanks hafter (splits_of_blanks_append hbefore h)

/-! ## Texts one after the other -/

theorem Splits.blanks_append {before cs : List Char} {ls : List Lexeme} (hb : Blanks before)
    (h : Splits cs ls) : Splits (before ++ cs) ls := by
  induction before with
  | nil => exact h
  | cons b before ih =>
    obtain ⟨hb, hbefore⟩ := List.forall_mem_cons.1 hb
    exact .blank hb (ih hbefore)

/-- Two texts split one after the other, where the second cannot lengthen a name at the end of the
first. -/
theorem Splits.append {cs ds : List Char} {ls ms : List Lexeme} (h : Splits cs ls) (h' : Splits ds ms)
    (hds : ∀ c ∈ ds.head?, isNameChar c = false) : Splits (cs ++ ds) (ls ++ ms) := by
  induction h with
  | nil => exact h'
  | blank hb _ ih => exact .blank hb ih
  | opening b _ ih => exact .opening b ih
  | closing b _ ih => exact .closing b ih
  | operator op _ ih => exact .operator op ih
  | specifier ht _ ih =>
    rw [List.cons_append, List.append_assoc]
    exact .specifier ht ih
  | @name run cs ls hne hrun hmax _ ih =>
    rw [List.append_assoc]
    refine .name hne hrun (fun c hc => ?_) ih
    cases cs with
    | nil => exact hds c hc
    | cons d cs => exact hmax c hc

theorem Splits.append_blanks {cs after : List Char} {ls : List Lexeme} (h : Splits cs ls)
    (ha : Blanks after) : Splits (cs ++ after) ls := by
  have hafter := Splits.nil.blanks_append ha
  rw [List.append_nil] at hafter
  have happend := h.append hafter fun c hc => isNameChar_of_isBlank (ha c (List.mem_of_mem_head? hc))
  rwa [List.append_nil] at happend

/-! ## Layouts -/

/-- The text of a lexeme. -/
inductive TextOf : List Char → Lexeme → Prop
  | opening (b : Bracket) : TextOf [b.opener] (opening b)
  | closing (b : Bracket) : TextOf [b.closer] (closing b)
  | operator (op : Operator) : TextOf [op.symbol] (operator op)
  | specifier {text} (ht : ')' ∉ text) : TextOf ('(' :: (text ++ [')'])) (specifier (trimChars text))
  | name {run} (hne : run ≠ []) (hrun : ∀ c ∈ run, isNameChar c = true) : TextOf run (name run)

theorem TextOf.ne_nil {text : List Char} {lexeme : Lexeme} (h : TextOf text lexeme) : text ≠ [] := by
  cases h with
  | name hne _ => exact hne
  | opening | closing | operator | specifier => exact List.cons_ne_nil _ _

/-- Whether a text is a name, or a part of one. -/
def IsName (text : List Char) : Prop := ∀ c ∈ text, isNameChar c = true

instance : DecidablePred IsName := fun text =>
  decidable_of_iff (text.all isNameChar = true) List.all_eq_true

/-- Texts in a row, with any blanks before, between and after them. Only between two names there must be
one. -/
inductive LaidOut : List (List Char) → List Char → Prop
  | nil : LaidOut [] []
  | blank {b texts cs} (hb : isBlank b = true) (h : LaidOut texts cs) : LaidOut texts (b :: cs)
  | text {text texts cs}
      (hnames : ∀ next ∈ texts.head?, IsName text → IsName next → cs.head?.any isBlank = true)
      (h : LaidOut texts cs) : LaidOut (text :: texts) (text ++ cs)

/-- Where a name character comes next, a name does. -/
theorem LaidOut.isName_head {texts : List (List Char)} {cs : List Char} {ls : List Lexeme}
    (h : LaidOut texts cs) (hls : List.Forall₂ TextOf texts ls) {c : Char} (hc : c ∈ cs.head?)
    (hname : isNameChar c = true) : ∃ next ∈ texts.head?, IsName next := by
  cases h with
  | nil => cases hc
  | blank hb _ =>
    cases hc
    rw [isNameChar_of_isBlank hb] at hname
    cases hname
  | @text text texts cs _ h =>
    refine ⟨text, rfl, ?_⟩
    cases hls with
    | cons htext _ =>
      cases htext with
      | name _ hrun => exact hrun
      | opening b => cases hc; cases b <;> exact absurd hname (by decide)
      | closing b => cases hc; cases b <;> exact absurd hname (by decide)
      | operator op => cases hc; cases op <;> exact absurd hname (by decide)
      | specifier _ => cases hc; exact absurd hname (by decide)

/-- Texts of lexemes in a row split into these lexemes. -/
theorem splits_of_laidOut {texts : List (List Char)} {cs : List Char} {ls : List Lexeme}
    (h : LaidOut texts cs) (hls : List.Forall₂ TextOf texts ls) : Splits cs ls := by
  induction h generalizing ls with
  | nil => cases hls; exact .nil
  | blank hb _ ih => exact .blank hb (ih hls)
  | @text text texts cs hnames h ih =>
    cases hls with
    | cons htext hrest =>
      cases htext with
      | opening b => exact .opening b (ih hrest)
      | closing b => exact .closing b (ih hrest)
      | operator op => exact .operator op (ih hrest)
      | specifier ht =>
        rw [List.cons_append, List.append_assoc]
        exact .specifier ht (ih hrest)
      | name hne hrun =>
        -- the run ends here: another name comes only after a blank
        refine .name hne hrun (fun c hc => ?_) (ih hrest)
        by_contra hname
        have hname := Bool.not_eq_false _ ▸ hname
        obtain ⟨next, hnext, hisName⟩ := h.isName_head hrest hc hname
        have hblank := hnames next hnext hrun hisName
        rw [Option.mem_def.1 hc, Option.any_some] at hblank
        rw [isNameChar_of_isBlank hblank] at hname
        cases hname

/-- Any texts can be laid out. -/
theorem exists_laidOut (texts : List (List Char)) : ∃ cs, LaidOut texts cs := by
  have hblank : isBlank ' ' = true := by decide
  induction texts with
  | nil => exact ⟨[], .nil⟩
  | cons text texts ih =>
    obtain ⟨cs, hcs⟩ := ih
    exact ⟨text ++ ' ' :: cs, .text (fun _ _ _ _ => hblank) (.blank hblank hcs)⟩

end Invocation.Lexeme

/-
  Programs of patterns.

  A program runs from a place of its code and a position of the text to other
  ones. What the fragment of a pattern does on the way from its entry to the
  place where it goes on is what the pattern matches.

  * `Program.Step`, `Program.Steps`: the steps of a program on a text;
  * `Pattern.Realizes`: a fragment keeps the code before it, a run from its
    entry to an accepting state goes through what a span says, and all of the
    span can be run; `Realizes.before`, `Realizes.times`,
    `Realizes.oneOrMore` and their kin: so do fragments that are made of
    others;
  * `Pattern.realizes_compile`: the code of a pattern realizes what the
    pattern matches;
  * `Program.accepted_iff`: what a whole program accepts from a position on.
-/
import Invocation.Proofs.Pattern.Matches

namespace Invocation

/-! ## Steps -/

namespace Program

/-- A place in the code and a position in the text, with the positions that were noted so far. -/
structure State where
  place : Nat
  index : Nat
  slots : Slots

end Program

open Program

/-- The states after an instruction, the preferred one first. -/
def Instruction.successors (cs : List Char) (i : Nat) (slots : Slots) : Instruction → List State
  | .chars set next =>
    match cs[i]? with
    | some c => if set.has c then [⟨next, i + 1, slots⟩] else []
    | none => []
  | .branch first second => [⟨first, i, slots⟩, ⟨second, i, slots⟩]
  | .note slot next => [⟨next, i, (slot, i) :: slots⟩]
  | .atStart next => if i = 0 then [⟨next, i, slots⟩] else []
  | .atStop next => if i = cs.length then [⟨next, i, slots⟩] else []
  | .accept => []

namespace Program

/-- A step of a program on a text. -/
def Step (code : Array Instruction) (cs : List Char) (s t : State) : Prop :=
  ∃ instruction, code[s.place]? = some instruction ∧ t ∈ instruction.successors cs s.index s.slots

/-- Steps of a program on a text, and how many they are. -/
inductive Steps (code : Array Instruction) (cs : List Char) : Nat → State → State → Prop
  | refl {s} : Steps code cs 0 s s
  | head {n s t u} (h : Step code cs s t) (rest : Steps code cs n t u) : Steps code cs (n + 1) s u

/-- A state in which the match is complete. -/
def Accepting (code : Array Instruction) (s : State) : Prop := code[s.place]? = some .accept

variable {code : Array Instruction} {cs : List Char} {m n : Nat} {s t u : State}

theorem Steps.single (h : Step code cs s t) : Steps code cs 1 s t := .head h .refl

theorem Steps.trans (h : Steps code cs m s t) (h' : Steps code cs n t u) :
    Steps code cs (m + n) s u := by
  induction h with
  | refl => rwa [Nat.zero_add]
  | head hstep _ ih => exact Nat.succ_add _ n ▸ .head hstep (ih h')

/-- From a state that does not accept, a run to one that does begins with a step. -/
theorem Steps.exists_head {instruction : Instruction} (h : Steps code cs n s t) (ht : Accepting code t)
    (hs : code[s.place]? = some instruction) (hne : instruction ≠ .accept) :
    ∃ m u, m < n ∧ u ∈ instruction.successors cs s.index s.slots ∧ Steps code cs m u t := by
  cases h with
  | refl => exact absurd (Option.some.inj (hs.symm.trans ht)) hne
  | @head m _ u _ hstep rest =>
    obtain ⟨instruction', hs', hu⟩ := hstep
    obtain rfl := Option.some.inj (hs.symm.trans hs')
    exact ⟨m, u, Nat.lt_succ_self m, hu, rest⟩

end Program

/-! ## Code that is kept -/

/-- Code that another one begins with. -/
structure Grows (code code' : Array Instruction) : Prop where
  size_le : code.size ≤ code'.size
  getElem?_eq : ∀ k, k < code.size → code'[k]? = code[k]?

/-- The instructions of some code from a place on stand in a whole program. -/
def Keeps (whole code : Array Instruction) (place : Nat) : Prop :=
  ∀ k, place ≤ k → k < code.size → whole[k]? = code[k]?

section Code

variable {whole code code' code'' : Array Instruction} {place place' : Nat} {instruction : Instruction}

theorem Grows.refl (code : Array Instruction) : Grows code code := ⟨Nat.le_refl _, fun _ _ => rfl⟩

theorem Grows.trans (h : Grows code code') (h' : Grows code' code'') : Grows code code'' where
  size_le := Nat.le_trans h.size_le h'.size_le
  getElem?_eq k hk := by
    rw [h'.getElem?_eq k (Nat.lt_of_lt_of_le hk h.size_le), h.getElem?_eq k hk]

theorem Grows.push (code : Array Instruction) (instruction : Instruction) :
    Grows code (code.push instruction) where
  size_le := by rw [Array.size_push]; exact Nat.le_succ _
  getElem?_eq k hk := by rw [Array.getElem?_push, if_neg (Nat.ne_of_lt hk)]

theorem Keeps.from_ (h : Keeps whole code place) (hle : place ≤ place') : Keeps whole code place' :=
  fun k hk => h k (Nat.le_trans hle hk)

theorem Keeps.of_grows (h : Keeps whole code' place) (hcode : Grows code code') :
    Keeps whole code place := by
  intro k hk hlt
  rw [h k hk (Nat.lt_of_lt_of_le hlt hcode.size_le), hcode.getElem?_eq k hlt]

theorem Keeps.of_push (h : Keeps whole (code.push instruction) place) (hle : place ≤ code.size) :
    whole[code.size]? = some instruction := by
  rw [h code.size hle (by rw [Array.size_push]; exact Nat.lt_succ_self _), Array.getElem?_push_size]

end Code

/-! ## Fragments -/

namespace Pattern

open Program

/-- A fragment realizes a span. -/
structure Realizes (cs : List Char) (f : Fragment) (R : Span) : Prop where
  /-- It keeps the code before it. -/
  grows : ∀ next code, Grows code (f next code).code
  /-- A run from its entry to an accepting state passes a part of the span, and then the place where the
  fragment goes on. -/
  sound : ∀ {next code whole n i slots t}, Keeps whole (f next code).code code.size →
    Accepting whole t → Steps whole cs n ⟨(f next code).entry, i, slots⟩ t →
    ∃ j notes m, m ≤ n ∧ R i j notes ∧ Steps whole cs m ⟨next, j, notes ++ slots⟩ t
  /-- Every part of the span can be run. -/
  complete : ∀ {next code whole i j notes slots}, Keeps whole (f next code).code code.size →
    R i j notes → ∃ n, Steps whole cs n ⟨(f next code).entry, i, slots⟩ ⟨next, j, notes ++ slots⟩

variable {cs : List Char} {f g : Fragment} {R S : Span}

theorem Realizes.nothing : Realizes cs (fun next code => ⟨code, next⟩) .nothing where
  grows _ code := .refl code
  sound {_ _ _ n i slots _} _ _ h := ⟨i, [], n, Nat.le_refl n, ⟨rfl, rfl⟩, h⟩
  complete := by
    rintro _ _ _ _ _ _ slots - ⟨rfl, rfl⟩
    exact ⟨0, .refl⟩

/-- A fragment of one instruction. -/
theorem Realizes.instruction {instruction : Nat → Instruction} (hne : ∀ next, instruction next ≠ .accept)
    (hsteps : ∀ {next i slots u}, u ∈ (instruction next).successors cs i slots ↔
      ∃ j notes, R i j notes ∧ u = ⟨next, j, notes ++ slots⟩) :
    Realizes cs (fun next code => append code (instruction next)) R where
  grows _ code := .push code _
  sound {next code whole n i slots t} hkeeps ht h := by
    have hplace := hkeeps.of_push (Nat.le_refl _)
    obtain ⟨m, u, hlt, hu, hrest⟩ := h.exists_head ht hplace (hne next)
    obtain ⟨j, notes, hR, rfl⟩ := hsteps.1 hu
    exact ⟨j, notes, m, Nat.le_of_lt hlt, hR, hrest⟩
  complete {next code whole i j notes slots} hkeeps hR := by
    have hplace := hkeeps.of_push (Nat.le_refl _)
    exact ⟨1, .single ⟨_, hplace, hsteps.2 ⟨j, notes, hR, rfl⟩⟩⟩

/-- A fragment in front of another one. -/
theorem Realizes.before (hf : Realizes cs f R) (hg : Realizes cs g S) :
    Realizes cs (fun next code => f (g next code).entry (g next code).code) (R.before S) where
  grows next code := (hg.grows next code).trans (hf.grows _ _)
  sound {next code whole n i slots t} hkeeps ht h := by
    have hfront := hkeeps.from_ (hg.grows next code).size_le
    have hbehind := hkeeps.of_grows (hf.grows _ _)
    obtain ⟨k, first, m, hm, hR, hrest⟩ := hf.sound hfront ht h
    obtain ⟨j, later, m', hm', hS, hrest'⟩ := hg.sound hbehind ht hrest
    rw [← List.append_assoc] at hrest'
    exact ⟨j, later ++ first, m', Nat.le_trans hm' hm, ⟨k, first, later, hR, hS, rfl⟩, hrest'⟩
  complete {next code whole i j notes slots} hkeeps := by
    rintro ⟨k, first, later, hR, hS, rfl⟩
    have hfront := hkeeps.from_ (hg.grows next code).size_le
    have hbehind := hkeeps.of_grows (hf.grows _ _)
    obtain ⟨n, hn⟩ := hf.complete hfront hR
    obtain ⟨n', hn'⟩ := hg.complete hbehind hS
    rw [← List.append_assoc] at hn'
    exact ⟨n + n', hn.trans hn'⟩

theorem Realizes.times (hf : Realizes cs f R) (n : Nat) : Realizes cs (times f n) (R.times n) := by
  induction n with
  | zero => exact .nothing
  | succ n ih => exact ih.before hf

/-- A branch to one of two fragments. -/
theorem Realizes.either (hf : Realizes cs f R) (hg : Realizes cs g S) :
    Realizes cs (fun next code => append (g next (f next code).code).code
        (.branch (f next code).entry (g next (f next code).code).entry))
      (fun i j notes => R i j notes ∨ S i j notes) where
  grows next code := ((hf.grows next code).trans (hg.grows _ _)).trans (.push _ _)
  sound {next code whole n i slots t} hkeeps ht h := by
    have hle := ((hf.grows next code).trans (hg.grows next _)).size_le
    have hothers := hkeeps.of_grows (.push _ _)
    have hplace := hkeeps.of_push hle
    obtain ⟨m, u, hlt, hu, hrest⟩ := h.exists_head ht hplace nofun
    rcases List.mem_pair.1 hu with rfl | rfl
    · obtain ⟨j, notes, m', hm', hR, hrest'⟩ := hf.sound (hothers.of_grows (hg.grows _ _)) ht hrest
      exact ⟨j, notes, m', Nat.le_trans hm' (Nat.le_of_lt hlt), .inl hR, hrest'⟩
    · have hothers := hothers.from_ (hf.grows next code).size_le
      obtain ⟨j, notes, m', hm', hS, hrest'⟩ := hg.sound hothers ht hrest
      exact ⟨j, notes, m', Nat.le_trans hm' (Nat.le_of_lt hlt), .inr hS, hrest'⟩
  complete {next code whole i j notes slots} hkeeps hRS := by
    have hle := ((hf.grows next code).trans (hg.grows next _)).size_le
    have hothers := hkeeps.of_grows (.push _ _)
    have hplace := hkeeps.of_push hle
    rcases hRS with hR | hS
    · obtain ⟨n, hn⟩ := hf.complete (hothers.of_grows (hg.grows _ _)) hR
      exact ⟨n + 1, .head ⟨_, hplace, List.mem_cons_self⟩ hn⟩
    · have hothers := hothers.from_ (hf.grows next code).size_le
      obtain ⟨n, hn⟩ := hg.complete hothers hS
      exact ⟨n + 1, .head ⟨_, hplace, List.mem_cons_of_mem _ List.mem_cons_self⟩ hn⟩

/-! ## Repetitions -/

theorem mem_successors_choose {greedy : Bool} {item past i : Nat} {slots : Slots} {u : State} :
    u ∈ (choose greedy item past).successors cs i slots ↔ u = ⟨item, i, slots⟩ ∨ u = ⟨past, i, slots⟩ := by
  cases greedy with
  | true => exact List.mem_pair
  | false => exact List.mem_pair.trans or_comm

theorem choose_ne_accept {greedy : Bool} {item past : Nat} : choose greedy item past ≠ .accept := by
  cases greedy with
  | true => exact nofun
  | false => exact nofun

theorem grows_upTo (hf : Realizes cs f R) (greedy : Bool) (past n next : Nat) (code : Array Instruction) :
    Grows code (upTo greedy f past n next code).code := by
  induction n generalizing next code with
  | zero => exact .refl code
  | succ n ih => exact ((hf.grows next code).trans (.push _ _)).trans (ih _ _)

/-- A run through fragments that may be left passes some of them. It goes on behind the last one, or where
it leaves them. -/
theorem sound_upTo (hf : Realizes cs f R) {greedy : Bool} {past count next n i : Nat}
    {code whole : Array Instruction} {slots : Slots} {t : State}
    (hkeeps : Keeps whole (upTo greedy f past count next code).code code.size) (ht : Accepting whole t)
    (h : Steps whole cs n ⟨(upTo greedy f past count next code).entry, i, slots⟩ t) :
    ∃ k j notes m place, m ≤ n ∧ R.times k i j notes ∧ Steps whole cs m ⟨place, j, notes ++ slots⟩ t ∧
      (k = count ∧ place = next ∨ k < count ∧ place = past) := by
  induction count generalizing next code n with
  | zero => exact ⟨0, i, [], n, next, Nat.le_refl n, ⟨rfl, rfl⟩, h, .inl ⟨rfl, rfl⟩⟩
  | succ count ih =>
    have hitem := hf.grows next code
    have hlast := hkeeps.of_grows (grows_upTo hf greedy past count _ _)
    obtain ⟨k, j, notes, m, place, hm, hR, hrest, hplace⟩ :=
      ih (hkeeps.from_ (hitem.trans (.push _ _)).size_le) h
    rcases hplace with ⟨rfl, rfl⟩ | ⟨hk, rfl⟩
    · obtain ⟨m', u, hm', hu, hrest'⟩ :=
        hrest.exists_head ht (hlast.of_push hitem.size_le) choose_ne_accept
      rcases mem_successors_choose.1 hu with rfl | rfl
      · obtain ⟨l, later, m'', hm'', hlater, hrest''⟩ :=
          hf.sound (hlast.of_grows (.push _ _)) ht hrest'
        rw [← List.append_assoc] at hrest''
        exact ⟨k + 1, l, later ++ notes, m'', next, by omega, ⟨j, notes, later, hR, hlater, rfl⟩, hrest'',
          .inl ⟨rfl, rfl⟩⟩
      · exact ⟨k, j, notes, m', past, by omega, hR, hrest', .inr ⟨Nat.lt_succ_self k, rfl⟩⟩
    · exact ⟨k, j, notes, m, place, hm, hR, hrest, .inr ⟨Nat.lt_succ_of_lt hk, rfl⟩⟩

/-- All of the fragments can be run, or some of them before they are left. -/
theorem complete_upTo (hf : Realizes cs f R) {greedy : Bool} {past count next k i j place : Nat}
    {notes slots : Slots} {code whole : Array Instruction}
    (hkeeps : Keeps whole (upTo greedy f past count next code).code code.size)
    (hR : R.times k i j notes) (hplace : k = count ∧ place = next ∨ k < count ∧ place = past) :
    ∃ n, Steps whole cs n ⟨(upTo greedy f past count next code).entry, i, slots⟩
      ⟨place, j, notes ++ slots⟩ := by
  induction count generalizing next code k j notes place with
  | zero =>
    rcases hplace with ⟨rfl, rfl⟩ | ⟨hk, -⟩
    · obtain ⟨rfl, rfl⟩ := hR
      exact ⟨0, .refl⟩
    · exact absurd hk (Nat.not_lt_zero k)
  | succ count ih =>
    have hitem := hf.grows next code
    have hlast := hkeeps.of_grows (grows_upTo hf greedy past count _ _)
    have hchoose := hlast.of_push hitem.size_le
    have hfront := hkeeps.from_
      (hitem.trans (.push _ (choose greedy (f next code).entry past))).size_le
    rcases hplace with ⟨rfl, rfl⟩ | ⟨hk, rfl⟩
    · obtain ⟨l, first, later, hfirst, hlater, rfl⟩ := hR
      obtain ⟨n, hn⟩ := ih hfront hfirst (.inl ⟨rfl, rfl⟩)
      obtain ⟨n', hn'⟩ := hf.complete (hlast.of_grows (.push _ _)) hlater
      rw [← List.append_assoc] at hn'
      exact ⟨n + (n' + 1), hn.trans (.head ⟨_, hchoose, mem_successors_choose.2 (.inl rfl)⟩ hn')⟩
    rcases Nat.eq_or_lt_of_le (Nat.le_of_lt_succ hk) with rfl | hk
    · obtain ⟨n, hn⟩ := ih hfront hR (.inl ⟨rfl, rfl⟩)
      exact ⟨n + 1, hn.trans (.single ⟨_, hchoose, mem_successors_choose.2 (.inr rfl)⟩)⟩
    · exact ih hfront hR (.inr ⟨hk, rfl⟩)

theorem Realizes.upTo (hf : Realizes cs f R) (greedy : Bool) (count : Nat) :
    Realizes cs (fun next code => upTo greedy f next count next code)
      (fun i j notes => ∃ k, k ≤ count ∧ R.times k i j notes) where
  grows next code := grows_upTo hf greedy next count next code
  sound hkeeps ht h := by
    obtain ⟨k, j, notes, m, place, hm, hR, hrest, hplace⟩ := sound_upTo hf hkeeps ht h
    rcases hplace with ⟨rfl, rfl⟩ | ⟨hk, rfl⟩
    · exact ⟨j, notes, m, hm, ⟨k, Nat.le_refl k, hR⟩, hrest⟩
    · exact ⟨j, notes, m, hm, ⟨k, Nat.le_of_lt hk, hR⟩, hrest⟩
  complete := by
    rintro next _ _ _ _ _ _ hkeeps ⟨k, hk, hR⟩
    refine complete_upTo hf hkeeps hR ?_
    rcases Nat.eq_or_lt_of_le hk with rfl | hk
    · exact .inl ⟨rfl, rfl⟩
    · exact .inr ⟨hk, rfl⟩

section Loop

variable {greedy : Bool} {next : Nat} {code whole : Array Instruction}

theorem grows_oneOrMore (hf : Realizes cs f R) (greedy : Bool) (next : Nat) (code : Array Instruction) :
    Grows code (oneOrMore greedy f next code).code := by
  have hitem := (Grows.push code .accept).trans (hf.grows code.size (code.push .accept))
  refine ⟨?_, fun k hk => ?_⟩
  · simpa [oneOrMore] using hitem.size_le
  · simp only [oneOrMore, Array.set!_eq_setIfInBounds]
    rw [Array.getElem?_setIfInBounds_ne (Nat.ne_of_gt hk), hitem.getElem?_eq k hk]

/-- Behind the fragment that is repeated, a branch goes back to it. -/
theorem back_of_keeps (hf : Realizes cs f R)
    (hkeeps : Keeps whole (oneOrMore greedy f next code).code code.size) :
    whole[code.size]? = some (choose greedy (oneOrMore greedy f next code).entry next) := by
  have hitem := (hf.grows code.size (code.push .accept)).size_le
  rw [Array.size_push] at hitem
  have hlt : code.size < (oneOrMore greedy f next code).code.size := by
    simpa [oneOrMore] using hitem
  rw [hkeeps _ (Nat.le_refl _) hlt]
  simp only [oneOrMore, Array.set!_eq_setIfInBounds]
  exact Array.getElem?_setIfInBounds_self_of_lt hitem

theorem keeps_item
    (hkeeps : Keeps whole (oneOrMore greedy f next code).code code.size) :
    Keeps whole (f code.size (code.push .accept)).code (code.push .accept).size := by
  intro k hk hlt
  rw [Array.size_push] at hk
  rw [hkeeps k (Nat.le_of_lt hk) (by simpa [oneOrMore] using hlt)]
  simp only [oneOrMore, Array.set!_eq_setIfInBounds]
  exact Array.getElem?_setIfInBounds_ne (Nat.ne_of_lt hk)

/-- A run through a fragment that is repeated passes it some times, at least once. The induction is on the
steps of the run, of which every turn takes some. -/
theorem sound_oneOrMore (hf : Realizes cs f R) {n i : Nat} {slots : Slots} {t : State}
    (hkeeps : Keeps whole (oneOrMore greedy f next code).code code.size) (ht : Accepting whole t)
    (h : Steps whole cs n ⟨(oneOrMore greedy f next code).entry, i, slots⟩ t) :
    ∃ j notes m, m ≤ n ∧ (∃ k, R.times (k + 1) i j notes) ∧ Steps whole cs m ⟨next, j, notes ++ slots⟩ t := by
  induction n using Nat.strong_induction_on generalizing i slots with
  | _ n ih =>
    obtain ⟨j, first, m, hm, hR, hrest⟩ := hf.sound (keeps_item hkeeps) ht h
    obtain ⟨m', u, hm', hu, hrest'⟩ := hrest.exists_head ht (back_of_keeps hf hkeeps) choose_ne_accept
    rcases mem_successors_choose.1 hu with rfl | rfl
    · obtain ⟨l, later, m'', hm'', ⟨k, hlater⟩, hrest''⟩ := ih m' (by omega) hrest'
      rw [← List.append_assoc] at hrest''
      refine ⟨l, later ++ first, m'', by omega, ⟨k + 1, ?_⟩, hrest''⟩
      rw [← Nat.add_comm 1, ← Span.times_before_times, Span.times_one]
      exact ⟨j, first, later, hR, hlater, rfl⟩
    · exact ⟨j, first, m', by omega, ⟨0, by rwa [Nat.zero_add, Span.times_one]⟩, hrest'⟩

theorem complete_oneOrMore (hf : Realizes cs f R) {k i j : Nat} {notes slots : Slots}
    (hkeeps : Keeps whole (oneOrMore greedy f next code).code code.size) (hR : R.times (k + 1) i j notes) :
    ∃ n, Steps whole cs n ⟨(oneOrMore greedy f next code).entry, i, slots⟩ ⟨next, j, notes ++ slots⟩ := by
  have hback := back_of_keeps hf hkeeps
  induction k generalizing i notes slots with
  | zero =>
    rw [Nat.zero_add, Span.times_one] at hR
    obtain ⟨n, hn⟩ := hf.complete (keeps_item hkeeps) hR
    exact ⟨n + 1, hn.trans (.single ⟨_, hback, mem_successors_choose.2 (.inr rfl)⟩)⟩
  | succ k ih =>
    rw [← Nat.add_comm 1, ← Span.times_before_times, Span.times_one] at hR
    obtain ⟨l, first, later, hfirst, hlater, rfl⟩ := hR
    obtain ⟨n, hn⟩ := hf.complete (keeps_item hkeeps) hfirst
    obtain ⟨n', hn'⟩ := ih hlater
    rw [← List.append_assoc] at hn'
    exact ⟨n + (n' + 1), hn.trans (.head ⟨_, hback, mem_successors_choose.2 (.inl rfl)⟩ hn')⟩

end Loop

theorem Realizes.oneOrMore (hf : Realizes cs f R) (greedy : Bool) :
    Realizes cs (oneOrMore greedy f) (fun i j notes => ∃ k, R.times (k + 1) i j notes) where
  grows := grows_oneOrMore hf greedy
  sound := sound_oneOrMore hf
  complete := by
    rintro _ _ _ _ _ _ _ hkeeps ⟨k, hR⟩
    exact complete_oneOrMore hf hkeeps hR

theorem Realizes.zeroOrMore (hf : Realizes cs f R) (greedy takes : Bool) :
    Realizes cs (zeroOrMore greedy takes f) (fun i j notes => ∃ k, R.times k i j notes) := by
  have hloop := hf.oneOrMore greedy
  -- the entry is a branch to the loop and past it, wherever it stands
  have hentry : ∀ {next code}, Grows (Pattern.oneOrMore greedy f next code).code
        (Pattern.zeroOrMore greedy takes f next code).code ∧
      ∀ {whole}, Keeps whole (Pattern.zeroOrMore greedy takes f next code).code code.size →
        whole[(Pattern.zeroOrMore greedy takes f next code).entry]? =
          some (choose greedy (Pattern.oneOrMore greedy f next code).entry next) := by
    intro next code
    cases takes with
    | true => exact ⟨.refl _, fun hkeeps => back_of_keeps hf hkeeps⟩
    | false => exact ⟨.push _ _, fun hkeeps => hkeeps.of_push (hloop.grows next code).size_le⟩
  constructor
  case grows => exact fun next code => (hloop.grows next code).trans hentry.1
  case sound =>
    intro next code whole n i slots t hkeeps ht h
    obtain ⟨m, u, hlt, hu, hrest⟩ := h.exists_head ht (hentry.2 hkeeps) choose_ne_accept
    rcases mem_successors_choose.1 hu with rfl | rfl
    · obtain ⟨j, notes, m', hm', ⟨k, hR⟩, hrest'⟩ := hloop.sound (hkeeps.of_grows hentry.1) ht hrest
      exact ⟨j, notes, m', by omega, ⟨k + 1, hR⟩, hrest'⟩
    · exact ⟨i, [], m, Nat.le_of_lt hlt, ⟨0, rfl, rfl⟩, hrest⟩
  case complete =>
    rintro next code whole i j notes slots hkeeps ⟨k, hR⟩
    have hstep : ∀ {u}, u = ⟨(Pattern.oneOrMore greedy f next code).entry, i, slots⟩ ∨ u = ⟨next, i, slots⟩ →
        Step whole cs ⟨(Pattern.zeroOrMore greedy takes f next code).entry, i, slots⟩ u :=
      fun hu => ⟨_, hentry.2 hkeeps, mem_successors_choose.2 hu⟩
    cases k with
    | zero =>
      obtain ⟨rfl, rfl⟩ := hR
      exact ⟨1, .single (hstep (.inr rfl))⟩
    | succ k =>
      obtain ⟨n, hn⟩ := hloop.complete (hkeeps.of_grows hentry.1) ⟨k, hR⟩
      exact ⟨n + 1, .head (hstep (.inl rfl)) hn⟩

theorem Realizes.congr (hf : Realizes cs f R) (h : ∀ i j notes, R i j notes ↔ S i j notes) :
    Realizes cs f S := by
  have heq : R = S := funext fun i => funext fun j => funext fun notes => propext (h i j notes)
  exact heq ▸ hf

/-- Repetitions side by side are as many as both together. -/
theorem times_before_iff {n i j : Nat} {notes : Slots} {P : Nat → Prop} :
    (R.times n).before (fun i j notes => ∃ k, P k ∧ R.times k i j notes) i j notes ↔
      ∃ k, P k ∧ R.times (n + k) i j notes := by
  simp only [← Span.times_before_times]
  constructor
  · rintro ⟨l, first, later, hfirst, ⟨k, hk, hlater⟩, rfl⟩
    exact ⟨k, hk, l, first, later, hfirst, hlater, rfl⟩
  · rintro ⟨k, hk, l, first, later, hfirst, hlater, rfl⟩
    exact ⟨l, first, later, hfirst, ⟨k, hk, hlater⟩, rfl⟩

theorem Realizes.repetition (hf : Realizes cs f R) (greedy takes : Bool) (least : Nat) (most : Option Nat)
    (hbounds : ∀ m ∈ most, least ≤ m) :
    Realizes cs (repetition greedy takes least most f)
      (fun i j notes => ∃ n, least ≤ n ∧ (∀ m ∈ most, n ≤ m) ∧ R.times n i j notes) := by
  cases most with
  | none =>
    cases least with
    | zero => exact (hf.zeroOrMore greedy takes).congr fun _ _ _ => by simp
    | succ least =>
      refine ((hf.times least).before ((hf.oneOrMore greedy).congr
        (S := fun i j notes => ∃ k, 1 ≤ k ∧ R.times k i j notes) fun i j notes => ?_)).congr fun i j notes => ?_
      · constructor
        · exact fun ⟨k, hR⟩ => ⟨k + 1, Nat.le_add_left 1 k, hR⟩
        · exact fun ⟨k, hk, hR⟩ => ⟨k - 1, by rwa [Nat.sub_add_cancel hk]⟩
      · rw [times_before_iff]
        constructor
        · exact fun ⟨k, hk, hR⟩ => ⟨least + k, Nat.add_le_add_left hk least, nofun, hR⟩
        · rintro ⟨n, hn, -, hR⟩
          exact ⟨n - least, by omega, by rwa [Nat.add_sub_cancel' (by omega)]⟩
  | some most =>
    have hle : least ≤ most := hbounds most rfl
    have hall : Realizes cs (Pattern.repetition greedy takes least (some most) f)
        ((R.times least).before fun i j notes => ∃ k, k ≤ most - least ∧ R.times k i j notes) := by
      have hmany := (hf.times least).before (hf.upTo greedy (most - least))
      cases least with
      | zero => exact hmany
      | succ least => exact hmany
    refine hall.congr fun i j notes => ?_
    rw [times_before_iff]
    constructor
    · rintro ⟨k, hk, hR⟩
      refine ⟨least + k, Nat.le_add_right least k, ?_, hR⟩
      rintro _ ⟨⟩
      omega
    · rintro ⟨n, hn, hmost, hR⟩
      have hn' := hmost most rfl
      exact ⟨n - least, by omega, by rwa [Nat.add_sub_cancel' hn]⟩

/-! ## Patterns -/

theorem single_has {c d : Char} : (CharSet.single c).has d = true ↔ d = c := by
  rw [CharSet.has, CharSet.single, Text.Ranges.has_cons, Text.Ranges.has_nil, Bool.or_false]
  constructor
  · intro h
    split at h
    · cases h
    · next hle => exact Char.toNat_inj.1 (Nat.le_antisymm (of_decide_eq_true h) (Nat.le_of_not_lt hle))
  · rintro rfl
    rw [if_neg (Nat.lt_irrefl _)]
    exact decide_eq_true (Nat.le_refl _)

theorem Realizes.chars (cs : List Char) (set : CharSet) :
    Realizes cs (fun next code => append code (.chars set next)) (Matches cs (.chars set)) := by
  refine .instruction (fun _ => nofun) fun {next i slots u} => ?_
  simp only [Instruction.successors, Matches]
  cases hc : cs[i]? with
  | none => simp
  | some c =>
    by_cases hset : set.has c = true
    · simp [hset]
    · simp [hset]

theorem Realizes.note (cs : List Char) (slot : Nat) :
    Realizes cs (fun next code => append code (.note slot next)) (.note slot) :=
  .instruction (fun _ => nofun) (by simp [Instruction.successors, Span.note])

theorem Realizes.texts (cs ds : List Char) : Realizes cs (texts ds) (Matches cs (.text ds)) := by
  induction ds with
  | nil => exact Realizes.nothing.congr fun i j notes => by simp [Matches, Span.nothing]
  | cons d ds ih =>
    refine ((Realizes.chars cs (.single d)).before ih).congr fun i j notes => ?_
    simp only [Matches, Span.before, single_has]
    constructor
    · rintro ⟨_, _, _, ⟨⟨_, hc, rfl⟩, rfl, rfl⟩, ⟨hds, rfl, rfl⟩, rfl⟩
      obtain ⟨hlt, hget⟩ := List.getElem?_eq_some_iff.1 hc
      rw [List.drop_eq_getElem_cons hlt, hget]
      exact ⟨(List.prefix_cons_inj _).2 hds, by rw [List.length_cons]; omega, rfl⟩
    · rintro ⟨hds, rfl, rfl⟩
      obtain ⟨rest, hrest⟩ := hds
      have hc : cs[i]? = some d := by
        rw [← List.head?_drop, ← hrest]
        rfl
      refine ⟨i + 1, [], [], ⟨⟨d, hc, rfl⟩, rfl, rfl⟩, ⟨⟨rest, ?_⟩, ?_, rfl⟩, rfl⟩
      · rw [← List.drop_drop, ← hrest]
        rfl
      · rw [List.length_cons]; omega

mutual

/-- **The code of a pattern realizes what the pattern matches.** -/
theorem realizes_compile (cs : List Char) (p : Pattern) (hp : ∀ q ∈ p.within, q.Feasible) :
    Realizes cs (compile p) (Matches cs p) := by
  cases p with
  | empty => exact .nothing
  | text ds => exact .texts cs ds
  | chars set => exact .chars cs set
  | start =>
    refine .instruction (fun _ => nofun) fun {next i slots u} => ?_
    by_cases hi : i = 0
    · simp [Instruction.successors, Matches, hi]
    · simp [Instruction.successors, Matches, hi]
  | stop =>
    refine .instruction (fun _ => nofun) fun {next i slots u} => ?_
    by_cases hi : i = cs.length
    · simp [Instruction.successors, Matches, hi]
    · simp [Instruction.successors, Matches, hi]
  | cat items => exact realizes_compileAll cs items fun q hq => hp q (List.mem_cons_of_mem _ hq)
  | alt branches =>
    exact realizes_compileAny cs branches (hp _ List.mem_cons_self) fun q hq =>
      hp q (List.mem_cons_of_mem _ hq)
  | repeat_ greedy least most item =>
    have hitem := realizes_compile cs item fun q hq => hp q (List.mem_cons_of_mem _ hq)
    exact hitem.repetition greedy _ least most (hp _ List.mem_cons_self)
  | group number item =>
    have hitem := realizes_compile cs item fun q hq => hp q (List.mem_cons_of_mem _ hq)
    refine ((Realizes.note cs (2 * number)).before
      (hitem.before (.note cs (2 * number + 1)))).congr fun i j notes => ?_
    constructor
    · rintro ⟨_, _, _, ⟨rfl, rfl⟩, ⟨_, inner, _, h, ⟨rfl, rfl⟩, rfl⟩, rfl⟩
      exact ⟨inner, h, rfl⟩
    · rintro ⟨inner, h, rfl⟩
      exact ⟨i, _, _, ⟨rfl, rfl⟩, ⟨j, inner, _, h, ⟨rfl, rfl⟩, rfl⟩, rfl⟩

theorem realizes_compileAll (cs : List Char) (ps : List Pattern) (hps : ∀ q ∈ withinAll ps, q.Feasible) :
    Realizes cs (compileAll ps) (MatchesAll cs ps) := by
  cases ps with
  | nil => exact .nothing
  | cons p rest =>
    have hp := realizes_compile cs p fun q hq => hps q (List.mem_append_left _ hq)
    have hrest := realizes_compileAll cs rest fun q hq => hps q (List.mem_append_right _ hq)
    exact hp.before hrest

theorem realizes_compileAny (cs : List Char) (ps : List Pattern) (hne : ps ≠ [])
    (hps : ∀ q ∈ withinAll ps, q.Feasible) : Realizes cs (compileAny ps) (MatchesAny cs ps) := by
  cases ps with
  | nil => exact absurd rfl hne
  | cons p rest =>
    have hp := realizes_compile cs p fun q hq => hps q (List.mem_append_left _ hq)
    cases rest with
    | nil => exact hp.congr fun i j notes => by simp [MatchesAny]
    | cons q rest =>
      have hrest := realizes_compileAny cs (q :: rest) (List.cons_ne_nil q rest) fun r hr =>
        hps r (List.mem_append_right _ hr)
      exact hp.either hrest

end

end Pattern

/-! ## Whole programs -/

open Pattern

/-- A state that a program runs to from its entry at a position. -/
def Program.Begun (p : Program) (cs : List Char) (i : Nat) (s : State) : Prop :=
  ∃ n, Steps p.code cs n ⟨p.entry, i, []⟩ s

/-- The notes of a run from a position on that is accepted. -/
def Program.Accepted (p : Program) (cs : List Char) (i : Nat) (slots : Slots) : Prop :=
  ∃ s, Begun p cs i s ∧ Accepting p.code s ∧ s.slots = slots

/-- What a program accepts from a position on is what its pattern matches from there on, with the ends of the
match noted around the ends of groups. -/
theorem Program.accepted_iff {p : Pattern} (hp : p.WellFormed) {cs : List Char} {i : Nat}
    {slots : Slots} :
    (ofPattern p).Accepted cs i slots ↔
      ∃ j notes, p.Matches cs i j notes ∧ slots = (1, j) :: (notes ++ [(0, i)]) := by
  have hbody := realizes_compile cs p hp.nodes
  have hnotes := (Realizes.note cs 0).before (hbody.before (.note cs 1))
  -- the code behind the instruction that accepts
  have hkeeps : Keeps (ofPattern p).code (ofPattern p).code 1 := fun _ _ _ => rfl
  have haccept : (ofPattern p).code[0]? = some .accept :=
    (hnotes.grows 0 #[.accept]).getElem?_eq 0 (Nat.lt_succ_self 0)
  constructor
  · rintro ⟨t, ⟨n, hsteps⟩, ht, rfl⟩
    obtain ⟨j, notes, m, -, hR, hrest⟩ := @Realizes.sound _ _ _ hnotes 0 #[.accept] _ _ _ _ _ hkeeps ht hsteps
    obtain ⟨_, _, _, ⟨rfl, rfl⟩, ⟨_, inner, _, h, ⟨rfl, rfl⟩, rfl⟩, rfl⟩ := hR
    cases hrest with
    | refl => exact ⟨_, inner, h, by simp⟩
    | head hstep _ =>
      obtain ⟨instruction, hplace, hu⟩ := hstep
      obtain rfl := Option.some.inj (haccept.symm.trans hplace)
      exact absurd hu List.not_mem_nil
  · rintro ⟨j, inner, h, rfl⟩
    have hR : (Span.note 0).before ((p.Matches cs).before (.note 1)) i j (([(1, j)] ++ inner) ++ [(0, i)]) :=
      ⟨i, _, _, ⟨rfl, rfl⟩, ⟨j, inner, _, h, ⟨rfl, rfl⟩, rfl⟩, rfl⟩
    obtain ⟨n, hn⟩ := @Realizes.complete _ _ _ hnotes 0 #[.accept] _ _ _ _ [] hkeeps hR
    exact ⟨_, ⟨n, hn⟩, haccept, by simp⟩

end Invocation

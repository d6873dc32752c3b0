/-
  Following the threads of a program at a position.

  Following goes from place to place without taking a character, and to each
  place once.

  * `Program.Step.index_cases`, `Program.Steps.exists_crossing`: what steps do
    to the position;
  * `Program.moves`, `Program.visit`: what following one place does;
  * `Program.Explored`: the places that were reached are closed under moves,
    and a thread waits at each of them that waits for a character;
    `explored_follow`: following keeps this up, and `waiting_follow`: every
    thread that it adds has been run to.
-/
import Invocation.Proofs.Pattern.Program

namespace Invocation

/-- Whether a place was reached, or lies outside of the code. -/
def Threads.Has (threads : Threads) (place : Nat) : Prop := threads.reached.getD place true = true

namespace Program

/-! ## Steps and positions -/

section Steps

variable {code : Array Instruction} {cs : List Char} {n k : Nat} {s t u : State}

/-- A step stays at its position, or it takes the character there. -/
theorem Step.index_cases (h : Step code cs s t) :
    t.index = s.index ∨ t.index = s.index + 1 ∧
      ∃ set c, code[s.place]? = some (.chars set t.place) ∧ cs[s.index]? = some c ∧ set.has c = true ∧
        t.slots = s.slots := by
  obtain ⟨instruction, hplace, ht⟩ := h
  cases instruction with
  | chars set next =>
    simp only [Instruction.successors] at ht
    cases hc : cs[s.index]? with
    | none => simp [hc] at ht
    | some c =>
      by_cases hset : set.has c = true
      · simp only [hc, hset, if_true, List.mem_singleton] at ht
        subst ht
        exact .inr ⟨rfl, set, c, hplace, rfl, hset, rfl⟩
      · simp [hc, hset] at ht
  | branch first second =>
    rcases List.mem_pair.1 ht with rfl | rfl
    · exact .inl rfl
    · exact .inl rfl
  | note slot next =>
    cases List.mem_singleton.1 ht
    exact .inl rfl
  | atStart next =>
    simp only [Instruction.successors] at ht
    split at ht
    · cases List.mem_singleton.1 ht
      exact .inl rfl
    · exact absurd ht List.not_mem_nil
  | atStop next =>
    simp only [Instruction.successors] at ht
    split at ht
    · cases List.mem_singleton.1 ht
      exact .inl rfl
    · exact absurd ht List.not_mem_nil
  | accept => exact absurd ht List.not_mem_nil

theorem Steps.index_le (h : Steps code cs n s t) : s.index ≤ t.index := by
  induction h with
  | refl => exact Nat.le_refl _
  | head hstep _ ih =>
    rcases hstep.index_cases with heq | ⟨heq, -⟩
    · omega
    · omega

theorem Steps.index_le_length {code : Array Instruction} {n : Nat} {s t : State}
    (h : Steps code cs n s t) (hs : s.index ≤ cs.length) : t.index ≤ cs.length := by
  induction h with
  | refl => exact hs
  | head hstep _ ih =>
    rcases hstep.index_cases with heq | ⟨heq, -, _, -, hc, -⟩
    · exact ih (heq ▸ hs)
    · obtain ⟨hlt, -⟩ := List.getElem?_eq_some_iff.1 hc
      exact ih (heq ▸ hlt)

/-- A run to behind a position takes the character there. -/
theorem Steps.exists_crossing (h : Steps code cs n s t) (hs : s.index ≤ k) (ht : k < t.index) :
    ∃ m place slots set next c m', Steps code cs m s ⟨place, k, slots⟩ ∧
      code[place]? = some (.chars set next) ∧ cs[k]? = some c ∧ set.has c = true ∧
      Steps code cs m' ⟨next, k + 1, slots⟩ t := by
  induction h with
  | refl => exact absurd hs (Nat.not_le_of_lt ht)
  | @head n s u t hstep rest ih =>
    have hrest : u.index ≤ k → _ := fun hu => ih hu ht
    rcases hstep.index_cases with heq | ⟨heq, set, c, hplace, hc, hset, hslots⟩
    · obtain ⟨m, place, slots, set, next, c, m', hsteps, hcross⟩ := hrest (heq ▸ hs)
      exact ⟨m + 1, place, slots, set, next, c, m', .head hstep hsteps, hcross⟩
    rcases Nat.eq_or_lt_of_le hs with rfl | hlt
    · refine ⟨0, s.place, s.slots, set, u.place, c, n, .refl, hplace, hc, hset, ?_⟩
      rw [← hslots, ← heq]
      exact rest
    · obtain ⟨m, place, slots, set, next, c, m', hsteps, hcross⟩ := hrest (by omega)
      exact ⟨m + 1, place, slots, set, next, c, m', .head hstep hsteps, hcross⟩

/-- What was noted is kept. -/
theorem Steps.exists_notes (h : Steps code cs n s t) :
    ∃ notes, t.slots = notes ++ s.slots := by
  induction h with
  | refl => exact ⟨[], rfl⟩
  | @head n s u t hstep _ ih =>
    obtain ⟨notes, hnotes⟩ := ih
    obtain ⟨instruction, -, hu⟩ := hstep
    have hslots : ∃ notes, u.slots = notes ++ s.slots := by
      cases instruction with
      | chars set next =>
        simp only [Instruction.successors] at hu
        split at hu
        · split at hu
          · cases List.mem_singleton.1 hu
            exact ⟨[], rfl⟩
          · exact absurd hu List.not_mem_nil
        · exact absurd hu List.not_mem_nil
      | branch first second =>
        rcases List.mem_pair.1 hu with rfl | rfl
        · exact ⟨[], rfl⟩
        · exact ⟨[], rfl⟩
      | note slot next =>
        cases List.mem_singleton.1 hu
        exact ⟨[(slot, s.index)], rfl⟩
      | atStart next | atStop next =>
        simp only [Instruction.successors] at hu
        split at hu
        · cases List.mem_singleton.1 hu
          exact ⟨[], rfl⟩
        · exact absurd hu List.not_mem_nil
      | accept => exact absurd hu List.not_mem_nil
    obtain ⟨before, hbefore⟩ := hslots
    exact ⟨notes ++ before, by rw [hnotes, hbefore, List.append_assoc]⟩

end Steps

/-! ## Following one place -/

/-- A position in a text. -/
def positionOf (cs : List Char) (k : Nat) : Position := ⟨k, k == 0, k == cs.length⟩

variable (p : Program)

/-- The threads that a thread moves on to without taking a character, the preferred one first. -/
def moves (at_ : Position) (t : Thread) : List Thread :=
  match p.code[t.place]? with
  | some (.branch first second) => [⟨first, t.slots⟩, ⟨second, t.slots⟩]
  | some (.note slot next) => [⟨next, (slot, at_.index) :: t.slots⟩]
  | some (.atStart next) => if at_.isStart then [⟨next, t.slots⟩] else []
  | some (.atStop next) => if at_.isStop then [⟨next, t.slots⟩] else []
  | _ => []

/-- Whether a thread waits at a place, for a character or as a match. -/
def Waits (place : Nat) : Prop :=
  (∃ set next, p.code[place]? = some (.chars set next)) ∨ p.code[place]? = some .accept

instance (place : Nat) : Decidable (p.Waits place) :=
  match h : p.code[place]? with
  | some (.chars set next) => .isTrue (.inl ⟨set, next, h⟩)
  | some .accept => .isTrue (.inr h)
  | some (.branch ..) | some (.note ..) | some (.atStart ..) | some (.atStop ..) | none =>
    .isFalse (by simp [Waits, h])

/-- The threads when one of them has reached a place. -/
def visit (threads : Threads) (t : Thread) : Threads where
  reached := threads.reached.setIfInBounds t.place true
  waiting := if p.Waits t.place then threads.waiting.push t else threads.waiting

variable {p : Program} {cs : List Char} {at_ : Position} {k fuel : Nat} {t u : Thread} {stack rest : List Thread}
  {threads : Threads} {place : Nat}

theorem follow_cons (at_ : Position) (fuel : Nat) (t : Thread) (rest : List Thread) (threads : Threads) :
    p.follow at_ (fuel + 1) (t :: rest) threads =
      if threads.reached.getD t.place true then p.follow at_ fuel rest threads
      else p.follow at_ fuel (p.moves at_ t ++ rest) (p.visit threads t) := by
  rw [follow]
  split
  · rfl
  · simp only [moves, visit]
    cases hplace : p.code[t.place]? with
    | none => simp [Waits, hplace]
    | some instruction =>
      cases instruction with
      | atStart next => cases at_.isStart <;> simp [Waits, hplace]
      | atStop next => cases at_.isStop <;> simp [Waits, hplace]
      | _ => simp [Waits, hplace]

theorem mem_moves :
    u ∈ p.moves (positionOf cs k) t ↔ Step p.code cs ⟨t.place, k, t.slots⟩ ⟨u.place, k, u.slots⟩ := by
  obtain ⟨place, slots⟩ := u
  rw [moves, Step]
  cases hplace : p.code[t.place]? with
  | none => simp
  | some instruction =>
    cases instruction with
    | chars set next =>
      cases hc : cs[k]? with
      | none => simp [Instruction.successors, hc]
      | some c => by_cases hset : set.has c = true <;> simp [Instruction.successors, hc, hset]
    | atStart next => by_cases hk : k = 0 <;> simp [Instruction.successors, positionOf, hk]
    | atStop next => by_cases hk : k = cs.length <;> simp [Instruction.successors, positionOf, hk]
    | branch | note | accept => simp [Instruction.successors, positionOf]

/-- What was noted does not count for the places that are moved on to. -/
theorem map_place_moves (h : t.place = u.place) :
    (p.moves at_ t).map Thread.place = (p.moves at_ u).map Thread.place := by
  rw [moves, moves, h]
  split
  · rfl
  · rfl
  · split <;> rfl
  · split <;> rfl
  · rfl

theorem length_moves_le (at_ : Position) (t : Thread) : (p.moves at_ t).length ≤ 2 := by
  rw [moves]
  split
  · exact Nat.le_refl 2
  · exact Nat.le_succ 1
  · split <;> simp
  · split <;> simp
  · exact Nat.zero_le 2

/-! ## The places that are reached -/

/-- A place that was not reached lies inside of the code. -/
theorem exists_of_not_has (h : ¬ threads.Has place) :
    ∃ hlt : place < threads.reached.size, threads.reached[place] = false := by
  rw [Threads.Has, Array.getD_eq_getD_getElem?] at h
  by_cases hlt : place < threads.reached.size
  · rw [Array.getElem?_eq_getElem hlt, Option.getD_some, Bool.not_eq_true] at h
    exact ⟨hlt, h⟩
  · rw [Array.getElem?_eq_none (Nat.le_of_not_lt hlt)] at h
    exact absurd rfl h

theorem has_visit (h : ¬ threads.Has t.place) :
    (p.visit threads t).Has place ↔ place = t.place ∨ threads.Has place := by
  obtain ⟨hlt, -⟩ := exists_of_not_has h
  rw [visit, Threads.Has, Threads.Has, Array.getD_eq_getD_getElem?, Array.getD_eq_getD_getElem?,
    Array.getElem?_setIfInBounds]
  by_cases heq : t.place = place
  · subst heq
    simp [hlt]
  · rw [if_neg heq, or_iff_right (Ne.symm heq)]

/-- One place less is left to reach. -/
theorem count_visit (h : ¬ threads.Has t.place) :
    (p.visit threads t).reached.count false + 1 = threads.reached.count false := by
  obtain ⟨hlt, hfalse⟩ := exists_of_not_has h
  have hpos : 0 < threads.reached.count false :=
    Array.count_pos_iff.2 (hfalse ▸ Array.getElem_mem hlt)
  rw [visit, Array.setIfInBounds, dif_pos hlt, Array.count_set hlt, hfalse]
  simp only [beq_self_eq_true, if_true, Bool.true_beq, Bool.false_eq_true, if_false]
  omega

/-- The places that were reached are closed under moves, but for those that are still on the way, and a
thread waits at each of them that a thread waits at. -/
structure Explored (p : Program) (at_ : Position) (stack : List Thread) (threads : Threads) : Prop where
  size_eq : threads.reached.size = p.code.size
  closed : ∀ t, threads.Has t.place → ∀ u ∈ p.moves at_ t,
    threads.Has u.place ∨ u.place ∈ stack.map Thread.place
  listed : ∀ place, place < p.code.size → threads.Has place → p.Waits place →
    place ∈ threads.waiting.toList.map Thread.place

theorem Explored.skip (h : Explored p at_ (t :: rest) threads) (ht : threads.Has t.place) :
    Explored p at_ rest threads where
  size_eq := h.size_eq
  closed v hv u hu := by
    rcases h.closed v hv u hu with hhas | hmem
    · exact .inl hhas
    · rcases List.mem_cons.1 hmem with heq | hmem
      · exact .inl (heq ▸ ht)
      · exact .inr hmem
  listed := h.listed

theorem Explored.visit (h : Explored p at_ (t :: rest) threads) (ht : ¬ threads.Has t.place) :
    Explored p at_ (p.moves at_ t ++ rest) (p.visit threads t) where
  size_eq := by rw [Program.visit, Array.size_setIfInBounds]; exact h.size_eq
  closed v hv u hu := by
    rw [has_visit ht] at hv ⊢
    rw [List.map_append, List.mem_append]
    rcases hv with hv | hv
    · have hplaces : u.place ∈ (p.moves at_ t).map Thread.place :=
        map_place_moves hv ▸ List.mem_map_of_mem hu
      exact .inr (.inl hplaces)
    · rcases h.closed v hv u hu with hhas | hmem
      · exact .inl (.inr hhas)
      · rcases List.mem_cons.1 hmem with heq | hmem
        · exact .inl (.inl heq)
        · exact .inr (.inr hmem)
  listed place hlt hplace hwaits := by
    rw [has_visit ht] at hplace
    by_cases heq : place = t.place
    · subst heq
      simp [Program.visit, hwaits]
    · have hmem := h.listed place hlt (hplace.resolve_left heq) hwaits
      rw [Program.visit]
      split
      · rw [Array.toList_push, List.map_append]
        exact List.mem_append_left _ hmem
      · exact hmem

/-- Following threads reaches all places that they lead to. The fuel is enough since a place that was not
reached before adds at most one thread to those on the way. -/
theorem explored_follow (h : Explored p at_ stack threads)
    (hfuel : stack.length + 2 * threads.reached.count false ≤ fuel) :
    Explored p at_ [] (p.follow at_ fuel stack threads) ∧
      (∀ place, threads.Has place → (p.follow at_ fuel stack threads).Has place) ∧
      ∀ t ∈ stack, (p.follow at_ fuel stack threads).Has t.place := by
  induction fuel generalizing stack threads with
  | zero =>
    obtain rfl : stack = [] := List.length_eq_zero_iff.1 (by omega)
    exact ⟨h, fun _ hplace => hplace, nofun⟩
  | succ fuel ih =>
    cases stack with
    | nil => exact ⟨h, fun _ hplace => hplace, nofun⟩
    | cons t rest =>
      rw [List.length_cons] at hfuel
      rw [follow_cons]
      split
      · next ht =>
        obtain ⟨hexplored, hmono, hrest⟩ := ih (h.skip ht) (by omega)
        refine ⟨hexplored, hmono, List.forall_mem_cons.2 ⟨hmono _ ht, hrest⟩⟩
      · next ht =>
        have hlength := length_moves_le (p := p) at_ t
        have hcount := count_visit (p := p) ht
        obtain ⟨hexplored, hmono, hrest⟩ := ih (h.visit ht) (by rw [List.length_append]; omega)
        refine ⟨hexplored, fun place hplace => hmono place ((has_visit ht).2 (.inr hplace)),
          List.forall_mem_cons.2 ⟨hmono _ ((has_visit ht).2 (.inl rfl)), fun u hu => ?_⟩⟩
        exact hrest u (List.mem_append_right _ hu)

/-- The threads that are added have been run to, at the same position. -/
theorem waiting_follow (fuel : Nat) (stack : List Thread) (threads : Threads) :
    ∃ new, (p.follow (positionOf cs k) fuel stack threads).waiting.toList = threads.waiting.toList ++ new ∧
      ∀ t ∈ new, p.Waits t.place ∧
        ∃ u ∈ stack, ∃ n, Steps p.code cs n ⟨u.place, k, u.slots⟩ ⟨t.place, k, t.slots⟩ := by
  induction fuel generalizing stack threads with
  | zero => exact ⟨[], (List.append_nil _).symm, nofun⟩
  | succ fuel ih =>
    cases stack with
    | nil => exact ⟨[], (List.append_nil _).symm, nofun⟩
    | cons t rest =>
      rw [follow_cons]
      split
      · obtain ⟨new, heq, hnew⟩ := ih rest threads
        refine ⟨new, heq, fun v hv => ?_⟩
        obtain ⟨hwaits, u, hu, hsteps⟩ := hnew v hv
        exact ⟨hwaits, u, List.mem_cons_of_mem t hu, hsteps⟩
      · obtain ⟨new, heq, hnew⟩ := ih (p.moves (positionOf cs k) t ++ rest) (p.visit threads t)
        have hlater : ∀ v ∈ new, p.Waits v.place ∧ ∃ u ∈ t :: rest, ∃ n,
            Steps p.code cs n ⟨u.place, k, u.slots⟩ ⟨v.place, k, v.slots⟩ := by
          intro v hv
          obtain ⟨hwaits, u, hu, n, hsteps⟩ := hnew v hv
          rcases List.mem_append.1 hu with hu | hu
          · exact ⟨hwaits, t, List.mem_cons_self, n + 1, .head (mem_moves.1 hu) hsteps⟩
          · exact ⟨hwaits, u, List.mem_cons_of_mem t hu, n, hsteps⟩
        rw [heq, visit]
        split
        · next hwaits =>
          refine ⟨t :: new, ?_, List.forall_mem_cons.2 ⟨⟨hwaits, t, List.mem_cons_self, 0, .refl⟩, hlater⟩⟩
          rw [Array.toList_push, List.append_assoc, List.singleton_append]
        · exact ⟨new, rfl, hlater⟩

/-- The places that were reached are closed under runs that take no character. -/
theorem Explored.has_of_steps (h : Explored p (positionOf cs k) [] threads) {n place place' : Nat}
    {slots slots' : Slots} (hplace : threads.Has place)
    (hsteps : Steps p.code cs n ⟨place, k, slots⟩ ⟨place', k, slots'⟩) : threads.Has place' := by
  generalize hs : State.mk place k slots = s at hsteps
  generalize ht : State.mk place' k slots' = t at hsteps
  induction hsteps generalizing place slots with
  | refl =>
    cases hs
    cases ht
    exact hplace
  | @head _ s u _ hstep rest ih =>
    subst hs ht
    have hle : k ≤ u.index := by
      rcases hstep.index_cases with heq | ⟨heq, -⟩
      · exact Nat.le_of_eq heq.symm
      · exact heq ▸ Nat.le_succ k
    have hindex : u.index = k := Nat.le_antisymm rest.index_le hle
    obtain ⟨q, i, notes⟩ := u
    obtain rfl : i = k := hindex
    have hmove : ⟨q, notes⟩ ∈ p.moves (positionOf cs i) ⟨place, slots⟩ := mem_moves.2 hstep
    rcases h.closed ⟨place, slots⟩ hplace _ hmove with hhas | hmem
    · exact ih hhas rfl rfl
    · exact absurd hmem List.not_mem_nil

end Program

end Invocation

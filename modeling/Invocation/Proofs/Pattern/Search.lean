/-
  The search finds the matches that begin first.

  At each position the search keeps a thread for each place where some run of
  the program waits, and only runs that began no later than it are given up
  for a thread.

  * `Program.startOf`: a thread has noted where its run began;
  * `Program.Entered`: what holds of the threads while runs are entered behind
    a character, the earlier ones first;
  * `Program.Frontier`: what holds of the threads and the best match at each
    position; `Frontier.untilMatch`, `Frontier.advance`: it is kept when the
    first match is taken and when a character is read, so that it carries
    `run_spec`;
  * `Program.search?_spec`: what is found is accepted, and nothing that is
    accepted begins before it.
-/
import Invocation.Proofs.Pattern.Following

namespace Invocation

namespace Program

variable {p : Program} {cs : List Char} {k : Nat} {t : Thread} {threads : Threads} {place : Nat}

/-! ## Threads and where they begin -/

/-- The position that was noted first: where the run of a thread begins. -/
def startOf (slots : Slots) : Nat := slots.getLast?.elim 0 Prod.snd

/-- The entry of a program notes the position. -/
def NotesEntry (p : Program) : Prop := ∃ slot next, p.code[p.entry]? = some (.note slot next)

/-- A run that waits has noted where it began. -/
theorem Begun.startOf_eq {i : Nat} {s : State} (hp : p.NotesEntry) (h : Begun p cs i s)
    (hs : p.Waits s.place) : startOf s.slots = i := by
  obtain ⟨slot, next, hentry⟩ := hp
  obtain ⟨n, hsteps⟩ := h
  cases hsteps with
  | refl =>
    rcases hs with ⟨_, _, hplace⟩ | hplace
    · cases hentry.symm.trans hplace
    · cases hentry.symm.trans hplace
  | head hstep rest =>
    obtain ⟨instruction, hplace, hu⟩ := hstep
    obtain rfl := Option.some.inj (hentry.symm.trans hplace)
    cases List.mem_singleton.1 hu
    obtain ⟨notes, hnotes⟩ := rest.exists_notes
    rw [startOf, hnotes, List.getLast?_append, List.getLast?_singleton]
    rfl

/-- A run begins at the entry. -/
theorem begun_entry (p : Program) (cs : List Char) (i : Nat) : Begun p cs i ⟨p.entry, i, []⟩ := ⟨0, .refl⟩

theorem Begun.steps {i n : Nat} {s u : State} (h : Begun p cs i s) (hsteps : Steps p.code cs n s u) :
    Begun p cs i u := by
  obtain ⟨m, hm⟩ := h
  exact ⟨m + n, hm.trans hsteps⟩

theorem Waits.lt_size (h : p.Waits place) : place < p.code.size := by
  rcases h with ⟨_, _, h⟩ | h
  · exact (Array.getElem?_eq_some_iff.1 h).1
  · exact (Array.getElem?_eq_some_iff.1 h).1

/-- A thread waits at a position, to which its run has come from some position no later. -/
def Waiting (p : Program) (cs : List Char) (k : Nat) (t : Thread) : Prop :=
  p.Waits t.place ∧ ∃ i, i ≤ k ∧ Begun p cs i ⟨t.place, k, t.slots⟩

/-- The run of a thread that waits began at the position that was noted first. -/
theorem Waiting.begun (h : Waiting p cs k t) (hp : p.NotesEntry) :
    startOf t.slots ≤ k ∧ Begun p cs (startOf t.slots) ⟨t.place, k, t.slots⟩ := by
  obtain ⟨hwaits, i, hi, hrun⟩ := h
  rw [hrun.startOf_eq hp hwaits]
  exact ⟨hi, hrun⟩

/-- One of the threads is at a place, and its run began no later than at a position. -/
def Covers (waiting : List Thread) (place i : Nat) : Prop :=
  ∃ t ∈ waiting, t.place = place ∧ startOf t.slots ≤ i

theorem Covers.of_longer {waiting waiting' : List Thread} {i : Nat} (h : Covers waiting place i)
    (hbegins : waiting <+: waiting') : Covers waiting' place i := by
  obtain ⟨t, ht, hcovers⟩ := h
  exact ⟨t, hbegins.subset ht, hcovers⟩

theorem Covers.mono {waiting : List Thread} {i j : Nat} (h : Covers waiting place i) (hle : i ≤ j) :
    Covers waiting place j := by
  obtain ⟨t, ht, hplace, hstart⟩ := h
  exact ⟨t, ht, hplace, Nat.le_trans hstart hle⟩

/-- Threads that wait at a position, in the order in which their runs begin, none of them after `bound`. -/
structure Entered (p : Program) (cs : List Char) (k bound : Nat) (threads : Threads) : Prop where
  explored : Explored p (positionOf cs k) [] threads
  begun : ∀ t ∈ threads.waiting.toList, Waiting p cs k t
  sorted : threads.waiting.toList.Pairwise fun t u => startOf t.slots ≤ startOf u.slots
  upper : ∀ t ∈ threads.waiting.toList, startOf t.slots ≤ bound

theorem entered_noThreads (p : Program) (cs : List Char) (k : Nat) : Entered p cs k 0 p.noThreads where
  explored :=
    { size_eq := Array.size_replicate
      closed := fun t ht u hu => by
        have hnone : p.code[t.place]? = none := by
          by_contra hsome
          obtain ⟨instruction, hplace⟩ := Option.ne_none_iff_exists'.1 hsome
          have hlt := (Array.getElem?_eq_some_iff.1 hplace).1
          rw [Threads.Has, noThreads, Array.getD_eq_getD_getElem?, Array.getElem?_replicate, if_pos hlt] at ht
          cases ht
        rw [moves, hnone] at hu
        exact absurd hu List.not_mem_nil
      listed := fun place hlt hplace => by
        rw [Threads.Has, noThreads, Array.getD_eq_getD_getElem?, Array.getElem?_replicate, if_pos hlt] at hplace
        cases hplace }
  begun := nofun
  sorted := .nil
  upper := nofun

/-- Threads after a run has been entered that begins no earlier than the others: those that waited before,
and behind them a thread for each place that the run leads to. -/
theorem Entered.enter {bound i : Nat} {slots : Slots} (h : Entered p cs k bound threads)
    (hp : p.NotesEntry) (hbound : bound ≤ i) (hi : i ≤ k) (hrun : Begun p cs i ⟨place, k, slots⟩) :
    Entered p cs k i (p.enter (positionOf cs k) place slots threads) ∧
      threads.waiting.toList <+: (p.enter (positionOf cs k) place slots threads).waiting.toList ∧
      ∀ place' n notes notes', Steps p.code cs n ⟨place, k, notes⟩ ⟨place', k, notes'⟩ → p.Waits place' →
        Covers (p.enter (positionOf cs k) place slots threads).waiting.toList place' i := by
  have hcount : threads.reached.count false ≤ p.code.size := h.explored.size_eq ▸ Array.count_le_size
  have hstack : Explored p (positionOf cs k) [⟨place, slots⟩] threads :=
    { h.explored with
      closed := fun t ht u hu => (h.explored.closed t ht u hu).imp_right fun hmem =>
        absurd hmem List.not_mem_nil }
  have hfuel : [(⟨place, slots⟩ : Thread)].length + 2 * threads.reached.count false ≤ 2 * p.code.size + 2 := by
    rw [List.length_singleton]
    omega
  obtain ⟨hexplored, -, hhas⟩ := explored_follow hstack hfuel
  obtain ⟨new, heq, hnew⟩ :=
    @waiting_follow p cs k (2 * p.code.size + 2) [⟨place, slots⟩] threads
  rw [Program.enter]
  generalize p.follow (positionOf cs k) (2 * p.code.size + 2) [⟨place, slots⟩] threads = result at *
  have hnew' : ∀ t ∈ new, p.Waits t.place ∧ Begun p cs i ⟨t.place, k, t.slots⟩ := by
    intro t ht
    obtain ⟨hwaits, u, hu, n, hsteps⟩ := hnew t ht
    obtain rfl := List.mem_singleton.1 hu
    exact ⟨hwaits, hrun.steps hsteps⟩
  have hstart : ∀ t ∈ new, startOf t.slots = i := fun t ht =>
    (hnew' t ht).2.startOf_eq hp (hnew' t ht).1
  have hentered : Entered p cs k i result :=
    { explored := hexplored
      begun := by
        rw [heq]
        exact List.forall_mem_append.2 ⟨h.begun, fun t ht => ⟨(hnew' t ht).1, i, hi, (hnew' t ht).2⟩⟩
      sorted := by
        rw [heq, List.pairwise_append]
        refine ⟨h.sorted, List.pairwise_of_forall_mem_list fun t ht u hu => ?_, fun t ht u hu => ?_⟩
        · rw [hstart t ht, hstart u hu]
        · rw [hstart u hu]
          exact Nat.le_trans (h.upper t ht) hbound
      upper := by
        rw [heq]
        exact List.forall_mem_append.2
          ⟨fun t ht => Nat.le_trans (h.upper t ht) hbound, fun t ht => Nat.le_of_eq (hstart t ht)⟩ }
  refine ⟨hentered, ⟨new, heq.symm⟩, fun place' n notes notes' hsteps hwaits => ?_⟩
  have hreached := hexplored.has_of_steps (hhas _ List.mem_cons_self) hsteps
  obtain ⟨t, ht, hplace⟩ := List.mem_map.1 (hexplored.listed place' hwaits.lt_size hreached hwaits)
  exact ⟨t, ht, hplace, hentered.upper t ht⟩

/-! ## Reading a character -/

/-- A thread takes a character and goes on at a place. -/
def Takes (p : Program) (c : Char) (t : Thread) (next : Nat) : Prop :=
  ∃ set, p.code[t.place]? = some (.chars set next) ∧ set.has c = true

/-- What one thread adds to the threads behind a character. -/
def advanceOne (p : Program) (at_ : Position) (c : Char) (threads : Threads) (t : Thread) : Threads :=
  match p.code[t.place]? with
  | some (.chars set next) => if set.has c then p.enter at_ next t.slots threads else threads
  | _ => threads

theorem advanceOne_cases (at_ : Position) (c : Char) (threads : Threads) (t : Thread) :
    (∃ next, p.Takes c t next ∧ p.advanceOne at_ c threads t = p.enter at_ next t.slots threads) ∨
      (∀ next, ¬ p.Takes c t next) ∧ p.advanceOne at_ c threads t = threads := by
  rw [advanceOne]
  split
  · next set next hplace =>
    split
    · next hset => exact .inl ⟨next, ⟨set, hplace, hset⟩, rfl⟩
    · next hset =>
      refine .inr ⟨fun next' ⟨set', hplace', hset'⟩ => ?_, rfl⟩
      cases hplace.symm.trans hplace'
      exact hset hset'
  · next hplace => exact .inr ⟨fun next ⟨set, hplace', _⟩ => hplace set next hplace', rfl⟩

/-- Threads that take a character one after the other, in the order in which their runs begin: behind the
character a thread waits wherever one of their runs does, and begins no later. -/
theorem entered_foldl {bound : Nat} {c : Char} {waiting : List Thread} (hp : p.NotesEntry)
    (hc : cs[k]? = some c) (h : Entered p cs (k + 1) bound threads)
    (hbegun : ∀ t ∈ waiting, Waiting p cs k t)
    (hsorted : waiting.Pairwise fun t u => startOf t.slots ≤ startOf u.slots)
    (hbound : ∀ t ∈ waiting, bound ≤ startOf t.slots) :
    ∃ bound', Entered p cs (k + 1) bound'
        (waiting.foldl (p.advanceOne (positionOf cs (k + 1)) c) threads) ∧
      threads.waiting.toList <+:
        (waiting.foldl (p.advanceOne (positionOf cs (k + 1)) c) threads).waiting.toList ∧
      (bound' = bound ∨ ∃ t ∈ waiting, bound' = startOf t.slots) ∧
      ∀ t ∈ waiting, ∀ next, p.Takes c t next → ∀ place n notes notes',
        Steps p.code cs n ⟨next, k + 1, notes⟩ ⟨place, k + 1, notes'⟩ → p.Waits place →
        Covers (waiting.foldl (p.advanceOne (positionOf cs (k + 1)) c) threads).waiting.toList place
          (startOf t.slots) := by
  induction waiting generalizing bound threads with
  | nil => exact ⟨bound, h, List.prefix_rfl, .inl rfl, nofun⟩
  | cons t rest ih =>
    obtain ⟨hwaiting, hbegun⟩ := List.forall_mem_cons.1 hbegun
    obtain ⟨hle, hrun⟩ := hwaiting.begun hp
    obtain ⟨hfirst, hsorted⟩ := List.pairwise_cons.1 hsorted
    obtain ⟨hbound, hbounds⟩ := List.forall_mem_cons.1 hbound
    rw [List.foldl_cons]
    rcases advanceOne_cases (p := p) (positionOf cs (k + 1)) c threads t with
      ⟨next, htakes, heq⟩ | ⟨hnot, heq⟩
    · obtain ⟨set, hplace, hset⟩ := htakes
      have hstep : Step p.code cs ⟨t.place, k, t.slots⟩ ⟨next, k + 1, t.slots⟩ :=
        ⟨_, hplace, by simp [Instruction.successors, hc, hset]⟩
      obtain ⟨hentered, hbegins, hcovers⟩ :=
        h.enter hp hbound (Nat.le_succ_of_le hle) (hrun.steps (.single hstep))
      rw [← heq] at hentered hbegins hcovers
      obtain ⟨bound', hentered', hbegins', hbound', hcovers'⟩ := ih hentered hbegun hsorted hfirst
      refine ⟨bound', hentered', hbegins.trans hbegins', .inr ?_, List.forall_mem_cons.2 ⟨?_, hcovers'⟩⟩
      · rcases hbound' with rfl | ⟨u, hu, rfl⟩
        · exact ⟨t, List.mem_cons_self, rfl⟩
        · exact ⟨u, List.mem_cons_of_mem t hu, rfl⟩
      · rintro next' ⟨set', hplace', -⟩ place n notes notes' hsteps hwaits'
        cases hplace.symm.trans hplace'
        exact (hcovers place n notes notes' hsteps hwaits').of_longer hbegins'
    · rw [heq]
      obtain ⟨bound', hentered, hbegins, hbound', hcovers⟩ := ih h hbegun hsorted hbounds
      refine ⟨bound', hentered, hbegins, hbound'.imp_right ?_, List.forall_mem_cons.2 ⟨?_, hcovers⟩⟩
      · exact fun ⟨u, hu, heq⟩ => ⟨u, List.mem_cons_of_mem t hu, heq⟩
      · exact fun next htakes => absurd htakes (hnot next)

/-! ## Threads and the best match -/

/-- There is a match, which begins no later than at a position. -/
def FoundBy (found : Option Slots) (i : Nat) : Prop := ∃ slots ∈ found, startOf slots ≤ i

/-- What holds at a position of the threads that wait and of the best match. All runs that were accepted
before the position `done` count for the best match. -/
structure Frontier (p : Program) (cs : List Char) (k done : Nat) (waiting : List Thread)
    (found : Option Slots) : Prop where
  begun : ∀ t ∈ waiting, Waiting p cs k t
  sorted : waiting.Pairwise fun t u => startOf t.slots ≤ startOf u.slots
  found_accepted : ∀ slots ∈ found, startOf slots ≤ k ∧ Accepted p cs (startOf slots) slots
  bounded : ∀ slots ∈ found, ∀ t ∈ waiting, startOf t.slots ≤ startOf slots
  /-- A run that waits has a thread at its place that begins no later, or a match does. -/
  covered : ∀ i place slots, i ≤ k → Begun p cs i ⟨place, k, slots⟩ → p.Waits place →
    Covers waiting place i ∨ FoundBy found i
  passed : ∀ i s, Begun p cs i s → Accepting p.code s → s.index < done → FoundBy found i

theorem accepts_iff : p.accepts t = true ↔ p.code[t.place]? = some .accept := by
  rw [accepts, beq_iff_eq]

/-- What holds of the runs that were accepted before a position, and of those that are accepted there, holds of
those that are accepted before the next one. -/
theorem passed_succ {P : Nat → Prop} (hbefore : ∀ i s, Begun p cs i s → Accepting p.code s → s.index < k → P i)
    (hhere : ∀ i place slots, i ≤ k → Begun p cs i ⟨place, k, slots⟩ →
      p.code[place]? = some .accept → P i) :
    ∀ i s, Begun p cs i s → Accepting p.code s → s.index < k + 1 → P i := by
  intro i s hrun hs hlt
  rcases Nat.eq_or_lt_of_le (Nat.le_of_lt_succ hlt) with heq | hlt
  · obtain ⟨place, index, slots⟩ := s
    obtain rfl : index = k := heq
    obtain ⟨n, hn⟩ := hrun
    exact hhere i place slots hn.index_le ⟨n, hn⟩ hs
  · exact hbefore i s hrun hs hlt

/-- If no thread has found a match, all of them go on. -/
theorem Frontier.of_no_match {waiting : List Thread} {found : Option Slots}
    (h : Frontier p cs k k waiting found) (hnone : ∀ t ∈ waiting, p.accepts t = false) :
    Frontier p cs k (k + 1) waiting found where
  begun := h.begun
  sorted := h.sorted
  found_accepted := h.found_accepted
  bounded := h.bounded
  covered := h.covered
  passed := passed_succ h.passed fun i place slots hi hrun hplace => by
    refine (h.covered i place slots hi hrun (.inr hplace)).resolve_left ?_
    rintro ⟨t, ht, rfl, -⟩
    exact Bool.false_ne_true ((hnone t ht).symm.trans (accepts_iff.2 hplace))

/-- The first match is the best one so far, and the threads behind it are given up: they begin no earlier, and
neither does the match that was found before. -/
theorem Frontier.of_match {before after : List Thread} {found : Option Slots} (hp : p.NotesEntry)
    (h : Frontier p cs k k (before ++ t :: after) found) (ht : p.accepts t = true)
    (hbefore : ∀ u ∈ before, p.accepts u = false) : Frontier p cs k (k + 1) before (some t.slots) := by
  obtain ⟨hsorted, hafter, hcross⟩ := List.pairwise_append.1 h.sorted
  have hmem : t ∈ before ++ t :: after := List.mem_append_right _ List.mem_cons_self
  obtain ⟨hle, hrun⟩ := (h.begun t hmem).begun hp
  have hfound : ∀ i, FoundBy found i → startOf t.slots ≤ i := fun i ⟨slots, hslots, hi⟩ =>
    Nat.le_trans (h.bounded slots hslots t hmem) hi
  have hcovered : ∀ i place slots, i ≤ k → Begun p cs i ⟨place, k, slots⟩ → p.Waits place →
      Covers before place i ∨ startOf t.slots ≤ i := by
    intro i place slots hi hrun hplace
    rcases h.covered i place slots hi hrun hplace with ⟨u, hu, hu', hstart⟩ | hold
    · rcases List.mem_append.1 hu with hu | hu
      · exact .inl ⟨u, hu, hu', hstart⟩
      · rcases List.mem_cons.1 hu with rfl | hu
        · exact .inr hstart
        · exact .inr (Nat.le_trans ((List.pairwise_cons.1 hafter).1 u hu) hstart)
    · exact .inr (hfound i hold)
  constructor
  case begun => exact fun u hu => h.begun u (List.mem_append_left _ hu)
  case sorted => exact hsorted
  case found_accepted =>
    rintro _ ⟨⟩
    exact ⟨hle, ⟨t.place, k, t.slots⟩, hrun, accepts_iff.1 ht, rfl⟩
  case bounded =>
    rintro _ ⟨⟩ u hu
    exact hcross u hu t List.mem_cons_self
  case covered =>
    intro i place slots hi hrun hplace
    exact (hcovered i place slots hi hrun hplace).imp_right fun hle => ⟨t.slots, rfl, hle⟩
  case passed =>
    refine passed_succ (fun i s hrun hs hlt => ⟨t.slots, rfl, hfound i (h.passed i s hrun hs hlt)⟩) ?_
    intro i place slots hi hrun hplace
    refine ⟨t.slots, rfl, (hcovered i place slots hi hrun (.inr hplace)).resolve_left ?_⟩
    rintro ⟨u, hu, rfl, -⟩
    exact Bool.false_ne_true ((hbefore u hu).symm.trans (accepts_iff.2 hplace))

/-- The first match among the threads is taken. -/
theorem Frontier.untilMatch {waiting : List Thread} {found : Option Slots} (hp : p.NotesEntry)
    (h : Frontier p cs k k waiting found) :
    Frontier p cs k (k + 1) (p.untilMatch waiting).1 ((p.untilMatch waiting).2.or found) := by
  rw [Program.untilMatch]
  cases hfind : waiting.find? p.accepts with
  | none =>
    have hnone : ∀ t ∈ waiting, p.accepts t = false := fun t ht =>
      Bool.eq_false_iff.2 (List.find?_eq_none.1 hfind t ht)
    have hall : waiting.takeWhile (!p.accepts ·) = waiting :=
      List.takeWhile_eq_self_iff.2 fun t ht => by rw [hnone t ht]; rfl
    rw [hall, Option.map_none, Option.none_or]
    exact h.of_no_match hnone
  | some t =>
    obtain ⟨ht, before, after, rfl, hbefore⟩ := List.find?_eq_some_iff_append.1 hfind
    have hpreferred : (before ++ t :: after).takeWhile (!p.accepts ·) = before := by
      rw [List.takeWhile_append_of_pos hbefore, List.takeWhile_cons_of_neg (by simp [ht]),
        List.append_nil]
    rw [hpreferred, Option.map_some, Option.some_or]
    exact h.of_match hp ht fun u hu => by simpa using hbefore u hu

/-- The threads behind a character begin no later than the best match, and for every run that began before
there is one of them or that match. -/
theorem Frontier.behind {waiting : List Thread} {found : Option Slots} {c : Char} (hp : p.NotesEntry)
    (hc : cs[k]? = some c) (h : Frontier p cs k (k + 1) waiting found) :
    ∃ bound, bound ≤ k + 1 ∧
      Entered p cs (k + 1) bound (p.advance (positionOf cs (k + 1)) c waiting) ∧
      (∀ slots ∈ found, bound ≤ startOf slots) ∧
      ∀ i place slots, i ≤ k → Begun p cs i ⟨place, k + 1, slots⟩ → p.Waits place →
        Covers (p.advance (positionOf cs (k + 1)) c waiting).waiting.toList place i ∨ FoundBy found i := by
  obtain ⟨bound, hentered, -, hbound, hcovers⟩ :=
    entered_foldl hp hc (entered_noThreads p cs (k + 1)) h.begun h.sorted fun _ _ => Nat.zero_le _
  refine ⟨bound, ?_, hentered, fun slots hslots => ?_, ?_⟩
  · rcases hbound with rfl | ⟨t, ht, rfl⟩
    · exact Nat.zero_le _
    · exact Nat.le_succ_of_le ((h.begun t ht).begun hp).1
  · rcases hbound with rfl | ⟨t, ht, rfl⟩
    · exact Nat.zero_le _
    · exact h.bounded slots hslots t ht
  · rintro i place slots hi ⟨n, hn⟩ hplace
    obtain ⟨m, q, notes, set, next, d, m', hsteps, hq, hd, hset, hrest⟩ :=
      hn.exists_crossing hi (Nat.lt_succ_self k)
    obtain rfl := Option.some.inj (hc.symm.trans hd)
    refine (h.covered i q notes hi ⟨m, hsteps⟩ (.inl ⟨set, next, hq⟩)).imp_left ?_
    rintro ⟨t, ht, rfl, hle⟩
    exact (hcovers t ht next ⟨set, hq, hset⟩ place m' notes slots hrest hplace).mono hle

/-- A character is read, and a run begins behind it if there is no match yet. -/
theorem Frontier.advance {waiting : List Thread} {found : Option Slots} {c : Char} (hp : p.NotesEntry)
    (hc : cs[k]? = some c) (h : Frontier p cs k (k + 1) waiting found) :
    Frontier p cs (k + 1) (k + 1)
      (if found.isNone then
        p.enter (positionOf cs (k + 1)) p.entry [] (p.advance (positionOf cs (k + 1)) c waiting)
      else p.advance (positionOf cs (k + 1)) c waiting).waiting.toList found := by
  obtain ⟨bound, hle, hentered, hbound, hold⟩ := h.behind hp hc
  cases found with
  | some best =>
    rw [Option.isNone_some, if_neg Bool.false_ne_true]
    obtain ⟨hk, haccepted⟩ := h.found_accepted best rfl
    constructor
    case begun => exact hentered.begun
    case sorted => exact hentered.sorted
    case found_accepted =>
      rintro _ ⟨⟩
      exact ⟨Nat.le_succ_of_le hk, haccepted⟩
    case bounded => exact fun slots hslots t ht => Nat.le_trans (hentered.upper t ht) (hbound slots hslots)
    case covered =>
      intro i place slots hi hrun hplace
      rcases Nat.eq_or_lt_of_le hi with rfl | hlt
      · exact .inr ⟨best, rfl, Nat.le_succ_of_le hk⟩
      · exact hold i place slots (Nat.le_of_lt_succ hlt) hrun hplace
    case passed => exact h.passed
  | none =>
    rw [Option.isNone_none, if_pos rfl]
    obtain ⟨hentered', hbegins, hcovers⟩ :=
      hentered.enter hp hle (Nat.le_refl _) (begun_entry p cs (k + 1))
    constructor
    case begun => exact hentered'.begun
    case sorted => exact hentered'.sorted
    case found_accepted => exact nofun
    case bounded => exact nofun
    case covered =>
      intro i place slots hi hrun hplace
      rcases Nat.eq_or_lt_of_le hi with rfl | hlt
      · obtain ⟨n, hn⟩ := hrun
        exact .inl (hcovers place n [] slots hn hplace)
      · exact (hold i place slots (Nat.le_of_lt_succ hlt) hrun hplace).imp_left fun hcovered =>
          hcovered.of_longer hbegins
    case passed => exact h.passed

/-- The run begins with a thread for each place that waits at the beginning of the text. -/
theorem frontier_zero (hp : p.NotesEntry) (cs : List Char) :
    Frontier p cs 0 0 (p.enter (positionOf cs 0) p.entry [] p.noThreads).waiting.toList none := by
  obtain ⟨hentered, -, hcovers⟩ :=
    (entered_noThreads p cs 0).enter hp (Nat.le_refl 0) (Nat.le_refl 0) (begun_entry p cs 0)
  constructor
  case begun => exact hentered.begun
  case sorted => exact hentered.sorted
  case found_accepted => exact nofun
  case bounded => exact nofun
  case covered =>
    intro i place slots hi hrun hplace
    obtain rfl := Nat.le_zero.1 hi
    obtain ⟨n, hn⟩ := hrun
    exact .inl (hcovers place n [] slots hn hplace)
  case passed => exact fun _ _ _ _ hlt => absurd hlt (Nat.not_lt_zero _)

/-- What the search finds is accepted, and no run that is accepted begins before it. -/
theorem run_spec {waiting : List Thread} {found : Option Slots} {rest : List Char} (hp : p.NotesEntry)
    (hrest : cs.drop k = rest) (hk : k ≤ cs.length) (h : Frontier p cs k k waiting found) :
    (∀ slots ∈ p.run k waiting found rest,
      startOf slots ≤ cs.length ∧ Accepted p cs (startOf slots) slots) ∧
      ∀ i slots, i ≤ cs.length → Accepted p cs i slots → FoundBy (p.run k waiting found rest) i := by
  induction rest generalizing k waiting found with
  | nil =>
    obtain rfl : k = cs.length := Nat.le_antisymm hk (List.drop_eq_nil_iff.1 hrest)
    have hdone := h.untilMatch hp
    rw [run]
    refine ⟨hdone.found_accepted, ?_⟩
    rintro i slots hi ⟨s, hrun, hs, -⟩
    refine hdone.passed i s hrun hs ?_
    obtain ⟨n, hn⟩ := hrun
    exact Nat.lt_succ_of_le (hn.index_le_length hi)
  | cons c rest ih =>
    have hlt : k < cs.length := by
      by_contra hge
      rw [List.drop_eq_nil_of_le (Nat.le_of_not_lt hge)] at hrest
      cases hrest
    have hc : cs[k]? = some c := by
      rw [← List.head?_drop, hrest]
      rfl
    have hrest' : cs.drop (k + 1) = rest := by
      rw [← List.drop_drop, hrest]
      rfl
    have hposition : (⟨k + 1, false, rest.isEmpty⟩ : Position) = positionOf cs (k + 1) := by
      have hempty : rest.isEmpty = (k + 1 == cs.length) := by
        rw [Bool.eq_iff_iff, List.isEmpty_iff, beq_iff_eq, ← hrest', List.drop_eq_nil_iff]
        omega
      rw [positionOf, hempty]
      rfl
    have hnext := (h.untilMatch hp).advance hp hc
    rw [← hposition] at hnext
    exact ih hrest' hlt hnext

theorem notesEntry_ofPattern (q : Pattern) : (ofPattern q).NotesEntry :=
  ⟨0, _, Array.getElem?_push_size⟩

/-- **The search finds a match that begins first**: what it finds is a match of the pattern with its notes,
no match begins before it, and it finds something if there is a match at all. -/
theorem search?_spec {q : Pattern} (hq : q.WellFormed) (cs : List Char) :
    (∀ slots ∈ (ofPattern q).search? cs, ∃ i j notes, i ≤ cs.length ∧ q.Matches cs i j notes ∧
      slots = (1, j) :: (notes ++ [(0, i)]) ∧
      ∀ i' j' notes', i' ≤ cs.length → q.Matches cs i' j' notes' → i ≤ i') ∧
      (((ofPattern q).search? cs).isSome ↔ ∃ i j notes, i ≤ cs.length ∧ q.Matches cs i j notes) := by
  have hposition : (⟨0, true, cs.isEmpty⟩ : Position) = positionOf cs 0 := by
    cases cs with
    | nil => rfl
    | cons => rfl
  have hstart := frontier_zero (notesEntry_ofPattern q) cs
  rw [← hposition] at hstart
  obtain ⟨hsound, hfirst⟩ := run_spec (notesEntry_ofPattern q) rfl (Nat.zero_le _) hstart
  have hbest : ∀ {i j notes}, i ≤ cs.length → q.Matches cs i j notes →
      FoundBy ((ofPattern q).search? cs) i := fun hi h =>
    hfirst _ _ hi ((accepted_iff hq).2 ⟨_, _, h, rfl⟩)
  refine ⟨fun slots hslots => ?_, ⟨fun hsome => ?_, ?_⟩⟩
  · obtain ⟨hi, hrun⟩ := hsound slots hslots
    obtain ⟨j, notes, h, heq⟩ := (accepted_iff hq).1 hrun
    refine ⟨startOf slots, j, notes, hi, h, heq, fun i' j' notes' hi' h' => ?_⟩
    obtain ⟨best, hmem, hle⟩ := hbest hi' h'
    obtain rfl := Option.mem_unique hslots hmem
    exact hle
  · obtain ⟨slots, hslots⟩ := Option.isSome_iff_exists.1 hsome
    obtain ⟨hi, hrun⟩ := hsound slots hslots
    obtain ⟨j, notes, h, -⟩ := (accepted_iff hq).1 hrun
    exact ⟨startOf slots, j, notes, hi, h⟩
  · rintro ⟨i, j, notes, hi, h⟩
    obtain ⟨best, hmem, -⟩ := hbest hi h
    exact Option.isSome_iff_exists.2 ⟨best, hmem⟩

end Program

end Invocation

/-
  How the patterns look that are read.

  The simple form of a pattern has no groups but those of its parts, and the
  reader numbers groups from one on, the inner ones after the outer ones.

  * `Pattern.Plain`: the nodes that simple forms may add;
    `within_sequence`, `within_oneOfFrom`, `within_repeated`: they add no
    others;
  * `Pattern.Numbered`: the groups within a pattern have numbers between two
    bounds, and smaller ones than the groups inside them;
    `readersNumber`: so have those of the patterns that are read;
  * `Pattern.wellFormed_of_parse`: what is read is well formed.
-/
import Invocation.Pattern.Parser
import Invocation.Proofs.Pattern.Matches

namespace Invocation.Pattern

variable {p q : Pattern} {ps : List Pattern}

/-! ## Simple forms -/

theorem mem_withinAll : q ∈ withinAll ps ↔ ∃ p ∈ ps, q ∈ p.within := by
  induction ps with
  | nil => simp [withinAll]
  | cons p ps ih => simp [withinAll, ih]

/-- The nodes that simple forms may add: no groups, and no choices or repetitions but those that make
sense. -/
def Plain : Pattern → Prop
  | alt ps => ps ≠ []
  | repeat_ _ least most _ => ∀ m ∈ most, least ≤ m
  | group _ _ => False
  | _ => True

theorem mem_withinAll_of_items (h : q ∈ withinAll p.items) : q ∈ p.within := by
  cases p with
  | empty => exact absurd h List.not_mem_nil
  | cat ps => exact List.mem_cons_of_mem _ h
  | text | chars | start | stop | alt | repeat_ | group =>
    change q ∈ within _ ++ [] at h
    rwa [List.append_nil] at h

theorem mem_withinAll_of_branches (h : q ∈ withinAll p.branches) : q ∈ p.within := by
  cases p with
  | alt ps => exact List.mem_cons_of_mem _ h
  | empty | text | chars | start | stop | cat | repeat_ | group =>
    change q ∈ within _ ++ [] at h
    rwa [List.append_nil] at h

theorem withinAll_flatMap {f : Pattern → List Pattern}
    (hf : ∀ {p q : Pattern}, q ∈ withinAll (f p) → q ∈ p.within) (h : q ∈ withinAll (ps.flatMap f)) :
    q ∈ withinAll ps := by
  obtain ⟨r, hr, hq⟩ := mem_withinAll.1 h
  obtain ⟨p, hp, hr⟩ := List.mem_flatMap.1 hr
  exact mem_withinAll.2 ⟨p, hp, hf (mem_withinAll.2 ⟨r, hr, hq⟩)⟩

theorem within_joinTexts (h : q ∈ withinAll (joinTexts ps)) : Plain q ∨ q ∈ withinAll ps := by
  induction ps with
  | nil => exact absurd h List.not_mem_nil
  | cons p ps ih =>
    unfold joinTexts at h
    split at h
    · next cs ds rest hrest =>
      rcases List.mem_append.1 h with h | h
      · cases List.mem_singleton.1 h
        exact .inl trivial
      · exact (ih (hrest ▸ List.mem_append_right _ h)).imp_right (List.mem_append_right _)
    · rcases List.mem_append.1 h with h | h
      · exact .inr (List.mem_append_left _ h)
      · exact (ih h).imp_right (List.mem_append_right _)

/-- Parts side by side have no nodes but those of the parts and plain ones. -/
theorem within_sequence (h : q ∈ (sequence ps).within) : Plain q ∨ q ∈ withinAll ps := by
  have hjoined : q ∈ withinAll (joinTexts (ps.flatMap items)) → Plain q ∨ q ∈ withinAll ps := fun h =>
    (within_joinTexts h).imp_right (withinAll_flatMap mem_withinAll_of_items)
  rw [sequence] at h
  split at h
  · cases List.mem_singleton.1 h
    exact .inl trivial
  · next p hp =>
    refine hjoined ?_
    rw [hp]
    exact List.mem_append_left _ h
  · rcases List.mem_cons.1 h with rfl | h
    · exact .inl trivial
    · exact hjoined h

theorem plain_of_within_ofSet {set : CharSet} (h : q ∈ (ofSet set).within) : Plain q := by
  rw [ofSet] at h
  split at h
  · cases List.mem_singleton.1 h
    trivial
  · cases List.mem_singleton.1 h
    trivial

theorem mem_within_of_parts? {parts : List (List Pattern)} (hparts : ps.mapM parts? = some parts)
    {part : List Pattern} (hpart : part ∈ parts) (h : q ∈ withinAll part) : q ∈ withinAll ps := by
  induction ps generalizing parts with
  | nil =>
    cases hparts
    exact absurd hpart List.not_mem_nil
  | cons p ps ih =>
    simp only [List.mapM_cons, Option.bind_eq_bind, Option.bind_eq_some_iff, Option.pure_def,
      Option.some.injEq] at hparts
    obtain ⟨first, hfirst, rest, hrest, rfl⟩ := hparts
    rw [withinAll, List.mem_append]
    rcases List.mem_cons.1 hpart with rfl | hpart
    · cases p with
      | cat items =>
        cases hfirst
        exact .inl (List.mem_cons_of_mem _ h)
      | empty | text | chars | start | stop | alt | repeat_ | group => cases hfirst
    · exact .inr (ih hrest hpart)

/-- What alternatives begin with, in front of the rest of each, has no nodes but theirs and plain ones. -/
theorem within_factored {parts : List (List Pattern)} {first : List Pattern} {rest : Pattern} {n : Nat}
    (hfirst : first ∈ parts) (hparts : ∀ part ∈ parts, q ∈ withinAll part → q ∈ withinAll ps)
    (hrest : q ∈ rest.within → Plain q ∨ q ∈ withinAll (parts.map fun part => sequence (part.drop n)))
    (h : q ∈ (sequence (first.take n ++ [rest])).within) : Plain q ∨ q ∈ withinAll ps := by
  rcases within_sequence h with hplain | h
  · exact .inl hplain
  obtain ⟨p, hp, hq⟩ := mem_withinAll.1 h
  rcases List.mem_append.1 hp with hp | hp
  · exact .inr (hparts first hfirst (mem_withinAll.2 ⟨p, List.mem_of_mem_take hp, hq⟩))
  · cases List.mem_singleton.1 hp
    rcases hrest hq with hplain | hq
    · exact .inl hplain
    obtain ⟨p, hp, hq⟩ := mem_withinAll.1 hq
    obtain ⟨part, hmem, rfl⟩ := List.mem_map.1 hp
    refine (within_sequence hq).imp_right fun hq => hparts part hmem ?_
    obtain ⟨r, hr, hq⟩ := mem_withinAll.1 hq
    exact mem_withinAll.2 ⟨r, List.mem_of_mem_drop hr, hq⟩

/-- Alternatives have no nodes but those of the branches and plain ones. -/
theorem within_oneOfFrom {fuel : Nat} (hne : fuel = 0 → ps ≠ []) (h : q ∈ (oneOfFrom fuel ps).within) :
    Plain q ∨ q ∈ withinAll ps := by
  induction fuel generalizing ps with
  | zero =>
    rcases List.mem_cons.1 h with rfl | h
    · exact .inl (hne rfl)
    · exact .inr h
  | succ fuel ih =>
    have hbranches : q ∈ withinAll (ps.flatMap branches) → q ∈ withinAll ps :=
      withinAll_flatMap mem_withinAll_of_branches
    have halt : ps.flatMap branches ≠ [] → q ∈ (alt (ps.flatMap branches)).within →
        Plain q ∨ q ∈ withinAll ps := by
      intro hne h
      rcases List.mem_cons.1 h with rfl | h
      · exact .inl hne
      · exact .inr (hbranches h)
    rw [oneOfFrom] at h
    split at h
    · cases List.mem_singleton.1 h
      exact .inl trivial
    · next p hp =>
      refine .inr (hbranches ?_)
      rw [hp]
      exact List.mem_append_left _ h
    next hne _ =>
    split at h
    · exact .inl (plain_of_within_ofSet h)
    · exact halt hne h
    next parts _ hparts =>
    split at h
    · next n first others _ =>
      refine within_factored List.mem_cons_self (fun part hpart hq =>
        hbranches (mem_within_of_parts? hparts hpart hq)) ?_ h
      exact ih fun _ => by simp
    · exact halt hne h

theorem within_repeated {greedy : Bool} {least : Nat} {most : Option Nat}
    (hbounds : ∀ m ∈ most, least ≤ m) (h : q ∈ (repeated greedy least most p).within) :
    Plain q ∨ q ∈ p.within := by
  rw [repeated] at h
  split at h
  · cases List.mem_singleton.1 h
    exact .inl trivial
  · exact .inr h
  · rcases List.mem_cons.1 h with rfl | h
    · refine .inl fun m hm => ?_
      by_cases hvoid : p.isVoid = true
      · simp only [hvoid, if_true] at hm ⊢
        cases most with
        | none => cases hm; exact Nat.min_le_right _ _
        | some most =>
          cases hm
          have hle := hbounds most rfl
          simp only [Option.map_some, Option.getD_some]
          omega
      · simp only [hvoid] at hm ⊢
        exact hbounds m hm
    · exact .inr h

/-! ## Numbers of groups -/

/-- A node has branches if it is a choice and bounds in order if it is a repetition, and if it is a group a
number between two bounds that is smaller than those of the groups inside it. -/
def NumberedNode (lo hi : Nat) : Pattern → Prop
  | alt ps => ps ≠ []
  | repeat_ _ least most _ => ∀ m ∈ most, least ≤ m
  | group number item => lo < number ∧ number ≤ hi ∧
    ∀ inner body, group inner body ∈ item.within → number < inner
  | _ => True

/-- All nodes within a pattern are such. -/
def Numbered (lo hi : Nat) (p : Pattern) : Prop := ∀ q ∈ p.within, NumberedNode lo hi q

variable {lo hi lo' hi' : Nat}

theorem Plain.numberedNode (h : Plain q) : NumberedNode lo hi q := by
  cases q with
  | group => exact absurd h id
  | alt | repeat_ => exact h
  | empty | text | chars | start | stop | cat => trivial

theorem NumberedNode.feasible (h : NumberedNode lo hi q) : q.Feasible := by
  cases q with
  | alt | repeat_ => exact h
  | empty | text | chars | start | stop | cat | group => trivial

theorem Numbered.mono (h : Numbered lo hi p) (hlo : lo' ≤ lo) (hhi : hi ≤ hi') : Numbered lo' hi' p := by
  intro q hq
  have hnode := h q hq
  cases q with
  | group number item =>
    exact ⟨Nat.lt_of_le_of_lt hlo hnode.1, Nat.le_trans hnode.2.1 hhi, hnode.2.2⟩
  | alt | repeat_ => exact hnode
  | empty | text | chars | start | stop | cat => trivial

/-- A simple form that adds plain nodes only keeps the numbers of groups. -/
theorem Numbered.of_plain (hps : ∀ r ∈ ps, Numbered lo hi r)
    (h : ∀ q ∈ p.within, Plain q ∨ q ∈ withinAll ps) : Numbered lo hi p := by
  intro q hq
  rcases h q hq with hplain | hq
  · exact hplain.numberedNode
  · obtain ⟨r, hr, hq⟩ := mem_withinAll.1 hq
    exact hps r hr q hq

theorem numbered_of_plain (h : ∀ q ∈ p.within, Plain q) : Numbered lo hi p :=
  fun q hq => (h q hq).numberedNode

/-- A group gets the next number, and the groups inside it get later ones. -/
theorem Numbered.group {number : Nat} (hitem : Numbered number hi p) (hlo : lo < number)
    (hhi : number ≤ hi) : Numbered lo hi (group number p) := by
  intro q hq
  rcases List.mem_cons.1 hq with rfl | hq
  · exact ⟨hlo, hhi, fun inner body hmem => (hitem _ hmem).1⟩
  · exact hitem.mono (Nat.le_of_lt hlo) (Nat.le_refl hi) q hq

namespace Term

variable {ts : List Term}

theorem patterns_eq_map (ts : List Term) : patterns ts = ts.map pattern := by
  induction ts with
  | nil => rfl
  | cons t ts ih => rw [patterns, ih, List.map_cons]

theorem numbered_patterns (h : ∀ t ∈ ts, Numbered lo hi t.pattern) :
    ∀ p ∈ patterns ts, Numbered lo hi p := by
  rw [patterns_eq_map]
  exact List.forall_mem_map.2 h

theorem numbered_side (h : ∀ t ∈ ts, Numbered lo hi t.pattern) : Numbered lo hi (side ts).pattern := by
  unfold side
  split
  · exact numbered_of_plain fun q hq => by cases List.mem_singleton.1 hq; trivial
  · exact h _ List.mem_cons_self
  · exact .of_plain (numbered_patterns h) fun q => within_sequence

theorem numbered_either (h : ∀ t ∈ ts, Numbered lo hi t.pattern) : Numbered lo hi (either ts).pattern := by
  unfold either
  split
  · exact h _ List.mem_cons_self
  · exact .of_plain (numbered_patterns h) fun q => within_oneOfFrom nofun

end Term

/-! ## Reading -/

theorem Term.numbered_of_leaf {t : Term} (h : (∃ c, t = .char c) ∨ (∃ set levels, t = .chars set levels) ∨
    t = .start ∨ t = .stop) : Numbered lo hi t.pattern := by
  refine numbered_of_plain fun q hq => ?_
  rcases h with ⟨c, rfl⟩ | ⟨set, levels, rfl⟩ | rfl | rfl
  · cases List.mem_singleton.1 hq
    trivial
  · exact plain_of_within_ofSet hq
  · cases List.mem_singleton.1 hq
    trivial
  · cases List.mem_singleton.1 hq
    trivial

/-- The bounds of an operator are in order. -/
theorem le_of_operator? {cs rest : List Char} {least : Nat} {most : Option Nat}
    (h : operator? cs = some (some (least, most, rest))) : ∀ m ∈ most, least ≤ m := by
  unfold operator? at h
  split at h
  · cases h; exact nofun
  · cases h; exact nofun
  · cases h; rintro _ ⟨⟩; exact Nat.zero_le 1
  · next text =>
    have h := Option.some.inj h
    simp only [bounds?, Option.bind_eq_bind, Option.bind_eq_some_iff] at h
    obtain ⟨⟨n, after⟩, -, h⟩ := h
    split at h
    · cases h; rintro _ ⟨⟩; exact Nat.le_refl _
    · cases h; exact nofun
    · simp only [Option.bind_eq_some_iff] at h
      obtain ⟨⟨m, left⟩, -, h⟩ := h
      split at h
      · split at h
        · next hle =>
          cases h
          rintro _ ⟨⟩
          exact hle
        · cases h
      · cases h
    · cases h
  · cases h

theorem numbered_of_repetitions? {fuel : Nat} {item t : Term} {cs rest : List Char}
    (h : repetitions? fuel item cs = some (t, rest)) (hitem : Numbered lo hi item.pattern) :
    Numbered lo hi t.pattern := by
  induction fuel generalizing item cs with
  | zero => cases h
  | succ fuel ih =>
    rw [repetitions?] at h
    split at h
    · cases h
      exact hitem
    · cases h
    · next least most rest hoperator =>
      have hrepeated : ∀ greedy, Numbered lo hi (Term.repeat_ greedy least most item).pattern := by
        intro greedy q hq
        rcases within_repeated (le_of_operator? hoperator) hq with hplain | hq
        · exact hplain.numberedNode
        · exact hitem q hq
      split at h
      · exact ih h (hrepeated false)
      · exact ih h (hrepeated true)

theorem number?_cases {kind : GroupKind} {groups groups' : Groups} {number : Option Nat}
    (h : kind.number? groups = some (number, groups')) :
    number = none ∧ groups' = groups ∨
      number = some (groups.length + 1) ∧ groups'.length = groups.length + 1 := by
  unfold GroupKind.number? at h
  split at h
  · cases h; exact .inl ⟨rfl, rfl⟩
  · cases h; exact .inr ⟨rfl, rfl⟩
  · split at h
    · cases h
    · cases h; exact .inr ⟨rfl, rfl⟩

/-- What is read after some groups is numbered from a bound on, and by at most as many groups as there are
then. -/
def ReadsNumbered (lo : Nat) (groups : Groups) (read : Option (Term × Groups × List Char)) : Prop :=
  ∀ t groups' rest, read = some (t, groups', rest) →
    groups.length ≤ groups'.length ∧ Numbered lo groups'.length t.pattern

/-- The readers of alternatives, of items side by side and of single items, each with less fuel than the one
that calls it. What stands in front is numbered already. -/
structure ReadersNumber (fuel : Nat) : Prop where
  alternatives : ∀ {lo room groups done cs}, lo ≤ groups.length →
    (∀ t ∈ done, Numbered lo groups.length t.pattern) →
    ReadsNumbered lo groups (alternatives? fuel room groups done cs)
  sequence : ∀ {lo room groups done cs}, lo ≤ groups.length →
    (∀ t ∈ done, Numbered lo groups.length t.pattern) →
    ReadsNumbered lo groups (sequence? fuel room groups done cs)
  item : ∀ {lo room groups cs}, lo ≤ groups.length → ReadsNumbered lo groups (item? fuel room groups cs)

section Readers

variable {fuel room : Nat} {groups : Groups} {done : List Term} {cs : List Char}

theorem ReadersNumber.alternatives_succ (h : ReadersNumber fuel) (hlo : lo ≤ groups.length)
    (hdone : ∀ t ∈ done, Numbered lo groups.length t.pattern) :
    ReadsNumbered lo groups (alternatives? (fuel + 1) room groups done cs) := by
  intro t groups' rest hread
  have hmore : ∀ {term groups₁ rest₁}, sequence? fuel room groups [] cs = some (term, groups₁, rest₁) →
      groups.length ≤ groups₁.length ∧ ∀ t ∈ term :: done, Numbered lo groups₁.length t.pattern := by
    intro term groups₁ rest₁ hsequence
    obtain ⟨hle, hterm⟩ := h.sequence hlo (List.forall_mem_nil _) _ _ _ hsequence
    exact ⟨hle, List.forall_mem_cons.2 ⟨hterm, fun t ht => (hdone t ht).mono (Nat.le_refl lo) hle⟩⟩
  unfold alternatives? at hread
  split at hread
  · next term groups₁ rest₁ hsequence =>
    obtain ⟨hle, hall⟩ := hmore hsequence
    obtain ⟨hle', ht⟩ := h.alternatives (Nat.le_trans hlo hle) hall _ _ _ hread
    exact ⟨Nat.le_trans hle hle', ht⟩
  · next term groups₁ rest₁ hsequence =>
    cases hread
    obtain ⟨hle, hall⟩ := hmore hsequence
    exact ⟨hle, Term.numbered_either fun t ht => hall t (List.mem_reverse.1 ht)⟩
  · cases hread

theorem ReadersNumber.sequence_succ (h : ReadersNumber fuel) (hlo : lo ≤ groups.length)
    (hdone : ∀ t ∈ done, Numbered lo groups.length t.pattern) :
    ReadsNumbered lo groups (sequence? (fuel + 1) room groups done cs) := by
  intro t groups' rest hread
  have hend : Numbered lo groups.length (Term.side done.reverse).pattern :=
    Term.numbered_side fun t ht => hdone t (List.mem_reverse.1 ht)
  unfold sequence? at hread
  split at hread
  · cases hread; exact ⟨Nat.le_refl _, hend⟩
  · cases hread; exact ⟨Nat.le_refl _, hend⟩
  · cases hread; exact ⟨Nat.le_refl _, hend⟩
  split at hread
  · cases hread
  next item groups₁ rest₁ hitem =>
  split at hread
  · cases hread
  next item' rest₂ hrepetitions =>
  obtain ⟨hle, hnumbered⟩ := h.item hlo _ _ _ hitem
  have hitem' := numbered_of_repetitions? hrepetitions hnumbered
  obtain ⟨hle', ht⟩ := h.sequence (Nat.le_trans hlo hle)
    (List.forall_mem_cons.2 ⟨hitem', fun t ht => (hdone t ht).mono (Nat.le_refl lo) hle⟩) _ _ _ hread
  exact ⟨Nat.le_trans hle hle', ht⟩

theorem ReadersNumber.item_succ (h : ReadersNumber fuel) (hlo : lo ≤ groups.length) :
    ReadsNumbered lo groups (item? (fuel + 1) room groups cs) := by
  intro t groups' rest hread
  have hleaf : ∀ {leaf rest₁}, some (leaf, groups, rest₁) = some (t, groups', rest) →
      ((∃ c, leaf = .char c) ∨ (∃ set levels, leaf = .chars set levels) ∨ leaf = .start ∨ leaf = .stop) →
      groups.length ≤ groups'.length ∧ Numbered lo groups'.length t.pattern := by
    rintro _ _ ⟨⟩ hcases
    exact ⟨Nat.le_refl _, Term.numbered_of_leaf hcases⟩
  unfold item? at hread
  split at hread
  · cases hread
  · exact hleaf hread (.inr (.inr (.inl rfl)))
  · exact hleaf hread (.inr (.inr (.inr rfl)))
  · exact hleaf hread (.inr (.inl ⟨_, _, rfl⟩))
  · exact hleaf hread (.inr (.inr (.inl rfl)))
  · exact hleaf hread (.inr (.inr (.inr rfl)))
  · split at hread
    · exact hleaf hread (.inr (.inl ⟨_, _, rfl⟩))
    · exact hleaf hread (.inl ⟨_, rfl⟩)
    · cases hread
  · obtain ⟨⟨inner, left⟩, -, hread⟩ := Option.map_eq_some_iff.1 hread
    exact hleaf (congrArg some hread) (.inr (.inl ⟨_, _, rfl⟩))
  · split at hread
    · next kind body _ =>
      split at hread
      · next number groups₁ hnumber =>
        split at hread
        · next inner groups₂ rest₂ halternatives =>
          cases hread
          rcases number?_cases hnumber with ⟨rfl, rfl⟩ | ⟨rfl, hlength⟩
          · exact h.alternatives hlo (List.forall_mem_nil _) inner _ _ halternatives
          · obtain ⟨hle, hinner⟩ := h.alternatives (Nat.le_of_eq hlength.symm)
              (List.forall_mem_nil _) _ _ _ halternatives
            exact ⟨by omega, .group hinner (Nat.lt_succ_of_le hlo) (by omega)⟩
        · cases hread
      · cases hread
    · cases hread
  · split at hread
    · cases hread
    · exact hleaf hread (.inl ⟨_, rfl⟩)

theorem readersNumber (fuel : Nat) : ReadersNumber fuel := by
  induction fuel with
  | zero => exact ⟨fun _ _ => nofun, fun _ _ => nofun, fun _ => nofun⟩
  | succ fuel ih => exact ⟨ih.alternatives_succ, ih.sequence_succ, ih.item_succ⟩

end Readers

/-- **The patterns that are read are well formed.** -/
theorem wellFormed_of_parse {text : String} (h : parse text = some p) : p.WellFormed := by
  rw [parse] at h
  split at h
  · next t groups halternatives =>
    split at h
    · cases h
      have hread := (readersNumber _).alternatives (Nat.zero_le _)
        (List.forall_mem_nil _) _ _ _ halternatives
      constructor
      case nodes => exact fun q hmem => (hread.2 q hmem).feasible
      case groups =>
        intro number item hmem
        obtain ⟨hpos, -, hinside⟩ := hread.2 _ hmem
        exact ⟨hpos, fun inner hinner => absurd (hinside number inner hinner) (Nat.lt_irrefl number)⟩
    · cases h
  · cases h

end Invocation.Pattern

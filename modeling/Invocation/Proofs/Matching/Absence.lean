/-
  When an optional group is passed over.

  An optional group is tried on its own up to the first outcome. So it may be
  matched empty-handed, by a list without items or by an optional group in it
  that is passed over, before an alternative is tried in which a leaf binds.

  * `Search.CanBind`: on some alternative a leaf binds a value, whatever
    choices lead to it;
  * `Search.MatchedFirst`: the body of a group is matched before any leaf
    binds a value;
  * `absent_iff_not_matchedFirst`: at a state, the optional groups of a tree
    that are passed over are just those in which nothing can bind, unless one
    in which something can is matched first;
  * `absent_group_can_bind`: there is such a group.
-/
import Invocation.Proofs.Matching.Path
import Invocation.Signature.Compile
import Mathlib

namespace Invocation

open Invocation.Matching

/-! ## Moments of trails -/

namespace Trail

theorem mem_andThen {t : Trail} {k : Progress → Trail} {moment : Moment} :
    moment ∈ t.andThen k ↔
      (moment = .binding ∧ .binding ∈ t) ∨ ∃ p, .outcome p ∈ t ∧ moment ∈ k p := by
  rw [andThen, List.mem_flatMap]
  constructor
  · rintro ⟨_ | p, hfirst, hm⟩
    · exact Or.inl ⟨List.mem_singleton.1 hm, hfirst⟩
    · exact Or.inr ⟨p, hfirst, hm⟩
  · rintro (⟨rfl, hb⟩ | ⟨p, hp, hm⟩)
    · exact ⟨.binding, hb, List.mem_singleton.2 rfl⟩
    · exact ⟨.outcome p, hp, hm⟩

theorem mem_outcomes {t : Trail} {p : Progress} : p ∈ t.outcomes ↔ .outcome p ∈ t := by
  induction t with
  | nil => simp
  | cons moment t ih => cases moment <;> simp [ih]

theorem begins_iff {t : Trail} : t.begins = true ↔ ∃ u, t = .binding :: u := by
  cases t with
  | nil => simp [begins, untilOutcome]
  | cons moment t => cases moment <;> simp [begins_binding, begins_outcome]

theorem untilOutcome_subset (t : Trail) : ∀ moment ∈ t.untilOutcome, moment ∈ t :=
  fun _ h => (List.takeWhile_sublist _).mem h

end Trail

namespace Search

variable {s : Search}

/-! ## Bindings along a trail -/

theorem mem_sequence_cons {n : Node} {ns : List Node} {o : Bool} {p : Progress} {moment : Moment} :
    moment ∈ Walk.sequence ((n :: ns).map s.trail) p o ↔
      (moment = .binding ∧ .binding ∈ s.trail n p o) ∨
        ∃ q, .outcome q ∈ s.trail n p o ∧ moment ∈ Walk.sequence (ns.map s.trail) q o := by
  rw [List.map_cons, Walk.sequence, Trail.mem_andThen]

/-- The moments of a body, by the way in which its children are joined. -/
theorem mem_body {c : Combinator} {ns : List Node} {o : Bool} {p : Progress} {moment : Moment} :
    moment ∈ Walk.body c (s.trails ns) p o ↔
      match c with
      | .and => moment ∈ Walk.sequence (ns.map s.trail) p o
      | .or => ∃ chosen ∈ choices ns, moment ∈ Walk.sequence (chosen.map s.trail) p o
      | .xor => ∃ n ∈ ns, moment ∈ s.trail n p o := by
  rw [trails_eq_map]
  cases c with
  | and => rfl
  | or => simp only [Walk.body, choices_map, List.flatMap_map, List.mem_flatMap]
  | xor => simp only [Walk.body, List.flatMap_map, List.mem_flatMap]

/-- The moments of a group are those of its body, or the outcome of passing it over. -/
theorem mem_trail_group {c : Combinator} {required : Bool} {ns : List Node} {o : Bool} {p : Progress}
    {moment : Moment} (h : moment ∈ s.trail (.group c required ns) p o) :
    moment ∈ Walk.body c (s.trails ns) p (o || !required) ∨ moment = .outcome p := by
  rw [trail, Walk.group] at h
  cases required with
  | true => exact Or.inl (by simpa using h)
  | false =>
    simp only [Bool.false_eq_true, if_false, List.mem_append] at h
    rw [Bool.not_false, Bool.or_true]
    rcases h with h | h
    · exact Or.inl (Trail.untilOutcome_subset _ _ h)
    split at h
    · exact Or.inl h
    · exact Or.inr (List.mem_singleton.1 h)

/-- Without a binding the progress stays as it is. -/
theorem binding_or_eq_of_sequence {ns : List Node} {o : Bool} {p q : Progress}
    (ih : ∀ n ∈ ns, ∀ p q, .outcome q ∈ s.trail n p o → .binding ∈ s.trail n p o ∨ q = p)
    (h : .outcome q ∈ Walk.sequence (ns.map s.trail) p o) :
    .binding ∈ Walk.sequence (ns.map s.trail) p o ∨ q = p := by
  induction ns generalizing p with
  | nil => simpa [Walk.sequence] using h
  | cons n ns ihns =>
    simp only [mem_sequence_cons, reduceCtorEq, false_and, false_or, true_and] at h ⊢
    obtain ⟨r, hr, h⟩ := h
    rcases ih n List.mem_cons_self p r hr with hb | rfl
    · exact Or.inl (Or.inl hb)
    rcases ihns (fun m hm => ih m (List.mem_cons_of_mem n hm)) h with hb | rfl
    · exact Or.inl (Or.inr ⟨r, hr, hb⟩)
    · exact Or.inr rfl

theorem binding_or_eq_of_body {c : Combinator} {ns : List Node} {o : Bool} {p q : Progress}
    (ih : ∀ n ∈ ns, ∀ p q, .outcome q ∈ s.trail n p o → .binding ∈ s.trail n p o ∨ q = p)
    (h : .outcome q ∈ Walk.body c (s.trails ns) p o) :
    .binding ∈ Walk.body c (s.trails ns) p o ∨ q = p := by
  rw [mem_body] at h ⊢
  cases c with
  | and => exact binding_or_eq_of_sequence ih h
  | or =>
    obtain ⟨chosen, hc, h⟩ := h
    have hsub := (mem_choices.1 hc).1
    rcases binding_or_eq_of_sequence (fun n hn => ih n (hsub.mem hn)) h with hb | rfl
    · exact Or.inl ⟨chosen, hc, hb⟩
    · exact Or.inr rfl
  | xor =>
    obtain ⟨n, hn, h⟩ := h
    rcases ih n hn p q h with hb | rfl
    · exact Or.inl ⟨n, hn, hb⟩
    · exact Or.inr rfl

/-- A group whose trial begins binds a value on its trail. -/
theorem binding_mem_of_begins {c : Combinator} {ns : List Node} {o : Bool} {p : Progress}
    (h : s.begins c ns p = true) : .binding ∈ s.trail (.group c false ns) p o := by
  obtain ⟨t, ht⟩ := Trail.begins_iff.1 h
  simp only [trail, Walk.group, Bool.false_eq_true, if_false, ht]
  exact List.mem_append_left _ List.mem_cons_self

theorem binding_or_eq_of_trail {n : Node} {o : Bool} {p q : Progress}
    (h : .outcome q ∈ s.trail n p o) : .binding ∈ s.trail n p o ∨ q = p := by
  induction n using Node.treeInduction generalizing o p q with
  | leaf i =>
    simp only [trail, Walk.leaf] at h ⊢
    cases hleaf : s.leaf i p o with
    | none => simp [hleaf] at h
    | some result =>
      obtain ⟨r, _ | _⟩ := result
      · cases s.leafStep_of_leaf hleaf
        exact Or.inr (by simpa [hleaf] using h)
      · simp
  | group c required ns ih =>
    cases required with
    | true =>
      simp only [trail, Walk.group, if_true] at h ⊢
      exact binding_or_eq_of_body (fun n hn p q => ih n hn) h
    | false =>
      cases hb : s.begins c ns p with
      | true => exact Or.inl (binding_mem_of_begins hb)
      | false =>
        simp only [trail, Walk.group, Bool.false_eq_true, if_false, List.mem_append] at h
        rw [← begins, hb] at h
        rcases h with h | h
        · have hmem := Trail.mem_outcomes.2 h
          rw [Trail.outcomes_untilOutcome] at hmem
          exact absurd hmem List.not_mem_nil
        · exact Or.inr (by simpa using h)

/-! ## Leaves that can bind -/

variable (s) in
/-- On some alternative a leaf below the nodes, explored in order, binds a value: whatever choice is
made at an `or` or an `xor` group, also in an optional group that would be passed over. -/
inductive CanBind : List Node → Bool → Progress → Prop
  | leaf {i ns o p q} (h : s.leaf i p o = some (q, true)) : CanBind (.leaf i :: ns) o p
  | and {required ms ns o p} (h : CanBind ms (o || !required) p) :
      CanBind (.group .and required ms :: ns) o p
  | or {required chosen ms ns o p} (hc : chosen ∈ choices ms) (h : CanBind chosen (o || !required) p) :
      CanBind (.group .or required ms :: ns) o p
  | xor {required m ms ns o p} (hm : m ∈ ms) (h : CanBind [m] (o || !required) p) :
      CanBind (.group .xor required ms :: ns) o p
  /-- The first node is matched, and a leaf binds in the rest. -/
  | later {n ns o p q} (hq : q ∈ s.outcomes n p o) (h : CanBind ns o q) : CanBind (n :: ns) o p

theorem CanBind.append {ns : List Node} {o : Bool} {p : Progress} (h : s.CanBind ns o p)
    (ms : List Node) : s.CanBind (ns ++ ms) o p := by
  induction h with
  | leaf h => exact .leaf h
  | and h => exact .and h
  | or hc h => exact .or hc h
  | xor hm h => exact .xor hm h
  | later hq _ ih => exact .later hq ih

theorem canBind_of_mem_sequence {ns : List Node} {o : Bool} {p : Progress}
    (ih : ∀ n ∈ ns, ∀ p, .binding ∈ s.trail n p o → s.CanBind [n] o p)
    (h : .binding ∈ Walk.sequence (ns.map s.trail) p o) : s.CanBind ns o p := by
  induction ns generalizing p with
  | nil => simp [Walk.sequence] at h
  | cons n ns ihns =>
    rcases mem_sequence_cons.1 h with ⟨-, hb⟩ | ⟨q, hq, hb⟩
    · exact (ih n List.mem_cons_self p hb).append ns
    · refine .later ?_ (ihns (fun m hm => ih m (List.mem_cons_of_mem n hm)) hb)
      rw [← outcomes_trail]
      exact Trail.mem_outcomes.2 hq

theorem canBind_of_mem_body {c : Combinator} {required : Bool} {ns : List Node} {o : Bool}
    {p : Progress}
    (ih : ∀ n ∈ ns, ∀ p, .binding ∈ s.trail n p (o || !required) → s.CanBind [n] (o || !required) p)
    (h : .binding ∈ Walk.body c (s.trails ns) p (o || !required)) :
    s.CanBind [.group c required ns] o p := by
  rw [mem_body] at h
  cases c with
  | and => exact .and (canBind_of_mem_sequence ih h)
  | or =>
    obtain ⟨chosen, hc, h⟩ := h
    have hsub := (mem_choices.1 hc).1
    exact .or hc (canBind_of_mem_sequence (fun n hn => ih n (hsub.mem hn)) h)
  | xor =>
    obtain ⟨n, hn, h⟩ := h
    exact .xor hn (ih n hn p h)

/-- What binds on the trail of a node can bind. -/
theorem canBind_of_mem_trail {n : Node} {o : Bool} {p : Progress}
    (h : .binding ∈ s.trail n p o) : s.CanBind [n] o p := by
  induction n using Node.treeInduction generalizing o p with
  | leaf i =>
    simp only [trail, Walk.leaf] at h
    cases hleaf : s.leaf i p o with
    | none => simp [hleaf] at h
    | some result =>
      obtain ⟨r, _ | _⟩ := result
      · simp [hleaf] at h
      · exact .leaf hleaf
  | group c required ns ih =>
    rcases mem_trail_group h with hb | hb
    · exact canBind_of_mem_body (fun n hn p => ih n hn) hb
    · cases hb

/-! ## Groups that are passed over -/

variable (s) in
/-- Some optional group of a tree is passed over at a progress from which a leaf of it can bind. -/
def Missed (n : Node) (p : Progress) : Prop :=
  ∃ c ms, (Node.group c false ms).Inside n ∧ s.begins c ms p = false ∧
    s.CanBind [.group c false ms] true p

variable (s) in
/-- The body of an optional group is matched before any leaf of it binds a value, when it is
explored in order from a progress on. -/
def MatchedFirst (c : Combinator) (ms : List Node) (p : Progress) : Prop :=
  ∃ q t, Walk.body c (s.trails ms) p true = .outcome q :: t

theorem Missed.parent {n : Node} {c : Combinator} {required : Bool} {ns : List Node} {p : Progress}
    (hn : n ∈ ns) (h : s.Missed n p) : s.Missed (.group c required ns) p := by
  obtain ⟨d, ms, hin, h⟩ := h
  exact ⟨d, ms, .child hn hin, h⟩

theorem begins_eq_false_of_matchedFirst {c : Combinator} {ms : List Node} {p : Progress}
    (h : s.MatchedFirst c ms p) : s.begins c ms p = false := by
  obtain ⟨q, t, ht⟩ := h
  rw [begins, ht, Trail.begins_outcome]

/-- What binds in the body of a group binds on the trail of the group, unless the group is missed. -/
theorem binding_or_missed_of_body {c : Combinator} {required : Bool} {ms : List Node} {o : Bool}
    {p : Progress} (hb : .binding ∈ Walk.body c (s.trails ms) p (o || !required)) :
    .binding ∈ s.trail (.group c required ms) p o ∨ s.Missed (.group c required ms) p := by
  cases required with
  | true =>
    simp only [trail, Walk.group, if_true]
    exact Or.inl (by simpa using hb)
  | false =>
    cases hbegins : s.begins c ms p with
    | true => exact Or.inl (binding_mem_of_begins hbegins)
    | false =>
      rw [Bool.not_false, Bool.or_true] at hb
      exact Or.inr ⟨c, ms, .root, hbegins, canBind_of_mem_body (fun n _ p => canBind_of_mem_trail) hb⟩

variable (s) in
/-- When nodes are explored in order, a leaf binds a value, or an optional group of theirs is missed. -/
def BindsOrMisses (ns : List Node) (o : Bool) (p : Progress) : Prop :=
  .binding ∈ Walk.sequence (ns.map s.trail) p o ∨ ∃ n ∈ ns, s.Missed n p

/-- What the choices of a body show, the body shows. -/
theorem binding_or_missed_of_choice {c : Combinator} {ms : List Node} {o : Bool} {p : Progress}
    (h : match c with
      | .and => s.BindsOrMisses ms o p
      | .or => ∃ chosen ∈ choices ms, s.BindsOrMisses chosen o p
      | .xor => ∃ m ∈ ms, s.BindsOrMisses [m] o p) :
    .binding ∈ Walk.body c (s.trails ms) p o ∨ ∃ m ∈ ms, s.Missed m p := by
  rw [mem_body]
  cases c with
  | and => exact h
  | or =>
    obtain ⟨chosen, hc, hb | ⟨n, hn, hmissed⟩⟩ := h
    · exact Or.inl ⟨chosen, hc, hb⟩
    · exact Or.inr ⟨n, (mem_choices.1 hc).1.mem hn, hmissed⟩
  | xor =>
    obtain ⟨m, hm, hb | ⟨n, hn, hmissed⟩⟩ := h
    · rcases mem_sequence_cons.1 hb with ⟨-, hb⟩ | ⟨q, -, hb⟩
      · exact Or.inl ⟨m, hm, hb⟩
      · cases List.mem_singleton.1 hb
    · exact Or.inr ⟨m, hm, List.mem_singleton.1 hn ▸ hmissed⟩

theorem bindsOrMisses_of_group {c : Combinator} {required : Bool} {ms ns : List Node} {o : Bool}
    {p : Progress}
    (h : .binding ∈ Walk.body c (s.trails ms) p (o || !required) ∨ ∃ m ∈ ms, s.Missed m p) :
    s.BindsOrMisses (.group c required ms :: ns) o p := by
  rcases h with hb | ⟨m, hm, hmissed⟩
  · rcases binding_or_missed_of_body hb with hb | hmissed
    · exact Or.inl (mem_sequence_cons.2 (Or.inl ⟨rfl, hb⟩))
    · exact Or.inr ⟨_, List.mem_cons_self, hmissed⟩
  · exact Or.inr ⟨_, List.mem_cons_self, hmissed.parent hm⟩

/-- If a leaf can bind, then one binds on the trail, or an optional group on the way is missed.
Nothing is bound on the way to that group, so that it is missed at the progress at the start. -/
theorem bindsOrMisses_of_canBind {ns : List Node} {o : Bool} {p : Progress} (h : s.CanBind ns o p) :
    s.BindsOrMisses ns o p := by
  induction h with
  | leaf h =>
    refine Or.inl (mem_sequence_cons.2 (Or.inl ⟨rfl, ?_⟩))
    simp [trail, Walk.leaf, h]
  | and _ ih => exact bindsOrMisses_of_group (binding_or_missed_of_choice ih)
  | or hc _ ih => exact bindsOrMisses_of_group (binding_or_missed_of_choice ⟨_, hc, ih⟩)
  | xor hm _ ih => exact bindsOrMisses_of_group (binding_or_missed_of_choice ⟨_, hm, ih⟩)
  | later hq _ ih =>
    rw [← outcomes_trail, Trail.mem_outcomes] at hq
    rcases ih with hb | ⟨n, hn, hmissed⟩
    · exact Or.inl (mem_sequence_cons.2 (Or.inr ⟨_, hq, hb⟩))
    rcases binding_or_eq_of_trail hq with hb | rfl
    · exact Or.inl (mem_sequence_cons.2 (Or.inl ⟨rfl, hb⟩))
    · exact Or.inr ⟨n, List.mem_cons_of_mem _ hn, hmissed⟩

/-- A group that is passed over although a leaf of it can bind is matched first, or a group below it is
missed. -/
theorem matchedFirst_or_missed {c : Combinator} {ms : List Node} {p : Progress}
    (hbegins : s.begins c ms p = false) (h : s.CanBind [.group c false ms] true p) :
    s.MatchedFirst c ms p ∨ ∃ m ∈ ms, s.Missed m p := by
  have hbody : .binding ∈ Walk.body c (s.trails ms) p true ∨ ∃ m ∈ ms, s.Missed m p := by
    refine binding_or_missed_of_choice ?_
    cases h with
    | and h => exact bindsOrMisses_of_canBind h
    | or hc h => exact ⟨_, hc, bindsOrMisses_of_canBind h⟩
    | xor hm h => exact ⟨_, hm, bindsOrMisses_of_canBind h⟩
    | later _ h => cases h
  refine hbody.imp_left fun hb => ?_
  -- the trail is not empty, and does not begin with a binding
  rw [begins] at hbegins
  cases ht : Walk.body c (s.trails ms) p true with
  | nil => rw [ht] at hb; exact absurd hb List.not_mem_nil
  | cons moment t =>
    cases moment with
    | binding => rw [ht, Trail.begins_binding] at hbegins; cases hbegins
    | outcome q => exact ⟨q, t, ht⟩

/-- Where no optional group in which a leaf can bind is matched first, none is missed. -/
theorem not_missed {n : Node} {p : Progress}
    (h : ∀ c ms, (Node.group c false ms).Inside n → s.CanBind [.group c false ms] true p →
      ¬ s.MatchedFirst c ms p) : ¬ s.Missed n p := by
  induction n using Node.treeInduction with
  | leaf i =>
    rintro ⟨c, ms, hin, -⟩
    cases hin
  | group c required ns ih =>
    have hchild : ∀ m ∈ ns, ¬ s.Missed m p :=
      fun m hm => ih m hm fun d ms hin => h d ms (.child hm hin)
    rintro ⟨d, ms, hin, hbegins, hcan⟩
    cases hin with
    | root =>
      rcases matchedFirst_or_missed hbegins hcan with hfirst | ⟨m, hm, hmissed⟩
      · exact h c ns .root hcan hfirst
      · exact hchild m hm hmissed
    | child hm hin => exact hchild _ hm ⟨d, ms, hin, hbegins, hcan⟩

end Search

/-! ## The two conditions -/

/-- **An optional group is passed over only if nothing in it can bind, unless it is matched first.**
At a progress, the optional groups of a tree that are passed over have no leaf that can bind, on any
alternative, exactly if none that has such a leaf is matched before a leaf binds; and a group of
which no leaf can bind is always passed over. -/
theorem absent_iff_not_matchedFirst (s : Search) (n : Node) (p : Progress) (mark : Bool) :
    ((∀ c ms, (Node.group c false ms).Inside n →
        ((Step.begins (Step.body c (s.nodes ms)) p).run mark).1 = false →
          ¬ s.CanBind [.group c false ms] true p) ↔
      ∀ c ms, (Node.group c false ms).Inside n → s.CanBind [.group c false ms] true p →
        ¬ s.MatchedFirst c ms p) ∧
    ∀ c ms, ¬ s.CanBind [.group c false ms] true p →
      ((Step.begins (Step.body c (s.nodes ms)) p).run mark).1 = false := by
  simp only [s.run_begins_body]
  refine ⟨⟨fun h c ms hin hcan hfirst => ?_, fun h c ms hin hbegins hcan => ?_⟩, fun c ms hcan => ?_⟩
  · exact h c ms hin (Search.begins_eq_false_of_matchedFirst hfirst) hcan
  · exact Search.not_missed h ⟨c, ms, hin, hbegins, hcan⟩
  · cases hbegins : s.begins c ms p with
    | false => rfl
    | true => exact absurd (Search.canBind_of_mem_trail (Search.binding_mem_of_begins hbegins)) hcan

set_option maxRecDepth 2000 in
/-- **There is a group that is passed over although a leaf of it can bind.** In the first
alternative the list stays empty, which matches the group; the word would be bound in the second. -/
theorem absent_group_can_bind :
    ∃ signature c ms, Signature.compile "[(int[]) nums | (str) word]" = .ok signature ∧
      signature.root.toNode = .group c false ms ∧
      (∀ mark, ((Step.begins (Step.body c
        ((Search.of signature (Input.ofLine "x") {} {}).nodes ms)) {}).run mark).1 = false) ∧
      (Search.of signature (Input.ofLine "x") {} {}).CanBind [.group c false ms] true {} ∧
      (Search.of signature (Input.ofLine "x") {} {}).solve? = none := by
  have hcompile : Signature.compile "[(int[]) nums | (str) word]" = .ok
      { source := "[(int[]) nums | (str) word]"
        root := ⟨[.leaf 0, .leaf 1], .xor, false⟩
        arguments :=
          [{ name := "nums", kind := .positional, type := .native .int, shape := .greedy },
            { name := "word", kind := .positional, type := .native .str, shape := .scalar }]
        lookup := [("nums", 0), ("word", 1)] } := by cbv
  have hline : Input.ofLine "x" = ⟨["x"], []⟩ := by cbv
  refine ⟨_, .xor, [.leaf 0, .leaf 1], hcompile, rfl, fun mark => ?_, ?_, ?_⟩
  · rw [Search.run_begins_body, hline]
    rfl
  · rw [hline]
    exact .xor (List.mem_cons_of_mem _ List.mem_cons_self) (.leaf rfl)
  · rw [hline]
    rfl

end Invocation

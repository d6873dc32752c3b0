/-
  The sets of places among items: which they are, how many, and in which order.

  * `IsChoice`: at least one place, in ascending order; `mem_subsets`,
    `length_subsets`, `nodup_subsets`: the sets that are listed;
    `eq_of_pairwise_precedes`: a listing in order is known by its members;
  * `extend`, `enumerate`: the sets written by a recursion that changes one list
    of places, to which it adds a place and from which it takes it off again;
  * `extend_eq`, `extendFrom_eq`: a call writes the sets that go on from the list
    it finds, and leaves the list as it was;
  * `subsets_exact`: the listing is this enumeration, and the only one in order
    that has each set.
-/
import Invocation.Proofs.Matching.Choices
import Mathlib

namespace Invocation.Matching

/-! ## The sets that are listed -/

/-- Places below `n`, one or more of them, in ascending order. -/
structure IsChoice (n : Nat) (places : List Nat) : Prop where
  ne_nil : places ≠ []
  ascending : places.Pairwise (· < ·)
  below : ∀ place ∈ places, place < n

theorem sublist_range_iff {n : Nat} {places : List Nat} :
    places.Sublist (List.range n) ↔ places.Pairwise (· < ·) ∧ ∀ place ∈ places, place < n := by
  constructor
  · intro h
    exact ⟨List.pairwise_lt_range.sublist h, fun place hplace => List.mem_range.1 (h.mem hplace)⟩
  · rintro ⟨hascending, hbelow⟩
    have hnodup : places.Nodup := hascending.imp Nat.ne_of_lt
    have hsubset : places ⊆ List.range n := fun place hplace => List.mem_range.2 (hbelow place hplace)
    exact List.sublist_of_subperm_of_pairwise (List.subperm_of_subset hnodup hsubset) hascending
      List.pairwise_lt_range

theorem mem_subsets {n : Nat} {places : List Nat} : places ∈ subsets n ↔ IsChoice n places := by
  rw [subsets, mem_choices, sublist_range_iff]
  constructor
  · rintro ⟨⟨hascending, hbelow⟩, hne⟩
    exact ⟨hne, hascending, hbelow⟩
  · intro h
    exact ⟨⟨h.ascending, h.below⟩, h.ne_nil⟩

theorem length_sublistsOfLength {α : Type} (count : Nat) (items : List α) :
    (sublistsOfLength count items).length = items.length.choose count := by
  induction items generalizing count with
  | nil => cases count <;> rfl
  | cons x xs ih =>
    cases count with
    | zero => rw [Nat.choose_zero_right]; rfl
    | succ count =>
      rw [sublistsOfLength, List.length_append, List.length_map, ih, ih, List.length_cons,
        Nat.choose_succ_succ]

/-- With the empty one there are as many choices as sets of each size. -/
theorem length_choicesUpTo {α : Type} (items : List α) (count : Nat) :
    (choicesUpTo items count).length + 1 = ∑ size ∈ Finset.range (count + 1), items.length.choose size := by
  induction count with
  | zero => simp [choicesUpTo]
  | succ count ih =>
    rw [Finset.sum_range_succ, ← ih, choicesUpTo, List.length_append, length_sublistsOfLength]
    omega

theorem length_subsets (n : Nat) : (subsets n).length = 2 ^ n - 1 := by
  have h := length_choicesUpTo (List.range n) n
  rw [List.length_range, Nat.sum_range_choose] at h
  rw [subsets, choices, List.length_range]
  omega

/-! ## The order of the listing -/

theorem Precedes.asymm {a b : List Nat} (h : Precedes a b) : ¬ Precedes b a := by
  rintro (hlonger | ⟨hlength, hlex⟩)
  · rcases h with h | ⟨h, -⟩ <;> omega
  · rcases h with h | ⟨-, h⟩
    · omega
    · exact Std.Asymm.asymm _ _ h hlex

theorem nodup_of_pairwise_precedes {listing : List (List Nat)} (h : listing.Pairwise Precedes) :
    listing.Nodup := by
  refine h.imp fun {a b} hab heq => ?_
  subst heq
  exact hab.asymm hab

theorem nodup_subsets (n : Nat) : (subsets n).Nodup := nodup_of_pairwise_precedes (pairwise_subsets n)

/-- Two listings in order that have the same members are the same. -/
theorem eq_of_pairwise_precedes {listing listing' : List (List Nat)} (h : listing.Pairwise Precedes)
    (h' : listing'.Pairwise Precedes) (hmem : ∀ places, places ∈ listing ↔ places ∈ listing') :
    listing = listing' := by
  have hperm : listing.Perm listing' :=
    (List.perm_ext_iff_of_nodup (nodup_of_pairwise_precedes h) (nodup_of_pairwise_precedes h')).2 hmem
  exact hperm.eq_of_pairwise (fun a b _ _ hab hba => absurd hba hab.asymm) h h'

/-! ## Enumerating with one list of places -/

/-- The places that are chosen at the moment, and the sets that have been written. -/
structure Draft where
  chosen : List Nat
  written : List (List Nat)

namespace Draft

/-- Adds a place to those that are chosen. -/
def push (d : Draft) (place : Nat) : Draft := { d with chosen := d.chosen ++ [place] }

/-- Takes off the place that was added last. -/
def pop (d : Draft) : Draft := { d with chosen := d.chosen.dropLast }

/-- Writes sets that begin with the chosen places. -/
def write (d : Draft) (ends : List (List Nat)) : Draft :=
  { d with written := d.written ++ ends.map (d.chosen ++ ·) }

end Draft

mutual

/-- Writes the sets of `size` places below `n` that begin with the chosen ones and go on at `start` or later. -/
def extend (n size start : Nat) (d : Draft) : Draft :=
  if d.chosen.length = size then { d with written := d.written ++ [d.chosen] } else extendFrom n size start d
termination_by (n - start, 1)

/-- Adds `place`, and then each later place below `n`, to the chosen ones, goes on from there, and takes it off
again. -/
def extendFrom (n size place : Nat) (d : Draft) : Draft :=
  if place < n then extendFrom n size (place + 1) (extend n size (place + 1) (d.push place)).pop else d
termination_by (n - place, 0)

end

/-- Writes the sets of `size` places, of one fewer, and so on, each size with a list of its own. -/
def enumerateFrom (n : Nat) : Nat → List (List Nat) → List (List Nat)
  | 0, written => written
  | size + 1, written => enumerateFrom n size (extend n (size + 1) 0 ⟨[], written⟩).written

/-- All sets of places below `n`. -/
def enumerate (n : Nat) : List (List Nat) := enumerateFrom n n []

@[simp] theorem Draft.chosen_write (d : Draft) (ends : List (List Nat)) : (d.write ends).chosen = d.chosen := rfl

/-- The place that was added is taken off again when the sets that it leads to are written. -/
theorem Draft.pop_write_push (d : Draft) (place : Nat) (ends : List (List Nat)) :
    ((d.push place).write ends).pop = d.write (ends.map (place :: ·)) := by
  simp [Draft.push, Draft.write, Draft.pop, List.map_map, Function.comp_def]

theorem Draft.write_write (d : Draft) (ends ends' : List (List Nat)) :
    (d.write ends).write ends' = d.write (ends ++ ends') := by
  simp [Draft.write]

mutual

/-- A call writes the sets that go on from the chosen places, and leaves these as they were. -/
theorem extend_eq {n size : Nat} (start : Nat) (d : Draft) (h : d.chosen.length ≤ size) :
    extend n size start d =
      d.write (sublistsOfLength (size - d.chosen.length) (List.range' start (n - start))) := by
  rw [extend]
  split
  · next hsize => simp [hsize, sublistsOfLength, Draft.write]
  · next hsize => exact extendFrom_eq start d (Nat.lt_of_le_of_ne h hsize)
termination_by (n - start, 1)

theorem extendFrom_eq {n size : Nat} (place : Nat) (d : Draft) (h : d.chosen.length < size) :
    extendFrom n size place d =
      d.write (sublistsOfLength (size - d.chosen.length) (List.range' place (n - place))) := by
  obtain ⟨count, hcount⟩ := Nat.exists_eq_add_of_lt h
  have hsize : size - d.chosen.length = count + 1 := by omega
  rw [extendFrom, hsize]
  split
  · next hplace =>
    -- the sets that begin with `place` come first, then those that begin later
    generalize hrest : List.range' (place + 1) (n - (place + 1)) = rest
    have hrange : List.range' place (n - place) = place :: rest := by
      rw [← hrest, ← List.range'_succ, show n - (place + 1) + 1 = n - place by omega]
    have hlength : (d.push place).chosen.length = d.chosen.length + 1 := List.length_append
    have hcount' : size - (d.push place).chosen.length = count := by omega
    calc extendFrom n size (place + 1) (extend n size (place + 1) (d.push place)).pop
        = extendFrom n size (place + 1) (d.write ((sublistsOfLength count rest).map (place :: ·))) := by
          rw [extend_eq (place + 1) (d.push place) (by omega), hcount', hrest, Draft.pop_write_push]
      _ = d.write ((sublistsOfLength count rest).map (place :: ·) ++ sublistsOfLength (count + 1) rest) := by
          rw [extendFrom_eq (place + 1) _ (by rwa [Draft.chosen_write]), Draft.chosen_write, hsize, hrest,
            Draft.write_write]
      _ = d.write (sublistsOfLength (count + 1) (List.range' place (n - place))) := by
          rw [hrange, sublistsOfLength]
  · next hplace =>
    have hrange : n - place = 0 := by omega
    rw [hrange, List.range'_zero]
    simp [sublistsOfLength, Draft.write]
termination_by (n - place, 0)

end

theorem enumerateFrom_eq (n size : Nat) (written : List (List Nat)) :
    enumerateFrom n size written = written ++ choicesUpTo (List.range n) size := by
  induction size generalizing written with
  | zero => rw [enumerateFrom, choicesUpTo, List.append_nil]
  | succ size ih =>
    rw [enumerateFrom, extend_eq 0 ⟨[], written⟩ (Nat.zero_le _), ih, choicesUpTo, ← List.append_assoc,
      List.range_eq_range']
    simp [Draft.write]

theorem enumerate_eq_subsets (n : Nat) : enumerate n = subsets n := by
  rw [enumerate, enumerateFrom_eq, List.nil_append, subsets, choices, List.length_range]

/-- **The sets of places are listed exactly.** The listing is what the enumeration with one list of places
writes; it has `2 ^ n - 1` members and none twice; and it is the only listing, the largest sets first and those
of one size in lexicographic order, whose members are the nonempty ascending lists of places below `n`. -/
theorem subsets_exact (n : Nat) :
    enumerate n = subsets n ∧ (subsets n).length = 2 ^ n - 1 ∧ (subsets n).Nodup ∧
      ∀ listing, listing = subsets n ↔
        listing.Pairwise Precedes ∧ ∀ places, places ∈ listing ↔ IsChoice n places := by
  refine ⟨enumerate_eq_subsets n, length_subsets n, nodup_subsets n, fun listing => ⟨?_, ?_⟩⟩
  · rintro rfl
    exact ⟨pairwise_subsets n, fun _ => mem_subsets⟩
  · rintro ⟨horder, hmem⟩
    exact eq_of_pairwise_precedes horder (pairwise_subsets n) fun places => (hmem places).trans mem_subsets.symm

example : subsets 3 = [[0, 1, 2], [0, 1], [0, 2], [1, 2], [0], [1], [2]] := by decide

end Invocation.Matching

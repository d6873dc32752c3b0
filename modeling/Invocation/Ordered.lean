/-
  Lists kept in the order of their texts.

  A set of texts is a strictly ascending list, and a table is a list of pairs
  with strictly ascending keys; texts are compared by code points.

  * `insertText` and `textSet` build sets, `setKey` and `keyTable` tables;
    an entry set again takes the new value.
-/

namespace Invocation

/-- Puts a text into an ascending list that may already hold it. -/
def insertText (s : String) : List String → List String
  | [] => [s]
  | t :: rest => if s < t then s :: t :: rest else if s = t then t :: rest else t :: insertText s rest

/-- The texts of a list in ascending order, each once. -/
def textSet (ts : List String) : List String := ts.foldl (fun set s => insertText s set) []

/-- Sets the value of a key in a table with ascending keys. -/
def setKey {α : Type} (key : String) (value : α) : List (String × α) → List (String × α)
  | [] => [(key, value)]
  | (k, v) :: rest =>
    if key < k then (key, value) :: (k, v) :: rest
    else if key = k then (key, value) :: rest
    else (k, v) :: setKey key value rest

/-- The table of a list of pairs; of two pairs with one key the later one counts. -/
def keyTable {α : Type} (pairs : List (String × α)) : List (String × α) :=
  pairs.foldl (fun table pair => setKey pair.1 pair.2 table) []

@[simp] theorem lookup_setKey_self {α : Type} (key : String) (value : α) (table : List (String × α)) :
    (setKey key value table).lookup key = some value := by
  induction table with
  | nil => simp [setKey]
  | cons pair rest ih =>
    obtain ⟨k, v⟩ := pair
    by_cases hlt : key < k
    · simp [setKey, hlt]
    · by_cases heq : key = k
      · simp [setKey, heq]
      · have hne : (key == k) = false := by simpa using heq
        simp [setKey, hlt, heq, List.lookup_cons, hne, ih]

theorem lookup_setKey_of_ne {α : Type} {key other : String} (h : other ≠ key) (value : α)
    (table : List (String × α)) : (setKey key value table).lookup other = table.lookup other := by
  have hne : (other == key) = false := by simpa using h
  induction table with
  | nil => simp [setKey, List.lookup_cons, hne]
  | cons pair rest ih =>
    obtain ⟨k, v⟩ := pair
    by_cases hlt : key < k
    · simp [setKey, hlt, List.lookup_cons, hne]
    · by_cases heq : key = k
      · subst heq
        simp [setKey, List.lookup_cons, hne]
      · simp [setKey, hlt, heq, List.lookup_cons, ih]

end Invocation

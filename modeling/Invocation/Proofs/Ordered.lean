/-
  The keys and the entries of tables.

  * `mem_keys_setKey`: setting a key adds it and keeps the others;
    `setKey_setKey`: what is set last counts;
  * `length_keyTable`, `mem_keyTable`: the table of pairs with distinct keys
    has an entry for each pair and no other;
  * `pairwise_keyTable`: the keys of a table ascend; `keyTable_of_pairwise`:
    pairs with ascending keys are their own table; `eq_of_lookup_eq`: two such
    tables are equal if they give the same values;
  * `keys_keyTable`: the keys of a table are the set of the keys of its
    pairs, so that `pairwise_textSet` and `textSet_of_pairwise` hold of sets;
    `mem_textSet`: a set holds the texts it is made of;
  * `mem_of_lookup_eq_some`, `lookup_eq_some_iff_mem`: what is looked up
    stands in the table, and where keys are distinct what stands there is
    looked up; `lookup_map_snd`, `setKey_map_snd`: values that are mapped are
    looked up and set mapped.
-/
import Invocation.Ordered

namespace Invocation

variable {α : Type}

theorem mem_keys_setKey {key k : String} {value : α} {table : List (String × α)} :
    k ∈ (setKey key value table).map Prod.fst ↔ k = key ∨ k ∈ table.map Prod.fst := by
  induction table with
  | nil => simp [setKey]
  | cons pair rest ih =>
    rw [setKey]
    split
    · simp
    split
    · next heq => simp [heq]
    · simp only [List.map_cons, List.mem_cons, ih, or_left_comm]

/-- A key that is set twice has the value that was set last. -/
theorem setKey_setKey (key : String) (value value' : α) (table : List (String × α)) :
    setKey key value' (setKey key value table) = setKey key value' table := by
  induction table with
  | nil => simp [setKey]
  | cons first rest ih =>
    obtain ⟨k, v⟩ := first
    by_cases hlt : key < k
    · simp [setKey, hlt]
    · by_cases heq : key = k
      · simp [setKey, heq]
      · simp [setKey, hlt, heq, ih]

theorem length_setKey {key : String} {table : List (String × α)} (h : key ∉ table.map Prod.fst)
    (value : α) : (setKey key value table).length = table.length + 1 := by
  induction table with
  | nil => rfl
  | cons pair rest ih =>
    rw [List.map_cons, List.mem_cons, not_or] at h
    rw [setKey]
    split
    · rfl
    split
    · next heq => exact absurd heq h.1
    · rw [List.length_cons, ih h.2, List.length_cons]

/-- Keys apart from those of a table stay apart when the first of them is set. -/
theorem not_mem_keys_setKey {pair : String × α} {pairs table : List (String × α)}
    (h : ((pair :: pairs).map Prod.fst).Nodup)
    (hdisjoint : ∀ key ∈ (pair :: pairs).map Prod.fst, key ∉ table.map Prod.fst) :
    ∀ key ∈ pairs.map Prod.fst, key ∉ (setKey pair.1 pair.2 table).map Prod.fst := by
  intro key hkey hmem
  rcases mem_keys_setKey.1 hmem with rfl | hmem
  · exact (List.nodup_cons.1 h).1 hkey
  · exact hdisjoint key (List.mem_cons_of_mem _ hkey) hmem

theorem length_foldl_setKey {pairs table : List (String × α)} (h : (pairs.map Prod.fst).Nodup)
    (hdisjoint : ∀ key ∈ pairs.map Prod.fst, key ∉ table.map Prod.fst) :
    (pairs.foldl (fun table pair => setKey pair.1 pair.2 table) table).length =
      table.length + pairs.length := by
  induction pairs generalizing table with
  | nil => rfl
  | cons pair pairs ih =>
    have hpair : pair.1 ∉ table.map Prod.fst := hdisjoint _ List.mem_cons_self
    rw [List.foldl_cons, ih (List.nodup_cons.1 h).2 (not_mem_keys_setKey h hdisjoint),
      length_setKey hpair, List.length_cons, Nat.add_assoc, Nat.add_comm 1]

/-- The table of pairs with distinct keys has an entry for each pair. -/
theorem length_keyTable {pairs : List (String × α)} (h : (pairs.map Prod.fst).Nodup) :
    (keyTable pairs).length = pairs.length := by
  rw [keyTable, length_foldl_setKey h fun _ _ hkey => List.not_mem_nil hkey, List.length_nil,
    Nat.zero_add]

/-! ## Entries -/

theorem mem_setKey {key : String} {value : α} {table : List (String × α)}
    (h : key ∉ table.map Prod.fst) {pair : String × α} :
    pair ∈ setKey key value table ↔ pair = (key, value) ∨ pair ∈ table := by
  induction table with
  | nil => simp [setKey]
  | cons first rest ih =>
    rw [List.map_cons, List.mem_cons, not_or] at h
    rw [setKey]
    split
    · rw [List.mem_cons]
    split
    · next heq => exact absurd heq h.1
    · rw [List.mem_cons, ih h.2, List.mem_cons, or_left_comm]

theorem mem_of_mem_setKey {key : String} {value : α} {table : List (String × α)} {pair : String × α}
    (h : pair ∈ setKey key value table) : pair = (key, value) ∨ pair ∈ table := by
  induction table with
  | nil => exact Or.inl (List.mem_singleton.1 h)
  | cons first rest ih =>
    rw [setKey] at h
    split at h
    · exact List.mem_cons.1 h
    split at h
    · exact (List.mem_cons.1 h).imp_right (List.mem_cons_of_mem first)
    · rcases List.mem_cons.1 h with rfl | h
      · exact Or.inr List.mem_cons_self
      · exact (ih h).imp_right (List.mem_cons_of_mem first)

theorem mem_foldl_setKey {pairs table : List (String × α)} (h : (pairs.map Prod.fst).Nodup)
    (hdisjoint : ∀ key ∈ pairs.map Prod.fst, key ∉ table.map Prod.fst) {pair : String × α} :
    pair ∈ pairs.foldl (fun table pair => setKey pair.1 pair.2 table) table ↔
      pair ∈ pairs ∨ pair ∈ table := by
  induction pairs generalizing table with
  | nil => simp
  | cons first pairs ih =>
    have hfirst : first.1 ∉ table.map Prod.fst := hdisjoint _ List.mem_cons_self
    rw [List.foldl_cons, ih (List.nodup_cons.1 h).2 (not_mem_keys_setKey h hdisjoint),
      mem_setKey hfirst, List.mem_cons, or_left_comm, or_assoc]

/-- The table of pairs with distinct keys holds these pairs. -/
theorem mem_keyTable {pairs : List (String × α)} (h : (pairs.map Prod.fst).Nodup)
    {pair : String × α} : pair ∈ keyTable pairs ↔ pair ∈ pairs := by
  rw [keyTable, mem_foldl_setKey h fun _ _ hkey => List.not_mem_nil hkey]
  exact or_iff_left List.not_mem_nil

theorem lookup_map_snd {β : Type} (f : α → β) (table : List (String × α)) (key : String) :
    (table.map fun (k, value) => (k, f value)).lookup key = (table.lookup key).map f := by
  induction table with
  | nil => rfl
  | cons first rest ih =>
    obtain ⟨k, value⟩ := first
    simp only [List.map_cons, List.lookup_cons]
    cases key == k with
    | true => rfl
    | false => exact ih

/-- What is looked up stands in the table. -/
theorem mem_of_lookup_eq_some {key : String} {value : α} {table : List (String × α)}
    (h : table.lookup key = some value) : (key, value) ∈ table := by
  obtain ⟨before, after, heq, -⟩ := List.lookup_eq_some_iff.1 h
  rw [heq]
  exact List.mem_append_right before List.mem_cons_self

theorem lookup_eq_some_iff_mem {κ : Type} [BEq κ] [LawfulBEq κ] {table : List (κ × α)}
    (h : (table.map Prod.fst).Nodup) {key : κ} {value : α} :
    table.lookup key = some value ↔ (key, value) ∈ table := by
  induction table with
  | nil => simp
  | cons first rest ih =>
    obtain ⟨k, v⟩ := first
    rw [List.map_cons, List.nodup_cons] at h
    by_cases heq : key = k
    · subst heq
      have hnot : (key, value) ∉ rest := fun hmem => h.1 (List.mem_map.2 ⟨_, hmem, rfl⟩)
      simp [hnot, eq_comm]
    · have hne : (key == k) = false := beq_false_of_ne heq
      simp [List.lookup_cons, hne, ih h.2, heq]

/-! ## The order of keys -/

theorem pairwise_setKey {key : String} {value : α} {table : List (String × α)}
    (h : (table.map Prod.fst).Pairwise (· < ·)) :
    ((setKey key value table).map Prod.fst).Pairwise (· < ·) := by
  induction table with
  | nil => exact List.pairwise_singleton _ _
  | cons first rest ih =>
    obtain ⟨hfirst, hrest⟩ := List.pairwise_cons.1 h
    rw [setKey]
    split
    · next hlt =>
      refine List.pairwise_cons.2 ⟨fun k hk => ?_, h⟩
      rcases List.mem_cons.1 hk with rfl | hk
      · exact hlt
      · exact String.lt_trans hlt (hfirst k hk)
    split
    · next heq => exact List.pairwise_cons.2 ⟨fun k hk => heq ▸ hfirst k hk, hrest⟩
    · next hlt hne =>
      refine List.pairwise_cons.2 ⟨fun k hk => ?_, ih hrest⟩
      rcases mem_keys_setKey.1 hk with rfl | hk
      · -- of two different texts one comes first
        exact String.not_le.1 fun hle => hne (String.le_antisymm hle (String.not_lt.1 hlt))
      · exact hfirst k hk

/-- The keys of a table ascend. -/
theorem pairwise_keyTable (pairs : List (String × α)) :
    ((keyTable pairs).map Prod.fst).Pairwise (· < ·) := by
  suffices h : ∀ table : List (String × α), (table.map Prod.fst).Pairwise (· < ·) →
      ((pairs.foldl (fun table pair => setKey pair.1 pair.2 table) table).map Prod.fst).Pairwise
        (· < ·) from h [] List.Pairwise.nil
  induction pairs with
  | nil => exact fun _ h => h
  | cons pair pairs ih => exact fun _ h => ih _ (pairwise_setKey h)

theorem setKey_of_forall_lt {key : String} {table : List (String × α)}
    (h : ∀ k ∈ table.map Prod.fst, k < key) (value : α) :
    setKey key value table = table ++ [(key, value)] := by
  induction table with
  | nil => rfl
  | cons first rest ih =>
    have hlt : first.1 < key := h first.1 List.mem_cons_self
    rw [setKey, if_neg (String.lt_asymm hlt), if_neg (String.ne_of_lt hlt).symm,
      ih fun k hk => h k (List.mem_cons_of_mem first.1 hk), List.cons_append]

/-- Pairs with ascending keys are the table of these pairs. -/
theorem keyTable_of_pairwise {pairs : List (String × α)} (h : (pairs.map Prod.fst).Pairwise (· < ·)) :
    keyTable pairs = pairs := by
  suffices htable : ∀ table, ((table ++ pairs).map Prod.fst).Pairwise (· < ·) →
      pairs.foldl (fun table pair => setKey pair.1 pair.2 table) table = table ++ pairs from htable [] h
  clear h
  induction pairs with
  | nil => exact fun table _ => (List.append_nil table).symm
  | cons pair pairs ih =>
    intro table h
    have hlt : ∀ k ∈ table.map Prod.fst, k < pair.1 := by
      rw [List.map_append] at h
      exact fun k hk => (List.pairwise_append.1 h).2.2 k hk pair.1 List.mem_cons_self
    rw [List.append_cons] at h ⊢
    rw [List.foldl_cons, setKey_of_forall_lt hlt, ih _ h]

/-- Tables with ascending keys are equal if they give the same values under all keys. -/
theorem eq_of_lookup_eq {table table' : List (String × α)} (h : (table.map Prod.fst).Pairwise (· < ·))
    (h' : (table'.map Prod.fst).Pairwise (· < ·))
    (hlookup : ∀ key, table.lookup key = table'.lookup key) : table = table' := by
  have hkeys : ∀ {t : List (String × α)}, (t.map Prod.fst).Pairwise (· < ·) → (t.map Prod.fst).Nodup :=
    fun ht => ht.imp String.ne_of_lt
  have hnodup : ∀ {t : List (String × α)}, (t.map Prod.fst).Nodup → t.Nodup := fun ht =>
    (List.pairwise_map.1 ht).imp fun hne heq => hne (congrArg Prod.fst heq)
  have hperm : table.Perm table' := by
    refine (List.perm_ext_iff_of_nodup (hnodup (hkeys h)) (hnodup (hkeys h'))).2 fun (key, value) => ?_
    rw [← lookup_eq_some_iff_mem (hkeys h), ← lookup_eq_some_iff_mem (hkeys h'), hlookup]
  have hsorted : table.Pairwise fun a b => a.1 < b.1 := List.pairwise_map.1 h
  have hsorted' : table'.Pairwise fun a b => a.1 < b.1 := List.pairwise_map.1 h'
  exact hperm.eq_of_pairwise (fun a b _ _ hab hba => absurd hba (String.lt_asymm hab)) hsorted hsorted'

/-! ## Sets of texts -/

theorem keys_setKey (key : String) (value : α) (table : List (String × α)) :
    (setKey key value table).map Prod.fst = insertText key (table.map Prod.fst) := by
  induction table with
  | nil => rfl
  | cons first rest ih =>
    obtain ⟨k, v⟩ := first
    simp only [setKey, insertText, List.map_cons]
    split
    · rfl
    split
    · next heq => rw [List.map_cons, heq]
    · rw [List.map_cons, ih]

/-- The keys of a table are the set of the keys of its pairs. -/
theorem keys_keyTable (pairs : List (String × α)) :
    (keyTable pairs).map Prod.fst = textSet (pairs.map Prod.fst) := by
  suffices h : ∀ table : List (String × α),
      (pairs.foldl (fun table pair => setKey pair.1 pair.2 table) table).map Prod.fst =
        (pairs.map Prod.fst).foldl (fun set s => insertText s set) (table.map Prod.fst) from h []
  induction pairs with
  | nil => exact fun _ => rfl
  | cons pair pairs ih =>
    intro table
    rw [List.foldl_cons, ih, keys_setKey, List.map_cons, List.foldl_cons]

theorem textSet_eq_keys (ts : List String) :
    textSet ts = (keyTable (ts.map fun s => (s, ()))).map Prod.fst := by
  rw [keys_keyTable, List.map_map]
  exact congrArg textSet (List.map_id ts).symm

theorem mem_insertText {s t : String} {set : List String} : t ∈ insertText s set ↔ t = s ∨ t ∈ set := by
  induction set with
  | nil => simp [insertText]
  | cons first rest ih =>
    rw [insertText]
    split
    · rw [List.mem_cons]
    split
    · next heq => simp [heq]
    · rw [List.mem_cons, ih, List.mem_cons, or_left_comm]

/-- The set of texts holds these texts. -/
theorem mem_textSet {ts : List String} {t : String} : t ∈ textSet ts ↔ t ∈ ts := by
  suffices h : ∀ set, t ∈ ts.foldl (fun set s => insertText s set) set ↔ t ∈ ts ∨ t ∈ set by
    rw [textSet, h, or_iff_left List.not_mem_nil]
  induction ts with
  | nil => simp
  | cons first ts ih =>
    intro set
    rw [List.foldl_cons, ih, mem_insertText, List.mem_cons, or_left_comm, or_assoc]

/-- The texts of a set ascend. -/
theorem pairwise_textSet (ts : List String) : (textSet ts).Pairwise (· < ·) := by
  rw [textSet_eq_keys]
  exact pairwise_keyTable _

/-- An ascending list is the set of its texts. -/
theorem textSet_of_pairwise {ts : List String} (h : ts.Pairwise (· < ·)) : textSet ts = ts := by
  have hkeys : (ts.map fun s => (s, ())).map Prod.fst = ts := by
    rw [List.map_map]
    exact List.map_id ts
  rw [textSet_eq_keys, keyTable_of_pairwise (hkeys.symm ▸ h), hkeys]

end Invocation

/-
  The shape of compiled signatures.

  * `Node.Built`: the children that a group of the grammar has;
    `Node.Formed.inside`: below a tree of the grammar there are only trees of
    the grammar;
  * `Signature.compile_source`: the text that a signature keeps compiles to
    the signature again;
  * `Signature.WellShaped`: leaves and arguments are numbered alike, the groups
    are built as in the grammar, and names, sizes and custom types are as
    they are declared; `Signature.wellShaped_of_compile`: this holds of every
    signature that is compiled.
-/
import Invocation.Proofs.Signature.Names
import Invocation.Proofs.Signature.Writing

namespace Invocation

open Invocation.Text

/-! ## Trees -/

namespace Node

/-- The children of a group: there are two of them if it is a choice, and one alone is a leaf of an `and`
group. -/
structure Built (c : Combinator) (ns : List Node) : Prop where
  ne_nil : ns ≠ []
  binary : c = .or ∨ c = .xor → ns.length = 2
  alone : ∀ n, ns = [n] → c = .and ∧ ∃ i, n = .leaf i

theorem Formed.inside {n m : Node} (hn : n.Inside m) (hm : m.Formed) : n.Formed := by
  induction hn with
  | root => exact hm
  | child hk _ ih => exact ih (hm.children _ hk)

theorem Formed.built {c : Combinator} {required : Bool} {ns : List Node}
    (h : Formed (.group c required ns)) : Built c ns := by
  cases h with
  | wrapped _ i =>
    refine ⟨List.cons_ne_nil _ _, by simp, fun n hn => ⟨rfl, i, ?_⟩⟩
    exact (List.cons.inj hn).1.symm
  | run hns _ =>
    refine ⟨?_, by simp, ?_⟩
    · rintro rfl
      exact absurd hns (by decide)
    · rintro n rfl
      exact absurd hns (by simp)
  | operator op _ _ => exact ⟨List.cons_ne_nil _ _, fun _ => rfl, by simp⟩

end Node

/-! ## Arguments -/

theorem Specifier.Spells.shape {text : List Char} {specifier : Specifier} (h : Spells text specifier) :
    (∀ count, specifier.shape = .fixed count → 1 ≤ count) ∧
      ∀ symbol, specifier.type = .custom symbol → specifier.shape = .scalar := by
  have hbuiltIn : ∀ {name type}, (name, type) ∈ builtIns → ∀ symbol, type ≠ .custom symbol := by
    rintro name type h symbol rfl
    rcases mem_builtIns.1 h with ⟨-, htype⟩ | ⟨native, -, htype⟩ <;> cases htype
  cases h with
  | scalar h _ _ => exact ⟨nofun, fun _ _ => rfl⟩
  | array h hsize _ _ _ _ _ =>
    refine ⟨fun count hcount => ?_, fun symbol htype => absurd htype (hbuiltIn h symbol)⟩
    cases hsize with
    | greedy => cases hcount
    | fixed _ _ _ hpos _ => cases hcount; exact hpos
  | custom _ _ _ _ => exact ⟨nofun, fun _ _ => rfl⟩

/-- A declared list has a size of 1 at least, and a custom type is not declared for lists. -/
theorem Declares.shape {ls : List Lexeme} {a : Argument} (h : Declares ls a) :
    (∀ count, a.shape = .fixed count → 1 ≤ count) ∧
      ∀ symbol, a.type = .custom symbol → a.shape = .scalar := by
  cases h with
  | any _ | switch _ => exact ⟨nofun, nofun⟩
  | specified hs _ => exact hs.shape

/-! ## Signatures -/

namespace Signature

variable {source : String} {s : Signature}

/-- The text that a signature keeps compiles to the signature again. -/
theorem compile_source (h : compile source = .ok s) : compile s.source = .ok s := by
  obtain ⟨ls, n, hsplits, hderives, hnames, hs⟩ := exists_derives_of_compile h
  have htrim : Lexeme.Splits (trim source).toList ls := by
    rw [trim, String.toList_ofList]
    exact Lexeme.splits_trimChars hsplits
  have hagain := compile_of_derives htrim hderives hnames
  rw [trim_trim, ← hs] at hagain
  have hsource : s.source = trim source := by rw [hs]
  rwa [hsource]

/-- A list of fixed length has a length of 1 at least. -/
theorem Compiled.one_le_size (hs : s.Compiled) {a : Argument} (ha : a ∈ s.arguments) {count : Nat}
    (hshape : a.shape = .fixed count) : 1 ≤ count := by
  cases hs with
  | text h =>
    obtain ⟨ls, hls⟩ := (declares_of_compile h).1 a ha
    exact hls.shape.1 count hshape
  | command h =>
    obtain ⟨t, names, ht, rfl⟩ := compile_of_command h
    obtain ⟨b, hb, rfl⟩ := List.mem_map.1 ha
    obtain ⟨ls, hls⟩ := (declares_of_compile ht).1 b hb
    exact hls.shape.1 count hshape

/-- A name of a compiled signature resolves to one of its arguments. -/
theorem Compiled.lt_of_resolve? (hs : s.Compiled) {name : String} {index : Nat}
    (h : s.resolve? name = some index) : index < s.arguments.length := by
  have hargument : ∃ a, s.arguments[index]? = some a := by
    cases hs with
    | text hcompile =>
      have hmem := mem_of_lookup_eq_some h
      rw [(declares_of_compile hcompile).2, mem_nameTable] at hmem
      exact hmem.imp fun _ h => h.1
    | command hcompile =>
      exact (((named_of_command hcompile).resolve?_eq_some_iff name index).1 h).imp fun _ h => h.1
  obtain ⟨a, ha⟩ := hargument
  exact (List.getElem?_eq_some_iff.1 ha).1

/-- The shape of a signature. -/
structure WellShaped (s : Signature) : Prop where
  /-- The leaves from left to right are the indices of the arguments, each once. -/
  leaves : s.root.toNode.leaves = List.range s.arguments.length
  built : ∀ c required ns, (Node.group c required ns).Inside s.root.toNode → Node.Built c ns
  identifiers : ∀ a ∈ s.arguments, isIdentifier a.name = true
  nodup : (s.arguments.map Argument.name).Nodup
  /-- The names of the arguments and nothing else resolve, each to its argument. -/
  resolve?_eq_some_iff : ∀ name index,
    s.resolve? name = some index ↔ ∃ a, s.arguments[index]? = some a ∧ a.name = name
  sizes : ∀ a ∈ s.arguments, ∀ count, a.shape = .fixed count → 1 ≤ count
  custom : ∀ a ∈ s.arguments, ∀ symbol, a.type = .custom symbol → a.shape = .scalar

/-- **A signature that is compiled has the shape of the grammar**, and its text compiles to it again. -/
theorem wellShaped_of_compile (h : compile source = .ok s) :
    s.WellShaped ∧ ∃ t, compile s.source = .ok t ∧ (t == s) = true ∧ t.source = s.source := by
  obtain ⟨hleaves, hnodup⟩ := numbered_of_compile h
  obtain ⟨hformed, hdeclared, hlookup⟩ := formed_of_compile h
  refine ⟨?_, s, compile_source h, beq_of_eq rfl rfl, rfl⟩
  have hkeys : (s.lookup.map Prod.fst).Nodup := by rwa [hlookup, map_fst_nameTable]
  constructor
  case leaves => exact hleaves
  case built => exact fun c required ns hin => (hformed.inside hin).built
  case identifiers =>
    intro a ha
    obtain ⟨ls, hls⟩ := hdeclared a ha
    exact (isIdentifier_of_declares hls).1
  case nodup => exact hnodup
  case resolve?_eq_some_iff =>
    intro name index
    rw [resolve?, lookup_eq_some_iff_mem hkeys, hlookup, mem_nameTable]
    simp only [eq_comm (a := name)]
  case sizes =>
    intro a ha
    obtain ⟨ls, hls⟩ := hdeclared a ha
    exact hls.shape.1
  case custom =>
    intro a ha
    obtain ⟨ls, hls⟩ := hdeclared a ha
    exact hls.shape.2

/-- A chain of operators in brackets, a custom type and a list of two tokens, with blanks around them. -/
theorem wellShaped_of_pair_and_choice :
    ∃ s, compile " (int[2]) a [--b | (hex) c / d]\t" = .ok s ∧
      s.source = "(int[2]) a [--b | (hex) c / d]" ∧ s.root.toNode.leaves = [0, 1, 2, 3] ∧ s.WellShaped ∧
      ∃ t, compile s.source = .ok t ∧ (t == s) = true ∧ t.source = s.source := by
  have hcompile : compile " (int[2]) a [--b | (hex) c / d]\t" = .ok
      { source := "(int[2]) a [--b | (hex) c / d]"
        root :=
          ⟨[.leaf 0, .group .or false [.group .xor true [.leaf 1, .leaf 2], .leaf 3]], .and, true⟩
        arguments :=
          [{ name := "a", kind := .positional, type := .native .int, shape := .fixed 2 },
            { name := "b", kind := .keyword, type := .native .bool, shape := .scalar },
            { name := "c", kind := .positional, type := .custom "hex", shape := .scalar },
            { name := "d", kind := .positional, type := .any, shape := .scalar }]
        lookup := [("a", 0), ("b", 1), ("c", 2), ("d", 3)] } := by cbv
  exact ⟨_, hcompile, rfl, rfl, wellShaped_of_compile hcompile⟩

end Signature

end Invocation

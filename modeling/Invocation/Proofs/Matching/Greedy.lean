/-
  Lists that take all they can.

  A positional list without a fixed length takes tokens for as long as they fit
  its type, and this is never taken back.

  * `Search.Path.split`, `Search.Runs.isSuffix`: a path through nodes in order
    leads through its parts, and only takes tokens off the front;
  * `Search.Takes.exists_head`: an argument takes at least one token, and the
    first one fits its type;
  * `Signature.Starves`: arguments after a list for which it leaves no token;
    `solve?_eq_none_of_greedy`: a signature with such arguments at its root
    never matches.
-/
import Invocation.Proofs.Matching.Tokens
import Invocation.Proofs.Signature.Shape

namespace Invocation

open Invocation.Matching

namespace Search

variable {s : Search}

/-! ## Parts of a path -/

/-- A path through nodes in order leads through the first of them, and then through the others. -/
theorem Path.split {ns ms : List Node} {o : Bool} {p r : Progress} (h : s.Path (ns ++ ms) o p r) :
    ∃ q, s.Path ns o p q ∧ s.Path ms o q r := by
  induction ns generalizing p with
  | nil => exact ⟨p, .nil, h⟩
  | cons n ns ih =>
    rw [List.cons_append] at h
    cases h with
    | leaf h rest =>
      obtain ⟨q, hns, hms⟩ := ih rest
      exact ⟨q, .leaf h hns, hms⟩
    | absent rest =>
      obtain ⟨q, hns, hms⟩ := ih rest
      exact ⟨q, .absent hns, hms⟩
    | and body rest =>
      obtain ⟨q, hns, hms⟩ := ih rest
      exact ⟨q, .and body hns, hms⟩
    | or hc body rest =>
      obtain ⟨q, hns, hms⟩ := ih rest
      exact ⟨q, .or hc body hns, hms⟩
    | xor hm body rest =>
      obtain ⟨q, hns, hms⟩ := ih rest
      exact ⟨q, .xor hm body hns, hms⟩

/-- What bound arguments leave is the end of what there was. -/
theorem Runs.isSuffix {bound : List (Nat × Value)} {tokens rest : List String}
    (h : s.Runs bound tokens rest) : rest <:+ tokens := by
  induction h with
  | nil => exact List.suffix_refl _
  | positional _ _ _ _ ih => exact ih.trans (List.suffix_append _ _)
  | keyword _ _ _ _ ih => exact ih

/-- Where no token is left, none is left later on. -/
theorem Path.drop_eq_nil {ns : List Node} {o : Bool} {p q : Progress} (h : s.Path ns o p q)
    (hp : s.positional.drop p.cursor = []) : s.positional.drop q.cursor = [] := by
  obtain ⟨added, hadds⟩ := adds_of_path h
  have hsuffix := hadds.runs.isSuffix
  rw [hp] at hsuffix
  exact List.suffix_nil.1 hsuffix

/-! ## The first token of an argument -/

/-- Every token fits any type. -/
theorem exists_cast_any (token : String) : ∃ value, s.cast .any token = some value := ⟨_, rfl⟩

/-- A positional argument takes a token at least, and the first one fits its type. -/
theorem Takes.exists_head {a : Argument} {value : Value} {run rest : List String}
    (h : s.Takes a value run rest) (hsize : ∀ count, a.shape = .fixed count → 1 ≤ count) :
    ∃ token ∈ run.head?, ∃ value, s.cast a.type token = some value := by
  unfold Takes at h
  cases hshape : a.shape with
  | scalar =>
    simp only [hshape] at h
    obtain ⟨token, rfl, hcast⟩ := h
    exact ⟨token, rfl, value, hcast⟩
  | fixed count =>
    simp only [hshape] at h
    obtain ⟨hlength, items, -, hitems⟩ := h
    have hpos := hsize count hshape
    rw [← hlength] at hpos
    cases hitems with
    | nil => exact absurd hpos (Nat.not_succ_le_zero 0)
    | @cons token item run items hcast _ =>
      refine ⟨token, rfl, ?_⟩
      -- items of any type have the type of the first one, which fits any type anyway
      cases htype : a.type with
      | any => exact exists_cast_any token
      | native type => exact ⟨item, by simpa [itemType, htype] using hcast⟩
      | custom symbol => exact ⟨item, by simpa [itemType, htype] using hcast⟩
  | greedy =>
    simp only [hshape] at h
    obtain ⟨hne, -, items, -, hitems⟩ := h
    cases hitems with
    | nil => exact absurd rfl hne
    | @cons token item run items hcast _ => exact ⟨token, rfl, item, hcast⟩

variable {i : Nat} {a : Argument} {ns : List Node} {p r : Progress}

/-- Outside of optional groups a positional argument is bound to a run of tokens. -/
theorem exists_takes_of_path (ha : s.signature.arguments[i]? = some a) (hk : a.kind = .positional)
    (h : s.Path (.leaf i :: ns) false p r) :
    ∃ value run q, s.positional.drop p.cursor = run ++ s.positional.drop q.cursor ∧
      s.Takes a value run (s.positional.drop q.cursor) ∧ s.Path ns false q r := by
  cases h with
  | leaf hleaf rest =>
    cases hleaf with
    | @positional a' value used _ ha' _ _ ht =>
      obtain rfl : a = a' := Option.some.inj (ha.symm.trans ha')
      refine ⟨value, _, _, ?_, ht, rest⟩
      rw [← List.drop_drop, List.take_append_drop]
    | keyword ha' hk' _ =>
      obtain rfl := Option.some.inj (ha.symm.trans ha')
      rw [hk] at hk'
      cases hk'

/-- Where a positional argument is bound, there is a token that fits its type. -/
theorem exists_token_of_path (ha : s.signature.arguments[i]? = some a) (hk : a.kind = .positional)
    (hsize : ∀ count, a.shape = .fixed count → 1 ≤ count) (h : s.Path (.leaf i :: ns) false p r) :
    ∃ token ∈ (s.positional.drop p.cursor).head?, ∃ value, s.cast a.type token = some value := by
  obtain ⟨value, run, q, htokens, ht, -⟩ := exists_takes_of_path ha hk h
  obtain ⟨token, htoken, hcast⟩ := ht.exists_head hsize
  refine ⟨token, ?_, hcast⟩
  rw [htokens, List.head?_append, Option.mem_def.1 htoken]
  rfl

/-- After a list of any length there is no token, or one that does not fit its type. -/
theorem exists_path_of_greedy (ha : s.signature.arguments[i]? = some a) (hk : a.kind = .positional)
    (hshape : a.shape = .greedy) (h : s.Path (.leaf i :: ns) false p r) :
    ∃ q, (∀ token ∈ (s.positional.drop q.cursor).head?, s.cast a.type token = none) ∧
      s.Path ns false q r := by
  obtain ⟨value, run, q, -, ht, hrest⟩ := exists_takes_of_path ha hk h
  simp only [Takes, hshape] at ht
  exact ⟨q, ht.2.1, hrest⟩

end Search

/-! ## Arguments that get no token -/

/-- Nodes after a list of any length with the given type, among them an argument for which the list leaves
no token: the next one has the same type; or some later one is positional, and every token fits the list. -/
inductive Signature.Starves (s : Signature) (type : ArgumentType) : List Node → Prop
  | next {j b rest} (hb : s.arguments[j]? = some b) (hk : b.kind = .positional) (ht : b.type = type) :
      Starves s type (.leaf j :: rest)
  | later {j b nodes} (ht : type = .any ∨ type = .native .str) (hj : .leaf j ∈ nodes)
      (hb : s.arguments[j]? = some b) (hk : b.kind = .positional) : Starves s type nodes

/-- **A list of any length is never shortened.** A signature never matches if its root is a required `and`
group, a list of any length is among the children, and it leaves no token for an argument after it,
whatever the other children are. -/
theorem solve?_eq_none_of_greedy {signature : Signature} (hs : signature.Compiled)
    {before after : List Node} {i : Nat} {a : Argument}
    (hroot : signature.root = ⟨before ++ .leaf i :: after, .and, true⟩)
    (ha : signature.arguments[i]? = some a) (hk : a.kind = .positional) (hshape : a.shape = .greedy)
    (hstarves : signature.Starves a.type after) (input : Input) (types : TypeRegistry)
    (settings : EffectiveSettings) : (Search.of signature input types settings).solve? = none := by
  rw [Option.eq_none_iff_forall_ne_some]
  intro values hsolve
  obtain ⟨-, r, -, -, hpath⟩ := Search.path_of_solve? hsolve
  have hchildren : (Search.of signature input types settings).Path (before ++ .leaf i :: after) false {} r := by
    change Search.Path _ [signature.root.toNode] _ _ _ at hpath
    rw [hroot] at hpath
    cases hpath with
    | and body rest =>
      cases rest
      exact body
  obtain ⟨p, -, hlist⟩ := hchildren.split
  obtain ⟨q, hnext, hafter⟩ := Search.exists_path_of_greedy ha hk hshape hlist
  cases hstarves with
  | @next j b rest hb hkb ht =>
    obtain ⟨token, htoken, value, hcast⟩ := Search.exists_token_of_path hb hkb
      (fun _ => hs.one_le_size (List.mem_of_getElem? hb)) hafter
    rw [ht, hnext token htoken] at hcast
    cases hcast
  | @later j b _ ht hj hb hkb =>
    have hdone : (Search.of signature input types settings).positional.drop q.cursor = [] := by
      refine List.head?_eq_none_iff.1 (Option.eq_none_iff_forall_ne_some.2 fun token htoken => ?_)
      have hcast := hnext token htoken
      rcases ht with ht | ht <;> rw [ht] at hcast <;> cases hcast
    obtain ⟨between, rest, rfl⟩ := List.append_of_mem hj
    obtain ⟨q', hbetween, hlater⟩ := hafter.split
    obtain ⟨token, htoken, -⟩ := Search.exists_token_of_path hb hkb
      (fun _ => hs.one_le_size (List.mem_of_getElem? hb)) hlater
    rw [hbetween.drop_eq_nil hdone] at htoken
    cases htoken

set_option maxRecDepth 2000 in
/-- Words of any number leave nothing for the number at the end, though it would fit and choices stand
between them. -/
theorem solve?_eq_none_of_words_before_number :
    ∃ signature after,
      Signature.compile "(bool) on (str[]) words [--loud | (int) level] <--a / --b> (int) last" =
        .ok signature ∧
      signature.root = ⟨[.leaf 0] ++ .leaf 1 :: after, .and, true⟩ ∧
      signature.Starves (.native .str) after ∧
      (Search.of signature (Input.ofLine "yes x --a 3") {} {}).solve? = none := by
  have hcompile : Signature.compile
      "(bool) on (str[]) words [--loud | (int) level] <--a / --b> (int) last" = .ok
      { source := "(bool) on (str[]) words [--loud | (int) level] <--a / --b> (int) last"
        root :=
          ⟨[.leaf 0, .leaf 1, .group .xor false [.leaf 2, .leaf 3], .group .or true [.leaf 4, .leaf 5],
            .leaf 6], .and, true⟩
        arguments :=
          [{ name := "on", kind := .positional, type := .native .bool, shape := .scalar },
            { name := "words", kind := .positional, type := .native .str, shape := .greedy },
            { name := "loud", kind := .keyword, type := .native .bool, shape := .scalar },
            { name := "level", kind := .positional, type := .native .int, shape := .scalar },
            { name := "a", kind := .keyword, type := .native .bool, shape := .scalar },
            { name := "b", kind := .keyword, type := .native .bool, shape := .scalar },
            { name := "last", kind := .positional, type := .native .int, shape := .scalar }]
        lookup :=
          [("on", 0), ("words", 1), ("loud", 2), ("level", 3), ("a", 4), ("b", 5), ("last", 6)] } := by
    cbv
  refine ⟨_, _, hcompile, rfl, ?starves, ?none⟩
  case starves => exact .later (.inr rfl) (.tail _ (.tail _ (.head _))) rfl rfl
  case none =>
    refine @solve?_eq_none_of_greedy _ (.text hcompile) [.leaf 0] _ 1 _ rfl rfl rfl rfl ?_ _ _ _
    exact .later (.inr rfl) (.tail _ (.tail _ (.head _))) rfl rfl

end Invocation

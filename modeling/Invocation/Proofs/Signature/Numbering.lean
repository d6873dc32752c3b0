/-
  The leaves and the arguments of compiled signatures.

  While a text is read, the leaves read so far are numbered in the order of
  their declaration, whatever brackets are open (`Reading.Numbered`).

  * `Reading.Reads` lists what reading one lexeme can do;
  * `Reading.numbered_of_reads`, `Reading.numbered_of_steps`: the numbering
    is kept by one lexeme, and by all lexemes of a text;
  * `Signature.Compiled` are the signatures of texts, alone or with what a
    command declares for their arguments: their leaves from left to right
    are the indices of the argument table, each once, and no two arguments
    have one name (`Compiled.leaves_root`, `Compiled.nodup_names`).
-/
import Invocation.Command
import Invocation.Proofs.Signature.Node
import Mathlib.Data.List.Nodup

namespace Invocation

/-! ## Levels -/

namespace Level

/-- The leaves of a level from left to right. -/
def leaves (level : Level) : List Nat :=
  (level.chain.elim [] fun (left, _, _) => left.leaves) ++ Node.childLeaves level.units

theorem leaves_addUnit (level : Level) (unit : Node) :
    (level.addUnit unit).leaves = level.leaves ++ unit.leaves := by
  simp only [leaves, addUnit, Node.childLeaves_append, Node.childLeaves_singleton,
    List.append_assoc]

theorem leaves_of_operand? {level : Level} {operand : Node} (h : level.operand? = some operand) :
    operand.leaves = Node.childLeaves level.units := by
  unfold operand? at h
  split at h
  · cases h
  · next unit hu =>
    cases h
    rw [hu, Node.childLeaves_singleton]
  · cases h
    rw [Node.leaves]

theorem leaves_join {level : Level} {operand : Node} (h : level.operand? = some operand) :
    (level.join operand).leaves = level.leaves := by
  rw [join, leaves, ← leaves_of_operand? h]
  cases level.chain with
  | none => rfl
  | some chain =>
    simp only [Option.elim, Node.leaves, Node.childLeaves, List.append_nil]

theorem leaves_addOperator {level : Level} {operand : Node} (h : level.operand? = some operand)
    (op : Operator) (offset : Nat) : (level.addOperator operand op offset).leaves = level.leaves := by
  rw [addOperator, leaves]
  simp only [Option.elim, Node.childLeaves, List.append_nil, leaves_join h]

end Level

theorem Group.leaves_ofNode (required : Bool) (n : Node) :
    (Group.ofNode required n).toNode.leaves = n.leaves := by
  cases n with
  | leaf i => rfl
  | group c r ns => rfl

theorem Group.leaves_ofRoot (n : Node) : (Group.ofRoot n).toNode.leaves = n.leaves := by
  cases n with
  | leaf i => rfl
  | group c r ns => rfl

/-! ## Reading a text -/

namespace Reading

/-- The leaves read so far from left to right. -/
def leaves (r : Reading) : List Nat :=
  (r.enclosing.reverse.flatMap fun group => group.outer.leaves) ++ r.level.leaves

/-- The leaves read so far are the indices of the arguments read so far, in order, and the names of the
arguments are distinct. -/
structure Numbered (r : Reading) : Prop where
  leaves_eq : r.leaves = List.range r.arguments.length
  nodup_names : (r.arguments.map Argument.name).Nodup

/-- What reading a lexeme can do: the reading before, the lexeme and the reading after. -/
inductive Reads (r : Reading) : Lexeme → Reading → Prop
  | name {text a pending} (hnew : a.name ∉ r.arguments.map Argument.name) :
      Reads r (.name text)
        { r with
          level := r.level.addUnit (.leaf r.arguments.length)
          arguments := r.arguments ++ [a]
          pending }
  | specifier {text pending} : Reads r (.specifier text) { r with pending }
  | opening {bracket offset} : Reads r (.opening bracket) (r.openGroup bracket offset)
  | operator {op operand offset} (h : r.level.operand? = some operand) :
      Reads r (.operator op) { r with level := r.level.addOperator operand op offset }
  | closing {bracket operand group outer} (h : r.level.operand? = some operand)
      (he : r.enclosing = group :: outer) :
      Reads r (.closing bracket)
        { r with
          level := group.outer.addUnit (Group.ofNode bracket.isRequired (r.level.join operand)).toNode
          enclosing := outer }

theorem reads_of_addArgument {r r' : Reading} {text : List Char} {offset : Nat}
    (h : r.addArgument text offset = .ok r') : r.Reads (.name text) r' := by
  simp only [addArgument] at h
  split at h
  · cases h
  split at h
  · cases h
  · next hnew =>
    cases h
    refine .name fun hmem => hnew ?_
    obtain ⟨b, hb, hname⟩ := List.mem_map.1 hmem
    exact List.any_eq_true.2 ⟨b, hb, beq_iff_eq.2 hname⟩

theorem reads_of_closeGroup {r r' : Reading} {bracket : Bracket} {offset : Nat}
    (h : r.closeGroup bracket offset = .ok r') : r.Reads (.closing bracket) r' := by
  unfold closeGroup at h
  split at h
  · cases h
  · cases h
  · cases h
  · next operand group outer hop he =>
    split at h
    · cases h
      exact .closing hop he
    · cases h

theorem reads_of_step {r r' : Reading} {placed : Placed} (h : r.step placed = .ok r') :
    r.Reads placed.lexeme r' := by
  unfold step at h
  split at h
  · next hl => rw [hl]; exact reads_of_addArgument h
  · cases h
  · next text _ hl =>
    rw [hl]
    cases hs : Specifier.ofChars text placed.offset with
    | error e => rw [hs] at h; cases h
    | ok specifier => rw [hs] at h; cases h; exact .specifier
  · next hl => cases h; rw [hl]; exact .opening
  · next op hl =>
    unfold addOperator at h
    split at h
    · cases h
    · next hop => cases h; rw [hl]; exact .operator hop
  · next hl => rw [hl]; exact reads_of_closeGroup h

/-- Reading a lexeme keeps the numbering. -/
theorem numbered_of_reads {r r' : Reading} {lexeme : Lexeme} (h : r.Reads lexeme r')
    (hr : r.Numbered) : r'.Numbered := by
  have hleaves := hr.leaves_eq
  have hnames := hr.nodup_names
  simp only [leaves] at hleaves
  cases h with
  | name hnew =>
    refine ⟨?_, ?_⟩
    · simp only [leaves, Level.leaves_addUnit, ← List.append_assoc, hleaves, Node.leaves,
        List.length_append, List.length_singleton, List.range_succ]
    · rw [List.map_append]
      refine List.nodup_append.2 ⟨hnames, List.nodup_singleton _, ?_⟩
      rintro name hname _ hnew' rfl
      exact hnew (List.mem_singleton.1 hnew' ▸ hname)
  | specifier => exact ⟨hleaves, hnames⟩
  | opening =>
    refine ⟨?_, hnames⟩
    simp only [leaves, openGroup, List.reverse_cons, List.flatMap_append, List.flatMap_singleton]
    exact (List.append_nil _).trans hleaves
  | operator hop =>
    refine ⟨?_, hnames⟩
    simp only [leaves, Level.leaves_addOperator hop, hleaves]
  | closing hop he =>
    refine ⟨?_, hnames⟩
    rw [he, List.reverse_cons, List.flatMap_append, List.flatMap_singleton] at hleaves
    simp only [leaves, Level.leaves_addUnit, Group.leaves_ofNode, Level.leaves_join hop]
    rw [← List.append_assoc, hleaves]

theorem numbered_of_steps {r r' : Reading} {lexemes : List Placed} (h : r.steps lexemes = .ok r')
    (hr : r.Numbered) : r'.Numbered := by
  induction lexemes generalizing r with
  | nil => cases h; exact hr
  | cons placed rest ih =>
    rw [steps] at h
    split at h
    · next hstep => exact ih h (numbered_of_reads (reads_of_step hstep) hr)
    · cases h

/-- The node at the end of a text has the leaves read. -/
theorem leaves_of_finish {r : Reading} {n : Node} (h : r.finish = .ok n) : n.leaves = r.leaves := by
  unfold finish at h
  split at h
  · cases h
  · cases h
  · cases h
  · next hop he =>
    cases h
    rw [leaves, he, Level.leaves_join hop]
    rfl
  · cases h

end Reading

/-! ## Compiled signatures -/

namespace Signature

/-- The signatures of texts, alone or in a command, with what the command declares for their
arguments. -/
inductive Compiled : Signature → Prop
  | text {source s} (h : Signature.compile source = .ok s) : Compiled s
  | command {m types source s} (h : Metadata.compile m types source = .ok s) : Compiled s

theorem numbered_of_compile {source : String} {s : Signature} (h : compile source = .ok s) :
    s.root.toNode.leaves = List.range s.arguments.length ∧ (s.arguments.map Argument.name).Nodup := by
  unfold compile at h
  split at h
  · cases h
  split at h
  · cases h
  next r hsteps =>
  split at h
  · cases h
  next n hfinish =>
  cases h
  have hr := Reading.numbered_of_steps hsteps ⟨rfl, List.nodup_nil⟩
  refine ⟨?_, hr.nodup_names⟩
  rw [Group.leaves_ofRoot, Reading.leaves_of_finish hfinish, hr.leaves_eq]

/-- What compiling with what a command declares has checked, and the signature that comes of it. -/
theorem compile_eq_ok {m : Metadata} {types : TypeRegistry} {source : String} {s : Signature}
    (h : m.compile types source = .ok s) :
    ∃ t names, compile source = .ok t ∧ unknownType? types t.arguments = none ∧ m.invalidAlias? = none ∧
      addAllAliasNames m t.lookup 0 t.arguments = .ok names ∧
      s = { t with arguments := t.arguments.map m.decorate, lookup := names } := by
  unfold Metadata.compile at h
  split at h
  · cases h
  next t ht =>
  split at h
  · cases h
  · cases h
  · next hunknown hinvalid =>
    cases hn : addAllAliasNames m t.lookup 0 t.arguments with
    | error e => rw [hn] at h; cases h
    | ok names =>
      rw [hn] at h
      cases h
      exact ⟨t, names, ht, hunknown, hinvalid, hn, rfl⟩

/-- What a command declares changes neither the tree nor the names, kinds, types and shapes of
arguments. -/
theorem compile_of_command {m : Metadata} {types : TypeRegistry} {source : String} {s : Signature}
    (h : m.compile types source = .ok s) :
    ∃ t names, compile source = .ok t ∧
      s = { t with arguments := t.arguments.map m.decorate, lookup := names } := by
  obtain ⟨t, names, ht, -, -, -, rfl⟩ := compile_eq_ok h
  exact ⟨t, names, ht, rfl⟩

namespace Compiled

variable {s : Signature}

theorem numbered (h : s.Compiled) :
    s.root.toNode.leaves = List.range s.arguments.length ∧ (s.arguments.map Argument.name).Nodup := by
  cases h with
  | text h => exact numbered_of_compile h
  | command h =>
    obtain ⟨t, names, ht, rfl⟩ := compile_of_command h
    obtain ⟨hl, hn⟩ := numbered_of_compile ht
    refine ⟨by rw [List.length_map]; exact hl, ?_⟩
    rw [List.map_map]
    exact hn

/-- The leaves of a compiled signature from left to right are the indices of its arguments. -/
theorem leaves_root (h : s.Compiled) : s.root.toNode.leaves = List.range s.arguments.length :=
  h.numbered.1

/-- No two arguments of a compiled signature have one name. -/
theorem nodup_names (h : s.Compiled) : (s.arguments.map Argument.name).Nodup := h.numbered.2

end Compiled

end Signature

end Invocation

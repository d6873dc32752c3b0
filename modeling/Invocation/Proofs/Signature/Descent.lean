/-
  Compiling by recursive descent, with guarded accesses.

  Here a text is compiled in another way. It is walked as characters, each with
  the offset of its first byte, and the texts of lexemes are cut out of it by
  such offsets; then brackets, operands and units are read by functions that
  call one another. Whatever must not happen is a fault.

  * `Fault`: a cut that is no part of the text, a lexeme where only others can
    stand, a lexeme that is left over, or more calls than lexemes allow for;
  * `Descent.slice`, `Descent.scan`: cuts by offsets, and the lexemes of a text;
    `Descent.scan_eq`: they are those that scanning finds;
  * `Descent.units`, `group`, `choice`, `operators`: reading by descent;
  * `Descent.At`: a reading and what is left to read go on alike.
    `Descent.Simulates`: calls lead from one such state to another, or to the
    error of the reading; `simulates`: any number of them, one lemma for each
    function;
  * `Descent.compile_eq`: compiling by descent has no faults, and the same
    results.
-/
import Invocation.Proofs.Signature.Grammar
import Invocation.Proofs.Signature.Places

namespace Invocation

open Invocation.Text

/-- What must not happen while a text is compiled. -/
inductive Fault where
  /-- The bytes between two offsets are no part of the text. -/
  | slice (start stop : Nat)
  /-- A lexeme stands where only others can stand. -/
  | unreachable
  /-- A lexeme is left over at the end which is no closing bracket. -/
  | leftover
  /-- There are more calls than the lexemes allow for. -/
  | calls

/-- Why a text is not compiled: there is an error in it, or something happened that must not. -/
inductive Failure where
  | refused (e : SignatureError)
  | fault (fault : Fault)

namespace Descent

/-! ## Cutting out lexemes -/

/-- The characters after a number of bytes; none if a character begins before and ends after them. -/
def dropBytes? : Nat → List Char → Option (List Char)
  | 0, cs => some cs
  | _ + 1, [] => none
  | n + 1, c :: cs => if c.utf8Size ≤ n + 1 then dropBytes? (n + 1 - c.utf8Size) cs else none

/-- The characters of a number of bytes in front; none if they end within a character. -/
def takeBytes? : Nat → List Char → Option (List Char)
  | 0, _ => some []
  | _ + 1, [] => none
  | n + 1, c :: cs => if c.utf8Size ≤ n + 1 then (takeBytes? (n + 1 - c.utf8Size) cs).map (c :: ·) else none

/-- The part of a text between two offsets. -/
def slice (source : List Char) (start stop : Nat) : Except Failure (List Char) :=
  match if start ≤ stop then (dropBytes? start source).bind (takeBytes? (stop - start)) else none with
  | some part => .ok part
  | none => .error (.fault (.slice start stop))

/-- Characters with the offsets of their first bytes. -/
def indexed (offset : Nat) : List Char → List (Nat × Char)
  | [] => []
  | c :: cs => (offset, c) :: indexed (offset + c.utf8Size) cs

/-- The offset after the last of some characters. -/
def stop (offset : Nat) (run : List (Nat × Char)) : Nat := run.foldl (fun _ (i, c) => i + c.utf8Size) offset

/-- The lexemes of the characters that are left of a text. -/
def scan (source : List Char) (chars : List (Nat × Char)) : Except Failure (List Placed) :=
  match chars with
  | [] => .ok []
  | (offset, c) :: rest =>
    if isBlank c then scan source rest
    else if c = '(' then
      match h : rest.dropWhile (·.2 != ')') with
      | [] => .error (.refused (.unclosedSpecifier offset))
      | (close, _) :: after => do
        let text ← slice source (offset + 1) close
        (scan source after).map (⟨.specifier (trimChars text), offset⟩ :: ·)
    else if isNameChar c then do
      let run := (offset, c) :: rest.takeWhile (isNameChar ·.2)
      let text ← slice source offset (stop offset run)
      (scan source (rest.dropWhile (isNameChar ·.2))).map (⟨.name text, offset⟩ :: ·)
    else
      match Lexeme.ofSymbol? c with
      | some lexeme => (scan source rest).map (⟨lexeme, offset⟩ :: ·)
      | none => .error (.refused (.unexpectedChar c offset))
termination_by chars.length
decreasing_by
  · simp
  · have hle := (List.dropWhile_suffix (l := rest) (·.2 != ')')).length_le
    rw [h, List.length_cons] at hle
    simp only [List.length_cons]
    omega
  · exact Nat.lt_succ_of_le (List.dropWhile_suffix (l := rest) (isNameChar ·.2)).length_le
  · simp

/-! ## Reading by descent -/

/-- What is left to read, and the arguments declared so far. -/
structure State where
  rest : List Placed
  arguments : List Argument

/-- The specifier in front of a name, if there is one. -/
def specifier? (s : State) : Except Failure (Option Specifier × State) :=
  match s.rest with
  | ⟨.specifier text, offset⟩ :: rest => do
    let specifier ← (Specifier.ofChars text offset).mapError .refused
    match rest with
    | ⟨.name _, _⟩ :: _ => .ok (some specifier, { s with rest })
    | _ => .error (.refused (.missingName offset))
  | _ => .ok (none, s)

/-- The leaf of an argument after its specifier. Here a name comes next. -/
def named (specifier? : Option Specifier) (s : State) : Except Failure (Node × State) :=
  match s.rest with
  | ⟨.name run, offset⟩ :: rest =>
    let (kind, chars) := Reading.splitMarker run
    let name := String.ofList chars
    if !isIdentifierChars chars then .error (.refused (.invalidName (String.ofList run) offset))
    else if s.arguments.any (·.name == name) then .error (.refused (.duplicateName name))
    else
      let specifier := specifier?.getD (Specifier.default kind)
      let a : Argument := { name, kind, type := specifier.type, shape := specifier.shape }
      .ok (.leaf s.arguments.length, ⟨rest, s.arguments ++ [a]⟩)
  | _ => .error (.fault .unreachable)

/-- The leaf of an argument. Here a specifier or a name comes next. -/
def leaf (s : State) : Except Failure (Node × State) := do
  let (specifier?, s) ← specifier? s
  named specifier? s

mutual

/-- The operand that units side by side make, after those that have been read. -/
def units : Nat → List Node → State → Except Failure (Option Node × State)
  | 0, _, _ => .error (.fault .calls)
  | calls + 1, read, s =>
    match s.rest with
    | ⟨.opening _, _⟩ :: _ => do
      let (unit, s) ← group calls s
      units calls (read ++ [unit]) s
    | ⟨.specifier _, _⟩ :: _ | ⟨.name _, _⟩ :: _ => do
      let (unit, s) ← leaf s
      units calls (read ++ [unit]) s
    | _ => .ok (Level.operand? { units := read }, s)

/-- The node of a group in brackets. Here an opening bracket comes next. -/
def group : Nat → State → Except Failure (Node × State)
  | 0, _ => .error (.fault .calls)
  | calls + 1, s =>
    match s.rest with
    | ⟨.opening bracket, offset⟩ :: rest => do
      let (inner, s) ← choice calls (some offset) { s with rest }
      match s.rest with
      | ⟨.closing found, _⟩ :: rest =>
        if bracket = found then .ok ((Group.ofNode bracket.isRequired inner).toNode, { s with rest })
        else .error (.refused (.mismatchedGroup bracket.opener found.closer offset))
      | _ => .error (.refused (.unbalancedGroup bracket.opener offset))
    | _ => .error (.fault .unreachable)

/-- The node of operands with operators between them, within the bracket that was opened at an offset. -/
def choice : Nat → Option Nat → State → Except Failure (Node × State)
  | 0, _, _ => .error (.fault .calls)
  | calls + 1, opener, s => do
    let (operand?, s) ← units calls [] s
    match operand? with
    | some operand => operators calls operand s
    | none =>
      match s.rest, opener with
      | ⟨.operator op, offset⟩ :: _, _ => .error (.refused (.danglingOperator op.symbol offset))
      | ⟨.closing bracket, offset⟩ :: _, none => .error (.refused (.unmatchedClose bracket.closer offset))
      | _, some offset => .error (.refused (.emptyGroup offset))
      | _, none => .error (.refused .emptySignature)

/-- The node of what has been read and the operators and operands after it. -/
def operators : Nat → Node → State → Except Failure (Node × State)
  | 0, _, _ => .error (.fault .calls)
  | calls + 1, left, s =>
    match s.rest with
    | ⟨.operator op, offset⟩ :: rest => do
      let (operand?, s) ← units calls [] { s with rest }
      match operand? with
      | some right => operators calls (.group op.combinator true [left, right]) s
      | none => .error (.refused (.danglingOperator op.symbol offset))
    | _ => .ok (left, s)

end

/-- The node and the arguments when the outermost chain has been read. Only a closing bracket can be left
over, which nothing opened. -/
def finish (node : Node) (s : State) : Except Failure (Node × List Argument) :=
  match s.rest with
  | [] => .ok (node, s.arguments)
  | ⟨.closing bracket, offset⟩ :: _ => .error (.refused (.unmatchedClose bracket.closer offset))
  | _ => .error (.fault .leftover)

/-- The node and the arguments of lexemes. -/
def read (lexemes : List Placed) : Except Failure (Node × List Argument) :=
  if lexemes.isEmpty then .error (.refused .emptySignature)
  else do
    let (node, s) ← choice (3 * lexemes.length + 2) none ⟨lexemes, []⟩
    finish node s

/-- The signature of a text, by descent. -/
def compile (source : String) : Except Failure Signature := do
  let lexemes ← scan source.toList (indexed 0 source.toList)
  let (node, arguments) ← read lexemes
  .ok ⟨trim source, Group.ofRoot node, arguments, nameTable arguments⟩

/-! ## Cuts are parts of the text -/

theorem dropBytes?_append (before after : List Char) :
    dropBytes? (byteCount before) (before ++ after) = some after := by
  induction before with
  | nil =>
    cases after <;> rfl
  | cons c before ih =>
    have hpos : 0 < c.utf8Size := c.utf8Size_pos
    obtain ⟨n, hn⟩ : ∃ n, c.utf8Size + byteCount before = n + 1 := ⟨_, (Nat.succ_pred_eq_of_pos (by omega)).symm⟩
    rw [byteCount_cons, hn, List.cons_append, dropBytes?, if_pos (by omega), ← hn, Nat.add_sub_cancel_left, ih]

theorem takeBytes?_append (part after : List Char) :
    takeBytes? (byteCount part) (part ++ after) = some part := by
  induction part with
  | nil => cases after <;> rfl
  | cons c part ih =>
    have hpos : 0 < c.utf8Size := c.utf8Size_pos
    obtain ⟨n, hn⟩ : ∃ n, c.utf8Size + byteCount part = n + 1 := ⟨_, (Nat.succ_pred_eq_of_pos (by omega)).symm⟩
    rw [byteCount_cons, hn, List.cons_append, takeBytes?, if_pos (by omega), ← hn, Nat.add_sub_cancel_left, ih,
      Option.map_some]

/-- Between offsets at which parts of a text begin and end there is a part. -/
theorem slice_eq_ok {source before part after : List Char} (h : source = before ++ (part ++ after)) :
    slice source (byteCount before) (byteCount before + byteCount part) = .ok part := by
  rw [slice, if_pos (Nat.le_add_right _ _), h, dropBytes?_append, Option.bind_some, Nat.add_sub_cancel_left,
    takeBytes?_append]

theorem takeWhile_indexed (p : Char → Bool) (offset : Nat) (cs : List Char) :
    (indexed offset cs).takeWhile (p ·.2) = indexed offset (cs.takeWhile p) := by
  induction cs generalizing offset with
  | nil => rfl
  | cons c cs ih =>
    cases hc : p c with
    | false => simp [indexed, hc]
    | true => simp [indexed, hc, ih]

theorem dropWhile_indexed (p : Char → Bool) (offset : Nat) (cs : List Char) :
    (indexed offset cs).dropWhile (p ·.2) =
      indexed (offset + byteCount (cs.takeWhile p)) (cs.dropWhile p) := by
  induction cs generalizing offset with
  | nil => rfl
  | cons c cs ih =>
    cases hc : p c with
    | false => simp [indexed, hc, byteCount]
    | true => simp [indexed, hc, ih, byteCount_cons, Nat.add_assoc]

theorem stop_indexed (offset : Nat) (cs : List Char) : stop offset (indexed offset cs) = offset + byteCount cs := by
  have hfrom : ∀ (cs : List Char) (n m : Nat), n = m →
      (indexed m cs).foldl (fun _ (i, c) => i + c.utf8Size) n = m + byteCount cs := by
    intro cs
    induction cs with
    | nil => exact fun n m h => h
    | cons c cs ih =>
      intro n m _
      rw [indexed, List.foldl_cons, ih _ _ rfl, byteCount_cons, Nat.add_assoc]
  exact hfrom cs offset offset rfl

theorem dropWhile_indexed_eq_nil {cs : List Char} (h : ')' ∉ cs) (offset : Nat) :
    (indexed offset cs).dropWhile (·.2 != ')') = [] := by
  have hall : cs.dropWhile (· != ')') = [] :=
    List.dropWhile_eq_nil_iff.2 fun c hc => bne_iff_ne.2 fun heq => h (heq ▸ hc)
  rw [dropWhile_indexed (· != ')'), hall, indexed]

theorem dropWhile_indexed_eq_cons {inner : List Char} (h : ')' ∉ inner) (offset : Nat)
    (after : List Char) :
    (indexed offset (inner ++ ')' :: after)).dropWhile (·.2 != ')') =
      (offset + byteCount inner, ')') :: indexed (offset + byteCount inner + 1) after := by
  have hall : ∀ c ∈ inner, (c != ')') = true := fun c hc => bne_iff_ne.2 fun heq => h (heq ▸ hc)
  rw [dropWhile_indexed (· != ')'), List.takeWhile_append_of_pos hall, List.dropWhile_append_of_pos hall,
    List.takeWhile_cons_of_neg (by decide), List.dropWhile_cons_of_neg (by decide), List.append_nil, indexed]
  rfl

/-! ## Scanning -/

theorem scan_blank (source : List Char) {c : Char} (hc : isBlank c = true) (offset : Nat) (cs : List Char) :
    scan source (indexed offset (c :: cs)) = scan source (indexed (offset + c.utf8Size) cs) := by
  rw [indexed, scan, if_pos hc]

theorem scan_unclosed (source : List Char) {cs : List Char} (h : ')' ∉ cs) (offset : Nat) :
    scan source (indexed offset ('(' :: cs)) = .error (.refused (.unclosedSpecifier offset)) := by
  rw [indexed, scan, if_neg (by decide), if_pos rfl]
  split
  · rfl
  · next hdrop =>
    rw [dropWhile_indexed_eq_nil h] at hdrop
    cases hdrop

theorem scan_specifier {source before inner after : List Char} (h : ')' ∉ inner)
    (hsource : source = before ++ '(' :: (inner ++ ')' :: after)) :
    scan source (indexed (byteCount before) ('(' :: (inner ++ ')' :: after))) =
      (scan source (indexed (byteCount before + byteCount inner + 2) after)).map
        (⟨.specifier (trimChars inner), byteCount before⟩ :: ·) := by
  have hsize : '('.utf8Size = 1 := rfl
  have hbefore : byteCount (before ++ ['(']) = byteCount before + 1 := by
    rw [byteCount_append]
    rfl
  have hsplit : source = before ++ ['('] ++ (inner ++ ')' :: after) := by
    rw [hsource, List.append_assoc]
    rfl
  have hslice := slice_eq_ok hsplit
  rw [hbefore] at hslice
  rw [indexed, scan, if_neg (by decide), if_pos rfl]
  split
  · next hdrop =>
    rw [dropWhile_indexed_eq_cons h] at hdrop
    cases hdrop
  · next hdrop =>
    rw [dropWhile_indexed_eq_cons h, hsize] at hdrop
    cases hdrop
    have hnext : byteCount before + 1 + byteCount inner + 1 = byteCount before + byteCount inner + 2 := by
      omega
    rw [hslice, hnext]
    rfl

theorem scan_name {source before run after : List Char} {c : Char} {rest : List Char}
    (hrun : run = c :: rest.takeWhile isNameChar) (hname : isNameChar c = true)
    (hafter : after = rest.dropWhile isNameChar) (hsource : source = before ++ (run ++ after)) :
    scan source (indexed (byteCount before) (c :: rest)) =
      (scan source (indexed (byteCount before + byteCount run) after)).map
        (⟨.name run, byteCount before⟩ :: ·) := by
  have hparen : c ≠ '(' := by
    rintro rfl
    exact absurd hname (by decide)
  have hindexed : (byteCount before, c) ::
      (indexed (byteCount before + c.utf8Size) rest).takeWhile (isNameChar ·.2) =
        indexed (byteCount before) run := by
    rw [takeWhile_indexed, hrun, indexed]
  rw [indexed, scan, if_neg (by simp [isBlank_of_isNameChar hname]), if_neg hparen, if_pos hname]
  simp only [hindexed, stop_indexed, slice_eq_ok hsource, dropWhile_indexed, ← hafter, Nat.add_assoc,
    ← byteCount_cons, ← hrun]
  rfl

theorem scan_symbol (source : List Char) {c : Char} {lexeme : Lexeme} (hc : Lexeme.ofSymbol? c = some lexeme)
    (offset : Nat) (cs : List Char) :
    scan source (indexed offset (c :: cs)) =
      (scan source (indexed (offset + c.utf8Size) cs)).map (⟨lexeme, offset⟩ :: ·) := by
  obtain ⟨hb, hparen, hname⟩ := Lexeme.kind_of_ofSymbol? hc
  rw [indexed, scan, if_neg (by simp [hb]), if_neg hparen, if_neg (by simp [hname]), hc]

theorem mapError_map (x : Except SignatureError (List Placed)) (f : List Placed → List Placed) :
    (x.map f).mapError Failure.refused = (x.mapError Failure.refused).map f := by
  cases x <;> rfl

/-- What is left of a text is scanned without faults, as it is scanned from its offset. -/
theorem scan_eq {source before cs : List Char} {offset : Nat} (h : source = before ++ cs)
    (hoffset : byteCount before = offset) :
    scan source (indexed offset cs) = (Lexeme.scanFrom offset cs).mapError .refused := by
  fun_induction Lexeme.scanFrom offset cs generalizing before with
  | case1 => rw [indexed, scan]; rfl
  | case2 offset b rest hb ih =>
    rw [scan_blank source hb]
    have hsplit : source = before ++ [b] ++ rest := by simp [h]
    exact ih hsplit (by rw [byteCount_concat, hoffset])
  | case3 offset rest hclose _ =>
    rw [scan_unclosed source (Lexeme.not_mem_of_closeSpecifier? hclose)]
    rfl
  | case4 offset rest inner after hclose _ ih =>
    obtain ⟨hinner, rfl⟩ := Lexeme.eq_of_closeSpecifier? hclose
    subst hoffset
    have hsplit : source = before ++ '(' :: (inner ++ [')']) ++ after := by simp [h]
    have hnext : byteCount (before ++ '(' :: (inner ++ [')'])) = byteCount before + byteCount inner + 2 := by
      rw [byteCount_append, byteCount_parenthesized, Nat.add_assoc]
    rw [scan_specifier hinner h, mapError_map, ih hsplit hnext]
  | case5 offset c rest _ _ hname run =>
    rename_i ih
    subst hoffset
    rw [Lexeme.run_append c rest] at h
    have hsplit : source = before ++ run ++ rest.dropWhile isNameChar := by rw [h, List.append_assoc]
    rw [scan_name rfl hname rfl h, mapError_map, ih hsplit (byteCount_append _ _)]
  | case6 offset c rest _ _ _ lexeme hc ih =>
    have hsplit : source = before ++ [c] ++ rest := by simp [h]
    rw [scan_symbol source hc, mapError_map, ih hsplit (by rw [byteCount_concat, hoffset])]
  | case7 offset c rest hb hparen hname hc =>
    rw [indexed, scan, if_neg hb, if_neg hparen, if_neg hname, hc]
    rfl

end Descent

/-! ## Reading from left to right -/

namespace Reading

/-- The node and the arguments of what is left of a text. -/
def conclude (r : Reading) (rest : List Placed) : Except SignatureError (Node × List Argument) :=
  match r.steps rest with
  | .error e => .error e
  | .ok r' =>
    match r'.finish with
    | .error e => .error e
    | .ok n => .ok (n, r'.arguments)

variable {r r' : Reading} {placed : Placed} {rest : List Placed}

theorem conclude_of_step (h : r.step placed = .ok r') : r.conclude (placed :: rest) = r'.conclude rest := by
  rw [conclude, conclude, steps, h]

theorem conclude_of_refused {e : SignatureError} (h : r.step placed = .error e) :
    r.conclude (placed :: rest) = .error e := by
  rw [conclude, steps, h]

theorem conclude_nil_of_refused {e : SignatureError} (h : r.finish = .error e) :
    r.conclude [] = .error e := by
  simp only [conclude, steps, h]

theorem conclude_nil {n : Node} (h : r.finish = .ok n) : r.conclude [] = .ok (n, r.arguments) := by
  simp only [conclude, steps, h]

/-- After a specifier only a name may come. -/
theorem conclude_of_missingName {specifier : Specifier} {offset : Nat}
    (hpending : r.pending = some (specifier, offset))
    (hrest : ∀ run o rest', rest ≠ ⟨.name run, o⟩ :: rest') :
    r.conclude rest = .error (.missingName offset) := by
  cases rest with
  | nil => exact conclude_nil_of_refused (by simp only [finish, hpending])
  | cons placed rest =>
    obtain ⟨lexeme, o⟩ := placed
    refine conclude_of_refused ?_
    cases lexeme with
    | name run => exact absurd rfl (hrest run o rest)
    | opening b | closing b | operator op | specifier text => simp only [step, hpending]

section
variable (hpending : r.pending = none)
include hpending

theorem step_opening (bracket : Bracket) (offset : Nat) :
    r.step ⟨.opening bracket, offset⟩ = .ok (r.openGroup bracket offset) := by
  simp only [step, hpending]

theorem step_operator (op : Operator) (offset : Nat) :
    r.step ⟨.operator op, offset⟩ = r.addOperator op offset := by
  simp only [step, hpending]

theorem step_closing (bracket : Bracket) (offset : Nat) :
    r.step ⟨.closing bracket, offset⟩ = r.closeGroup bracket offset := by
  simp only [step, hpending]

theorem step_specifier (text : List Char) (offset : Nat) :
    r.step ⟨.specifier text, offset⟩ =
      (Specifier.ofChars text offset).map fun a => { r with pending := some (a, offset) } := by
  simp only [step, hpending]

/-! ### Missing operands -/

variable (hoperand : r.level.operand? = none)
include hoperand

theorem conclude_operator_of_none (op : Operator) (offset : Nat) (rest : List Placed) :
    r.conclude (⟨.operator op, offset⟩ :: rest) =
      .error (r.missingOperand (.danglingOperator op.symbol offset)) := by
  refine conclude_of_refused ?_
  rw [step_operator hpending, addOperator, hoperand]

theorem conclude_closing_of_none (bracket : Bracket) (offset : Nat) (rest : List Placed) :
    r.conclude (⟨.closing bracket, offset⟩ :: rest) =
      .error (r.missingOperand
        (match r.enclosing with
        | [] => .unmatchedClose bracket.closer offset
        | group :: _ => .emptyGroup group.offset)) := by
  refine conclude_of_refused ?_
  rw [step_closing hpending, closeGroup, hoperand]
  cases r.enclosing <;> rfl

theorem conclude_nil_of_none :
    r.conclude [] =
      .error (r.missingOperand
        (match r.enclosing with
        | [] => .emptySignature
        | group :: _ => .emptyGroup group.offset)) := by
  refine conclude_nil_of_refused ?_
  rw [finish, hpending, hoperand]
  cases r.enclosing <;> rfl

end

end Reading

theorem Signature.compile_eq_conclude {source : String} {lexemes : List Placed}
    (h : Lexeme.scan source = .ok lexemes) :
    Signature.compile source = (Reading.conclude {} lexemes).map fun (n, arguments) =>
      ⟨trim source, Group.ofRoot n, arguments, nameTable arguments⟩ := by
  simp only [Signature.compile, h, Reading.conclude]
  cases Reading.steps {} lexemes with
  | error e => rfl
  | ok r =>
    cases hfinish : r.finish with
    | error e => simp only [hfinish, Except.map]
    | ok n => simp only [hfinish, Except.map]

/-! ## Descent and reading -/

namespace Descent

/-- A reading without a specifier that waits, and what is left to read: they have the same arguments, and
reading on gives `whole`. -/
structure At (whole : Except SignatureError (Node × List Argument)) (r : Reading) (s : State) : Prop where
  pending : r.pending = none
  arguments : r.arguments = s.arguments
  conclude : r.conclude s.rest = whole

/-- A call ends in a state as it should, or is refused for the reason for which reading on is. -/
inductive Agrees {α : Type} (whole : Except SignatureError (Node × List Argument)) (ends : α → State → Prop) :
    Except Failure (α × State) → Prop
  | ok {x s} (h : ends x s) : Agrees whole ends (.ok (x, s))
  | refused {e} (h : whole = .error e) : Agrees whole ends (.error (.refused e))

section
variable {α β : Type} {whole : Except SignatureError (Node × List Argument)}

theorem Agrees.bind {ends : α → State → Prop} {ends' : β → State → Prop} {call : Except Failure (α × State)}
    {next : α × State → Except Failure (β × State)} (h : Agrees whole ends call)
    (hnext : ∀ x s, ends x s → Agrees whole ends' (next (x, s))) : Agrees whole ends' (call >>= next) := by
  cases h with
  | ok h => exact hnext _ _ h
  | refused h => exact .refused h

theorem Agrees.mono {ends ends' : α → State → Prop} {call : Except Failure (α × State)}
    (h : Agrees whole ends call) (himp : ∀ x s, ends x s → ends' x s) : Agrees whole ends' call := by
  cases h with
  | ok h => exact .ok (himp _ _ h)
  | refused h => exact .refused h

/-- Where units side by side end: before a closing bracket or an operator, or at the end. -/
inductive Stops : List Placed → Prop
  | nil : Stops []
  | closing (bracket offset rest) : Stops (⟨.closing bracket, offset⟩ :: rest)
  | operator (op offset rest) : Stops (⟨.operator op, offset⟩ :: rest)

/-- A unit has been read: it stands at the end of the level, and less is left to read. -/
def UnitRead (whole : Except SignatureError (Node × List Argument)) (r : Reading) (s : State) (unit : Node)
    (s' : State) : Prop :=
  At whole { r with level := r.level.addUnit unit, arguments := s'.arguments } s' ∧
    s'.rest.length < s.rest.length

/-- All units of an operand have been read. -/
def OperandRead (whole : Except SignatureError (Node × List Argument)) (r : Reading) (s : State)
    (operand? : Option Node) (s' : State) : Prop :=
  ∃ units, At whole { r with level := { r.level with units }, arguments := s'.arguments } s' ∧
    Level.operand? { r.level with units } = operand? ∧ Stops s'.rest ∧ s'.rest.length ≤ s.rest.length

/-- A chain of operands has been read, up to a closing bracket or to the end. -/
def ChainRead (whole : Except SignatureError (Node × List Argument)) (r : Reading) (s : State) (n : Node)
    (s' : State) : Prop :=
  ∃ level operand, At whole { r with level, arguments := s'.arguments } s' ∧
    level.operand? = some operand ∧ level.join operand = n ∧
    (s'.rest = [] ∨ ∃ bracket offset rest, s'.rest = ⟨.closing bracket, offset⟩ :: rest) ∧
    s'.rest.length ≤ s.rest.length

/-- With a number of calls, each function reads what is left as reading from left to right does. A lexeme
takes three calls at most. -/
structure Simulates (calls : Nat) : Prop where
  units : ∀ {whole r s}, At whole r s → 3 * s.rest.length + 1 ≤ calls →
    Agrees whole (OperandRead whole r s) (units calls r.level.units s)
  group : ∀ {whole r s bracket offset rest}, At whole r s → s.rest = ⟨.opening bracket, offset⟩ :: rest →
    3 * s.rest.length ≤ calls → Agrees whole (UnitRead whole r s) (group calls s)
  choice : ∀ {whole r s}, At whole r s → r.level = {} → 3 * s.rest.length + 2 ≤ calls →
    Agrees whole (ChainRead whole r s) (choice calls (r.enclosing.head?.map OpenGroup.offset) s)
  operators : ∀ {whole r s operand}, At whole r s → r.level.operand? = some operand → Stops s.rest →
    3 * s.rest.length + 1 ≤ calls →
    Agrees whole (ChainRead whole r s) (operators calls (r.level.join operand) s)

theorem simulates_zero : Simulates 0 where
  units _ h := absurd h (by omega)
  group _ hs h := absurd h (by rw [hs, List.length_cons]; omega)
  choice _ _ h := absurd h (by omega)
  operators _ _ _ h := absurd h (by omega)

/-! ### Arguments -/

theorem agrees_named {r : Reading} {s : State} {run : List Char} {offset : Nat} {rest : List Placed}
    (hrest : s.rest = ⟨.name run, offset⟩ :: rest) (harguments : r.arguments = s.arguments)
    (hconclude : r.conclude s.rest = whole) :
    Agrees whole
      (fun unit s' => s'.rest = rest ∧
        At whole { r with level := r.level.addUnit unit, arguments := s'.arguments, pending := none } s')
      (named (r.pending.map Prod.fst) s) := by
  cases hmarker : Reading.splitMarker run with
  | mk kind chars =>
    have hstep : r.step ⟨.name run, offset⟩ = r.addArgument run offset := Reading.step_of_name rfl
    rw [hrest] at hconclude
    simp only [Reading.addArgument, hmarker, harguments] at hstep
    simp only [named, hrest, hmarker]
    split
    · next hid =>
      rw [if_pos hid] at hstep
      exact .refused (hconclude ▸ Reading.conclude_of_refused hstep)
    next hid =>
    split
    · next hdeclared =>
      rw [if_neg hid, if_pos hdeclared] at hstep
      exact .refused (hconclude ▸ Reading.conclude_of_refused hstep)
    next hdeclared =>
    rw [if_neg hid, if_neg hdeclared] at hstep
    exact .ok ⟨rfl, rfl, rfl, hconclude ▸ (Reading.conclude_of_step hstep).symm⟩

theorem agrees_leaf_of_name {r : Reading} {s : State} {run : List Char} {offset : Nat} {rest : List Placed}
    (h : At whole r s) (hrest : s.rest = ⟨.name run, offset⟩ :: rest) :
    Agrees whole (UnitRead whole r s) (leaf s) := by
  have hspecifier : specifier? s = .ok (none, s) := by simp only [specifier?, hrest]
  have hnamed := agrees_named hrest h.arguments h.conclude
  rw [h.pending, Option.map_none] at hnamed
  rw [leaf, hspecifier]
  refine hnamed.mono fun unit s' hread => ?_
  obtain ⟨hrest', hat⟩ := hread
  constructor
  · rwa [← h.pending] at hat
  · rw [hrest', hrest, List.length_cons]
    omega

theorem agrees_leaf_of_specifier {r : Reading} {s : State} {text : List Char} {offset : Nat}
    {rest : List Placed} (h : At whole r s) (hrest : s.rest = ⟨.specifier text, offset⟩ :: rest) :
    Agrees whole (UnitRead whole r s) (leaf s) := by
  have hstep := Reading.step_specifier h.pending text offset
  have hconclude := h.conclude
  rw [hrest] at hconclude
  cases hchars : Specifier.ofChars text offset with
  | error e =>
    rw [hchars] at hstep
    have hspecifier : specifier? s = .error (.refused e) := by
      simp only [specifier?, hrest, hchars]
      rfl
    rw [leaf, hspecifier]
    exact .refused (hconclude ▸ Reading.conclude_of_refused hstep)
  | ok specifier =>
    rw [hchars] at hstep
    rw [Reading.conclude_of_step hstep] at hconclude
    by_cases hname : ∃ run o rest', rest = ⟨.name run, o⟩ :: rest'
    · obtain ⟨run, o, rest', rfl⟩ := hname
      have hspecifier : specifier? s = .ok (some specifier, { s with rest := ⟨.name run, o⟩ :: rest' }) := by
        simp only [specifier?, hrest, hchars]
        rfl
      have hnamed := agrees_named (r := { r with pending := some (specifier, offset) })
        (s := { s with rest := ⟨.name run, o⟩ :: rest' }) rfl h.arguments hconclude
      rw [leaf, hspecifier]
      refine hnamed.mono fun unit s' hread => ?_
      obtain ⟨hrest', hat⟩ := hread
      constructor
      · rwa [← h.pending] at hat
      · rw [hrest', hrest, List.length_cons, List.length_cons]
        omega
    · have hother : ∀ run o rest', rest ≠ ⟨.name run, o⟩ :: rest' :=
        fun run o rest' heq => hname ⟨run, o, rest', heq⟩
      have hspecifier : specifier? s = .error (.refused (.missingName offset)) := by
        simp only [specifier?, hrest, hchars]
        rfl
      rw [leaf, hspecifier]
      exact .refused (hconclude ▸ Reading.conclude_of_missingName rfl hother)

/-! ### Units, groups and chains -/

theorem At.self {r : Reading} {s : State} (h : At whole r s) : At whole { r with arguments := s.arguments } s := by
  rw [← h.arguments]
  exact h

variable {calls : Nat} {r : Reading} {s : State}

/-- Units that end here make the operand of the level. -/
theorem operandRead_of_stops (h : At whole r s) (hstops : Stops s.rest) :
    OperandRead whole r s (Level.operand? { units := r.level.units }) s :=
  ⟨r.level.units, h.self, rfl, hstops, le_rfl⟩

/-- After a unit the other units of the operand are read. -/
theorem agrees_units_of_unit (h : Simulates calls) {call : Except Failure (Node × State)}
    (hcall : Agrees whole (UnitRead whole r s) call) (hcalls : 3 * s.rest.length ≤ calls) :
    Agrees whole (OperandRead whole r s)
      (do let (unit, s') ← call; units calls (r.level.units ++ [unit]) s') := by
  refine hcall.bind fun unit s' hread => ?_
  obtain ⟨hat, hlength⟩ := hread
  have hunits := h.units hat (by omega)
  refine hunits.mono fun operand? s'' hread => ?_
  obtain ⟨units, hat', hoperand, hstops, hlength'⟩ := hread
  exact ⟨units, hat', hoperand, hstops, by omega⟩

theorem agrees_units (h : Simulates calls) (hat : At whole r s) (hcalls : 3 * s.rest.length + 1 ≤ calls + 1) :
    Agrees whole (OperandRead whole r s) (units (calls + 1) r.level.units s) := by
  have hless : 3 * s.rest.length ≤ calls := by omega
  rw [units]
  split
  · next hrest => exact agrees_units_of_unit h (h.group hat hrest hless) hless
  · next hrest => exact agrees_units_of_unit h (agrees_leaf_of_specifier hat hrest) hless
  · next hrest => exact agrees_units_of_unit h (agrees_leaf_of_name hat hrest) hless
  · next hopening hspecifier hname =>
    refine .ok (operandRead_of_stops hat ?_)
    cases hrest : s.rest with
    | nil => exact .nil
    | cons placed rest =>
      obtain ⟨lexeme, offset⟩ := placed
      cases lexeme with
      | opening bracket => exact absurd hrest (hopening bracket offset rest)
      | closing bracket => exact .closing bracket offset rest
      | operator op => exact .operator op offset rest
      | specifier text => exact absurd hrest (hspecifier text offset rest)
      | name run => exact absurd hrest (hname run offset rest)

theorem agrees_group (h : Simulates calls) {bracket : Bracket} {offset : Nat} {rest : List Placed}
    (hat : At whole r s) (hrest : s.rest = ⟨.opening bracket, offset⟩ :: rest)
    (hcalls : 3 * s.rest.length ≤ calls + 1) : Agrees whole (UnitRead whole r s) (group (calls + 1) s) := by
  have hlength : s.rest.length = rest.length + 1 := by rw [hrest, List.length_cons]
  have hopened : At whole (r.openGroup bracket offset) { s with rest } := by
    refine ⟨hat.pending, hat.arguments, ?_⟩
    rw [← hat.conclude, hrest]
    exact (Reading.conclude_of_step (Reading.step_opening hat.pending bracket offset)).symm
  have hchoice := h.choice hopened rfl (by show 3 * rest.length + 2 ≤ calls; omega)
  simp only [group, hrest]
  refine hchoice.bind fun inner s' hread => ?_
  obtain ⟨level, operand, hat', hoperand, hjoin, hend, hless⟩ := hread
  have hlength' : s'.rest.length ≤ rest.length := hless
  rcases hend with hnil | ⟨found, offset', rest', hclosing⟩
  · simp only [hnil]
    refine .refused (hat'.conclude ▸ hnil ▸ Reading.conclude_nil_of_refused ?_)
    simp only [Reading.finish, Reading.openGroup, hat.pending, hoperand]
  · have hclose := Reading.step_closing hat'.pending found offset'
    have hconclude := hat'.conclude
    rw [hclosing] at hconclude
    simp only [Reading.closeGroup, Reading.openGroup, hoperand] at hclose
    simp only [hclosing]
    split
    · next hfound =>
      rw [if_pos hfound] at hclose
      subst hfound hjoin
      refine .ok ⟨⟨hat.pending, rfl, (Reading.conclude_of_step hclose).symm.trans hconclude⟩, ?_⟩
      · rw [hclosing, List.length_cons] at hlength'
        show rest'.length < s.rest.length
        omega
    · next hfound =>
      rw [if_neg hfound] at hclose
      exact .refused (hconclude ▸ Reading.conclude_of_refused hclose)

theorem agrees_choice (h : Simulates calls) (hat : At whole r s) (hlevel : r.level = {})
    (hcalls : 3 * s.rest.length + 2 ≤ calls + 1) :
    Agrees whole (ChainRead whole r s)
      (choice (calls + 1) (r.enclosing.head?.map OpenGroup.offset) s) := by
  have hunits := h.units hat (by omega)
  rw [hlevel] at hunits
  rw [choice]
  refine hunits.bind fun operand? s' hread => ?_
  obtain ⟨units, hat', hoperand, hstops, hlength⟩ := hread
  rw [hlevel] at hat' hoperand
  cases operand? with
  | some operand =>
    have hoperators := h.operators hat' hoperand hstops (by omega)
    refine hoperators.mono fun n s'' hread => ?_
    obtain ⟨level, operand', hat'', hop, hjoin, hend, hlength'⟩ := hread
    exact ⟨level, operand', hat'', hop, hjoin, hend, by omega⟩
  | none =>
    -- the operand is missing: what is reported depends on what comes next and on the brackets around
    have hconclude := hat'.conclude
    obtain ⟨rest, arguments⟩ := s'
    cases hstops with
    | nil =>
      rw [Reading.conclude_nil_of_none hat'.pending hoperand] at hconclude
      cases henclosing : r.enclosing with
      | nil => exact .refused (hconclude.symm.trans (by rw [henclosing]; rfl))
      | cons group outer => exact .refused (hconclude.symm.trans (by rw [henclosing]; rfl))
    | closing bracket offset rest =>
      rw [Reading.conclude_closing_of_none hat'.pending hoperand] at hconclude
      cases henclosing : r.enclosing with
      | nil => exact .refused (hconclude.symm.trans (by rw [henclosing]; rfl))
      | cons group outer => exact .refused (hconclude.symm.trans (by rw [henclosing]; rfl))
    | operator op offset rest =>
      rw [Reading.conclude_operator_of_none hat'.pending hoperand] at hconclude
      exact .refused hconclude.symm

theorem agrees_operators (h : Simulates calls) {operand : Node} (hat : At whole r s)
    (hoperand : r.level.operand? = some operand) (hstops : Stops s.rest)
    (hcalls : 3 * s.rest.length + 1 ≤ calls + 1) :
    Agrees whole (ChainRead whole r s) (operators (calls + 1) (r.level.join operand) s) := by
  obtain ⟨rest, arguments⟩ := s
  cases hstops with
  | nil => exact .ok ⟨r.level, operand, hat.self, hoperand, rfl, .inl rfl, le_rfl⟩
  | closing bracket offset rest =>
    exact .ok ⟨r.level, operand, hat.self, hoperand, rfl, .inr ⟨_, _, _, rfl⟩, le_rfl⟩
  | operator op offset rest =>
    have hstep := Reading.step_operator hat.pending op offset
    rw [Reading.addOperator, hoperand] at hstep
    have hnext : At whole { r with level := r.level.addOperator operand op offset } ⟨rest, arguments⟩ :=
      ⟨hat.pending, hat.arguments, (Reading.conclude_of_step hstep).symm.trans hat.conclude⟩
    have hlength : 3 * (rest.length + 1) + 1 ≤ calls + 1 := hcalls
    have hunits := h.units hnext (by show 3 * rest.length + 1 ≤ calls; omega)
    rw [operators]
    refine hunits.bind fun operand? s' hread => ?_
    obtain ⟨units, hat', hoperand', hstops, hless⟩ := hread
    have hlength' : s'.rest.length ≤ rest.length := hless
    cases operand? with
    | some right =>
      have hoperators := h.operators hat' hoperand' hstops (by omega)
      refine hoperators.mono fun n s'' hread => ?_
      obtain ⟨level, operand', hat'', hop, hjoin, hend, hlength''⟩ := hread
      exact ⟨level, operand', hat'', hop, hjoin, hend, by show s''.rest.length ≤ rest.length + 1; omega⟩
    | none =>
      have hconclude := hat'.conclude
      obtain ⟨rest', arguments'⟩ := s'
      cases hstops with
      | nil =>
        rw [Reading.conclude_nil_of_none hat'.pending hoperand'] at hconclude
        exact .refused hconclude.symm
      | closing bracket offset' rest' =>
        rw [Reading.conclude_closing_of_none hat'.pending hoperand'] at hconclude
        exact .refused hconclude.symm
      | operator op' offset' rest' =>
        rw [Reading.conclude_operator_of_none hat'.pending hoperand'] at hconclude
        exact .refused hconclude.symm

theorem simulates (calls : Nat) : Simulates calls := by
  induction calls with
  | zero => exact simulates_zero
  | succ calls ih =>
    exact ⟨agrees_units ih, agrees_group ih, agrees_choice ih, agrees_operators ih⟩

end

/-! ## Compiling -/

/-- Lexemes are read by descent without faults, as they are read from left to right. -/
theorem read_eq (lexemes : List Placed) : read lexemes = (Reading.conclude {} lexemes).mapError .refused := by
  rw [read]
  split
  · next hempty =>
    rw [List.isEmpty_iff.1 hempty]
    rfl
  have hat : At (Reading.conclude {} lexemes) {} ⟨lexemes, []⟩ := ⟨rfl, rfl, rfl⟩
  have hchoice := (simulates _).choice hat rfl le_rfl
  change Agrees _ _ (choice (3 * lexemes.length + 2) none ⟨lexemes, []⟩) at hchoice
  generalize choice (3 * lexemes.length + 2) none ⟨lexemes, []⟩ = call at hchoice
  cases hchoice with
  | refused h =>
    rw [h]
    rfl
  | @ok node s h =>
    obtain ⟨level, operand, hat', hoperand, hjoin, hend, -⟩ := h
    have hconclude := hat'.conclude
    change finish node s = _
    rcases hend with hnil | ⟨bracket, offset, rest, hclosing⟩
    · rw [hnil, Reading.conclude_nil (n := node) (by simp only [Reading.finish, hoperand, hjoin])] at hconclude
      rw [← hconclude, finish, hnil]
      rfl
    · have hclose := Reading.step_closing hat'.pending bracket offset
      simp only [Reading.closeGroup, hoperand] at hclose
      rw [hclosing, Reading.conclude_of_refused hclose] at hconclude
      rw [← hconclude, finish, hclosing]
      rfl

/-- Compiling by descent has no faults: it gives the signature of the text, or refuses it for the first error
in it. -/
theorem compile_eq (source : String) : compile source = (Signature.compile source).mapError .refused := by
  have hscan : scan source.toList (indexed 0 source.toList) = (Lexeme.scan source).mapError .refused :=
    scan_eq (List.nil_append source.toList).symm rfl
  rw [compile, hscan]
  cases hlexemes : Lexeme.scan source with
  | error e =>
    rw [Signature.compile, hlexemes]
    rfl
  | ok lexemes =>
    rw [Signature.compile_eq_conclude hlexemes]
    change (do let (node, arguments) ← read lexemes; _) = _
    rw [read_eq]
    cases Reading.conclude {} lexemes with
    | error e => rfl
    | ok found => rfl

end Descent

end Invocation

import Lehce.Proofs.Program.Ahead
import Lehce.Proofs.Program.Bare
import Lehce.Proofs.Program.Writing
import Lehce.Proofs.Value.Gathering

/-!
# Written expressions are read back

The readers of expressions return what was written. `ReadsOperand`, `ReadsUnary`
and `ReadsChain` say what the reader of an operand, of an operand with its unary
operators and of a whole expression make of the tokens of a tree; the first leaves
the suffixes after the tokens to be read, the last the operators after them. Every
written tree is read so (`Node.IsWritten.reads`), by induction on how it is written:
its outermost operator has at least the level that its place demands, and the token
after it no operator that would take it apart.

A reader needs some depth: eight for each token are enough.
-/

namespace Lehce

open Token (Kind)

namespace Token.Kind

/-- Whether a token after a symbol does not make it the first part of a dotted name. -/
def isNoDot (kind : Kind) : Bool := !(kind matches Kind.operator Operator.dot)

/-- Whether a token goes on with the operand before it. -/
def isSuffix : Kind → Bool
  | .operator .leftParenthesis | .operator .leftBracket | .operator .increment
  | .operator .decrement | .operator .dot => true
  | _ => false

/-- Whether a token ends an expression whose operators have at least a level. -/
def stops (least : Nat) (kind : Kind) : Bool :=
  !kind.isSuffix && match kind.dyadic? with
    | some dyadic => decide (dyadic.level < least)
    | none => true

variable {kind : Kind} {least : Nat}

theorem stops_mono {more : Nat} (fewer : least ≤ more) (stops : kind.stops least = true) :
    kind.stops more = true := by
  unfold Kind.stops at stops ⊢
  cases marks : kind.dyadic? with
  | none => simpa [marks] using stops
  | some dyadic =>
      simp only [marks, Bool.and_eq_true, decide_eq_true_eq] at stops ⊢
      exact ⟨stops.1, by omega⟩

theorem level_of_dyadic {dyadic : Dyadic} (marks : kind.dyadic? = some dyadic) :
    dyadic.level < 6 := by
  unfold dyadic? at marks
  split at marks <;> cases marks <;> decide

/-- No operator has the level of those before an operand. -/
theorem stops_six (stops : kind.stops least = true) : kind.stops 6 = true := by
  unfold Kind.stops at stops ⊢
  cases marks : kind.dyadic? with
  | none => simpa [marks] using stops
  | some dyadic =>
      simp only [marks, Bool.and_eq_true, decide_eq_true_eq] at stops ⊢
      exact ⟨stops.1, level_of_dyadic marks⟩

/-- An operator ends the operand on its left, and all operators above its level. -/
theorem stops_of_dyadic {dyadic : Dyadic} (marks : kind.dyadic? = some dyadic) :
    kind.stops (dyadic.level + 1) = true := by
  have noSuffix : kind.isSuffix = false := by
    unfold dyadic? at marks
    split at marks <;> first | rfl | cases marks
  simp [stops, marks, noSuffix]

/-- Only the marks `++` and `--` step a variable. -/
theorem step_of_unary {op : Op} (marks : kind.unary? = some op) (steps : op.isStep = true) :
    kind = Kind.operator .increment ∧ op = .increment ∨
      kind = Kind.operator .decrement ∧ op = .decrement := by
  unfold unary? at marks
  split at marks <;> cases marks <;>
    first | exact .inl ⟨rfl, rfl⟩ | exact .inr ⟨rfl, rfl⟩ | cases steps

theorem isNoDot_of_stops (stops : kind.stops least = true) : kind.isNoDot = true := by
  cases kind with
  | operator mark => cases mark <;> first | rfl | cases stops
  | _ => rfl

end Token.Kind

/-- A reading that gives a node, as one that may give none. -/
def someRead (read : Node × Stream) : Option Node × Stream := (some read.1, read.2)

/-- Tokens are read as an operand up to the suffixes that follow them. -/
def Node.ReadsOperand (node : Node) (kinds : List Kind) : Prop :=
  ∀ ⦃depth : Nat⦄ ⦃bracketed : Bool⦄ ⦃more : List Kind⦄ ⦃tail : List Token⦄ ⦃indent : Int⦄
    ⦃stream : Stream⦄, stream.Holds (kinds ++ more) tail indent →
    Stream.NextIs bracketed Kind.isNoDot more tail → 8 * kinds.length ≤ depth + 1 →
    ∃ result left rest, result.bare = node.bare ∧ rest.Holds more tail indent ∧
      depth + 7 ≤ left + 8 * kinds.length ∧
      readUnary depth bracketed stream = (readSuffixes left bracketed result rest).map someRead

/-- Tokens are read as an operand with its unary operators. -/
def Node.ReadsUnary (node : Node) (kinds : List Kind) : Prop :=
  ∀ ⦃depth : Nat⦄ ⦃bracketed : Bool⦄ ⦃more : List Kind⦄ ⦃tail : List Token⦄ ⦃indent : Int⦄
    ⦃stream : Stream⦄, stream.Holds (kinds ++ more) tail indent →
    Stream.NextIs bracketed (Kind.stops 6) more tail → 8 * kinds.length ≤ depth + 1 →
    ∃ result rest, result.bare = node.bare ∧ rest.Holds more tail indent ∧
      readUnary depth bracketed stream = .ok (some result, rest)

/-- Tokens are read as an expression up to the operators that follow them. -/
def Node.ReadsChain (least : Nat) (node : Node) (kinds : List Kind) : Prop :=
  ∀ ⦃depth : Nat⦄ ⦃bracketed : Bool⦄ ⦃floor : Nat⦄ ⦃more : List Kind⦄ ⦃tail : List Token⦄
    ⦃indent : Int⦄ ⦃stream : Stream⦄, stream.Holds (kinds ++ more) tail indent → floor ≤ least →
    Stream.NextIs bracketed (Kind.stops (least + 1)) more tail → 8 * kinds.length ≤ depth →
    ∃ result left rest, result.bare = node.bare ∧ rest.Holds more tail indent ∧
      depth + 1 ≤ left + 8 * kinds.length ∧
      readExpression depth bracketed floor stream =
        (readOperators left bracketed floor result rest).map someRead

/-- Tokens are read as an expression whose operators have at least a level. -/
def Node.ReadsWhole (floor : Nat) (node : Node) (kinds : List Kind) : Prop :=
  ∀ ⦃depth : Nat⦄ ⦃bracketed : Bool⦄ ⦃more : List Kind⦄ ⦃tail : List Token⦄ ⦃indent : Int⦄
    ⦃stream : Stream⦄, stream.Holds (kinds ++ more) tail indent →
    Stream.NextIs bracketed (Kind.stops floor) more tail → 8 * kinds.length ≤ depth →
    ∃ result rest, result.bare = node.bare ∧ rest.Holds more tail indent ∧
      readExpression depth bracketed floor stream = .ok (some result, rest)

/-- A mark that opens no expression is not accepted where one starts. -/
theorem Stream.Holds.accept_none_of_opens {stream : Stream} {kinds more : List Kind}
    {tail : List Token} {indent : Int} {mark : Operator}
    (holds : stream.Holds (kinds ++ more) tail indent) (opens : Token.Kind.Opens kinds)
    (closes : Kind.opens (.operator mark) = false) : stream.accept? true mark = none := by
  rcases opens with ⟨kind, rest, rfl, opens⟩
  refine holds.accept_none true fun isMark => ?_
  rw [isMark, closes] at opens
  cases opens

section Ends

variable {depth : Nat} {bracketed : Bool} {least : Nat} {node : Node} {stream : Stream}
  {kinds : List Kind} {tail : List Token} {indent : Int}

/-- Nothing is read after an operand whose line goes on with no suffix. -/
theorem readSuffixes_of_stops (holds : stream.Holds kinds tail indent)
    (next : Stream.NextIs bracketed (Kind.stops least) kinds tail) :
    readSuffixes (depth + 1) bracketed node stream = .ok (node, stream) := by
  rw [readSuffixes]
  split
  · rfl
  · rename_i token after found
    rcases holds.nextIs next token after found with stops | ⟨width, isNewline⟩
    · unfold Token.Kind.stops at stops
      split <;> simp_all [Token.Kind.isSuffix]
    · simp [isNewline]

/-- Nothing is read after an expression whose line goes on with no operator of its level. -/
theorem readOperators_of_stops (holds : stream.Holds kinds tail indent)
    (next : Stream.NextIs bracketed (Kind.stops least) kinds tail) :
    readOperators (depth + 1) bracketed least node stream = .ok (node, stream) := by
  rw [readOperators]
  split
  · rfl
  · rename_i token after found
    rcases holds.nextIs next token after found with stops | ⟨width, isNewline⟩
    · unfold Token.Kind.stops at stops
      cases marks : token.kind.dyadic? with
      | none => rfl
      | some dyadic =>
          simp only [marks, Bool.and_eq_true, decide_eq_true_eq] at stops
          simp [stops.2]
    · simp [isNewline, Token.Kind.dyadic?]

end Ends

namespace Node

variable {node : Node} {kinds : List Kind} {least floor : Nat}

theorem ReadsOperand.unary (reads : node.ReadsOperand kinds) : node.ReadsUnary kinds := by
  intro depth bracketed more tail indent stream holds next enough
  rcases reads holds (next.mono fun _ => Token.Kind.isNoDot_of_stops) enough with
    ⟨result, left, rest, same, holds, deep, read⟩
  rcases left with _ | left
  · omega
  · refine ⟨result, rest, same, holds, ?_⟩
    rw [read, readSuffixes_of_stops holds next]
    rfl

theorem ReadsUnary.chain (reads : node.ReadsUnary kinds) (nonempty : 0 < kinds.length) :
    node.ReadsChain least kinds := by
  intro depth bracketed floor more tail indent stream holds _ next enough
  rcases depth with _ | depth
  · omega
  · rcases reads holds (next.mono fun _ => Token.Kind.stops_six)
        (show 8 * kinds.length ≤ depth + 1 from enough) with
      ⟨result, rest, same, holds, read⟩
    refine ⟨result, depth, rest, same, holds, by omega, ?_⟩
    rw [readExpression]
    simp only [read, bind, Except.bind]
    rfl

theorem ReadsChain.whole (reads : node.ReadsChain least kinds) (bounded : floor ≤ least) :
    node.ReadsWhole floor kinds := by
  intro depth bracketed more tail indent stream holds next enough
  have later := next.mono fun _ => Token.Kind.stops_mono (Nat.le_succ_of_le bounded)
  rcases reads holds bounded later enough with ⟨result, left, rest, same, holds, deep, read⟩
  rcases left with _ | left
  · omega
  · refine ⟨result, rest, same, holds, ?_⟩
    rw [read, readOperators_of_stops holds next]
    rfl

/-- An expression between brackets is read up to the mark behind it. -/
theorem ReadsWhole.inside (reads : node.ReadsWhole 0 kinds) {mark : Operator} {depth : Nat}
    {more : List Kind} {tail : List Token} {indent : Int} {stream : Stream}
    (holds : stream.Holds (kinds ++ .operator mark :: more) tail indent)
    (stops : Kind.stops 0 (.operator mark) = true) (enough : 8 * kinds.length ≤ depth) :
    ∃ result rest, result.bare = node.bare ∧ rest.Holds (.operator mark :: more) tail indent ∧
      readExpression depth true 0 stream = .ok (some result, rest) :=
  reads holds stops enough

/-- An operand that starts with a token of its own is read up to its suffixes. -/
theorem readsOperand_of_primary {kind : Kind} (noUnary : kind.unary? = none)
    (primary : ∀ ⦃depth : Nat⦄ ⦃bracketed : Bool⦄ ⦃more : List Kind⦄ ⦃tail : List Token⦄
      ⦃indent : Int⦄ ⦃token : Token⦄ ⦃after : Stream⦄, token.kind = kind →
      after.Holds (kinds ++ more) tail indent → Stream.NextIs bracketed Kind.isNoDot more tail →
      8 * kinds.length ≤ depth → ∃ result rest, result.bare = node.bare ∧
        rest.Holds more tail indent ∧
        readPrimary (depth + 1) bracketed token after = .ok (some (result, rest))) :
    node.ReadsOperand (kind :: kinds) := by
  intro depth bracketed more tail indent stream holds next enough
  rcases holds.next bracketed with ⟨token, after, found, isKind, holds⟩
  simp only [List.length_cons] at enough ⊢
  rcases depth with _ | _ | depth
  · omega
  · omega
  · rcases primary isKind holds next (show 8 * kinds.length ≤ depth by omega) with
      ⟨result, rest, same, holds, read⟩
    refine ⟨result, depth + 1, rest, same, holds, by omega, ?_⟩
    rw [readUnary]
    simp only [found, isKind, noUnary, read, bind, Except.bind]
    rfl

theorem readsOperand_literal {kind : Kind} {position : Position} {value : Datum}
    (denotes : kind.datum? = some value) : (literal position value).ReadsOperand [kind] := by
  have noUnary : kind.unary? = none := by
    unfold Token.Kind.datum? at denotes
    split at denotes <;> first | rfl | cases denotes
  refine readsOperand_of_primary noUnary fun _ _ _ _ _ token after isKind holds _ _ => ?_
  refine ⟨.literal token.position value, after, by simp [bare], holds, ?_⟩
  subst isKind
  rw [readPrimary]
  unfold Token.Kind.datum? at denotes
  split at denotes <;> cases denotes <;> simp_all

theorem readsOperand_symbol (position : Position) (name : String) :
    (symbol position name).ReadsOperand [.symbol name] := by
  refine readsOperand_of_primary rfl fun _ bracketed _ _ _ token after isKind holds next _ => ?_
  refine ⟨.symbol token.position name, after, by simp [bare], holds, ?_⟩
  have refused : Kind.isNoDot (.operator .dot) = false := rfl
  have noDot := holds.accept_none_of_nextIs next refused
  rw [readPrimary]
  simp only [isKind, symbolOrPath, Stream.isAt, noDot]
  rfl

/-- The parts of a dotted name are read back. -/
theorem dottedParts_written (others : List String) {depth : Nat} {bracketed : Bool}
    {parts : List String} {more : List Kind} {tail : List Token} {indent : Int} {stream : Stream}
    (holds : stream.Holds (dotted others ++ more) tail indent)
    (next : Stream.NextIs bracketed Kind.isNoDot more tail) (enough : others.length < depth) :
    ∃ rest, rest.Holds more tail indent ∧
      dottedParts bracketed depth parts stream = .ok (parts.reverse ++ others, rest) := by
  induction others generalizing depth parts stream with
  | nil =>
      rcases depth with _ | depth
      · omega
      · refine ⟨stream, holds, ?_⟩
        have refused : Kind.isNoDot (.operator .dot) = false := rfl
        have noDot := holds.accept_none_of_nextIs next refused
        simp [dottedParts, noDot]
  | cons part others ih =>
      rcases depth with _ | depth
      · omega
      · simp only [List.length_cons] at enough
        rcases holds.accept bracketed with ⟨afterDot, accepted, holds⟩
        rcases holds.next bracketed with ⟨⟨line, start, stop, kind⟩, after, found, isKind, holds⟩
        simp only at isKind
        subst isKind
        have shorter : others.length < depth := by omega
        rcases @ih depth (part :: parts) after holds shorter with ⟨rest, holds, read⟩
        refine ⟨rest, holds, ?_⟩
        rw [dottedParts]
        simp [accepted, found, read]

theorem readsOperand_path {position : Position} {first : String} {others : List String}
    (dots : others ≠ []) :
    (path position (first :: others)).ReadsOperand (.symbol first :: dotted others) := by
  refine readsOperand_of_primary rfl
    fun depth bracketed _ _ _ token after isKind holds next deep => ?_
  have fewer : others.length < depth := by
    have positive := List.length_pos_iff.2 dots
    rw [length_dotted] at deep
    omega
  rcases @dottedParts_written others depth bracketed [first] _ _ _ after holds next fewer with
    ⟨rest, ahead, read⟩
  refine ⟨.path token.position (first :: others), rest, by simp [bare], ahead, ?_⟩
  have dot : after.isAt bracketed .dot = true := by
    rcases others with _ | ⟨part, others⟩
    · exact absurd rfl dots
    · rcases holds.accept bracketed with ⟨afterDot, accepted, -⟩
      simp [Stream.isAt, accepted]
  rw [readPrimary]
  simp [isKind, symbolOrPath, dot, read, bind, Except.bind]
  rfl

/-- What stands between parentheses is read as one operand. -/
theorem readsOperand_group (reads : node.ReadsWhole 0 kinds) :
    node.ReadsOperand (parenthesized kinds) := by
  refine readsOperand_of_primary rfl fun depth _ more _ _ token after isKind holds _ deep => ?_
  simp only [List.append_assoc, List.cons_append, List.nil_append] at holds
  simp only [List.length_append, List.length_singleton] at deep
  have enough : 8 * kinds.length ≤ depth := by omega
  rcases reads.inside holds rfl enough with ⟨result, rest, same, holds, read⟩
  rcases holds.accept true with ⟨closed, accepted, holds⟩
  refine ⟨result, closed, same, holds, ?_⟩
  rw [readPrimary]
  simp [isKind, read, accepted, bind, Except.bind]
  rfl

/-- The items of a list are read up to its closing bracket. -/
theorem readItems_written {items : List (Node × List Kind)} (nonempty : items ≠ [])
    (reads : ∀ item ∈ items, item.1.ReadsWhole 0 item.2) {depth : Nat} {before : List Node}
    {more : List Kind} {tail : List Token} {indent : Int} {stream : Stream}
    (holds : stream.Holds
      (commaSeparated (items.map (·.2)) ++ .operator .rightBracket :: more) tail indent)
    (enough : 8 * (commaSeparated (items.map (·.2))).length < depth) :
    ∃ nodes rest, nodes.map bare = items.map (fun item => item.1.bare) ∧
      rest.Holds more tail indent ∧
      readItems depth before stream = .ok (before.reverse ++ nodes, rest) := by
  induction items generalizing depth before stream with
  | nil => exact absurd rfl nonempty
  | cons item items ih =>
      rcases depth with _ | depth
      · omega
      rw [readItems]
      rcases items with _ | ⟨next, items⟩
      · simp only [List.map_cons, List.map_nil, commaSeparated_singleton] at holds enough
        rcases (reads item List.mem_cons_self).inside holds rfl (Nat.le_of_lt_succ enough) with
          ⟨result, rest, same, holds, read⟩
        rcases holds.accept true with ⟨closed, accepted, holds⟩
        refine ⟨[result], closed, by simp [same], holds, ?_⟩
        simp [read, accepted, bind, Except.bind]
        rfl
      · simp only [List.map_cons, commaSeparated_cons_cons, List.append_assoc, List.cons_append,
          List.length_append, List.length_cons] at holds enough
        have shallow : 8 * item.2.length ≤ depth := by omega
        rcases (reads item List.mem_cons_self).inside holds rfl shallow with
          ⟨result, rest, same, holds, read⟩
        have notClosed : rest.accept? true .rightBracket = none := holds.accept_none true (by simp)
        rcases holds.accept true with ⟨afterComma, accepted, holds⟩
        rcases @ih (by simp) (fun item member => reads item (List.mem_cons_of_mem _ member)) depth
            (result :: before) afterComma holds (by simp; omega) with
          ⟨nodes, last, sames, holds, more⟩
        refine ⟨result :: nodes, last, by simp [same, sames], holds, ?_⟩
        simp [read, notClosed, accepted, more, bind, Except.bind]

theorem readsOperand_list {position : Position} {items : List (Node × List Kind)}
    (reads : ∀ item ∈ items, item.1.ReadsWhole 0 item.2)
    (opens : ∀ item ∈ items, Token.Kind.Opens item.2) :
    (list position (items.map (·.1))).ReadsOperand
      (Lehce.bracketed (commaSeparated (items.map (·.2)))) := by
  refine readsOperand_of_primary rfl fun depth _ _ _ _ token after isKind holds _ deep => ?_
  simp only [List.append_assoc, List.cons_append, List.nil_append] at holds
  simp only [List.length_append, List.length_singleton] at deep
  rw [readPrimary]
  rcases eq_or_ne items [] with rfl | nonempty
  · rcases holds.accept true with ⟨closed, accepted, holds⟩
    refine ⟨.list token.position [], closed, by simp [bare], holds, ?_⟩
    simp [isKind, accepted]
  · have notClosed : after.accept? true .rightBracket = none :=
      holds.accept_none_of_opens
        (opens_commaSeparated (by simpa using nonempty) (List.forall_mem_map.2 opens)) rfl
    rcases @readItems_written items nonempty reads depth [] _ _ _ after holds (by omega) with
      ⟨nodes, rest, sames, holds, read⟩
    refine ⟨.list token.position nodes, rest, by simp [bare, sames], holds, ?_⟩
    simp [isKind, notClosed, read, bind, Except.bind]
    rfl

/-- The entries of a dictionary are read up to its closing brace. -/
theorem readEntries_written {written : List WrittenEntry} (nonempty : written ≠ [])
    (reads : ∀ entry ∈ written, entry.value.ReadsWhole 0 entry.kinds) {depth : Nat}
    {before : List (String × Node)} {more : List Kind} {tail : List Token} {indent : Int}
    {stream : Stream}
    (holds : stream.Holds
      (commaSeparated (written.map WrittenEntry.all) ++ .operator .rightBrace :: more) tail indent)
    (enough : 8 * (commaSeparated (written.map WrittenEntry.all)).length < depth) :
    ∃ entries rest, entries.map (fun entry => (entry.1, entry.2.bare)) =
        written.map (fun entry => (entry.key, entry.value.bare)) ∧
      rest.Holds more tail indent ∧
      readEntries depth before stream = .ok (before.reverse ++ entries, rest) := by
  induction written generalizing depth before stream with
  | nil => exact absurd rfl nonempty
  | cons entry written ih =>
      rcases depth with _ | depth
      · omega
      rw [readEntries]
      rcases written with _ | ⟨next, written⟩
      · simp only [List.map_cons, List.map_nil, commaSeparated_singleton, WrittenEntry.all,
          List.cons_append, List.length_cons] at holds enough
        rcases holds.next true with ⟨token, afterKey, found, isKey, holds⟩
        rcases holds.accept true with ⟨afterColon, colon, holds⟩
        have shallow : 8 * entry.kinds.length ≤ depth := by omega
        rcases (reads entry List.mem_cons_self).inside holds rfl shallow with
          ⟨result, rest, same, holds, read⟩
        rcases holds.accept true with ⟨closed, accepted, holds⟩
        refine ⟨[(entry.key, result)], closed, by simp [same], holds, ?_⟩
        simp [found, isKey, colon, read, accepted, bind, Except.bind]
        rfl
      · simp only [List.map_cons, commaSeparated_cons_cons, WrittenEntry.all, List.append_assoc,
          List.cons_append, List.length_append, List.length_cons] at holds enough
        rcases holds.next true with ⟨token, afterKey, found, isKey, holds⟩
        rcases holds.accept true with ⟨afterColon, colon, holds⟩
        have shallow : 8 * entry.kinds.length ≤ depth := by omega
        rcases (reads entry List.mem_cons_self).inside holds rfl shallow with
          ⟨result, rest, same, holds, read⟩
        have notClosed : rest.accept? true .rightBrace = none := holds.accept_none true (by simp)
        rcases holds.accept true with ⟨afterComma, accepted, holds⟩
        rcases @ih (by simp) (fun entry member => reads entry (List.mem_cons_of_mem _ member)) depth
          ((entry.key, result) :: before) afterComma holds (by simp [WrittenEntry.all]; omega) with
          ⟨entries, last, sames, holds, more⟩
        refine ⟨(entry.key, result) :: entries, last, by simp [same, sames], holds, ?_⟩
        simp [found, isKey, colon, read, notClosed, accepted, more, bind, Except.bind]

theorem readsOperand_dict {position : Position} {written : List WrittenEntry}
    (distinct : (written.map (·.key)).Nodup)
    (reads : ∀ entry ∈ written, entry.value.ReadsWhole 0 entry.kinds) :
    (dict position (written.map fun entry => (entry.key, entry.value))).ReadsOperand
      (braced (commaSeparated (written.map WrittenEntry.all))) := by
  refine readsOperand_of_primary rfl fun depth _ _ _ _ token after isKind holds _ deep => ?_
  simp only [List.append_assoc, List.cons_append, List.nil_append] at holds
  simp only [List.length_append, List.length_singleton] at deep
  rw [readPrimary]
  rcases eq_or_ne written [] with rfl | nonempty
  · rcases holds.accept true with ⟨closed, accepted, holds⟩
    refine ⟨.dict token.position [], closed, by simp [bare], holds, ?_⟩
    simp [isKind, accepted]
  · have opens : ∀ entry ∈ written, Token.Kind.Opens entry.all := fun _ _ => ⟨_, _, rfl, rfl⟩
    have notClosed : after.accept? true .rightBrace = none :=
      holds.accept_none_of_opens
        (opens_commaSeparated (by simpa using nonempty) (List.forall_mem_map.2 opens)) rfl
    rcases @readEntries_written written nonempty reads depth [] _ _ _ after holds (by omega) with
      ⟨entries, rest, sames, holds, read⟩
    have sameKeys : entries.map (·.1) = written.map (·.key) := by
      have mapped := congrArg (List.map (·.1)) sames
      rw [List.map_map, List.map_map] at mapped
      exact mapped
    have kept := Dict.ofList_of_nodup (sameKeys ▸ distinct)
    refine ⟨.dict token.position (Dict.ofList entries).entries, rest, ?_, holds, ?_⟩
    · simp [bare, kept, sames]
    · simp [isKind, notClosed, read, bind, Except.bind]
      rfl

/-- The arguments of a call are read up to its closing parenthesis. -/
theorem readMoreArguments_written {args : List (Node × List Kind)} (nonempty : args ≠ [])
    (reads : ∀ arg ∈ args, arg.1.ReadsWhole 0 arg.2)
    (opens : ∀ arg ∈ args, Token.Kind.Opens arg.2) {depth : Nat} {before : List Node}
    {more : List Kind} {tail : List Token} {indent : Int} {stream : Stream}
    (holds : stream.Holds
      (commaSeparated (args.map (·.2)) ++ .operator .rightParenthesis :: more) tail indent)
    (enough : 8 * (commaSeparated (args.map (·.2))).length < depth) :
    ∃ nodes rest, nodes.map bare = args.map (fun arg => arg.1.bare) ∧
      rest.Holds more tail indent ∧
      readMoreArguments depth before stream = .ok (before.reverse ++ nodes, rest) := by
  induction args generalizing depth before stream with
  | nil => exact absurd rfl nonempty
  | cons arg args ih =>
      rcases depth with _ | depth
      · omega
      have noComma : stream.accept? true .comma = none :=
        holds.accept_none_of_opens
          (opens_commaSeparated (by simp) (List.forall_mem_map.2 opens)) rfl
      rw [readMoreArguments]
      rcases args with _ | ⟨next, args⟩
      · simp only [List.map_cons, List.map_nil, commaSeparated_singleton] at holds enough
        rcases (reads arg List.mem_cons_self).inside holds rfl (Nat.le_of_lt_succ enough) with
          ⟨result, rest, same, holds, read⟩
        rcases holds.accept true with ⟨closed, accepted, holds⟩
        refine ⟨[result], closed, by simp [same], holds, ?_⟩
        simp [Stream.isAt, noComma, read, accepted, bind, Except.bind]
        rfl
      · simp only [List.map_cons, commaSeparated_cons_cons, List.append_assoc, List.cons_append,
          List.length_append, List.length_cons] at holds enough
        have shallow : 8 * arg.2.length ≤ depth := by omega
        rcases (reads arg List.mem_cons_self).inside holds rfl shallow with
          ⟨result, rest, same, holds, read⟩
        have notClosed : rest.accept? true .rightParenthesis = none :=
          holds.accept_none true (by simp)
        rcases holds.accept true with ⟨afterComma, accepted, holds⟩
        rcases @ih (by simp) (fun arg member => reads arg (List.mem_cons_of_mem _ member))
          (fun arg member => opens arg (List.mem_cons_of_mem _ member)) depth
            (result :: before) afterComma holds (by simp; omega) with
          ⟨nodes, last, sames, holds, more⟩
        refine ⟨result :: nodes, last, by simp [same, sames], holds, ?_⟩
        simp [Stream.isAt, noComma, read, notClosed, accepted, more, bind, Except.bind]

/-- The arguments of a call are read after its opening parenthesis. -/
theorem readArguments_written {args : List (Node × List Kind)}
    (reads : ∀ arg ∈ args, arg.1.ReadsWhole 0 arg.2)
    (opens : ∀ arg ∈ args, Token.Kind.Opens arg.2) {depth : Nat}
    {more : List Kind} {tail : List Token} {indent : Int} {stream : Stream}
    (holds : stream.Holds
      (commaSeparated (args.map (·.2)) ++ .operator .rightParenthesis :: more) tail indent)
    (enough : 8 * (commaSeparated (args.map (·.2))).length + 1 < depth) :
    ∃ nodes rest, nodes.map bare = args.map (fun arg => arg.1.bare) ∧
      rest.Holds more tail indent ∧ readArguments depth stream = .ok (nodes, rest) := by
  rcases depth with _ | depth
  · omega
  rw [readArguments]
  rcases eq_or_ne args [] with rfl | nonempty
  · rcases holds.accept true with ⟨closed, accepted, holds⟩
    exact ⟨[], closed, rfl, holds, by simp [accepted]⟩
  · have notClosed : stream.accept? true .rightParenthesis = none :=
      holds.accept_none_of_opens
        (opens_commaSeparated (by simpa using nonempty) (List.forall_mem_map.2 opens)) rfl
    rcases @readMoreArguments_written args nonempty reads opens depth [] _ _ _ stream holds
      (by omega) with ⟨nodes, rest, sames, holds, read⟩
    exact ⟨nodes, rest, sames, holds, by simpa [notClosed] using read⟩

/-- A suffix that can be read leaves the suffixes after it to be read. -/
theorem readsOperand_of_suffix {body : Node} {bodyKinds : List Kind} {mark : Operator}
    {others : List Kind} (reads : body.ReadsOperand bodyKinds) (noDot : mark ≠ .dot)
    (suffix : ∀ ⦃depth : Nat⦄ ⦃bracketed : Bool⦄ ⦃more : List Kind⦄ ⦃tail : List Token⦄
      ⦃indent : Int⦄ ⦃result : Node⦄ ⦃stream : Stream⦄, result.bare = body.bare →
      stream.Holds (.operator mark :: (others ++ more)) tail indent → 8 * others.length ≤ depth →
      ∃ longer rest, longer.bare = node.bare ∧ rest.Holds more tail indent ∧
        readSuffixes (depth + 1) bracketed result stream =
          readSuffixes depth bracketed longer rest) :
    node.ReadsOperand (bodyKinds ++ .operator mark :: others) := by
  intro depth bracketed more tail indent stream holds _ enough
  simp only [List.append_assoc, List.cons_append, List.length_append, List.length_cons]
    at holds enough ⊢
  have next : Stream.NextIs bracketed Kind.isNoDot (.operator mark :: (others ++ more)) tail := by
    cases mark <;> first | rfl | exact absurd rfl noDot
  have ample : 8 * bodyKinds.length ≤ depth + 1 := by omega
  rcases reads holds next ample with ⟨result, left, rest, same, holds, deep, read⟩
  rcases left with _ | left
  · omega
  · rcases @suffix left bracketed _ _ _ _ _ same holds (by omega) with
      ⟨longer, last, sames, holds, goes⟩
    exact ⟨longer, left, last, sames, holds, by omega, read.trans (by rw [goes])⟩

theorem readsOperand_call {position : Position} {callee : Node} {calleeKinds : List Kind}
    {args : List (Node × List Kind)} (named : callee.IsName)
    (calleeReads : callee.ReadsOperand calleeKinds)
    (reads : ∀ arg ∈ args, arg.1.ReadsWhole 0 arg.2)
    (opens : ∀ arg ∈ args, Token.Kind.Opens arg.2) :
    (call position callee (args.map (·.1)) true).ReadsOperand
      (calleeKinds ++ parenthesized (commaSeparated (args.map (·.2)))) := by
  refine readsOperand_of_suffix calleeReads (by simp) ?_
  intro depth bracketed more tail indent result stream same holds enough
  simp only [List.length_append, List.length_singleton, List.append_assoc, List.cons_append,
    List.nil_append] at enough holds
  rcases holds.next bracketed with ⟨token, after, found, isMark, holds⟩
  rcases @readArguments_written args reads opens depth _ _ _ after holds (by omega) with
    ⟨nodes, rest, sames, holds, read⟩
  refine ⟨.call result.position result nodes true, rest, by simp [bare, same, sames], holds, ?_⟩
  rw [readSuffixes]
  cases named with
  | symbol position name =>
      rcases eq_symbol_of_bare same with ⟨position, rfl⟩
      simp [found, isMark, read, bind, Except.bind]
  | path position parts =>
      rcases eq_path_of_bare same with ⟨position, rfl⟩
      simp [found, isMark, read, bind, Except.bind]

theorem readsOperand_index {position : Position} {body key : Node}
    {bodyKinds keyKinds : List Kind} (bodyReads : body.ReadsOperand bodyKinds)
    (keyReads : key.ReadsWhole 0 keyKinds) :
    (index position body key).ReadsOperand (bodyKinds ++ Lehce.bracketed keyKinds) := by
  refine readsOperand_of_suffix bodyReads (by simp) ?_
  intro depth bracketed more tail indent result stream same holds enough
  simp only [List.length_append, List.length_singleton, List.append_assoc, List.cons_append,
    List.nil_append] at enough holds
  rcases holds.next bracketed with ⟨token, after, found, isMark, holds⟩
  have shallow : 8 * keyKinds.length ≤ depth := by omega
  rcases keyReads.inside holds rfl shallow with ⟨keyResult, rest, keySame, holds, read⟩
  rcases holds.accept true with ⟨closed, accepted, holds⟩
  refine ⟨.index result.position result keyResult, closed, by simp [bare, same, keySame], holds, ?_⟩
  rw [readSuffixes]
  simp [found, isMark, read, accepted, bind, Except.bind]

theorem readsOperand_suffixed {position operandPosition : Position} {op : Op} {name : String}
    {kind : Kind} {kinds : List Kind} (marks : kind.unary? = some op) (steps : op.isStep = true)
    (reads : (symbol operandPosition name).ReadsOperand kinds) :
    (suffixed position op (.symbol operandPosition name) true).ReadsOperand (kinds ++ [kind]) := by
  rcases Token.Kind.step_of_unary marks steps with ⟨rfl, rfl⟩ | ⟨rfl, rfl⟩
  all_goals
    refine readsOperand_of_suffix reads (by simp) ?_
    intro depth bracketed more tail indent result stream same holds enough
    rcases holds.next bracketed with ⟨token, after, found, isMark, holds⟩
    rcases eq_symbol_of_bare same with ⟨resultPosition, rfl⟩
    let read := if token.isOperator .increment then Op.increment else .decrement
    refine ⟨.suffixed resultPosition read (.symbol resultPosition name) true, after, ?_, holds, ?_⟩
    · simp [bare, read, isMark, Token.isOperator]
    · rw [readSuffixes]
      simp [found, isMark, read]

/-- An operator before an operand is applied to what is read after it. -/
theorem readsUnary_of_applies {operand : Node} {kind : Kind} {op : Op}
    (marks : kind.unary? = some op) (reads : operand.ReadsUnary kinds)
    (applies : ∀ token result, result.bare = operand.bare →
      ∃ applied, applyUnary token op result = .ok applied ∧ applied.bare = node.bare) :
    node.ReadsUnary (kind :: kinds) := by
  intro depth bracketed more tail indent stream holds next enough
  simp only [List.length_cons] at enough
  rcases holds.next bracketed with ⟨token, after, found, isMark, holds⟩
  rcases depth with _ | depth
  · omega
  rcases reads holds next (show 8 * kinds.length ≤ depth + 1 by omega) with
    ⟨result, rest, same, holds, read⟩
  rcases applies token result same with ⟨applied, given, same⟩
  refine ⟨applied, rest, same, holds, ?_⟩
  rw [readUnary]
  simp only [found, isMark, marks, read, given, bind, Except.bind]
  rfl

theorem readsUnary_negative {position : Position} {value : Float}
    (reads : (literal position (.number value)).ReadsUnary kinds) :
    (literal position (.number (-value))).ReadsUnary (.operator .minus :: kinds) := by
  refine readsUnary_of_applies rfl reads fun token result same => ?_
  rcases eq_literal_of_bare same with ⟨resultPosition, rfl⟩
  exact ⟨.literal token.position (.number (-value)), rfl, by simp [bare]⟩

theorem isLiteral_of_bare {result : Node} (same : result.bare = node.bare) :
    result.isLiteral = node.isLiteral := by
  have erased : ∀ other : Node, other.bare.isLiteral = other.isLiteral := by
    intro other
    cases other <;> simp [bare, isLiteral]
  rw [← erased result, same, erased node]

theorem readsUnary_prefixed {position : Position} {op : Op} {operand : Node} {kind : Kind}
    (marks : kind.unary? = some op) (applies : operand.IsOperandOf op)
    (reads : operand.ReadsUnary kinds) :
    (prefixed position op operand true).ReadsUnary (kind :: kinds) := by
  refine readsUnary_of_applies marks reads fun token result same => ?_
  refine ⟨.prefixed token.position op result true, ?_, by simp [bare, same]⟩
  cases applies with
  | not => rfl
  | negate unfolded =>
      have unfolded := (isLiteral_of_bare same).trans unfolded
      cases result <;> first | rfl | cases unfolded
  | step steps operandPosition name =>
      rcases eq_symbol_of_bare same with ⟨resultPosition, rfl⟩
      cases op <;> first | rfl | cases steps

/-- An operator between operands is read with the operands on both its sides. -/
theorem readsChain_of_dyadic {left right : Node} {leftKinds rightKinds : List Kind} {kind : Kind}
    {dyadic : Dyadic} (marks : kind.dyadic? = some dyadic) (bounded : least ≤ dyadic.level)
    (leftReads : left.ReadsChain dyadic.level leftKinds)
    (rightReads : right.ReadsWhole (dyadic.level + 1) rightKinds)
    (joins : ∀ leftResult rightResult, leftResult.bare = left.bare →
      rightResult.bare = right.bare → (dyadic.node leftResult rightResult).bare = node.bare) :
    node.ReadsChain least (leftKinds ++ kind :: rightKinds) := by
  intro depth bracketed floor more tail indent stream holds lower next enough
  simp only [List.append_assoc, List.cons_append, List.length_append, List.length_cons]
    at holds enough ⊢
  have loose : floor ≤ dyadic.level := Nat.le_trans lower bounded
  have leftNext : Stream.NextIs bracketed (Kind.stops (dyadic.level + 1))
      (kind :: (rightKinds ++ more)) tail := Token.Kind.stops_of_dyadic marks
  rcases leftReads holds loose leftNext (show 8 * leftKinds.length ≤ depth by omega) with
    ⟨leftResult, remaining, rest, leftSame, holds, deep, read⟩
  rcases remaining with _ | remaining
  · omega
  rcases holds.next bracketed with ⟨token, after, found, isMark, holds⟩
  rcases rightReads holds (next.mono fun _ => Token.Kind.stops_mono (Nat.succ_le_succ bounded))
    (show 8 * rightKinds.length ≤ remaining by omega) with
    ⟨rightResult, last, rightSame, holds, readRight⟩
  refine ⟨dyadic.node leftResult rightResult, remaining, last, joins _ _ leftSame rightSame, holds,
    by omega, ?_⟩
  rw [read, readOperators]
  simp [found, isMark, marks, Nat.not_lt.2 loose, readRight, bind, Except.bind]

/-- How the tokens of a written tree are read, given the least level of its outermost operator. -/
structure Reads (least : Nat) (node : Node) (kinds : List Kind) : Prop where
  operand : 7 ≤ least → node.ReadsOperand kinds
  unary : 6 ≤ least → node.ReadsUnary kinds
  chain : node.ReadsChain least kinds

theorem ReadsUnary.reads (reads : node.ReadsUnary kinds) (nonempty : 0 < kinds.length)
    (bounded : least ≤ 6) : Reads least node kinds where
  operand high := absurd (Nat.le_trans high bounded) (by decide)
  unary _ := reads
  chain := reads.chain nonempty

theorem ReadsOperand.reads (reads : node.ReadsOperand kinds) (nonempty : 0 < kinds.length) :
    Reads least node kinds where
  operand _ := reads
  unary _ := reads.unary
  chain := reads.unary.chain nonempty

theorem ReadsChain.reads (reads : node.ReadsChain least kinds) (bounded : least < 6) :
    Reads least node kinds where
  operand high := by omega
  unary high := by omega
  chain := reads

theorem Reads.whole (reads : Reads least node kinds) : node.ReadsWhole least kinds :=
  reads.chain.whole (Nat.le_refl _)

/-- Every written tree is read back. -/
theorem IsWritten.reads (written : node.IsWritten least kinds) : Reads least node kinds := by
  induction written with
  | group _ ih => exact (readsOperand_group ih.whole).reads (by simp [parenthesized])
  | literal denotes => exact (readsOperand_literal denotes).reads (by simp)
  | symbol position name => exact (readsOperand_symbol position name).reads (by simp)
  | path dots => exact (readsOperand_path dots).reads (by simp)
  | list itemsWritten ih =>
      exact (readsOperand_list (fun item member => (ih item member).whole)
        fun item member => (itemsWritten item member).opens).reads (by simp [Lehce.bracketed])
  | dict distinct valuesWritten ih =>
      exact (readsOperand_dict distinct fun entry member => (ih entry member).whole).reads
        (by simp [braced])
  | call named _ argsWritten calleeReads argsReads =>
      refine (readsOperand_call named (calleeReads.operand (Nat.le_refl _))
        (fun arg member => (argsReads arg member).whole)
        fun arg member => (argsWritten arg member).opens).reads ?_
      rw [List.length_append]
      exact Nat.lt_add_left _ (Nat.succ_pos _)
  | index _ _ bodyReads keyReads =>
      refine (readsOperand_index (bodyReads.operand (Nat.le_refl _)) keyReads.whole).reads ?_
      rw [List.length_append]
      exact Nat.lt_add_left _ (Nat.succ_pos _)
  | suffixed marks steps _ ih =>
      exact (readsOperand_suffixed marks steps (ih.operand (Nat.le_refl _))).reads (by simp)
  | negative bounded _ ih =>
      exact (readsUnary_negative (ih.unary (Nat.le_refl _))).reads (by simp) bounded
  | prefixed bounded marks applies _ ih =>
      exact (readsUnary_prefixed marks applies (ih.unary (Nat.le_refl _))).reads (by simp) bounded
  | binary marks bounded _ _ leftReads rightReads =>
      refine ReadsChain.reads
        (readsChain_of_dyadic marks bounded leftReads.chain rightReads.whole ?_)
        (Nat.lt_of_le_of_lt bounded (Token.Kind.level_of_dyadic marks))
      intro leftResult rightResult leftSame rightSame
      simp [Dyadic.node, bare, leftSame, rightSame]
  | control marks bounded _ _ leftReads rightReads =>
      refine ReadsChain.reads
        (readsChain_of_dyadic marks bounded leftReads.chain rightReads.whole ?_)
        (Nat.lt_of_le_of_lt bounded (Token.Kind.level_of_dyadic marks))
      intro leftResult rightResult leftSame rightSame
      simp [Dyadic.node, bare, leftSame, rightSame]

end Node

end Lehce

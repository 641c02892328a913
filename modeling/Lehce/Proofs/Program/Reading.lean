import Lehce.Proofs.Program.Shape
import Lehce.Proofs.Value.Gathering

/-!
# Readers return programs of the right shape

Every expression and statement that is read has the shape of `IsExpression` and
`IsStatement`, and every program that is read has the shape of a program. The
readers call each other with a depth that they count down, so all facts about them
are proved together by induction on this depth: `ExpressionReaders` and
`StatementReaders` collect them for one depth.

What is known of the numbers in the tokens ahead is kept along the way: it holds of
every stream that a reader returns because a stream only ever loses tokens.
-/

namespace Lehce

/-- Whether a token's number, if it has one, is allowed. -/
def Token.Kind.IsProper (allowed : Float → Prop) : Token.Kind → Prop
  | .double value => allowed value
  | _ => True

/-- Whether all tokens ahead are proper. -/
def Stream.IsProper (allowed : Float → Prop) (stream : Stream) : Prop :=
  ∀ token ∈ stream.rest, token.kind.IsProper allowed

/-- What a property of numbers must have to hold of all literals: signs do not matter to it. -/
structure Signless (allowed : Float → Prop) : Prop where
  ofInt : ∀ n : Int, allowed (Number.ofInt n)
  neg : ∀ value : Float, allowed value → allowed (-value)

theorem bind_eq_ok {ε α β : Type} {result : Except ε α} {next : α → Except ε β} {b : β} :
    result >>= next = .ok b ↔ ∃ a, result = .ok a ∧ next a = .ok b := by
  cases result <;> simp [bind, Except.bind]

@[simp]
theorem throw_ne_ok {ε α : Type} {error : ε} {a : α} : (throw error : Except ε α) ≠ .ok a := by
  simp [throw, throwThe, MonadExceptOf.throw]

namespace Stream

variable {allowed : Float → Prop} {bracketed : Bool} {stream after : Stream} {token : Token}

theorem dropBlanks_subset (bracketed : Bool) (tokens : List Token) (indent : Int)
    (lastEnd : Position) :
    ∀ token ∈ (dropBlanks bracketed tokens indent lastEnd).rest, token ∈ tokens := by
  intro token
  fun_induction dropBlanks bracketed tokens indent lastEnd with
  | case1 => simp
  | case2 _ _ first rest _ _ ih => exact fun found => List.mem_cons_of_mem _ (ih found)
  | case3 _ _ first rest _ _ _ ih => exact fun found => List.mem_cons_of_mem _ (ih found)
  | case4 => simp
  | case5 => simp

theorem IsProper.skip (proper : stream.IsProper allowed) (bracketed : Bool) :
    (stream.skip bracketed).IsProper allowed := by
  intro token found
  exact proper token (dropBlanks_subset _ _ _ _ token found)

theorem IsProper.next (proper : stream.IsProper allowed)
    (found : stream.next? bracketed = some (token, after)) :
    token.kind.IsProper allowed ∧ after.IsProper allowed := by
  have skipped := proper.skip bracketed
  unfold next? at found
  simp only at found
  split at found
  · simp at found
  · rename_i first rest restEq
    have firstProper := skipped first (by simp [restEq])
    have restProper : ∀ token ∈ rest, token.kind.IsProper allowed :=
      fun token member => skipped token (by simp [restEq, member])
    split at found <;>
    · simp only [Option.some.injEq, Prod.mk.injEq] at found
      rcases found with ⟨rfl, rfl⟩
      exact ⟨firstProper, restProper⟩

theorem IsProper.accept {op : Operator} (proper : stream.IsProper allowed)
    (found : stream.accept? bracketed op = some after) : after.IsProper allowed := by
  unfold accept? at found
  split at found
  · rename_i token rest nextEq
    split at found
    · cases found
      exact (proper.next nextEq).2
    · simp at found
  · simp at found

theorem IsProper.acceptKeyword {keyword : Keyword} (proper : stream.IsProper allowed)
    (found : stream.acceptKeyword? bracketed keyword = some after) : after.IsProper allowed := by
  unfold acceptKeyword? at found
  split at found
  · rename_i token rest nextEq
    split at found
    · cases found
      exact (proper.next nextEq).2
    · simp at found
  · simp at found

theorem IsProper.acceptKeyword_getD {keyword : Keyword} (proper : stream.IsProper allowed) :
    ((stream.acceptKeyword? bracketed keyword).getD stream).IsProper allowed := by
  cases found : stream.acceptKeyword? bracketed keyword with
  | none => simpa using proper
  | some after => simpa using proper.acceptKeyword found

theorem IsProper.nextLine {indent : Int} {line : Stream} (proper : stream.IsProper allowed)
    (found : stream.nextLine? = some (token, indent, line)) : line.IsProper allowed := by
  unfold nextLine? at found
  simp only at found
  split at found
  · simp at found
  · simp only [Option.some.injEq, Prod.mk.injEq] at found
    rcases found with ⟨_, _, rfl⟩
    exact proper.skip true

end Stream

/-- What every reader of expressions returns at one depth. -/
structure ExpressionReaders (allowed : Float → Prop) (depth : Nat) : Prop where
  expression : ∀ {bracketed : Bool} {least : Nat} {stream rest : Stream} {result : Option Node},
    stream.IsProper allowed → readExpression depth bracketed least stream = .ok (result, rest) →
      (∀ node ∈ result, node.IsExpression allowed) ∧ rest.IsProper allowed
  operators : ∀ {bracketed : Bool} {least : Nat} {left node : Node} {stream rest : Stream},
    left.IsExpression allowed → stream.IsProper allowed →
    readOperators depth bracketed least left stream = .ok (node, rest) →
      node.IsExpression allowed ∧ rest.IsProper allowed
  unary : ∀ {bracketed : Bool} {stream rest : Stream} {result : Option Node},
    stream.IsProper allowed → readUnary depth bracketed stream = .ok (result, rest) →
      (∀ node ∈ result, node.IsExpression allowed) ∧ rest.IsProper allowed
  suffixes : ∀ {bracketed : Bool} {start node : Node} {stream rest : Stream},
    start.IsExpression allowed → stream.IsProper allowed →
    readSuffixes depth bracketed start stream = .ok (node, rest) →
      node.IsExpression allowed ∧ rest.IsProper allowed
  arguments : ∀ {stream rest : Stream} {args : List Node},
    stream.IsProper allowed → readArguments depth stream = .ok (args, rest) →
      (∀ arg ∈ args, arg.IsExpression allowed) ∧ rest.IsProper allowed
  moreArguments : ∀ {stream rest : Stream} {before args : List Node},
    (∀ arg ∈ before, arg.IsExpression allowed) → stream.IsProper allowed →
    readMoreArguments depth before stream = .ok (args, rest) →
      (∀ arg ∈ args, arg.IsExpression allowed) ∧ rest.IsProper allowed
  primary : ∀ {bracketed : Bool} {token : Token} {after rest : Stream} {node : Node},
    token.kind.IsProper allowed → after.IsProper allowed →
    readPrimary depth bracketed token after = .ok (some (node, rest)) →
      node.IsExpression allowed ∧ rest.IsProper allowed
  items : ∀ {stream rest : Stream} {before items : List Node},
    (∀ item ∈ before, item.IsExpression allowed) → stream.IsProper allowed →
    readItems depth before stream = .ok (items, rest) →
      (∀ item ∈ items, item.IsExpression allowed) ∧ rest.IsProper allowed
  entries : ∀ {stream rest : Stream} {before entries : List (String × Node)},
    (∀ entry ∈ before, entry.2.IsExpression allowed) → stream.IsProper allowed →
    readEntries depth before stream = .ok (entries, rest) →
      (∀ entry ∈ entries, entry.2.IsExpression allowed) ∧ rest.IsProper allowed

theorem Dyadic.node_isExpression {allowed : Float → Prop} {kind : Token.Kind} {operator : Dyadic}
    {left right : Node} (found : kind.dyadic? = some operator)
    (leftShape : left.IsExpression allowed) (rightShape : right.IsExpression allowed) :
    (operator.node left right).IsExpression allowed := by
  unfold Token.Kind.dyadic? at found
  split at found <;> simp only [Option.some.injEq, reduceCtorEq] at found <;> subst found
  case h_1 | h_2 | h_3 | h_4 => exact .logical rfl leftShape rightShape
  case h_5 | h_6 | h_7 | h_8 | h_9 | h_10 => exact .comparison rfl leftShape rightShape
  all_goals exact .binary rfl leftShape rightShape

theorem Token.Kind.unary_cases {kind : Token.Kind} {op : Op} (found : kind.unary? = some op) :
    op = .negate ∨ op = .plus ∨ op = .not ∨ op.isStep := by
  unfold Token.Kind.unary? at found
  split at found <;> simp only [Option.some.injEq, reduceCtorEq] at found <;> subst found <;>
    simp [Op.isStep]

/-- A unary operator applied to an expression gives an expression. -/
theorem applyUnary_isExpression {allowed : Float → Prop} (signless : Signless allowed)
    {token : Token} {op : Op} {operand node : Node} (unary : token.kind.unary? = some op)
    (operandShape : operand.IsExpression allowed)
    (applied : applyUnary token op operand = .ok node) : node.IsExpression allowed := by
  unfold applyUnary at applied
  simp only at applied
  split at applied
  case h_1 =>
      cases applied
      cases operandShape with
      | literal known => exact .literal (signless.neg _ known)
      | name named => cases named
  case h_2 =>
      cases applied
      cases operandShape with
      | literal known => exact .literal known
      | name named => cases named
  case h_3 => simp at applied
  case h_4 => simp at applied
  case h_5 =>
      cases applied
      exact operandShape
  case h_6 =>
      cases applied
      exact .stepBefore rfl _ _
  case h_7 =>
      cases applied
      exact .stepBefore rfl _ _
  case h_8 => simp at applied
  case h_9 => simp at applied
  case h_10 =>
      cases applied
      rcases Token.Kind.unary_cases unary with rfl | rfl | rfl | steps
      · refine .negate ?_ operandShape
        cases operand <;> simp_all [Node.isLiteral]
      · simp_all
      · exact .not operandShape
      · cases op <;> simp_all [Op.isStep]

namespace ExpressionReaders

variable {allowed : Float → Prop} {depth : Nat}

/-- No reader returns anything at depth zero. -/
theorem zero (allowed : Float → Prop) : ExpressionReaders allowed 0 := by
  constructor <;> intros <;>
    simp_all [readExpression, readOperators, readUnary, readSuffixes, readArguments,
      readMoreArguments, readPrimary, readItems, readEntries]

theorem expression_succ (readers : ExpressionReaders allowed depth) {bracketed : Bool}
    {least : Nat} {stream rest : Stream} {result : Option Node} (proper : stream.IsProper allowed)
    (read : readExpression (depth + 1) bracketed least stream = .ok (result, rest)) :
    (∀ node ∈ result, node.IsExpression allowed) ∧ rest.IsProper allowed := by
  simp only [readExpression, bind_eq_ok] at read
  rcases read with ⟨⟨operand, between⟩, operandRead, read⟩
  rcases readers.unary proper operandRead with ⟨operandShape, betweenProper⟩
  cases operand with
  | none =>
      cases read
      exact ⟨by simp, betweenProper⟩
  | some left =>
      simp only [bind_eq_ok] at read
      rcases read with ⟨⟨node, after⟩, operatorsRead, read⟩
      cases read
      have extended := readers.operators (operandShape left rfl) betweenProper operatorsRead
      exact ⟨by simpa using extended.1, extended.2⟩

theorem operators_succ (readers : ExpressionReaders allowed depth) {bracketed : Bool}
    {least : Nat} {left node : Node} {stream rest : Stream} (leftShape : left.IsExpression allowed)
    (proper : stream.IsProper allowed)
    (read : readOperators (depth + 1) bracketed least left stream = .ok (node, rest)) :
    node.IsExpression allowed ∧ rest.IsProper allowed := by
  rw [readOperators] at read
  split at read
  · cases read
    exact ⟨leftShape, proper⟩
  · rename_i token after nextEq
    split at read
    · cases read
      exact ⟨leftShape, proper⟩
    · rename_i operator operatorEq
      split at read
      · cases read
        exact ⟨leftShape, proper⟩
      · simp only [bind_eq_ok] at read
        rcases read with ⟨⟨operand, between⟩, operandRead, read⟩
        rcases readers.expression (proper.next nextEq).2 operandRead with
          ⟨operandShape, betweenProper⟩
        cases operand with
        | none => simp at read
        | some right =>
            exact readers.operators
              (Dyadic.node_isExpression operatorEq leftShape (operandShape right rfl))
              betweenProper read

theorem unary_succ (signless : Signless allowed) (readers : ExpressionReaders allowed depth)
    {bracketed : Bool} {stream rest : Stream} {result : Option Node}
    (proper : stream.IsProper allowed)
    (read : readUnary (depth + 1) bracketed stream = .ok (result, rest)) :
    (∀ node ∈ result, node.IsExpression allowed) ∧ rest.IsProper allowed := by
  rw [readUnary] at read
  split at read
  · cases read
    exact ⟨by simp, proper⟩
  · rename_i token after nextEq
    rcases proper.next nextEq with ⟨tokenProper, afterProper⟩
    split at read
    · simp only [bind_eq_ok] at read
      rcases read with ⟨primary, primaryRead, read⟩
      cases primary with
      | none =>
          cases read
          exact ⟨by simp, proper⟩
      | some found =>
          rcases found with ⟨start, between⟩
          simp only [bind_eq_ok] at read
          rcases read with ⟨⟨node, after⟩, suffixesRead, read⟩
          cases read
          rcases readers.primary tokenProper afterProper primaryRead with ⟨startShape, between⟩
          have extended := readers.suffixes startShape between suffixesRead
          exact ⟨by simpa using extended.1, extended.2⟩
    · rename_i op opEq
      simp only [bind_eq_ok] at read
      rcases read with ⟨⟨operand, between⟩, operandRead, read⟩
      rcases readers.unary afterProper operandRead with ⟨operandShape, betweenProper⟩
      cases operand with
      | none => simp at read
      | some operand =>
          simp only [bind_eq_ok] at read
          rcases read with ⟨node, applied, read⟩
          cases read
          exact ⟨by simpa using applyUnary_isExpression signless opEq (operandShape _ rfl) applied,
            betweenProper⟩

theorem suffixes_succ (readers : ExpressionReaders allowed depth) {bracketed : Bool}
    {start node : Node} {stream rest : Stream} (startShape : start.IsExpression allowed)
    (proper : stream.IsProper allowed)
    (read : readSuffixes (depth + 1) bracketed start stream = .ok (node, rest)) :
    node.IsExpression allowed ∧ rest.IsProper allowed := by
  rw [readSuffixes] at read
  split at read
  · cases read
    exact ⟨startShape, proper⟩
  · rename_i token after nextEq
    have afterProper := (proper.next nextEq).2
    split at read
    · -- a call, of a symbol or a dotted name only
      split at read
      case h_3 => simp at read
      all_goals
        simp only [bind_eq_ok] at read
        rcases read with ⟨⟨args, between⟩, argsRead, read⟩
        rcases readers.arguments afterProper argsRead with ⟨argShapes, betweenProper⟩
        refine readers.suffixes (.call ?_ argShapes) betweenProper read
        constructor
    · simp only [bind_eq_ok] at read
      rcases read with ⟨⟨key, between⟩, keyRead, read⟩
      rcases readers.expression afterProper keyRead with ⟨keyShape, betweenProper⟩
      cases key with
      | none => simp at read
      | some key =>
          simp only at read
          split at read
          · simp at read
          · rename_i closed closedEq
            exact readers.suffixes (.index startShape (keyShape key rfl))
              (betweenProper.accept closedEq) read
    · split at read
      · refine readers.suffixes (.stepAfter ?_ _ _) afterProper read
        split <;> rfl
      · simp at read
    · split at read
      · refine readers.suffixes (.stepAfter ?_ _ _) afterProper read
        split <;> rfl
      · simp at read
    · cases read
      exact ⟨startShape, proper⟩

theorem arguments_succ (readers : ExpressionReaders allowed depth) {stream rest : Stream}
    {args : List Node} (proper : stream.IsProper allowed)
    (read : readArguments (depth + 1) stream = .ok (args, rest)) :
    (∀ arg ∈ args, arg.IsExpression allowed) ∧ rest.IsProper allowed := by
  rw [readArguments] at read
  split at read
  · rename_i closed closedEq
    cases read
    exact ⟨by simp, proper.accept closedEq⟩
  · exact readers.moreArguments (by simp) proper read

theorem moreArguments_succ (readers : ExpressionReaders allowed depth) {stream rest : Stream}
    {before args : List Node} (beforeShapes : ∀ arg ∈ before, arg.IsExpression allowed)
    (proper : stream.IsProper allowed)
    (read : readMoreArguments (depth + 1) before stream = .ok (args, rest)) :
    (∀ arg ∈ args, arg.IsExpression allowed) ∧ rest.IsProper allowed := by
  rw [readMoreArguments] at read
  split at read
  · simp at read
  · simp only [bind_eq_ok] at read
    rcases read with ⟨⟨arg, between⟩, argRead, read⟩
    rcases readers.expression proper argRead with ⟨argShape, betweenProper⟩
    cases arg with
    | none =>
        simp only at read
        split at read <;> simp at read
    | some arg =>
        have extended : ∀ other ∈ arg :: before, other.IsExpression allowed := by
          simpa using ⟨argShape arg rfl, beforeShapes⟩
        simp only at read
        split at read
        · rename_i closed closedEq
          cases read
          exact ⟨by simpa [or_comm] using extended, betweenProper.accept closedEq⟩
        · split at read
          · rename_i more moreEq
            exact readers.moreArguments extended (betweenProper.accept moreEq) read
          · simp at read

theorem items_succ (readers : ExpressionReaders allowed depth) {stream rest : Stream}
    {before items : List Node} (beforeShapes : ∀ item ∈ before, item.IsExpression allowed)
    (proper : stream.IsProper allowed)
    (read : readItems (depth + 1) before stream = .ok (items, rest)) :
    (∀ item ∈ items, item.IsExpression allowed) ∧ rest.IsProper allowed := by
  rw [readItems] at read
  simp only [bind_eq_ok] at read
  rcases read with ⟨⟨item, between⟩, itemRead, read⟩
  rcases readers.expression proper itemRead with ⟨itemShape, betweenProper⟩
  cases item with
  | none =>
      simp only at read
      split at read <;> simp at read
  | some item =>
      have extended : ∀ other ∈ item :: before, other.IsExpression allowed := by
        simpa using ⟨itemShape item rfl, beforeShapes⟩
      simp only at read
      split at read
      · rename_i closed closedEq
        cases read
        exact ⟨by simpa [or_comm] using extended, betweenProper.accept closedEq⟩
      · split at read
        · rename_i more moreEq
          exact readers.items extended (betweenProper.accept moreEq) read
        · simp at read

theorem entries_succ (readers : ExpressionReaders allowed depth) {stream rest : Stream}
    {before entries : List (String × Node)}
    (beforeShapes : ∀ entry ∈ before, entry.2.IsExpression allowed)
    (proper : stream.IsProper allowed)
    (read : readEntries (depth + 1) before stream = .ok (entries, rest)) :
    (∀ entry ∈ entries, entry.2.IsExpression allowed) ∧ rest.IsProper allowed := by
  rw [readEntries] at read
  split at read
  · simp at read
  · rename_i token after nextEq
    split at read
    · rename_i key keyEq
      split at read
      · simp at read
      · rename_i afterColon colonEq
        simp only [bind_eq_ok] at read
        rcases read with ⟨⟨value, between⟩, valueRead, read⟩
        rcases readers.expression ((proper.next nextEq).2.accept colonEq) valueRead with
          ⟨valueShape, betweenProper⟩
        cases value with
        | none => simp at read
        | some value =>
            have extended : ∀ other ∈ (key, value) :: before, other.2.IsExpression allowed :=
              List.forall_mem_cons.2 ⟨valueShape value rfl, beforeShapes⟩
            simp only at read
            split at read
            · rename_i closed closedEq
              cases read
              refine ⟨?_, betweenProper.accept closedEq⟩
              intro entry member
              exact extended entry (List.mem_reverse.1 member)
            · split at read
              · rename_i more moreEq
                exact readers.entries extended (betweenProper.accept moreEq) read
              · simp at read
    · simp at read

theorem dottedParts_isProper {bracketed : Bool} {depth : Nat} {before parts : List String}
    {stream rest : Stream} (proper : stream.IsProper allowed)
    (read : dottedParts bracketed depth before stream = .ok (parts, rest)) :
    rest.IsProper allowed := by
  induction depth generalizing before stream with
  | zero => simp [dottedParts] at read
  | succ depth ih =>
      rw [dottedParts] at read
      split at read
      · cases read
        exact proper
      · rename_i after afterEq
        split at read
        · rename_i moreEq
          exact ih ((proper.accept afterEq).next moreEq).2 read
        · simp at read

theorem symbolOrPath_isName {bracketed : Bool} {depth : Nat} {position : Position} {name : String}
    {stream rest : Stream} {node : Node} (proper : stream.IsProper allowed)
    (read : symbolOrPath bracketed depth position name stream = .ok (node, rest)) :
    node.IsName ∧ rest.IsProper allowed := by
  unfold symbolOrPath at read
  split at read
  · simp only [bind_eq_ok] at read
    rcases read with ⟨⟨parts, between⟩, partsRead, read⟩
    cases read
    exact ⟨.path _ _, dottedParts_isProper proper partsRead⟩
  · cases read
    exact ⟨.symbol _ _, proper⟩

theorem primary_succ (signless : Signless allowed) (readers : ExpressionReaders allowed depth)
    {bracketed : Bool} {token : Token} {after rest : Stream} {node : Node}
    (tokenProper : token.kind.IsProper allowed) (afterProper : after.IsProper allowed)
    (read : readPrimary (depth + 1) bracketed token after = .ok (some (node, rest))) :
    node.IsExpression allowed ∧ rest.IsProper allowed := by
  rw [readPrimary] at read
  simp only at read
  split at read
  case h_1 value _ =>
      cases read
      exact ⟨.literal (signless.ofInt value), afterProper⟩
  case h_2 value kindEq =>
      cases read
      rw [kindEq] at tokenProper
      exact ⟨.literal tokenProper, afterProper⟩
  case h_3 | h_4 | h_6 | h_7 | h_8 =>
      cases read
      exact ⟨.literal trivial, afterProper⟩
  case h_5 name _ =>
      simp only [bind_eq_ok] at read
      rcases read with ⟨⟨found, between⟩, nameRead, read⟩
      cases read
      rcases symbolOrPath_isName afterProper nameRead with ⟨named, restProper⟩
      exact ⟨.name named, restProper⟩
  case h_9 =>
      simp only [bind_eq_ok] at read
      rcases read with ⟨⟨inner, between⟩, innerRead, read⟩
      rcases readers.expression afterProper innerRead with ⟨innerShape, betweenProper⟩
      cases inner with
      | none => simp at read
      | some inner =>
          simp only at read
          split at read
          · simp at read
          · rename_i closed closedEq
            cases read
            exact ⟨innerShape _ rfl, betweenProper.accept closedEq⟩
  case h_10 =>
      split at read
      · rename_i closed closedEq
        cases read
        exact ⟨.list (by simp), afterProper.accept closedEq⟩
      · simp only [bind_eq_ok] at read
        rcases read with ⟨⟨items, between⟩, itemsRead, read⟩
        cases read
        rcases readers.items (by simp) afterProper itemsRead with ⟨itemShapes, restProper⟩
        exact ⟨.list itemShapes, restProper⟩
  case h_11 =>
      split at read
      · rename_i closed closedEq
        cases read
        exact ⟨.dict (by simp) (by simp), afterProper.accept closedEq⟩
      · simp only [bind_eq_ok] at read
        rcases read with ⟨⟨entries, between⟩, entriesRead, read⟩
        cases read
        rcases readers.entries (by simp) afterProper entriesRead with ⟨valueShapes, restProper⟩
        refine ⟨.dict (Dict.ofList_keys_nodup entries) ?_, restProper⟩
        intro entry member
        exact valueShapes entry (Dict.mem_of_mem_ofList member)
  case h_12 => simp at read

/-- At every depth, every reader of expressions returns expressions. -/
theorem of_depth (signless : Signless allowed) (depth : Nat) : ExpressionReaders allowed depth := by
  induction depth with
  | zero => exact .zero allowed
  | succ depth readers =>
      exact {
        expression := readers.expression_succ
        operators := readers.operators_succ
        unary := readers.unary_succ signless
        suffixes := readers.suffixes_succ
        arguments := readers.arguments_succ
        moreArguments := readers.moreArguments_succ
        primary := readers.primary_succ signless
        items := readers.items_succ
        entries := readers.entries_succ }

end ExpressionReaders

/-- An expression that stands as a statement has the shape of one. -/
theorem Node.IsExpression.asStatement {allowed : Float → Prop} {node : Node}
    (shape : node.IsExpression allowed) (inLoop inFunction : Bool) :
    node.asStatement.IsStatement allowed inLoop inFunction := by
  cases shape with
  | call named argShapes => exact .call named argShapes
  | stepBefore steps operandPosition name =>
      rename_i op
      cases op <;> first | exact .stepBefore rfl operandPosition name | simp [Op.isStep] at steps
  | stepAfter steps operandPosition name => exact .stepAfter steps operandPosition name
  | name named => cases named <;> exact .value (.name (by constructor)) rfl
  | literal known => exact .value (.literal known) rfl
  | nothing => exact .value (.nothing _) rfl
  | binary arithmetic left right => exact .value (.binary arithmetic left right) rfl
  | comparison compares left right => exact .value (.comparison compares left right) rfl
  | logical decides left right => exact .value (.logical decides left right) rfl
  | list items => exact .value (.list items) rfl
  | dict distinct values => exact .value (.dict distinct values) rfl
  | not operand => exact .value (.not operand) rfl
  | negate unfolded operand => exact .value (.negate unfolded operand) rfl
  | index body key => exact .value (.index body key) rfl

theorem withReturn_shape {allowed : Float → Prop} (position : Position) {body : List Node}
    (bodyShapes : ∀ item ∈ body, item.IsStatement allowed false true) :
    (∀ item ∈ withReturn position body, item.IsStatement allowed false true) ∧
      Node.EndsWithReturn (withReturn position body) := by
  unfold withReturn
  split
  · refine ⟨?_, [], _, _, rfl⟩
    simpa using Node.IsStatement.returns (.nothing _)
  · rename_i returnPosition value lastEq
    rcases List.getLast?_eq_some_iff.1 lastEq with ⟨front, rfl⟩
    exact ⟨bodyShapes, front, _, _, rfl⟩
  · rename_i last _ lastEq
    refine ⟨?_, body, _, _, rfl⟩
    intro item member
    rcases List.mem_append.1 member with inBody | added
    · exact bodyShapes item inBody
    · rw [List.mem_singleton.1 added]
      exact .returns (.nothing _)

theorem Token.Kind.assignment_isAssignment {kind : Token.Kind} {op : Op}
    (found : kind.assignment? = some op) : op.isAssignment := by
  unfold Token.Kind.assignment? at found
  split at found <;> simp only [Option.some.injEq, reduceCtorEq] at found <;> subst found <;> rfl

section Statements

variable {allowed : Float → Prop} {depth : Nat}

theorem needExpression_shape (signless : Signless allowed) {missing : Stream → Fault}
    {stream rest : Stream} {node : Node} (proper : stream.IsProper allowed)
    (read : needExpression depth missing stream = .ok (node, rest)) :
    node.IsExpression allowed ∧ rest.IsProper allowed := by
  simp only [needExpression, bind_eq_ok] at read
  rcases read with ⟨⟨result, between⟩, resultRead, read⟩
  rcases (ExpressionReaders.of_depth signless depth).expression proper resultRead with
    ⟨shape, restProper⟩
  cases result with
  | none => simp at read
  | some found =>
      cases read
      exact ⟨shape _ rfl, restProper⟩

theorem readReturn_shape (signless : Signless allowed) {place : Surrounding} {token : Token}
    {after rest : Stream} {node : Node} (proper : after.IsProper allowed)
    (read : readReturn depth place token after = .ok (node, rest)) :
    node.IsStatement allowed place.inLoop place.inFunction ∧ rest.IsProper allowed := by
  simp only [readReturn] at read
  split at read
  · simp [bind, Except.bind, throw, throwThe, MonadExceptOf.throw] at read
  · rename_i inside
    have function : place.inFunction = true := by simpa using inside
    rw [function]
    split at read
    · cases read
      exact ⟨.returns (.nothing _), proper⟩
    · simp only [bind_eq_ok] at read
      rcases read with ⟨⟨result, between⟩, resultRead, read⟩
      rcases (ExpressionReaders.of_depth signless depth).expression proper resultRead with
        ⟨shape, restProper⟩
      cases result with
      | none =>
          cases read
          exact ⟨.returns (.nothing _), restProper⟩
      | some value =>
          cases read
          exact ⟨.returns (shape _ rfl), restProper⟩

theorem readAssignment_shape (signless : Signless allowed) {target node : Node} {op : Op}
    {token : Token} {after rest : Stream} {inLoop inFunction : Bool}
    (targetShape : target.IsExpression allowed) (assigns : op.isAssignment)
    (proper : after.IsProper allowed)
    (read : readAssignment depth target op token after = .ok (node, rest)) :
    node.IsStatement allowed inLoop inFunction ∧ rest.IsProper allowed := by
  unfold readAssignment at read
  split at read
  · simp only [bind_eq_ok] at read
    rcases read with ⟨⟨value, between⟩, valueRead, read⟩
    cases read
    rcases needExpression_shape signless proper valueRead with ⟨valueShape, restProper⟩
    exact ⟨.assignment assigns _ _ valueShape, restProper⟩
  · simp only [bind_eq_ok] at read
    rcases read with ⟨⟨value, between⟩, valueRead, read⟩
    cases read
    rcases needExpression_shape signless proper valueRead with ⟨valueShape, restProper⟩
    cases targetShape with
    | index bodyShape keyShape =>
        exact ⟨.itemAssignment assigns _ bodyShape keyShape valueShape, restProper⟩
    | name named => cases named
  · simp at read

theorem readParams_nodup {before params : List String} {stream rest : Stream}
    (distinct : before.Nodup) (proper : stream.IsProper allowed)
    (read : readParams depth before stream = .ok (params, rest)) :
    params.Nodup ∧ rest.IsProper allowed := by
  induction depth generalizing before stream with
  | zero => simp [readParams] at read
  | succ depth ih =>
      rw [readParams] at read
      split at read
      · simp at read
      · rename_i token after nextEq
        have afterProper := (proper.next nextEq).2
        split at read
        · rename_i name nameEq
          split at read
          · simp at read
          · rename_i fresh
            have extended : (name :: before).Nodup :=
              List.nodup_cons.2 ⟨by simpa using fresh, distinct⟩
            split at read
            · rename_i closed closedEq
              cases read
              exact ⟨(List.reverse_perm _).nodup_iff.2 extended, afterProper.accept closedEq⟩
            · split at read
              · rename_i more moreEq
                exact ih extended (afterProper.accept moreEq) read
              · simp at read
        · simp at read

theorem readParameters_nodup {params : List String} {stream rest : Stream}
    (proper : stream.IsProper allowed)
    (read : readParameters depth stream = .ok (params, rest)) :
    params.Nodup ∧ rest.IsProper allowed := by
  unfold readParameters at read
  split at read
  · rename_i closed closedEq
    cases read
    exact ⟨by simp, proper.accept closedEq⟩
  · exact readParams_nodup (by simp) proper read

/-- What every reader of statements returns at one depth. -/
structure StatementReaders (allowed : Float → Prop) (depth : Nat) : Prop where
  lines : ∀ {place : Surrounding} {start position : Position} {before items : List Node}
    {stream rest : Stream},
    (∀ item ∈ before, item.IsStatement allowed place.inLoop place.inFunction) →
    stream.IsProper allowed →
    readLines depth place start before stream = .ok ((position, items), rest) →
      (∀ item ∈ items, item.IsStatement allowed place.inLoop place.inFunction) ∧
        rest.IsProper allowed
  body : ∀ {place : Surrounding} {position : Position} {items : List Node} {stream rest : Stream},
    stream.IsProper allowed → readBody depth place stream = .ok ((position, items), rest) →
      (∀ item ∈ items, item.IsStatement allowed place.inLoop place.inFunction) ∧
        rest.IsProper allowed
  statement : ∀ {place : Surrounding} {node : Node} {stream rest : Stream},
    stream.IsProper allowed → readStatement depth place stream = .ok (node, rest) →
      node.IsStatement allowed place.inLoop place.inFunction ∧ rest.IsProper allowed
  branch : ∀ {place : Surrounding} {position : Position} {condition node : Node}
    {stream rest : Stream},
    condition.IsExpression allowed → stream.IsProper allowed →
    readBranch depth place position condition stream = .ok (node, rest) →
      (node.IsStatement allowed place.inLoop place.inFunction ∧ node.isBranch) ∧
        rest.IsProper allowed
  function : ∀ {place : Surrounding} {token : Token} {node : Node} {stream rest : Stream},
    stream.IsProper allowed → readFunction depth place token stream = .ok (node, rest) →
      node.IsStatement allowed place.inLoop place.inFunction ∧ rest.IsProper allowed

namespace StatementReaders

theorem zero (allowed : Float → Prop) : StatementReaders allowed 0 := by
  constructor <;> intros <;>
    simp_all [readLines, readBody, readStatement, readBranch, readFunction]

theorem lines_succ (readers : StatementReaders allowed depth) {place : Surrounding}
    {start position : Position} {before items : List Node} {stream rest : Stream}
    (beforeShapes : ∀ item ∈ before, item.IsStatement allowed place.inLoop place.inFunction)
    (proper : stream.IsProper allowed)
    (read : readLines (depth + 1) place start before stream = .ok ((position, items), rest)) :
    (∀ item ∈ items, item.IsStatement allowed place.inLoop place.inFunction) ∧
      rest.IsProper allowed := by
  rw [readLines] at read
  split at read
  · cases read
    exact ⟨by simpa using beforeShapes, proper⟩
  · rename_i token indent line lineEq
    split at read
    · cases read
      exact ⟨by simpa using beforeShapes, proper⟩
    · split at read
      · simp at read
      · simp only [bind_eq_ok] at read
        rcases read with ⟨⟨statement, between⟩, statementRead, read⟩
        rcases readers.statement (proper.nextLine lineEq) statementRead with
          ⟨statementShape, betweenProper⟩
        split at read
        · simp [bind, Except.bind, throw, throwThe, MonadExceptOf.throw] at read
        · exact readers.lines (List.forall_mem_cons.2 ⟨statementShape, beforeShapes⟩)
            betweenProper read

theorem body_succ (readers : StatementReaders allowed depth) {place : Surrounding}
    {position : Position} {items : List Node} {stream rest : Stream}
    (proper : stream.IsProper allowed)
    (read : readBody (depth + 1) place stream = .ok ((position, items), rest)) :
    (∀ item ∈ items, item.IsStatement allowed place.inLoop place.inFunction) ∧
      rest.IsProper allowed := by
  rw [readBody] at read
  split at read
  · simp at read
  · rename_i after afterEq
    have afterProper := proper.accept afterEq
    split at read
    · split at read
      · simp at read
      · split at read
        · simp at read
        · have shapes := readers.lines (by simp) afterProper read
          exact shapes
    · simp only [bind_eq_ok] at read
      rcases read with ⟨⟨statement, between⟩, statementRead, read⟩
      cases read
      rcases readers.statement afterProper statementRead with ⟨statementShape, restProper⟩
      exact ⟨by simpa using statementShape, restProper⟩

theorem branch_succ (signless : Signless allowed) (readers : StatementReaders allowed depth)
    {place : Surrounding} {position : Position} {condition node : Node} {stream rest : Stream}
    (conditionShape : condition.IsExpression allowed) (proper : stream.IsProper allowed)
    (read : readBranch (depth + 1) place position condition stream = .ok (node, rest)) :
    (node.IsStatement allowed place.inLoop place.inFunction ∧ node.isBranch) ∧
      rest.IsProper allowed := by
  rw [readBranch] at read
  simp only [bind_eq_ok] at read
  rcases read with ⟨⟨⟨bodyPosition, body⟩, between⟩, bodyRead, read⟩
  rcases readers.body proper bodyRead with ⟨bodyShapes, betweenProper⟩
  have alone : ∀ {last : Stream}, last = between →
      ((Node.branch position condition bodyPosition body none).IsStatement allowed place.inLoop
        place.inFunction ∧ (Node.branch position condition bodyPosition body none).isBranch) ∧
        last.IsProper allowed := by
    rintro _ rfl
    exact ⟨⟨.branch conditionShape bodyShapes, rfl⟩, betweenProper⟩
  split at read
  · cases read
    exact alone rfl
  · rename_i token indent line lineEq
    have lineProper := betweenProper.nextLine lineEq
    split at read
    · cases read
      exact alone rfl
    · split at read
      · cases read
        exact alone rfl
      · rename_i after nextEq
        have afterProper := (lineProper.next nextEq).2
        split at read
        · simp only [bind_eq_ok] at read
          rcases read with ⟨⟨⟨otherPosition, other⟩, last⟩, otherRead, read⟩
          cases read
          rcases readers.body afterProper otherRead with ⟨otherShapes, restProper⟩
          exact ⟨⟨.branchElse conditionShape bodyShapes otherShapes, rfl⟩, restProper⟩
        · simp only [bind_eq_ok] at read
          rcases read with ⟨⟨otherCondition, more⟩, otherConditionRead, read⟩
          rcases needExpression_shape signless afterProper.acceptKeyword_getD
            otherConditionRead with ⟨otherConditionShape, moreProper⟩
          rcases read with ⟨⟨other, last⟩, otherRead, read⟩
          cases read
          rcases readers.branch otherConditionShape moreProper.acceptKeyword_getD otherRead with
            ⟨⟨otherShape, chained⟩, restProper⟩
          exact ⟨⟨.branchChain conditionShape bodyShapes chained otherShape, rfl⟩, restProper⟩

theorem function_succ (readers : StatementReaders allowed depth) {place : Surrounding}
    {token : Token} {node : Node} {stream rest : Stream} (proper : stream.IsProper allowed)
    (read : readFunction (depth + 1) place token stream = .ok (node, rest)) :
    node.IsStatement allowed place.inLoop place.inFunction ∧ rest.IsProper allowed := by
  rw [readFunction] at read
  split at read
  · rename_i nameEq
    split at read
    · simp at read
    · rename_i opened openedEq
      simp only [bind_eq_ok] at read
      rcases read with ⟨⟨params, between⟩, paramsRead, read⟩
      rcases readParameters_nodup ((proper.next nameEq).2.accept openedEq) paramsRead with
        ⟨distinct, betweenProper⟩
      rcases read with ⟨⟨⟨bodyPosition, body⟩, last⟩, bodyRead, read⟩
      cases read
      rcases readers.body betweenProper bodyRead with ⟨bodyShapes, restProper⟩
      rcases withReturn_shape bodyPosition bodyShapes with ⟨shapes, ended⟩
      exact ⟨.function distinct shapes ended, restProper⟩
  · simp at read

theorem statement_succ (signless : Signless allowed) (readers : StatementReaders allowed depth)
    {place : Surrounding} {node : Node} {stream rest : Stream} (proper : stream.IsProper allowed)
    (read : readStatement (depth + 1) place stream = .ok (node, rest)) :
    node.IsStatement allowed place.inLoop place.inFunction ∧ rest.IsProper allowed := by
  rw [readStatement] at read
  split at read
  · simp at read
  · rename_i token after nextEq
    have afterProper := (proper.next nextEq).2
    simp only at read
    split at read
    case h_1 => exact readers.function afterProper read
    case h_2 =>
        simp only [bind_eq_ok] at read
        rcases read with ⟨⟨condition, between⟩, conditionRead, read⟩
        rcases needExpression_shape signless afterProper conditionRead with
          ⟨conditionShape, betweenProper⟩
        rcases readers.branch conditionShape betweenProper read with ⟨⟨shape, _⟩, restProper⟩
        exact ⟨shape, restProper⟩
    case h_3 =>
        split at read
        · simp only [bind_eq_ok] at read
          rcases read with ⟨⟨⟨bodyPosition, body⟩, last⟩, bodyRead, read⟩
          cases read
          rcases readers.body afterProper bodyRead with ⟨bodyShapes, restProper⟩
          exact ⟨.endlessLoop bodyShapes, restProper⟩
        · simp only [bind_eq_ok] at read
          rcases read with ⟨⟨condition, between⟩, conditionRead, read⟩
          rcases needExpression_shape signless afterProper conditionRead with
            ⟨conditionShape, betweenProper⟩
          rcases read with ⟨⟨⟨bodyPosition, body⟩, last⟩, bodyRead, read⟩
          cases read
          rcases readers.body betweenProper bodyRead with ⟨bodyShapes, restProper⟩
          exact ⟨.whileLoop conditionShape bodyShapes, restProper⟩
    case h_4 =>
        simp only [bind_eq_ok] at read
        rcases read with ⟨⟨⟨bodyPosition, body⟩, last⟩, bodyRead, read⟩
        cases read
        rcases readers.body afterProper bodyRead with ⟨bodyShapes, restProper⟩
        exact ⟨.endlessLoop bodyShapes, restProper⟩
    case h_5 =>
        split at read
        · rename_i inside
          cases read
          rw [inside]
          exact ⟨.breaks _, afterProper⟩
        · simp at read
    case h_6 =>
        split at read
        · rename_i inside
          cases read
          rw [inside]
          exact ⟨.continues _, afterProper⟩
        · simp at read
    case h_7 => exact readReturn_shape signless afterProper read
    case h_8 => simp at read
    case h_9 =>
        simp only [bind_eq_ok] at read
        rcases read with ⟨⟨found, between⟩, foundRead, read⟩
        rcases needExpression_shape signless proper foundRead with ⟨shape, betweenProper⟩
        split at read
        · cases read
          exact ⟨shape.asStatement _ _, betweenProper⟩
        · rename_i following afterFollowing followingEq
          have followingProper := (betweenProper.next followingEq).2
          split at read
          · rcases readers.branch shape followingProper read with ⟨⟨branchShape, _⟩, restProper⟩
            exact ⟨branchShape, restProper⟩
          · split at read
            · rename_i op opEq
              exact readAssignment_shape signless shape
                (Token.Kind.assignment_isAssignment opEq) followingProper read
            · cases read
              exact ⟨shape.asStatement _ _, betweenProper⟩

/-- At every depth, every reader of statements returns statements. -/
theorem of_depth (signless : Signless allowed) (depth : Nat) : StatementReaders allowed depth := by
  induction depth with
  | zero => exact .zero allowed
  | succ depth readers =>
      exact {
        lines := readers.lines_succ
        body := readers.body_succ
        statement := readers.statement_succ signless
        branch := readers.branch_succ signless
        function := readers.function_succ }

end StatementReaders

end Statements

/-- Every program that is read from proper tokens has the shape of a program. -/
theorem Program.isShaped_ofTokens {allowed : Float → Prop} (signless : Signless allowed)
    {tokens : List Token} {program : Program}
    (proper : ∀ token ∈ tokens, token.kind.IsProper allowed)
    (read : Program.ofTokens tokens = .ok program) : program.IsShaped allowed := by
  simp only [Program.ofTokens, bind_eq_ok] at read
  rcases read with ⟨⟨⟨position, items⟩, last⟩, linesRead, read⟩
  have streamProper : Stream.IsProper allowed { rest := tokens } := proper
  rcases (StatementReaders.of_depth signless _).lines (by simp) streamProper linesRead with
    ⟨itemShapes, _⟩
  split at read
  · cases read
    exact itemShapes
  · split at read <;> simp at read

/-- A source has a program when a condition is decided to hold of its program. -/
theorem Program.exists_ofSource (source : String) (holds : Program → Prop) [DecidablePred holds]
    (accepted : (Program.ofSource source).toOption.any (fun program => decide (holds program)) =
      true) : ∃ program, Program.ofSource source = .ok program ∧ holds program := by
  cases read : Program.ofSource source with
  | error fault => simp [read, Except.toOption] at accepted
  | ok program => exact ⟨program, rfl, by simpa [read, Except.toOption] using accepted⟩

end Lehce

import Lehce.Proofs.Program.Blocks
import Lehce.Proofs.Program.Writable

/-!
# Every statement can be laid out

A statement whose bodies are not empty and whose names are words that are no keywords
can be laid out in lines that all have spellings (`Node.IsStatement.isLayable`). Every
body may be indented by one space more than its header, and every condition may stand in
parentheses.
-/

namespace Lehce

open Token (Kind Line)
open Token.Kind (Chained)

/-- Whether the names in a statement can be spelled, and its bodies are not empty. -/
inductive Node.IsPrintable : Node → Prop where
  | value {node : Node} (valued : node.isValued = true) (spellable : node.AllSpellable) :
      IsPrintable node
  | assignment {position : Position} {target value : Node} {op : Op}
      (targetSpellable : target.AllSpellable) (valueSpellable : value.AllSpellable) :
      IsPrintable (.assignment position target op value)
  | breaks {position : Position} : IsPrintable (.breaks position)
  | continues {position : Position} : IsPrintable (.continues position)
  | returns {position : Position} {value : Node} (spellable : value.AllSpellable) :
      IsPrintable (.returns position (some value))
  | returnsNothing {position valuePosition : Position} :
      IsPrintable (.returns position (some (.nothing valuePosition)))
  | function {position bodyPosition : Position} {name : String} {params : List String}
      {body : List Node} (named : IsIdentifier name)
      (paramsNamed : ∀ param ∈ params, IsIdentifier param)
      (bodyPrintable : ∀ item ∈ body, IsPrintable item) :
      IsPrintable (.function position name params bodyPosition body)
  | endlessLoop {position bodyPosition : Position} {body : List Node} (filled : body ≠ [])
      (bodyPrintable : ∀ item ∈ body, IsPrintable item) :
      IsPrintable (.endlessLoop position bodyPosition body)
  | whileLoop {position bodyPosition : Position} {condition : Node} {body : List Node}
      (spellable : condition.AllSpellable) (filled : body ≠ [])
      (bodyPrintable : ∀ item ∈ body, IsPrintable item) :
      IsPrintable (.whileLoop position condition bodyPosition body)
  | branch {position bodyPosition : Position} {condition : Node} {body : List Node}
      {otherwise : Option Node} (spellable : condition.AllSpellable) (filled : body ≠ [])
      (bodyPrintable : ∀ item ∈ body, IsPrintable item)
      (otherwisePrintable : ∀ other ∈ otherwise, IsPrintable other) :
      IsPrintable (.branch position condition bodyPosition body otherwise)
  | block {position : Position} {body : List Node} (filled : body ≠ [])
      (bodyPrintable : ∀ item ∈ body, IsPrintable item) : IsPrintable (.block position body)

/-- Whether a line has tokens, and can be spelled. -/
structure Token.Line.IsWritable (line : Line) : Prop where
  indented : 0 ≤ line.indent
  filled : line.kinds ≠ []
  chained : Chained line.kinds
  spellable : Spellable line.kinds

/-- Whether a statement, or what stands behind the body of a branch, can be laid out. -/
def IsLayable (place : Surrounding) (continuing : Bool) (node : Node) : Prop :=
  ∃ lines, IsLaid place.indent place continuing (some node) lines ∧
    ∀ line ∈ lines, line.IsWritable

section Headed

variable {place : Surrounding} {continuing : Bool} {node : Node} {header : Header}
  {kinds : List Kind} {body : List Node} {otherwise : Option Node}

theorem Node.IsSimple.isLayable (isSimple : node.IsSimple place kinds) (inside : 0 ≤ place.indent)
    (filled : kinds ≠ []) (chained : Chained kinds) (spellable : Spellable kinds) :
    IsLayable place false node :=
  ⟨_, .simple isSimple, List.forall_mem_singleton.2 ⟨inside, filled, chained, spellable⟩⟩

/-- A header with a body can be laid out when all parts of it can. -/
theorem isLayable_headed (opens : header.Opens continuing kinds) (inside : 0 ≤ place.indent)
    (chained : Chained kinds) (spellable : Spellable kinds) (filled : body ≠ [])
    (bodyLayable : ∀ item ∈ body,
      IsLayable { header.inside place with indent := place.indent + 1 } false item)
    (belongs : header.isBranch = false → otherwise = none)
    (otherwiseLayable : ∀ other ∈ otherwise, IsLayable place true other)
    (same : node.bare = header.node (body.map Node.bare) (otherwise.map Node.bare)) :
    IsLayable place continuing node := by
  have each : ∀ item ∈ body, ∃ laid : Node × List Line, laid.1 = item ∧
      IsLaid (place.indent + 1) { header.inside place with indent := place.indent + 1 } false
        (some laid.1) laid.2 ∧ ∀ line ∈ laid.2, line.IsWritable := by
    intro item member
    rcases bodyLayable item member with ⟨lines, laid, writable⟩
    exact ⟨(item, lines), rfl, laid, writable⟩
  rcases Node.exists_descriptions each with ⟨items, rfl, itemsLaid⟩
  have other : ∃ lines, IsLaid place.indent place true otherwise lines ∧
      ∀ line ∈ lines, line.IsWritable := by
    cases otherwise with
    | none => exact ⟨[], .nothing, by simp⟩
    | some other => exact otherwiseLayable other rfl
  rcases other with ⟨lines, otherwiseLaid, writable⟩
  have nonempty : items ≠ [] := by simpa using filled
  refine ⟨_, .headed opens (by omega) (fun _ => by omega) nonempty
    (fun item member => (itemsLaid item member).1) belongs otherwiseLaid
    (by simpa [Function.comp_def] using same), ?_⟩
  refine List.forall_mem_cons.2 ⟨⟨inside, by simp, ?_, ?_⟩, ?_⟩
  · exact Chained.append chained (Token.Kind.chained_singleton _) (by simp [Token.Kind.isAtom])
  · exact spellable.append (spellable_nil.operator (by decide))
  · intro line member
    rcases List.mem_append.1 member with inBody | inOtherwise
    · rcases List.mem_flatMap.1 inBody with ⟨item, inItems, inLines⟩
      exact (itemsLaid item inItems).2 line inLines
    · exact writable line inOtherwise

theorem spellable_keyword {word : Keyword} {spelling : String}
    (known : (spelling, word) ∈ Keyword.spellings) (spellable : Spellable kinds) :
    Spellable (.keyword word :: kinds) :=
  List.forall_mem_cons.2 ⟨⟨_, .keyword known⟩, spellable⟩

/-- In parentheses a condition may stand behind every word. -/
theorem exists_condition {condition : Node} (shape : condition.IsExpression Number.IsFinite)
    (spellable : condition.AllSpellable) (word : Kind) :
    ∃ kinds, condition.IsWritten 0 kinds ∧ Chained (word :: kinds) ∧ Spellable kinds := by
  rcases shape.isWritable spellable with ⟨kinds, written, line⟩
  have chained := Token.Kind.chained_parenthesized written.chained
  refine ⟨parenthesized kinds, .group written, ?_, spellable_parenthesized line⟩
  exact Chained.append (Token.Kind.chained_singleton word) chained
    (by simp [Token.Kind.isAtom])

end Headed

namespace Node

variable {place : Surrounding} {node : Node}

theorem IsPrintable.allSpellable (printable : node.IsPrintable) (valued : node.isValued = true) :
    node.AllSpellable := by
  cases printable <;> first | assumption | cases valued

theorem asStatement_of_not_isEffect (lasting : node.isEffect = false) :
    node.asStatement = node := by
  cases node with
  | prefixed _ op => cases op <;> first | rfl | cases lasting
  | call | suffixed => cases lasting
  | _ => rfl

theorem isBranch_of_isValued (valued : node.isValued = true) : node.isBranch = false := by
  cases node <;> first | rfl | cases valued

theorem allSpellable_iff :
    node.AllSpellable ↔ node.IsSpellable ∧ ∀ part ∈ node.parts, part.AllSpellable := by
  constructor
  · exact fun spellable => ⟨spellable.here, fun part member => spellable.part member⟩
  · rintro ⟨here, below⟩ occurrence member
    rcases mem_occurrences_iff.1 member with rfl | ⟨part, inParts, inside⟩
    · exact here
    · exact below part inParts occurrence inside

theorem AllSpellable.of_parts {other : Node} (spellable : other.AllSpellable)
    (here : other.IsSpellable → node.IsSpellable) (same : node.parts = other.parts) :
    node.AllSpellable :=
  allSpellable_iff.2 ⟨here spellable.here, fun _ member => spellable.part (same ▸ member)⟩

/-- Whether the value of an expression is used does not matter to how it is spelled. -/
theorem AllSpellable.of_asStatement (spellable : node.asStatement.AllSpellable) :
    node.AllSpellable := by
  cases node with
  | prefixed _ op =>
      refine spellable.of_parts ?_ ?_ <;> cases op <;> first | exact id | rfl
  | call | suffixed => exact spellable.of_parts id rfl
  | _ => exact spellable

theorem isLayable_value {expression : Node} (shape : expression.IsExpression Number.IsFinite)
    (printable : expression.asStatement.IsPrintable)
    (valued : expression.asStatement.isValued = true) (inside : 0 ≤ place.indent) :
    IsLayable place false expression.asStatement := by
  have spellable := (printable.allSpellable valued).of_asStatement
  rcases shape.isWritable spellable with ⟨kinds, written, line⟩
  have filled : kinds ≠ [] := by
    rcases written.opens with ⟨kind, others, rfl, -⟩
    simp
  exact (IsSimple.value written).isLayable inside filled written.chained line

/-- Every operator that assigns has a mark. -/
theorem exists_assignment {op : Op} (assigns : op.isAssignment) :
    ∃ mark, mark ≠ Operator.unknown ∧ Token.Kind.assignment? (.operator mark) = some op ∧
      Token.Kind.allowsColon (.operator mark) = false := by
  cases op with
  | assign => exact ⟨.assign, by decide, rfl, rfl⟩
  | assignAdd => exact ⟨.assignPlus, by decide, rfl, rfl⟩
  | assignSubtract => exact ⟨.assignMinus, by decide, rfl, rfl⟩
  | assignMultiply => exact ⟨.assignTimes, by decide, rfl, rfl⟩
  | assignDivide => exact ⟨.assignDivide, by decide, rfl, rfl⟩
  | _ => cases assigns

theorem isLayable_assignment {position : Position} {target value : Node} {op : Op}
    (isTarget : target.IsTarget) (targetWritable : target.IsWritable) (assigns : op.isAssignment)
    (valueWritable : value.IsWritable) (inside : 0 ≤ place.indent) :
    IsLayable place false (.assignment position target op value) := by
  rcases targetWritable with ⟨targetKinds, targetWritten, targetLine⟩
  rcases valueWritable with ⟨valueKinds, valueWritten, valueLine⟩
  rcases exists_assignment assigns with ⟨mark, known, marks, apart⟩
  have chained : Chained (targetKinds ++ .operator mark :: valueKinds) :=
    targetWritten.chained.append (valueWritten.chained.cons apart) (by simp [Token.Kind.isAtom])
  exact (IsSimple.assignment isTarget targetWritten marks valueWritten).isLayable inside (by simp)
    chained (targetLine.append (valueLine.operator known))

theorem isLayable_returns {position : Position} {value : Node}
    (shape : value.IsExpression Number.IsFinite)
    (printable : (Node.returns position (some value)).IsPrintable)
    (inFunction : place.inFunction = true) (inside : 0 ≤ place.indent) :
    IsLayable place false (.returns position (some value)) := by
  have spelling : ("return", Keyword.returnWord) ∈ Keyword.spellings := by decide
  cases printable with
  | value valued => cases valued
  | returns spellable =>
      rcases shape.isWritable spellable with ⟨kinds, written, line⟩
      exact (IsSimple.returns inFunction written).isLayable inside (by simp)
        (written.chained.cons rfl) (spellable_keyword spelling line)
  | returnsNothing =>
      exact (IsSimple.returnsNothing inFunction).isLayable inside (by simp)
        (Token.Kind.chained_singleton _) (spellable_keyword spelling spellable_nil)

theorem withReturn_of_ended {position : Position} {body : List Node} (ended : EndsWithReturn body) :
    withReturn position body = body := by
  rcases ended with ⟨front, returnPosition, value, rfl⟩
  simp [withReturn]

theorem EndsWithReturn.map_bare {body : List Node} (ended : EndsWithReturn body) :
    EndsWithReturn (body.map bare) := by
  rcases ended with ⟨front, position, value, rfl⟩
  exact ⟨front.map bare, .origin, value.map bare, by simp⟩

/-- The header of a function can be spelled. -/
theorem spellable_function {name : String} {params : List String} (named : IsIdentifier name)
    (paramsNamed : ∀ param ∈ params, IsIdentifier param) :
    Chained (.keyword .functionWord :: .symbol name ::
        parenthesized (commaSeparated (params.map fun param => [.symbol param]))) ∧
      Spellable (.keyword .functionWord :: .symbol name ::
        parenthesized (commaSeparated (params.map fun param => [.symbol param]))) := by
  have spelling : ("fn", Keyword.functionWord) ∈ Keyword.spellings := by decide
  have paramsChained : ∀ part ∈ params.map fun param => [Kind.symbol param], Chained part :=
    List.forall_mem_map.2 fun param _ => Token.Kind.chained_singleton (.symbol param)
  have paramsSpellable : ∀ part ∈ params.map fun param => [Kind.symbol param], Spellable part :=
    List.forall_mem_map.2 fun param member =>
      spellable_identifier (paramsNamed param member) spellable_nil
  have list := Token.Kind.chained_parenthesized (Token.Kind.chained_commaSeparated paramsChained)
  have line := spellable_parenthesized (spellable_commaSeparated paramsSpellable)
  constructor
  · refine Chained.cons ?_ rfl
    exact Chained.append (Token.Kind.chained_singleton (.symbol name)) list
      (by simp [Token.Kind.isAtom])
  · exact spellable_keyword spelling (spellable_identifier named line)

/-- A branch can be laid out as a statement, and behind the body of another branch. -/
theorem isLayable_branch {position bodyPosition : Position} {condition : Node} {body : List Node}
    {otherwise : Option Node} (conditionShape : condition.IsExpression Number.IsFinite)
    (spellable : condition.AllSpellable) (filled : body ≠ []) (inside : 0 ≤ place.indent)
    (bodyLayable : ∀ item ∈ body,
      IsLayable { place with indent := place.indent + 1 } false item)
    (otherwiseLayable : ∀ other ∈ otherwise, IsLayable place true other) :
    IsLayable place false (.branch position condition bodyPosition body otherwise) ∧
      ((branch position condition bodyPosition body otherwise).isBranch = true →
        IsLayable place true (.branch position condition bodyPosition body otherwise)) := by
  have ifSpelling : ("if", Keyword.ifWord) ∈ Keyword.spellings := by decide
  have elseSpelling : ("else", Keyword.elseWord) ∈ Keyword.spellings := by decide
  have same : (branch position condition bodyPosition body otherwise).bare =
      (Header.branch condition).node (body.map bare) (otherwise.map bare) := by
    simp [Header.node]
  constructor
  · rcases exists_condition conditionShape spellable (.keyword .ifWord) with
      ⟨kinds, written, chained, line⟩
    exact isLayable_headed (.branch written) inside chained (spellable_keyword ifSpelling line)
      filled bodyLayable (by simp [Header.isBranch]) otherwiseLayable same
  · intro _
    rcases exists_condition conditionShape spellable (.keyword .elseWord) with
      ⟨kinds, written, chained, line⟩
    exact isLayable_headed (.elseBranch written false false) inside
      (by simpa [Header.optionalIf] using chained)
      (by simpa [Header.optionalIf] using spellable_keyword elseSpelling line)
      filled bodyLayable (by simp [Header.isBranch]) otherwiseLayable same

/-- Every statement can be laid out, and every branch also behind the body of another one. -/
theorem IsStatement.isLayable {inLoop inFunction : Bool}
    (shape : node.IsStatement Number.IsFinite inLoop inFunction) (printable : node.IsPrintable)
    (loops : place.inLoop = inLoop) (functions : place.inFunction = inFunction)
    (inside : 0 ≤ place.indent) :
    IsLayable place false node ∧ (node.isBranch = true → IsLayable place true node) := by
  induction shape generalizing place with
  | @value _ _ node shape lasting =>
      have same := asStatement_of_not_isEffect lasting
      have noBranch := isBranch_of_isValued shape.isValued
      have valued : node.asStatement.isValued = true := by
        rw [same]
        exact shape.isValued
      have layable := isLayable_value shape (same.symm ▸ printable) valued inside
      rw [same] at layable
      exact ⟨layable, fun isBranch => absurd isBranch (by simp [noBranch])⟩
  | @call _ _ position callee args named argShapes =>
      have used : (Node.call position callee args true).IsExpression Number.IsFinite :=
        .call named argShapes
      exact ⟨isLayable_value used printable rfl inside, by simp [isBranch]⟩
  | @stepBefore _ _ position op steps operandPosition name =>
      have used : (Node.prefixed position op (.symbol operandPosition name) true).IsExpression
          Number.IsFinite := .stepBefore steps _ _
      refine ⟨?_, by simp [isBranch]⟩
      cases op <;> first | exact isLayable_value used printable rfl inside | cases steps
  | @stepAfter _ _ position op steps operandPosition name =>
      have used : (Node.suffixed position op (.symbol operandPosition name) true).IsExpression
          Number.IsFinite := .stepAfter steps _ _
      exact ⟨isLayable_value used printable rfl inside, by simp [isBranch]⟩
  | assignment assigns targetPosition name valueShape =>
      cases printable with
      | value valued => cases valued
      | assignment targetSpellable valueSpellable =>
          exact ⟨isLayable_assignment (.symbol _ _) (isWritable_symbol _ targetSpellable.here)
            assigns (valueShape.isWritable valueSpellable) inside, by simp [isBranch]⟩
  | itemAssignment assigns targetPosition bodyShape keyShape valueShape =>
      cases printable with
      | value valued => cases valued
      | assignment targetSpellable valueSpellable =>
          have target := (IsExpression.index bodyShape keyShape).isWritable targetSpellable
          exact ⟨isLayable_assignment (.index _ _ _) target assigns
            (valueShape.isWritable valueSpellable) inside, by simp [isBranch]⟩
  | breaks position =>
      have spelling : ("break", Keyword.breakWord) ∈ Keyword.spellings := by decide
      exact ⟨(IsSimple.breaks loops).isLayable inside (by simp) (Token.Kind.chained_singleton _)
        (spellable_keyword spelling spellable_nil), by simp [isBranch]⟩
  | continues position =>
      have spelling : ("continue", Keyword.continueWord) ∈ Keyword.spellings := by decide
      exact ⟨(IsSimple.continues loops).isLayable inside (by simp)
        (Token.Kind.chained_singleton _) (spellable_keyword spelling spellable_nil), by simp [isBranch]⟩
  | returns valueShape => exact ⟨isLayable_returns valueShape printable functions inside, by simp [isBranch]⟩
  | @function _ _ position bodyPosition name params body distinct bodyShapes ended bodyLayable =>
      cases printable with
      | value valued => cases valued
      | function named paramsNamed bodyPrintable =>
          rcases spellable_function named paramsNamed with ⟨chained, line⟩
          have filled : body ≠ [] := by
            rcases ended with ⟨front, returnPosition, value, rfl⟩
            simp
          refine ⟨isLayable_headed (.function distinct) inside chained line filled
            (fun item member => ?_) (fun _ => rfl) (by simp) ?_, by simp [isBranch]⟩
          · exact And.left (bodyLayable item member (bodyPrintable item member) rfl rfl
              (Int.add_nonneg inside (by decide)))
          · simp [bare, Header.node, withReturn_of_ended ended.map_bare]
  | @endlessLoop _ inFunction position bodyPosition body bodyShapes bodyLayable =>
      cases printable with
      | value valued => cases valued
      | endlessLoop filled bodyPrintable =>
          have spelling : ("endless", Keyword.endlessWord) ∈ Keyword.spellings := by decide
          refine ⟨isLayable_headed .endless inside (Token.Kind.chained_singleton _)
            (spellable_keyword spelling spellable_nil) filled (fun item member => ?_)
            (fun _ => rfl) (by simp) (by simp [bare, Header.node]), by simp [isBranch]⟩
          exact And.left (bodyLayable item member (bodyPrintable item member) rfl functions
            (Int.add_nonneg inside (by decide)))
  | @whileLoop _ inFunction position bodyPosition condition body conditionShape bodyShapes
      bodyLayable =>
      cases printable with
      | value valued => cases valued
      | whileLoop spellable filled bodyPrintable =>
          have spelling : ("while", Keyword.loopWord) ∈ Keyword.spellings := by decide
          rcases exists_condition conditionShape spellable (.keyword .loopWord) with
            ⟨kinds, written, chained, line⟩
          refine ⟨isLayable_headed (.loop written) inside chained (spellable_keyword spelling line)
            filled (fun item member => ?_) (fun _ => rfl) (by simp) (by simp [bare, Header.node]),
            by simp [isBranch]⟩
          exact And.left (bodyLayable item member (bodyPrintable item member) rfl functions
            (Int.add_nonneg inside (by decide)))
  | branch conditionShape bodyShapes bodyLayable =>
      cases printable with
      | value valued => cases valued
      | branch spellable filled bodyPrintable =>
          have otherwiseLayable : ∀ piece ∈ (none : Option Node), IsLayable place true piece := by
            simp
          exact isLayable_branch conditionShape spellable filled inside
            (fun item member => And.left (bodyLayable item member (bodyPrintable item member) loops
              functions (Int.add_nonneg inside (by decide)))) otherwiseLayable
  | @branchElse _ _ position bodyPosition otherPosition condition body other conditionShape
      bodyShapes otherShapes bodyLayable otherLayable =>
      cases printable with
      | value valued => cases valued
      | branch spellable filled bodyPrintable otherwisePrintable =>
          have alternative : IsLayable place true (.block otherPosition other) := by
            cases otherwisePrintable _ rfl with
            | value valued => cases valued
            | block otherFilled otherPrintable =>
                have spelling : ("else", Keyword.elseWord) ∈ Keyword.spellings := by decide
                refine isLayable_headed .alternative inside (Token.Kind.chained_singleton _)
                  (spellable_keyword spelling spellable_nil) otherFilled (fun item member => ?_)
                  (fun _ => rfl) (by simp) (by simp [bare, Header.node])
                exact And.left (otherLayable item member (otherPrintable item member) loops
                  functions (Int.add_nonneg inside (by decide)))
          have otherwiseLayable : ∀ piece ∈ some (.block otherPosition other),
              IsLayable place true piece := by
            rintro _ ⟨⟩
            exact alternative
          exact isLayable_branch conditionShape spellable filled inside
            (fun item member => And.left (bodyLayable item member (bodyPrintable item member) loops
              functions (Int.add_nonneg inside (by decide)))) otherwiseLayable
  | @branchChain _ _ position bodyPosition condition body other conditionShape bodyShapes chained
      otherShape bodyLayable otherLayable =>
      cases printable with
      | value valued => cases valued
      | branch spellable filled bodyPrintable otherwisePrintable =>
          have chain := otherLayable (otherwisePrintable _ rfl) loops functions inside
          have otherwiseLayable : ∀ piece ∈ some other, IsLayable place true piece := by
            rintro _ ⟨⟩
            exact chain.2 chained
          exact isLayable_branch conditionShape spellable filled inside
            (fun item member => And.left (bodyLayable item member (bodyPrintable item member) loops
              functions (Int.add_nonneg inside (by decide)))) otherwiseLayable

end Node

end Lehce

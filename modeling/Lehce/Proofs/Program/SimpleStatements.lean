import Lehce.Program.Statement
import Lehce.Proofs.Program.Contract
import Lehce.Proofs.Program.Rereading

/-!
# Written simple statements are read back

A statement that starts like an expression is read by the reader of expressions
first; what follows on the line then decides whether it is an assignment.
-/

namespace Lehce

open Token (Kind)

variable {depth : Nat} {place : Surrounding} {stream : Stream} {kinds more : List Kind}
  {tail : List Token} {indent : Int} {node : Node}

/-- A written expression that must be there is read back. -/
theorem needExpression_written (depth : Nat) (missing : Stream → Fault)
    (written : node.IsWritten 0 kinds) (holds : stream.Holds (kinds ++ more) tail indent)
    (next : Stream.NextIs false (Kind.stops 0) more tail) (enough : 8 * kinds.length ≤ depth) :
    ∃ result rest, result.bare = node.bare ∧ rest.Holds more tail indent ∧
      needExpression depth missing stream = .ok (result, rest) := by
  rcases written.reads.whole holds next enough with ⟨result, rest, same, holds, read⟩
  refine ⟨result, rest, same, holds, ?_⟩
  simp [needExpression, read, bind, Except.bind]
  rfl

/-- A statement that starts like an expression is read as one and then by what follows it. -/
theorem readStatement_of_opens {token : Token} {after : Stream}
    (found : stream.next? false = some (token, after)) (opens : token.kind.opens = true) :
    readStatement (depth + 1) place stream = do
      let (node, rest) ← needExpression depth
        (fun _ => .detailed .syntaxError token.position ("unexpected " ++ token.kind.show)) stream
      match rest.next? false with
      | none => return (node.asStatement, rest)
      | some (following, afterFollowing) =>
        if following.isKeyword .ifWord then
          readBranch depth place node.position node afterFollowing
        else match following.kind.assignment? with
          | some op => readAssignment depth node op following afterFollowing
          | none => return (node.asStatement, rest) := by
  rw [readStatement]
  simp only [found]
  cases kindEq : token.kind with
  | keyword word =>
      -- the keywords that start a statement of their own open no expression
      rw [kindEq] at opens
      cases word <;> first | rfl | cases opens
  | _ => rfl

/-- Whether the first token of a written tree comes next, and that it opens an expression. -/
theorem Node.IsWritten.next {least : Nat} (written : node.IsWritten least kinds)
    (holds : stream.Holds (kinds ++ more) tail indent) :
    ∃ token after, stream.next? false = some (token, after) ∧ token.kind.opens = true := by
  rcases written.opens with ⟨kind, rest, rfl, opens⟩
  rcases holds.next false with ⟨token, after, found, same, -⟩
  exact ⟨token, after, found, same ▸ opens⟩

theorem Token.Kind.stops_of_assignment {kind : Kind} {op : Op}
    (marks : kind.assignment? = some op) : kind.stops 0 = true := by
  unfold assignment? at marks
  split at marks <;> first | rfl | cases marks

theorem Node.IsTarget.of_bare {target : Node} (isTarget : target.IsTarget)
    (same : node.bare = target.bare) : node.IsTarget := by
  cases isTarget with
  | symbol position name =>
      rcases eq_symbol_of_bare same with ⟨position, rfl⟩
      exact .symbol position name
  | index position body key =>
      cases node <;> first | exact .index _ _ _ | simp [bare] at same

/-- A written assignment is read back. -/
theorem readStatement_assignment {target value : Node} {targetKinds valueKinds : List Kind}
    {kind : Kind} {op : Op} (position : Position) (isTarget : target.IsTarget)
    (targetWritten : target.IsWritten 0 targetKinds) (marks : kind.assignment? = some op)
    (valueWritten : value.IsWritten 0 valueKinds)
    (holds : stream.Holds (targetKinds ++ kind :: valueKinds) tail indent)
    (ends : LineEnds tail) (enough : 8 * (targetKinds ++ kind :: valueKinds).length ≤ depth) :
    ∃ result rest, result.bare = (Node.assignment position target op value).bare ∧
      rest.Holds [] tail indent ∧ readStatement (depth + 1) place stream = .ok (result, rest) := by
  simp only [List.length_append, List.length_cons] at enough
  rcases targetWritten.next holds with ⟨token, after, found, opens⟩
  rw [readStatement_of_opens found opens]
  have targetEnds : Stream.NextIs false (Kind.stops 0) (kind :: valueKinds) tail :=
    Token.Kind.stops_of_assignment marks
  rcases needExpression_written depth
      (fun _ => .detailed .syntaxError token.position ("unexpected " ++ token.kind.show))
      targetWritten holds targetEnds (by omega) with
    ⟨targetResult, rest, targetSame, holds, readTarget⟩
  rcases holds.next false with ⟨mark, afterMark, foundMark, isMark, holds⟩
  have ahead : afterMark.Holds (valueKinds ++ []) tail indent := by simpa using holds
  rcases needExpression_written depth (fun _ => missingRight mark) valueWritten ahead ⟨rfl, ends⟩
      (by omega) with
    ⟨valueResult, last, valueSame, holds, readValue⟩
  refine ⟨.assignment targetResult.position targetResult op valueResult, last,
    by simp [Node.bare, targetSame, valueSame], holds, ?_⟩
  have noBranch : mark.isKeyword .ifWord = false := by
    unfold Token.isKeyword
    split
    · rename_i word isWord
      rw [← isMark, isWord] at marks
      cases marks
    · rfl
  have assigned : readAssignment depth targetResult op mark afterMark =
      .ok (.assignment targetResult.position targetResult op valueResult, last) := by
    cases isTarget.of_bare targetSame <;>
      simp [readAssignment, readValue, bind, Except.bind] <;> rfl
  simp [readTarget, foundMark, noBranch, isMark, marks, assigned, bind, Except.bind]

end Lehce

import Lehce.Proofs.Program.StatementProgress
import Lehce.Proofs.Program.Trimming

/-!
# Reading programs without a blank

A blank that stands behind the first column may be left out between any two tokens of a
program that is read: the program is read again, and every node of it stands on the same
line (`Program.ofTokens_of_trims`).
-/

namespace Lehce

variable {depth less : Nat} {place : Surrounding} {stream other : Stream}

/-- What is seen of a body, up to columns. -/
def bodyAtMargin (body : Position × List Node) : Position × List Node :=
  (body.1.atMargin, body.2.map Node.atMargin)

/-- What was read of a body is gone on with. -/
theorem Follows.bindBody {α β : Type} {wanted : α → β → Prop}
    {first second : Except Fault ((Position × List Node) × Stream)}
    {next : (Position × List Node) × Stream → Except Fault α}
    {nextSecond : (Position × List Node) × Stream → Except Fault β}
    (follows : Follows (Stream.Agree bodyAtMargin) first second)
    (goesOn : ∀ position twinPosition body twinBody rest others,
      position.atMargin = twinPosition.atMargin →
      body.map Node.atMargin = twinBody.map Node.atMargin → rest.Trims others →
      Follows wanted (next ((position, body), rest))
        (nextSecond ((twinPosition, twinBody), others))) :
    Follows wanted (first >>= next) (second >>= nextSecond) := by
  apply follows.bindRead
  rintro ⟨position, body⟩ ⟨twinPosition, twinBody⟩ rest others same trims
  rcases Prod.mk.inj same with ⟨samePosition, sameBody⟩
  exact goesOn position twinPosition body twinBody rest others samePosition sameBody trims

theorem follows_needExpression {missing twinMissing : Stream → Fault} (trims : stream.Trims other) :
    Follows (Stream.Agree Node.atMargin) (needExpression depth missing stream)
      (needExpression less twinMissing other) := by
  apply ((ExpressionTrims.of_depth depth less).expression trims).bindFound
  · intro rest others _
    trivial
  · intro node twin rest others same further
    exact ⟨same, further⟩

theorem follows_readParams {params : List String} (trims : stream.Trims other) :
    Follows (Stream.Agree id) (readParams depth params stream) (readParams less params other) := by
  induction depth generalizing less params stream other with
  | zero => trivial
  | succ depth ih =>
      cases less with
      | zero => exact follows_outOfDepth _
      | succ less =>
          rw [readParams, readParams]
          rcases trims.next true with ⟨first, second⟩ |
            ⟨token, after, twin, behind, first, second, same, further⟩
          · simp only [first]
            trivial
          · simp only [first, second, same.kind]
            split
            · split
              · trivial
              · rcases further.accept true .rightParenthesis with ⟨first, second⟩ |
                  ⟨closed, twinClosed, first, second, last⟩
                · simp only [first, second]
                  rcases further.accept true .comma with ⟨first, second⟩ |
                    ⟨more, twinMore, first, second, last⟩
                  · simp only [first]
                    trivial
                  · simp only [first, second]
                    exact ih last
                · simp only [first, second]
                  exact ⟨rfl, last⟩
            · trivial

theorem follows_readParameters (trims : stream.Trims other) :
    Follows (Stream.Agree id) (readParameters depth stream) (readParameters less other) := by
  rw [readParameters, readParameters]
  rcases trims.accept true .rightParenthesis with ⟨first, second⟩ |
    ⟨closed, twinClosed, first, second, last⟩
  · simp only [first, second]
    exact follows_readParams trims
  · simp only [first, second]
    exact ⟨rfl, last⟩

theorem follows_readReturn {token twin : Token} (same : token.Matches twin)
    (trims : stream.Trims other) :
    Follows (Stream.Agree Node.atMargin) (readReturn depth place token stream)
      (readReturn less place twin other) := by
  have placed := same.position
  have bare : (Node.returns token.position (some (.nothing token.position))).atMargin =
      (Node.returns twin.position (some (.nothing twin.position))).atMargin := by
    simp [Node.atMargin, placed]
  rw [readReturn, readReturn]
  simp only [trims.atLineEnd]
  split
  · trivial
  · split
    · exact ⟨bare, trims⟩
    · apply ((ExpressionTrims.of_depth depth less).expression trims).bindFound
      · intro rest others further
        exact ⟨bare, further⟩
      · intro node twinNode rest others sameNode further
        exact ⟨by simp [placed, sameNode], further⟩

theorem follows_readAssignment {target twinTarget : Node} {op : Op} {token twin : Token}
    (alike : target.atMargin = twinTarget.atMargin) (trims : stream.Trims other) :
    Follows (Stream.Agree Node.atMargin) (readAssignment depth target op token stream)
      (readAssignment less twinTarget op twin other) := by
  have assigned : Follows (Stream.Agree Node.atMargin)
      (needExpression depth (fun _ => missingRight token) stream >>= fun read =>
        pure (Node.assignment target.position target op read.1, read.2))
      (needExpression less (fun _ => missingRight twin) other >>= fun read =>
        pure (Node.assignment twinTarget.position twinTarget op read.1, read.2)) := by
    apply (follows_needExpression trims).bindRead
    intro value twinValue rest others same further
    exact ⟨by simp only [Node.atMargin, alike, Node.position_of_atMargin alike, same], further⟩
  unfold readAssignment
  split
  · rcases Node.eq_symbol_of_atMargin alike with ⟨place, rfl, -⟩
    exact assigned
  · rcases Node.eq_index_of_atMargin alike with ⟨place, body, key, rfl⟩
    exact assigned
  · trivial

/-- What every reader of statements does without some blanks. -/
structure StatementTrims (depth less : Nat) : Prop where
  lines : ∀ {place : Surrounding} {start twinStart : Position} {items others : List Node}
    {stream other : Stream}, start.atMargin = twinStart.atMargin →
    items.map Node.atMargin = others.map Node.atMargin → stream.Trims other →
    Follows (Stream.Agree bodyAtMargin) (readLines depth place start items stream)
      (readLines less place twinStart others other)
  body : ∀ {place : Surrounding} {stream other : Stream}, stream.Trims other →
    Follows (Stream.Agree bodyAtMargin) (readBody depth place stream) (readBody less place other)
  statement : ∀ {place : Surrounding} {stream other : Stream}, stream.Trims other →
    Follows (Stream.Agree Node.atMargin) (readStatement depth place stream)
      (readStatement less place other)
  branch : ∀ {place : Surrounding} {position twinPosition : Position} {condition twin : Node}
    {stream other : Stream}, position.atMargin = twinPosition.atMargin →
    condition.atMargin = twin.atMargin → stream.Trims other →
    Follows (Stream.Agree Node.atMargin) (readBranch depth place position condition stream)
      (readBranch less place twinPosition twin other)
  function : ∀ {place : Surrounding} {token twin : Token} {stream other : Stream},
    token.Matches twin → stream.Trims other →
    Follows (Stream.Agree Node.atMargin) (readFunction depth place token stream)
      (readFunction less place twin other)

namespace StatementTrims

theorem lines_succ (readers : ∀ less, StatementTrims depth less) {start twinStart : Position}
    {items others : List Node} (sameStart : start.atMargin = twinStart.atMargin)
    (alike : items.map Node.atMargin = others.map Node.atMargin) (trims : stream.Trims other) :
    Follows (Stream.Agree bodyAtMargin) (readLines (depth + 1) place start items stream)
      (readLines less place twinStart others other) := by
  have ended : bodyAtMargin (start, items.reverse) = bodyAtMargin (twinStart, others.reverse) := by
    simp only [bodyAtMargin, sameStart, List.map_reverse, alike]
  have sameLength : items.isEmpty = others.isEmpty := by
    rw [← List.isEmpty_map (f := Node.atMargin), alike, List.isEmpty_map]
  cases less with
  | zero => exact follows_outOfDepth _
  | succ less =>
      rw [readLines, readLines]
      rcases trims.nextLine with ⟨first, second⟩ |
        ⟨token, indent, line, twin, twinLine, first, second, same, further⟩
      · simp only [first, second]
        exact ⟨ended, trims⟩
      · simp only [first, second, sameLength]
        split
        · exact ⟨ended, trims⟩
        · split
          · trivial
          · apply ((readers less).statement further).bindRead
            intro statement twinStatement rest others sameStatement last
            simp only [last.atLineEnd]
            split
            · trivial
            · refine (readers less).lines ?_ ?_ last
              · split
                · exact same.position
                · exact sameStart
              · simp only [List.map_cons, alike, sameStatement]

theorem body_succ (readers : ∀ less, StatementTrims depth less) (trims : stream.Trims other) :
    Follows (Stream.Agree bodyAtMargin) (readBody (depth + 1) place stream)
      (readBody less place other) := by
  cases less with
  | zero => exact follows_outOfDepth _
  | succ less =>
      rw [readBody, readBody]
      rcases trims.accept false .colon with ⟨first, second⟩ |
        ⟨after, behind, first, second, further⟩
      · simp only [first]
        trivial
      · simp only [first, second, further.atLineEnd]
        split
        · rcases further.nextLine with ⟨first, second⟩ |
            ⟨token, indent, line, twin, twinLine, first, second, -, -⟩
          · simp only [first]
            trivial
          · simp only [first, second]
            split
            · trivial
            · exact (readers less).lines (further.here false) rfl further
        · apply ((readers less).statement further).bindRead
          intro statement twinStatement rest others sameStatement last
          refine ⟨?_, last⟩
          simp only [bodyAtMargin, further.here false, List.map_cons, List.map_nil, sameStatement]

theorem branch_succ (readers : ∀ less, StatementTrims depth less)
    {position twinPosition : Position} {condition twin : Node}
    (samePosition : position.atMargin = twinPosition.atMargin)
    (alike : condition.atMargin = twin.atMargin) (trims : stream.Trims other) :
    Follows (Stream.Agree Node.atMargin) (readBranch (depth + 1) place position condition stream)
      (readBranch less place twinPosition twin other) := by
  cases less with
  | zero => exact follows_outOfDepth _
  | succ less =>
      rw [readBranch, readBranch]
      apply ((readers less).body trims).bindBody
      intro bodyPosition twinBodyPosition body twinBody rest twinRest sameBodyPosition sameItems
        further
      have branch : ∀ {otherwise twinOtherwise : Option Node},
          otherwise.map Node.atMargin = twinOtherwise.map Node.atMargin →
          (Node.branch position condition bodyPosition body otherwise).atMargin =
            (Node.branch twinPosition twin twinBodyPosition twinBody twinOtherwise).atMargin := by
        intro otherwise twinOtherwise sameOtherwise
        rw [Node.atMargin_branch, Node.atMargin_branch, samePosition, alike, sameOtherwise]
        rw [sameBodyPosition, sameItems]
      simp only
      rcases further.nextLine with ⟨first, second⟩ |
        ⟨token, indent, line, twinToken, twinLine, first, second, same, last⟩
      · simp only [first, second]
        exact ⟨branch rfl, further⟩
      · simp only [first, second, same.isKeyword]
        split
        · exact ⟨branch rfl, further⟩
        · rcases last.next false with ⟨first, second⟩ |
            ⟨elseToken, after, twinElse, behind, first, second, -, following⟩
          · simp only [first, second]
            exact ⟨branch rfl, further⟩
          · simp only [first, second, following.isAt]
            split
            · apply ((readers less).body following).bindBody
              intro otherPosition twinPosition other twinOther rest twinRest sameOtherPosition
                sameItems final
              refine ⟨branch ?_, final⟩
              simp only [Option.map_some, Node.atMargin, Node.allAtMargin_eq_map]
              rw [sameOtherPosition, sameItems]
            · apply (follows_needExpression (following.acceptKeyword false .ifWord)).bindRead
              intro otherCondition twinCondition rest others sameCondition between
              apply ((readers less).branch same.position sameCondition
                (between.acceptKeyword false .ifWord)).bindRead
              intro other twinOther rest others sameOther final
              exact ⟨branch (congrArg some sameOther), final⟩

theorem function_succ (readers : ∀ less, StatementTrims depth less) {token twin : Token}
    (same : token.Matches twin) (trims : stream.Trims other) :
    Follows (Stream.Agree Node.atMargin) (readFunction (depth + 1) place token stream)
      (readFunction less place twin other) := by
  cases less with
  | zero => exact follows_outOfDepth _
  | succ less =>
      rw [readFunction, readFunction]
      rcases trims.next false with ⟨first, second⟩ |
        ⟨⟨line, start, stop, kind⟩, after, ⟨twinLine, twinStart, twinStop, twinKind⟩, behind,
          first, second, sameName, further⟩
      · simp only [first]
        trivial
      · cases sameName.kind
        simp only [first, second]
        split
        · rename_i isSymbol
          cases isSymbol
          rcases further.accept false .leftParenthesis with ⟨first, second⟩ |
            ⟨opened, twinOpened, first, second, last⟩
          · simp only [first]
            trivial
          · simp only [first, second]
            apply (follows_readParameters last).bindRead
            rintro params _ rest others rfl last
            apply ((readers less).body last).bindBody
            intro bodyPosition twinBodyPosition body twinBody rest twinRest sameBodyPosition
              sameItems final
            refine ⟨?_, final⟩
            simp only [Node.atMargin, Node.allAtMargin_eq_map, atMargin_withReturn, same.position,
              sameBodyPosition, sameItems, id_eq]
        · trivial

theorem statement_succ (readers : ∀ less, StatementTrims depth less)
    (trims : stream.Trims other) :
    Follows (Stream.Agree Node.atMargin) (readStatement (depth + 1) place stream)
      (readStatement less place other) := by
  cases less with
  | zero => exact follows_outOfDepth _
  | succ less =>
      rw [readStatement, readStatement]
      rcases trims.next false with ⟨first, second⟩ |
        ⟨token, after, twin, behind, first, second, same, further⟩
      · simp only [first]
        trivial
      · have placed := same.position
        simp only [first, second, same.kind]
        split
        · exact (readers less).function same further
        · apply (follows_needExpression further).bindRead
          intro condition twinCondition rest others sameCondition last
          exact (readers less).branch placed sameCondition last
        · simp only [further.isAt]
          split
          · apply ((readers less).body further).bindBody
            intro bodyPosition twinPosition body twinBody rest others samePosition sameItems last
            refine ⟨?_, last⟩
            simp only [Node.atMargin, Node.allAtMargin_eq_map, placed, samePosition, sameItems]
          · apply (follows_needExpression further).bindRead
            intro condition twinCondition rest others sameCondition last
            apply ((readers less).body last).bindBody
            intro bodyPosition twinPosition body twinBody rest others samePosition sameItems last
            refine ⟨?_, last⟩
            simp only [Node.atMargin, Node.allAtMargin_eq_map, placed, samePosition, sameItems,
              sameCondition]
        · apply ((readers less).body further).bindBody
          intro bodyPosition twinPosition body twinBody rest others samePosition sameItems last
          refine ⟨?_, last⟩
          simp only [Node.atMargin, Node.allAtMargin_eq_map, placed, samePosition, sameItems]
        · split
          · exact ⟨by simp [Node.atMargin, placed], further⟩
          · trivial
        · split
          · exact ⟨by simp [Node.atMargin, placed], further⟩
          · trivial
        · exact follows_readReturn same further
        · trivial
        · apply (follows_needExpression trims).bindRead
          intro node twinNode rest others sameNode last
          have alone : node.asStatement.atMargin = twinNode.asStatement.atMargin := by
            rw [Node.atMargin_asStatement, Node.atMargin_asStatement, sameNode]
          simp only
          rcases last.next false with ⟨first, second⟩ |
            ⟨following, afterFollowing, twinFollowing, behindFollowing, first, second,
              sameFollowing, final⟩
          · simp only [first, second]
            exact ⟨alone, last⟩
          · simp only [first, second, sameFollowing.isKeyword, sameFollowing.kind]
            split
            · exact (readers less).branch (Node.position_of_atMargin sameNode) sameNode final
            · split
              · exact follows_readAssignment sameNode final
              · exact ⟨alone, last⟩

/-- All readers of statements read on without the blanks, whatever their depths. -/
theorem of_depth (depth : Nat) : ∀ less, StatementTrims depth less := by
  induction depth with
  | zero => intro less; constructor <;> intros <;> trivial
  | succ depth readers =>
      intro less
      exact {
        lines := lines_succ readers
        body := body_succ readers
        statement := statement_succ readers
        branch := branch_succ readers
        function := function_succ readers }

end StatementTrims

/-- A program that is read is read without some blanks, the same up to columns. -/
theorem Program.ofTokens_of_trims {tokens others : List Token} {program : Program}
    (trims : Token.Trims tokens others) (accepted : Program.ofTokens tokens = .ok program) :
    ∃ twin, Program.ofTokens others = .ok twin ∧ twin.atMargin = program.atMargin := by
  have streams : Stream.Trims { rest := tokens } { rest := others } := ⟨trims, rfl, rfl⟩
  have follows : Follows (fun program twin => program.atMargin = twin.atMargin)
      (Program.ofTokens tokens) (Program.ofTokens others) := by
    unfold Program.ofTokens
    apply ((StatementTrims.of_depth _ _).lines (streams.here false) rfl streams).bindBody
    intro position twinPosition items twinItems rest twinRest samePosition sameItems further
    simp only
    rcases further.nextLine with ⟨first, second⟩ |
      ⟨token, indent, line, twin, twinLine, first, second, -, -⟩
    · simp only [first, second]
      change Program.atMargin _ = Program.atMargin _
      rw [Program.atMargin, Program.atMargin, samePosition, sameItems]
    · simp only [first]
      split <;> trivial
  have sufficient := @Program.ofTokens_yields (fun _ => True) trivial others
    fun _ _ => ⟨trivial, fun _ => trivial⟩
  rw [accepted] at follows
  cases read : Program.ofTokens others with
  | ok twin =>
      rw [read] at follows
      exact ⟨twin, rfl, follows.symm⟩
  | error fault =>
      rw [read] at follows sufficient
      exact absurd follows (sufficient.sufficient trivial)

end Lehce

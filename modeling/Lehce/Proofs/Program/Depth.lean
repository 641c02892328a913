import Lehce.Program.Statement

/-!
# Depth that does not matter

A reader that was given enough depth comes to the same result with any larger one
(`Settles`): the depth is only counted down, and nothing but its end is told by it. One more
of it changes nothing for any reader as long as it changes nothing for the readers it calls.
-/

namespace Lehce

variable {α β : Type} {depth : Nat} {bracketed : Bool} {least : Nat} {stream after : Stream}

/-- A result is the same with more depth, unless there was not enough of it. -/
def Settles (less more : Except Fault α) : Prop := less = .error outOfDepth ∨ less = more

namespace Settles

variable {less more most : Except Fault α} {next wider : α → Except Fault β}

theorem refl (result : Except Fault α) : Settles result result := .inr rfl

theorem zero (result : Except Fault α) : Settles (.error outOfDepth) result := .inl rfl

theorem trans (first : Settles less more) (second : Settles more most) : Settles less most := by
  rcases first with short | rfl
  · exact .inl short
  · exact second

/-- What is gone on with settles when both parts do. -/
theorem bind (first : Settles less more) (goesOn : ∀ value, Settles (next value) (wider value)) :
    Settles (less >>= next) (more >>= wider) := by
  rcases first with rfl | rfl
  · exact .inl rfl
  · cases less with
    | error fault => exact .inr rfl
    | ok value => exact goesOn value

end Settles

theorem settles_dottedParts (bracketed : Bool) (depth : Nat) (parts : List String)
    (stream : Stream) :
    Settles (dottedParts bracketed depth parts stream)
      (dottedParts bracketed (depth + 1) parts stream) := by
  induction depth generalizing parts stream with
  | zero => exact .zero _
  | succ depth ih =>
      rw [dottedParts, dottedParts]
      split
      · exact .refl _
      · split
        · exact ih _ _
        · exact .refl _

theorem settles_symbolOrPath (bracketed : Bool) (depth : Nat) (position : Position)
    (name : String) (stream : Stream) :
    Settles (symbolOrPath bracketed depth position name stream)
      (symbolOrPath bracketed (depth + 1) position name stream) := by
  unfold symbolOrPath
  split
  · exact (settles_dottedParts ..).bind fun _ => .refl _
  · exact .refl _

/-- One more of depth changes nothing for the readers of expressions. -/
structure ExpressionSettles (depth : Nat) : Prop where
  expression : ∀ bracketed least stream, Settles (readExpression depth bracketed least stream)
    (readExpression (depth + 1) bracketed least stream)
  operators : ∀ bracketed least left stream,
    Settles (readOperators depth bracketed least left stream)
      (readOperators (depth + 1) bracketed least left stream)
  unary : ∀ bracketed stream, Settles (readUnary depth bracketed stream)
    (readUnary (depth + 1) bracketed stream)
  suffixes : ∀ bracketed node stream, Settles (readSuffixes depth bracketed node stream)
    (readSuffixes (depth + 1) bracketed node stream)
  arguments : ∀ stream, Settles (readArguments depth stream) (readArguments (depth + 1) stream)
  moreArguments : ∀ args stream, Settles (readMoreArguments depth args stream)
    (readMoreArguments (depth + 1) args stream)
  primary : ∀ bracketed token after, Settles (readPrimary depth bracketed token after)
    (readPrimary (depth + 1) bracketed token after)
  items : ∀ items stream, Settles (readItems depth items stream)
    (readItems (depth + 1) items stream)
  entries : ∀ entries stream, Settles (readEntries depth entries stream)
    (readEntries (depth + 1) entries stream)

namespace ExpressionSettles

theorem zero : ExpressionSettles 0 := by
  constructor <;> intros <;> exact .zero _

theorem expression_succ (readers : ExpressionSettles depth) (bracketed : Bool) (least : Nat)
    (stream : Stream) :
    Settles (readExpression (depth + 1) bracketed least stream)
      (readExpression (depth + 2) bracketed least stream) := by
  rw [readExpression, readExpression]
  refine (readers.unary ..).bind ?_
  rintro ⟨_ | left, rest⟩
  · exact .refl _
  · exact (readers.operators ..).bind fun _ => .refl _

theorem operators_succ (readers : ExpressionSettles depth) (bracketed : Bool) (least : Nat)
    (left : Node) (stream : Stream) :
    Settles (readOperators (depth + 1) bracketed least left stream)
      (readOperators (depth + 2) bracketed least left stream) := by
  rw [readOperators, readOperators]
  split
  · exact .refl _
  · split
    · exact .refl _
    · split
      · exact .refl _
      · refine (readers.expression ..).bind ?_
        rintro ⟨_ | right, rest⟩
        · exact .refl _
        · exact readers.operators ..

theorem unary_succ (readers : ExpressionSettles depth) (bracketed : Bool) (stream : Stream) :
    Settles (readUnary (depth + 1) bracketed stream) (readUnary (depth + 2) bracketed stream) := by
  rw [readUnary, readUnary]
  split
  · exact .refl _
  · split
    · refine (readers.primary ..).bind ?_
      rintro (_ | ⟨node, rest⟩)
      · exact .refl _
      · exact (readers.suffixes ..).bind fun _ => .refl _
    · refine (readers.unary ..).bind ?_
      rintro ⟨_ | operand, rest⟩ <;> exact .refl _

theorem suffixes_succ (readers : ExpressionSettles depth) (bracketed : Bool) (node : Node)
    (stream : Stream) :
    Settles (readSuffixes (depth + 1) bracketed node stream)
      (readSuffixes (depth + 2) bracketed node stream) := by
  rw [readSuffixes, readSuffixes]
  split
  · exact .refl _
  · split
    · split
      · exact (readers.arguments ..).bind fun _ => readers.suffixes ..
      · exact (readers.arguments ..).bind fun _ => readers.suffixes ..
      · exact .refl _
    · refine (readers.expression ..).bind ?_
      rintro ⟨_ | key, rest⟩
      · exact .refl _
      · simp only
        split
        · exact .refl _
        · exact readers.suffixes ..
    · split
      · exact readers.suffixes ..
      · exact .refl _
    · split
      · exact readers.suffixes ..
      · exact .refl _
    · exact .refl _

theorem arguments_succ (readers : ExpressionSettles depth) (stream : Stream) :
    Settles (readArguments (depth + 1) stream) (readArguments (depth + 2) stream) := by
  rw [readArguments, readArguments]
  split
  · exact .refl _
  · exact readers.moreArguments ..

theorem moreArguments_succ (readers : ExpressionSettles depth) (args : List Node)
    (stream : Stream) :
    Settles (readMoreArguments (depth + 1) args stream)
      (readMoreArguments (depth + 2) args stream) := by
  rw [readMoreArguments, readMoreArguments]
  split
  · exact .refl _
  · refine (readers.expression ..).bind ?_
    rintro ⟨_ | arg, rest⟩
    · exact .refl _
    · simp only
      split
      · exact .refl _
      · split
        · exact readers.moreArguments ..
        · exact .refl _

theorem primary_succ (readers : ExpressionSettles depth) (bracketed : Bool) (token : Token)
    (after : Stream) :
    Settles (readPrimary (depth + 1) bracketed token after)
      (readPrimary (depth + 2) bracketed token after) := by
  rw [readPrimary, readPrimary]
  simp only
  split
  any_goals exact .refl _
  · exact (settles_symbolOrPath ..).bind fun _ => .refl _
  · refine (readers.expression ..).bind ?_
    rintro ⟨_ | node, rest⟩ <;> exact .refl _
  · split
    · exact .refl _
    · exact (readers.items ..).bind fun _ => .refl _
  · split
    · exact .refl _
    · exact (readers.entries ..).bind fun _ => .refl _

theorem items_succ (readers : ExpressionSettles depth) (items : List Node) (stream : Stream) :
    Settles (readItems (depth + 1) items stream) (readItems (depth + 2) items stream) := by
  rw [readItems, readItems]
  refine (readers.expression ..).bind ?_
  rintro ⟨_ | item, rest⟩
  · exact .refl _
  · simp only
    split
    · exact .refl _
    · split
      · exact readers.items ..
      · exact .refl _

theorem entries_succ (readers : ExpressionSettles depth) (entries : List (String × Node))
    (stream : Stream) :
    Settles (readEntries (depth + 1) entries stream) (readEntries (depth + 2) entries stream) := by
  rw [readEntries, readEntries]
  split
  · exact .refl _
  · split
    · split
      · exact .refl _
      · refine (readers.expression ..).bind ?_
        rintro ⟨_ | value, rest⟩
        · exact .refl _
        · simp only
          split
          · exact .refl _
          · split
            · exact readers.entries ..
            · exact .refl _
    · exact .refl _

theorem of_depth (depth : Nat) : ExpressionSettles depth := by
  induction depth with
  | zero => exact zero
  | succ depth readers =>
      exact {
        expression := readers.expression_succ
        operators := readers.operators_succ
        unary := readers.unary_succ
        suffixes := readers.suffixes_succ
        arguments := readers.arguments_succ
        moreArguments := readers.moreArguments_succ
        primary := readers.primary_succ
        items := readers.items_succ
        entries := readers.entries_succ }

end ExpressionSettles

section Statements

theorem settles_readParams (depth : Nat) (params : List String) (stream : Stream) :
    Settles (readParams depth params stream) (readParams (depth + 1) params stream) := by
  induction depth generalizing params stream with
  | zero => exact .zero _
  | succ depth ih =>
      rw [readParams, readParams]
      split
      · exact .refl _
      · split
        · split
          · exact .refl _
          · split
            · exact .refl _
            · split
              · exact ih _ _
              · exact .refl _
        · exact .refl _

theorem settles_readParameters (depth : Nat) (stream : Stream) :
    Settles (readParameters depth stream) (readParameters (depth + 1) stream) := by
  unfold readParameters
  split
  · exact .refl _
  · exact settles_readParams ..

theorem settles_needExpression (depth : Nat) (missing : Stream → Fault) (stream : Stream) :
    Settles (needExpression depth missing stream) (needExpression (depth + 1) missing stream) := by
  refine ((ExpressionSettles.of_depth depth).expression ..).bind ?_
  rintro ⟨_ | node, rest⟩ <;> exact .refl _

theorem settles_readReturn (depth : Nat) (place : Surrounding) (token : Token) (after : Stream) :
    Settles (readReturn depth place token after) (readReturn (depth + 1) place token after) := by
  unfold readReturn
  simp only
  split
  · exact .refl _
  · split
    · exact .refl _
    · refine ((ExpressionSettles.of_depth depth).expression ..).bind ?_
      rintro ⟨_ | value, rest⟩ <;> exact .refl _

theorem settles_readAssignment (depth : Nat) (target : Node) (op : Op) (token : Token)
    (after : Stream) :
    Settles (readAssignment depth target op token after)
      (readAssignment (depth + 1) target op token after) := by
  unfold readAssignment
  split
  · exact (settles_needExpression ..).bind fun _ => .refl _
  · exact (settles_needExpression ..).bind fun _ => .refl _
  · exact .refl _

end Statements

/-- One more of depth changes nothing for the readers of statements. -/
structure StatementSettles (depth : Nat) : Prop where
  lines : ∀ place start items stream, Settles (readLines depth place start items stream)
    (readLines (depth + 1) place start items stream)
  body : ∀ place stream, Settles (readBody depth place stream) (readBody (depth + 1) place stream)
  statement : ∀ place stream, Settles (readStatement depth place stream)
    (readStatement (depth + 1) place stream)
  branch : ∀ place position condition stream,
    Settles (readBranch depth place position condition stream)
      (readBranch (depth + 1) place position condition stream)
  function : ∀ place token stream, Settles (readFunction depth place token stream)
    (readFunction (depth + 1) place token stream)

namespace StatementSettles

variable {place : Surrounding}

theorem zero : StatementSettles 0 := by
  constructor <;> intros <;> exact .zero _

theorem lines_succ (readers : StatementSettles depth) (place : Surrounding) (start : Position)
    (items : List Node) (stream : Stream) :
    Settles (readLines (depth + 1) place start items stream)
      (readLines (depth + 2) place start items stream) := by
  rw [readLines, readLines]
  split
  · exact .refl _
  · split
    · exact .refl _
    · split
      · exact .refl _
      · refine (readers.statement ..).bind fun read => ?_
        simp only
        split
        · exact .refl _
        · exact readers.lines ..

theorem body_succ (readers : StatementSettles depth) (place : Surrounding) (stream : Stream) :
    Settles (readBody (depth + 1) place stream) (readBody (depth + 2) place stream) := by
  rw [readBody, readBody]
  split
  · exact .refl _
  · split
    · split
      · exact .refl _
      · split
        · exact .refl _
        · exact readers.lines ..
    · exact (readers.statement ..).bind fun _ => .refl _

theorem statement_succ (readers : StatementSettles depth) (place : Surrounding)
    (stream : Stream) :
    Settles (readStatement (depth + 1) place stream) (readStatement (depth + 2) place stream) := by
  rw [readStatement, readStatement]
  split
  · exact .refl _
  · simp only
    split
    · exact readers.function ..
    · exact (settles_needExpression ..).bind fun _ => readers.branch ..
    · split
      · exact (readers.body ..).bind fun _ => .refl _
      · exact (settles_needExpression ..).bind fun _ => (readers.body ..).bind fun _ => .refl _
    · exact (readers.body ..).bind fun _ => .refl _
    · exact .refl _
    · exact .refl _
    · exact settles_readReturn ..
    · exact .refl _
    · refine (settles_needExpression ..).bind fun read => ?_
      split
      · exact .refl _
      · split
        · exact readers.branch ..
        · split
          · exact settles_readAssignment ..
          · exact .refl _

theorem branch_succ (readers : StatementSettles depth) (place : Surrounding) (position : Position)
    (condition : Node) (stream : Stream) :
    Settles (readBranch (depth + 1) place position condition stream)
      (readBranch (depth + 2) place position condition stream) := by
  rw [readBranch, readBranch]
  refine (readers.body ..).bind fun read => ?_
  simp only
  split
  · exact .refl _
  · split
    · exact .refl _
    · split
      · exact .refl _
      · split
        · exact (readers.body ..).bind fun _ => .refl _
        · exact (settles_needExpression ..).bind fun _ =>
            (readers.branch ..).bind fun _ => .refl _

theorem function_succ (readers : StatementSettles depth) (place : Surrounding) (token : Token)
    (stream : Stream) :
    Settles (readFunction (depth + 1) place token stream)
      (readFunction (depth + 2) place token stream) := by
  rw [readFunction, readFunction]
  split
  · split
    · exact .refl _
    · exact (settles_readParameters ..).bind fun _ => (readers.body ..).bind fun _ => .refl _
  · exact .refl _

theorem of_depth (depth : Nat) : StatementSettles depth := by
  induction depth with
  | zero => exact zero
  | succ depth readers =>
      exact {
        lines := readers.lines_succ
        body := readers.body_succ
        statement := readers.statement_succ
        branch := readers.branch_succ
        function := readers.function_succ }

end StatementSettles

/-- What settles with one more of depth settles with any more of it. -/
theorem Settles.of_le {read : Nat → Except Fault α}
    (step : ∀ depth, Settles (read depth) (read (depth + 1))) {depth more : Nat}
    (le : depth ≤ more) : Settles (read depth) (read more) := by
  induction le with
  | refl => exact .refl _
  | step _ ih => exact ih.trans (step _)

/-- A result that does not tell the end of its depth is the one with any larger depth. -/
theorem Settles.eq {less more : Except Fault α} (settles : Settles less more)
    (enough : ∀ fault, less = .error fault → fault.kind ≠ .invalid) : less = more := by
  rcases settles with short | same
  · exact absurd rfl (enough outOfDepth short)
  · exact same

end Lehce

import Lehce.Proofs.Program.Margin
import Lehce.Proofs.Program.Progress
import Lehce.Proofs.Token.Shifting
import Lehce.Proofs.Value.Gathering

/-!
# Reading expressions without a blank

The readers pass over blanks, and of a blank they take nothing but the indentation of a line
that it starts. So a blank further right may be left out, and the tokens behind it may stand
in other columns (`Token.Trims`): what was read before is read again, up to columns
(`Follows`). The depth the readers are given may be another one; too small a depth is the
only reason for the second reader to refuse what the first one read.
-/

namespace Lehce

variable {α β γ δ : Type}

/-- Whether some tokens are others without blanks that stand behind the first column, up to
columns. -/
inductive Token.Trims : List Token → List Token → Prop where
  | nil : Trims [] []
  | cons {token other : Token} {rest others : List Token} (same : token.Matches other)
      (trims : Trims rest others) : Trims (token :: rest) (other :: others)
  | blank {token : Token} {rest others : List Token} {width : Int}
      (isBlank : token.kind = .blank width) (inside : token.start ≠ 0)
      (trims : Trims rest others) : Trims (token :: rest) others

/-- Whether a reader at the first stream knows what one at the second stream does, up to
columns, with some blanks more ahead. -/
structure Stream.Trims (stream other : Stream) : Prop where
  rest : Token.Trims stream.rest other.rest
  indent : stream.lineIndent = other.lineIndent
  lastEnd : stream.lastEnd.atMargin = other.lastEnd.atMargin

/-- Whether the second result is related to the first one when that is one, or else says that
the depth was too small. -/
def Follows (related : α → β → Prop) : Except Fault α → Except Fault β → Prop
  | .ok value, .ok other => related value other
  | .ok _, .error fault => fault.kind = .invalid
  | .error _, _ => True

/-- Whether the same was read from two streams as far as `view` sees it, and their rests
correspond. -/
def Stream.Agree (view : α → γ) (read other : α × Stream) : Prop :=
  view read.1 = view other.1 ∧ read.2.Trims other.2

theorem Follows.bind {related : α → β → Prop} {wanted : γ → δ → Prop} {first : Except Fault α}
    {second : Except Fault β} {next : α → Except Fault γ} {nextSecond : β → Except Fault δ}
    (follows : Follows related first second)
    (goesOn : ∀ value other, related value other → Follows wanted (next value) (nextSecond other)) :
    Follows wanted (first >>= next) (second >>= nextSecond) := by
  cases first with
  | error fault => trivial
  | ok value =>
      cases second with
      | ok other => exact goesOn value other follows
      | error fault =>
          change Follows wanted (next value) (.error fault)
          cases next value with
          | ok result => exact follows
          | error other => trivial

/-- What was read is gone on with. -/
theorem Follows.bindRead {view : α → γ} {wanted : β → δ → Prop}
    {first second : Except Fault (α × Stream)} {next : α × Stream → Except Fault β}
    {nextSecond : α × Stream → Except Fault δ}
    (follows : Follows (Stream.Agree view) first second)
    (goesOn : ∀ value twin rest others, view value = view twin → rest.Trims others →
      Follows wanted (next (value, rest)) (nextSecond (twin, others))) :
    Follows wanted (first >>= next) (second >>= nextSecond) :=
  follows.bind fun _ _ agree => goesOn _ _ _ _ agree.1 agree.2

/-- Readers that may find nothing are gone on with in both cases. -/
theorem Follows.bindFound {view : α → γ} {wanted : β → δ → Prop}
    {first second : Except Fault (Option α × Stream)} {next : Option α × Stream → Except Fault β}
    {nextSecond : Option α × Stream → Except Fault δ}
    (follows : Follows (Stream.Agree (Option.map view)) first second)
    (nothing : ∀ rest others, rest.Trims others →
      Follows wanted (next (none, rest)) (nextSecond (none, others)))
    (found : ∀ value twin rest others, view value = view twin → rest.Trims others →
      Follows wanted (next (some value, rest)) (nextSecond (some twin, others))) :
    Follows wanted (first >>= next) (second >>= nextSecond) := by
  apply follows.bind
  rintro ⟨_ | value, rest⟩ ⟨_ | twin, others⟩ ⟨same, trims⟩
  · exact nothing rest others trims
  · cases same
  · cases same
  · exact found value twin rest others (Option.some.inj same) trims

theorem follows_outOfDepth {related : α → β → Prop} (first : Except Fault α) :
    Follows related first (.error outOfDepth) := by
  cases first with
  | ok value => rfl
  | error fault => trivial

theorem Token.Matches.isOperator {token other : Token} (same : token.Matches other)
    (op : Operator) : token.isOperator op = other.isOperator op := by
  simp only [Token.isOperator, same.kind]

theorem Token.Matches.isKeyword {token other : Token} (same : token.Matches other)
    (keyword : Keyword) : token.isKeyword keyword = other.isKeyword keyword := by
  simp only [Token.isKeyword, same.kind]

theorem Token.Matches.position {token other : Token} (same : token.Matches other) :
    token.position.atMargin = other.position.atMargin := by
  simp [Token.position, Position.atMargin, same.line]

namespace Stream

variable {stream other : Stream} {bracketed : Bool}

theorem dropBlanks_trims {tokens others : List Token} {indent : Int} {lastEnd otherEnd : Position}
    (trims : Token.Trims tokens others) (sameEnd : lastEnd.atMargin = otherEnd.atMargin) :
    (dropBlanks bracketed tokens indent lastEnd).Trims
      (dropBlanks bracketed others indent otherEnd) := by
  induction trims generalizing indent with
  | nil => exact ⟨.nil, rfl, sameEnd⟩
  | @cons token other rest others same trims ih =>
      have kept : Stream.Trims ⟨token :: rest, indent, lastEnd⟩
          ⟨other :: others, indent, otherEnd⟩ := ⟨.cons same trims, rfl, sameEnd⟩
      simp only [dropBlanks, same.kind]
      split
      · simpa only [same.first] using ih
      · split
        · exact ih
        · exact kept
      · exact kept
  | blank isBlank inside trims ih => simpa only [dropBlanks, isBlank, if_neg inside] using ih

theorem Trims.skip (trims : stream.Trims other) (bracketed : Bool) :
    (stream.skip bracketed).Trims (other.skip bracketed) := by
  unfold Stream.skip
  rw [trims.indent]
  exact dropBlanks_trims trims.rest trims.lastEnd

/-- Where the first stream goes on with no blank, the second one goes on with the same token. -/
theorem Trims.ahead (trims : stream.Trims other) (bracketed : Bool) :
    (stream.skip bracketed).rest = [] ∧ (other.skip bracketed).rest = [] ∨
      ∃ token rest twin others, (stream.skip bracketed).rest = token :: rest ∧
        (other.skip bracketed).rest = twin :: others ∧ token.Matches twin ∧
        Token.Trims rest others := by
  have skipped := (trims.skip bracketed).rest
  generalize left : (stream.skip bracketed).rest = tokens at skipped
  generalize (other.skip bracketed).rest = others at skipped
  cases skipped with
  | nil => exact .inl ⟨rfl, rfl⟩
  | cons same trims => exact .inr ⟨_, _, _, _, rfl, rfl, same, trims⟩
  | blank isBlank =>
      rcases dropBlanks_first left with visible | ⟨-, width, isNewline⟩
      · rw [isBlank] at visible
        cases visible
      · rw [isBlank] at isNewline
        cases isNewline

theorem Trims.next (trims : stream.Trims other) (bracketed : Bool) :
    stream.next? bracketed = none ∧ other.next? bracketed = none ∨
      ∃ token after twin behind, stream.next? bracketed = some (token, after) ∧
        other.next? bracketed = some (twin, behind) ∧ token.Matches twin ∧
        after.Trims behind := by
  have skipped := trims.skip bracketed
  rcases trims.ahead bracketed with ⟨nothing, none_⟩ |
    ⟨token, rest, twin, others, first, second, same, further⟩
  · exact .inl ⟨by simp [next?, nothing], by simp [next?, none_]⟩
  · right
    simp only [next?, first, second, same.kind]
    split
    · exact ⟨_, _, _, _, rfl, rfl, same, further, rfl, skipped.lastEnd⟩
    · exact ⟨_, _, _, _, rfl, rfl, same, further, skipped.indent, by
        simp [Position.atMargin, same.line]⟩

theorem Trims.nextLine (trims : stream.Trims other) :
    stream.nextLine? = none ∧ other.nextLine? = none ∨
      ∃ token indent line twin otherLine, stream.nextLine? = some (token, indent, line) ∧
        other.nextLine? = some (twin, indent, otherLine) ∧ token.Matches twin ∧
        line.Trims otherLine := by
  have skipped := trims.skip true
  rcases trims.ahead true with ⟨nothing, none_⟩ |
    ⟨token, rest, twin, others, first, second, same, further⟩
  · exact .inl ⟨by simp [nextLine?, nothing], by simp [nextLine?, none_]⟩
  · right
    simp only [nextLine?, first, second]
    exact ⟨_, _, _, _, _, rfl, by rw [skipped.indent], same, skipped⟩

theorem Trims.accept (trims : stream.Trims other) (bracketed : Bool) (op : Operator) :
    stream.accept? bracketed op = none ∧ other.accept? bracketed op = none ∨
      ∃ after behind, stream.accept? bracketed op = some after ∧
        other.accept? bracketed op = some behind ∧ after.Trims behind := by
  rcases trims.next bracketed with ⟨first, second⟩ |
    ⟨token, after, twin, behind, first, second, same, further⟩
  · exact .inl ⟨by simp [accept?, first], by simp [accept?, second]⟩
  · simp only [accept?, first, second, same.isOperator]
    cases twin.isOperator op with
    | true => exact .inr ⟨_, _, rfl, rfl, further⟩
    | false => exact .inl ⟨rfl, rfl⟩

theorem Trims.isAt (trims : stream.Trims other) (bracketed : Bool) (op : Operator) :
    stream.isAt bracketed op = other.isAt bracketed op := by
  rcases trims.accept bracketed op with ⟨first, second⟩ | ⟨after, behind, first, second, -⟩ <;>
    simp [Stream.isAt, first, second]

theorem Trims.acceptKeyword (trims : stream.Trims other) (bracketed : Bool) (keyword : Keyword) :
    ((stream.acceptKeyword? bracketed keyword).getD stream).Trims
      ((other.acceptKeyword? bracketed keyword).getD other) := by
  rcases trims.next bracketed with ⟨first, second⟩ |
    ⟨token, after, twin, behind, first, second, same, further⟩
  · simpa [acceptKeyword?, first, second] using trims
  · simp only [acceptKeyword?, first, second, same.isKeyword]
    cases twin.isKeyword keyword with
    | true => exact further
    | false => exact trims

theorem Trims.atLineEnd (trims : stream.Trims other) : stream.atLineEnd = other.atLineEnd := by
  rcases trims.ahead false with ⟨first, second⟩ |
    ⟨token, rest, twin, others, first, second, same, -⟩
  · simp [Stream.atLineEnd, first, second]
  · simp only [Stream.atLineEnd, first, second, same.kind]

theorem Trims.here (trims : stream.Trims other) (bracketed : Bool) :
    (stream.here bracketed).atMargin = (other.here bracketed).atMargin := by
  have skipped := trims.skip bracketed
  rcases trims.ahead bracketed with ⟨first, second⟩ |
    ⟨token, rest, twin, others, first, second, same, -⟩
  · simpa [Stream.here, first, second] using skipped.lastEnd
  · simp only [Stream.here, first, second, same.kind]
    split
    · exact skipped.lastEnd
    · exact same.position

end Stream

namespace Node

/-- What is neither a number nor a symbol stands below its operator as it is. -/
theorem applyUnary_compound {token : Token} {operand : Node} (op : Op)
    (noLiteral : ∀ position value, operand ≠ .literal position value)
    (noSymbol : ∀ position name, operand ≠ .symbol position name) :
    applyUnary token op operand =
      match op with
      | .plus => .ok operand
      | .increment | .decrement => .error (.located .invalidUnaryOperation token.position)
      | op => .ok (.prefixed token.position op operand true) := by
  unfold applyUnary
  split <;> first | rfl | skip
  · exact absurd rfl (noLiteral _ _)
  · exact absurd rfl (noLiteral _ _)
  · exact absurd rfl (noLiteral _ _)
  · exact absurd rfl (noLiteral _ _)
  · exact absurd rfl (noSymbol _ _)
  · exact absurd rfl (noSymbol _ _)
  · split <;> simp_all

/-- A unary operator does not look at columns. -/
theorem follows_applyUnary {token twin : Token} {operand other : Node} (op : Op)
    (sameToken : token.Matches twin) (same : operand.atMargin = other.atMargin) :
    Follows (fun node twin => node.atMargin = twin.atMargin) (applyUnary token op operand)
      (applyUnary twin op other) := by
  have placed := sameToken.position
  have compound : (∀ position value, operand ≠ .literal position value) →
      (∀ position name, operand ≠ .symbol position name) →
      Follows (fun node twin => node.atMargin = twin.atMargin) (applyUnary token op operand)
        (applyUnary twin op other) := by
    intro noLiteral noSymbol
    rw [applyUnary_compound op noLiteral noSymbol, applyUnary_compound op]
    · split
      · exact same
      · trivial
      · trivial
      · simp [Follows, Node.atMargin, placed, same]
    · rintro position value rfl
      rcases eq_literal_of_atMargin same.symm with ⟨place, rfl⟩
      exact noLiteral place value rfl
    · rintro position name rfl
      rcases eq_symbol_of_atMargin same.symm with ⟨place, rfl, -⟩
      exact noSymbol place name rfl
  cases operand with
  | literal position value =>
      rcases eq_literal_of_atMargin same with ⟨place, rfl⟩
      unfold applyUnary
      split <;> simp_all [Follows, Node.atMargin]
  | symbol position name =>
      rcases eq_symbol_of_atMargin same with ⟨place, rfl, -⟩
      unfold applyUnary
      split <;> simp_all [Follows, Node.atMargin]
  | _ => exact compound (by simp) (by simp)

end Node
/-- What every reader of expressions does without some blanks. -/
structure ExpressionTrims (depth less : Nat) : Prop where
  expression : ∀ {bracketed : Bool} {least : Nat} {stream other : Stream}, stream.Trims other →
    Follows (Stream.Agree (Option.map Node.atMargin)) (readExpression depth bracketed least stream)
      (readExpression less bracketed least other)
  operators : ∀ {bracketed : Bool} {least : Nat} {left right : Node} {stream other : Stream},
    left.atMargin = right.atMargin → stream.Trims other →
    Follows (Stream.Agree Node.atMargin) (readOperators depth bracketed least left stream)
      (readOperators less bracketed least right other)
  unary : ∀ {bracketed : Bool} {stream other : Stream}, stream.Trims other →
    Follows (Stream.Agree (Option.map Node.atMargin)) (readUnary depth bracketed stream)
      (readUnary less bracketed other)
  suffixes : ∀ {bracketed : Bool} {node twin : Node} {stream other : Stream},
    node.atMargin = twin.atMargin → stream.Trims other →
    Follows (Stream.Agree Node.atMargin) (readSuffixes depth bracketed node stream)
      (readSuffixes less bracketed twin other)
  arguments : ∀ {stream other : Stream}, stream.Trims other →
    Follows (Stream.Agree (List.map Node.atMargin)) (readArguments depth stream)
      (readArguments less other)
  moreArguments : ∀ {args others : List Node} {stream other : Stream},
    args.map Node.atMargin = others.map Node.atMargin → stream.Trims other →
    Follows (Stream.Agree (List.map Node.atMargin)) (readMoreArguments depth args stream)
      (readMoreArguments less others other)
  primary : ∀ {bracketed : Bool} {token twin : Token} {after behind : Stream},
    token.Matches twin → after.Trims behind →
    Follows (Option.Rel (Stream.Agree Node.atMargin)) (readPrimary depth bracketed token after)
      (readPrimary less bracketed twin behind)
  items : ∀ {items others : List Node} {stream other : Stream},
    items.map Node.atMargin = others.map Node.atMargin → stream.Trims other →
    Follows (Stream.Agree (List.map Node.atMargin)) (readItems depth items stream)
      (readItems less others other)
  entries : ∀ {entries others : List (String × Node)} {stream other : Stream},
    Node.entriesAtMargin entries = Node.entriesAtMargin others → stream.Trims other →
    Follows (Stream.Agree Node.entriesAtMargin) (readEntries depth entries stream)
      (readEntries less others other)

namespace ExpressionTrims

variable {depth less : Nat} {bracketed : Bool} {least : Nat} {stream other : Stream}

theorem expression_succ (readers : ∀ less, ExpressionTrims depth less)
    (trims : stream.Trims other) :
    Follows (Stream.Agree (Option.map Node.atMargin))
      (readExpression (depth + 1) bracketed least stream)
      (readExpression less bracketed least other) := by
  cases less with
  | zero => exact follows_outOfDepth _
  | succ less =>
      rw [readExpression, readExpression]
      apply ((readers less).unary trims).bindFound
      · intro rest others further
        exact ⟨rfl, further⟩
      · intro left right rest others same further
        apply ((readers less).operators same further).bindRead
        intro node twin rest others same further
        exact ⟨congrArg some same, further⟩

theorem operators_succ (readers : ∀ less, ExpressionTrims depth less) {left right : Node}
    (alike : left.atMargin = right.atMargin) (trims : stream.Trims other) :
    Follows (Stream.Agree Node.atMargin) (readOperators (depth + 1) bracketed least left stream)
      (readOperators less bracketed least right other) := by
  cases less with
  | zero => exact follows_outOfDepth _
  | succ less =>
      rw [readOperators, readOperators]
      rcases trims.next bracketed with ⟨first, second⟩ |
        ⟨token, after, twin, behind, first, second, same, further⟩
      · simp only [first, second]
        exact ⟨alike, trims⟩
      · simp only [first, second, same.kind]
        cases twin.kind.dyadic? with
        | none => exact ⟨alike, trims⟩
        | some operator =>
            by_cases low : operator.level < least
            · simp only [if_pos low]
              exact ⟨alike, trims⟩
            · simp only [if_neg low]
              apply ((readers less).expression further).bindFound
              · intro rest others _
                trivial
              · intro operand twinOperand rest others sameOperand last
                refine (readers less).operators ?_ last
                rw [Dyadic.atMargin_node, Dyadic.atMargin_node, alike, sameOperand]

theorem unary_succ (readers : ∀ less, ExpressionTrims depth less) (trims : stream.Trims other) :
    Follows (Stream.Agree (Option.map Node.atMargin)) (readUnary (depth + 1) bracketed stream)
      (readUnary less bracketed other) := by
  cases less with
  | zero => exact follows_outOfDepth _
  | succ less =>
      rw [readUnary, readUnary]
      rcases trims.next bracketed with ⟨first, second⟩ |
        ⟨token, after, twin, behind, first, second, same, further⟩
      · simp only [first, second]
        exact ⟨rfl, trims⟩
      · simp only [first, second, same.kind]
        cases twin.kind.unary? with
        | none =>
            apply ((readers less).primary same further).bind
            rintro _ _ (⟨agree⟩ | _)
            · apply ((readers less).suffixes agree.1 agree.2).bindRead
              intro node twin rest others same further
              exact ⟨congrArg some same, further⟩
            · exact ⟨rfl, trims⟩
        | some op =>
            apply ((readers less).unary further).bindFound
            · intro rest others _
              trivial
            · intro operand twinOperand rest others sameOperand last
              apply (Node.follows_applyUnary op same sameOperand).bind
              intro node twinNode sameNode
              exact ⟨congrArg some sameNode, last⟩

theorem suffixes_succ (readers : ∀ less, ExpressionTrims depth less) {node twin : Node}
    (alike : node.atMargin = twin.atMargin) (trims : stream.Trims other) :
    Follows (Stream.Agree Node.atMargin) (readSuffixes (depth + 1) bracketed node stream)
      (readSuffixes less bracketed twin other) := by
  cases less with
  | zero => exact follows_outOfDepth _
  | succ less =>
      rw [readSuffixes, readSuffixes]
      rcases trims.next bracketed with ⟨first, second⟩ |
        ⟨token, after, twinToken, behind, first, second, same, further⟩
      · simp only [first, second]
        exact ⟨alike, trims⟩
      · simp only [first, second, same.kind, same.isOperator]
        have placed := Node.position_of_atMargin alike
        -- a suffix leaves a node that starts where the operand does
        have stepped : ∀ {position place : Position} {name : String} (op : Op),
            position.atMargin = place.atMargin →
            Follows (Stream.Agree Node.atMargin)
              (readSuffixes depth bracketed (.suffixed position op (.symbol position name) true)
                after)
              (readSuffixes less bracketed (.suffixed place op (.symbol place name) true)
                behind) := by
          intro position place name op samePlace
          exact (readers less).suffixes (by simp [Node.atMargin, samePlace]) further
        have called : ∀ {callee other : Node}, callee.atMargin = other.atMargin →
            Follows (Stream.Agree Node.atMargin)
              (readArguments depth after >>= fun read =>
                readSuffixes depth bracketed (.call callee.position callee read.1 true) read.2)
              (readArguments less behind >>= fun read =>
                readSuffixes less bracketed (.call other.position other read.1 true) read.2) := by
          intro callee other sameCallee
          apply ((readers less).arguments further).bindRead
          intro args otherArgs rest others sameArgs last
          refine (readers less).suffixes ?_ last
          simp only [Node.atMargin, Node.allAtMargin_eq_map, sameCallee,
            Node.position_of_atMargin sameCallee, sameArgs]
        split
        · split
          · rcases Node.eq_symbol_of_atMargin alike with ⟨place, rfl, samePlace⟩
            exact called alike
          · rcases Node.eq_path_of_atMargin alike with ⟨place, rfl, samePlace⟩
            exact called alike
          · trivial
        · apply ((readers less).expression further).bindFound
          · intro rest others _
            trivial
          · intro key twinKey rest others sameKey further
            simp only
            rcases further.accept true .rightBracket with ⟨first, second⟩ |
              ⟨closed, twinClosed, first, second, last⟩
            · simp only [first]
              trivial
            · simp only [first, second]
              exact (readers less).suffixes (by simp [Node.atMargin, alike, sameKey, placed]) last
        · split
          · rcases Node.eq_symbol_of_atMargin alike with ⟨place, rfl, samePlace⟩
            exact stepped _ samePlace
          · trivial
        · split
          · rcases Node.eq_symbol_of_atMargin alike with ⟨place, rfl, samePlace⟩
            exact stepped _ samePlace
          · trivial
        · exact ⟨alike, trims⟩

theorem arguments_succ (readers : ∀ less, ExpressionTrims depth less)
    (trims : stream.Trims other) :
    Follows (Stream.Agree (List.map Node.atMargin)) (readArguments (depth + 1) stream)
      (readArguments less other) := by
  cases less with
  | zero => exact follows_outOfDepth _
  | succ less =>
      rw [readArguments, readArguments]
      rcases trims.accept true .rightParenthesis with ⟨first, second⟩ |
        ⟨closed, twinClosed, first, second, last⟩
      · simp only [first, second]
        exact (readers less).moreArguments rfl trims
      · simp only [first, second]
        exact ⟨rfl, last⟩

theorem moreArguments_succ (readers : ∀ less, ExpressionTrims depth less)
    {args others : List Node} (alike : args.map Node.atMargin = others.map Node.atMargin)
    (trims : stream.Trims other) :
    Follows (Stream.Agree (List.map Node.atMargin)) (readMoreArguments (depth + 1) args stream)
      (readMoreArguments less others other) := by
  cases less with
  | zero => exact follows_outOfDepth _
  | succ less =>
      rw [readMoreArguments, readMoreArguments, trims.isAt]
      split
      · trivial
      · apply ((readers less).expression trims).bindFound
        · intro rest behind _
          simp only
          split <;> trivial
        · intro arg twin rest behind same further
          have longer : (arg :: args).map Node.atMargin = (twin :: others).map Node.atMargin := by
            simp [same, alike]
          simp only
          rcases further.accept true .rightParenthesis with ⟨first, second⟩ |
            ⟨closed, twinClosed, first, second, last⟩
          · simp only [first, second]
            rcases further.accept true .comma with ⟨first, second⟩ |
              ⟨more, twinMore, first, second, last⟩
            · simp only [first]
              trivial
            · simp only [first, second]
              exact (readers less).moreArguments longer last
          · simp only [first, second]
            refine ⟨?_, last⟩
            rw [List.map_reverse, List.map_reverse, longer]

theorem items_succ (readers : ∀ less, ExpressionTrims depth less)
    {items others : List Node} (alike : items.map Node.atMargin = others.map Node.atMargin)
    (trims : stream.Trims other) :
    Follows (Stream.Agree (List.map Node.atMargin)) (readItems (depth + 1) items stream)
      (readItems less others other) := by
  cases less with
  | zero => exact follows_outOfDepth _
  | succ less =>
      rw [readItems, readItems]
      apply ((readers less).expression trims).bindFound
      · intro rest behind _
        simp only
        split <;> trivial
      · intro item twin rest behind same further
        have longer : (item :: items).map Node.atMargin = (twin :: others).map Node.atMargin := by
          simp [same, alike]
        simp only
        rcases further.accept true .rightBracket with ⟨first, second⟩ |
          ⟨closed, twinClosed, first, second, last⟩
        · simp only [first, second]
          rcases further.accept true .comma with ⟨first, second⟩ |
            ⟨more, twinMore, first, second, last⟩
          · simp only [first]
            trivial
          · simp only [first, second]
            exact (readers less).items longer last
        · simp only [first, second]
          refine ⟨?_, last⟩
          rw [List.map_reverse, List.map_reverse, longer]

theorem entries_succ (readers : ∀ less, ExpressionTrims depth less)
    {entries others : List (String × Node)}
    (alike : Node.entriesAtMargin entries = Node.entriesAtMargin others)
    (trims : stream.Trims other) :
    Follows (Stream.Agree Node.entriesAtMargin) (readEntries (depth + 1) entries stream)
      (readEntries less others other) := by
  cases less with
  | zero => exact follows_outOfDepth _
  | succ less =>
      rw [readEntries, readEntries]
      rcases trims.next true with ⟨first, second⟩ |
        ⟨token, after, twin, behind, first, second, same, further⟩
      · simp only [first]
        trivial
      · simp only [first, second, same.kind]
        split
        · rename_i key isKey
          rcases further.accept true .colon with ⟨first, second⟩ |
            ⟨afterColon, twinColon, first, second, last⟩
          · simp only [first]
            trivial
          · simp only [first, second]
            apply ((readers less).expression last).bindFound
            · intro rest behind _
              trivial
            · intro value twin rest behind same further
              have longer : Node.entriesAtMargin ((key, value) :: entries) =
                  Node.entriesAtMargin ((key, twin) :: others) := by
                rw [Node.entriesAtMargin, Node.entriesAtMargin, same, alike]
              simp only
              rcases further.accept true .rightBrace with ⟨first, second⟩ |
                ⟨closed, twinClosed, first, second, last⟩
              · simp only [first, second]
                rcases further.accept true .comma with ⟨first, second⟩ |
                  ⟨more, twinMore, first, second, last⟩
                · simp only [first]
                  trivial
                · simp only [first, second]
                  exact (readers less).entries longer last
              · simp only [first, second]
                refine ⟨?_, last⟩
                rw [Node.entriesAtMargin_eq_map, Node.entriesAtMargin_eq_map] at longer ⊢
                rw [List.map_reverse, List.map_reverse, longer]
        · trivial

theorem follows_dottedParts {parts : List String} (trims : stream.Trims other) :
    Follows (Stream.Agree id) (dottedParts bracketed depth parts stream)
      (dottedParts bracketed less parts other) := by
  induction depth generalizing less parts stream other with
  | zero => trivial
  | succ depth ih =>
      cases less with
      | zero => exact follows_outOfDepth _
      | succ less =>
          rw [dottedParts, dottedParts]
          rcases trims.accept bracketed .dot with ⟨first, second⟩ |
            ⟨after, behind, first, second, further⟩
          · simp only [first, second]
            exact ⟨rfl, trims⟩
          · simp only [first, second]
            rcases further.next bracketed with ⟨first, second⟩ |
              ⟨token, rest, twin, others, first, second, same, last⟩
            · simp only [first]
              trivial
            · rcases token with ⟨line, start, stop, kind⟩
              rcases twin with ⟨twinLine, twinStart, twinStop, twinKind⟩
              cases same.kind
              simp only [first, second]
              split
              · rename_i part isSymbol
                cases isSymbol
                exact ih last
              · trivial

theorem follows_symbolOrPath {position place : Position} {name : String}
    (samePlace : position.atMargin = place.atMargin) (trims : stream.Trims other) :
    Follows (Stream.Agree Node.atMargin) (symbolOrPath bracketed depth position name stream)
      (symbolOrPath bracketed less place name other) := by
  rw [symbolOrPath, symbolOrPath, trims.isAt]
  split
  · apply (follows_dottedParts trims).bindRead
    rintro parts _ rest others rfl further
    exact ⟨by simp [Node.atMargin, samePlace], further⟩
  · exact ⟨by simp [Node.atMargin, samePlace], trims⟩

theorem primary_succ (readers : ∀ less, ExpressionTrims depth less) {token twin : Token}
    {after behind : Stream} (same : token.Matches twin) (trims : after.Trims behind) :
    Follows (Option.Rel (Stream.Agree Node.atMargin))
      (readPrimary (depth + 1) bracketed token after) (readPrimary less bracketed twin behind) := by
  have placed := same.position
  have literal : ∀ value, Option.Rel (Stream.Agree Node.atMargin)
      (some (Node.literal token.position value, after))
      (some (Node.literal twin.position value, behind)) :=
    fun value => .some ⟨by simp [Node.atMargin, placed], trims⟩
  cases less with
  | zero => exact follows_outOfDepth _
  | succ less =>
      rw [readPrimary, readPrimary]
      simp only [same.kind]
      split
      · exact literal _
      · exact literal _
      · exact literal _
      · exact literal _
      · apply (follows_symbolOrPath placed trims).bind
        intro read twin agree
        exact .some agree
      · exact literal _
      · exact literal _
      · exact literal _
      · apply ((readers less).expression trims).bindFound
        · intro rest others _
          trivial
        · intro node twin rest others sameNode further
          simp only
          rcases further.accept true .rightParenthesis with ⟨first, second⟩ |
            ⟨closed, twinClosed, first, second, last⟩
          · simp only [first]
            trivial
          · simp only [first, second]
            exact .some ⟨sameNode, last⟩
      · rcases trims.accept true .rightBracket with ⟨first, second⟩ |
          ⟨closed, twinClosed, first, second, last⟩
        · simp only [first, second]
          apply ((readers less).items rfl trims).bindRead
          intro items others rest behind sameItems last
          refine .some ⟨?_, last⟩
          simp only [Node.atMargin, Node.allAtMargin_eq_map, placed, sameItems]
        · simp only [first, second]
          exact .some ⟨by simp [Node.atMargin, placed], last⟩
      · rcases trims.accept true .rightBrace with ⟨first, second⟩ |
          ⟨closed, twinClosed, first, second, last⟩
        · simp only [first, second]
          apply ((readers less).entries rfl trims).bindRead
          intro entries others rest behind sameEntries last
          refine .some ⟨?_, last⟩
          rw [Node.entriesAtMargin_eq_map, Node.entriesAtMargin_eq_map] at sameEntries
          simp only [Node.atMargin, Node.entriesAtMargin_eq_map, placed]
          rw [← Dict.ofList_map, ← Dict.ofList_map, sameEntries]
        · simp only [first, second]
          exact .some ⟨by simp [Node.atMargin, placed], last⟩
      · exact .none

/-- All readers of expressions read on without the blanks, whatever their depths. -/
theorem of_depth (depth : Nat) : ∀ less, ExpressionTrims depth less := by
  induction depth with
  | zero => intro less; constructor <;> intros <;> trivial
  | succ depth readers =>
      intro less
      exact {
        expression := expression_succ readers
        operators := operators_succ readers
        unary := unary_succ readers
        suffixes := suffixes_succ readers
        arguments := arguments_succ readers
        moreArguments := moreArguments_succ readers
        primary := primary_succ readers
        items := items_succ readers
        entries := entries_succ readers }

end ExpressionTrims

end Lehce

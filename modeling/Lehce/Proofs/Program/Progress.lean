import Lehce.Proofs.Program.Contract
import Lehce.Proofs.Token.Line

/-!
# How the readers of expressions go on

Whatever the tokens ahead are, a reader ends in one of two ways (`Stream.Reads`). It returns
a stream that starts with a later token, behind what it read. Or it ends with a fault. Every
place that it tells, of a node or of a fault, is where one of the tokens ahead starts or ends,
and it never runs out of a depth that is large enough for the tokens ahead.
-/

namespace Lehce

variable {α β : Type} {proper : Position → Prop}

/-- What a result is when it is one, and what its fault is when it is none. -/
def Yields (good : α → Prop) (blamed : Fault → Prop) : Except Fault α → Prop
  | .ok result => good result
  | .error fault => blamed fault

/-- Where a fault is told to be. -/
def Fault.position (fault : Fault) : Position := ⟨fault.line, fault.column⟩

/-- Whether a token starts and ends at proper places. The end of a blank or of a line break is
never told. -/
structure Token.IsPlaced (proper : Position → Prop) (token : Token) : Prop where
  start : proper token.position
  stop : token.kind.isVisible = true → proper ⟨token.line, token.stop⟩

/-- Whether all places that a stream can tell are proper. -/
structure Stream.IsPlaced (proper : Position → Prop) (stream : Stream) : Prop where
  tokens : ∀ token ∈ stream.rest, token.IsPlaced proper
  lastEnd : proper stream.lastEnd

/-- The places that a node itself tells. -/
def Node.places : Node → List Position
  | .function position _ _ bodyPosition _ | .branch position _ bodyPosition _ _
  | .endlessLoop position bodyPosition _ | .whileLoop position _ bodyPosition _ =>
    [position, bodyPosition]
  | node => [node.position]

/-- Whether a node and all nodes below it are at proper places. -/
def Node.IsPlaced (proper : Position → Prop) (node : Node) : Prop :=
  ∀ part ∈ node.occurrences true, ∀ place ∈ part.places, proper place

/-- Whether a fault is at a proper place and does not tell that a sufficient depth was not. -/
structure Fault.IsProper (proper : Position → Prop) (enough : Prop) (fault : Fault) : Prop where
  placed : proper fault.position
  sufficient : enough → fault.kind ≠ .invalid

/-- What is yielded is gone on with. -/
theorem Yields.bind {enough wanted : Prop} {good : α → Prop} {wantedGood : β → Prop}
    {result : Except Fault α} {next : α → Except Fault β}
    (yields : Yields good (Fault.IsProper proper enough) result) (suffices_ : wanted → enough)
    (goesOn : ∀ value, good value →
      Yields wantedGood (Fault.IsProper proper wanted) (next value)) :
    Yields wantedGood (Fault.IsProper proper wanted) (result >>= next) := by
  cases result with
  | ok value => exact goesOn value yields
  | error fault =>
      exact ⟨yields.placed, fun sufficient => yields.sufficient (suffices_ sufficient)⟩

/-- Whether a stream is behind some tokens of another one. -/
structure Stream.Leaves (proper : Position → Prop) (stream rest : Stream) : Prop where
  suffix : rest.rest <:+ stream.rest
  placed : rest.IsPlaced proper

/-- What a reader comes to that starts at a stream, with enough depth or without. -/
def Stream.Reads (proper : Position → Prop) (stream : Stream) (enough : Prop)
    (good : α → Stream → Prop) (result : Except Fault (α × Stream)) : Prop :=
  Yields (fun read => good read.1 read.2 ∧ stream.Leaves proper read.2)
    (Fault.IsProper proper enough) result

namespace Node

theorem isPlaced_iff {node : Node} : node.IsPlaced proper ↔
    (∀ place ∈ node.places, proper place) ∧ ∀ child ∈ node.children, child.IsPlaced proper := by
  unfold IsPlaced
  constructor
  · intro placed
    refine ⟨placed node (mem_occurrences_self true node), ?_⟩
    intro child member part inside
    exact placed part (mem_occurrences_children.2 (.inr ⟨child, member, inside⟩))
  · rintro ⟨here, below⟩ part inside
    rcases mem_occurrences_children.1 inside with rfl | ⟨child, member, inside⟩
    · exact here
    · exact below child member part inside

theorem IsPlaced.here {node : Node} (placed : node.IsPlaced proper) : proper node.position := by
  have places := (isPlaced_iff.1 placed).1
  cases node <;> exact places _ (by simp [Node.places, Node.position])

/-- A node that tells no place of a body is placed when it and the nodes below it are. -/
theorem IsPlaced.intro {node : Node} (places : node.places = [node.position])
    (here : proper node.position) (below : ∀ child ∈ node.children, child.IsPlaced proper) :
    node.IsPlaced proper := by
  rw [isPlaced_iff, places]
  exact ⟨by simpa using here, below⟩

end Node

namespace Stream

variable {bracketed : Bool} {stream rest after : Stream} {token : Token} {enough : Prop}
  {good : α → Stream → Prop}

theorem Leaves.length (leaves : stream.Leaves proper rest) :
    rest.rest.length ≤ stream.rest.length :=
  leaves.suffix.length_le

theorem Leaves.trans (first : stream.Leaves proper after) (second : after.Leaves proper rest) :
    stream.Leaves proper rest :=
  ⟨second.suffix.trans first.suffix, second.placed⟩

theorem IsPlaced.leaves (placed : stream.IsPlaced proper) : stream.Leaves proper stream :=
  ⟨List.suffix_refl stream.rest, placed⟩

theorem dropBlanks_suffix (bracketed : Bool) (tokens : List Token) (indent : Int)
    (lastEnd : Position) :
    (dropBlanks bracketed tokens indent lastEnd).rest <:+ tokens ∧
      (dropBlanks bracketed tokens indent lastEnd).lastEnd = lastEnd := by
  fun_induction dropBlanks bracketed tokens indent lastEnd with
  | case1 => exact ⟨List.suffix_refl [], rfl⟩
  | case2 first others _ _ _ _ ih | case3 first others _ _ _ _ _ ih =>
      exact ⟨ih.1.trans (List.suffix_cons first others), ih.2⟩
  | case4 | case5 => exact ⟨List.suffix_refl _, rfl⟩

/-- What comes first behind the blanks is no blank. -/
theorem dropBlanks_first {first : Token} {others tokens : List Token} {indent : Int}
    {lastEnd : Position}
    (ahead : (dropBlanks bracketed tokens indent lastEnd).rest = first :: others) :
    first.kind.isVisible = true ∨ bracketed = false ∧ ∃ width, first.kind = .newline width := by
  fun_induction dropBlanks bracketed tokens indent lastEnd with
  | case1 => cases ahead
  | case2 _ _ _ _ _ _ ih | case3 _ _ _ _ _ _ _ ih => exact ih ahead
  | case4 token others indent lastEnd width isNewline outside =>
      cases ahead
      exact .inr ⟨by simpa using outside, width, isNewline⟩
  | case5 token others indent lastEnd noBlank noNewline =>
      cases ahead
      left
      unfold Token.Kind.isVisible
      split
      · rename_i width isBlank
        exact absurd isBlank (noBlank width)
      · rename_i width isNewline
        exact absurd isNewline (noNewline width)
      · rfl

theorem IsPlaced.skip (placed : stream.IsPlaced proper) (bracketed : Bool) :
    stream.Leaves proper (stream.skip bracketed) := by
  rcases dropBlanks_suffix bracketed stream.rest stream.lineIndent stream.lastEnd with
    ⟨suffix, same⟩
  refine ⟨suffix, ?_, ?_⟩
  · exact fun token member => placed.tokens token (suffix.subset member)
  · rw [Stream.skip, same]
    exact placed.lastEnd

theorem IsPlaced.next (placed : stream.IsPlaced proper)
    (found : stream.next? bracketed = some (token, after)) :
    token.IsPlaced proper ∧ stream.Leaves proper after ∧
      after.rest.length < stream.rest.length := by
  have skipped := placed.skip bracketed
  simp only [next?] at found
  split at found
  · cases found
  · rename_i first others ahead
    have suffix : others <:+ stream.rest :=
      (List.suffix_cons first others).trans (ahead ▸ skipped.suffix)
    have shorter : others.length < stream.rest.length := by
      have long := skipped.length
      rw [ahead, List.length_cons] at long
      omega
    have firstPlaced : first.IsPlaced proper := skipped.placed.tokens first (by simp [ahead])
    have othersPlaced : ∀ token ∈ others, token.IsPlaced proper :=
      fun token member => placed.tokens token (suffix.subset member)
    split at found
    · cases found
      exact ⟨firstPlaced, ⟨suffix, othersPlaced, skipped.placed.lastEnd⟩, shorter⟩
    · rename_i noNewline
      cases found
      rcases dropBlanks_first ahead with visible | ⟨-, width, isNewline⟩
      · exact ⟨firstPlaced, ⟨suffix, othersPlaced, firstPlaced.stop visible⟩, shorter⟩
      · exact absurd isNewline (noNewline width)

theorem next_of_accept {op : Operator} (found : stream.accept? bracketed op = some after) :
    ∃ token, stream.next? bracketed = some (token, after) ∧ token.isOperator op = true := by
  unfold accept? at found
  split at found
  · rename_i token rest next
    split at found
    · rename_i same
      cases found
      exact ⟨token, next, same⟩
    · cases found
  · cases found

theorem IsPlaced.accept {op : Operator} (placed : stream.IsPlaced proper)
    (found : stream.accept? bracketed op = some after) :
    stream.Leaves proper after ∧ after.rest.length < stream.rest.length := by
  rcases next_of_accept found with ⟨token, next, -⟩
  exact (placed.next next).2

theorem IsPlaced.here (placed : stream.IsPlaced proper) (bracketed : Bool) :
    proper (stream.here bracketed) := by
  have skipped := (placed.skip bracketed).placed
  simp only [Stream.here]
  split
  · exact skipped.lastEnd
  · rename_i first others ahead
    split
    · exact skipped.lastEnd
    · exact (skipped.tokens first (by simp [ahead])).start

/-- A fault of a kind of its own is proper when its place is. -/
theorem isProper_located {position : Position} {kind : Fault.Kind} (here : proper position)
    (other : kind ≠ .invalid) : (Fault.located kind position).IsProper proper enough :=
  ⟨here, fun _ => other⟩

theorem IsPlaced.faultHere {kind : Fault.Kind} (placed : stream.IsPlaced proper)
    (bracketed : Bool) (other : kind ≠ .invalid) :
    (stream.faultHere bracketed kind).IsProper proper enough :=
  isProper_located (placed.here bracketed) other

/-- What a reader read is read on by another one. -/
theorem Reads.bind {wanted : Prop} {wantedGood : β → Prop} {result : Except Fault (α × Stream)}
    {next : α × Stream → Except Fault β} (reads : stream.Reads proper enough good result)
    (suffices_ : wanted → enough)
    (goesOn : ∀ value rest, good value rest → stream.Leaves proper rest →
      Yields wantedGood (Fault.IsProper proper wanted) (next (value, rest))) :
    Yields wantedGood (Fault.IsProper proper wanted) (result >>= next) :=
  Yields.bind reads suffices_ fun read isGood => goesOn read.1 read.2 isGood.1 isGood.2

/-- What a reader comes to behind some tokens is what it comes to as a whole. -/
theorem Reads.behind {wanted : Prop} {result : Except Fault (α × Stream)}
    (reads : after.Reads proper enough good result) (leaves : stream.Leaves proper after)
    (suffices_ : wanted → enough) : stream.Reads proper wanted good result := by
  cases result with
  | ok read => exact ⟨reads.1, leaves.trans reads.2⟩
  | error fault => exact ⟨reads.placed, fun sufficient => reads.sufficient (suffices_ sufficient)⟩

/-- Behind a token, a reader returns a stream that is shorter than the whole one. -/
theorem Reads.shorten {wanted : Prop} {result : Except Fault (α × Stream)}
    (reads : after.Reads proper enough good result) (leaves : stream.Leaves proper after)
    (shorter : after.rest.length < stream.rest.length) (suffices_ : wanted → enough) :
    stream.Reads proper wanted
      (fun value rest => good value rest ∧ rest.rest.length < stream.rest.length) result := by
  cases result with
  | ok read =>
      exact ⟨⟨reads.1, Nat.lt_of_le_of_lt reads.2.length shorter⟩, leaves.trans reads.2⟩
  | error fault => exact ⟨reads.placed, fun sufficient => reads.sufficient (suffices_ sufficient)⟩

/-- What a reader finds that returns no node when none starts at the next token. -/
def Finds (proper : Position → Prop) (stream : Stream) (found : Option Node) (rest : Stream) :
    Prop :=
  ∀ node ∈ found, node.IsPlaced proper ∧ rest.rest.length < stream.rest.length

end Stream

/-- What every reader of expressions comes to at one depth. -/
structure ExpressionProgress (proper : Position → Prop) (depth : Nat) : Prop where
  expression : ∀ {bracketed : Bool} {least : Nat} {stream : Stream}, stream.IsPlaced proper →
    stream.Reads proper (16 * stream.rest.length + 4 ≤ depth) (stream.Finds proper)
      (readExpression depth bracketed least stream)
  operators : ∀ {bracketed : Bool} {least : Nat} {left : Node} {stream : Stream},
    left.IsPlaced proper → stream.IsPlaced proper →
    stream.Reads proper (16 * stream.rest.length + 1 ≤ depth) (fun node _ => node.IsPlaced proper)
      (readOperators depth bracketed least left stream)
  unary : ∀ {bracketed : Bool} {stream : Stream}, stream.IsPlaced proper →
    stream.Reads proper (16 * stream.rest.length + 3 ≤ depth) (stream.Finds proper)
      (readUnary depth bracketed stream)
  suffixes : ∀ {bracketed : Bool} {node : Node} {stream : Stream},
    node.IsPlaced proper → stream.IsPlaced proper →
    stream.Reads proper (16 * stream.rest.length + 1 ≤ depth) (fun node _ => node.IsPlaced proper)
      (readSuffixes depth bracketed node stream)
  arguments : ∀ {stream : Stream}, stream.IsPlaced proper →
    stream.Reads proper (16 * stream.rest.length + 6 ≤ depth)
      (fun args _ => ∀ arg ∈ args, arg.IsPlaced proper) (readArguments depth stream)
  moreArguments : ∀ {before : List Node} {stream : Stream},
    (∀ arg ∈ before, arg.IsPlaced proper) → stream.IsPlaced proper →
    stream.Reads proper (16 * stream.rest.length + 5 ≤ depth)
      (fun args _ => ∀ arg ∈ args, arg.IsPlaced proper) (readMoreArguments depth before stream)
  primary : ∀ {bracketed : Bool} {token : Token} {after : Stream},
    token.IsPlaced proper → after.IsPlaced proper →
    Yields (fun found => ∀ read ∈ found, read.1.IsPlaced proper ∧ after.Leaves proper read.2)
      (Fault.IsProper proper (16 * after.rest.length + 6 ≤ depth))
      (readPrimary depth bracketed token after)
  items : ∀ {before : List Node} {stream : Stream},
    (∀ item ∈ before, item.IsPlaced proper) → stream.IsPlaced proper →
    stream.Reads proper (16 * stream.rest.length + 5 ≤ depth)
      (fun items _ => ∀ item ∈ items, item.IsPlaced proper) (readItems depth before stream)
  entries : ∀ {before : List (String × Node)} {stream : Stream},
    (∀ entry ∈ before, entry.2.IsPlaced proper) → stream.IsPlaced proper →
    stream.Reads proper (16 * stream.rest.length + 1 ≤ depth)
      (fun entries _ => ∀ entry ∈ entries, entry.2.IsPlaced proper) (readEntries depth before stream)

/-- A fault behind the end of a token that is no blank. -/
theorem Token.IsPlaced.missingRight {token : Token} {enough : Prop}
    (placed : token.IsPlaced proper) (visible : token.kind.isVisible = true) :
    (missingRight token).IsProper proper enough :=
  Stream.isProper_located (placed.stop visible) (by decide)

theorem isProper_outOfDepth {enough : Prop} (origin : proper ⟨0, 0⟩) (short : ¬enough) :
    Fault.IsProper proper enough outOfDepth :=
  ⟨origin, fun sufficient => absurd sufficient short⟩

theorem Token.Kind.isVisible_of_dyadic {kind : Token.Kind} {operator : Dyadic}
    (found : kind.dyadic? = some operator) : kind.isVisible = true := by
  cases kind <;> first | rfl | cases found

theorem Token.Kind.isVisible_of_unary {kind : Token.Kind} {op : Op}
    (found : kind.unary? = some op) : kind.isVisible = true := by
  cases kind <;> first | rfl | cases found

theorem Dyadic.isPlaced_node {operator : Dyadic} {left right : Node}
    (leftPlaced : left.IsPlaced proper) (rightPlaced : right.IsPlaced proper) :
    (operator.node left right).IsPlaced proper := by
  unfold Dyadic.node
  split <;> exact .intro rfl leftPlaced.here
    (by simp [Node.children, Node.parts, leftPlaced, rightPlaced])

/-- A unary operator is placed where its token starts. -/
theorem applyUnary_placed (enough : Prop) {token : Token} {op : Op} {operand : Node}
    (placed : token.IsPlaced proper) (operandPlaced : operand.IsPlaced proper) :
    Yields (Node.IsPlaced proper) (Fault.IsProper proper enough) (applyUnary token op operand) := by
  have literal : ∀ value, (Node.literal token.position value).IsPlaced proper :=
    fun value => .intro rfl placed.start (by simp [Node.children, Node.parts])
  have prefixed : ∀ op, (Node.prefixed token.position op operand true).IsPlaced proper :=
    fun op => .intro rfl placed.start (by simp [Node.children, Node.parts, operandPlaced])
  unfold applyUnary
  split
  · exact literal _
  · exact literal _
  · exact Stream.isProper_located placed.start (by decide)
  · exact Stream.isProper_located placed.start (by decide)
  · exact operandPlaced
  · exact prefixed _
  · exact prefixed _
  · exact Stream.isProper_located placed.start (by decide)
  · exact Stream.isProper_located placed.start (by decide)
  · exact prefixed _

namespace ExpressionProgress

variable {depth : Nat} {bracketed : Bool} {least : Nat} {stream : Stream}

theorem zero (origin : proper ⟨0, 0⟩) : ExpressionProgress proper 0 := by
  constructor <;> intros <;> exact isProper_outOfDepth origin (by omega)

theorem expression_succ (readers : ExpressionProgress proper depth)
    (placed : stream.IsPlaced proper) :
    stream.Reads proper (16 * stream.rest.length + 4 ≤ depth + 1) (stream.Finds proper)
      (readExpression (depth + 1) bracketed least stream) := by
  rw [readExpression]
  apply (readers.unary placed).bind (by omega)
  rintro (_ | left) rest found leaves
  · exact ⟨by simp [Stream.Finds], leaves⟩
  · rcases found left rfl with ⟨leftPlaced, shorter⟩
    apply (readers.operators leftPlaced leaves.placed).bind (by omega)
    intro node after nodePlaced further
    refine ⟨?_, leaves.trans further⟩
    rintro _ ⟨⟩
    exact ⟨nodePlaced, Nat.lt_of_le_of_lt further.length shorter⟩

theorem operators_succ (readers : ExpressionProgress proper depth) {left : Node}
    (leftPlaced : left.IsPlaced proper) (placed : stream.IsPlaced proper) :
    stream.Reads proper (16 * stream.rest.length + 1 ≤ depth + 1)
      (fun node _ => node.IsPlaced proper)
      (readOperators (depth + 1) bracketed least left stream) := by
  rw [readOperators]
  split
  · exact ⟨leftPlaced, placed.leaves⟩
  · rename_i token after next
    rcases placed.next next with ⟨tokenPlaced, leaves, shorter⟩
    split
    · exact ⟨leftPlaced, placed.leaves⟩
    · rename_i operator known
      split
      · exact ⟨leftPlaced, placed.leaves⟩
      · apply (readers.expression leaves.placed).bind (by omega)
        rintro (_ | right) rest found further
        · exact tokenPlaced.missingRight (Token.Kind.isVisible_of_dyadic known)
        · rcases found right rfl with ⟨rightPlaced, -⟩
          have short := further.length
          exact (readers.operators (Dyadic.isPlaced_node leftPlaced rightPlaced)
            further.placed).behind (leaves.trans further) (by omega)

theorem unary_succ (readers : ExpressionProgress proper depth) (placed : stream.IsPlaced proper) :
    stream.Reads proper (16 * stream.rest.length + 3 ≤ depth + 1) (stream.Finds proper)
      (readUnary (depth + 1) bracketed stream) := by
  have nothing : stream.Finds proper none stream := by simp [Stream.Finds]
  rw [readUnary]
  split
  · exact ⟨nothing, placed.leaves⟩
  · rename_i token after next
    rcases placed.next next with ⟨tokenPlaced, leaves, shorter⟩
    split
    · apply (readers.primary tokenPlaced leaves.placed).bind (by omega)
      rintro (_ | ⟨node, rest⟩) found
      · exact ⟨nothing, placed.leaves⟩
      · rcases found _ rfl with ⟨nodePlaced, further⟩
        have short := further.length
        apply (readers.suffixes nodePlaced further.placed).bind (by omega)
        intro extended rest extendedPlaced last
        refine ⟨?_, (leaves.trans further).trans last⟩
        rintro _ ⟨⟩
        exact ⟨extendedPlaced, Nat.lt_of_le_of_lt (last.length.trans short) shorter⟩
    · rename_i op known
      apply (readers.unary leaves.placed).bind (by omega)
      rintro (_ | operand) rest found further
      · exact tokenPlaced.missingRight (Token.Kind.isVisible_of_unary known)
      · rcases found operand rfl with ⟨operandPlaced, shortest⟩
        apply (applyUnary_placed True tokenPlaced operandPlaced).bind
          (fun _ => trivial)
        intro node nodePlaced
        refine ⟨?_, leaves.trans further⟩
        rintro _ ⟨⟩
        exact ⟨nodePlaced, shortest.trans shorter⟩

theorem suffixes_succ (readers : ExpressionProgress proper depth) {node : Node}
    (nodePlaced : node.IsPlaced proper) (placed : stream.IsPlaced proper) :
    stream.Reads proper (16 * stream.rest.length + 1 ≤ depth + 1)
      (fun node _ => node.IsPlaced proper) (readSuffixes (depth + 1) bracketed node stream) := by
  rw [readSuffixes]
  split
  · exact ⟨nodePlaced, placed.leaves⟩
  · rename_i token after next
    rcases placed.next next with ⟨tokenPlaced, leaves, shorter⟩
    -- a suffix leaves a node that starts where the operand does
    have stepped : ∀ {position : Position} {name : String} (op : Op),
        (Node.symbol position name).IsPlaced proper →
        stream.Reads proper (16 * stream.rest.length + 1 ≤ depth + 1)
          (fun node _ => node.IsPlaced proper)
          (readSuffixes depth bracketed (.suffixed position op (.symbol position name) true)
            after) := by
      intro position name op symbolPlaced
      have suffixed : (Node.suffixed position op (.symbol position name) true).IsPlaced proper :=
        .intro rfl symbolPlaced.here (by simp [Node.children, Node.parts, symbolPlaced])
      exact (readers.suffixes suffixed leaves.placed).behind leaves (by omega)
    split
    · have called : ∀ callee : Node, callee.IsPlaced proper →
          stream.Reads proper (16 * stream.rest.length + 1 ≤ depth + 1)
            (fun node _ => node.IsPlaced proper)
            (readArguments depth after >>= fun read =>
              readSuffixes depth bracketed (.call callee.position callee read.1 true) read.2) := by
        intro callee calleePlaced
        apply (readers.arguments leaves.placed).bind (by omega)
        intro args rest argsPlaced further
        have short := further.length
        have call : (Node.call callee.position callee args true).IsPlaced proper := by
          refine .intro rfl calleePlaced.here ?_
          simpa [Node.children, Node.parts, calleePlaced] using argsPlaced
        exact (readers.suffixes call further.placed).behind (leaves.trans further) (by omega)
      split
      · exact called _ nodePlaced
      · exact called _ nodePlaced
      · exact Stream.isProper_located tokenPlaced.start (by decide)
    · apply (readers.expression leaves.placed).bind (by omega)
      rintro (_ | key) rest found further
      · exact further.placed.faultHere true (by decide)
      · rcases found key rfl with ⟨keyPlaced, short⟩
        dsimp only
        split
        · exact further.placed.faultHere true (by decide)
        · rename_i closed accepted
          rcases further.placed.accept accepted with ⟨last, shortest⟩
          have index : (Node.index node.position node key).IsPlaced proper := by
            refine .intro rfl nodePlaced.here ?_
            simp [Node.children, Node.parts, nodePlaced, keyPlaced]
          exact (readers.suffixes index last.placed).behind
            ((leaves.trans further).trans last) (by omega)
    · split
      · exact stepped _ nodePlaced
      · exact Stream.isProper_located tokenPlaced.start (by decide)
    · split
      · exact stepped _ nodePlaced
      · exact Stream.isProper_located tokenPlaced.start (by decide)
    · exact ⟨nodePlaced, placed.leaves⟩

theorem arguments_succ (readers : ExpressionProgress proper depth)
    (placed : stream.IsPlaced proper) :
    stream.Reads proper (16 * stream.rest.length + 6 ≤ depth + 1)
      (fun args _ => ∀ arg ∈ args, arg.IsPlaced proper) (readArguments (depth + 1) stream) := by
  rw [readArguments]
  split
  · rename_i rest accepted
    exact ⟨by simp, (placed.accept accepted).1⟩
  · exact (readers.moreArguments (by simp) placed).behind placed.leaves (by omega)

theorem moreArguments_succ (readers : ExpressionProgress proper depth) {before : List Node}
    (beforePlaced : ∀ arg ∈ before, arg.IsPlaced proper) (placed : stream.IsPlaced proper) :
    stream.Reads proper (16 * stream.rest.length + 5 ≤ depth + 1)
      (fun args _ => ∀ arg ∈ args, arg.IsPlaced proper)
      (readMoreArguments (depth + 1) before stream) := by
  rw [readMoreArguments]
  split
  · exact placed.faultHere true (by decide)
  · apply (readers.expression placed).bind (by omega)
    rintro (_ | arg) rest found leaves
    · change Yields _ _ (if rest.isAt true .rightParenthesis = true then _ else _)
      split
      · exact leaves.placed.faultHere true (by decide)
      · exact leaves.placed.faultHere true (by decide)
    · rcases found arg rfl with ⟨argPlaced, shorter⟩
      have argsPlaced : ∀ other ∈ arg :: before, other.IsPlaced proper := by
        simpa [argPlaced] using beforePlaced
      dsimp only
      split
      · rename_i closed accepted
        refine ⟨?_, leaves.trans (leaves.placed.accept accepted).1⟩
        exact fun other member => argsPlaced other (List.mem_reverse.1 member)
      · split
        · rename_i more accepted
          rcases leaves.placed.accept accepted with ⟨last, shortest⟩
          exact (readers.moreArguments argsPlaced last.placed).behind (leaves.trans last) (by omega)
        · exact leaves.placed.faultHere true (by decide)

theorem items_succ (readers : ExpressionProgress proper depth) {before : List Node}
    (beforePlaced : ∀ item ∈ before, item.IsPlaced proper) (placed : stream.IsPlaced proper) :
    stream.Reads proper (16 * stream.rest.length + 5 ≤ depth + 1)
      (fun items _ => ∀ item ∈ items, item.IsPlaced proper)
      (readItems (depth + 1) before stream) := by
  rw [readItems]
  apply (readers.expression placed).bind (by omega)
  rintro (_ | item) rest found leaves
  · change Yields _ _ (if rest.isAt true .comma = true then _ else _)
    split
    · exact leaves.placed.faultHere true (by decide)
    · exact leaves.placed.faultHere true (by decide)
  · rcases found item rfl with ⟨itemPlaced, shorter⟩
    have itemsPlaced : ∀ other ∈ item :: before, other.IsPlaced proper := by
      simpa [itemPlaced] using beforePlaced
    dsimp only
    split
    · rename_i closed accepted
      refine ⟨?_, leaves.trans (leaves.placed.accept accepted).1⟩
      exact fun other member => itemsPlaced other (List.mem_reverse.1 member)
    · split
      · rename_i more accepted
        rcases leaves.placed.accept accepted with ⟨last, shortest⟩
        exact (readers.items itemsPlaced last.placed).behind (leaves.trans last) (by omega)
      · exact leaves.placed.faultHere true (by decide)

theorem entries_succ (readers : ExpressionProgress proper depth) {before : List (String × Node)}
    (beforePlaced : ∀ entry ∈ before, entry.2.IsPlaced proper)
    (placed : stream.IsPlaced proper) :
    stream.Reads proper (16 * stream.rest.length + 1 ≤ depth + 1)
      (fun entries _ => ∀ entry ∈ entries, entry.2.IsPlaced proper)
      (readEntries (depth + 1) before stream) := by
  rw [readEntries]
  split
  · exact placed.faultHere true (by decide)
  · rename_i token after next
    rcases placed.next next with ⟨tokenPlaced, leaves, shorter⟩
    split
    · rename_i key isKey
      split
      · exact leaves.placed.faultHere true (by decide)
      · rename_i afterColon colon
        rcases leaves.placed.accept colon with ⟨further, short⟩
        apply (readers.expression further.placed).bind (by omega)
        rintro (_ | value) rest found last
        · exact last.placed.faultHere true (by decide)
        · rcases found value rfl with ⟨valuePlaced, shortest⟩
          have entriesPlaced : ∀ entry ∈ (key, value) :: before, entry.2.IsPlaced proper := by
            simpa [valuePlaced] using beforePlaced
          have whole := (leaves.trans further).trans last
          dsimp only
          split
          · rename_i closed accepted
            refine ⟨?_, whole.trans (last.placed.accept accepted).1⟩
            exact fun entry member => entriesPlaced entry (List.mem_reverse.1 member)
          · split
            · rename_i more accepted
              rcases last.placed.accept accepted with ⟨end_, least⟩
              exact (readers.entries entriesPlaced end_.placed).behind (whole.trans end_) (by omega)
            · exact last.placed.faultHere true (by decide)
    · exact Stream.isProper_located tokenPlaced.start (by decide)

theorem dottedParts_reads (origin : proper ⟨0, 0⟩) {parts : List String}
    (placed : stream.IsPlaced proper) :
    stream.Reads proper (16 * stream.rest.length + 1 ≤ depth) (fun _ _ => True)
      (dottedParts bracketed depth parts stream) := by
  induction depth generalizing parts stream with
  | zero => exact isProper_outOfDepth origin (by omega)
  | succ depth ih =>
      rw [dottedParts]
      split
      · exact ⟨trivial, placed.leaves⟩
      · rename_i after accepted
        rcases placed.accept accepted with ⟨leaves, shorter⟩
        split
        · rename_i part rest next
          rcases leaves.placed.next next with ⟨-, further, short⟩
          exact (ih further.placed).behind (leaves.trans further) (by omega)
        · exact leaves.placed.faultHere bracketed (by decide)

theorem symbolOrPath_reads (origin : proper ⟨0, 0⟩) {position : Position} {name : String}
    (here : proper position) (placed : stream.IsPlaced proper) :
    stream.Reads proper (16 * stream.rest.length + 1 ≤ depth) (fun node _ => node.IsPlaced proper)
      (symbolOrPath bracketed depth position name stream) := by
  unfold symbolOrPath
  split
  · apply (dottedParts_reads origin placed).bind (by omega)
    intro parts rest _ leaves
    exact ⟨.intro rfl here (by simp [Node.children, Node.parts]), leaves⟩
  · exact ⟨.intro rfl here (by simp [Node.children, Node.parts]), placed.leaves⟩

theorem primary_succ (origin : proper ⟨0, 0⟩) (readers : ExpressionProgress proper depth)
    {token : Token} {after : Stream} (tokenPlaced : token.IsPlaced proper)
    (placed : after.IsPlaced proper) :
    Yields (fun found => ∀ read ∈ found, read.1.IsPlaced proper ∧ after.Leaves proper read.2)
      (Fault.IsProper proper (16 * after.rest.length + 6 ≤ depth + 1))
      (readPrimary (depth + 1) bracketed token after) := by
  have literal : ∀ value, (Node.literal token.position value).IsPlaced proper :=
    fun value => .intro rfl tokenPlaced.start (by simp [Node.children, Node.parts])
  have one : ∀ {node : Node} {rest : Stream}, node.IsPlaced proper → after.Leaves proper rest →
      ∀ read ∈ some (node, rest), read.1.IsPlaced proper ∧ after.Leaves proper read.2 := by
    rintro node rest nodePlaced leaves _ ⟨⟩
    exact ⟨nodePlaced, leaves⟩
  rw [readPrimary]
  split
  · exact one (literal _) placed.leaves
  · exact one (literal _) placed.leaves
  · exact one (literal _) placed.leaves
  · exact one (literal _) placed.leaves
  · apply (symbolOrPath_reads origin tokenPlaced.start placed).bind (by omega)
    intro node rest nodePlaced leaves
    exact one nodePlaced leaves
  · exact one (literal _) placed.leaves
  · exact one (literal _) placed.leaves
  · exact one (literal _) placed.leaves
  · rename_i isOpening
    apply (readers.expression placed).bind (by omega)
    rintro (_ | node) rest found leaves
    · exact tokenPlaced.missingRight (by rw [isOpening]; rfl)
    · dsimp only
      split
      · exact leaves.placed.faultHere true (by decide)
      · rename_i closed accepted
        exact one (found node rfl).1 (leaves.trans (leaves.placed.accept accepted).1)
  · split
    · rename_i rest accepted
      exact one (.intro rfl tokenPlaced.start (by simp [Node.children, Node.parts]))
        (placed.accept accepted).1
    · apply (readers.items (by simp) placed).bind (by omega)
      intro items rest itemsPlaced leaves
      exact one (.intro rfl tokenPlaced.start itemsPlaced) leaves
  · split
    · rename_i rest accepted
      exact one (.intro rfl tokenPlaced.start (by simp [Node.children, Node.parts]))
        (placed.accept accepted).1
    · apply (readers.entries (by simp) placed).bind (by omega)
      intro entries rest entriesPlaced leaves
      refine one (.intro rfl tokenPlaced.start ?_) leaves
      simp only [Node.children, Node.parts, List.mem_map]
      rintro child ⟨entry, member, rfl⟩
      exact entriesPlaced entry (Dict.mem_of_mem_ofList member)
  · simp [Yields]

/-- All readers of expressions go on as they should, whatever their depth. -/
theorem of_depth (origin : proper ⟨0, 0⟩) (depth : Nat) : ExpressionProgress proper depth := by
  induction depth with
  | zero => exact zero origin
  | succ depth readers =>
      exact {
        expression := readers.expression_succ
        operators := readers.operators_succ
        unary := readers.unary_succ
        suffixes := readers.suffixes_succ
        arguments := readers.arguments_succ
        moreArguments := readers.moreArguments_succ
        primary := readers.primary_succ origin
        items := readers.items_succ
        entries := readers.entries_succ }

end ExpressionProgress

end Lehce

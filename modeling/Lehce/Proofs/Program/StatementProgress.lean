import Lehce.Proofs.Program.Progress

/-!
# How the readers of statements go on

The readers of statements go on as those of expressions do: they return a stream behind what
they read, or else end with a fault, and tell only places of tokens. So every place that a
program and its fault tell is one of its tokens (`Program.ofTokens_yields`), and the depth
that a program is read with is always enough.
-/

namespace Lehce

variable {proper : Position → Prop} {depth : Nat} {place : Surrounding} {stream : Stream}

namespace Stream

variable {bracketed : Bool} {after : Stream}

theorem next_of_acceptKeyword {keyword : Keyword}
    (found : stream.acceptKeyword? bracketed keyword = some after) :
    ∃ token, stream.next? bracketed = some (token, after) ∧ token.isKeyword keyword = true := by
  unfold acceptKeyword? at found
  split at found
  · rename_i token rest next
    split at found
    · rename_i same
      cases found
      exact ⟨token, next, same⟩
    · cases found
  · cases found

theorem IsPlaced.acceptKeyword (placed : stream.IsPlaced proper) (bracketed : Bool)
    (keyword : Keyword) :
    stream.Leaves proper ((stream.acceptKeyword? bracketed keyword).getD stream) := by
  cases accepted : stream.acceptKeyword? bracketed keyword with
  | none => exact placed.leaves
  | some after =>
      rcases next_of_acceptKeyword accepted with ⟨token, next, -⟩
      exact (placed.next next).2.1

theorem IsPlaced.nextLine {token : Token} {indent : Int} {line : Stream}
    (placed : stream.IsPlaced proper) (found : stream.nextLine? = some (token, indent, line)) :
    token.IsPlaced proper ∧ stream.Leaves proper line := by
  have skipped := placed.skip true
  simp only [nextLine?] at found
  split at found
  · cases found
  · rename_i others ahead
    cases found
    exact ⟨skipped.placed.tokens token (by simp [ahead]), skipped⟩

end Stream

theorem Node.IsPlaced.asStatement {node : Node} (placed : node.IsPlaced proper) :
    node.asStatement.IsPlaced proper := by
  have same : node.asStatement.places = node.places ∧ node.asStatement.children = node.children := by
    unfold Node.asStatement
    split <;> exact ⟨rfl, rfl⟩
  rw [Node.isPlaced_iff, same.1, same.2]
  exact Node.isPlaced_iff.1 placed

/-- A return that is added stands where the last statement does, or else where the body does. -/
theorem withReturn_placed {position : Position} {body : List Node} (here : proper position)
    (bodyPlaced : ∀ node ∈ body, node.IsPlaced proper) :
    ∀ node ∈ withReturn position body, node.IsPlaced proper := by
  have bare : ∀ {position}, proper position →
      (Node.returns position (some (.nothing position))).IsPlaced proper := by
    intro position here
    have nothing : (Node.nothing position).IsPlaced proper :=
      .intro rfl here (by simp [Node.children, Node.parts])
    exact .intro rfl here (by simpa [Node.children, Node.parts] using nothing)
  unfold withReturn
  split
  · simpa using bare here
  · exact bodyPlaced
  · rename_i last _ found
    intro node member
    rcases List.mem_append.1 member with inBody | isAdded
    · exact bodyPlaced node inBody
    · rw [List.mem_singleton.1 isAdded]
      exact bare (bodyPlaced last (List.mem_of_getLast? found)).here

/-- A read expression that must be there. -/
theorem needExpression_reads (depth : Nat) (missing : Stream → Fault) (origin : proper ⟨0, 0⟩)
    (placed : stream.IsPlaced proper)
    (told : ∀ rest, stream.Leaves proper rest → (missing rest).IsProper proper True) :
    stream.Reads proper (16 * stream.rest.length + 4 ≤ depth)
      (fun node rest => node.IsPlaced proper ∧ rest.rest.length < stream.rest.length)
      (needExpression depth missing stream) := by
  apply ((ExpressionProgress.of_depth origin depth).expression placed).bind (by omega)
  rintro (_ | node) rest found leaves
  · have proper := told rest leaves
    exact ⟨proper.placed, fun _ => proper.sufficient trivial⟩
  · exact ⟨found node rfl, leaves⟩

theorem readParams_reads (origin : proper ⟨0, 0⟩) {params : List String}
    (placed : stream.IsPlaced proper) :
    stream.Reads proper (16 * stream.rest.length + 1 ≤ depth) (fun _ _ => True)
      (readParams depth params stream) := by
  induction depth generalizing params stream with
  | zero => exact isProper_outOfDepth origin (by omega)
  | succ depth ih =>
      rw [readParams]
      split
      · exact placed.faultHere true (by decide)
      · rename_i token after next
        rcases placed.next next with ⟨tokenPlaced, leaves, shorter⟩
        split
        · split
          · exact ⟨tokenPlaced.start, fun _ => by simp [Fault.detailed]⟩
          · split
            · rename_i closed accepted
              exact ⟨trivial, leaves.trans (leaves.placed.accept accepted).1⟩
            · split
              · rename_i more accepted
                rcases leaves.placed.accept accepted with ⟨further, short⟩
                exact (ih further.placed).behind (leaves.trans further) (by omega)
              · exact leaves.placed.faultHere true (by decide)
        · exact Stream.isProper_located tokenPlaced.start (by decide)

theorem readParameters_reads (origin : proper ⟨0, 0⟩) (placed : stream.IsPlaced proper) :
    stream.Reads proper (16 * stream.rest.length + 1 ≤ depth) (fun _ _ => True)
      (readParameters depth stream) := by
  unfold readParameters
  split
  · rename_i closed accepted
    exact ⟨trivial, (placed.accept accepted).1⟩
  · exact readParams_reads origin placed

theorem readReturn_reads (origin : proper ⟨0, 0⟩) {token : Token}
    (tokenPlaced : token.IsPlaced proper) (placed : stream.IsPlaced proper) :
    stream.Reads proper (16 * stream.rest.length + 4 ≤ depth) (fun node _ => node.IsPlaced proper)
      (readReturn depth place token stream) := by
  have returned : ∀ {value : Node}, value.IsPlaced proper →
      (Node.returns token.position (some value)).IsPlaced proper := by
    intro value valuePlaced
    exact .intro rfl tokenPlaced.start (by simpa [Node.children, Node.parts] using valuePlaced)
  have bare : (Node.returns token.position (some (.nothing token.position))).IsPlaced proper :=
    returned (.intro rfl tokenPlaced.start (by simp [Node.children, Node.parts]))
  unfold readReturn
  simp only
  split
  · exact Stream.isProper_located tokenPlaced.start (by decide)
  · split
    · exact ⟨bare, placed.leaves⟩
    · apply ((ExpressionProgress.of_depth origin depth).expression placed).bind (by omega)
      rintro (_ | value) rest found leaves
      · exact ⟨bare, leaves⟩
      · exact ⟨returned (found value rfl).1, leaves⟩

theorem readAssignment_reads (origin : proper ⟨0, 0⟩) {target : Node} {op : Op} {token : Token}
    (targetPlaced : target.IsPlaced proper) (tokenPlaced : token.IsPlaced proper)
    (visible : token.kind.isVisible = true) (placed : stream.IsPlaced proper) :
    stream.Reads proper (16 * stream.rest.length + 4 ≤ depth) (fun node _ => node.IsPlaced proper)
      (readAssignment depth target op token stream) := by
  have assigned : stream.Reads proper (16 * stream.rest.length + 4 ≤ depth)
      (fun (node : Node) _ => node.IsPlaced proper)
      (needExpression depth (fun _ => missingRight token) stream >>= fun read =>
        pure (.assignment target.position target op read.1, read.2)) := by
    have read := needExpression_reads depth (fun _ => missingRight token) origin placed
      fun _ _ => tokenPlaced.missingRight visible
    apply read.bind (fun sufficient => sufficient)
    rintro value rest ⟨valuePlaced, -⟩ leaves
    refine ⟨.intro rfl targetPlaced.here ?_, leaves⟩
    simp [Node.children, Node.parts, targetPlaced, valuePlaced]
  unfold readAssignment
  split
  · exact assigned
  · exact assigned
  · exact Stream.isProper_located targetPlaced.here (by decide)

theorem Token.Kind.isVisible_of_assignment {kind : Token.Kind} {op : Op}
    (found : kind.assignment? = some op) : kind.isVisible = true := by
  cases kind <;> first | rfl | cases found

/-- What every reader of statements comes to at one depth. -/
structure StatementProgress (proper : Position → Prop) (depth : Nat) : Prop where
  lines : ∀ {place : Surrounding} {start : Position} {items : List Node} {stream : Stream},
    proper start → (∀ item ∈ items, item.IsPlaced proper) → stream.IsPlaced proper →
    stream.Reads proper (16 * stream.rest.length + 7 ≤ depth)
      (fun block _ => proper block.1 ∧ ∀ item ∈ block.2, item.IsPlaced proper)
      (readLines depth place start items stream)
  body : ∀ {place : Surrounding} {stream : Stream}, stream.IsPlaced proper →
    stream.Reads proper (16 * stream.rest.length + 1 ≤ depth)
      (fun block rest => (proper block.1 ∧ ∀ item ∈ block.2, item.IsPlaced proper) ∧
        rest.rest.length < stream.rest.length) (readBody depth place stream)
  statement : ∀ {place : Surrounding} {stream : Stream}, stream.IsPlaced proper →
    stream.Reads proper (16 * stream.rest.length + 6 ≤ depth)
      (fun node rest => node.IsPlaced proper ∧ rest.rest.length < stream.rest.length)
      (readStatement depth place stream)
  branch : ∀ {place : Surrounding} {position : Position} {condition : Node} {stream : Stream},
    proper position → condition.IsPlaced proper → stream.IsPlaced proper →
    stream.Reads proper (16 * stream.rest.length + 2 ≤ depth) (fun node _ => node.IsPlaced proper)
      (readBranch depth place position condition stream)
  function : ∀ {place : Surrounding} {token : Token} {stream : Stream},
    token.IsPlaced proper → stream.IsPlaced proper →
    stream.Reads proper (16 * stream.rest.length + 2 ≤ depth) (fun node _ => node.IsPlaced proper)
      (readFunction depth place token stream)

namespace StatementProgress

theorem zero (origin : proper ⟨0, 0⟩) : StatementProgress proper 0 := by
  constructor <;> intros <;> exact isProper_outOfDepth origin (by omega)

theorem lines_succ (readers : StatementProgress proper depth) {start : Position}
    {items : List Node} (startPlaced : proper start)
    (itemsPlaced : ∀ item ∈ items, item.IsPlaced proper) (placed : stream.IsPlaced proper) :
    stream.Reads proper (16 * stream.rest.length + 7 ≤ depth + 1)
      (fun block _ => proper block.1 ∧ ∀ item ∈ block.2, item.IsPlaced proper)
      (readLines (depth + 1) place start items stream) := by
  have ended : ∀ item ∈ items.reverse, item.IsPlaced proper :=
    fun item member => itemsPlaced item (List.mem_reverse.1 member)
  rw [readLines]
  split
  · exact ⟨⟨startPlaced, ended⟩, placed.leaves⟩
  · rename_i token indent line next
    rcases placed.nextLine next with ⟨tokenPlaced, leaves⟩
    have short := leaves.length
    split
    · exact ⟨⟨startPlaced, ended⟩, placed.leaves⟩
    · split
      · exact Stream.isProper_located tokenPlaced.start (by decide)
      · apply (readers.statement leaves.placed).bind (by omega)
        rintro statement rest ⟨statementPlaced, shorter⟩ further
        simp only
        split
        · exact further.placed.faultHere false (by decide)
        · have firstPlaced : proper (if items.isEmpty = true then token.position else start) := by
            split
            · exact tokenPlaced.start
            · exact startPlaced
          exact (readers.lines firstPlaced
            (List.forall_mem_cons.2 ⟨statementPlaced, itemsPlaced⟩) further.placed).behind
            (leaves.trans further) (by omega)

theorem body_succ (readers : StatementProgress proper depth) (placed : stream.IsPlaced proper) :
    stream.Reads proper (16 * stream.rest.length + 1 ≤ depth + 1)
      (fun block rest => (proper block.1 ∧ ∀ item ∈ block.2, item.IsPlaced proper) ∧
        rest.rest.length < stream.rest.length) (readBody (depth + 1) place stream) := by
  rw [readBody]
  split
  · exact placed.faultHere false (by decide)
  · rename_i after accepted
    rcases placed.accept accepted with ⟨leaves, shorter⟩
    split
    · split
      · exact leaves.placed.faultHere false (by decide)
      · split
        · exact leaves.placed.faultHere false (by decide)
        · exact (readers.lines (leaves.placed.here false) (List.forall_mem_nil _)
            leaves.placed).shorten leaves shorter (by omega)
    · apply (readers.statement leaves.placed).bind (by omega)
      rintro statement rest ⟨statementPlaced, short⟩ further
      exact ⟨⟨⟨leaves.placed.here false, by simpa using statementPlaced⟩, short.trans shorter⟩,
        leaves.trans further⟩

theorem branch_succ (origin : proper ⟨0, 0⟩) (readers : StatementProgress proper depth)
    {position : Position} {condition : Node} (here : proper position)
    (conditionPlaced : condition.IsPlaced proper) (placed : stream.IsPlaced proper) :
    stream.Reads proper (16 * stream.rest.length + 2 ≤ depth + 1)
      (fun node _ => node.IsPlaced proper)
      (readBranch (depth + 1) place position condition stream) := by
  rw [readBranch]
  apply (readers.body placed).bind (by omega)
  rintro ⟨bodyPosition, body⟩ rest ⟨⟨bodyHere, bodyPlaced⟩, shorter⟩ leaves
  have branch : ∀ {otherwise : Option Node}, (∀ other ∈ otherwise, other.IsPlaced proper) →
      (Node.branch position condition bodyPosition body otherwise).IsPlaced proper := by
    intro otherwise otherwisePlaced
    rw [Node.isPlaced_iff]
    refine ⟨by simpa [Node.places] using ⟨here, bodyHere⟩, ?_⟩
    intro child member
    simp only [Node.children, Node.parts, List.mem_cons, List.mem_append,
      Option.mem_toList] at member
    rcases member with rfl | inBody | isOther
    · exact conditionPlaced
    · exact bodyPlaced child inBody
    · exact otherwisePlaced child isOther
  have alone : (Node.branch position condition bodyPosition body none).IsPlaced proper :=
    branch (by simp)
  simp only
  split
  · exact ⟨alone, leaves⟩
  · rename_i token indent line next
    rcases leaves.placed.nextLine next with ⟨tokenPlaced, toLine⟩
    split
    · exact ⟨alone, leaves⟩
    · split
      · exact ⟨alone, leaves⟩
      · rename_i elseToken after nextElse
        rcases toLine.placed.next nextElse with ⟨elsePlaced, behindElse, short⟩
        have whole := (leaves.trans toLine).trans behindElse
        have lineLength := toLine.length
        split
        · apply (readers.body behindElse.placed).bind (by omega)
          rintro ⟨otherPosition, other⟩ last ⟨⟨otherHere, otherPlaced⟩, -⟩ further
          refine ⟨branch ?_, whole.trans further⟩
          rintro _ ⟨⟩
          exact .intro rfl otherHere otherPlaced
        · have ahead := behindElse.placed.acceptKeyword false .ifWord
          have aheadLength := ahead.length
          have read := needExpression_reads depth
            (fun ahead => ahead.faultHere false .colonMarkMissing) origin ahead.placed
            fun rest further => further.placed.faultHere false (by decide)
          apply read.bind (by omega)
          rintro otherCondition between ⟨otherConditionPlaced, shortest⟩ further
          have last := further.placed.acceptKeyword false .ifWord
          have lastLength := last.length
          apply (readers.branch tokenPlaced.start otherConditionPlaced last.placed).bind (by omega)
          intro other rest otherPlaced final
          refine ⟨branch ?_, (((whole.trans ahead).trans further).trans last).trans final⟩
          rintro _ ⟨⟩
          exact otherPlaced

theorem function_succ (origin : proper ⟨0, 0⟩) (readers : StatementProgress proper depth)
    {token : Token} (tokenPlaced : token.IsPlaced proper) (placed : stream.IsPlaced proper) :
    stream.Reads proper (16 * stream.rest.length + 2 ≤ depth + 1)
      (fun node _ => node.IsPlaced proper) (readFunction (depth + 1) place token stream) := by
  rw [readFunction]
  split
  · rename_i line start stop name afterName next
    rcases placed.next next with ⟨-, leaves, shorter⟩
    split
    · exact leaves.placed.faultHere false (by decide)
    · rename_i opened accepted
      rcases leaves.placed.accept accepted with ⟨further, short⟩
      apply (readParameters_reads origin further.placed).bind (by omega)
      intro params rest _ behindParams
      have shortest := behindParams.length
      apply (readers.body behindParams.placed).bind (by omega)
      rintro ⟨bodyPosition, body⟩ last ⟨⟨bodyHere, bodyPlaced⟩, -⟩ final
      refine ⟨Node.isPlaced_iff.2 ?_, ((leaves.trans further).trans behindParams).trans final⟩
      exact ⟨by simpa [Node.places] using ⟨tokenPlaced.start, bodyHere⟩,
        withReturn_placed bodyHere bodyPlaced⟩
  · exact placed.faultHere false (by decide)

theorem statement_succ (origin : proper ⟨0, 0⟩) (readers : StatementProgress proper depth)
    (placed : stream.IsPlaced proper) :
    stream.Reads proper (16 * stream.rest.length + 6 ≤ depth + 1)
      (fun node rest => node.IsPlaced proper ∧ rest.rest.length < stream.rest.length)
      (readStatement (depth + 1) place stream) := by
  rw [readStatement]
  split
  · exact placed.faultHere false (by decide)
  · rename_i token after next
    rcases placed.next next with ⟨tokenPlaced, leaves, shorter⟩
    have condition := fun visible =>
      needExpression_reads depth (fun _ => missingRight token) origin
        leaves.placed fun _ _ => tokenPlaced.missingRight visible
    split
    · exact (readers.function tokenPlaced leaves.placed).shorten leaves shorter (by omega)
    · rename_i isWord
      apply (condition (by rw [isWord]; rfl)).bind (by omega)
      rintro node rest ⟨nodePlaced, short⟩ further
      exact (readers.branch tokenPlaced.start nodePlaced further.placed).shorten
        (leaves.trans further) (short.trans shorter) (by omega)
    · rename_i isWord
      split
      · apply (readers.body leaves.placed).bind (by omega)
        rintro ⟨bodyPosition, body⟩ rest ⟨bodyPlaced, short⟩ further
        refine ⟨⟨?_, short.trans shorter⟩, leaves.trans further⟩
        exact Node.isPlaced_iff.2 ⟨by simpa [Node.places] using ⟨tokenPlaced.start, bodyPlaced.1⟩,
          bodyPlaced.2⟩
      · apply (condition (by rw [isWord]; rfl)).bind (by omega)
        rintro node rest ⟨nodePlaced, short⟩ further
        apply (readers.body further.placed).bind (by omega)
        rintro ⟨bodyPosition, body⟩ last ⟨bodyPlaced, shortest⟩ final
        refine ⟨⟨?_, shortest.trans (short.trans shorter)⟩, (leaves.trans further).trans final⟩
        exact Node.isPlaced_iff.2 ⟨by simpa [Node.places] using ⟨tokenPlaced.start, bodyPlaced.1⟩,
          List.forall_mem_cons.2 ⟨nodePlaced, bodyPlaced.2⟩⟩
    · apply (readers.body leaves.placed).bind (by omega)
      rintro ⟨bodyPosition, body⟩ rest ⟨bodyPlaced, short⟩ further
      refine ⟨⟨?_, short.trans shorter⟩, leaves.trans further⟩
      exact Node.isPlaced_iff.2 ⟨by simpa [Node.places] using ⟨tokenPlaced.start, bodyPlaced.1⟩,
        bodyPlaced.2⟩
    · split
      · exact ⟨⟨.intro rfl tokenPlaced.start (by simp [Node.children, Node.parts]), shorter⟩, leaves⟩
      · exact Stream.isProper_located tokenPlaced.start (by decide)
    · split
      · exact ⟨⟨.intro rfl tokenPlaced.start (by simp [Node.children, Node.parts]), shorter⟩, leaves⟩
      · exact Stream.isProper_located tokenPlaced.start (by decide)
    · exact (readReturn_reads origin tokenPlaced leaves.placed).shorten leaves shorter (by omega)
    · exact ⟨tokenPlaced.start, fun _ => by simp [Fault.detailed]⟩
    · have read := needExpression_reads depth (fun _ =>
        .detailed .syntaxError token.position ("unexpected " ++ token.kind.show)) origin placed
        fun _ _ => ⟨tokenPlaced.start, fun _ => by simp [Fault.detailed]⟩
      apply read.bind (by omega)
      rintro node rest ⟨nodePlaced, short⟩ further
      simp only
      split
      · exact ⟨⟨nodePlaced.asStatement, short⟩, further⟩
      · rename_i following afterFollowing nextFollowing
        rcases further.placed.next nextFollowing with ⟨followingPlaced, last, shortest⟩
        have whole := further.trans last
        split
        · exact (readers.branch nodePlaced.here nodePlaced last.placed).shorten whole
            (shortest.trans short) (by omega)
        · split
          · rename_i op known
            exact (readAssignment_reads origin nodePlaced followingPlaced
              (Token.Kind.isVisible_of_assignment known) last.placed).shorten whole
              (shortest.trans short) (by omega)
          · exact ⟨⟨nodePlaced.asStatement, short⟩, further⟩

/-- All readers of statements go on as they should, whatever their depth. -/
theorem of_depth (origin : proper ⟨0, 0⟩) (depth : Nat) : StatementProgress proper depth := by
  induction depth with
  | zero => exact zero origin
  | succ depth readers =>
      exact {
        lines := readers.lines_succ
        body := readers.body_succ
        statement := readers.statement_succ origin
        branch := readers.branch_succ origin
        function := readers.function_succ origin }

end StatementProgress

/-- Whether a program and all of its nodes are at proper places. -/
structure Program.IsPlaced (proper : Position → Prop) (program : Program) : Prop where
  start : proper program.position
  items : ∀ item ∈ program.items, item.IsPlaced proper

/-- A program and its fault tell only where tokens start and end, and the depth that the
program is read with is enough. -/
theorem Program.ofTokens_yields (origin : proper ⟨0, 0⟩) {tokens : List Token}
    (placed : ∀ token ∈ tokens, token.IsPlaced proper) :
    Yields (Program.IsPlaced proper) (Fault.IsProper proper True) (Program.ofTokens tokens) := by
  have streamPlaced : Stream.IsPlaced proper { rest := tokens } := ⟨placed, origin⟩
  have readers := StatementProgress.of_depth origin (depthFor tokens)
  have read := @readers.lines { indent := 0 } _ _ _ (streamPlaced.here false)
    (List.forall_mem_nil _) streamPlaced
  unfold Program.ofTokens
  apply read.bind
  · intro _
    simp only [depthFor]
    omega
  · rintro ⟨position, items⟩ rest ⟨start, itemsPlaced⟩ leaves
    simp only
    split
    · exact ⟨start, itemsPlaced⟩
    · rename_i token indent line next
      have tokenPlaced := (leaves.placed.nextLine next).1
      split
      · exact Stream.isProper_located tokenPlaced.start (by decide)
      · exact ⟨tokenPlaced.start, fun _ => by simp [Fault.detailed]⟩

end Lehce

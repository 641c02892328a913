import Lehce.Proofs.Program.Depth
import Lehce.Proofs.Program.StatementProgress

/-!
# Every list of tokens is read to an end

Whatever its tokens are, a list of them is a program or has a fault, and which of them it is
does not depend on how much depth there is beyond one that its length tells. Readers work on
the tokens from an index on. They see no tokens but those, never go back, and go on by at
least one token when they read a statement or an expression. A program leaves nothing but
blanks and line breaks behind.
-/

namespace Lehce

variable {α : Type} {tokens : List Token} {i : Nat} {stream rest after : Stream}

/-- A stream is at an index of some tokens. -/
structure Stream.AtIndex (tokens : List Token) (i : Nat) (stream : Stream) : Prop where
  inside : i ≤ tokens.length
  rest : stream.rest = tokens.drop i

/-- From one index up to another one there are only blanks and line breaks. -/
def BlankUpTo (tokens : List Token) (i j : Nat) : Prop :=
  ∀ k, i ≤ k → k < j → ∀ token, tokens[k]? = some token → token.kind.isVisible = false

/--
A reader that starts at an index comes to an end. With enough depth it never tells that the
depth was not enough, and comes to the same with any more. It never goes back, and it goes on
when it reads something.
-/
structure Ends (tokens : List Token) (i enough : Nat)
    (read : Nat → Except Fault (α × Stream)) (something : α → Prop) : Prop where
  fault : ∀ depth, enough ≤ depth → ∀ fault, read depth = .error fault → fault.kind ≠ .invalid
  same : ∀ depth, enough ≤ depth → read depth = read enough
  goes : ∀ depth value rest, read depth = .ok (value, rest) →
    ∃ j, i ≤ j ∧ rest.AtIndex tokens j ∧ (something value → i < j)

namespace Stream.AtIndex

theorem start (tokens : List Token) : AtIndex tokens 0 { rest := tokens } :=
  ⟨Nat.zero_le _, rfl⟩

theorem length (at_ : stream.AtIndex tokens i) : stream.rest.length = tokens.length - i := by
  rw [at_.rest, List.length_drop]

/-- What is left of the tokens is at an index of its own. -/
theorem of_suffix (at_ : stream.AtIndex tokens i) (suffix : rest.rest <:+ stream.rest) :
    ∃ j, i ≤ j ∧ rest.AtIndex tokens j ∧ (rest.rest.length < stream.rest.length → i < j) := by
  have short := suffix.length_le
  have inside := at_.inside
  have length := at_.length
  have whole : rest.rest <:+ tokens := suffix.trans (at_.rest ▸ List.drop_suffix i tokens)
  refine ⟨tokens.length - rest.rest.length, by omega, ⟨by omega, ?_⟩, by omega⟩
  exact List.suffix_iff_eq_drop.1 whole

theorem getElem_of_rest {token : Token} {others : List Token} (at_ : stream.AtIndex tokens i)
    (first : stream.rest = token :: others) :
    tokens[i]? = some token ∧ others = tokens.drop (i + 1) := by
  rw [at_.rest] at first
  constructor
  · rw [← List.head?_drop, first, List.head?_cons]
  · rw [← List.tail_drop, first, List.tail_cons]

end Stream.AtIndex

theorem BlankUpTo.refl (tokens : List Token) (i : Nat) : BlankUpTo tokens i i :=
  fun _ least below => absurd (Nat.lt_of_le_of_lt least below) (Nat.lt_irrefl i)

theorem BlankUpTo.step {j : Nat} {token : Token} (first : tokens[i]? = some token)
    (blank : token.kind.isVisible = false) (later : BlankUpTo tokens (i + 1) j) :
    BlankUpTo tokens i j := by
  intro k least below found at_
  rcases Nat.eq_or_lt_of_le least with rfl | further
  · rw [first] at at_
    cases at_
    exact blank
  · exact later k further below found at_

/-- Only blanks and line breaks are dropped. -/
theorem Stream.AtIndex.dropBlanks {bracketed : Bool} {ahead : List Token} {indent : Int}
    {lastEnd : Position} (inside : i ≤ tokens.length) (same : ahead = tokens.drop i) :
    ∃ j, i ≤ j ∧ (Stream.dropBlanks bracketed ahead indent lastEnd).AtIndex tokens j ∧
      BlankUpTo tokens i j := by
  fun_induction Stream.dropBlanks bracketed ahead indent lastEnd generalizing i with
  | case1 | case4 | case5 => exact ⟨i, le_refl i, ⟨inside, same⟩, .refl _ _⟩
  | case2 first others _ _ _ blank ih | case3 first others _ _ _ blank _ ih =>
      have at_ : AtIndex tokens i { rest := first :: others } := ⟨inside, same⟩
      have length := at_.length
      rw [List.length_cons] at length
      rcases at_.getElem_of_rest rfl with ⟨found, behind⟩
      rcases ih (by omega) behind with ⟨j, after, atIndex, blanks⟩
      exact ⟨j, by omega, atIndex, blanks.step found (by rw [blank]; rfl)⟩

namespace Stream

variable {bracketed : Bool} {token : Token}

/-- The next token is one of those from the index on, and only blanks stand before it. -/
theorem AtIndex.next (at_ : stream.AtIndex tokens i)
    (found : stream.next? bracketed = some (token, after)) :
    ∃ j, i ≤ j ∧ tokens[j]? = some token ∧ after.AtIndex tokens (j + 1) ∧
      BlankUpTo tokens i j := by
  rcases @AtIndex.dropBlanks tokens i bracketed _ stream.lineIndent stream.lastEnd at_.inside
    at_.rest with ⟨j, behind, skipped, blanks⟩
  have length := skipped.length
  have inside := skipped.inside
  simp only [next?, skip] at found
  split at found
  · cases found
  · rename_i first others ahead
    rcases skipped.getElem_of_rest ahead with ⟨first, others⟩
    rw [ahead, List.length_cons] at length
    split at found <;> cases found <;> exact ⟨j, behind, first, ⟨by omega, others⟩, blanks⟩

/-- The next line starts with one of the tokens from the index on. -/
theorem AtIndex.nextLine {indent : Int} {line : Stream} (at_ : stream.AtIndex tokens i)
    (found : stream.nextLine? = some (token, indent, line)) :
    ∃ j, i ≤ j ∧ tokens[j]? = some token ∧ line.AtIndex tokens j ∧ BlankUpTo tokens i j := by
  rcases @AtIndex.dropBlanks tokens i true _ stream.lineIndent stream.lastEnd at_.inside
    at_.rest with ⟨j, behind, skipped, blanks⟩
  simp only [nextLine?, skip] at found
  split at found
  · cases found
  · rename_i first others ahead
    cases found
    exact ⟨j, behind, (skipped.getElem_of_rest ahead).1, skipped, blanks⟩

/-- When there is no next line, there are only blanks and line breaks from the index on. -/
theorem AtIndex.no_nextLine (at_ : stream.AtIndex tokens i) (ended : stream.nextLine? = none) :
    BlankUpTo tokens i tokens.length := by
  rcases @AtIndex.dropBlanks tokens i true _ stream.lineIndent stream.lastEnd at_.inside
    at_.rest with ⟨j, behind, skipped, blanks⟩
  have length := skipped.length
  have inside := skipped.inside
  simp only [nextLine?, skip] at ended
  split at ended
  · rename_i nothing
    rw [nothing, List.length_nil] at length
    have last : j = tokens.length := by omega
    rwa [last] at blanks
  · cases ended

end Stream

section Reading

/-- Every place will do. -/
abbrev Anywhere : Position → Prop := fun _ => True

theorem Node.isPlaced_anywhere (node : Node) : node.IsPlaced Anywhere :=
  fun _ _ _ _ => trivial

theorem Stream.isPlaced_anywhere (stream : Stream) : stream.IsPlaced Anywhere :=
  ⟨fun _ _ => ⟨trivial, fun _ => trivial⟩, trivial⟩

/-- A reader that goes on and settles comes to an end. -/
theorem Ends.of_reads {bound : Nat} {read : Nat → Except Fault (α × Stream)}
    {good : α → Stream → Prop} {something : α → Prop} (at_ : stream.AtIndex tokens i)
    (reads : ∀ depth, stream.Reads Anywhere (16 * stream.rest.length + bound ≤ depth) good
      (read depth))
    (settles : ∀ depth, Settles (read depth) (read (depth + 1)))
    (goesOn : ∀ value rest, good value rest → something value →
      rest.rest.length < stream.rest.length) :
    Ends tokens i (16 * (tokens.length - i) + bound) read something := by
  have answers : ∀ depth, 16 * (tokens.length - i) + bound ≤ depth →
      ∀ fault, read depth = .error fault → fault.kind ≠ .invalid := by
    intro depth enough fault fails
    have placed := reads depth
    rw [fails] at placed
    exact placed.sufficient (by rwa [at_.length])
  refine ⟨answers, fun depth enough => ?_, fun depth value rest found => ?_⟩
  · exact ((Settles.of_le settles enough).eq (answers _ (le_refl _))).symm
  · have placed := reads depth
    rw [found] at placed
    rcases at_.of_suffix placed.2.suffix with ⟨j, behind, atIndex, further⟩
    exact ⟨j, behind, atIndex, fun read => further (goesOn value rest placed.1 read)⟩

/-- What readers do with the tokens from an index on. -/
structure ReadersEnd (tokens : List Token) (i : Nat) (stream : Stream) : Prop where
  next : ∀ bracketed token after, stream.next? bracketed = some (token, after) →
    ∃ j, i ≤ j ∧ tokens[j]? = some token ∧ after.AtIndex tokens (j + 1) ∧ BlankUpTo tokens i j
  nextLine : ∀ token indent line, stream.nextLine? = some (token, indent, line) →
    ∃ j, i ≤ j ∧ tokens[j]? = some token ∧ line.AtIndex tokens j ∧ BlankUpTo tokens i j
  statement : ∀ place, Ends tokens i (16 * (tokens.length - i) + 6)
    (fun depth => readStatement depth place stream) (fun _ => True)
  expression : ∀ bracketed least, Ends tokens i (16 * (tokens.length - i) + 4)
    (fun depth => readExpression depth bracketed least stream) (fun found => found.isSome)
  lines : ∀ place start items, Ends tokens i (16 * (tokens.length - i) + 7)
    (fun depth => readLines depth place start items stream) (fun _ => False)
  body : ∀ place, Ends tokens i (16 * (tokens.length - i) + 1)
    (fun depth => readBody depth place stream) (fun _ => True)
  branch : ∀ place position condition, Ends tokens i (16 * (tokens.length - i) + 2)
    (fun depth => readBranch depth place position condition stream) (fun _ => False)
  function : ∀ place token, Ends tokens i (16 * (tokens.length - i) + 2)
    (fun depth => readFunction depth place token stream) (fun _ => False)
  operators : ∀ bracketed least left, Ends tokens i (16 * (tokens.length - i) + 1)
    (fun depth => readOperators depth bracketed least left stream) (fun _ => False)
  unary : ∀ bracketed, Ends tokens i (16 * (tokens.length - i) + 3)
    (fun depth => readUnary depth bracketed stream) (fun found => found.isSome)
  suffixes : ∀ bracketed node, Ends tokens i (16 * (tokens.length - i) + 1)
    (fun depth => readSuffixes depth bracketed node stream) (fun _ => False)
  arguments : Ends tokens i (16 * (tokens.length - i) + 6)
    (fun depth => readArguments depth stream) (fun _ => False)
  moreArguments : ∀ args, Ends tokens i (16 * (tokens.length - i) + 5)
    (fun depth => readMoreArguments depth args stream) (fun _ => False)
  items : ∀ items, Ends tokens i (16 * (tokens.length - i) + 5)
    (fun depth => readItems depth items stream) (fun _ => False)
  entries : ∀ entries, Ends tokens i (16 * (tokens.length - i) + 1)
    (fun depth => readEntries depth entries stream) (fun _ => False)

theorem shorter_of_finds {found : Option Node} (finds : stream.Finds Anywhere found rest)
    (some_ : found.isSome) : rest.rest.length < stream.rest.length := by
  rcases Option.isSome_iff_exists.1 some_ with ⟨node, rfl⟩
  exact (finds node rfl).2

theorem Stream.AtIndex.readersEnd (at_ : stream.AtIndex tokens i) :
    ReadersEnd tokens i stream where
  next _ _ _ found := at_.next found
  nextLine _ _ _ found := at_.nextLine found
  statement place := .of_reads at_
    (fun depth => (StatementProgress.of_depth trivial depth).statement stream.isPlaced_anywhere)
    (fun depth => (StatementSettles.of_depth depth).statement place stream)
    (fun _ _ good _ => good.2)
  expression bracketed least := .of_reads at_
    (fun depth => (ExpressionProgress.of_depth trivial depth).expression stream.isPlaced_anywhere)
    (fun depth => (ExpressionSettles.of_depth depth).expression bracketed least stream)
    (fun _ _ => shorter_of_finds)
  lines place start items := .of_reads at_
    (fun depth => (StatementProgress.of_depth trivial depth).lines trivial
      (fun item _ => item.isPlaced_anywhere) stream.isPlaced_anywhere)
    (fun depth => (StatementSettles.of_depth depth).lines place start items stream)
    (fun _ _ _ => False.elim)
  body place := .of_reads at_
    (fun depth => (StatementProgress.of_depth trivial depth).body stream.isPlaced_anywhere)
    (fun depth => (StatementSettles.of_depth depth).body place stream)
    (fun _ _ good _ => good.2)
  branch place position condition := .of_reads at_
    (fun depth => (StatementProgress.of_depth trivial depth).branch trivial
      condition.isPlaced_anywhere stream.isPlaced_anywhere)
    (fun depth => (StatementSettles.of_depth depth).branch place position condition stream)
    (fun _ _ _ => False.elim)
  function place token := .of_reads at_
    (fun depth => (StatementProgress.of_depth trivial depth).function
      ⟨trivial, fun _ => trivial⟩ stream.isPlaced_anywhere)
    (fun depth => (StatementSettles.of_depth depth).function place token stream)
    (fun _ _ _ => False.elim)
  operators bracketed least left := .of_reads at_
    (fun depth => (ExpressionProgress.of_depth trivial depth).operators left.isPlaced_anywhere
      stream.isPlaced_anywhere)
    (fun depth => (ExpressionSettles.of_depth depth).operators bracketed least left stream)
    (fun _ _ _ => False.elim)
  unary bracketed := .of_reads at_
    (fun depth => (ExpressionProgress.of_depth trivial depth).unary stream.isPlaced_anywhere)
    (fun depth => (ExpressionSettles.of_depth depth).unary bracketed stream)
    (fun _ _ => shorter_of_finds)
  suffixes bracketed node := .of_reads at_
    (fun depth => (ExpressionProgress.of_depth trivial depth).suffixes node.isPlaced_anywhere
      stream.isPlaced_anywhere)
    (fun depth => (ExpressionSettles.of_depth depth).suffixes bracketed node stream)
    (fun _ _ _ => False.elim)
  arguments := .of_reads at_
    (fun depth => (ExpressionProgress.of_depth trivial depth).arguments stream.isPlaced_anywhere)
    (fun depth => (ExpressionSettles.of_depth depth).arguments stream)
    (fun _ _ _ => False.elim)
  moreArguments args := .of_reads at_
    (fun depth => (ExpressionProgress.of_depth trivial depth).moreArguments
      (fun arg _ => arg.isPlaced_anywhere) stream.isPlaced_anywhere)
    (fun depth => (ExpressionSettles.of_depth depth).moreArguments args stream)
    (fun _ _ _ => False.elim)
  items items := .of_reads at_
    (fun depth => (ExpressionProgress.of_depth trivial depth).items
      (fun item _ => item.isPlaced_anywhere) stream.isPlaced_anywhere)
    (fun depth => (ExpressionSettles.of_depth depth).items items stream)
    (fun _ _ _ => False.elim)
  entries entries := .of_reads at_
    (fun depth => (ExpressionProgress.of_depth trivial depth).entries
      (fun entry _ => entry.2.isPlaced_anywhere) stream.isPlaced_anywhere)
    (fun depth => (ExpressionSettles.of_depth depth).entries entries stream)
    (fun _ _ _ => False.elim)

end Reading

/--
Any list of tokens is read to an end. It is a program or has a fault, whatever depth it is read
with beyond one that its length tells; a program leaves only blanks and line breaks behind. On
the way, no reader sees tokens but those of the list or goes back, and statements and
expressions take at least one token.
-/
theorem Program.ofTokens_total (tokens : List Token) :
    (∀ fault, Program.ofTokens tokens = .error fault → fault.kind ≠ .invalid) ∧
    (∀ depth, depthFor tokens ≤ depth → ∀ place start items,
      readLines depth place start items { rest := tokens } =
        readLines (depthFor tokens) place start items { rest := tokens }) ∧
    (∀ program, Program.ofTokens tokens = .ok program →
      ∃ rest j, readLines (depthFor tokens) { indent := 0 }
          (Stream.here false { rest := tokens }) [] { rest := tokens } =
          .ok ((program.position, program.items), rest) ∧
        rest.AtIndex tokens j ∧ BlankUpTo tokens j tokens.length) ∧
    ∀ stream i, stream.AtIndex tokens i → ReadersEnd tokens i stream := by
  have readers := (Stream.AtIndex.start tokens).readersEnd
  have enough : 16 * (tokens.length - 0) + 7 ≤ depthFor tokens := by
    simp only [depthFor]
    omega
  refine ⟨fun fault fails => ?_, fun depth more place start items => ?_,
    fun program read => ?_, fun stream i at_ => at_.readersEnd⟩
  · have yields : Yields (Program.IsPlaced Anywhere) (Fault.IsProper Anywhere True)
        (Program.ofTokens tokens) :=
      Program.ofTokens_yields trivial fun _ _ => ⟨trivial, fun _ => trivial⟩
    rw [fails] at yields
    exact yields.sufficient trivial
  · have lines := readers.lines place start items
    rw [lines.same depth (enough.trans more), lines.same _ enough]
  · unfold Program.ofTokens at read
    cases lines : readLines (depthFor tokens) { indent := 0 }
      (Stream.here false { rest := tokens }) [] { rest := tokens } with
    | error fault =>
        simp only [lines] at read
        cases read
    | ok block =>
        rcases block with ⟨⟨position, items⟩, rest⟩
        rcases (readers.lines _ _ _).goes _ _ _ lines with ⟨j, -, atIndex, -⟩
        simp only [lines, bind, Except.bind] at read
        split at read
        · rename_i ended
          cases read
          exact ⟨rest, j, rfl, atIndex, atIndex.no_nextLine ended⟩
        · split at read <;> cases read

/-- Tokens out of place, in no order and on lines that are none. -/
def strayTokens : List Token :=
  [⟨7, 3, 2, .operator .comma⟩, ⟨-1, 0, 9, .newline 0⟩, ⟨0, 5, 5, .keyword .elseWord⟩]

theorem Program.ofTokens_total_strayTokens :
    (∃ fault, Program.ofTokens strayTokens = .error fault ∧ fault.kind ≠ .invalid) ∧
    Stream.AtIndex strayTokens 2 { rest := strayTokens.drop 2 } ∧
    ∃ fault, readStatement (depthFor strayTokens) { indent := 0 } { rest := strayTokens.drop 2 } =
      .error fault ∧ fault.kind ≠ .invalid := by
  rcases Program.ofTokens_total strayTokens with ⟨answers, -, -, readers⟩
  have last : Stream.AtIndex strayTokens 2 { rest := strayTokens.drop 2 } := ⟨by decide, rfl⟩
  have fails : ∃ fault, Program.ofTokens strayTokens = .error fault := ⟨_, rfl⟩
  have refuses : ∃ fault, readStatement (depthFor strayTokens) { indent := 0 }
      { rest := strayTokens.drop 2 } = .error fault := ⟨_, rfl⟩
  rcases fails with ⟨fault, fails⟩
  rcases refuses with ⟨other, refuses⟩
  exact ⟨⟨fault, fails, answers fault fails⟩, last, other, refuses,
    ((readers _ 2 last).statement _).fault _ (by decide) other refuses⟩

end Lehce

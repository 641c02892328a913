import Lehce.Proofs.Program.ColonPlaces

/-!
# Where colons stand in programs

The readers of statements read a colon behind a condition, a list of parameters or a word that
takes a body. So in a program that is read every colon stands where colons are read
(`Program.colonsSettled_of_ofTokens`).
-/

namespace Lehce

open Token (ColonsSettled)

variable {tokens : List Token} {good : Option Token.Kind → Prop}
variable {depth : Nat} {place : Surrounding} {stream : Stream}

theorem yields_needExpression {missing : Stream → Fault} (stands : stream.Stands tokens anywhere) :
    Yields (fun read => read.2.Stands tokens behindHead) (fun _ => True)
      (needExpression depth missing stream) := by
  apply ((ExpressionColons.of_depth tokens depth).expression stands).andThen
  rintro ⟨_ | node, rest⟩ found
  · trivial
  · exact found.mono fun last ends => ends rfl

theorem yields_readParams {params : List String} (stands : stream.Stands tokens anywhere) :
    Yields (fun read => read.2.Stands tokens behindHead) (fun _ => True)
      (readParams depth params stream) := by
  induction depth generalizing params stream with
  | zero => trivial
  | succ depth ih =>
      rw [readParams]
      split
      · trivial
      · rename_i token after next
        split
        · rename_i name isSymbol
          have stood := stands.next next (by simp [isSymbol])
          split
          · trivial
          · split
            · rename_i closed accepted
              exact stood.close accepted rfl
            · split
              · rename_i more accepted
                exact ih (stood.mark accepted (by decide))
              · trivial
        · trivial

theorem yields_readParameters (stands : stream.Stands tokens anywhere) :
    Yields (fun read => read.2.Stands tokens behindHead) (fun _ => True)
      (readParameters depth stream) := by
  unfold readParameters
  split
  · rename_i closed accepted
    exact stands.close accepted rfl
  · exact yields_readParams stands

theorem yields_readReturn {token : Token} (stands : stream.Stands tokens anywhere) :
    Yields (fun read => read.2.Stands tokens anywhere) (fun _ => True)
      (readReturn depth place token stream) := by
  unfold readReturn
  simp only
  split
  · trivial
  · split
    · exact stands
    · apply ((ExpressionColons.of_depth tokens depth).expression stands).andThen
      rintro ⟨_ | value, rest⟩ found
      · exact found.somewhere
      · exact found.somewhere

theorem yields_readAssignment {target : Node} {op : Op} {token : Token}
    (stands : stream.Stands tokens anywhere) :
    Yields (fun read => read.2.Stands tokens anywhere) (fun _ => True)
      (readAssignment depth target op token stream) := by
  have assigned : Yields (fun read => read.2.Stands tokens anywhere) (fun _ => True)
      (needExpression depth (fun _ => missingRight token) stream >>= fun read =>
        pure (Node.assignment target.position target op read.1, read.2)) := by
    apply (yields_needExpression stands).andThen
    intro read ended
    exact ended.somewhere
  unfold readAssignment
  split
  · exact assigned
  · exact assigned
  · trivial

/-- What every reader of statements does to colons at one depth. -/
structure StatementColons (tokens : List Token) (depth : Nat) : Prop where
  lines : ∀ {place : Surrounding} {start : Position} {items : List Node} {stream : Stream},
    stream.Stands tokens anywhere →
    Yields (fun read => read.2.Stands tokens anywhere) (fun _ => True)
      (readLines depth place start items stream)
  body : ∀ {place : Surrounding} {stream : Stream}, stream.Stands tokens behindHead →
    Yields (fun read => read.2.Stands tokens anywhere) (fun _ => True)
      (readBody depth place stream)
  statement : ∀ {place : Surrounding} {stream : Stream}, stream.Stands tokens anywhere →
    Yields (fun read => read.2.Stands tokens anywhere) (fun _ => True)
      (readStatement depth place stream)
  branch : ∀ {place : Surrounding} {position : Position} {condition : Node} {stream : Stream},
    stream.Stands tokens behindHead →
    Yields (fun read => read.2.Stands tokens anywhere) (fun _ => True)
      (readBranch depth place position condition stream)
  function : ∀ {place : Surrounding} {token : Token} {stream : Stream},
    stream.Stands tokens anywhere →
    Yields (fun read => read.2.Stands tokens anywhere) (fun _ => True)
      (readFunction depth place token stream)

namespace StatementColons

theorem lines_succ (readers : StatementColons tokens depth) {start : Position}
    {items : List Node} (stands : stream.Stands tokens anywhere) :
    Yields (fun read => read.2.Stands tokens anywhere) (fun _ => True)
      (readLines (depth + 1) place start items stream) := by
  rw [readLines]
  split
  · exact stands
  · rename_i token indent line next
    split
    · exact stands
    · split
      · trivial
      · apply (readers.statement (stands.nextLine next)).andThen
        intro read ended
        simp only
        split
        · trivial
        · exact readers.lines ended

theorem body_succ (readers : StatementColons tokens depth)
    (stands : stream.Stands tokens behindHead) :
    Yields (fun read => read.2.Stands tokens anywhere) (fun _ => True)
      (readBody (depth + 1) place stream) := by
  rw [readBody]
  split
  · trivial
  · rename_i after accepted
    have behind := (stands.accept accepted fun _ last ends => ends).somewhere
    split
    · split
      · trivial
      · split
        · trivial
        · exact readers.lines behind
    · apply (readers.statement behind).andThen
      intro read ended
      exact ended

theorem branch_succ (readers : StatementColons tokens depth) {position : Position}
    {condition : Node} (stands : stream.Stands tokens behindHead) :
    Yields (fun read => read.2.Stands tokens anywhere) (fun _ => True)
      (readBranch (depth + 1) place position condition stream) := by
  rw [readBranch]
  apply (readers.body stands).andThen
  rintro ⟨⟨bodyPosition, body⟩, rest⟩ ended
  simp only
  split
  · exact ended
  · rename_i token indent line next
    split
    · exact ended
    · rename_i isElse
      simp only [not_or, Decidable.not_not, Bool.not_eq_false] at isElse
      split
      · exact ended
      · rename_i elseToken after nextElse
        have behind := (Stream.Stands.nextLine ended next).behindElse next isElse.2 nextElse
        split
        · apply (readers.body behind).andThen
          intro read last
          exact last
        · apply (yields_needExpression
            (behind.acceptKeyword false .ifWord rfl).somewhere).andThen
          rintro ⟨otherCondition, rest⟩ found
          apply (readers.branch
            (found.acceptKeyword false .ifWord rfl)).andThen
          intro read last
          exact last

theorem function_succ (readers : StatementColons tokens depth) {token : Token}
    (stands : stream.Stands tokens anywhere) :
    Yields (fun read => read.2.Stands tokens anywhere) (fun _ => True)
      (readFunction (depth + 1) place token stream) := by
  rw [readFunction]
  split
  · rename_i afterName next
    have stood := stands.next next (by simp)
    split
    · trivial
    · rename_i opened accepted
      apply (yields_readParameters (stood.mark accepted (by decide))).andThen
      rintro ⟨params, rest⟩ found
      apply (readers.body found).andThen
      intro read last
      exact last
  · trivial

theorem statement_succ (readers : StatementColons tokens depth)
    (stands : stream.Stands tokens anywhere) :
    Yields (fun read => read.2.Stands tokens anywhere) (fun _ => True)
      (readStatement (depth + 1) place stream) := by
  rw [readStatement]
  split
  · trivial
  · rename_i token after next
    have behind : ∀ {word : Keyword}, token.kind = .keyword word →
        after.Stands tokens fun last => last = some (.keyword word) := by
      intro word isWord
      rw [← isWord]
      exact stands.next next (by simp [isWord])
    simp only
    split
    · rename_i isWord
      exact readers.function (behind isWord).somewhere
    · rename_i isWord
      apply (yields_needExpression (behind isWord).somewhere).andThen
      intro read ended
      exact readers.branch ended
    · rename_i isWord
      split
      · apply (readers.body ((behind isWord).head (.inl rfl))).andThen
        intro read last
        exact last
      · apply (yields_needExpression (behind isWord).somewhere).andThen
        rintro ⟨condition, rest⟩ ended
        apply (readers.body ended).andThen
        intro read last
        exact last
    · rename_i isWord
      apply (readers.body ((behind isWord).head (.inl rfl))).andThen
      intro read last
      exact last
    · rename_i isWord
      split
      · exact (behind isWord).somewhere
      · trivial
    · rename_i isWord
      split
      · exact (behind isWord).somewhere
      · trivial
    · rename_i isWord
      exact yields_readReturn (behind isWord).somewhere
    · trivial
    · apply (yields_needExpression stands).andThen
      rintro ⟨node, rest⟩ ended
      simp only
      split
      · exact Stream.Stands.somewhere ended
      · rename_i following afterFollowing nextFollowing
        split
        · rename_i isWord
          have isKeyword := Token.kind_of_isKeyword isWord
          have stood := Stream.Stands.next ended nextFollowing (by simp [isKeyword])
          exact readers.branch (stood.head (.inl (by rw [isKeyword]; rfl)))
        · split
          · rename_i op known
            apply yields_readAssignment
            apply (Stream.Stands.next ended nextFollowing ?_).somewhere
            intro isColon
            rw [isColon] at known
            cases known
          · exact Stream.Stands.somewhere ended

/-- All readers of statements leave colons where they are read, whatever their depth. -/
theorem of_depth (tokens : List Token) (depth : Nat) : StatementColons tokens depth := by
  induction depth with
  | zero => constructor <;> intros <;> trivial
  | succ depth readers =>
      exact {
        lines := readers.lines_succ
        body := readers.body_succ
        statement := readers.statement_succ
        branch := readers.branch_succ
        function := readers.function_succ }

end StatementColons

/-- In a program that is read every colon stands where colons are read. -/
theorem Program.colonsSettled_of_ofTokens {tokens : List Token} {program : Program}
    (accepted : Program.ofTokens tokens = .ok program) : ColonsSettled tokens.reverse := by
  have stands : Stream.Stands tokens anywhere { rest := tokens } := ⟨[], rfl, trivial, trivial⟩
  have settled : Yields (fun _ => ColonsSettled tokens.reverse) (fun _ => True)
      (Program.ofTokens tokens) := by
    unfold Program.ofTokens
    apply ((StatementColons.of_depth tokens _).lines stands).andThen
    rintro ⟨⟨position, items⟩, rest⟩ ended
    simp only
    split
    · rename_i nothing
      -- the rest is blank, so its end is the end of all tokens
      rcases Stream.Stands.skip ended true with ⟨behind, split, settled, -⟩
      simp only [Stream.nextLine?] at nothing
      split at nothing
      · rename_i noRest
        change Stream.rest (Stream.skip true rest) = [] at noRest
        rw [split, noRest, List.append_nil, List.reverse_reverse]
        exact settled
      · cases nothing
    · split <;> trivial
  rwa [accepted] at settled

end Lehce

import Lehce.Proofs.Program.StatementProgress

/-!
# Where colons stand

A colon is read in two places only: in front of a body, and behind the key of an entry of a
dictionary. So whatever a reader has passed, every colon in it follows the end of a value, a
word that takes a body, or, between brackets, a line break (`Stream.Stands`).
-/

namespace Lehce

namespace Token

/-- The kind of the last token that is no blank. The last token comes first. -/
def lastKind? : List Token → Option Kind
  | [] => none
  | token :: earlier =>
    match token.kind with
    | .blank _ => lastKind? earlier
    | kind => some kind

/-- Whether a token of this kind ends what a body can follow. -/
def Kind.EndsHead (kind : Kind) : Prop :=
  kind.allowsColon = true ∨ kind = .operator .increment ∨ kind = .operator .decrement

/-- Whether a colon is read behind a token of this kind. -/
def Kind.PrecedesColon (kind : Kind) : Prop := kind.EndsHead ∨ ∃ width, kind = .newline width

/-- Whether every colon stands where colons are read. The last token comes first. -/
def ColonsSettled : List Token → Prop
  | [] => True
  | token :: earlier =>
    (token.kind = .operator .colon → ∃ kind ∈ lastKind? earlier, kind.PrecedesColon) ∧
      ColonsSettled earlier

theorem colonAllowed_eq_lastKind (tokens : List Token) :
    colonAllowed tokens = (lastKind? tokens).any Kind.allowsColon := by
  fun_induction colonAllowed tokens with
  | case1 => rfl
  | case2 _ _ _ _ earlier ih => simpa [lastKind?] using ih
  | case3 token earlier noBlank =>
      unfold lastKind?
      split
      · rename_i width isBlank
        rcases token with ⟨line, start, stop, kind⟩
        cases isBlank
        exact absurd rfl (noBlank line start stop width)
      · rfl

theorem lastKind_cons {token : Token} (earlier : List Token)
    (noBlank : ∀ width, token.kind ≠ .blank width) :
    lastKind? (token :: earlier) = some token.kind := by
  unfold lastKind?
  split
  · rename_i width isBlank
    exact absurd isBlank (noBlank width)
  · rfl

theorem lastKind_blank {token : Token} {width : Int} (earlier : List Token)
    (isBlank : token.kind = .blank width) : lastKind? (token :: earlier) = lastKind? earlier := by
  simp only [lastKind?, isBlank]

theorem kind_of_isOperator {token : Token} {op : Operator} (same : token.isOperator op = true) :
    token.kind = .operator op := by
  unfold isOperator at same
  split at same
  · rename_i mark isMark
    rw [isMark, eq_of_beq same]
  · cases same

theorem kind_of_isKeyword {token : Token} {keyword : Keyword}
    (same : token.isKeyword keyword = true) : token.kind = .keyword keyword := by
  unfold isKeyword at same
  split at same
  · rename_i word isWord
    rw [isWord, eq_of_beq same]
  · cases same

theorem ColonsSettled.cons {token : Token} {earlier : List Token} (settled : ColonsSettled earlier)
    (noColon : token.kind ≠ .operator .colon) : ColonsSettled (token :: earlier) :=
  ⟨fun isColon => absurd isColon noColon, settled⟩

/-- Every colon of a settled list stands behind something that a colon is read behind. -/
theorem ColonsSettled.precedes {colon : Token} {later earlier : List Token}
    (settled : ColonsSettled (later ++ colon :: earlier))
    (isColon : colon.kind = .operator .colon) :
    ∃ kind ∈ lastKind? earlier, kind.PrecedesColon := by
  induction later with
  | nil => exact settled.1 isColon
  | cons token later ih => exact ih settled.2

end Token

open Token (ColonsSettled lastKind?)

variable {α β : Type} {tokens : List Token} {good : Option Token.Kind → Prop}

theorem Yields.andThen {value : α → Prop} {wanted : β → Prop} {result : Except Fault α}
    {next : α → Except Fault β} (yields : Yields value (fun _ => True) result)
    (goesOn : ∀ read, value read → Yields wanted (fun _ => True) (next read)) :
    Yields wanted (fun _ => True) (result >>= next) := by
  cases result with
  | ok read => exact goesOn read yields
  | error fault => trivial

/-- Whether a stream stands in a list of tokens behind settled ones, the last of which that is
no blank is good. -/
def Stream.Stands (tokens : List Token) (good : Option Token.Kind → Prop) (stream : Stream) :
    Prop :=
  ∃ behind, tokens = behind.reverse ++ stream.rest ∧ ColonsSettled behind ∧ good (lastKind? behind)

/-- Any last token. -/
def anywhere (_ : Option Token.Kind) : Prop := True

/-- A last token that ends what a body can follow. -/
def behindHead (last : Option Token.Kind) : Prop := ∃ kind ∈ last, kind.EndsHead

/-- Whether what was found ends where a body can follow. -/
def Stream.StandsBehind (tokens : List Token) (found : Option α × Stream) : Prop :=
  found.2.Stands tokens fun last => found.1.isSome = true → behindHead last

namespace Stream

variable {bracketed : Bool} {stream after : Stream} {token : Token}

theorem Stands.mono {wanted : Option Token.Kind → Prop} (stands : stream.Stands tokens good)
    (weaker : ∀ last, good last → wanted last) : stream.Stands tokens wanted := by
  rcases stands with ⟨behind, split, settled, last⟩
  exact ⟨behind, split, settled, weaker _ last⟩

theorem Stands.somewhere (stands : stream.Stands tokens good) : stream.Stands tokens anywhere :=
  stands.mono fun _ _ => trivial

/-- Behind blanks, the last token is the same one, or else a line break between brackets. -/
theorem Stands.dropBlanks {bracketed : Bool} {ahead : List Token} {indent : Int}
    {lastEnd : Position} {behind : List Token} (split : tokens = behind.reverse ++ ahead)
    (settled : ColonsSettled behind) (last : good (lastKind? behind)) :
    (dropBlanks bracketed ahead indent lastEnd).Stands tokens fun last =>
      good last ∨ bracketed = true ∧ ∃ width, last = some (.newline width) := by
  suffices general : ∀ {good : Option Token.Kind → Prop}, good (lastKind? behind) →
      (∀ width, bracketed = true → good (some (.newline width))) →
      (Stream.dropBlanks bracketed ahead indent lastEnd).Stands tokens good from
    general (.inl last) fun width inside => .inr ⟨inside, width, rfl⟩
  clear last
  intro good last newlines
  fun_induction Stream.dropBlanks bracketed ahead indent lastEnd generalizing behind with
  | case1 => exact ⟨behind, split, settled, last⟩
  | case2 token rest indent lastEnd width isBlank ih =>
      have splitHere : tokens = (token :: behind).reverse ++ rest := by simpa using split
      apply ih splitHere (settled.cons (by simp [isBlank]))
      rwa [Token.lastKind_blank behind isBlank]
  | case3 token rest indent lastEnd width isNewline inside ih =>
      have splitHere : tokens = (token :: behind).reverse ++ rest := by simpa using split
      apply ih splitHere (settled.cons (by simp [isNewline]))
      rw [Token.lastKind_cons behind (by simp [isNewline]), isNewline]
      exact newlines width inside
  | case4 | case5 => exact ⟨behind, split, settled, last⟩

theorem Stands.skip (stands : stream.Stands tokens good) (bracketed : Bool) :
    (stream.skip bracketed).Stands tokens fun last =>
      good last ∨ bracketed = true ∧ ∃ width, last = some (.newline width) := by
  rcases stands with ⟨behind, split, settled, last⟩
  exact Stands.dropBlanks split settled last

/-- Behind the next token, that token is the last one. -/
theorem Stands.next (stands : stream.Stands tokens good)
    (found : stream.next? bracketed = some (token, after))
    (placed : token.kind = .operator .colon → ∀ last, good last → behindHead last) :
    after.Stands tokens fun last => last = some token.kind := by
  rcases stands.skip bracketed with ⟨behind, split, settled, last⟩
  have stepped : ∀ {others : List Token} {first : Token},
      (stream.skip bracketed).rest = first :: others → first = token →
      (⟨others, after.lineIndent, after.lastEnd⟩ : Stream).Stands tokens
        fun last => last = some token.kind := by
    rintro others first ahead rfl
    have noBlank : ∀ width, first.kind ≠ .blank width := by
      intro width isBlank
      rcases dropBlanks_first ahead with visible | ⟨-, other, isNewline⟩
      · rw [isBlank] at visible
        cases visible
      · rw [isBlank] at isNewline
        cases isNewline
    refine ⟨first :: behind, by simp [split, ahead], ⟨?_, settled⟩,
      Token.lastKind_cons behind noBlank⟩
    intro isColon
    rcases last with isGood | ⟨-, width, isNewline⟩
    · rcases placed isColon _ isGood with ⟨kind, isLast, ends⟩
      exact ⟨kind, isLast, .inl ends⟩
    · exact ⟨_, isNewline, .inr ⟨width, rfl⟩⟩
  simp only [next?] at found
  split at found
  · cases found
  · rename_i first others ahead
    split at found <;> cases found <;> exact stepped ahead rfl

theorem Stands.accept {op : Operator} (stands : stream.Stands tokens good)
    (found : stream.accept? bracketed op = some after)
    (placed : op = .colon → ∀ last, good last → behindHead last) :
    after.Stands tokens fun last => last = some (.operator op) := by
  rcases next_of_accept found with ⟨token, next, same⟩
  have isOperator := Token.kind_of_isOperator same
  have stood := stands.next next fun isColon => placed (by simpa [isOperator] using isColon)
  rwa [isOperator] at stood

theorem Stands.acceptKeyword (stands : stream.Stands tokens behindHead) (bracketed : Bool)
    (keyword : Keyword)
    (allowed : (Token.Kind.keyword keyword).allowsColon = true) :
    ((stream.acceptKeyword? bracketed keyword).getD stream).Stands tokens behindHead := by
  cases accepted : stream.acceptKeyword? bracketed keyword with
  | none => exact stands
  | some after =>
      rcases next_of_acceptKeyword accepted with ⟨token, next, same⟩
      have isKeyword := Token.kind_of_isKeyword same
      apply (stands.next next (by simp [isKeyword])).mono
      rintro _ rfl
      exact ⟨_, rfl, .inl (by rw [isKeyword]; exact allowed)⟩

theorem Stands.nextLine {indent : Int} {line : Stream} (stands : stream.Stands tokens good)
    (found : stream.nextLine? = some (token, indent, line)) : line.Stands tokens anywhere := by
  have skipped := (stands.skip true).somewhere
  simp only [nextLine?] at found
  split at found
  · cases found
  · cases found
    exact skipped

/-- Behind a keyword that starts a line. -/
theorem Stands.behindElse {first : Token} {indent : Int} {from_ line : Stream}
    (stands : line.Stands tokens good) (onLine : from_.nextLine? = some (first, indent, line))
    (isElse : first.isKeyword .elseWord = true) (found : line.next? false = some (token, after)) :
    after.Stands tokens behindHead := by
  have isKeyword := Token.kind_of_isKeyword isElse
  have same : token.kind = .keyword .elseWord := by
    simp only [nextLine?] at onLine
    generalize from_.skip true = skipped at onLine
    split at onLine
    · cases onLine
    · rename_i rest ahead
      cases onLine
      simp only [next?, Stream.skip, ahead, Stream.dropBlanks, isKeyword] at found
      cases found
      exact isKeyword
  apply (stands.next found (by simp [same])).mono
  rintro _ rfl
  exact ⟨_, rfl, .inl (by rw [same]; rfl)⟩

end Stream

/-- What every reader of expressions does to colons at one depth. -/
structure ExpressionColons (tokens : List Token) (depth : Nat) : Prop where
  expression : ∀ {bracketed : Bool} {least : Nat} {stream : Stream},
    stream.Stands tokens anywhere →
    Yields (Stream.StandsBehind tokens) (fun _ => True)
      (readExpression depth bracketed least stream)
  operators : ∀ {bracketed : Bool} {least : Nat} {left : Node} {stream : Stream},
    stream.Stands tokens behindHead →
    Yields (fun read => read.2.Stands tokens behindHead) (fun _ => True)
      (readOperators depth bracketed least left stream)
  unary : ∀ {bracketed : Bool} {stream : Stream}, stream.Stands tokens anywhere →
    Yields (Stream.StandsBehind tokens) (fun _ => True) (readUnary depth bracketed stream)
  suffixes : ∀ {bracketed : Bool} {node : Node} {stream : Stream},
    stream.Stands tokens behindHead →
    Yields (fun read => read.2.Stands tokens behindHead) (fun _ => True)
      (readSuffixes depth bracketed node stream)
  arguments : ∀ {stream : Stream}, stream.Stands tokens anywhere →
    Yields (fun read => read.2.Stands tokens behindHead) (fun _ => True)
      (readArguments depth stream)
  moreArguments : ∀ {args : List Node} {stream : Stream}, stream.Stands tokens anywhere →
    Yields (fun read => read.2.Stands tokens behindHead) (fun _ => True)
      (readMoreArguments depth args stream)
  primary : ∀ {bracketed : Bool} {token : Token} {after : Stream},
    after.Stands tokens (fun last => last = some token.kind) →
    Yields (fun found => ∀ read ∈ found, read.2.Stands tokens behindHead) (fun _ => True)
      (readPrimary depth bracketed token after)
  items : ∀ {items : List Node} {stream : Stream}, stream.Stands tokens anywhere →
    Yields (fun read => read.2.Stands tokens behindHead) (fun _ => True)
      (readItems depth items stream)
  entries : ∀ {entries : List (String × Node)} {stream : Stream},
    stream.Stands tokens anywhere →
    Yields (fun read => read.2.Stands tokens behindHead) (fun _ => True)
      (readEntries depth entries stream)

/-- Behind a token that ends what a body can follow. -/
theorem Stream.Stands.head {stream : Stream} {kind : Token.Kind}
    (stands : stream.Stands tokens fun last => last = some kind) (ends : kind.EndsHead) :
    stream.Stands tokens behindHead := by
  apply stands.mono
  rintro _ rfl
  exact ⟨kind, rfl, ends⟩

/-- Behind a mark that closes something. -/
theorem Stream.Stands.close {bracketed : Bool} {stream closed : Stream} {op : Operator}
    (stands : stream.Stands tokens good) (accepted : stream.accept? bracketed op = some closed)
    (closes : (Token.Kind.operator op).allowsColon = true) :
    closed.Stands tokens behindHead := by
  refine (stands.accept accepted ?_).head (.inl closes)
  rintro rfl
  cases closes

/-- Behind a mark that is no colon. -/
theorem Stream.Stands.mark {bracketed : Bool} {stream after : Stream} {op : Operator}
    (stands : stream.Stands tokens good) (accepted : stream.accept? bracketed op = some after)
    (noColon : op ≠ .colon) : after.Stands tokens anywhere :=
  (stands.accept accepted fun isColon => absurd isColon noColon).somewhere

namespace ExpressionColons

variable {depth : Nat} {bracketed : Bool} {least : Nat} {stream : Stream}

theorem expression_succ (readers : ExpressionColons tokens depth)
    (stands : stream.Stands tokens anywhere) :
    Yields (Stream.StandsBehind tokens) (fun _ => True)
      (readExpression (depth + 1) bracketed least stream) := by
  rw [readExpression]
  apply (readers.unary stands).andThen
  rintro ⟨_ | left, rest⟩ found
  · exact found
  · apply (readers.operators (found.mono fun last ends => ends rfl)).andThen
    intro read ended
    exact ended.mono fun last ends _ => ends

theorem operators_succ (readers : ExpressionColons tokens depth) {left : Node}
    (stands : stream.Stands tokens behindHead) :
    Yields (fun read => read.2.Stands tokens behindHead) (fun _ => True)
      (readOperators (depth + 1) bracketed least left stream) := by
  rw [readOperators]
  split
  · exact stands
  · rename_i token after next
    split
    · exact stands
    · rename_i operator known
      split
      · exact stands
      · have stood := stands.next next fun isColon => by rw [isColon] at known; cases known
        apply (readers.expression stood.somewhere).andThen
        rintro ⟨_ | right, rest⟩ found
        · trivial
        · exact readers.operators (found.mono fun last ends => ends rfl)

theorem unary_succ (readers : ExpressionColons tokens depth)
    (stands : stream.Stands tokens anywhere) :
    Yields (Stream.StandsBehind tokens) (fun _ => True)
      (readUnary (depth + 1) bracketed stream) := by
  have nothing : Stream.StandsBehind tokens ((none : Option Node), stream) :=
    stands.mono fun _ _ absurd_ => by cases absurd_
  rw [readUnary]
  split
  · exact nothing
  · rename_i token after next
    by_cases isColon : token.kind = .operator .colon
    · -- no operand starts with a colon
      have refused : readPrimary depth bracketed token after = .ok none ∨
          readPrimary depth bracketed token after = .error outOfDepth := by
        cases depth with
        | zero => exact .inr rfl
        | succ depth => left; rw [readPrimary]; simp only [isColon]
      simp only [isColon, Token.Kind.unary?]
      rcases refused with refused | refused <;> rw [refused]
      · exact nothing
      · trivial
    · have stood := stands.next next fun same => absurd same isColon
      split
      · apply (readers.primary stood).andThen
        rintro (_ | ⟨node, rest⟩) found
        · exact nothing
        · apply (readers.suffixes (found _ rfl)).andThen
          intro read ended
          exact ended.mono fun last ends _ => ends
      · apply (readers.unary stood.somewhere).andThen
        rintro ⟨_ | operand, rest⟩ found
        · trivial
        · simp only
          cases applyUnary token _ operand with
          | ok node => exact found
          | error fault => trivial

theorem suffixes_succ (readers : ExpressionColons tokens depth) {node : Node}
    (stands : stream.Stands tokens behindHead) :
    Yields (fun read => read.2.Stands tokens behindHead) (fun _ => True)
      (readSuffixes (depth + 1) bracketed node stream) := by
  rw [readSuffixes]
  split
  · exact stands
  · rename_i token after next
    split
    · rename_i isOpening
      have stood := stands.next next (by simp [isOpening])
      have called : ∀ callee : Node,
          Yields (fun read => read.2.Stands tokens behindHead) (fun _ => True)
            (readArguments depth after >>= fun read =>
              readSuffixes depth bracketed (.call callee.position callee read.1 true) read.2) := by
        intro callee
        apply (readers.arguments stood.somewhere).andThen
        intro read ended
        exact readers.suffixes ended
      split
      · exact called _
      · exact called _
      · trivial
    · rename_i isOpening
      have stood := stands.next next (by simp [isOpening])
      apply (readers.expression stood.somewhere).andThen
      rintro ⟨_ | key, rest⟩ found
      · trivial
      · simp only
        split
        · trivial
        · rename_i closed accepted
          exact readers.suffixes (found.close accepted rfl)
    · rename_i isStep
      have stood := stands.next next (by simp [isStep])
      split
      · exact readers.suffixes (stood.head (.inr (.inl isStep)))
      · trivial
    · rename_i isStep
      have stood := stands.next next (by simp [isStep])
      split
      · exact readers.suffixes (stood.head (.inr (.inr isStep)))
      · trivial
    · exact stands

theorem arguments_succ (readers : ExpressionColons tokens depth)
    (stands : stream.Stands tokens anywhere) :
    Yields (fun read => read.2.Stands tokens behindHead) (fun _ => True)
      (readArguments (depth + 1) stream) := by
  rw [readArguments]
  split
  · rename_i rest accepted
    exact stands.close accepted rfl
  · exact readers.moreArguments stands

theorem moreArguments_succ (readers : ExpressionColons tokens depth) {args : List Node}
    (stands : stream.Stands tokens anywhere) :
    Yields (fun read => read.2.Stands tokens behindHead) (fun _ => True)
      (readMoreArguments (depth + 1) args stream) := by
  rw [readMoreArguments]
  split
  · trivial
  · apply (readers.expression stands).andThen
    rintro ⟨_ | arg, rest⟩ found
    · simp only
      split <;> trivial
    · simp only
      split
      · rename_i closed accepted
        exact found.close accepted rfl
      · split
        · rename_i more accepted
          exact readers.moreArguments (found.mark accepted (by decide))
        · trivial

theorem items_succ (readers : ExpressionColons tokens depth) {items : List Node}
    (stands : stream.Stands tokens anywhere) :
    Yields (fun read => read.2.Stands tokens behindHead) (fun _ => True)
      (readItems (depth + 1) items stream) := by
  rw [readItems]
  apply (readers.expression stands).andThen
  rintro ⟨_ | item, rest⟩ found
  · simp only
    split <;> trivial
  · simp only
    split
    · rename_i closed accepted
      exact found.close accepted rfl
    · split
      · rename_i more accepted
        exact readers.items (found.mark accepted (by decide))
      · trivial

theorem entries_succ (readers : ExpressionColons tokens depth) {entries : List (String × Node)}
    (stands : stream.Stands tokens anywhere) :
    Yields (fun read => read.2.Stands tokens behindHead) (fun _ => True)
      (readEntries (depth + 1) entries stream) := by
  rw [readEntries]
  split
  · trivial
  · rename_i token after next
    split
    · rename_i key isKey
      have stood := (stands.next next (by simp [isKey])).head (.inl (by rw [isKey]; rfl))
      split
      · trivial
      · rename_i afterColon colon
        have behind := stood.accept colon fun _ last ends => ends
        apply (readers.expression behind.somewhere).andThen
        rintro ⟨_ | value, rest⟩ found
        · trivial
        · simp only
          split
          · rename_i closed accepted
            exact found.close accepted rfl
          · split
            · rename_i more accepted
              exact readers.entries (found.mark accepted (by decide))
            · trivial
    · trivial

theorem yields_dottedParts {parts : List String} (stands : stream.Stands tokens behindHead) :
    Yields (fun read => read.2.Stands tokens behindHead) (fun _ => True)
      (dottedParts bracketed depth parts stream) := by
  induction depth generalizing parts stream with
  | zero => trivial
  | succ depth ih =>
      rw [dottedParts]
      split
      · exact stands
      · rename_i after accepted
        split
        · rename_i part rest next
          exact ih (((stands.mark accepted (by decide)).next next (by simp)).head (.inl rfl))
        · trivial

theorem yields_symbolOrPath {position : Position} {name : String}
    (stands : stream.Stands tokens behindHead) :
    Yields (fun read => read.2.Stands tokens behindHead) (fun _ => True)
      (symbolOrPath bracketed depth position name stream) := by
  unfold symbolOrPath
  split
  · apply (yields_dottedParts stands).andThen
    intro read ended
    exact ended
  · exact stands

theorem primary_succ (readers : ExpressionColons tokens depth) {token : Token} {after : Stream}
    (stands : after.Stands tokens fun last => last = some token.kind) :
    Yields (fun found => ∀ read ∈ found, read.2.Stands tokens behindHead) (fun _ => True)
      (readPrimary (depth + 1) bracketed token after) := by
  have one : ∀ {node : Node} {rest : Stream}, rest.Stands tokens behindHead →
      ∀ read ∈ some (node, rest), read.2.Stands tokens behindHead := by
    rintro node rest ended _ ⟨⟩
    exact ended
  have literal : ∀ {node : Node}, token.kind.allowsColon = true →
      ∀ read ∈ some (node, after), read.2.Stands tokens behindHead :=
    fun ends => one (stands.head (.inl ends))
  rw [readPrimary]
  split
  · rename_i isKind
    exact literal (by rw [isKind]; rfl)
  · rename_i isKind
    exact literal (by rw [isKind]; rfl)
  · rename_i isKind
    exact literal (by rw [isKind]; rfl)
  · rename_i isKind
    exact literal (by rw [isKind]; rfl)
  · rename_i isKind
    apply (yields_symbolOrPath (stands.head (.inl (by rw [isKind]; rfl)))).andThen
    intro read ended
    exact one ended
  · rename_i isKind
    exact literal (by rw [isKind]; rfl)
  · rename_i isKind
    exact literal (by rw [isKind]; rfl)
  · rename_i isKind
    exact literal (by rw [isKind]; rfl)
  · apply (readers.expression stands.somewhere).andThen
    rintro ⟨_ | node, rest⟩ found
    · trivial
    · simp only
      split
      · trivial
      · rename_i closed accepted
        exact one (found.close accepted rfl)
  · split
    · rename_i rest accepted
      exact one (stands.close accepted rfl)
    · apply (readers.items stands.somewhere).andThen
      intro read ended
      exact one ended
  · split
    · rename_i rest accepted
      exact one (stands.close accepted rfl)
    · apply (readers.entries stands.somewhere).andThen
      intro read ended
      exact one ended
  · rintro read ⟨⟩

/-- All readers of expressions leave colons where they are read, whatever their depth. -/
theorem of_depth (tokens : List Token) (depth : Nat) : ExpressionColons tokens depth := by
  induction depth with
  | zero => constructor <;> intros <;> trivial
  | succ depth readers =>
      exact {
        expression := readers.expression_succ
        operators := readers.operators_succ
        unary := readers.unary_succ
        suffixes := readers.suffixes_succ
        arguments := readers.arguments_succ
        moreArguments := readers.moreArguments_succ
        primary := readers.primary_succ
        items := readers.items_succ
        entries := readers.entries_succ }

end ExpressionColons

end Lehce

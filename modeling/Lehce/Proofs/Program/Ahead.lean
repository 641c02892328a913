import Lehce.Program.Expression
import Lehce.Proofs.Token.Line

/-!
# What a stream holds

`Stream.Holds` says that tokens of some kinds come next on the line of a stream,
blanks between them, and what comes after these. A reader sees such a stream only
through the kind of its next token.
-/

namespace Lehce

open Token (Kind Lists)

/-- Whether tokens are over, or go on with another line. -/
def LineEnds (tail : List Token) : Prop :=
  ∀ token ∈ tail.head?, ∃ width, token.kind = .newline width

/-- Whether the tokens of some kinds come next in a stream, on a line of an indentation. -/
structure Stream.Holds (stream : Stream) (kinds : List Kind) (tail : List Token) (indent : Int) :
    Prop where
  listed : Lists kinds stream.rest tail
  indented : stream.lineIndent = indent

theorem Token.isOperator_eq_false {token : Token} {mark : Operator}
    (other : token.kind ≠ .operator mark) : token.isOperator mark = false := by
  unfold isOperator
  split <;> simp_all

namespace Stream

variable {stream : Stream} {kind : Kind} {kinds : List Kind} {tail : List Token} {indent : Int}

theorem dropBlanks_listed {tokens : List Token} (listed : Lists (kind :: kinds) tokens tail)
    (bracketed : Bool) (indent : Int) (lastEnd : Position) :
    ∃ token rest, dropBlanks bracketed tokens indent lastEnd = ⟨token :: rest, indent, lastEnd⟩ ∧
      token.kind = kind ∧ kind.isVisible = true ∧ Lists kinds rest tail := by
  generalize ahead : kind :: kinds = all at listed
  induction listed with
  | nil => cases ahead
  | @blank _ token tokens rest width blank inside _ ih =>
      rcases ih ahead with ⟨next, rest, dropped, same, visible, listed⟩
      refine ⟨next, rest, ?_, same, visible, listed⟩
      simp [dropBlanks, blank, inside, dropped]
  | @cons _ token tokens rest visible listed _ =>
      cases ahead
      refine ⟨token, tokens, ?_, rfl, visible, listed⟩
      rw [dropBlanks]
      split <;> simp_all [Token.Kind.isVisible]

theorem dropBlanks_ended {tokens : List Token} (listed : Lists [] tokens tail)
    (ends : LineEnds tail) (indent : Int) (lastEnd : Position) :
    dropBlanks false tokens indent lastEnd = ⟨tail, indent, lastEnd⟩ := by
  generalize none : ([] : List Kind) = all at listed
  induction listed with
  | nil rest =>
      cases rest with
      | nil => rfl
      | cons token rest =>
          rcases ends token rfl with ⟨width, isNewline⟩
          simp [dropBlanks, isNewline]
  | blank blank inside _ ih => simp [dropBlanks, blank, inside, ih ends none]
  | cons => cases none

/-- The next token of a stream is the first one it holds, and the others come after it. -/
theorem Holds.next (holds : stream.Holds (kind :: kinds) tail indent) (bracketed : Bool) :
    ∃ token after, stream.next? bracketed = some (token, after) ∧ token.kind = kind ∧
      after.Holds kinds tail indent := by
  rcases dropBlanks_listed holds.listed bracketed stream.lineIndent stream.lastEnd with
    ⟨token, rest, dropped, same, visible, listed⟩
  refine ⟨token, ⟨rest, stream.lineIndent, ⟨token.line, token.stop⟩⟩, ?_, same, listed,
    holds.indented⟩
  subst same
  simp only [next?, skip, dropped]
  split
  · rename_i isNewline
    rw [isNewline] at visible
    cases visible
  · rfl

/-- A mark is accepted when it comes next. -/
theorem Holds.accept {mark : Operator} (holds : stream.Holds (.operator mark :: kinds) tail indent)
    (bracketed : Bool) :
    ∃ after, stream.accept? bracketed mark = some after ∧ after.Holds kinds tail indent := by
  rcases holds.next bracketed with ⟨token, after, next, same, rest⟩
  refine ⟨after, ?_, rest⟩
  simp [accept?, next, Token.isOperator, same]

/-- A mark is not accepted when something else comes next. -/
theorem Holds.accept_none {mark : Operator} (holds : stream.Holds (kind :: kinds) tail indent)
    (bracketed : Bool) (other : kind ≠ .operator mark) :
    stream.accept? bracketed mark = none := by
  rcases holds.next bracketed with ⟨token, after, next, same, rest⟩
  simp [accept?, next, Token.isOperator_eq_false (fun isMark => other (same ▸ isMark))]

/-- Whether the next token, as far as there is one on the line, satisfies a test. -/
def NextIs (bracketed : Bool) (test : Kind → Bool) (kinds : List Kind) (tail : List Token) : Prop :=
  match kinds with
  | kind :: _ => test kind = true
  | [] => bracketed = false ∧ LineEnds tail

theorem NextIs.mono {bracketed : Bool} {test weaker : Kind → Bool}
    (next : NextIs bracketed test kinds tail)
    (weakens : ∀ kind, test kind = true → weaker kind = true) :
    NextIs bracketed weaker kinds tail := by
  cases kinds with
  | nil => exact next
  | cons kind kinds => exact weakens kind next

/-- A stream goes on as it is told, or its line ends. -/
theorem Holds.nextIs {bracketed : Bool} {test : Kind → Bool}
    (holds : stream.Holds kinds tail indent) (next : NextIs bracketed test kinds tail) :
    ∀ token after, stream.next? bracketed = some (token, after) →
      test token.kind = true ∨ ∃ width, token.kind = .newline width := by
  intro token after found
  cases kinds with
  | cons kind kinds =>
      rcases holds.next bracketed with ⟨first, rest, ahead, same, -⟩
      cases ahead.symm.trans found
      exact .inl (same ▸ next)
  | nil =>
      rcases next with ⟨rfl, ends⟩
      simp only [next?, skip, dropBlanks_ended holds.listed ends] at found
      cases tail with
      | nil => cases found
      | cons first rest =>
          rcases ends first rfl with ⟨width, isNewline⟩
          simp only [isNewline] at found
          cases found
          exact .inr ⟨width, isNewline⟩

/-- A mark that does not pass a test is not accepted where all that comes next does. -/
theorem Holds.accept_none_of_nextIs {bracketed : Bool} {test : Kind → Bool} {mark : Operator}
    (holds : stream.Holds kinds tail indent) (next : NextIs bracketed test kinds tail)
    (fails : test (.operator mark) = false) : stream.accept? bracketed mark = none := by
  unfold accept?
  split
  · rename_i token after found
    have noMark : token.kind ≠ .operator mark := by
      intro isMark
      rcases holds.nextIs next token after found with passes | ⟨width, isNewline⟩
      · rw [isMark, fails] at passes
        cases passes
      · cases isMark.symm.trans isNewline
    simp [Token.isOperator_eq_false noMark]
  · rfl

/-- A stream that holds something starts its line with it. -/
theorem Holds.nextLine (holds : stream.Holds (kind :: kinds) tail indent) :
    ∃ token line, stream.nextLine? = some (token, indent, line) ∧ token.kind = kind ∧
      line.Holds (kind :: kinds) tail indent := by
  rcases dropBlanks_listed holds.listed true stream.lineIndent stream.lastEnd with
    ⟨token, rest, dropped, same, visible, listed⟩
  subst same
  refine ⟨token, ⟨token :: rest, stream.lineIndent, stream.lastEnd⟩, ?_, rfl, .cons visible listed,
    holds.indented⟩
  simp only [nextLine?, skip, dropped]
  rw [holds.indented]

/-- A stream that holds nothing more on its line is at its end. -/
theorem Holds.atLineEnd (holds : stream.Holds [] tail indent) (ends : LineEnds tail) :
    stream.atLineEnd = true := by
  simp only [Stream.atLineEnd, skip, dropBlanks_ended holds.listed ends]
  cases tail with
  | nil => rfl
  | cons token rest =>
      rcases ends token rfl with ⟨width, isNewline⟩
      simp [isNewline]

theorem dropBlanks_over {tokens : List Token} (listed : Lists [] tokens []) (bracketed : Bool)
    (indent : Int) (lastEnd : Position) :
    dropBlanks bracketed tokens indent lastEnd = ⟨[], indent, lastEnd⟩ := by
  generalize none : ([] : List Kind) = all at listed
  generalize ended : ([] : List Token) = tail at listed ⊢
  induction listed with
  | nil => cases ended; rfl
  | blank blank inside _ ih => simp [dropBlanks, blank, inside, ih none ended]
  | cons => cases none

/-- A stream that holds nothing and ends has no other line. -/
theorem Holds.nextLine_none (holds : stream.Holds [] [] indent) : stream.nextLine? = none := by
  simp [nextLine?, skip, dropBlanks_over holds.listed]

end Stream

end Lehce

import Lehce.Proofs.Program.Ahead
import Lehce.Proofs.Token.Layout

/-!
# Lines ahead

What a reader of programs meets when a line ends: only the lines with tokens on them,
each with its indentation (`Stream.Pauses.awaits`). Blank lines and lines with a
comment are passed over, however far they are indented.
-/

namespace Lehce

open Token (Kind Line Lists ListsLines IsGap)

/-- Whether there are tokens on a line. -/
def Token.Line.isFilled (line : Line) : Bool := !line.kinds.isEmpty

/-- Whether some lines, and lines without tokens around them, are all that comes. -/
def Remain (lines : List Line) (tail : List Token) : Prop :=
  ∃ all, ListsLines all tail ∧ all.filter (·.isFilled) = lines

theorem Remain.lineEnds {lines : List Line} {tail : List Token} (remain : Remain lines tail) :
    LineEnds tail := by
  rcases remain with ⟨all, listed, -⟩
  cases listed with
  | nil => simp [LineEnds]
  | cons isBreak =>
      rintro token ⟨⟩
      exact ⟨_, isBreak⟩

namespace Stream

variable {stream : Stream} {line : Line} {lines : List Line} {tail : List Token} {indent : Int}

/-- Whether a stream is at the end of a line, and some lines remain. -/
def Pauses (stream : Stream) (lines : List Line) : Prop :=
  ∃ indent tail, stream.Holds [] tail indent ∧ Remain lines tail

/-- Whether a stream is at the start of the first of some lines, and the others remain. -/
def Starts (stream : Stream) (lines : List Line) : Prop :=
  ∃ line others tail, lines = line :: others ∧ stream.Holds line.kinds tail line.indent ∧
    Remain others tail

/-- Whether some lines are the next ones of a stream. -/
def Awaits (stream : Stream) (lines : List Line) : Prop :=
  match lines with
  | [] => stream.nextLine? = none
  | line :: _ => ∃ token after, stream.nextLine? = some (token, line.indent, after) ∧
      line.kinds.head? = some token.kind ∧ after.Starts lines

theorem Pauses.atLineEnd (pauses : stream.Pauses lines) : stream.atLineEnd = true := by
  rcases pauses with ⟨indent, tail, holds, remain⟩
  exact holds.atLineEnd remain.lineEnds

theorem dropBlanks_nil {tokens : List Token} (listed : Lists [] tokens tail) (bracketed : Bool)
    (indent : Int) (lastEnd : Position) :
    dropBlanks bracketed tokens indent lastEnd = dropBlanks bracketed tail indent lastEnd := by
  generalize none : ([] : List Kind) = all at listed
  induction listed with
  | nil => rfl
  | blank blank inside _ ih => simp [dropBlanks, blank, inside, ih none]
  | cons => cases none

/-- The first line that has tokens is the next one. -/
theorem awaits_of_skip {tokens rest : List Token} (listed : Lists line.kinds tokens rest)
    (remain : Remain lines rest) (filled : line.kinds ≠ []) (lastEnd : Position)
    (skipped : stream.skip true = dropBlanks true tokens line.indent lastEnd) :
    stream.Awaits (line :: lines) := by
  rcases line with ⟨indent, _ | ⟨kind, kinds⟩⟩
  · exact absurd rfl filled
  · rcases dropBlanks_listed listed true indent lastEnd with
      ⟨token, after, dropped, rfl, visible, others⟩
    refine ⟨token, ⟨token :: after, indent, lastEnd⟩, ?_, rfl, _, _, rest, rfl, ⟨?_, rfl⟩, remain⟩
    · simp [nextLine?, skipped, dropped]
    · exact .cons visible others

/-- Of the lines that come only those with tokens count. -/
theorem awaits_of_remain (remain : Remain lines tail) (indent : Int) (lastEnd : Position)
    (skipped : stream.skip true = dropBlanks true tail indent lastEnd) :
    stream.Awaits lines := by
  rcases remain with ⟨all, listed, rfl⟩
  induction listed generalizing indent with
  | nil => simp [Awaits, nextLine?, skipped, dropBlanks]
  | @cons line others token tokens rest isBreak listed listsOthers ih =>
      have broken : stream.skip true = dropBlanks true tokens line.indent lastEnd := by
        simp [skipped, dropBlanks, isBreak]
      rcases line with ⟨width, _ | ⟨kind, kinds⟩⟩
      · rw [dropBlanks_nil listed] at broken
        exact ih width broken
      · exact awaits_of_skip listed ⟨others, listsOthers, rfl⟩ (by simp) lastEnd broken

/-- A stream at the end of a line comes to the next line that has tokens. -/
theorem Pauses.awaits (pauses : stream.Pauses lines) : stream.Awaits lines := by
  rcases pauses with ⟨indent, tail, holds, remain⟩
  exact awaits_of_remain remain _ _ (dropBlanks_nil holds.listed _ _ _)

/-- The stream of a text starts with the first line that has tokens. -/
theorem awaits_text {gap tokens rest : List Token} (isGap : IsGap line.indent gap)
    (listed : Lists line.kinds tokens rest) (others : ListsLines lines rest) :
    Stream.Awaits { rest := gap ++ tokens } ((line :: lines).filter (·.isFilled)) := by
  have skipped : Stream.skip true { rest := gap ++ tokens } =
      dropBlanks true tokens line.indent ⟨0, 0⟩ := by
    generalize line.indent = indent at isGap
    cases isGap with
    | nil => rfl
    | blank isBlank starts => simp [skip, dropBlanks, isBlank, starts]
  have remain : Remain (lines.filter (·.isFilled)) rest := ⟨lines, others, rfl⟩
  rcases line with ⟨indent, _ | ⟨kind, kinds⟩⟩
  · rw [dropBlanks_nil listed] at skipped
    exact awaits_of_remain remain _ _ skipped
  · exact awaits_of_skip listed remain (by simp) _ skipped

end Stream

end Lehce

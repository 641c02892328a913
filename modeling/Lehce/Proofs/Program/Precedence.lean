import Lehce.Proofs.Program.SimpleStatements
import Lehce.Proofs.Program.Writable

/-!
# Precedence and associativity

Every tree of an expression can be written, and every way to write it is read back:
the program whose only line assigns the written expression to a variable assigns the
tree, up to positions (`Program.ofSource_written`). Parentheses must stand where the
levels of the operators demand them and may stand everywhere else.
-/

namespace Lehce

open Token (Kind Lists)

section Scanning

variable {kind : Kind} {kinds : List Kind} {lexemes : List String}

/-- A source of one line of lexemes is scanned to the tokens that they spell. -/
theorem Token.scan_line (spelled : Spells (kind :: kinds) lexemes)
    (chained : Kind.Chained (kind :: kinds)) :
    ∃ tokens, scan (" ".intercalate lexemes) = .ok tokens ∧ Lists (kind :: kinds) tokens [] := by
  have lines : List.Forall₂ Kind.IsSpelled (kind :: kinds) (lexemes.map String.toList) :=
    List.forall₂_map_right_iff.2 spelled
  have ended : Delimited [] := by simp [Delimited]
  have ahead : (Cursor.start (" ".intercalate lexemes)).rest =
      [' '].intercalate (lexemes.map String.toList) ++ [] := by
    simp [Cursor.start, String.toList_intercalate]
  rcases @scansTo_spaced _ _ _ _ [] _ lines chained (fun _ _ => rfl) ended ahead with
    ⟨tokens, next, scans, exhausted, -, listed⟩
  refine ⟨tokens, ?_, by simpa using listed []⟩
  simpa using scans.scan_eq exhausted

end Scanning

/-- A program of one written assignment is read back. -/
theorem Program.ofTokens_assignment {name : String} {value : Node} {kinds : List Kind}
    {tokens : List Token} (written : value.IsWritten 0 kinds)
    (listed : Lists (.symbol name :: .operator .assign :: kinds) tokens []) :
    ∃ program, Program.ofTokens tokens = .ok program ∧
      program.items.map Node.bare =
        [.assignment .origin (.symbol .origin name) .assign value.bare] := by
  have enough := listed.length_le
  have ends : LineEnds [] := by simp [LineEnds]
  have holds : Stream.Holds { rest := tokens } (.symbol name :: .operator .assign :: kinds) [] 0 :=
    ⟨listed, rfl⟩
  rcases holds.nextLine with ⟨token, line, found, -, ahead⟩
  obtain ⟨depth, deep⟩ : ∃ depth, depthFor tokens = depth + 2 := ⟨depthFor tokens - 2, by
    simp only [depthFor]
    omega⟩
  have shallow : 8 * ([Kind.symbol name] ++ .operator .assign :: kinds).length ≤ depth := by
    simp only [List.length_append, List.length_cons, List.length_nil, depthFor] at enough deep ⊢
    omega
  have target : (Node.symbol .origin name).IsWritten 0 [.symbol name] := .symbol _ _
  rcases @readStatement_assignment depth { indent := 0 } line [] 0 _ value _ kinds _ .assign .origin
    (.symbol _ _) target rfl written ahead ends shallow with ⟨result, rest, same, holds, read⟩
  have lines : readLines (depth + 2) { indent := 0 } (Stream.here false { rest := tokens }) []
      { rest := tokens } = .ok ((token.position, [result]), rest) := by
    rw [readLines]
    simp [found, read, holds.atLineEnd ends, bind, Except.bind]
    rw [readLines]
    simp [holds.nextLine_none]
  refine ⟨⟨token.position, [result]⟩, ?_, by simp [same, Node.bare]⟩
  rw [Program.ofTokens, deep]
  simp only [bind, Except.bind, lines, holds.nextLine_none]
  rfl

/-- An expression has a way to be written, and all ways to write it are read back as its tree. -/
theorem Program.ofSource_written {node : Node} (shape : node.IsExpression Number.IsFinite)
    (spellable : node.AllSpellable) :
    (∃ kinds lexemes, node.IsWritten 0 kinds ∧ Spells kinds lexemes) ∧
      ∀ kinds lexemes, node.IsWritten 0 kinds → Spells kinds lexemes →
        ∃ program, Program.ofSource ("x = " ++ " ".intercalate lexemes) = .ok program ∧
          program.items.map Node.bare =
            [.assignment .origin (.symbol .origin "x") .assign node.bare] := by
  constructor
  · rcases shape.isWritable spellable with ⟨kinds, written, line⟩
    rcases line.exists_lexemes with ⟨lexemes, spelled⟩
    exact ⟨kinds, lexemes, written, spelled⟩
  · intro kinds lexemes written spelled
    have nonempty : lexemes ≠ [] := by
      rcases written.opens with ⟨kind, rest, rfl, -⟩
      rintro rfl
      cases spelled
    have joined : "x = " ++ " ".intercalate lexemes = " ".intercalate ("x" :: "=" :: lexemes) := by
      have start : "x = " = "x" ++ " " ++ ("=" ++ " ") := by decide
      rw [String.intercalate_cons_cons, String.intercalate_cons_of_ne_nil nonempty, start,
        String.append_assoc]
    have target : IsIdentifier "x" := by decide +kernel
    have line : Spells (.symbol "x" :: .operator .assign :: kinds) ("x" :: "=" :: lexemes) :=
      .cons (.symbol target.1 target.2) (.cons (.operator (by decide)) spelled)
    have chained : Kind.Chained (.symbol "x" :: .operator .assign :: kinds) :=
      (Token.Kind.chained_singleton (.symbol "x")).append (written.chained.cons rfl) (by
        simp [Token.Kind.isAtom])
    rcases Token.scan_line line chained with ⟨tokens, scanned, listed⟩
    rcases Program.ofTokens_assignment written listed with ⟨program, read, same⟩
    refine ⟨program, ?_, same⟩
    rw [joined, Program.ofSource, scanned]
    exact read

/-- A tree whose operators have three levels, with a negative number in it. -/
def mixedExpression : Node :=
  let number (n : Int) : Node := .literal .origin (.number (Number.ofInt n))
  let negative : Node := .literal .origin (.number (-Number.ofInt 3))
  let sum : Node := .binary .origin (.symbol .origin "b") .add (.symbol .origin "c")
  .binary .origin (.binary .origin (.symbol .origin "a") .subtract (number 2)) .subtract
    (.binary .origin negative .multiply (.index .origin sum (number 0)))

/-- The tokens of `a - 2 - - 3 * ( b + c ) [ 0 ]`. -/
def mixedTokens : List Kind := [
  .symbol "a", .operator .minus, .integer 2, .operator .minus, .operator .minus, .integer 3,
  .operator .times, .operator .leftParenthesis, .symbol "b", .operator .plus, .symbol "c",
  .operator .rightParenthesis, .operator .leftBracket, .integer 0, .operator .rightBracket]

theorem isWritten_mixedExpression : mixedExpression.IsWritten 0 mixedTokens := by
  have name : ∀ (least : Nat) (name : String),
      (Node.symbol .origin name).IsWritten least [.symbol name] := fun _ => .symbol _
  have number : ∀ (least : Nat) (n : Int),
      (Node.literal .origin (.number (Number.ofInt n))).IsWritten least [.integer n] :=
    fun _ _ => .literal rfl
  have binary : ∀ {least level : Nat} {left right : Node} {op : Op} {mark : Operator}
      {leftKinds rightKinds : List Kind},
      Token.Kind.dyadic? (.operator mark) = some ⟨op, level, false⟩ → least ≤ level →
      left.IsWritten level leftKinds → right.IsWritten (level + 1) rightKinds →
      (Node.binary .origin left op right).IsWritten least
        (leftKinds ++ .operator mark :: rightKinds) := .binary
  have sum := @binary 0 4 _ _ .add .plus _ _ rfl (by decide) (name _ "b") (name _ "c")
  have difference := @binary 4 4 _ _ .subtract .minus _ _ rfl (by decide) (name _ "a") (number _ 2)
  have negative : (Node.literal .origin (.number (-Number.ofInt 3))).IsWritten 5
      [.operator .minus, .integer 3] := .negative (by decide) (number _ 3)
  have item : (Node.index .origin _ _).IsWritten 6 _ := .index (.group sum) (number _ 0)
  have product := @binary 5 5 _ _ .multiply .times _ _ rfl (by decide) negative item
  exact @binary 0 4 _ _ .subtract .minus _ _ rfl (by decide) difference product

theorem isIdentifier_mixedTokens : ∀ name ∈ ["a", "b", "c"], IsIdentifier name := by
  decide +kernel

theorem spells_mixedTokens : Spells mixedTokens
    ["a", "-", "2", "-", "-", "3", "*", "(", "b", "+", "c", ")", "[", "0", "]"] := by
  have symbol : ∀ name ∈ ["a", "b", "c"], (Kind.symbol name).IsSpelled name.toList :=
    fun name member =>
      .symbol (isIdentifier_mixedTokens name member).1 (isIdentifier_mixedTokens name member).2
  have mark : ∀ {mark : Operator}, mark ≠ .unknown →
      (Kind.operator mark).IsSpelled mark.text.toList := .operator
  have integer : ∀ {n : Int} {lexeme : String}, Token.startsNumeral lexeme.toList = true →
      Token.numeral lexeme.toList = .ok ⟨.integer n, lexeme.toList.length, []⟩ →
      (Kind.integer n).IsSpelled lexeme.toList := .numeral
  exact .cons (symbol "a" (by simp)) (.cons (mark (by decide)) (.cons (integer rfl rfl)
    (.cons (mark (by decide)) (.cons (mark (by decide)) (.cons (integer rfl rfl)
    (.cons (mark (by decide)) (.cons (mark (by decide)) (.cons (symbol "b" (by simp))
    (.cons (mark (by decide)) (.cons (symbol "c" (by simp)) (.cons (mark (by decide))
    (.cons (mark (by decide)) (.cons (integer rfl rfl) (.cons (mark (by decide))
    .nil))))))))))))))

/-- Subtraction associates to the left, and a minus sign behind it belongs to the number. -/
theorem ofSource_mixedExpression :
    mixedExpression.IsExpression Number.IsFinite ∧ mixedExpression.AllSpellable ∧
      mixedExpression.IsWritten 0 mixedTokens ∧
      ∃ program, Program.ofSource "x = a - 2 - - 3 * ( b + c ) [ 0 ]" = .ok program ∧
        program.items.map Node.bare =
          [.assignment .origin (.symbol .origin "x") .assign mixedExpression] := by
  have shape : mixedExpression.IsExpression Number.IsFinite := by
    have name : ∀ name : String, (Node.symbol .origin name).IsExpression Number.IsFinite :=
      fun name => .name (.symbol _ name)
    have two : Number.IsFinite (Number.ofInt 2) := ⟨false, ⟨2 ^ 52, -51⟩, by decide +kernel⟩
    have three : Number.IsFinite (-Number.ofInt 3) := ⟨true, ⟨3 * 2 ^ 51, -51⟩, by decide +kernel⟩
    have zero : Number.IsFinite (Number.ofInt 0) := ⟨false, ⟨0, -1074⟩, by decide +kernel⟩
    exact .binary rfl (.binary rfl (name "a") (.literal two)) (.binary rfl (.literal three)
      (.index (.binary rfl (name "b") (name "c")) (.literal zero)))
  have spellable : mixedExpression.AllSpellable := by
    have identifiers := isIdentifier_mixedTokens
    simp only [List.forall_mem_cons, List.not_mem_nil] at identifiers
    simp [mixedExpression, Node.AllSpellable, Node.occurrences, Node.IsSpellable, identifiers]
  rcases (Program.ofSource_written shape spellable).2 _ _ isWritten_mixedExpression
    spells_mixedTokens with ⟨program, read, same⟩
  exact ⟨shape, spellable, isWritten_mixedExpression, program, read, same⟩

end Lehce

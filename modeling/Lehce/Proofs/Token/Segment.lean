import Lehce.Proofs.Token.Layout
import Mathlib.Algebra.GroupWithZero.Nat

/-!
# Segments of a source

A source is cut into segments, each a comment or the spelling of one token. This module
says what the segments are, without saying how they are found: what spells a token of each
kind, where a spelling must end, and which place in the source a token tells.

The place behind a text is the number of its line feeds and the number of characters after
the last of them. A line break is passed before its token starts, so that its token starts
with the line that it opens.
-/

namespace Lehce.Token

/-- The line on which the place behind a text is. -/
def lineAfter (before : List Char) : Nat := before.count '\n'

/-- The column of the place behind a text. -/
def columnAfter (before : List Char) : Nat := (before.reverse.takeWhile (· != '\n')).length

/-- How wide some blanks are: a tabulator counts four, and every other blank one. -/
def blankWidth (blanks : List Char) : Nat := (blanks.map fun c => if c = '\t' then 4 else 1).sum

/-- What is between the delimiters of a text, and the content that it stands for. -/
inductive IsBody (delimiter : Char) : List Char → List Char → Prop where
  | nil : IsBody delimiter [] []
  | plain {c : Char} {content body : List Char} (open_ : c ≠ delimiter) (bare : c ≠ '\\')
      (others : IsBody delimiter content body) : IsBody delimiter (c :: content) (c :: body)
  | escaped (c : Char) {content body : List Char} (others : IsBody delimiter content body) :
      IsBody delimiter (unescape c ++ content) ('\\' :: c :: body)

/-- The marks that choose a base. -/
def baseMarks : List (List Char × Nat) := [
  (['0', 'x'], 16), (['0', 'X'], 16), (['0', 'b'], 2), (['0', 'B'], 2), (['0', 'o'], 8),
  (['0', 'O'], 8), (['0'], 8)]

/-- Whether some characters are digits of a base and underscores. -/
def IsBased (base : Nat) (chars : List Char) : Prop :=
  ∀ c ∈ chars, c = '_' ∨ ∃ digit < base, Number.digitValue? c = some digit

/-- Whether some characters are decimal digits and underscores. -/
def IsRun (chars : List Char) : Prop := ∀ c ∈ chars, c.isDigit = true ∨ c = '_'

/-- Whether some characters are decimal digits and underscores that start with a digit. -/
def IsDigits (chars : List Char) : Prop := chars.head?.any Char.isDigit = true ∧ IsRun chars

/-- What counts of a run of digits and underscores. -/
def digitsOf (chars : List Char) : List Char := chars.filter (· != '_')

/-- The fractions of decimal numerals, and what counts of each. -/
inductive IsFraction : List Char → List Char → Prop where
  | none : IsFraction [] []
  | some {digits : List Char} (isDigits : IsDigits digits) :
      IsFraction ('.' :: digitsOf digits) ('.' :: digits)

/-- The exponents of decimal numerals, and what counts of each. -/
inductive IsExponent : List Char → List Char → Prop where
  | none : IsExponent [] []
  | some {mark : Char} {sign digits : List Char} (isMark : mark = 'e' ∨ mark = 'E')
      (isSign : sign ∈ [[], ['+'], ['-']]) (isDigits : IsDigits digits) :
      IsExponent ('e' :: sign ++ digitsOf digits) (mark :: sign ++ digits)

/-- What spells a number: an integer of 64 bits or else a floating-point number. -/
inductive IsNumeral : Kind → List Char → Prop where
  | based {mark digits : List Char} {base : Nat} {value : Int} (known : (mark, base) ∈ baseMarks)
      (isBased : IsBased base digits)
      (read : Number.readInteger base 64 (digitsOf digits) = .ok value) :
      IsNumeral (.integer value) (mark ++ digits)
  | decimal {kind : Kind} {whole fraction exponent fractionKept exponentKept : List Char}
      (isRun : IsRun whole) (unmarked : ∀ c more, whole ≠ '0' :: c :: more)
      (starts : startsNumeral (whole ++ fraction) = true)
      (isFraction : IsFraction fractionKept fraction)
      (isExponent : IsExponent exponentKept exponent)
      (read : decimalKind? (digitsOf whole ++ fractionKept ++ exponentKept)
        (!(fraction ++ exponent).isEmpty) = some kind) :
      IsNumeral kind (whole ++ fraction ++ exponent)

/-- Whether a word can be extended neither to the left nor to the right. -/
def IsMaximal (before behind : List Char) : Prop :=
  (∀ c ∈ before.getLast?, isSymbolPart c = false) ∧ ∀ c ∈ behind.head?, isSymbolPart c = false

/-- What spells a token, or a comment, between the texts before and behind it. -/
inductive Renders (before : List Char) : Option Kind → List Char → List Char → Prop where
  | newline {lineBreak margin behind : List Char} (isBreak : IsBreak lineBreak)
      (isMargin : ∀ c ∈ margin, c = ' ' ∨ c = '\t') :
      Renders before (some (.newline (blankWidth margin))) (lineBreak ++ margin) behind
  | blank {blanks behind : List Char} (areBlanks : ∀ c ∈ blanks, c = ' ' ∨ c = '\t' ∨ c = '\r') :
      Renders before (some (.blank (blankWidth blanks))) blanks behind
  | lineComment {text behind : List Char} (unbroken : '\n' ∉ text) (ends : EndsLine behind) :
      Renders before none ('/' :: '/' :: text) behind
  | blockComment {text behind : List Char} (unclosed : ¬['*', '/'] <:+: text ++ ['*']) :
      Renders before none ('/' :: '*' :: text ++ ['*', '/']) behind
  | keyword {word : Keyword} {spelling : String} {behind : List Char}
      (known : (spelling, word) ∈ Keyword.spellings) (maximal : IsMaximal before behind) :
      Renders before (some (.keyword word)) spelling.toList behind
  | symbol {name : String} {behind : List Char} (isWord : IsWord name.toList)
      (free : ∀ word, (name, word) ∉ Keyword.spellings) (maximal : IsMaximal before behind) :
      Renders before (some (.symbol name)) name.toList behind
  | atom {name : String} {behind : List Char} (isWord : IsWord name.toList)
      (ends : ∀ c ∈ behind.head?, isSymbolPart c = false) :
      Renders before (some (.atom name)) (':' :: name.toList) behind
  | text {delimiter : Char} {content body behind : List Char}
      (isDelimiter : delimiter = '"' ∨ delimiter = '\'') (isBody : IsBody delimiter content body) :
      Renders before (some (.text (String.ofList content))) (delimiter :: body ++ [delimiter]) behind
  | numeral {kind : Kind} {chars behind : List Char} (isNumeral : IsNumeral kind chars)
      (ends : ∀ c ∈ behind.head?, isSymbolStart c = false) :
      Renders before (some kind) chars behind
  | operator {mark : Operator} {behind : List Char} (known : mark ≠ .unknown)
      (longest : ∀ other ≠ Operator.unknown, other.text.toList <+: mark.text.toList ++ behind →
        other.text.length ≤ mark.text.length) :
      Renders before (some (.operator mark)) mark.text.toList behind

end Lehce.Token


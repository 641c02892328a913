import Lehce.Token.Numeral
import Mathlib.Tactic.SplitIfs

/-!
# Delimited numerals

A numeral ends where a delimiter follows it: a blank, a tabulator or the end of a
line extends no run of digits and no literal. So a numeral that takes all of some
characters takes the same ones from every text that goes on with a delimiter
(`numeral_append`).
-/

namespace Lehce.Token

/-- Whether a character separates tokens or lines. -/
def IsDelimiter (c : Char) : Prop := c = ' ' ∨ c = '\t' ∨ c = '\r' ∨ c = '\n'

instance : DecidablePred IsDelimiter := fun c =>
  inferInstanceAs (Decidable (c = ' ' ∨ c = '\t' ∨ c = '\r' ∨ c = '\n'))

/-- Whether a text ends at once or starts with a delimiter. -/
def Delimited (rest : List Char) : Prop := ∀ c ∈ rest.head?, IsDelimiter c

variable {c : Char} {rest : List Char}

theorem IsDelimiter.not_isSymbolPart (delimiter : IsDelimiter c) : isSymbolPart c = false := by
  rcases delimiter with rfl | rfl | rfl | rfl <;> decide

theorem IsDelimiter.not_isSymbolStart (delimiter : IsDelimiter c) : isSymbolStart c = false := by
  rcases delimiter with rfl | rfl | rfl | rfl <;> decide

theorem IsDelimiter.not_isDigit (delimiter : IsDelimiter c) : c.isDigit = false := by
  rcases delimiter with rfl | rfl | rfl | rfl <;> decide

theorem IsDelimiter.not_isLetter (delimiter : IsDelimiter c) : Text.isLetter c = false := by
  rcases delimiter with rfl | rfl | rfl | rfl <;> decide

/-- A run of characters that no delimiter belongs to stops before what follows. -/
theorem Delimited.takeWhile_append {holds : Char → Bool} (delimited : Delimited rest)
    (refused : ∀ c, IsDelimiter c → holds c = false) (chars : List Char) :
    (chars ++ rest).takeWhile holds = chars.takeWhile holds := by
  induction chars with
  | nil =>
      cases rest with
      | nil => rfl
      | cons c _ => simp [refused c (delimited c rfl)]
  | cons c chars ih => simp only [List.cons_append, List.takeWhile_cons, ih]

variable {more : List Char}

/-- A run with more text after it. -/
def Run.followed (run : Run) (more : List Char) : Run := { run with rest := run.rest ++ more }

theorem decimalRun_append (delimited : Delimited more) (chars : List Char) :
    decimalRun (chars ++ more) = (decimalRun chars).followed more := by
  have refused : ∀ c, IsDelimiter c → (c.isDigit || c == '_') = false := by
    rintro c (rfl | rfl | rfl | rfl) <;> decide
  have shorter : (chars.takeWhile fun c => c.isDigit || c == '_').length ≤ chars.length :=
    (List.takeWhile_sublist _).length_le
  simp only [decimalRun, Run.followed, delimited.takeWhile_append refused,
    List.drop_append_of_le_length shorter]

theorem withFraction_followed (delimited : Delimited more) (run : Run) :
    withFraction (run.followed more) =
      ((withFraction run).1.followed more, (withFraction run).2) := by
  rcases run with ⟨kept, length, _ | ⟨first, _ | ⟨c, rest⟩⟩⟩
  · -- what follows the run starts with no point
    cases more with
    | nil => rfl
    | cons d more =>
        rcases delimited d rfl with rfl | rfl | rfl | rfl <;> rfl
  · -- a point at the end of the run is followed by no digit
    by_cases point : first = '.'
    · subst point
      cases more with
      | nil => rfl
      | cons d more => simp [withFraction, Run.followed, (delimited d rfl).not_isDigit]
    · simp [withFraction, Run.followed, point]
  · by_cases point : first = '.'
    · subst point
      have longer := decimalRun_append delimited (c :: rest)
      rw [List.cons_append] at longer
      by_cases digit : c.isDigit = true
      · simp [withFraction, Run.followed, digit, longer]
      · simp [withFraction, Run.followed, digit]
    · simp [withFraction, Run.followed, point]

theorem withExponent_followed (delimited : Delimited more) (run : Run) :
    withExponent (run.followed more) =
      ((withExponent run).1.followed more, (withExponent run).2) := by
  have noDigit : ∀ d ∈ more.head?, d.isDigit = false := fun d first =>
    (delimited d first).not_isDigit
  rcases run with ⟨kept, length, _ | ⟨mark, _ | ⟨c, rest⟩⟩⟩
  · cases more with
    | nil => rfl
    | cons d more =>
        cases more with
        | nil => rfl
        | cons _ _ => rcases delimited d rfl with rfl | rfl | rfl | rfl <;> rfl
  · cases more with
    | nil => rfl
    | cons d more =>
        have noSign : ¬(d = '+' ∨ d = '-') := by
          rcases delimited d rfl with rfl | rfl | rfl | rfl <;> decide
        simp [withExponent, Run.followed, noDigit d rfl, noSign]
  · have longer := decimalRun_append delimited
    by_cases marked : mark = 'e' ∨ mark = 'E'
    · by_cases digit : c.isDigit = true
      · have extended := longer (c :: rest)
        rw [List.cons_append] at extended
        simp [withExponent, Run.followed, marked, digit, extended]
      · by_cases sign : c = '+' ∨ c = '-'
        · cases rest with
          | nil => cases more <;> simp_all [withExponent, Run.followed]
          | cons d rest =>
              have extended := longer (d :: rest)
              rw [List.cons_append] at extended
              by_cases power : d.isDigit = true <;>
                simp [withExponent, Run.followed, marked, digit, sign, power, extended]
        · simp [withExponent, Run.followed, marked, digit, sign]
    · simp [withExponent, Run.followed, marked]

/-- The token of a decimal literal of which `kept` was kept, if a reader of numbers takes it. -/
def decimalKind? (kept : List Char) (scaled : Bool) : Option Kind :=
  match if scaled then none else (Number.readInteger 10 64 kept).toOption with
  | some value => some (.integer value)
  | none => (Number.readFloat .double kept).toOption.map .double

/-- A decimal literal is the run of its parts, unless a letter follows. -/
theorem decimalLiteral_eq_ok {chars : List Char} {literal : Literal} :
    decimalLiteral chars = .ok literal ↔
      let whole := withFraction (decimalRun chars)
      let scaled := withExponent whole.1
      (∀ c ∈ scaled.1.rest.head?, Text.isLetter c = false) ∧
        decimalKind? scaled.1.kept (whole.2 || scaled.2) = some literal.kind ∧
        scaled.1.length = literal.length ∧ scaled.1.rest = literal.rest := by
  rcases literal with ⟨kind, length, rest⟩
  simp only [decimalLiteral]
  generalize withFraction (decimalRun chars) = whole
  rcases whole with ⟨whole, fraction⟩
  simp only
  generalize withExponent whole = scaled
  rcases scaled with ⟨⟨kept, taken, after⟩, exponent⟩
  -- the reader that decides does not look at what follows
  cases after with
  | nil =>
      simp only [decimalKind?, List.head?_nil, Option.mem_def, reduceCtorEq, false_implies,
        implies_true, true_and]
      cases (if (fraction || exponent) = true then none
        else (Number.readInteger 10 64 kept).toOption) with
      | some value => simp [pure, Except.pure]
      | none =>
          cases Number.readFloat .double kept <;>
            simp [pure, Except.pure, Except.toOption]
  | cons c after =>
      by_cases letter : Text.isLetter c = true
      · simp [letter, bind, Except.bind, throw, throwThe, MonadExceptOf.throw]
      · simp only [decimalKind?, letter, List.head?_cons, Option.mem_def, Option.some.injEq]
        cases (if (fraction || exponent) = true then none
          else (Number.readInteger 10 64 kept).toOption) with
        | some value => simp [pure, Except.pure, letter]
        | none =>
            cases Number.readFloat .double kept <;>
              simp [pure, Except.pure, letter, Except.toOption]

theorem decimalLiteral_append {chars : List Char} {kind : Kind} {length : Nat}
    (delimited : Delimited more) (read : decimalLiteral chars = .ok ⟨kind, length, []⟩) :
    decimalLiteral (chars ++ more) = .ok ⟨kind, length, more⟩ := by
  rw [decimalLiteral_eq_ok] at read ⊢
  rcases read with ⟨-, known, taken, consumed⟩
  simp only [decimalRun_append delimited, withFraction_followed delimited,
    withExponent_followed delimited]
  refine ⟨?_, known, taken, ?_⟩
  · intro c first
    simp only [Run.followed, consumed, List.nil_append] at first
    exact (delimited c first).not_isLetter
  · simp [Run.followed, consumed]

theorem basedRun_append {base : Nat} (delimited : Delimited more) (chars : List Char)
    (length : Nat) (kept : List Char) :
    basedRun base (chars ++ more) length kept =
      (basedRun base chars length kept).map (·.followed more) := by
  fun_induction basedRun base chars length kept with
  | case1 length kept =>
      cases more with
      | nil => rfl
      | cons c more =>
          rcases delimited c rfl with rfl | rfl | rfl | rfl <;>
            rfl
  | case2 rest length kept ih => simp [basedRun, ih]
  | case3 length kept c rest mark value known large =>
      simp [basedRun, mark, known, large, Except.map, Run.followed]
  | case4 length kept c rest mark value known small large =>
      simp [basedRun, mark, known, small, large, Except.map]
  | case5 length kept c rest mark value known small fits ih =>
      simp [basedRun, mark, known, small, fits, ih]
  | case6 length kept c rest mark unknown =>
      simp [basedRun, mark, unknown, Except.map, Run.followed]

/-- A literal of a base is the run of its digits, unless the start of a symbol follows. -/
theorem basedLiteral_eq_ok {base mark : Nat} {chars : List Char} {literal : Literal} :
    basedLiteral base mark chars = .ok literal ↔
      ∃ run value, basedRun base chars mark [] = .ok run ∧ run.kept ≠ [] ∧
        (∀ c ∈ run.rest.head?, isSymbolStart c = false) ∧
        Number.readInteger base 64 run.kept = .ok value ∧
        ⟨.integer value, run.length, run.rest⟩ = literal := by
  rw [basedLiteral]
  cases basedRun base chars mark [] with
  | error fault => simp [bind, Except.bind]
  | ok run =>
      rcases run with ⟨_ | ⟨digit, kept⟩, length, rest⟩
      · simp [bind, Except.bind, throw, throwThe, MonadExceptOf.throw]
      · cases found : Number.readInteger base 64 (digit :: kept) <;> cases rest with
        | nil =>
            simp [bind, Except.bind, pure, Except.pure, throw, throwThe, MonadExceptOf.throw, found]
        | cons c rest =>
            by_cases start : isSymbolStart c = true <;>
              simp [bind, Except.bind, pure, Except.pure, throw, throwThe, MonadExceptOf.throw,
                start, found]

theorem basedLiteral_append {base mark : Nat} {chars : List Char} {kind : Kind} {length : Nat}
    (delimited : Delimited more) (read : basedLiteral base mark chars = .ok ⟨kind, length, []⟩) :
    basedLiteral base mark (chars ++ more) = .ok ⟨kind, length, more⟩ := by
  rw [basedLiteral_eq_ok] at read ⊢
  rcases read with ⟨⟨digits, taken, rest⟩, value, ran, kept, -, known, same⟩
  cases same
  refine ⟨⟨digits, taken, more⟩, value, ?_, kept, ?_, known, rfl⟩
  · simp [basedRun_append delimited, ran, Except.map, Run.followed]
  · exact fun c first => (delimited c first).not_isSymbolStart

/-- A numeral that takes all characters takes as many when a delimiter follows. -/
theorem numeral_append {chars : List Char} {kind : Kind} {length : Nat}
    (delimited : Delimited more) (read : numeral chars = .ok ⟨kind, length, []⟩) :
    numeral (chars ++ more) = .ok ⟨kind, length, more⟩ := by
  unfold numeral at read
  split at read
  · rename_i mark rest
    simp only [List.cons_append, numeral]
    split_ifs at read ⊢ with hex binary octal legacy
    · exact basedLiteral_append delimited read
    · exact basedLiteral_append delimited read
    · exact basedLiteral_append delimited read
    · exact basedLiteral_append delimited read
    · have literal := decimalLiteral_append delimited read
      rwa [List.cons_append, List.cons_append] at literal
  · rename_i noMark
    have decimal : numeral (chars ++ more) = decimalLiteral (chars ++ more) := by
      match chars, more, delimited, noMark with
      | [], [], _, _ => rfl
      | [], c :: _, delimited, _ => rcases delimited c rfl with rfl | rfl | rfl | rfl <;> rfl
      | [first], [], _, _ => simp [numeral]
      | [first], c :: _, delimited, _ =>
          by_cases zero : first = '0'
          · subst zero
            rcases delimited c rfl with rfl | rfl | rfl | rfl <;> rfl
          · simp [numeral, zero]
      | first :: mark :: rest, _, _, noMark =>
          have zero : first ≠ '0' := by
            rintro rfl
            exact noMark mark rest rfl
          simp [numeral, zero]
    rw [decimal]
    exact decimalLiteral_append delimited read

end Lehce.Token

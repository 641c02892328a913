import Lehce.Proofs.Number.Expansion
import Lehce.Proofs.Number.Opposite
import Lehce.Proofs.Program.Occurrences
import Lehce.Proofs.Program.Writing

/-!
# Every expression can be written

A tree of an expression whose numbers are finite and whose names are words that are no
keywords can be written with tokens that all have spellings
(`Node.IsExpression.isWritable`). Parentheses around every part are a way to write it.
-/

namespace Lehce

open Token (Kind)

/-- Whether a number is finite. -/
def Number.IsFinite (x : Float) : Prop := ∃ negative magnitude, parts x = .finite negative magnitude

/-- Whether a name is a word that is no keyword. -/
def IsIdentifier (name : String) : Prop :=
  Token.IsWord name.toList ∧ Keyword.ofSpelling? name = none

instance : DecidablePred IsIdentifier := fun name =>
  inferInstanceAs (Decidable (Token.IsWord name.toList ∧ Keyword.ofSpelling? name = none))

/-- Whether the names of a node can be spelled. -/
def Node.IsSpellable : Node → Prop
  | .symbol _ name => IsIdentifier name
  | .path _ parts => 2 ≤ parts.length ∧ ∀ part ∈ parts, IsIdentifier part
  | .literal _ (.atom name) => Token.IsWord name.toList
  | .nothing _ => False
  | _ => True

/-- Whether some lexemes spell some tokens, one by one. -/
def Spells (kinds : List Kind) (lexemes : List String) : Prop :=
  List.Forall₂ (fun kind lexeme => kind.IsSpelled lexeme.toList) kinds lexemes

/-- Whether all of some tokens have spellings. -/
def Spellable (kinds : List Kind) : Prop := ∀ kind ∈ kinds, ∃ lexeme, kind.IsSpelled lexeme

section Spellable

variable {kinds front back : List Kind}

theorem Spellable.append (frontSpellable : Spellable front) (backSpellable : Spellable back) :
    Spellable (front ++ back) := fun kind member =>
  (List.mem_append.1 member).elim (frontSpellable kind) (backSpellable kind)

theorem Spellable.operator {mark : Operator} (spellable : Spellable kinds)
    (known : mark ≠ .unknown) : Spellable (.operator mark :: kinds) :=
  List.forall_mem_cons.2 ⟨⟨_, .operator known⟩, spellable⟩

theorem spellable_nil : Spellable [] := by simp [Spellable]

theorem spellable_parenthesized (spellable : Spellable kinds) :
    Spellable (parenthesized kinds) :=
  (spellable.append (spellable_nil.operator (by decide))).operator (by decide)

theorem spellable_bracketed (spellable : Spellable kinds) : Spellable (bracketed kinds) :=
  (spellable.append (spellable_nil.operator (by decide))).operator (by decide)

theorem spellable_braced (spellable : Spellable kinds) : Spellable (braced kinds) :=
  (spellable.append (spellable_nil.operator (by decide))).operator (by decide)

theorem spellable_commaSeparated {parts : List (List Kind)}
    (spellable : ∀ part ∈ parts, Spellable part) : Spellable (commaSeparated parts) := by
  induction parts with
  | nil => exact spellable_nil
  | cons part parts ih =>
      rcases parts with _ | ⟨next, parts⟩
      · simpa using spellable
      · have others := ih fun part member => spellable part (List.mem_cons_of_mem _ member)
        rw [commaSeparated_cons_cons]
        exact (spellable part List.mem_cons_self).append (others.operator (by decide))

theorem spellable_identifier {name : String} (identifier : IsIdentifier name)
    (spellable : Spellable kinds) : Spellable (.symbol name :: kinds) :=
  List.forall_mem_cons.2 ⟨⟨_, .symbol identifier.1 identifier.2⟩, spellable⟩

theorem spellable_dotted {parts : List String} (identifiers : ∀ part ∈ parts, IsIdentifier part) :
    Spellable (dotted parts) := by
  induction parts with
  | nil => exact spellable_nil
  | cons part parts ih =>
      have others := ih fun part member => identifiers part (List.mem_cons_of_mem _ member)
      exact (spellable_identifier (identifiers part List.mem_cons_self) others).operator (by decide)

/-- Tokens that have spellings are spelled by some lexemes. -/
theorem Spellable.exists_lexemes (spellable : Spellable kinds) :
    ∃ lexemes, Spells kinds lexemes := by
  induction kinds with
  | nil => exact ⟨[], .nil⟩
  | cons kind kinds ih =>
      rcases spellable kind List.mem_cons_self with ⟨lexeme, spelled⟩
      rcases ih fun kind member => spellable kind (List.mem_cons_of_mem _ member) with
        ⟨lexemes, others⟩
      exact ⟨.ofList lexeme :: lexemes, .cons (by simpa using spelled) others⟩

end Spellable

namespace Node

variable {node : Node}

/-- Whether a tree can be written with tokens that have spellings. -/
def IsWritable (node : Node) : Prop := ∃ kinds, node.IsWritten 0 kinds ∧ Spellable kinds

/-- In parentheses a tree can be written everywhere. -/
theorem IsWritable.everywhere (writable : node.IsWritable) (least : Nat) :
    ∃ kinds, node.IsWritten least kinds ∧ Spellable kinds := by
  rcases writable with ⟨kinds, written, spellable⟩
  exact ⟨parenthesized kinds, .group written, spellable_parenthesized spellable⟩

theorem isWritable_of_datum {position : Position} {value : Datum} {kind : Kind}
    {lexeme : List Char} (denotes : kind.datum? = some value) (spelled : kind.IsSpelled lexeme) :
    (literal position value).IsWritable :=
  ⟨[kind], .literal denotes, List.forall_mem_singleton.2 ⟨lexeme, spelled⟩⟩

theorem isWritable_number {position : Position} {value : Float} (finite : Number.IsFinite value) :
    (literal position (.number value)).IsWritable := by
  rcases finite with ⟨negative, magnitude, finite⟩
  cases negative with
  | false =>
      rcases Token.exists_numeral finite with ⟨chars, spelled⟩
      exact isWritable_of_datum rfl spelled
  | true =>
      rcases Number.parts_neg finite with ⟨opposite, same⟩
      rcases Token.exists_numeral opposite with ⟨chars, spelled⟩
      have number : IsWritten 6 (literal position (.number (-value))) [.double (-value)] :=
        .literal rfl
      have negative : IsWritten 0 _ _ := @IsWritten.negative 0 position _ _ (by decide) number
      rw [same] at negative
      have spellable : Spellable [.double (-value)] :=
        List.forall_mem_singleton.2 ⟨chars, spelled⟩
      exact ⟨_, negative, spellable.operator (by decide)⟩

theorem isWritable_literal {position : Position} {value : Datum}
    (known : value.IsLiteral Number.IsFinite) (spellable : (literal position value).IsSpellable) :
    (literal position value).IsWritable := by
  cases value with
  | number value => exact isWritable_number known
  | empty => exact isWritable_of_datum rfl (.keyword (show ("empty", .emptyWord) ∈ _ by decide))
  | bool truth =>
      cases truth with
      | false => exact isWritable_of_datum rfl (.keyword (show ("false", .falseWord) ∈ _ by decide))
      | true => exact isWritable_of_datum rfl (.keyword (show ("true", .trueWord) ∈ _ by decide))
  | text content => exact isWritable_of_datum rfl (.text content)
  | atom name => exact isWritable_of_datum rfl (.atom spellable)
  | absent | list | dict | function => cases known

theorem IsName.isWritten (named : node.IsName) (spellable : node.IsSpellable) (least : Nat) :
    ∃ kinds, node.IsWritten least kinds ∧ Spellable kinds := by
  cases named with
  | symbol position name =>
      exact ⟨_, .symbol position name, spellable_identifier spellable spellable_nil⟩
  | path position parts =>
      rcases spellable with ⟨several, identifiers⟩
      rcases parts with _ | ⟨first, others⟩
      · simp at several
      · have dots : others ≠ [] := by
          rintro rfl
          simp at several
        rcases List.forall_mem_cons.1 identifiers with ⟨firstIdentifier, otherIdentifiers⟩
        exact ⟨_, .path dots,
          spellable_identifier firstIdentifier (spellable_dotted otherIdentifiers)⟩

/-- Every operator between operands has a mark. -/
theorem exists_dyadic {op : Op} (known : op.isArithmetic ∨ op.isComparison ∨ op.isLogical) :
    ∃ mark level, mark ≠ Operator.unknown ∧
      Token.Kind.dyadic? (.operator mark) = some ⟨op, level, !op.isArithmetic⟩ := by
  cases op with
  | add => exact ⟨.plus, 4, by decide, rfl⟩
  | subtract => exact ⟨.minus, 4, by decide, rfl⟩
  | multiply => exact ⟨.times, 5, by decide, rfl⟩
  | divide => exact ⟨.divide, 5, by decide, rfl⟩
  | modulo => exact ⟨.percent, 5, by decide, rfl⟩
  | equal => exact ⟨.equal, 2, by decide, rfl⟩
  | notEqual => exact ⟨.notEqual, 2, by decide, rfl⟩
  | greater => exact ⟨.greater, 3, by decide, rfl⟩
  | greaterEqual => exact ⟨.greaterEqual, 3, by decide, rfl⟩
  | less => exact ⟨.less, 3, by decide, rfl⟩
  | lessEqual => exact ⟨.lessEqual, 3, by decide, rfl⟩
  | and => exact ⟨.andAnd, 1, by decide, rfl⟩
  | or => exact ⟨.orOr, 0, by decide, rfl⟩
  | _ => simp [Op.isArithmetic, Op.isComparison, Op.isLogical] at known

/-- Things that each have a description are described by a list of descriptions. -/
theorem exists_descriptions {α β : Type} {described : β → α} {holds : β → Prop} {items : List α}
    (each : ∀ item ∈ items, ∃ description, described description = item ∧ holds description) :
    ∃ descriptions : List β, descriptions.map described = items ∧
      ∀ description ∈ descriptions, holds description := by
  induction items with
  | nil => exact ⟨[], rfl, by simp⟩
  | cons item items ih =>
      rcases each item List.mem_cons_self with ⟨description, rfl, first⟩
      rcases ih fun item member => each item (List.mem_cons_of_mem _ member) with
        ⟨descriptions, rfl, others⟩
      exact ⟨description :: descriptions, rfl, List.forall_mem_cons.2 ⟨first, others⟩⟩

theorem isWritable_binary {position : Position} {left right : Node} {op : Op}
    (arithmetic : op.isArithmetic) (leftWritable : left.IsWritable)
    (rightWritable : right.IsWritable) : (binary position left op right).IsWritable := by
  rcases exists_dyadic (.inl arithmetic) with ⟨mark, level, known, marks⟩
  rw [arithmetic] at marks
  rcases leftWritable.everywhere level with ⟨leftKinds, leftWritten, leftSpellable⟩
  rcases rightWritable.everywhere (level + 1) with ⟨rightKinds, rightWritten, rightSpellable⟩
  exact ⟨_, .binary marks (Nat.zero_le _) leftWritten rightWritten,
    leftSpellable.append (rightSpellable.operator known)⟩

theorem isWritable_control {position : Position} {left right : Node} {op : Op}
    (decides : op.isComparison ∨ op.isLogical) (leftWritable : left.IsWritable)
    (rightWritable : right.IsWritable) : (control position left op right).IsWritable := by
  rcases exists_dyadic (.inr decides) with ⟨mark, level, known, marks⟩
  have noArithmetic : op.isArithmetic = false := by
    cases op <;> simp_all [Op.isArithmetic, Op.isComparison, Op.isLogical]
  rw [noArithmetic] at marks
  rcases leftWritable.everywhere level with ⟨leftKinds, leftWritten, leftSpellable⟩
  rcases rightWritable.everywhere (level + 1) with ⟨rightKinds, rightWritten, rightSpellable⟩
  exact ⟨_, .control marks (Nat.zero_le _) leftWritten rightWritten,
    leftSpellable.append (rightSpellable.operator known)⟩

theorem isWritable_prefixed {position : Position} {op : Op} {operand : Node} {mark : Operator}
    (known : mark ≠ .unknown) (marks : Token.Kind.unary? (.operator mark) = some op)
    (applies : operand.IsOperandOf op) (operandWritable : operand.IsWritable) :
    (prefixed position op operand true).IsWritable := by
  rcases operandWritable.everywhere 6 with ⟨kinds, written, spellable⟩
  exact ⟨_, .prefixed (by decide) marks applies written, spellable.operator known⟩

/-- Every operator that steps a variable has a mark. -/
theorem exists_step {op : Op} (steps : op.isStep) :
    ∃ mark, mark ≠ Operator.unknown ∧ Token.Kind.unary? (.operator mark) = some op := by
  cases op with
  | increment => exact ⟨.increment, by decide, rfl⟩
  | decrement => exact ⟨.decrement, by decide, rfl⟩
  | _ => cases steps

theorem isWritable_symbol (position : Position) {name : String} (identifier : IsIdentifier name) :
    (symbol position name).IsWritable :=
  (IsName.symbol position name).isWritten identifier 0

/-- Trees that each can be written are written one by one. -/
theorem exists_writings {items : List Node} (writable : ∀ item ∈ items, item.IsWritable) :
    ∃ written : List (Node × List Kind), written.map (·.1) = items ∧
      ∀ item ∈ written, item.1.IsWritten 0 item.2 ∧ Spellable item.2 :=
  exists_descriptions fun item member =>
    have ⟨kinds, written, spellable⟩ := writable item member
    ⟨(item, kinds), rfl, written, spellable⟩

/-- Whether all names in a tree can be spelled. -/
def AllSpellable (node : Node) : Prop := ∀ part ∈ node.occurrences false, part.IsSpellable

theorem AllSpellable.here (spellable : node.AllSpellable) : node.IsSpellable :=
  spellable node (mem_occurrences_self _ _)

theorem AllSpellable.part {part : Node} (spellable : node.AllSpellable)
    (member : part ∈ node.parts) : part.AllSpellable := fun occurrence inside =>
  spellable occurrence (mem_occurrences_iff.2 (.inr ⟨part, member, inside⟩))

/-- Every tree of an expression can be written. -/
theorem IsExpression.isWritable (shape : node.IsExpression Number.IsFinite)
    (spellable : node.AllSpellable) : node.IsWritable := by
  induction shape with
  | literal known => exact isWritable_literal known spellable.here
  | nothing => exact absurd spellable.here id
  | name named => exact named.isWritten spellable.here 0
  | binary arithmetic _ _ leftWritable rightWritable =>
      exact isWritable_binary arithmetic (leftWritable (spellable.part (by simp [parts])))
        (rightWritable (spellable.part (by simp [parts])))
  | comparison compares _ _ leftWritable rightWritable =>
      exact isWritable_control (.inl compares) (leftWritable (spellable.part (by simp [parts])))
        (rightWritable (spellable.part (by simp [parts])))
  | logical decides _ _ leftWritable rightWritable =>
      exact isWritable_control (.inr decides) (leftWritable (spellable.part (by simp [parts])))
        (rightWritable (spellable.part (by simp [parts])))
  | call named _ argsWritable =>
      have calleeSpellable := spellable.part List.mem_cons_self
      rcases named.isWritten calleeSpellable.here 7 with ⟨calleeKinds, calleeWritten, calleeLine⟩
      rcases exists_writings fun arg member =>
        argsWritable arg member (spellable.part (List.mem_cons_of_mem _ member)) with
        ⟨args, rfl, written⟩
      have line := spellable_commaSeparated (List.forall_mem_map.2 fun arg member =>
        (written arg member).2)
      exact ⟨_, .call named calleeWritten fun arg member => (written arg member).1,
        calleeLine.append (spellable_parenthesized line)⟩
  | list _ itemsWritable =>
      rcases exists_writings fun item member =>
        itemsWritable item member (spellable.part member) with ⟨items, rfl, written⟩
      have line := spellable_commaSeparated (List.forall_mem_map.2 fun item member =>
        (written item member).2)
      exact ⟨_, .list fun item member => (written item member).1, spellable_bracketed line⟩
  | @dict _ entries distinct _ valuesWritable =>
      have each : ∀ entry ∈ entries, ∃ written : WrittenEntry,
          (written.key, written.value) = entry ∧
            written.value.IsWritten 0 written.kinds ∧ Spellable written.kinds := by
        intro entry member
        rcases valuesWritable entry member (spellable.part (List.mem_map_of_mem member)) with
          ⟨kinds, written, line⟩
        exact ⟨⟨entry.1, entry.2, kinds⟩, rfl, written, line⟩
      rcases exists_descriptions each with ⟨written, rfl, all⟩
      have entrySpellable : ∀ entry ∈ written, Spellable entry.all := fun entry member =>
        List.forall_mem_cons.2 ⟨⟨_, .text entry.key⟩, (all entry member).2.operator (by decide)⟩
      have line := spellable_commaSeparated (List.forall_mem_map.2 entrySpellable)
      rw [List.map_map] at distinct
      exact ⟨_, .dict distinct fun entry member => (all entry member).1, spellable_braced line⟩
  | not _ operandWritable =>
      exact isWritable_prefixed (show Operator.bang ≠ .unknown by decide) rfl (.not _)
        (operandWritable (spellable.part (by simp [parts])))
  | negate unfolded _ operandWritable =>
      exact isWritable_prefixed (show Operator.minus ≠ .unknown by decide) rfl (.negate unfolded)
        (operandWritable (spellable.part (by simp [parts])))
  | stepBefore steps operandPosition name =>
      have identifier : IsIdentifier name := (spellable.part List.mem_cons_self).here
      rcases exists_step steps with ⟨mark, known, marks⟩
      exact isWritable_prefixed known marks (.step steps _ _) (isWritable_symbol _ identifier)
  | stepAfter steps operandPosition name =>
      have identifier : IsIdentifier name := (spellable.part List.mem_cons_self).here
      rcases exists_step steps with ⟨mark, known, marks⟩
      rcases (isWritable_symbol operandPosition identifier).everywhere 7 with ⟨kinds, written, line⟩
      exact ⟨_, .suffixed marks steps written, line.append (spellable_nil.operator known)⟩
  | index _ _ bodyWritable keyWritable =>
      rcases (bodyWritable (spellable.part (by simp [parts]))).everywhere 7 with
        ⟨bodyKinds, bodyWritten, bodyLine⟩
      rcases keyWritable (spellable.part (by simp [parts])) with ⟨keyKinds, keyWritten, keyLine⟩
      exact ⟨_, .index bodyWritten keyWritten, bodyLine.append (spellable_bracketed keyLine)⟩

end Node

end Lehce

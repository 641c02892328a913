import Lehce.Program.Expression
import Lehce.Proofs.Program.Shape
import Lehce.Proofs.Token.Line

/-!
# Ways to write an expression

`Node.IsWritten` relates a tree to the tokens that write it. The operators between
operands have the levels of their tokens, the operators before an operand have
level six, and what stands after an operand has level seven. Where a tree may stand
is told by the least level that its outermost operator must have: on the left of an
operator its own level, on the right the next one. Parentheses may stand around
every part, and must where the level would be too low.

The tokens of a written tree are a line that can be spelled: no atom stands where
its colon would be a mark.
-/

namespace Lehce

open Token (Kind)

namespace Token.Kind

/-- The datum of a literal that a token denotes. -/
def datum? : Kind → Option Datum
  | .integer value => some (.number (Number.ofInt value))
  | .double value => some (.number value)
  | .text content => some (.text content)
  | .atom name => some (.atom name)
  | .keyword .trueWord => some (.bool true)
  | .keyword .falseWord => some (.bool false)
  | .keyword .emptyWord => some .empty
  | _ => none

/-- Whether a token may be the first one of an expression. -/
def opens (kind : Kind) : Bool :=
  kind.datum?.isSome || kind.unary?.isSome ||
    match kind with
    | .symbol _ => true
    | .operator .leftParenthesis | .operator .leftBracket | .operator .leftBrace => true
    | _ => false

end Token.Kind

/-- Lists of tokens with a comma between any two. -/
def commaSeparated (parts : List (List Kind)) : List Kind := [.operator .comma].intercalate parts

@[simp]
theorem commaSeparated_singleton (part : List Kind) : commaSeparated [part] = part := by
  simp [commaSeparated]

@[simp]
theorem commaSeparated_cons_cons (part next : List Kind) (parts : List (List Kind)) :
    commaSeparated (part :: next :: parts) =
      part ++ .operator .comma :: commaSeparated (next :: parts) := by
  simp [commaSeparated]

/-- The tokens that write the parts of a dotted name after its first one. -/
def dotted (parts : List String) : List Kind :=
  parts.flatMap fun part => [.operator .dot, .symbol part]

theorem length_dotted (parts : List String) : (dotted parts).length = 2 * parts.length := by
  induction parts with
  | nil => rfl
  | cons part parts ih =>
      have split : dotted (part :: parts) = .operator .dot :: .symbol part :: dotted parts := rfl
      simp only [split, List.length_cons, ih]
      omega

/-- Some tokens between parentheses. -/
def parenthesized (kinds : List Kind) : List Kind :=
  .operator .leftParenthesis :: (kinds ++ [.operator .rightParenthesis])

/-- Some tokens between brackets. -/
def bracketed (kinds : List Kind) : List Kind :=
  .operator .leftBracket :: (kinds ++ [.operator .rightBracket])

/-- Some tokens between braces. -/
def braced (kinds : List Kind) : List Kind :=
  .operator .leftBrace :: (kinds ++ [.operator .rightBrace])

/-- An entry of a dictionary literal: its key, its value and the tokens that write the value. -/
structure WrittenEntry where
  key : String
  value : Node
  kinds : List Kind

/-- The tokens that write an entry of a dictionary. -/
def WrittenEntry.all (entry : WrittenEntry) : List Kind :=
  .text entry.key :: .operator .colon :: entry.kinds

/-- The operands that an operator before them leaves as they are: a sign is folded into a number,
and `++` and `--` stand before symbols only. -/
inductive Node.IsOperandOf : Op → Node → Prop where
  | not (operand : Node) : IsOperandOf .not operand
  | negate {operand : Node} (unfolded : operand.isLiteral = false) : IsOperandOf .negate operand
  | step {op : Op} (steps : op.isStep = true) (position : Position) (name : String) :
      IsOperandOf op (.symbol position name)

/-- The tokens that write a tree where its outermost operator must have at least a level. -/
inductive Node.IsWritten : Nat → Node → List Kind → Prop where
  | group {least : Nat} {node : Node} {kinds : List Kind} (written : IsWritten 0 node kinds) :
      IsWritten least node (parenthesized kinds)
  | literal {least : Nat} {position : Position} {kind : Kind} {value : Datum}
      (denotes : kind.datum? = some value) : IsWritten least (.literal position value) [kind]
  | symbol {least : Nat} (position : Position) (name : String) :
      IsWritten least (.symbol position name) [.symbol name]
  | path {least : Nat} {position : Position} {first : String} {others : List String}
      (dots : others ≠ []) :
      IsWritten least (.path position (first :: others))
        (.symbol first :: dotted others)
  | list {least : Nat} {position : Position} {items : List (Node × List Kind)}
      (itemsWritten : ∀ item ∈ items, IsWritten 0 item.1 item.2) :
      IsWritten least (.list position (items.map (·.1)))
        (bracketed (commaSeparated (items.map (·.2))))
  | dict {least : Nat} {position : Position} {entries : List WrittenEntry}
      (distinct : (entries.map (·.key)).Nodup)
      (valuesWritten : ∀ entry ∈ entries, IsWritten 0 entry.value entry.kinds) :
      IsWritten least (.dict position (entries.map fun entry => (entry.key, entry.value)))
        (braced (commaSeparated (entries.map WrittenEntry.all)))
  | call {least : Nat} {position : Position} {callee : Node} {kinds : List Kind}
      {args : List (Node × List Kind)} (named : callee.IsName)
      (calleeWritten : IsWritten 7 callee kinds)
      (argsWritten : ∀ arg ∈ args, IsWritten 0 arg.1 arg.2) :
      IsWritten least (.call position callee (args.map (·.1)) true)
        (kinds ++ parenthesized (commaSeparated (args.map (·.2))))
  | index {least : Nat} {position : Position} {body key : Node} {bodyKinds keyKinds : List Kind}
      (bodyWritten : IsWritten 7 body bodyKinds) (keyWritten : IsWritten 0 key keyKinds) :
      IsWritten least (.index position body key) (bodyKinds ++ bracketed keyKinds)
  | suffixed {least : Nat} {position operandPosition : Position} {op : Op} {name : String}
      {kind : Kind} {kinds : List Kind} (marks : kind.unary? = some op) (steps : op.isStep = true)
      (operandWritten : IsWritten 7 (.symbol operandPosition name) kinds) :
      IsWritten least (.suffixed position op (.symbol operandPosition name) true) (kinds ++ [kind])
  | negative {least : Nat} {position : Position} {value : Float} {kinds : List Kind}
      (bounded : least ≤ 6)
      (valueWritten : IsWritten 6 (.literal position (.number value)) kinds) :
      IsWritten least (.literal position (.number (-value))) (.operator .minus :: kinds)
  | prefixed {least : Nat} {position : Position} {op : Op} {operand : Node} {kind : Kind}
      {kinds : List Kind} (bounded : least ≤ 6) (marks : kind.unary? = some op)
      (applies : operand.IsOperandOf op) (operandWritten : IsWritten 6 operand kinds) :
      IsWritten least (.prefixed position op operand true) (kind :: kinds)
  | binary {least level : Nat} {position : Position} {left right : Node} {op : Op} {kind : Kind}
      {leftKinds rightKinds : List Kind} (marks : kind.dyadic? = some ⟨op, level, false⟩)
      (bounded : least ≤ level) (leftWritten : IsWritten level left leftKinds)
      (rightWritten : IsWritten (level + 1) right rightKinds) :
      IsWritten least (.binary position left op right) (leftKinds ++ kind :: rightKinds)
  | control {least level : Nat} {position : Position} {left right : Node} {op : Op} {kind : Kind}
      {leftKinds rightKinds : List Kind} (marks : kind.dyadic? = some ⟨op, level, true⟩)
      (bounded : least ≤ level) (leftWritten : IsWritten level left leftKinds)
      (rightWritten : IsWritten (level + 1) right rightKinds) :
      IsWritten least (.control position left op right) (leftKinds ++ kind :: rightKinds)

namespace Token.Kind

variable {kind : Kind} {kinds front back : List Kind}

/-- Whether a token is an atom. -/
def isAtom : Kind → Bool
  | .atom _ => true
  | _ => false

/-- Whether some tokens can be spelled in one line. -/
def Chained (kinds : List Kind) : Prop := kinds.IsChain Precedes

theorem Chained.cons (chained : Chained kinds) (apart : kind.allowsColon = false) :
    Chained (kind :: kinds) :=
  List.IsChain.cons chained fun _ _ _ _ => apart

theorem Chained.append (frontChained : Chained front) (backChained : Chained back)
    (noAtom : ∀ kind ∈ back.head?, kind.isAtom = false) : Chained (front ++ back) := by
  refine List.IsChain.append frontChained backChained fun _ _ kind first name isAtom => ?_
  subst isAtom
  cases noAtom _ first

theorem chained_of_noAtom (noAtom : ∀ kind ∈ kinds, kind.isAtom = false) : Chained kinds := by
  induction kinds with
  | nil => exact .nil
  | cons kind kinds ih =>
      have others : ∀ kind ∈ kinds, kind.isAtom = false := fun kind member =>
        noAtom kind (List.mem_cons_of_mem _ member)
      refine List.IsChain.cons (ih others) fun next first name isAtom => ?_
      subst isAtom
      cases others _ (List.mem_of_mem_head? first)

theorem chained_singleton (kind : Kind) : Chained [kind] := List.isChain_singleton kind

theorem allowsColon_of_dyadic {operator : Dyadic} (marks : kind.dyadic? = some operator) :
    kind.allowsColon = false ∧ kind.isAtom = false := by
  unfold dyadic? at marks
  split at marks <;> first | exact ⟨rfl, rfl⟩ | cases marks

theorem allowsColon_of_unary {op : Op} (marks : kind.unary? = some op) :
    kind.allowsColon = false ∧ kind.isAtom = false ∧ kind.opens = true := by
  unfold unary? at marks
  split at marks <;> first | exact ⟨rfl, rfl, rfl⟩ | cases marks

theorem opens_of_datum {value : Datum} (denotes : kind.datum? = some value) :
    kind.opens = true := by
  simp [opens, denotes]

theorem Chained.around {operator : Dyadic} (frontChained : Chained front)
    (backChained : Chained back) (marks : kind.dyadic? = some operator) :
    Chained (front ++ kind :: back) := by
  rcases allowsColon_of_dyadic marks with ⟨apart, noAtom⟩
  exact frontChained.append (backChained.cons apart) (by simpa using noAtom)

theorem chained_parenthesized (chained : Chained kinds) : Chained (parenthesized kinds) :=
  (chained.append (chained_singleton _) (by simp [isAtom])).cons rfl

theorem chained_bracketed (chained : Chained kinds) : Chained (bracketed kinds) :=
  (chained.append (chained_singleton _) (by simp [isAtom])).cons rfl

theorem chained_braced (chained : Chained kinds) : Chained (braced kinds) :=
  (chained.append (chained_singleton _) (by simp [isAtom])).cons rfl

theorem chained_commaSeparated {parts : List (List Kind)} (chained : ∀ part ∈ parts, Chained part) :
    Chained (commaSeparated parts) := by
  induction parts with
  | nil => exact .nil
  | cons part parts ih =>
      rcases parts with _ | ⟨next, parts⟩
      · simpa using chained
      · have others := ih fun part member => chained part (List.mem_cons_of_mem _ member)
        have joined : Chained (.operator .comma :: commaSeparated (next :: parts)) :=
          others.cons rfl
        simpa using
          (chained part List.mem_cons_self).append joined (by simp [isAtom])

end Token.Kind

/-- Whether the first of some tokens may be the first one of an expression. -/
def Token.Kind.Opens (kinds : List Kind) : Prop :=
  ∃ kind rest, kinds = kind :: rest ∧ kind.opens = true

theorem opens_commaSeparated {parts : List (List Kind)} (nonempty : parts ≠ [])
    (opens : ∀ part ∈ parts, Token.Kind.Opens part) : Token.Kind.Opens (commaSeparated parts) := by
  rcases parts with _ | ⟨part, _ | ⟨next, parts⟩⟩
  · exact absurd rfl nonempty
  · simpa using opens
  · rcases opens part List.mem_cons_self with ⟨kind, rest, rfl, first⟩
    exact ⟨kind, _, commaSeparated_cons_cons _ _ _, first⟩

namespace Node.IsWritten

open Token.Kind (Chained)

variable {least : Nat} {node : Node} {kinds : List Kind}

/-- The tokens of a written tree start with one that opens an expression. -/
theorem opens (written : node.IsWritten least kinds) : Token.Kind.Opens kinds := by
  induction written with
  | group | symbol | path | list | dict => exact ⟨_, _, rfl, rfl⟩
  | literal denotes => exact ⟨_, _, rfl, Token.Kind.opens_of_datum denotes⟩
  | negative => exact ⟨_, _, rfl, rfl⟩
  | prefixed _ marks => exact ⟨_, _, rfl, (Token.Kind.allowsColon_of_unary marks).2.2⟩
  | call _ _ _ ih =>
      rcases ih with ⟨kind, rest, rfl, opens⟩
      exact ⟨kind, _, rfl, opens⟩
  | index _ _ ih =>
      rcases ih with ⟨kind, rest, rfl, opens⟩
      exact ⟨kind, _, rfl, opens⟩
  | suffixed _ _ _ ih =>
      rcases ih with ⟨kind, rest, rfl, opens⟩
      exact ⟨kind, _, rfl, opens⟩
  | binary _ _ _ _ ih =>
      rcases ih with ⟨kind, rest, rfl, opens⟩
      exact ⟨kind, _, rfl, opens⟩
  | control _ _ _ _ ih =>
      rcases ih with ⟨kind, rest, rfl, opens⟩
      exact ⟨kind, _, rfl, opens⟩

/-- The tokens of a written tree can be spelled in one line. -/
theorem chained (written : node.IsWritten least kinds) : Chained kinds := by
  induction written with
  | group _ ih => exact Token.Kind.chained_parenthesized ih
  | literal | symbol => exact Token.Kind.chained_singleton _
  | path =>
      refine Token.Kind.chained_of_noAtom (List.forall_mem_cons.2 ⟨rfl, ?_⟩)
      intro kind member
      rcases List.mem_flatMap.1 member with ⟨part, -, either⟩
      rcases List.mem_pair.1 either with rfl | rfl <;> rfl
  | list itemsWritten ih =>
      exact Token.Kind.chained_bracketed
        (Token.Kind.chained_commaSeparated (List.forall_mem_map.2 ih))
  | dict distinct valuesWritten ih =>
      refine Token.Kind.chained_braced (Token.Kind.chained_commaSeparated ?_)
      intro part member
      rcases List.mem_map.1 member with ⟨entry, inside, rfl⟩
      have value : Chained (.operator .colon :: entry.kinds) := (ih entry inside).cons rfl
      have key := Token.Kind.chained_singleton (.text entry.key)
      exact key.append value (by simp [Token.Kind.isAtom])
  | call named calleeWritten argsWritten calleeChained argsChained =>
      have args := Token.Kind.chained_commaSeparated (List.forall_mem_map.2 argsChained)
      exact calleeChained.append (Token.Kind.chained_parenthesized args)
        (by simp [parenthesized, Token.Kind.isAtom])
  | index bodyWritten keyWritten bodyChained keyChained =>
      exact bodyChained.append (Token.Kind.chained_bracketed keyChained)
        (by simp [bracketed, Token.Kind.isAtom])
  | suffixed marks steps operandWritten ih =>
      exact ih.append (Token.Kind.chained_singleton _)
        (by simpa using (Token.Kind.allowsColon_of_unary marks).2.1)
  | negative _ _ ih => exact ih.cons rfl
  | prefixed _ marks _ _ ih => exact ih.cons (Token.Kind.allowsColon_of_unary marks).1
  | binary marks _ _ _ leftChained rightChained => exact leftChained.around rightChained marks
  | control marks _ _ _ leftChained rightChained => exact leftChained.around rightChained marks

end Node.IsWritten

end Lehce

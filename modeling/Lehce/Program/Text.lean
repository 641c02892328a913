import Lehce.Program.Node

/-!
# Programs as text

A one-line text of a program tree, with every operator in parentheses and every
body in braces. It shows how a source was understood.
-/

namespace Lehce

mutual

/-- The text of a node. -/
def Node.text : Node → String
  | .literal _ value => value.quoted
  | .symbol _ name => name
  | .path _ parts => pathName parts
  | .binary _ left op right => "(" ++ left.text ++ " " ++ op.text ++ " " ++ right.text ++ ")"
  | .control _ left op right => "(" ++ left.text ++ " " ++ op.text ++ " " ++ right.text ++ ")"
  | .assignment _ target op value => target.text ++ " " ++ op.text ++ " " ++ value.text
  | .block _ items => "\x7b" ++ "; ".intercalate (Node.texts items) ++ "\x7d"
  | .function _ name params _ body =>
    "fonk " ++ name ++ "(" ++ ", ".intercalate params ++ ") " ++
      "\x7b" ++ "; ".intercalate (Node.texts body) ++ "\x7d"
  | .call _ callee args _ => callee.text ++ "(" ++ ", ".intercalate (Node.texts args) ++ ")"
  | .list _ items => "[" ++ ", ".intercalate (Node.texts items) ++ "]"
  | .dict _ entries => "\x7b" ++ ", ".intercalate (Node.entryTexts entries) ++ "\x7d"
  | .prefixed _ .not operand _ => "(değil " ++ operand.text ++ ")"
  | .prefixed _ op operand _ => "(" ++ op.text ++ operand.text ++ ")"
  | .suffixed _ op operand _ => "(" ++ operand.text ++ op.text ++ ")"
  | .index _ body key => body.text ++ "[" ++ key.text ++ "]"
  | .branch _ condition _ body otherwise =>
    let head := "ise " ++ condition.text ++ " \x7b" ++ "; ".intercalate (Node.texts body) ++ "\x7d"
    match otherwise with
    | none => head
    | some other => head ++ " değilse " ++ other.text
  | .returns _ value =>
    match value with
    | none => "döndür"
    | some value => "döndür " ++ value.text
  | .breaks _ => "kır"
  | .continues _ => "devam"
  | .endlessLoop _ _ body => "sonsuz \x7b" ++ "; ".intercalate (Node.texts body) ++ "\x7d"
  | .whileLoop _ condition _ body =>
    "döngü " ++ condition.text ++ " \x7b" ++ "; ".intercalate (Node.texts body) ++ "\x7d"
  | .nothing _ => emptyText

/-- The texts of some nodes. -/
def Node.texts : List Node → List String
  | [] => []
  | node :: rest => node.text :: Node.texts rest

/-- The texts of the entries of a dictionary. -/
def Node.entryTexts : List (String × Node) → List String
  | [] => []
  | (key, value) :: rest => (Text.quote key ++ ": " ++ value.text) :: Node.entryTexts rest

end

/-- The text of a program. -/
def Program.text (program : Program) : String :=
  "\x7b" ++ "; ".intercalate (Node.texts program.items) ++ "\x7d"

end Lehce

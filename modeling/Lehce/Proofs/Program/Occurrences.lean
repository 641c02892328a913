import Lehce.Code.Emission

/-!
# The nodes of a program in source order

`Node.occurrences` lists a node and the nodes below it in the order in which a
walk over the program meets them. Every walk of the compiler is a left fold over
this list, so what a walk finds can be stated by membership.

A shallow walk stays in one scope. A deep walk also enters the bodies of
functions.
-/

namespace Lehce

mutual

/-- A node and the nodes below it; bodies of functions are entered only when `deep` is set. -/
def Node.occurrences (deep : Bool) (node : Node) : List Node :=
  node :: match node with
  | .binary _ left _ right | .control _ left _ right =>
    left.occurrences deep ++ right.occurrences deep
  | .assignment _ target _ value => target.occurrences deep ++ value.occurrences deep
  | .block _ items | .list _ items => Node.occurrencesAll deep items
  | .function _ _ _ _ body => if deep then Node.occurrencesAll deep body else []
  | .call _ callee args _ => callee.occurrences deep ++ Node.occurrencesAll deep args
  | .dict _ entries => Node.occurrencesEntries deep entries
  | .prefixed _ _ operand _ | .suffixed _ _ operand _ => operand.occurrences deep
  | .index _ body key => body.occurrences deep ++ key.occurrences deep
  | .branch _ condition _ body otherwise =>
    condition.occurrences deep ++ (Node.occurrencesAll deep body ++
      match otherwise with
      | some other => other.occurrences deep
      | none => [])
  | .returns _ value =>
    match value with
    | some value => value.occurrences deep
    | none => []
  | .endlessLoop _ _ body => Node.occurrencesAll deep body
  | .whileLoop _ condition _ body => condition.occurrences deep ++ Node.occurrencesAll deep body
  | .literal _ _ | .symbol _ _ | .path _ _ | .breaks _ | .continues _ | .nothing _ => []

/-- The occurrences in some nodes, one node after the other. -/
def Node.occurrencesAll (deep : Bool) : List Node → List Node
  | [] => []
  | node :: rest => node.occurrences deep ++ Node.occurrencesAll deep rest

/-- The occurrences in the values of a dictionary literal. -/
def Node.occurrencesEntries (deep : Bool) : List (String × Node) → List Node
  | [] => []
  | (_, value) :: rest => value.occurrences deep ++ Node.occurrencesEntries deep rest

end

namespace Node

variable {α : Type}

mutual

/-- A walk over a node is a left fold over its occurrences. -/
theorem fold_eq_foldl (deep : Bool) (f : α → Node → α) (acc : α) (node : Node) :
    node.fold deep f acc = (node.occurrences deep).foldl f acc := by
  cases node with
  | literal | symbol | path | breaks | continues | nothing =>
      simp [fold, occurrences]
  | binary _ left _ right =>
      simp [fold, occurrences, fold_eq_foldl deep f _ left, fold_eq_foldl deep f _ right]
  | control _ left _ right =>
      simp [fold, occurrences, fold_eq_foldl deep f _ left, fold_eq_foldl deep f _ right]
  | assignment _ target _ value =>
      simp [fold, occurrences, fold_eq_foldl deep f _ target, fold_eq_foldl deep f _ value]
  | block _ items => simp [fold, occurrences, foldAll_eq_foldl deep f _ items]
  | list _ items => simp [fold, occurrences, foldAll_eq_foldl deep f _ items]
  | function _ _ _ _ body =>
      cases deep <;> simp [fold, occurrences, foldAll_eq_foldl _ f _ body]
  | call _ callee args _ =>
      simp [fold, occurrences, fold_eq_foldl deep f _ callee, foldAll_eq_foldl deep f _ args]
  | dict _ entries => simp [fold, occurrences, foldEntries_eq_foldl deep f _ entries]
  | prefixed _ _ operand _ => simp [fold, occurrences, fold_eq_foldl deep f _ operand]
  | suffixed _ _ operand _ => simp [fold, occurrences, fold_eq_foldl deep f _ operand]
  | index _ body key =>
      simp [fold, occurrences, fold_eq_foldl deep f _ body, fold_eq_foldl deep f _ key]
  | branch _ condition _ body otherwise =>
      cases otherwise with
      | none =>
          simp [fold, occurrences, fold_eq_foldl deep f _ condition,
            foldAll_eq_foldl deep f _ body]
      | some other =>
          simp [fold, occurrences, fold_eq_foldl deep f _ condition,
            foldAll_eq_foldl deep f _ body, fold_eq_foldl deep f _ other]
  | returns _ value =>
      cases value with
      | none => simp [fold, occurrences]
      | some value => simp [fold, occurrences, fold_eq_foldl deep f _ value]
  | endlessLoop _ _ body => simp [fold, occurrences, foldAll_eq_foldl deep f _ body]
  | whileLoop _ condition _ body =>
      simp [fold, occurrences, fold_eq_foldl deep f _ condition, foldAll_eq_foldl deep f _ body]

/-- A walk over some nodes is a left fold over their occurrences. -/
theorem foldAll_eq_foldl (deep : Bool) (f : α → Node → α) (acc : α) (nodes : List Node) :
    foldAll deep f acc nodes = (occurrencesAll deep nodes).foldl f acc := by
  cases nodes with
  | nil => simp [foldAll, occurrencesAll]
  | cons node rest =>
      simp [foldAll, occurrencesAll, fold_eq_foldl deep f _ node, foldAll_eq_foldl deep f _ rest]

theorem foldEntries_eq_foldl (deep : Bool) (f : α → Node → α) (acc : α)
    (entries : List (String × Node)) :
    foldEntries deep f acc entries = (occurrencesEntries deep entries).foldl f acc := by
  match entries with
  | [] => simp [foldEntries, occurrencesEntries]
  | (key, value) :: rest =>
      simp [foldEntries, occurrencesEntries, fold_eq_foldl deep f _ value,
        foldEntries_eq_foldl deep f _ rest]

end

@[simp]
theorem mem_occurrencesAll {deep : Bool} {nodes : List Node} {node : Node} :
    node ∈ occurrencesAll deep nodes ↔ ∃ item ∈ nodes, node ∈ item.occurrences deep := by
  induction nodes with
  | nil => simp [occurrencesAll]
  | cons item rest ih => simp [occurrencesAll, ih]

@[simp]
theorem mem_occurrencesEntries {deep : Bool} {entries : List (String × Node)} {node : Node} :
    node ∈ occurrencesEntries deep entries ↔
      ∃ entry ∈ entries, node ∈ entry.2.occurrences deep := by
  induction entries with
  | nil => simp [occurrencesEntries]
  | cons entry rest ih => simp [occurrencesEntries, ih]

theorem occurrencesAll_append (deep : Bool) (front back : List Node) :
    occurrencesAll deep (front ++ back) =
      occurrencesAll deep front ++ occurrencesAll deep back := by
  induction front with
  | nil => simp [occurrencesAll]
  | cons item rest ih => simp [occurrencesAll, ih]

@[simp]
theorem mem_occurrences_self (deep : Bool) (node : Node) : node ∈ node.occurrences deep := by
  unfold occurrences
  exact List.mem_cons_self

/-- The nodes directly below a node, those in the body of a function apart. -/
def parts : Node → List Node
  | .binary _ left _ right | .control _ left _ right => [left, right]
  | .assignment _ target _ value => [target, value]
  | .block _ items | .list _ items => items
  | .call _ callee args _ => callee :: args
  | .dict _ entries => entries.map (·.2)
  | .prefixed _ _ operand _ | .suffixed _ _ operand _ => [operand]
  | .index _ body key => [body, key]
  | .branch _ condition _ body otherwise => condition :: (body ++ otherwise.toList)
  | .returns _ value => value.toList
  | .endlessLoop _ _ body => body
  | .whileLoop _ condition _ body => condition :: body
  | _ => []

theorem occurrencesEntries_eq (deep : Bool) (entries : List (String × Node)) :
    occurrencesEntries deep entries = occurrencesAll deep (entries.map (·.2)) := by
  induction entries with
  | nil => rfl
  | cons entry rest ih => simp [occurrencesEntries, occurrencesAll, ih]

/-- A shallow walk meets a node and then its parts. -/
theorem occurrences_eq_parts (node : Node) :
    node.occurrences false = node :: occurrencesAll false node.parts := by
  cases node with
  | branch _ _ _ _ otherwise =>
      cases otherwise <;> simp [occurrences, parts, occurrencesAll, occurrencesAll_append]
  | returns _ value => cases value <;> simp [occurrences, parts, occurrencesAll]
  | dict _ entries => simp [occurrences, parts, occurrencesEntries_eq]
  | _ => simp [occurrences, parts, occurrencesAll]

theorem mem_occurrences_iff {node occurrence : Node} :
    occurrence ∈ node.occurrences false ↔
      occurrence = node ∨ ∃ part ∈ node.parts, occurrence ∈ part.occurrences false := by
  rw [occurrences_eq_parts, List.mem_cons, mem_occurrencesAll]

end Node

end Lehce

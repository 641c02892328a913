import Lehce.Proofs.Program.Headers

/-!
# Blocks of lines

`IsLaid` relates statements to lines: a body is a run of lines behind its header, of any
indentation greater than that of the header. It is read back whatever the indentations
are (`IsLaid.reads`). A line that is indented further than the block it comes in, without
being the first line of a body, is refused (`Strays.fails`).
-/

namespace Lehce

open Token (Kind Line)

/-- The lines of a statement, or of what stands behind the body of a branch, in some
surroundings. The lines that follow are indented by at most `limit`, so that the last body is
indented further. -/
inductive IsLaid : Int → Surrounding → Bool → Option Node → List Line → Prop where
  | simple {limit : Int} {place : Surrounding} {node : Node} {kinds : List Kind}
      (isSimple : node.IsSimple place kinds) :
      IsLaid limit place false (some node) [⟨place.indent, kinds⟩]
  | headed {limit indent : Int} {place : Surrounding} {continuing : Bool} {header : Header}
      {node : Node} {otherwise : Option Node} {kinds : List Kind}
      {items : List (Node × List Line)} {lines : List Line}
      (opens : header.Opens continuing kinds) (deeper : place.indent < indent)
      (clears : otherwise = none → limit < indent) (filled : items ≠ [])
      (itemsLaid : ∀ item ∈ items,
        IsLaid indent { header.inside place with indent } false (some item.1) item.2)
      (belongs : header.isBranch = false → otherwise = none)
      (otherwiseLaid : IsLaid limit place true otherwise lines)
      (same : node.bare =
        header.node (items.map fun item => item.1.bare) (otherwise.map Node.bare)) :
      IsLaid limit place continuing (some node)
        (⟨place.indent, kinds ++ [.operator .colon]⟩ :: (items.flatMap (·.2) ++ lines))
  | nothing {limit : Int} {place : Surrounding} : IsLaid limit place true none []

/-- A bound on the depth that reading some lines takes. -/
def weight : List Line → Nat
  | [] => 0
  | line :: lines => 8 * line.kinds.length + weight lines

@[simp]
theorem weight_nil : weight [] = 0 := rfl

@[simp]
theorem weight_cons (line : Line) (lines : List Line) :
    weight (line :: lines) = 8 * line.kinds.length + weight lines := rfl

@[simp]
theorem weight_append (front back : List Line) :
    weight (front ++ back) = weight front + weight back := by
  induction front with
  | nil => simp
  | cons line lines ih => simp only [List.cons_append, weight_cons, ih, Nat.add_assoc]

/-- Whether lines start at the indentation of some surroundings, and with the word that continues
a branch just when they are to. -/
def Leads (place : Surrounding) (continuing : Bool) (lines : List Line) : Prop :=
  ∃ kind kinds others, lines = ⟨place.indent, kind :: kinds⟩ :: others ∧
    (kind = .keyword .elseWord ↔ continuing = true)

/-- Whether the lines that follow a statement belong to nothing in it. -/
def Closes (limit : Int) (place : Surrounding) (following : List Line) : Prop :=
  ∀ line ∈ following.head?, line.indent ≤ limit ∧
    (line.indent = place.indent → line.kinds.head? ≠ some (.keyword .elseWord))

section Leading

variable {limit : Int} {place : Surrounding} {continuing : Bool} {node : Node}
  {kinds : List Kind} {lines following : List Line}

theorem Node.IsWritten.ne_elseWord {least : Nat} (written : node.IsWritten least kinds) :
    ∃ kind others, kinds = kind :: others ∧ kind ≠ .keyword .elseWord := by
  rcases written.opens with ⟨kind, others, rfl, opens⟩
  refine ⟨kind, others, rfl, ?_⟩
  rintro rfl
  cases opens

theorem Node.IsSimple.ne_elseWord (isSimple : node.IsSimple place kinds) :
    ∃ kind others, kinds = kind :: others ∧ kind ≠ .keyword .elseWord := by
  cases isSimple with
  | value written => exact written.ne_elseWord
  | assignment isTarget targetWritten =>
      rcases targetWritten.ne_elseWord with ⟨kind, others, rfl, other⟩
      exact ⟨kind, _, rfl, other⟩
  | breaks | continues | returns | returnsNothing => exact ⟨_, _, rfl, by simp⟩

theorem Header.Opens.elseWord_iff {header : Header} (opens : header.Opens continuing kinds) :
    ∃ kind others, kinds = kind :: others ∧ (kind = .keyword .elseWord ↔ continuing = true) := by
  cases opens with
  | branchBehind written =>
      rcases written.ne_elseWord with ⟨kind, others, rfl, other⟩
      exact ⟨kind, _, rfl, by simp [other]⟩
  | _ => exact ⟨_, _, rfl, by simp⟩

/-- The lines of a statement start with it. -/
theorem IsLaid.leads (laid : IsLaid limit place continuing (some node) lines) :
    Leads place continuing lines := by
  cases laid with
  | simple isSimple =>
      rcases isSimple.ne_elseWord with ⟨kind, others, rfl, other⟩
      exact ⟨kind, others, [], rfl, by simp [other]⟩
  | headed opens =>
      rcases opens.elseWord_iff with ⟨kind, others, rfl, iff⟩
      exact ⟨kind, _, _, rfl, iff⟩

theorem IsLaid.eq_nil (laid : IsLaid limit place true none lines) : lines = [] := by
  cases laid
  rfl

theorem Leads.weight_pos (leads : Leads place continuing lines) : 8 ≤ weight lines := by
  rcases leads with ⟨kind, kinds, others, rfl, -⟩
  simp only [weight_cons, List.length_cons]
  omega

/-- A statement closes what stands before it at its indentation. -/
theorem Leads.closes (leads : Leads place false lines) (bounded : place.indent ≤ limit) :
    Closes limit place (lines ++ following) := by
  rcases leads with ⟨kind, kinds, others, rfl, iff⟩
  rintro line ⟨⟩
  refine ⟨bounded, fun _ isElse => ?_⟩
  cases isElse
  simp at iff

theorem closes_nil : Closes limit place [] := by simp [Closes]

/-- What is indented less closes everything. -/
theorem closes_of_lt (ends : ∀ line ∈ following.head?, line.indent < place.indent)
    (bounded : place.indent ≤ limit) : Closes limit place following := by
  intro line first
  have less := ends line first
  exact ⟨by omega, fun same => by omega⟩

end Leading

/-- Whether a statement is read back from its lines. -/
def ReadsStatement (limit : Int) (place : Surrounding) (node : Node) (lines : List Line) : Prop :=
  ∀ ⦃depth : Nat⦄ ⦃stream : Stream⦄ ⦃following : List Line⦄,
    stream.Starts (lines ++ following) → Closes limit place following → weight lines < depth →
    ∃ result rest, result.bare = node.bare ∧ rest.Pauses following ∧
      readStatement depth place stream = .ok (result, rest)

/-- Whether what stands behind the body of a branch is read back from its lines. -/
def ReadsOtherwise (limit : Int) (place : Surrounding) (otherwise : Option Node)
    (lines : List Line) : Prop :=
  ∀ ⦃depth : Nat⦄ ⦃stream : Stream⦄ ⦃following : List Line⦄,
    stream.Pauses (lines ++ following) → Closes limit place following → weight lines < depth →
    ∃ result rest, result.map Node.bare = otherwise.map Node.bare ∧ rest.Pauses following ∧
      readOtherwise depth place stream = .ok (result, rest)

section Reading

variable {depth : Nat} {limit indent : Int} {place : Surrounding} {stream : Stream} {node : Node}
  {header : Header} {lines following : List Line} {items : List (Node × List Line)}
  {earlier : List Node} {start : Position}

/-- One statement of a block is read. -/
theorem readLines_step (reads : ReadsStatement limit place node lines)
    (leads : Leads place false lines) (awaits : stream.Awaits (lines ++ following))
    (closes : Closes limit place following) (enough : weight lines < depth) :
    ∃ result rest next, result.bare = node.bare ∧ rest.Pauses following ∧
      readLines (depth + 1) place start earlier stream =
        readLines depth place next (result :: earlier) rest := by
  rcases leads with ⟨kind, kinds, others, rfl, -⟩
  rcases awaits with ⟨token, after, found, -, starts⟩
  rcases reads starts closes enough with ⟨result, rest, same, pauses, read⟩
  refine ⟨result, rest, if earlier.isEmpty then token.position else start, same, pauses, ?_⟩
  rw [readLines]
  simp [found, read, pauses.atLineEnd, bind, Except.bind]

/-- The statements of a block are read one by one. -/
theorem readLines_items
    (reads : ∀ item ∈ items, ReadsStatement place.indent place item.1 item.2)
    (leads : ∀ item ∈ items, Leads place false item.2)
    (awaits : stream.Awaits (items.flatMap (·.2) ++ following))
    (closes : Closes place.indent place following)
    (enough : weight (items.flatMap (·.2)) + 1 < depth) :
    ∃ (left : Nat) (results : List Node) (rest : Stream) (next : Position),
      results.map Node.bare = items.map (fun item => item.1.bare) ∧ rest.Awaits following ∧
      (items = [] ∧ rest = stream ∨ rest.Pauses following) ∧
      depth ≤ left + weight (items.flatMap (·.2)) ∧
      readLines depth place start earlier stream =
        readLines left place next (results.reverse ++ earlier) rest := by
  induction items generalizing depth start earlier stream with
  | nil => exact ⟨depth, [], stream, start, rfl, awaits, .inl ⟨rfl, rfl⟩, by simp, rfl⟩
  | cons item items ih =>
      have itemLeads := leads item List.mem_cons_self
      have heavy := itemLeads.weight_pos
      simp only [List.flatMap_cons, List.append_assoc, weight_append] at awaits enough ⊢
      obtain ⟨depth, rfl⟩ : ∃ left, depth = left + 1 := ⟨depth - 1, by omega⟩
      have itemCloses : Closes place.indent place (items.flatMap (·.2) ++ following) := by
        rcases items with _ | ⟨next, items⟩
        · exact closes
        · simpa using (leads next (by simp)).closes (Int.le_refl _)
      rcases @readLines_step depth _ _ _ _ _ _ earlier start (reads item List.mem_cons_self)
          itemLeads awaits itemCloses (by omega) with
        ⟨result, rest, next, same, pauses, read⟩
      rcases @ih depth _ (result :: earlier) next
          (fun item member => reads item (List.mem_cons_of_mem _ member))
          (fun item member => leads item (List.mem_cons_of_mem _ member)) pauses.awaits
          (by omega) with
        ⟨left, results, last, lastStart, sames, lastAwaits, lastPauses, least, readOthers⟩
      refine ⟨left, result :: results, last, lastStart, by simp [same, sames], lastAwaits, .inr ?_,
        by omega, ?_⟩
      · rcases lastPauses with ⟨rfl, rfl⟩ | lastPauses
        · exact pauses
        · exact lastPauses
      · rw [read, readOthers]
        simp

/-- A block ends where nothing follows, or something that is indented less. -/
theorem readLines_ended (awaits : stream.Awaits following)
    (ends : ∀ line ∈ following.head?, line.indent < place.indent) :
    readLines (depth + 1) place start earlier stream = .ok ((start, earlier.reverse), stream) := by
  rw [readLines]
  cases following with
  | nil =>
      have last : stream.nextLine? = none := awaits
      simp [last]
  | cons line following =>
      rcases awaits with ⟨token, after, found, -, -⟩
      simp [found, ends line rfl]

/-- A line that is indented too far is refused. -/
theorem readLines_stray {line : Line} (awaits : stream.Awaits (line :: following))
    (deeper : place.indent < line.indent) :
    ∃ position, readLines (depth + 1) place start earlier stream =
      .error (.located .indentationIssue position) := by
  rcases awaits with ⟨token, after, found, -, -⟩
  refine ⟨token.position, ?_⟩
  rw [readLines]
  simp [found, deeper, Int.le_of_lt deeper]

/-- A body is read by the lines that follow its header. -/
theorem readBody_lines {tail : List Token} {width : Int}
    (holds : stream.Holds [.operator .colon] tail width) (remain : Remain lines tail)
    (leads : Leads { place with indent } false lines) (deeper : place.indent < indent) :
    ∃ after start, after.Pauses lines ∧
      readBody (depth + 1) place stream =
        readLines depth { place with indent } start [] after := by
  rcases holds.accept false with ⟨after, accepted, ended⟩
  have pauses : after.Pauses lines := ⟨_, _, ended, remain⟩
  rcases leads with ⟨kind, kinds, others, rfl, -⟩
  rcases pauses.awaits with ⟨token, line, found, -, -⟩
  refine ⟨after, after.here false, pauses, ?_⟩
  rw [readBody]
  simp [accepted, pauses.atLineEnd, found, Int.not_le.2 deeper]

/-- A body is read back from its lines. -/
theorem readBody_laid {tail : List Token} {width : Int}
    (holds : stream.Holds [.operator .colon] tail width)
    (remain : Remain (items.flatMap (·.2) ++ following) tail) (deeper : place.indent < indent)
    (filled : items ≠ [])
    (reads : ∀ item ∈ items, ReadsStatement indent { place with indent } item.1 item.2)
    (leads : ∀ item ∈ items, Leads { place with indent } false item.2)
    (ends : ∀ line ∈ following.head?, line.indent < indent)
    (enough : weight (items.flatMap (·.2)) + 2 < depth) :
    ∃ start results rest, results.map Node.bare = items.map (fun item => item.1.bare) ∧
      rest.Pauses following ∧ readBody depth place stream = .ok ((start, results), rest) := by
  obtain ⟨depth, rfl⟩ : ∃ left, depth = left + 1 := ⟨depth - 1, by omega⟩
  have bodyLeads : Leads { place with indent } false (items.flatMap (·.2) ++ following) := by
    rcases items with _ | ⟨item, items⟩
    · exact absurd rfl filled
    · rcases leads item List.mem_cons_self with ⟨kind, kinds, others, same, iff⟩
      exact ⟨kind, kinds, others ++ (items.flatMap (·.2) ++ following), by simp [same], iff⟩
  rcases @readBody_lines depth _ _ _ _ _ _ holds remain bodyLeads deeper with
    ⟨after, start, pauses, read⟩
  have closes : Closes indent { place with indent } following :=
    closes_of_lt ends (Int.le_refl _)
  rcases @readLines_items depth { place with indent } _ _ _ [] start reads leads pauses.awaits
      closes (by omega) with
    ⟨left, results, rest, next, same, awaits, lastPauses, least, readAll⟩
  obtain ⟨left, rfl⟩ : ∃ fewer, left = fewer + 1 := ⟨left - 1, by omega⟩
  rcases lastPauses with ⟨empty, -⟩ | lastPauses
  · exact absurd empty filled
  · refine ⟨next, results, rest, same, lastPauses, ?_⟩
    rw [read, readAll, readLines_ended awaits ends]
    simp

/-- A header with its body, and what belongs behind it, is read back. -/
theorem readHeaded_laid {tail : List Token} {width : Int} {otherwise : Option Node}
    {build : Position → List Node → Option Node → Node} (builds : header.Builds build)
    (holds : stream.Holds [.operator .colon] tail width)
    (remain : Remain (items.flatMap (·.2) ++ (lines ++ following)) tail)
    (deeper : place.indent < indent) (clears : otherwise = none → limit < indent)
    (filled : items ≠ [])
    (reads : ∀ item ∈ items,
      ReadsStatement indent { header.inside place with indent } item.1 item.2)
    (leads : ∀ item ∈ items, Leads { header.inside place with indent } false item.2)
    (belongs : header.isBranch = false → otherwise = none)
    (otherwiseLaid : IsLaid limit place true otherwise lines)
    (readsOtherwise : ReadsOtherwise limit place otherwise lines)
    (closes : Closes limit place following)
    (enough : weight (items.flatMap (·.2)) + weight lines + 2 < depth) :
    ∃ result rest, result.bare =
        header.node (items.map fun item => item.1.bare) (otherwise.map Node.bare) ∧
      rest.Pauses following ∧ readHeaded depth place header build stream = .ok (result, rest) := by
  have sameIndent : (header.inside place).indent = place.indent := by cases header <;> rfl
  have ends : ∀ line ∈ (lines ++ following).head?, line.indent < indent := by
    cases otherwise with
    | none =>
        cases otherwiseLaid.eq_nil
        intro line first
        exact Int.lt_of_le_of_lt (closes line first).1 (clears rfl)
    | some other =>
        rcases otherwiseLaid.leads with ⟨kind, kinds, others, rfl, -⟩
        rintro line ⟨⟩
        exact deeper
  have bodyFits : weight (items.flatMap (·.2)) + 2 < depth := by omega
  have restFits : weight lines < depth := by omega
  rcases readBody_laid holds remain (sameIndent ▸ deeper) filled reads leads ends bodyFits with
    ⟨start, results, rest, same, pauses, read⟩
  cases isBranch : header.isBranch with
  | false =>
      cases belongs isBranch
      cases otherwiseLaid.eq_nil
      refine ⟨build start results none, rest, by simp [builds start results none, same], pauses, ?_⟩
      rw [readHeaded_of_not_isBranch isBranch, read]
      rfl
  | true =>
      rcases readsOtherwise pauses closes restFits with
        ⟨other, last, otherSame, lastPauses, readOther⟩
      have built := builds start results other
      refine ⟨build start results other, last, by simp [built, same, otherSame], lastPauses, ?_⟩
      simp [readHeaded, isBranch, read, readOther, bind, Except.bind]
      rfl

theorem readsStatement_simple {kinds : List Kind} (isSimple : node.IsSimple place kinds) :
    ReadsStatement limit place node [⟨place.indent, kinds⟩] := by
  intro depth stream following starts closes enough
  rcases starts with ⟨line, others, tail, split, holds, remain⟩
  cases split
  simp only [weight_cons, weight_nil] at enough
  obtain ⟨depth, rfl⟩ : ∃ left, depth = left + 1 := ⟨depth - 1, by omega⟩
  rcases @readStatement_simple depth _ _ _ _ _ _ isSimple holds remain.lineEnds (by omega) with
    ⟨result, rest, same, ended, read⟩
  exact ⟨result, rest, same, ⟨_, _, ended, remain⟩, read⟩

/-- The end of a branch is the end of its lines. -/
theorem readsOtherwise_nothing : ReadsOtherwise limit place none [] := by
  intro depth stream following pauses closes _
  refine ⟨none, stream, rfl, pauses, ?_⟩
  have awaits := pauses.awaits
  rw [readOtherwise]
  cases following with
  | nil =>
      have none : stream.nextLine? = none := awaits
      simp [none]
      rfl
  | cons line following =>
      rcases awaits with ⟨token, after, found, first, -⟩
      have other : line.indent ≠ place.indent ∨ token.isKeyword .elseWord = false := by
        by_cases same : line.indent = place.indent
        · have noElse := (closes line rfl).2 same
          refine .inr ?_
          unfold Token.isKeyword
          split
          · rename_i word isWord
            simp_all
          · rfl
        · exact .inl same
      simp only [found]
      rw [if_pos other]
      rfl

/-- Whether a statement, or what stands behind the body of a branch, is read back. -/
def Reads (limit : Int) (place : Surrounding) : Bool → Option Node → List Line → Prop
  | true, otherwise, lines => ReadsOtherwise limit place otherwise lines
  | false, some node, lines => ReadsStatement limit place node lines
  | false, none, _ => False

/-- Statements are read back from their lines, whatever the indentations of their bodies are. -/
theorem IsLaid.reads {continuing : Bool} {piece : Option Node}
    (laid : IsLaid limit place continuing piece lines) :
    Reads limit place continuing piece lines := by
  induction laid with
  | simple isSimple => exact readsStatement_simple isSimple
  | nothing => exact readsOtherwise_nothing
  | @headed limit indent place continuing header node otherwise kinds items lines opens deeper
      clears filled itemsLaid belongs otherwiseLaid same itemsRead otherwiseReads =>
      have leads : ∀ item ∈ items, Leads { header.inside place with indent } false item.2 :=
        fun item member => (itemsLaid item member).leads
      cases continuing with
      | false =>
          intro depth stream following starts closes enough
          rcases starts with ⟨line, others, tail, split, holds, remain⟩
          cases split
          simp only [weight_cons, weight_append, List.length_append, List.length_singleton]
            at enough
          have fits : 8 * kinds.length + 2 ≤ depth := by omega
          rcases @readStatement_headed depth place _ _ _ _ _ opens holds fits with
            ⟨opened, left, build, holds, least, builds, read⟩
          have ample : weight (items.flatMap (·.2)) + weight lines + 2 < left := by omega
          rcases readHeaded_laid builds holds (by simpa using remain) deeper clears filled itemsRead
              leads belongs otherwiseLaid otherwiseReads closes ample with
            ⟨result, rest, resultSame, pauses, readAll⟩
          exact ⟨result, rest, resultSame.trans same.symm, pauses, read.trans readAll⟩
      | true =>
          intro depth stream following pauses closes enough
          simp only [weight_cons, weight_append, List.length_append, List.length_singleton]
            at enough
          have fits : 8 * kinds.length + 2 ≤ depth := by omega
          rcases pauses.awaits with ⟨token, line, found, first, starts⟩
          rcases starts with ⟨_, _, tail, split, holds, remain⟩
          cases split
          have word : kinds.head? = some token.kind := by
            rcases opens.elseWord_iff with ⟨kind, others, rfl, -⟩
            exact first
          rcases readOtherwise_headed opens found holds word fits with
            ⟨opened, left, build, holds, least, builds, read⟩
          have ample : weight (items.flatMap (·.2)) + weight lines + 2 < left := by omega
          rcases readHeaded_laid builds holds (by simpa using remain) deeper clears filled itemsRead
              leads belongs otherwiseLaid otherwiseReads closes ample with
            ⟨result, rest, resultSame, lastPauses, readAll⟩
          refine ⟨some result, rest, by simp [resultSame, same], lastPauses, ?_⟩
          rw [read, readAll]
          rfl

end Reading

/-- Where a line may come too far indented: in a block, in a statement, or in what stands behind
the body of a branch. -/
inductive Part where
  | block
  | piece (continuing : Bool)

/-- The lines in front of a line that is indented further than the block that it comes in. It is
indented less than the bodies that end before it. -/
inductive Strays (stray : Line) : Surrounding → Part → List Line → Prop where
  | here {place : Surrounding} {items : List (Node × List Line)} {node : Node} {lines : List Line}
      (itemsLaid : ∀ item ∈ items, IsLaid place.indent place false (some item.1) item.2)
      (laid : IsLaid stray.indent place false (some node) lines)
      (deeper : place.indent < stray.indent) :
      Strays stray place .block (items.flatMap (·.2) ++ lines)
  | within {place : Surrounding} {items : List (Node × List Line)} {lines : List Line}
      (itemsLaid : ∀ item ∈ items, IsLaid place.indent place false (some item.1) item.2)
      (strays : Strays stray place (.piece false) lines) :
      Strays stray place .block (items.flatMap (·.2) ++ lines)
  | body {indent : Int} {place : Surrounding} {continuing : Bool} {header : Header}
      {kinds : List Kind} {lines : List Line} (opens : header.Opens continuing kinds)
      (deeper : place.indent < indent)
      (strays : Strays stray { header.inside place with indent } .block lines) :
      Strays stray place (.piece continuing) (⟨place.indent, kinds ++ [.operator .colon]⟩ :: lines)
  | otherwise {indent : Int} {place : Surrounding} {continuing : Bool} {header : Header}
      {kinds : List Kind} {items : List (Node × List Line)} {lines : List Line}
      (opens : header.Opens continuing kinds) (isBranch : header.isBranch = true)
      (deeper : place.indent < indent) (filled : items ≠ [])
      (itemsLaid : ∀ item ∈ items,
        IsLaid indent { header.inside place with indent } false (some item.1) item.2)
      (strays : Strays stray place (.piece true) lines) :
      Strays stray place (.piece continuing)
        (⟨place.indent, kinds ++ [.operator .colon]⟩ :: (items.flatMap (·.2) ++ lines))

/-- Whether a reader refuses to go on because of an indentation. -/
def RefusesIndentation {α : Type} (read : Except Fault α) : Prop :=
  ∃ position, read = .error (.located .indentationIssue position)

/-- Whether a line is refused where it comes after some lines. -/
def Refuses (stray : Line) (place : Surrounding) : Part → List Line → Prop
  | .block, lines => ∀ ⦃depth stream following⦄ (start : Position) (earlier : List Node),
      Stream.Awaits stream (lines ++ stray :: following) → weight lines + 1 < depth →
      RefusesIndentation (readLines depth place start earlier stream)
  | .piece false, lines => ∀ ⦃depth stream following⦄,
      Stream.Starts stream (lines ++ stray :: following) → weight lines < depth →
      RefusesIndentation (readStatement depth place stream)
  | .piece true, lines => ∀ ⦃depth stream following⦄,
      Stream.Pauses stream (lines ++ stray :: following) → weight lines < depth →
      RefusesIndentation (readOtherwise depth place stream)

section Refusing

variable {depth : Nat} {stray : Line} {place : Surrounding} {stream : Stream} {part : Part}
  {lines following : List Line} {items : List (Node × List Line)} {indent : Int}

theorem RefusesIndentation.bind {α β : Type} {read : Except Fault α} {next : α → Except Fault β}
    (refuses : RefusesIndentation read) : RefusesIndentation (read >>= next) := by
  rcases refuses with ⟨position, rfl⟩
  exact ⟨position, rfl⟩

/-- Lines at the start of other lines start them. -/
theorem Leads.append {continuing : Bool} {front back : List Line}
    (leads : Leads place continuing front) : Leads place continuing (front ++ back) := by
  rcases leads with ⟨kind, kinds, others, rfl, iff⟩
  exact ⟨kind, kinds, others ++ back, rfl, iff⟩

/-- The lines before a stray one start where their part does. -/
theorem Strays.leads (strays : Strays stray place part lines) :
    Leads place (part matches .piece true) lines := by
  induction strays with
  | @here place items node lines itemsLaid laid deeper =>
      rcases items with _ | ⟨item, items⟩
      · exact laid.leads
      · simpa using (itemsLaid item List.mem_cons_self).leads.append
  | @within place items lines itemsLaid strays ih =>
      rcases items with _ | ⟨item, items⟩
      · exact ih
      · simpa using (itemsLaid item List.mem_cons_self).leads.append
  | @body indent place continuing header kinds lines opens =>
      rcases opens.elseWord_iff with ⟨kind, others, rfl, iff⟩
      exact ⟨kind, _, _, rfl, by cases continuing <;> simpa using iff⟩
  | @otherwise indent place continuing header kinds items lines opens =>
      rcases opens.elseWord_iff with ⟨kind, others, rfl, iff⟩
      exact ⟨kind, _, _, rfl, by cases continuing <;> simpa using iff⟩

/-- A block whose next statement is refused is refused. -/
theorem refuses_readLines {start : Position} {earlier : List Node}
    (refuses : Refuses stray place (.piece false) lines) (leads : Leads place false lines)
    (awaits : stream.Awaits (lines ++ stray :: following)) (enough : weight lines < depth) :
    RefusesIndentation (readLines (depth + 1) place start earlier stream) := by
  rcases leads with ⟨kind, kinds, others, rfl, -⟩
  rcases awaits with ⟨token, after, found, -, starts⟩
  rcases refuses starts enough with ⟨position, refused⟩
  refine ⟨position, ?_⟩
  rw [readLines]
  simp [found, refused, bind, Except.bind]

/-- A statement is refused when what stands behind its header is. -/
theorem refuses_headed {continuing : Bool} {header : Header} {kinds : List Kind}
    (opens : header.Opens continuing kinds)
    (refuses : ∀ ⦃left build opened tail width following⦄,
      Stream.Holds opened [.operator .colon] tail width →
      Remain (lines ++ stray :: following) tail → weight lines + 3 < left →
      RefusesIndentation (readHeaded left place header build opened)) :
    Refuses stray place (.piece continuing)
      (⟨place.indent, kinds ++ [.operator .colon]⟩ :: lines) := by
  cases continuing with
  | false =>
      intro depth stream following starts enough
      simp only [weight_cons, List.length_append, List.length_singleton] at enough
      have fits : 8 * kinds.length + 2 ≤ depth := by omega
      rcases starts with ⟨_, _, tail, split, holds, remain⟩
      cases split
      rcases @readStatement_headed depth place _ _ _ _ _ opens holds fits with
        ⟨opened, left, build, holds, least, -, read⟩
      have ample : weight lines + 3 < left := by omega
      exact read ▸ refuses holds remain ample
  | true =>
      intro depth stream following pauses enough
      simp only [weight_cons, List.length_append, List.length_singleton] at enough
      have fits : 8 * kinds.length + 2 ≤ depth := by omega
      rcases pauses.awaits with ⟨token, line, found, first, starts⟩
      rcases starts with ⟨_, _, tail, split, holds, remain⟩
      cases split
      have word : kinds.head? = some token.kind := by
        rcases opens.elseWord_iff with ⟨kind, others, rfl, -⟩
        exact first
      rcases readOtherwise_headed opens found holds word fits with
        ⟨opened, left, build, holds, least, -, read⟩
      have ample : weight lines + 3 < left := by omega
      rw [read]
      exact (refuses holds remain ample).bind

/-- A line that is indented further than its block is refused. -/
theorem Strays.refuses (strays : Strays stray place part lines) :
    Refuses stray place part lines := by
  induction strays with
  | @here place items node lines itemsLaid laid deeper =>
      intro depth stream following start earlier awaits enough
      rw [weight_append] at enough
      rw [List.append_assoc] at awaits
      have heavy := laid.leads.weight_pos
      have closes : Closes stray.indent place (stray :: following) := by
        rintro line ⟨⟩
        exact ⟨Int.le_refl _, fun same => by omega⟩
      have fits : weight (items.flatMap (·.2)) + 1 < depth := by omega
      rcases @readLines_items depth place stream _ items earlier start
          (fun item member => (itemsLaid item member).reads)
          (fun item member => (itemsLaid item member).leads) awaits
          (laid.leads.closes (Int.le_refl _)) fits with
        ⟨left, results, rest, next, -, restAwaits, -, least, read⟩
      obtain ⟨left, rfl⟩ : ∃ fewer, left = fewer + 2 := ⟨left - 2, by omega⟩
      have lineFits : weight lines < left + 1 := by omega
      rcases @readLines_step (left + 1) _ place rest node lines _ (results.reverse ++ earlier) next
          laid.reads laid.leads restAwaits closes lineFits with
        ⟨result, last, lastStart, -, pauses, readLast⟩
      rw [read, readLast]
      exact readLines_stray pauses.awaits deeper
  | @within place items lines itemsLaid strays refuses =>
      intro depth stream following start earlier awaits enough
      rw [weight_append] at enough
      rw [List.append_assoc] at awaits
      have fits : weight (items.flatMap (·.2)) + 1 < depth := by omega
      rcases @readLines_items depth place stream _ items earlier start
          (fun item member => (itemsLaid item member).reads)
          (fun item member => (itemsLaid item member).leads) awaits
          (strays.leads.closes (Int.le_refl _)) fits with
        ⟨left, results, rest, next, -, restAwaits, -, least, read⟩
      obtain ⟨left, rfl⟩ : ∃ fewer, left = fewer + 1 := ⟨left - 1, by omega⟩
      have lineFits : weight lines < left := by omega
      rw [read]
      exact refuses_readLines refuses strays.leads restAwaits lineFits
  | @body indent place continuing header kinds lines opens deeper strays refuses =>
      refine refuses_headed opens ?_
      intro left build opened tail width following holds remain ample
      have sameIndent : (header.inside place).indent = place.indent := by cases header <;> rfl
      obtain ⟨left, rfl⟩ : ∃ fewer, left = fewer + 1 := ⟨left - 1, by omega⟩
      rcases @readBody_lines left indent (header.inside place) _ _ _ _ holds remain
          strays.leads.append (sameIndent ▸ deeper) with
        ⟨after, start, pauses, read⟩
      have bodyFits : weight lines + 1 < left := by omega
      refine RefusesIndentation.bind ?_
      rw [read]
      exact refuses start [] pauses.awaits bodyFits
  | @otherwise indent place continuing header kinds items lines opens isBranch deeper filled
      itemsLaid strays refuses =>
      refine refuses_headed opens ?_
      intro left build opened tail width following holds remain ample
      rw [weight_append] at ample
      have sameIndent : (header.inside place).indent = place.indent := by cases header <;> rfl
      have ends : ∀ line ∈ (lines ++ stray :: following).head?, line.indent < indent := by
        rcases strays.leads with ⟨kind, others, more, rfl, -⟩
        rintro line ⟨⟩
        exact deeper
      have bodyFits : weight (items.flatMap (·.2)) + 2 < left := by omega
      have restFits : weight lines < left := by omega
      rcases readBody_laid holds (by simpa using remain) (sameIndent ▸ deeper) filled
          (fun item member => (itemsLaid item member).reads)
          (fun item member => (itemsLaid item member).leads) ends bodyFits with
        ⟨start, results, rest, -, pauses, read⟩
      rcases refuses pauses restFits with ⟨position, refused⟩
      refine ⟨position, ?_⟩
      simp [readHeaded, isBranch, read, refused, bind, Except.bind]

end Refusing

end Lehce

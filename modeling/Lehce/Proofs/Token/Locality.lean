import Lehce.Proofs.Token.Segmentation

/-!
# What a step of scanning looks at

A step of scanning looks no further than it reads, but for the few characters that tell where
a word, a numeral or a line ends; and a colon ends all of these. So a step that stops in front
of a colon, or before, is the same step whatever the text behind that colon is
(`Shares.scanStep`).
-/

namespace Lehce.Token

/-- Whether two texts are the same up to a colon, behind which two given texts follow. -/
inductive Shares (behind other : List Char) : List Char → List Char → Prop where
  | colon : Shares behind other (':' :: behind) (':' :: other)
  | cons (c : Char) {text twin : List Char} (shares : Shares behind other text twin) :
      Shares behind other (c :: text) (c :: twin)

variable {behind other text twin : List Char}

theorem lineLength_cons (c : Char) (rest : List Char) (n : Nat) :
    lineLength (c :: rest) n =
      if c = '\n' ∨ c = '\r' ∧ rest.head? = some '\n' then n else lineLength rest (n + 1) := by
  by_cases feed : c = '\n'
  · simp [lineLength, feed]
  · by_cases returned : c = '\r'
    · rcases rest with _ | ⟨d, rest⟩
      · simp [lineLength, returned]
      · by_cases second : d = '\n' <;> simp [lineLength, returned, second]
    · simp [lineLength, feed, returned]

theorem blanks_cons (c : Char) (rest : List Char) :
    blanks (c :: rest) =
      if c = '\r' ∧ rest.head? = some '\n' then (0, 0)
      else if c = '\t' then ((blanks rest).1 + tabWidth, (blanks rest).2 + 1)
      else if c = ' ' ∨ c = '\r' then ((blanks rest).1 + 1, (blanks rest).2 + 1)
      else (0, 0) := by
  by_cases returned : c = '\r'
  · rcases rest with _ | ⟨d, rest⟩
    · simp [blanks, returned]
    · by_cases second : d = '\n' <;> simp [blanks, returned, second]
  · by_cases tab : c = '\t'
    · simp [blanks, tab]
    · by_cases space : c = ' ' <;> simp [blanks, returned, tab, space]

theorem closeComment_cons (c : Char) (rest : List Char) (line column : Nat) :
    closeComment (c :: rest) line column =
      if c = '*' ∧ rest.head? = some '/' then .ok ⟨rest.tail, line, column + 2⟩
      else if c = '\n' then closeComment rest (line + 1) 0
      else closeComment rest line (column + 1) := by
  by_cases star : c = '*'
  · rcases rest with _ | ⟨d, rest⟩
    · simp [closeComment, star]
    · by_cases second : d = '/' <;> simp [closeComment, star, second]
  · by_cases feed : c = '\n' <;> simp [closeComment, star, feed]

theorem closeText_cons {delimiter c : Char} (bare : c ≠ '\\') (rest : List Char)
    (line column : Nat) (content : List Char) :
    closeText delimiter (c :: rest) line column content =
      if c = delimiter then .ok (content.reverse, ⟨rest, line, column + 1⟩)
      else if c = '\n' then closeText delimiter rest (line + 1) 0 (c :: content)
      else closeText delimiter rest line (column + 1) (c :: content) := by
  simp [closeText]

theorem length_of_closeComment {line column : Nat} {next : Cursor}
    (closed : closeComment text line column = .ok next) : next.rest.length < text.length := by
  fun_induction closeComment text line column with
  | case1 => cases closed
  | case2 rest =>
      cases closed
      exact Nat.lt_add_of_pos_right (n := rest.length) (k := 2) (by decide)
  | case3 _ _ _ ih | case4 _ _ _ _ _ _ ih => exact Nat.lt_succ_of_lt (ih closed)

theorem length_of_closeText {delimiter : Char} {line column : Nat} {earlier content : List Char}
    {next : Cursor} (closed : closeText delimiter text line column earlier = .ok (content, next)) :
    next.rest.length < text.length := by
  fun_induction closeText delimiter text line column earlier with
  | case1 => cases closed
  | case2 => cases closed
  | case3 _ _ _ _ ih | case4 _ _ _ _ _ _ ih =>
      exact Nat.lt_succ_of_lt (Nat.lt_succ_of_lt (ih closed))
  | case5 rest =>
      cases closed
      exact Nat.lt_succ_self _
  | case6 _ _ _ _ _ _ ih | case7 _ _ _ _ _ _ _ _ ih => exact Nat.lt_succ_of_lt (ih closed)

namespace Shares

theorem append (front behind other : List Char) :
    Shares behind other (front ++ ':' :: behind) (front ++ ':' :: other) := by
  induction front with
  | nil => exact .colon
  | cons c front ih => exact .cons c ih

theorem length_lt (shares : Shares behind other text twin) : behind.length < text.length := by
  induction shares with
  | colon => exact Nat.lt_succ_self _
  | cons c shares ih => exact Nat.lt_succ_of_lt ih

theorem head (shares : Shares behind other text twin) : text.head? = twin.head? := by
  cases shares <;> rfl

/-- A shared text that starts with another character than a colon goes on shared. -/
theorem tail {c : Char} (shares : Shares behind other (c :: text) twin) (noColon : c ≠ ':') :
    ∃ rest, twin = c :: rest ∧ Shares behind other text rest := by
  cases shares with
  | colon => exact absurd rfl noColon
  | cons c shares => exact ⟨_, rfl, shares⟩

theorem takeWhile (shares : Shares behind other text twin) (holds : Char → Bool)
    (stops : holds ':' = false) :
    text.takeWhile holds = twin.takeWhile holds ∧
      Shares behind other (text.drop (text.takeWhile holds).length)
        (twin.drop (twin.takeWhile holds).length) := by
  induction shares with
  | colon => simpa [stops] using .colon
  | cons c shares ih =>
      by_cases passes : holds c = true
      · simpa [passes] using ih
      · simpa [passes] using .cons c shares

theorem indentation (shares : Shares behind other text twin) :
    indentation text = indentation twin ∧
      Shares behind other (text.drop (Token.indentation text).2)
        (twin.drop (Token.indentation twin).2) := by
  induction shares with
  | colon => exact ⟨rfl, .colon⟩
  | @cons c text twin shares ih =>
      by_cases space : c = ' '
      · subst space
        simpa [Token.indentation, ih.1] using ih.2
      · by_cases tab : c = '\t'
        · subst tab
          simpa [Token.indentation, ih.1] using ih.2
        · simpa [Token.indentation, space, tab] using .cons c shares

theorem blanks (shares : Shares behind other text twin) :
    blanks text = blanks twin ∧
      Shares behind other (text.drop (Token.blanks text).2) (twin.drop (Token.blanks twin).2) := by
  induction shares with
  | colon => exact ⟨rfl, .colon⟩
  | cons c shares ih =>
      simp only [blanks_cons, ← shares.head]
      split
      · exact ⟨rfl, .cons c shares⟩
      · split
        · exact ⟨by rw [ih.1], ih.2⟩
        · split
          · exact ⟨by rw [ih.1], ih.2⟩
          · exact ⟨rfl, .cons c shares⟩

/-- A line that ends in front of the colon ends there whatever follows it. -/
theorem lineLength (shares : Shares behind other text twin) {n m : Nat}
    (measured : lineLength text n = n + m) (inside : behind.length < text.length - m) :
    Token.lineLength twin n = n + m ∧ Shares behind other (text.drop m) (twin.drop m) := by
  induction shares generalizing n m with
  | colon =>
      rcases lineLength_spec behind (n + 1) with ⟨front, more, whole, -, -, long⟩
      rw [lineLength_cons, if_neg (by simp), long] at measured
      simp only [List.length_cons] at inside
      omega
  | @cons c text twin shares ih =>
      rw [lineLength_cons] at measured ⊢
      rw [← shares.head]
      split at measured
      · rename_i ended
        rw [if_pos ended]
        obtain rfl : m = 0 := by omega
        exact ⟨rfl, .cons c shares⟩
      · rename_i open_
        rcases lineLength_spec text (n + 1) with ⟨front, more, -, -, -, long⟩
        obtain ⟨m, rfl⟩ : ∃ k, m = k + 1 := ⟨m - 1, by omega⟩
        rw [if_neg open_]
        have later := ih (n := n + 1) (m := m) (by omega)
          (by simp only [List.length_cons] at inside; omega)
        exact ⟨by omega, later.2⟩

/-- A comment that is closed in front of the colon is closed there whatever follows it. -/
theorem closeComment (shares : Shares behind other text twin) {line column : Nat} {next : Cursor}
    (closed : closeComment text line column = .ok next)
    (inside : behind.length < next.rest.length) :
    ∃ rest, Token.closeComment twin line column = .ok ⟨rest, next.line, next.column⟩ ∧
      Shares behind other next.rest rest := by
  induction shares generalizing line column with
  | colon =>
      have shorter := length_of_closeComment closed
      rw [List.length_cons] at shorter
      omega
  | @cons c text twin shares ih =>
      rw [closeComment_cons] at closed ⊢
      rw [← shares.head]
      split at closed
      · rename_i mark
        rw [if_pos mark]
        cases closed
        rcases text with _ | ⟨d, text⟩
        · cases mark.2
        · cases mark.2
          rcases shares.tail (by decide) with ⟨rest, rfl, later⟩
          exact ⟨rest, rfl, later⟩
      · rename_i open_
        rw [if_neg open_]
        split at closed
        · rename_i feed
          rw [if_pos feed]
          exact ih closed
        · rename_i noFeed
          rw [if_neg noFeed]
          exact ih closed

/-- A text that is closed in front of the colon is closed there whatever follows it. -/
theorem closeText {delimiter : Char} (shares : Shares behind other text twin) {line column : Nat}
    {earlier content : List Char} {next : Cursor}
    (closed : closeText delimiter text line column earlier = .ok (content, next))
    (inside : behind.length < next.rest.length) :
    ∃ rest, Token.closeText delimiter twin line column earlier =
        .ok (content, ⟨rest, next.line, next.column⟩) ∧ Shares behind other next.rest rest := by
  fun_induction Token.closeText delimiter text line column earlier generalizing twin with
  | case1 => cases closed
  | case2 => cases closed
  | case3 line column earlier rest ih =>
      cases shares with
      | cons _ shares =>
          cases shares with
          | cons _ shares =>
              simp only [Token.closeText]
              exact ih shares closed
  | case4 line column earlier c rest noFeed ih =>
      cases shares with
      | cons _ shares =>
          cases shares with
          | colon =>
              have shorter := length_of_closeText closed
              omega
          | cons _ shares =>
              simp only [Token.closeText]
              exact ih shares closed
  | case5 rest line column earlier bare =>
      cases closed
      cases shares with
      | colon => exact absurd inside (Nat.lt_irrefl _)
      | @cons _ _ twin shares => exact ⟨twin, by rw [closeText_cons bare]; simp, shares⟩
  | case6 rest line column earlier bare open_ ih =>
      cases shares with
      | cons _ shares =>
          rw [closeText_cons (by decide), if_neg open_, if_pos rfl]
          exact ih shares closed
  | case7 c rest line column earlier bare open_ noFeed ih =>
      cases shares with
      | colon =>
          have shorter := length_of_closeText closed
          omega
      | cons _ shares =>
          rw [closeText_cons bare, if_neg open_, if_neg noFeed]
          exact ih shares closed

end Shares

/-- Whether two runs passed over the same characters, in front of texts that are shared. -/
structure Run.Shares (behind other : List Char) (run twin : Run) : Prop where
  kept : run.kept = twin.kept
  length : run.length = twin.length
  rest : Token.Shares behind other run.rest twin.rest

namespace Shares

theorem decimalRun (shares : Shares behind other text twin) :
    (decimalRun text).Shares behind other (Token.decimalRun twin) := by
  rcases shares.takeWhile (fun c => c.isDigit || c == '_') (by decide) with ⟨same, later⟩
  exact ⟨by simp only [Token.decimalRun, same], by simp only [Token.decimalRun, same], later⟩

theorem startsNumeral (shares : Shares behind other text twin) :
    startsNumeral text = startsNumeral twin := by
  cases shares with
  | colon => rfl
  | @cons c text twin shares =>
      by_cases point : c = '.'
      · subst point
        cases shares <;> rfl
      · simp [Token.startsNumeral, point]

end Shares

namespace Run.Shares

variable {run twin : Run}

theorem withFraction (shares : run.Shares behind other twin) :
    (withFraction run).1.Shares behind other (Token.withFraction twin).1 ∧
      (Token.withFraction run).2 = (Token.withFraction twin).2 := by
  rcases run with ⟨kept, length, text⟩
  rcases twin with ⟨_, _, twin⟩
  rcases shares with ⟨rfl, rfl, rest⟩
  have unchanged : ∀ {text twin : List Char}, Token.Shares behind other text twin →
      (Run.mk kept length text).Shares behind other ⟨kept, length, twin⟩ :=
    fun rest => ⟨rfl, rfl, rest⟩
  cases rest with
  | colon => exact ⟨unchanged .colon, rfl⟩
  | @cons first text twin later =>
      by_cases point : first = '.'
      · subst point
        cases later with
        | colon => exact ⟨unchanged (.cons _ .colon), rfl⟩
        | @cons c text twin last =>
            by_cases digit : c.isDigit = true
            · have fraction := (Token.Shares.cons c last).decimalRun
              simp only [Token.withFraction, digit, if_true]
              exact ⟨⟨by rw [fraction.kept], by rw [fraction.length], fraction.rest⟩, trivial⟩
            · simp only [Token.withFraction, digit]
              exact ⟨unchanged (.cons _ (.cons _ last)), rfl⟩
      · have refused : ∀ {chars : List Char}, Token.withFraction ⟨kept, length, first :: chars⟩ =
            (⟨kept, length, first :: chars⟩, false) := by
          intro chars
          simp [Token.withFraction, point]
        simp only [refused]
        exact ⟨unchanged (.cons _ later), trivial⟩

theorem withExponent (shares : run.Shares behind other twin) :
    (withExponent run).1.Shares behind other (Token.withExponent twin).1 ∧
      (Token.withExponent run).2 = (Token.withExponent twin).2 := by
  rcases run with ⟨kept, length, text⟩
  rcases twin with ⟨_, _, twin⟩
  rcases shares with ⟨rfl, rfl, rest⟩
  have unchanged : ∀ {text twin : List Char}, Token.Shares behind other text twin →
      (Run.mk kept length text).Shares behind other ⟨kept, length, twin⟩ :=
    fun rest => ⟨rfl, rfl, rest⟩
  have extended : ∀ (sign : List Char) {digits twin : List Char},
      Token.Shares behind other digits twin →
      (Run.mk (kept ++ 'e' :: sign ++ (decimalRun digits).kept)
        (length + 1 + sign.length + (decimalRun digits).length) (decimalRun digits).rest).Shares
        behind other ⟨kept ++ 'e' :: sign ++ (decimalRun twin).kept,
          length + 1 + sign.length + (decimalRun twin).length, (decimalRun twin).rest⟩ := by
    intro sign digits twin shares
    have power := shares.decimalRun
    exact ⟨by rw [power.kept], by rw [power.length], power.rest⟩
  cases rest with
  | colon =>
      rcases behind with _ | ⟨b, behind⟩ <;> rcases other with _ | ⟨o, other⟩ <;>
        exact ⟨unchanged .colon, rfl⟩
  | @cons mark text twin later =>
      cases later with
      | colon =>
          have refused : ∀ {chars : List Char},
              Token.withExponent ⟨kept, length, mark :: ':' :: chars⟩ =
                (⟨kept, length, mark :: ':' :: chars⟩, false) := by
            intro chars
            simp [Token.withExponent]
          simp only [refused]
          exact ⟨unchanged (.cons _ .colon), trivial⟩
      | @cons c text twin last =>
          simp only [Token.withExponent]
          split
          · split
            · exact ⟨extended [] (.cons _ last), rfl⟩
            · split
              · cases last with
                | colon => exact ⟨unchanged (.cons _ (.cons _ .colon)), rfl⟩
                | @cons d text twin final =>
                    simp only
                    split
                    · exact ⟨extended [c] (.cons _ final), rfl⟩
                    · exact ⟨unchanged (.cons _ (.cons _ (.cons _ final))), rfl⟩
              · exact ⟨unchanged (.cons _ (.cons _ last)), rfl⟩
          · exact ⟨unchanged (.cons _ (.cons _ last)), rfl⟩

end Run.Shares

namespace Shares

theorem decimalLiteral (shares : Shares behind other text twin) {literal : Literal}
    (read : decimalLiteral text = .ok literal) :
    ∃ rest, Token.decimalLiteral twin = .ok ⟨literal.kind, literal.length, rest⟩ ∧
      Shares behind other literal.rest rest := by
  rcases shares.decimalRun.withFraction with ⟨whole, sameFraction⟩
  rcases whole.withExponent with ⟨scaled, sameExponent⟩
  rcases decimalLiteral_eq_ok.1 read with ⟨ends, known, length, rest⟩
  refine ⟨_, decimalLiteral_eq_ok.2 ⟨?_, ?_, ?_, rfl⟩, rest ▸ scaled.rest⟩
  · rwa [← scaled.rest.head]
  · rwa [← scaled.kept, ← sameFraction, ← sameExponent]
  · rwa [← scaled.length]

theorem basedRun (shares : Shares behind other text twin) {base length : Nat} {kept : List Char}
    {run : Run} (read : basedRun base text length kept = .ok run) :
    ∃ twinRun, Token.basedRun base twin length kept = .ok twinRun ∧
      run.Shares behind other twinRun := by
  induction shares generalizing length kept with
  | colon =>
      cases read
      exact ⟨_, rfl, rfl, rfl, .colon⟩
  | @cons c text twin shares ih =>
      rw [Token.basedRun] at read ⊢
      split at read
      · rename_i underscore
        rw [if_pos underscore]
        exact ih read
      · rename_i noUnderscore
        rw [if_neg noUnderscore]
        split at read
        · split at read
          · rename_i large
            cases read
            rw [if_pos large]
            exact ⟨_, rfl, rfl, rfl, .cons c shares⟩
          · rename_i small
            split at read
            · cases read
            · rename_i fits
              rw [if_neg small, if_neg fits]
              exact ih read
        · cases read
          exact ⟨_, rfl, rfl, rfl, .cons c shares⟩

theorem basedLiteral (shares : Shares behind other text twin) {base mark : Nat} {literal : Literal}
    (read : basedLiteral base mark text = .ok literal) :
    ∃ rest, Token.basedLiteral base mark twin = .ok ⟨literal.kind, literal.length, rest⟩ ∧
      Shares behind other literal.rest rest := by
  rcases basedLiteral_eq_ok.1 read with ⟨run, value, ran, nonempty, ends, known, rfl⟩
  rcases shares.basedRun ran with ⟨twinRun, twinRan, same⟩
  refine ⟨twinRun.rest, basedLiteral_eq_ok.2 ⟨twinRun, value, twinRan, ?_, ?_, ?_, ?_⟩, same.rest⟩
  · rwa [← same.kept]
  · rwa [← same.rest.head]
  · rwa [← same.kept]
  · rw [same.length]

theorem numeral (shares : Shares behind other text twin) {literal : Literal}
    (read : numeral text = .ok literal) :
    ∃ rest, Token.numeral twin = .ok ⟨literal.kind, literal.length, rest⟩ ∧
      Shares behind other literal.rest rest := by
  unfold Token.numeral at read
  split at read
  · rename_i mark text
    rcases shares.tail (by decide) with ⟨rest, rfl, later⟩
    cases later with
    | colon =>
        -- a colon after the zero is no mark of a base
        exact shares.decimalLiteral read
    | @cons _ _ twin last =>
        simp only [Token.numeral]
        split_ifs at read ⊢
        · exact last.basedLiteral read
        · exact last.basedLiteral read
        · exact last.basedLiteral read
        · exact (Shares.cons mark last).basedLiteral read
        · exact shares.decimalLiteral read
  · rename_i noMark
    have decimal : Token.numeral twin = Token.decimalLiteral twin := by
      unfold Token.numeral
      split
      · rename_i mark rest
        cases shares with
        | cons _ later => cases later <;> exact absurd rfl (noMark _ _)
      · rfl
    rw [decimal]
    exact shares.decimalLiteral read

end Shares

/-- Whether two steps read the same token, in front of texts that are shared. -/
structure Step.Shares (behind other : List Char) (step twin : Step) : Prop where
  token : step.token = twin.token
  line : step.next.line = twin.next.line
  column : step.next.column = twin.next.column
  rest : Token.Shares behind other step.next.rest twin.next.rest

namespace Shares

variable {allowed : Bool} {c : Char} {line column : Nat} {step : Step}

theorem scanNewline {length : Nat} (shares : Shares behind other (text.drop length)
    (twin.drop length)) :
    (scanNewline ⟨text, line, column⟩ length).Shares behind other
      (Token.scanNewline ⟨twin, line, column⟩ length) := by
  rcases shares.indentation with ⟨same, later⟩
  simp only [Token.scanNewline, ← same] at later ⊢
  exact ⟨rfl, rfl, rfl, later⟩

/-- A token of as many characters, in front of what is shared. -/
theorem forward (text twin : List Char) {n : Nat}
    (shares : Shares behind other (text.drop n) (twin.drop n)) (kind : Option Kind) :
    Step.Shares behind other
      ⟨kind.map (Cursor.token ⟨text, line, column⟩ (Cursor.forward ⟨text, line, column⟩ n)),
        Cursor.forward ⟨text, line, column⟩ n⟩
      ⟨kind.map (Cursor.token ⟨twin, line, column⟩ (Cursor.forward ⟨twin, line, column⟩ n)),
        Cursor.forward ⟨twin, line, column⟩ n⟩ :=
  ⟨rfl, rfl, rfl, shares⟩

theorem scanBlanks (shares : Shares behind other text twin) :
    (scanBlanks ⟨text, line, column⟩).Shares behind other
      (Token.scanBlanks ⟨twin, line, column⟩) := by
  rcases shares.blanks with ⟨same, later⟩
  simp only [Token.scanBlanks, ← same] at later ⊢
  exact later.forward text twin (some _)

theorem scanWord (shares : Shares behind other text twin) :
    (scanWord ⟨text, line, column⟩).Shares behind other (Token.scanWord ⟨twin, line, column⟩) := by
  rcases shares.takeWhile isSymbolPart (by decide) with ⟨same, later⟩
  simp only [Token.scanWord, ← same] at later ⊢
  exact later.forward text twin (some _)

theorem scanAtom (shares : Shares behind other text twin) :
    (scanAtom ⟨c :: text, line, column⟩ text).Shares behind other
      (Token.scanAtom ⟨c :: twin, line, column⟩ twin) := by
  rcases shares.takeWhile isSymbolPart (by decide) with ⟨same, later⟩
  simp only [Token.scanAtom, ← same] at later ⊢
  exact Shares.forward (c :: text) (c :: twin) later (some _)

/-- What follows a colon never spells an operator with the character before it. -/
theorem ofPair_colon (c : Char) : Operator.ofPair? c ':' = none := by
  unfold Operator.ofPair?
  split <;> simp_all

theorem scanMark (shares : Shares behind other text twin)
    (read : scanMark allowed ⟨c :: text, line, column⟩ c text = .ok step) :
    ∃ twinStep, Token.scanMark allowed ⟨c :: twin, line, column⟩ c twin = .ok twinStep ∧
      step.Shares behind other twinStep := by
  unfold Token.scanMark at read ⊢
  simp only [← shares.head]
  simp only at read
  split at read
  · rename_i isAtom
    rw [if_pos isAtom]
    cases read
    exact ⟨_, rfl, shares.scanAtom⟩
  · rename_i noAtom
    rw [if_neg noAtom]
    cases paired : text.head?.bind (Operator.ofPair? c) with
    | some operator =>
        simp only [paired] at read ⊢
        cases read
        refine ⟨_, rfl, Shares.forward (c :: text) (c :: twin) ?_ (some _)⟩
        cases shares with
        | colon => simp [ofPair_colon] at paired
        | cons _ shares => exact shares
    | none =>
        simp only [paired] at read ⊢
        split at read
        · rename_i operator known
          cases read
          exact ⟨_, rfl, Shares.forward (c :: text) (c :: twin) shares (some _)⟩
        · cases read

/-- A step that stops in front of a colon, or before, does not look behind it. -/
theorem scanStep (shares : Shares behind other text twin)
    (read : scanStep allowed ⟨c :: text, line, column⟩ c text = .ok step)
    (inside : behind.length < step.next.rest.length) :
    ∃ twinStep, Token.scanStep allowed ⟨c :: twin, line, column⟩ c twin = .ok twinStep ∧
      step.Shares behind other twinStep := by
  have whole : Shares behind other (c :: text) (c :: twin) := .cons c shares
  have starts := whole.startsNumeral
  unfold Token.scanStep at read ⊢
  simp only [← shares.head, ← starts]
  simp only at read
  split_ifs at read ⊢ with feed returned blank comment block word quote number
  · cases read
    exact ⟨_, rfl, scanNewline shares⟩
  · cases read
    refine ⟨_, rfl, scanNewline ?_⟩
    rcases text with _ | ⟨d, text⟩
    · cases returned.2
    · cases returned.2
      cases shares with
      | cons _ shares => exact shares
  · cases read
    exact ⟨_, rfl, whole.scanBlanks⟩
  · cases read
    have measured : Token.lineLength (c :: text) 0 = 0 + Token.lineLength (c :: text) 0 := by simp
    rcases whole.lineLength measured (by simpa [Cursor.forward] using inside) with ⟨same, later⟩
    rw [Nat.zero_add] at same
    simp only [same]
    exact ⟨_, rfl, later.forward (c :: text) (c :: twin) none⟩
  · rcases text with _ | ⟨d, text⟩
    · cases block.2
    · cases block.2
      cases shares with
      | @cons _ _ twin shares =>
          unfold scanComment at read ⊢
          simp only [List.drop_succ_cons, List.drop_zero] at read ⊢
          cases closed : Token.closeComment text line (column + 2) with
          | error stop =>
              rw [closed] at read
              cases read
          | ok next =>
              rw [closed] at read
              cases read
              rcases shares.closeComment closed inside with ⟨rest, twinClosed, later⟩
              rw [twinClosed]
              exact ⟨_, rfl, rfl, rfl, rfl, later⟩
  · cases read
    exact ⟨_, rfl, whole.scanWord⟩
  · unfold scanText at read ⊢
    cases closed : Token.closeText c text line (column + 1) [] with
    | error stop =>
        rw [closed] at read
        cases read
    | ok read_ =>
        rcases read_ with ⟨content, next⟩
        rw [closed] at read
        cases read
        rcases shares.closeText closed inside with ⟨rest, twinClosed, later⟩
        rw [twinClosed]
        exact ⟨_, rfl, rfl, rfl, rfl, later⟩
  · unfold scanNumeral at read ⊢
    cases known : Token.numeral (c :: text) with
    | error fault =>
        simp only [known] at read
        cases read
    | ok literal =>
        simp only [known] at read
        cases read
        rcases whole.numeral known with ⟨rest, twinKnown, later⟩
        simp only [twinKnown]
        exact ⟨_, rfl, rfl, rfl, rfl, later⟩
  · exact shares.scanMark read

end Shares

end Lehce.Token

import Lehce.Proofs.Token.Segmentation

/-!
# Scanning the same text from another column

What a step of scanning reads does not depend on where it stands. Of its column only this
matters to the tokens behind it: whether they come first on their line. So the same text is
scanned from two columns to the same tokens, up to columns (`Cursor.Beside.scanStep`).
-/

namespace Lehce.Token

/-- Whether two tokens are the same up to columns. The first column is told from the others. -/
structure Matches (token other : Token) : Prop where
  kind : token.kind = other.kind
  line : token.line = other.line
  first : token.start = 0 ↔ other.start = 0

theorem Matches.refl (token : Token) : token.Matches token := ⟨rfl, rfl, Iff.rfl⟩

/-- Whether two cursors are at the same text of the same line, and both first in it or neither. -/
structure Cursor.Beside (cursor twin : Cursor) : Prop where
  rest : cursor.rest = twin.rest
  line : cursor.line = twin.line
  first : cursor.column = 0 ↔ twin.column = 0

/-- Whether two steps read the same token up to columns and end side by side. -/
structure Step.Beside (step twin : Step) : Prop where
  token : Option.Rel Matches step.token twin.token
  next : step.next.Beside twin.next

namespace Cursor.Beside

variable {text : List Char} {line column other : Nat} {allowed : Bool} {c : Char} {step : Step}

/-- A token of as many characters. -/
theorem forward (text : List Char) (same : column = 0 ↔ other = 0) (kind : Option Kind)
    (n : Nat) :
    Step.Beside
      ⟨kind.map (Cursor.token ⟨text, line, column⟩ (Cursor.forward ⟨text, line, column⟩ n)),
        Cursor.forward ⟨text, line, column⟩ n⟩
      ⟨kind.map (Cursor.token ⟨text, line, other⟩ (Cursor.forward ⟨text, line, other⟩ n)),
        Cursor.forward ⟨text, line, other⟩ n⟩ := by
  refine ⟨?_, rfl, rfl, ?_⟩
  · cases kind with
    | none => exact .none
    | some kind => exact .some ⟨rfl, rfl, by simpa [Cursor.token] using same⟩
  · simp only [Cursor.forward]
    omega

theorem closeComment (same : column = 0 ↔ other = 0) {next : Cursor}
    (closed : closeComment text line column = .ok next) :
    ∃ twin, Token.closeComment text line other = .ok twin ∧ next.Beside twin := by
  fun_induction Token.closeComment text line column generalizing other with
  | case1 => cases closed
  | case2 rest line column =>
      cases closed
      exact ⟨_, rfl, rfl, rfl, by simp⟩
  | case3 rest line column ih => exact ih Iff.rfl closed
  | case4 c rest line column noClose noFeed ih =>
      rw [Token.closeComment]
      · exact ih (by omega) closed
      · exact noClose
      · exact noFeed

theorem closeText {delimiter : Char} {earlier content : List Char} (same : column = 0 ↔ other = 0)
    {next : Cursor} (closed : closeText delimiter text line column earlier = .ok (content, next)) :
    ∃ twin, Token.closeText delimiter text line other earlier = .ok (content, twin) ∧
      next.Beside twin := by
  fun_induction Token.closeText delimiter text line column earlier generalizing other with
  | case1 => cases closed
  | case2 => cases closed
  | case3 line column earlier rest ih => exact ih Iff.rfl closed
  | case4 line column earlier c rest noFeed ih =>
      simp only [Token.closeText]
      exact ih (by omega) closed
  | case5 rest line column earlier bare =>
      cases closed
      rw [Token.closeText.eq_def]
      exact ⟨⟨rest, line, other + 1⟩, by simp, rfl, rfl, by simp⟩
  | case6 rest line column earlier bare open_ ih =>
      simp only [Token.closeText, if_neg open_, if_pos]
      exact ih Iff.rfl closed
  | case7 c rest line column earlier bare open_ noFeed ih =>
      simp only [Token.closeText, if_neg open_, if_neg noFeed]
      exact ih (by omega) closed

theorem scanMark (same : column = 0 ↔ other = 0)
    (read : scanMark allowed ⟨c :: text, line, column⟩ c text = .ok step) :
    ∃ twinStep, Token.scanMark allowed ⟨c :: text, line, other⟩ c text = .ok twinStep ∧
      step.Beside twinStep := by
  unfold Token.scanMark at read ⊢
  simp only at read ⊢
  split at read
  · rename_i isAtom
    rw [if_pos isAtom]
    cases read
    exact ⟨_, rfl, forward (c :: text) same (some _) _⟩
  · rename_i noAtom
    rw [if_neg noAtom]
    split at read
    · cases read
      exact ⟨_, rfl, forward (c :: text) same (some _) 2⟩
    · split at read
      · cases read
        exact ⟨_, rfl, forward (c :: text) same (some _) 1⟩
      · cases read

/-- A step from another column is the same step. -/
theorem scanStep_column (same : column = 0 ↔ other = 0)
    (read : scanStep allowed ⟨c :: text, line, column⟩ c text = .ok step) :
    ∃ twinStep, scanStep allowed ⟨c :: text, line, other⟩ c text = .ok twinStep ∧
      step.Beside twinStep := by
  unfold scanStep at read ⊢
  simp only at read ⊢
  split_ifs at read ⊢ with feed returned blank comment block word quote number
  · cases read
    exact ⟨_, rfl, .some (.refl _), rfl, rfl, Iff.rfl⟩
  · cases read
    exact ⟨_, rfl, .some (.refl _), rfl, rfl, Iff.rfl⟩
  · cases read
    exact ⟨_, rfl, forward (c :: text) same (some _) _⟩
  · cases read
    exact ⟨_, rfl, forward (c :: text) same none _⟩
  · unfold scanComment at read ⊢
    simp only at read ⊢
    cases closed : Token.closeComment ((c :: text).drop 2) line (column + 2) with
    | error stop =>
        rw [closed] at read
        cases read
    | ok next =>
        rw [closed] at read
        cases read
        have both : column + 2 = 0 ↔ other + 2 = 0 := by omega
        rcases closeComment both closed with ⟨twin, twinClosed, beside⟩
        rw [twinClosed]
        exact ⟨_, rfl, .none, beside⟩
  · cases read
    exact ⟨_, rfl, forward (c :: text) same (some _) _⟩
  · unfold scanText at read ⊢
    simp only at read ⊢
    cases closed : Token.closeText c text line (column + 1) [] with
    | error stop =>
        rw [closed] at read
        cases read
    | ok read_ =>
        rcases read_ with ⟨content, next⟩
        rw [closed] at read
        cases read
        have both : column + 1 = 0 ↔ other + 1 = 0 := by omega
        rcases closeText both closed with ⟨twin, twinClosed, beside⟩
        rw [twinClosed]
        exact ⟨_, rfl, .some ⟨rfl, rfl, by simpa using same⟩, beside⟩
  · unfold scanNumeral at read ⊢
    simp only at read ⊢
    cases known : numeral (c :: text) with
    | error fault =>
        rw [known] at read
        cases read
    | ok literal =>
        rw [known] at read
        cases read
        exact ⟨_, rfl, .some ⟨rfl, rfl, by simpa [Cursor.token] using same⟩, rfl, rfl,
          by simp only; omega⟩
  · exact scanMark same read

theorem scanStep {cursor twin : Cursor} {rest : List Char} (beside : cursor.Beside twin)
    (ahead : cursor.rest = c :: rest) (read : scanStep allowed cursor c rest = .ok step) :
    ∃ twinStep, Token.scanStep allowed twin c rest = .ok twinStep ∧ step.Beside twinStep := by
  rcases cursor with ⟨text, line, column⟩
  rcases twin with ⟨_, _, other⟩
  rcases beside with ⟨rfl, rfl, same⟩
  cases ahead
  exact scanStep_column same read

end Cursor.Beside

end Lehce.Token

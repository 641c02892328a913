import Lehce.Proofs.Token.Locality
import Lehce.Proofs.Token.Shifting

/-!
# Walking along a source

Scanning walks along a source step by step. A walk can be cut at any token that it has read
(`Walks.cut`); it is the same walk up to a colon whatever follows that colon (`Walks.shares`);
and what is behind that colon is walked along from another column in the same way
(`Walks.beside`).
-/

namespace Lehce.Token

/-- Whether scanning goes from one cursor to another, given the tokens read before either; the
last of them comes first. -/
inductive Walks : Cursor → List Token → Cursor → List Token → Prop where
  | refl (cursor : Cursor) (earlier : List Token) : Walks cursor earlier cursor earlier
  | step {cursor next : Cursor} {earlier later : List Token} {c : Char} {rest : List Char}
      {step : Step} (ahead : cursor.rest = c :: rest)
      (read : scanStep (colonAllowed earlier) cursor c rest = .ok step)
      (walks : Walks step.next (step.token.toList ++ earlier) next later) :
      Walks cursor earlier next later

/-- Whether a colon is a mark behind some tokens does not depend on their columns. -/
theorem Matches.colonAllowed {token twin : Token} {earlier others : List Token}
    (same : token.Matches twin)
    (allowed : Token.colonAllowed earlier = Token.colonAllowed others) :
    Token.colonAllowed (token :: earlier) = Token.colonAllowed (twin :: others) := by
  rcases token with ⟨line, start, stop, kind⟩
  rcases twin with ⟨twinLine, twinStart, twinStop, twinKind⟩
  cases same.kind
  cases kind <;> simp [Token.colonAllowed, allowed]

namespace Walks

variable {cursor between next twin : Cursor} {before behind other text : List Char}
  {earlier middle later tokens : List Token}

theorem trans (first : Walks cursor earlier between middle)
    (second : Walks between middle next later) : Walks cursor earlier next later := by
  induction first with
  | refl => exact second
  | step ahead read _ ih => exact .step ahead read (ih second)

/-- A walk passes over the text in between. -/
theorem passes (walks : Walks cursor earlier next later) (place : cursor.IsBehind before) :
    ∃ front, cursor.rest = front ++ next.rest ∧ next.IsBehind (before ++ front) := by
  induction walks generalizing before with
  | refl => exact ⟨[], rfl, by simpa using place⟩
  | step ahead read _ ih =>
      rcases cuts_scanStep ahead place read with ⟨chars, cuts⟩
      rcases ih cuts.behind with ⟨front, split, behind⟩
      exact ⟨chars ++ front, by rw [cuts.split, split, List.append_assoc],
        by rwa [← List.append_assoc]⟩

/-- A walk goes on adding tokens. -/
theorem suffix (walks : Walks cursor earlier next later) : earlier <:+ later := by
  induction walks with
  | refl => exact List.suffix_refl _
  | step _ _ _ ih => exact (List.suffix_append _ _).trans ih

/-- A walk that is not over takes a step. -/
theorem first {c : Char} {rest : List Char} (walks : Walks cursor earlier next later)
    (ahead : cursor.rest = c :: rest) (ended : next.rest = []) :
    ∃ step, Token.scanStep (colonAllowed earlier) cursor c rest = .ok step ∧
      Walks step.next (step.token.toList ++ earlier) next later := by
  cases walks with
  | refl =>
      rw [ended] at ahead
      cases ahead
  | step here read walks =>
      rw [ahead] at here
      cases here
      exact ⟨_, read, walks⟩

/-- A source is scanned by walking to its end. -/
theorem of_scanFrom {steps : Nat} (place : cursor.IsBehind before)
    (enough : cursor.rest.length ≤ steps) (scanned : scanFrom steps cursor earlier = .ok tokens) :
    ∃ last, Walks cursor earlier last tokens.reverse ∧ last.rest = [] := by
  induction steps generalizing cursor earlier before with
  | zero =>
      cases scanned
      refine ⟨cursor, ?_, List.eq_nil_of_length_eq_zero (by omega)⟩
      rw [List.reverse_reverse]
      exact .refl cursor earlier
  | succ steps ih =>
      rw [scanFrom] at scanned
      split at scanned
      · rename_i ended
        cases scanned
        rw [List.reverse_reverse]
        exact ⟨cursor, .refl cursor earlier, ended⟩
      · rename_i c rest ahead
        cases read : scanStep (colonAllowed earlier) cursor c rest with
        | error fault =>
            rw [read] at scanned
            cases scanned
        | ok step =>
            rw [read] at scanned
            rcases cuts_scanStep ahead place read with ⟨chars, cuts⟩
            have some_ := List.length_pos_iff.2 cuts.nonempty
            have shorter : step.next.rest.length ≤ steps := by
              rw [cuts.split, List.length_append] at enough
              omega
            rcases ih cuts.behind shorter scanned with ⟨last, walks, ended⟩
            exact ⟨last, .step ahead read walks, ended⟩

theorem scanFrom (walks : Walks cursor earlier next later) (ended : next.rest = [])
    {steps : Nat} (place : cursor.IsBehind before) (enough : cursor.rest.length ≤ steps) :
    scanFrom steps cursor earlier = .ok later.reverse := by
  induction walks generalizing steps before with
  | refl cursor earlier => cases steps <;> simp [Token.scanFrom, ended]
  | @step cursor next earlier later c rest step ahead read _ ih =>
      rcases cuts_scanStep ahead place read with ⟨chars, cuts⟩
      have some_ := List.length_pos_iff.2 cuts.nonempty
      cases steps with
      | zero =>
          rw [ahead] at enough
          cases enough
      | succ steps =>
          rw [cuts.split, List.length_append] at enough
          rw [Token.scanFrom, ahead]
          simp only [read]
          exact ih ended cuts.behind (by omega)

theorem isBehind_start (source : String) : (Cursor.start source).IsBehind [] :=
  ⟨rfl, rfl, by simp⟩

theorem of_scan {source : String} (scanned : scan source = .ok tokens) :
    ∃ last, Walks (.start source) [] last tokens.reverse ∧ last.rest = [] :=
  of_scanFrom (isBehind_start source) (Nat.le_refl _) scanned

theorem scan {source : String} (walks : Walks (.start source) [] next later)
    (ended : next.rest = []) : scan source = .ok later.reverse :=
  walks.scanFrom ended (isBehind_start source) (Nat.le_refl _)

/-- A walk has come to every token that it has read, and gone on from there. -/
theorem cut {token : Token} {new front : List Token} (walks : Walks cursor earlier next later)
    (split : later = new ++ token :: front) (inside : earlier <:+ front) :
    ∃ (place : Cursor) (c : Char) (rest : List Char) (after : Cursor),
      Walks cursor earlier place front ∧ place.rest = c :: rest ∧
      Token.scanStep (colonAllowed front) place c rest = .ok ⟨some token, after⟩ ∧
      Walks after (token :: front) next later := by
  induction walks with
  | refl cursor earlier =>
      have long := inside.length_le
      rw [split, List.length_append, List.length_cons] at long
      omega
  | @step cursor next earlier later c rest step ahead read walks ih =>
      rcases step with ⟨_ | found, after⟩
      · rcases ih split inside with ⟨place, d, others, between, first, here, reads, last⟩
        exact ⟨place, d, others, between, .step ahead read first, here, reads, last⟩
      · have whole : token :: front <:+ later := ⟨new, split.symm⟩
        rcases List.suffix_or_suffix_of_suffix walks.suffix whole with below | above
        · rcases List.suffix_cons_iff.1 below with same | strict
          · cases same
            exact ⟨cursor, c, rest, after, .refl cursor earlier, ahead, read, walks⟩
          · rcases ih split strict with ⟨place, d, others, between, first, here, reads, last⟩
            exact ⟨place, d, others, between, .step ahead read first, here, reads, last⟩
        · have same := above.eq_of_length_le (by
            have long := inside.length_le
            simpa using long)
          cases same
          exact ⟨cursor, c, rest, after, .refl cursor earlier, ahead, read, walks⟩

/-- A walk to a colon is the same whatever the text behind that colon is. -/
theorem shares (walks : Walks cursor earlier next later) (place : cursor.IsBehind before)
    (stops : next.rest = ':' :: behind) (shared : Shares behind other cursor.rest text) :
    Walks ⟨text, cursor.line, cursor.column⟩ earlier ⟨':' :: other, next.line, next.column⟩
      later := by
  induction walks generalizing before text with
  | refl cursor earlier =>
      rw [stops] at shared
      cases shared with
      | colon => exact .refl _ _
      | cons _ shared => exact absurd shared.length_lt (Nat.lt_irrefl _)
  | @step cursor next earlier later c rest step ahead read walks ih =>
      rcases cuts_scanStep ahead place read with ⟨chars, cuts⟩
      rcases walks.passes cuts.behind with ⟨front, split, -⟩
      have inside : behind.length < step.next.rest.length := by
        rw [split, stops, List.length_append, List.length_cons]
        omega
      have some_ := List.length_pos_iff.2 cuts.nonempty
      have shorter : step.next.rest.length < (c :: rest).length := by
        rw [← ahead, cuts.split, List.length_append]
        omega
      rcases cursor with ⟨_, line, column⟩
      cases ahead
      cases shared with
      | colon =>
          rw [List.length_cons] at shorter
          omega
      | @cons _ _ twin shared =>
          rcases shared.scanStep read inside with ⟨⟨token, after⟩, twinRead, same⟩
          refine .step rfl twinRead ?_
          have walked := ih cuts.behind stops same.rest
          rw [same.line, same.column, same.token] at walked
          exact walked

/-- From beside a cursor, a walk is the same up to columns. -/
theorem beside {others : List Token} (walks : Walks cursor earlier next later)
    (beside : cursor.Beside twin) (allowed : colonAllowed earlier = colonAllowed others) :
    ∃ last new twinNew, Walks twin others last (twinNew ++ others) ∧ next.Beside last ∧
      later = new ++ earlier ∧ List.Forall₂ Matches new twinNew := by
  induction walks generalizing twin others with
  | refl cursor earlier => exact ⟨twin, [], [], .refl twin others, beside, rfl, .nil⟩
  | @step cursor next earlier later c rest step ahead read _ ih =>
      rcases beside.scanStep ahead read with ⟨twinStep, twinRead, same, nextBeside⟩
      rw [allowed] at twinRead
      have twinAhead : twin.rest = c :: rest := beside.rest ▸ ahead
      have matched : List.Forall₂ Matches step.token.toList twinStep.token.toList ∧
          colonAllowed (step.token.toList ++ earlier) =
            colonAllowed (twinStep.token.toList ++ others) := by
        generalize step.token = found at same
        generalize twinStep.token = twinFound at same
        cases same with
        | none => exact ⟨.nil, allowed⟩
        | some same => exact ⟨.cons same .nil, same.colonAllowed allowed⟩
      rcases ih nextBeside matched.2 with ⟨last, new, twinNew, walks, lastBeside, rfl, matches_⟩
      refine ⟨last, new ++ step.token.toList, twinNew ++ twinStep.token.toList, ?_, lastBeside,
        by rw [List.append_assoc], List.rel_append matches_ matched.1⟩
      rw [List.append_assoc]
      exact .step twinAhead twinRead walks

end Walks

end Lehce.Token

import Mathlib.Data.List.TakeWhile
import Mathlib.Data.String.Basic
import Lehce.Fault

/-!
# The lines of a text

A text that is split at its line feeds has the same lines as its characters have. The place
behind a front of the text is in one of them (`exists_line`).
-/

namespace Lehce.Text

open String (ofList utf8Len)

/-- What is behind the characters of a line is split on. -/
theorem splitOnAux_feed (front line rest : List Char) (earlier : List String) :
    (ofList (front ++ line ++ rest)).splitOnAux "\n" ⟨utf8Len front⟩
        ⟨utf8Len front + utf8Len line⟩ 0 earlier =
      earlier.reverse ++ (List.splitOnPPrepend (· == '\n') rest line.reverse).map ofList := by
  have size : utf8Len front + utf8Len line = utf8Len (front ++ line) :=
    (String.utf8Len_append front line).symm
  rw [String.splitOnAux.eq_def, size]
  have piece := String.extract_of_valid front line rest
  rw [size] at piece
  have ends := String.atEnd_of_valid (front ++ line) rest
  cases rest with
  | nil =>
      rw [if_pos (ends.2 rfl), piece, List.splitOnPPrepend_nil, List.reverse_reverse]
      simp only [List.reverse_cons, List.map_cons, List.map_nil]
  | cons c rest =>
      rw [if_neg (mt ends.1 (List.cons_ne_nil c rest)), String.get_of_valid, String.next_of_valid]
      have feed : String.Pos.Raw.get "\n" 0 = '\n' := rfl
      have afterFeed : String.Pos.Raw.next "\n" 0 = ⟨1⟩ := rfl
      have feedEnds : String.Pos.Raw.atEnd "\n" ⟨1⟩ = true := rfl
      rw [feed, afterFeed, if_pos feedEnds, List.splitOnPPrepend_cons_eq_if]
      by_cases isFeed : c = '\n'
      · subst isFeed
        have others := splitOnAux_feed (front ++ line ++ ['\n']) [] rest (ofList line :: earlier)
        have passed : (⟨utf8Len (front ++ line) + Char.utf8Size '\n'⟩ : String.Pos.Raw) =
            ⟨utf8Len (front ++ line ++ ['\n'])⟩ := by simp [Nat.add_assoc]
        have back : String.Pos.Raw.unoffsetBy ⟨utf8Len (front ++ line) + Char.utf8Size '\n'⟩ ⟨1⟩ =
            ⟨utf8Len (front ++ line)⟩ := rfl
        have same : (('\n' :: rest).headD default == '\n') = true := rfl
        rw [if_pos same, if_pos (beq_self_eq_true _), back, piece, passed]
        simpa only [List.append_assoc, List.append_nil, List.cons_append, List.nil_append,
          String.utf8Len_nil, Nat.add_zero, List.reverse_nil, List.splitOnPPrepend_nil_right,
          List.reverse_cons, List.map_cons, List.reverse_reverse] using others
      · have differs : ¬((c :: rest).headD default == '\n') = true := by simpa using isFeed
        have others := splitOnAux_feed front (line ++ [c]) rest earlier
        have next : String.Pos.Raw.next (ofList (front ++ line ++ c :: rest))
            (String.Pos.Raw.unoffsetBy ⟨utf8Len (front ++ line)⟩ 0) =
              ⟨utf8Len front + utf8Len (line ++ [c])⟩ := by
          have same : String.Pos.Raw.unoffsetBy ⟨utf8Len (front ++ line)⟩ 0 =
              ⟨utf8Len (front ++ line)⟩ := rfl
          rw [same, String.next_of_valid]
          simp [Nat.add_assoc]
        rw [if_neg differs, if_neg (by simpa using isFeed), next]
        simpa only [List.append_assoc, List.cons_append, List.nil_append, List.reverse_append,
          List.reverse_cons, List.reverse_nil] using others

theorem splitOn_feed (text : String) :
    text.splitOn "\n" = (text.toList.splitOn '\n').map ofList := by
  have whole := splitOnAux_feed [] [] text.toList []
  simp only [List.nil_append, String.ofList_toList] at whole
  exact whole

/-- How far the last line of some characters goes. -/
def lastLine (chars : List Char) : List Char := chars.reverse.takeWhile (· != '\n')

theorem length_lastLine_cons (c : Char) (chars : List Char) :
    (lastLine (c :: chars)).length =
      if chars.count '\n' = 0 ∧ c ≠ '\n' then (lastLine chars).length + 1
      else (lastLine chars).length := by
  have stays : (chars.reverse.takeWhile (· != '\n')).length = chars.reverse.length ↔
      chars.count '\n' = 0 := by
    rw [List.count_eq_zero, List.Sublist.length_eq (List.takeWhile_sublist _),
      List.takeWhile_eq_self_iff]
    simp only [List.mem_reverse, bne_iff_ne]
    constructor
    · exact fun others member => others _ member rfl
    · rintro absent _ member rfl
      exact absent member
  rw [lastLine, List.reverse_cons, List.takeWhile_append]
  split
  · rename_i whole
    have none := stays.1 whole
    by_cases feed : c = '\n'
    · simp [feed, lastLine, whole]
    · simp [feed, lastLine, whole, none]
  · rename_i broken
    have some_ := mt stays.2 broken
    simp [some_, lastLine]

/-- The place behind a front of a text is in a line of the text, behind a front of that line. -/
theorem exists_line (front behind : List Char) :
    ∃ before after, ((front ++ behind).splitOn '\n')[front.count '\n']? = some (before ++ after) ∧
      before.length = (lastLine front).length := by
  induction front with
  | nil =>
      rcases lines : behind.splitOn '\n' with _ | ⟨line, others⟩
      · exact absurd lines (List.splitOn_ne_nil _ _)
      · exact ⟨[], line, by simp [lines], rfl⟩
  | cons c front ih =>
      rcases ih with ⟨before, after, found, measured⟩
      rw [List.cons_append, List.splitOn_cons_eq_if_modifyHead, length_lastLine_cons]
      by_cases feed : c = '\n'
      · subst feed
        refine ⟨before, after, ?_, by simpa using measured⟩
        simpa using found
      · have same : (c :: front).count '\n' = front.count '\n' := List.count_cons_of_ne feed
        rw [same, if_neg (by simpa using feed)]
        rcases lines : (front ++ behind).splitOn '\n' with _ | ⟨line, others⟩
        · exact absurd lines (List.splitOn_ne_nil _ _)
        · rw [lines] at found
          cases breaks : front.count '\n' with
          | zero =>
              rw [breaks] at found
              cases found
              exact ⟨c :: before, after, rfl, by simp [feed, measured]⟩
          | succ number =>
              rw [breaks] at found
              exact ⟨before, after, found, by simpa using measured⟩

end Lehce.Text

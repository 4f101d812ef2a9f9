/-
# The line of a place

A report shows the line on which an error stands.  The line is found from the start of the text, by
passing as many line feeds as the position counts, and the column counts the bytes that were passed
since the last of them.  Here both are read off the text around the place: the line is what stands
between the two line feeds next to the place, without a carriage return at its end
(`line_advance_start`), and the column is where in it the place is.

So a text at the place is shown as a whole, unless its own last character is the carriage return
(`exists_line_eq_append`), and at the end of the source the column is the length of the line, but
for the carriage return (`column_eq_line_of_end`).

The line that is shown is not the one that counts where lines have to be short: a carriage return
without a line feed belongs to the line (`lines`).  No place is further to the right than its line
is long, but for the place between the two characters of a line end (`exists_line_of_place`).
-/
import UnitLang.Proofs.Text.LineEnds

namespace UnitLang

/-! ## 1. The last line, and the carriage return at its end -/

section LastLine

variable {c : Char} {a b text : List Char}

theorem newline_notMem_lastLine (text : List Char) : '\n' ∉ lastLine text :=
  fun hmem => by simpa using List.mem_rtakeWhile_imp hmem

/-- Before the last line is nothing or a line feed. -/
theorem exists_before_lastLine (text : List Char) :
    ∃ before, text = before ++ lastLine text ∧ (before = [] ∨ ∃ b, before = b ++ ['\n']) := by
  refine ⟨text.rdropWhile (· ≠ '\n'), (List.rdropWhile_append_rtakeWhile ..).symm, ?_⟩
  by_cases hnil : text.rdropWhile (· ≠ '\n') = []
  · exact .inl hnil
  · have hlast := List.rdropWhile_last_not (· ≠ '\n') text hnil
    have hnewline : (text.rdropWhile (· ≠ '\n')).getLast hnil = '\n' := by simpa using hlast
    have hsplit := List.dropLast_append_getLast hnil
    rw [hnewline] at hsplit
    exact .inr ⟨_, hsplit.symm⟩

/-- The last line ends as the text does, unless that is a line feed. -/
theorem getLast?_lastLine (hc : c ≠ '\n') :
    (lastLine text).getLast? = some c ↔ text.getLast? = some c := by
  induction text using List.reverseRecOn with
  | nil => rfl
  | append_singleton text d _ =>
    by_cases hd : d = '\n'
    · subst hd
      simp [hc.symm]
    · simp [lastLine_append_other text hd]

namespace Text

/-- The carriage return is dropped behind everything that does not end with one. -/
theorem dropReturn_append (h : a.getLast? ≠ some '\r') :
    dropReturn (a ++ b) = a ++ dropReturn b := by
  cases b using List.reverseRecOn with
  | nil => simp [dropReturn, h]
  | append_singleton b d =>
    unfold dropReturn
    rw [← List.append_assoc, List.getLast?_concat, List.getLast?_concat]
    split
    · rw [List.dropLast_concat, List.dropLast_concat]
    · rw [List.append_assoc]

/-- Only the carriage return is missing. -/
theorem utf8Len_dropReturn (a : List Char) :
    String.utf8Len a = String.utf8Len (dropReturn a) + if a.getLast? = some '\r' then 1 else 0 := by
  unfold dropReturn
  split
  · rename_i hlast
    obtain ⟨front, rfl⟩ := List.getLast?_eq_some_iff.mp hlast
    rw [List.dropLast_concat, String.utf8Len_append]
    rfl
  · rfl

theorem dropReturn_subset (a : List Char) : dropReturn a ⊆ a := by
  unfold dropReturn
  split
  · exact List.dropLast_subset a
  · exact List.Subset.refl a

end Text

end LastLine

/-! ## 2. The line that is shown -/

namespace Text

section Shown

variable {c : Char} {front rest value after : List Char} {source : String}

theorem rawLine_cons (hc : c ≠ '\n') (below : Nat) (text : List Char) :
    rawLine (below + 1) (c :: text) = rawLine (below + 1) text := by
  rw [rawLine, rawLine, List.dropWhile_cons_of_pos (by simpa using hc)]

/-- Behind a line feed a new line begins. -/
theorem rawLine_newline (front rest : List Char) :
    rawLine (front.count '\n' + 1) (front ++ '\n' :: rest) = rest.takeWhile (· ≠ '\n') := by
  induction front with
  | nil => rfl
  | cons c front ih =>
    by_cases hc : c = '\n'
    · subst hc
      rw [List.count_cons_self]
      exact ih
    · rw [List.count_cons_of_ne hc, List.cons_append, rawLine_cons hc, ih]

/-- **The line of a place** is what was passed since the last line feed, and what comes up to the
next. -/
theorem rawLine_append (front rest : List Char) :
    rawLine (front.count '\n') (front ++ rest) = lastLine front ++ rest.takeWhile (· ≠ '\n') := by
  induction front using List.reverseRecOn generalizing rest with
  | nil => rfl
  | append_singleton front c ih =>
    rw [List.append_assoc, List.singleton_append, List.count_append]
    by_cases hc : c = '\n'
    · subst hc
      rw [lastLine_append_newline]
      exact rawLine_newline front rest
    · have hcount : [c].count '\n' = 0 := List.count_eq_zero.mpr (by simpa using Ne.symm hc)
      rw [hcount, Nat.add_zero, ih, lastLine_append_other front hc,
        List.takeWhile_cons_of_pos (by simpa using hc), List.append_assoc, List.singleton_append]

theorem newline_notMem_rawLine (below : Nat) (text : List Char) :
    '\n' ∉ rawLine below text := by
  induction below generalizing text with
  | zero =>
    intro hmem
    simpa using List.mem_takeWhile_imp hmem
  | succ below ih =>
    rw [rawLine]
    split
    · exact List.not_mem_nil
    · exact ih _

/-- A line holds no line feed. -/
theorem newline_notMem_line (source : String) (number : Nat) :
    '\n' ∉ (line source number).toList := by
  rw [line, String.toList_ofList]
  exact fun hmem => newline_notMem_rawLine _ _ (dropReturn_subset _ hmem)

/-- The line of a place in a source. -/
theorem line_advance_start (h : source.toList = front ++ rest) :
    line source (Position.start.advance front).line =
      String.ofList (dropReturn (lastLine front ++ rest.takeWhile (· ≠ '\n'))) := by
  rw [line, h, Position.line_advance, Nat.add_comm]
  exact congrArg (fun text => String.ofList (dropReturn text)) (rawLine_append front rest)

/-- **A text at a place is shown as a whole** behind what was passed of its line, if it is on one
line and does not end with the carriage return. -/
theorem exists_line_eq_append (h : source.toList = front ++ (value ++ after))
    (hnewline : '\n' ∉ value) (hne : value ≠ []) (hreturn : value.getLast? ≠ some '\r') :
    ∃ more, line source (Position.start.advance front).line =
      String.ofList (lastLine front) ++ String.ofList value ++ more := by
  have hline : (value ++ after).takeWhile (· ≠ '\n') = value ++ after.takeWhile (· ≠ '\n') :=
    List.takeWhile_append_of_pos fun c hc => decide_eq_true fun heq => hnewline (heq ▸ hc)
  have hlast : (lastLine front ++ value).getLast? ≠ some '\r' := by
    rwa [List.getLast?_append_of_ne_nil _ hne]
  refine ⟨String.ofList (dropReturn (after.takeWhile (· ≠ '\n'))), ?_⟩
  rw [line_advance_start h, hline, ← List.append_assoc, dropReturn_append hlast,
    String.ofList_append, String.ofList_append]

/-- **At the end of the source the column is the length of the line**, and one more if a carriage
return ends it. -/
theorem column_eq_line_of_end (source : String) :
    (Position.start.advance source.toList).column =
      (line source (Position.start.advance source.toList).line).utf8ByteSize +
        if source.toList.getLast? = some '\r' then 1 else 0 := by
  have hlast : (lastLine source.toList).getLast? = some '\r' ↔ source.toList.getLast? = some '\r' :=
    getLast?_lastLine (by decide)
  rw [line_advance_start (List.append_nil _).symm, List.takeWhile_nil, List.append_nil,
    String.utf8ByteSize_ofList, Position.column_advance_start, utf8Len_dropReturn]
  simp only [hlast]

end Shown

/-! ## 3. All lines -/

/-- The lines of a text without their ends.  A line feed ends a line, and a carriage return before
it belongs to the end; one that is not before a line feed belongs to the line. -/
def lines : List Char → List (List Char)
  | [] => [[]]
  | c :: text =>
    if c = '\n' then [] :: lines text
    else if c = '\r' ∧ text.head? = some '\n' then lines text
    else (lines text).modifyHead (c :: ·)

section Lines

variable {c : Char} {text front rest : List Char} {source : String}

theorem lines_cons (hc : c ≠ '\n') (htext : text.head? ≠ some '\n') :
    lines (c :: text) = (lines text).modifyHead (c :: ·) := by
  rw [lines, if_neg hc, if_neg fun h => htext h.2]

/-- There is a first line. -/
theorem exists_lines_eq_cons (text : List Char) : ∃ l ls, lines text = l :: ls := by
  induction text with
  | nil => exact ⟨[], [], rfl⟩
  | cons c text ih =>
    obtain ⟨l, ls, heq⟩ := ih
    rw [lines, heq]
    split
    · exact ⟨[], l :: ls, rfl⟩
    · split
      · exact ⟨l, ls, rfl⟩
      · exact ⟨c :: l, ls, rfl⟩

/-- What is before a place on the first line stands at the beginning of this line. -/
theorem exists_first_line (hfront : '\n' ∉ front) (hrest : rest.head? ≠ some '\n') :
    ∃ l ls, lines (front ++ rest) = (front ++ l) :: ls := by
  induction front with
  | nil => exact exists_lines_eq_cons rest
  | cons c front ih =>
    obtain ⟨hc, hfront⟩ := List.ne_and_not_mem_of_not_mem_cons hfront
    obtain ⟨l, ls, heq⟩ := ih hfront
    have hhead : (front ++ rest).head? ≠ some '\n' := by
      cases front with
      | nil => exact hrest
      | cons d front => exact fun h => hfront (by simp_all)
    exact ⟨l, ls, by rw [List.cons_append, lines_cons hc.symm hhead, heq]; rfl⟩

/-- The lines behind a line feed are lines of the text. -/
theorem exists_lines_append (front rest : List Char) :
    ∃ l ls, lines (front ++ '\n' :: rest) = l :: (ls ++ lines rest) := by
  induction front with
  | nil => exact ⟨[], [], rfl⟩
  | cons c front ih =>
    obtain ⟨l, ls, heq⟩ := ih
    rw [List.cons_append, lines, heq]
    split
    · exact ⟨[], l :: ls, rfl⟩
    · split
      · exact ⟨l, ls, rfl⟩
      · exact ⟨c :: l, ls, rfl⟩

/-- **No place is to the right of its line**, unless it is before a line feed. -/
theorem exists_line_of_place (front : List Char) (hrest : rest.head? ≠ some '\n') :
    ∃ l ∈ lines (front ++ rest), (Position.start.advance front).column ≤ String.utf8Len l := by
  rw [Position.column_advance_start]
  obtain ⟨before, hsplit, hbefore⟩ := exists_before_lastLine front
  -- What is left of the source from the last line feed on begins with the line of the place.
  obtain ⟨l, ls, hlast⟩ := exists_first_line (newline_notMem_lastLine front) hrest
  have hmem : lastLine front ++ l ∈ lines (front ++ rest) := by
    generalize lastLine front = last at hsplit hlast
    subst hsplit
    rcases hbefore with rfl | ⟨before, rfl⟩
    · rw [List.nil_append, hlast]
      exact List.mem_cons_self
    · obtain ⟨l', ls', heq⟩ := exists_lines_append before (last ++ rest)
      rw [List.append_assoc, List.append_assoc, List.singleton_append, heq, hlast]
      simp
  refine ⟨_, hmem, ?_⟩
  rw [String.utf8Len_append]
  exact Nat.le_add_right _ _

/-- A line may be ended in two ways, and a carriage return at the end of the text ends none. -/
example : lines "a\r\n\nb\r".toList = ["a".toList, [], "b\r".toList] := by decide

end Lines

end Text

end UnitLang

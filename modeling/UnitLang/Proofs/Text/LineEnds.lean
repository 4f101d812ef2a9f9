/-
# Two ways to end a line

A line is ended by a line feed, alone or behind a carriage return.  `withReturns` puts a carriage
return before every line feed, and this file says what that does to a text:

* a run of characters, by a test that does not tell the two apart, is the same run with returns
  (`takeWhile_withReturns`);
* a place has as many more bytes before it as line feeds, and keeps its line and its column
  (`Position.withReturns`, `withReturns_advance`);
* a line is shown without its end, so it is shown as it was (`line_crlf`).
-/
import UnitLang.Proofs.Text.Place
import UnitLang.Text.Line

namespace UnitLang

namespace Text

/-! ## 1. Returns before line feeds -/

/-- The text with a carriage return before every line feed. -/
def withReturns : List Char → List Char
  | [] => []
  | c :: text => if c = '\n' then '\r' :: '\n' :: withReturns text else c :: withReturns text

/-- The source with a carriage return before every line feed. -/
def crlf (source : String) : String := String.ofList (withReturns source.toList)

section Returns

variable {c : Char} {a b text : List Char} {p : Char → Bool}

@[simp] theorem withReturns_nil : withReturns [] = [] := rfl

@[simp] theorem withReturns_newline (text : List Char) :
    withReturns ('\n' :: text) = '\r' :: '\n' :: withReturns text := by
  rw [withReturns, if_pos rfl]

theorem withReturns_cons (hc : c ≠ '\n') (text : List Char) :
    withReturns (c :: text) = c :: withReturns text := by
  rw [withReturns, if_neg hc]

@[simp] theorem withReturns_append (a b : List Char) :
    withReturns (a ++ b) = withReturns a ++ withReturns b := by
  induction a with
  | nil => rfl
  | cons c a ih =>
    by_cases hc : c = '\n'
    · subst hc
      simp [ih]
    · rw [List.cons_append, withReturns_cons hc, withReturns_cons hc, ih, List.cons_append]

/-- Without a line feed nothing is put in. -/
theorem withReturns_eq_self (h : '\n' ∉ a) : withReturns a = a := by
  induction a with
  | nil => rfl
  | cons c a ih =>
    obtain ⟨hc, ha⟩ := List.ne_and_not_mem_of_not_mem_cons h
    rw [withReturns_cons hc.symm, ih ha]

/-- No character but the carriage return is put in. -/
theorem mem_withReturns_iff (hc : c ≠ '\r') : c ∈ withReturns text ↔ c ∈ text := by
  induction text with
  | nil => rfl
  | cons d text ih =>
    by_cases hd : d = '\n'
    · subst hd
      simp [ih, hc]
    · rw [withReturns_cons hd, List.mem_cons, List.mem_cons, ih]

theorem withReturns_eq_nil_iff : withReturns text = [] ↔ text = [] := by
  cases text with
  | nil => exact Iff.rfl
  | cons c text =>
    by_cases hc : c = '\n'
    · subst hc
      simp
    · simp [withReturns_cons hc]

/-- A text begins with returns as it began, up to a line end. -/
theorem prefix_withReturns_iff (hreturn : '\r' ∉ a) (hnewline : '\n' ∉ a) :
    a <+: withReturns text ↔ a <+: text := by
  induction a generalizing text with
  | nil => simp
  | cons c a ih =>
    obtain ⟨hc, hreturn⟩ := List.ne_and_not_mem_of_not_mem_cons hreturn
    obtain ⟨hc', hnewline⟩ := List.ne_and_not_mem_of_not_mem_cons hnewline
    cases text with
    | nil => rfl
    | cons d text =>
      by_cases hd : d = '\n'
      · subst hd
        simp [hc.symm, hc'.symm]
      · rw [withReturns_cons hd, List.cons_prefix_cons, List.cons_prefix_cons, ih hreturn hnewline]

/-- A run stays one, if its test does not tell a carriage return from a line feed. -/
theorem takeWhile_withReturns (hp : p '\r' = p '\n') (text : List Char) :
    (withReturns text).takeWhile p = withReturns (text.takeWhile p) := by
  induction text with
  | nil => rfl
  | cons c text ih =>
    by_cases hc : c = '\n'
    · subst hc
      cases hn : p '\n' <;> simp [hn, hp, ih]
    · rw [withReturns_cons hc]
      cases hn : p c <;> simp [hn, ih, withReturns_cons hc]

/-! ## 2. The lines of a text -/

/-- A line that a line feed ends has a carriage return at its end. -/
theorem takeWhile_ne_newline (text : List Char) :
    (withReturns text).takeWhile (· ≠ '\n') =
      text.takeWhile (· ≠ '\n') ++ if '\n' ∈ text then ['\r'] else [] := by
  induction text with
  | nil => rfl
  | cons c text ih =>
    by_cases hc : c = '\n'
    · subst hc
      rfl
    · have hmem : '\n' ∈ c :: text ↔ '\n' ∈ text := by
        simp [Ne.symm hc]
      rw [withReturns_cons hc, List.takeWhile_cons_of_pos (by simpa using hc), ih,
        List.takeWhile_cons_of_pos (by simpa using hc), List.cons_append]
      simp only [hmem]

/-- Where a line feed ends the line, the same text is behind it. -/
theorem dropWhile_ne_newline (text : List Char) :
    (withReturns text).dropWhile (· ≠ '\n') =
      (text.dropWhile (· ≠ '\n')).take 1 ++ withReturns ((text.dropWhile (· ≠ '\n')).drop 1) := by
  induction text with
  | nil => rfl
  | cons c text ih =>
    by_cases hc : c = '\n'
    · subst hc
      rfl
    · rw [withReturns_cons hc, List.dropWhile_cons_of_pos (by simpa using hc), ih,
        List.dropWhile_cons_of_pos (by simpa using hc)]

theorem dropReturn_append_return (a : List Char) : dropReturn (a ++ ['\r']) = a := by
  simp [dropReturn]

theorem dropReturn_eq_self (h : '\r' ∉ a) : dropReturn a = a := by
  unfold dropReturn
  rw [if_neg]
  intro hlast
  exact h (List.mem_of_getLast? hlast)

/-- Behind the line feeds that are passed, the line is the same but for its end. -/
theorem dropReturn_rawLine (h : '\r' ∉ text) (below : Nat) :
    dropReturn (rawLine below (withReturns text)) = dropReturn (rawLine below text) := by
  induction below generalizing text with
  | zero =>
    have hline : '\r' ∉ text.takeWhile (· ≠ '\n') :=
      fun hmem => h ((List.takeWhile_sublist _).subset hmem)
    rw [rawLine, rawLine, takeWhile_ne_newline, dropReturn_eq_self hline]
    split
    · exact dropReturn_append_return _
    · rw [List.append_nil]
      exact dropReturn_eq_self hline
  | succ below ih =>
    rw [rawLine, rawLine, dropWhile_ne_newline]
    cases hrest : text.dropWhile (· ≠ '\n') with
    | nil => rfl
    | cons c rest =>
      change dropReturn (rawLine below (withReturns rest)) = dropReturn (rawLine below rest)
      refine ih fun hmem => h ?_
      have hsub := (List.dropWhile_sublist (l := text) (· ≠ '\n')).subset
      rw [hrest] at hsub
      exact hsub (List.mem_cons_of_mem c hmem)

end Returns

/-- **Lines are shown without their ends**, so with carriage returns they are shown as before, if
there was none. -/
theorem line_crlf {source : String} (h : '\r' ∉ source.toList) (number : Nat) :
    line (crlf source) number = line source number := by
  rw [line, line, crlf, String.toList_ofList, dropReturn_rawLine h]

/-! ## 3. The places of a text -/

/-- The line feeds among the first `size` bytes of a text. -/
def newlinesBefore : Nat → List Char → Nat
  | _, [] => 0
  | size, c :: text =>
    if size < c.utf8Size then 0
    else (if c = '\n' then 1 else 0) + newlinesBefore (size - c.utf8Size) text

theorem newlinesBefore_append (front rest : List Char) :
    newlinesBefore (String.utf8Len front) (front ++ rest) = front.count '\n' := by
  induction front with
  | nil =>
    cases rest with
    | nil => rfl
    | cons c rest =>
      rw [List.nil_append, newlinesBefore, String.utf8Len_nil, if_pos c.utf8Size_pos]
      rfl
  | cons c front ih =>
    have hle : ¬ String.utf8Len front + c.utf8Size < c.utf8Size := by omega
    rw [List.cons_append, newlinesBefore, String.utf8Len_cons, if_neg hle, Nat.add_sub_cancel, ih,
      List.count_cons, Nat.add_comm]
    simp

end Text

open Text (withReturns)

namespace Position

/-- Where a place of the source is when a carriage return is put before every line feed: its offset
grows by the number of line feeds before it. -/
def withReturns (source : String) (q : Position) : Position :=
  { q with offset := q.offset + Text.newlinesBefore q.offset source.toList }

/-- A line feed behind a carriage return leads to the next line as one alone does. -/
theorem advance_return_newline (p : Position) :
    p.advance ['\r', '\n'] = { p.after '\n' with offset := (p.after '\n').offset + 1 } := by
  have hreturn : ('\r').utf8Size = 1 := rfl
  have hnewline : ('\n').utf8Size = 1 := rfl
  ext <;> simp [after, hreturn, hnewline]

/-- The offset does not count for the line and the column. -/
theorem advance_add_offset (p : Position) (size : Nat) (text : List Char) :
    ({ p with offset := p.offset + size } : Position).advance text =
      { p.advance text with offset := (p.advance text).offset + size } := by
  induction text generalizing p with
  | nil => rfl
  | cons c text ih =>
    have hafter : ({ p with offset := p.offset + size } : Position).after c =
        { p.after c with offset := (p.after c).offset + size } := by
      unfold after
      split
      · simp only [Nat.add_right_comm]
      · simp only [Nat.add_right_comm]
    rw [advance_cons, hafter, ih, advance_cons]

/-- With returns, a text leads to the same line and the same column. -/
theorem advance_withReturns (p : Position) (text : List Char) :
    p.advance (Text.withReturns text) =
      { p.advance text with offset := (p.advance text).offset + text.count '\n' } := by
  induction text generalizing p with
  | nil => rfl
  | cons c text ih =>
    by_cases hc : c = '\n'
    · subst hc
      have hsplit : '\r' :: '\n' :: Text.withReturns text =
          ['\r', '\n'] ++ Text.withReturns text := rfl
      rw [Text.withReturns_newline, hsplit, advance_append, advance_return_newline,
        advance_add_offset, ih, advance_cons, List.count_cons_self, Nat.add_assoc]
    · rw [Text.withReturns_cons hc, advance_cons, ih, advance_cons, List.count_cons_of_ne hc]

/-- **The place behind the beginning of a source** is, with returns, behind the same beginning with
returns. -/
theorem withReturns_advance {source : String} {front rest : List Char}
    (h : source.toList = front ++ rest) :
    (start.advance front).withReturns source = start.advance (Text.withReturns front) := by
  have hoffset : (start.advance front).offset = String.utf8Len front := by
    rw [offset_advance]
    exact Nat.zero_add _
  rw [withReturns, h, hoffset, Text.newlinesBefore_append, advance_withReturns, hoffset]

end Position

end UnitLang

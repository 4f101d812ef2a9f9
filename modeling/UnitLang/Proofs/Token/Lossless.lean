/-
# Tokenizing loses nothing

The tokens of a source and the layout between them are the source, piece by piece.  `Lossless`
says so with offsets: the text of each token is the slice of the source between its two offsets,
tokens do not overlap, and the slices between them, before the first and behind the last are
layout.

Where tokenizing fails, the same holds of the source up to the place of the error, and there a
line comment is not cut off either.  In particular a source without tokens is layout, and layout is
a source without tokens.
-/
import UnitLang.Proofs.Text.Place
import UnitLang.Proofs.Token.Layout

namespace UnitLang

/-! ## 1. Slices -/

/-- The source between two byte offsets. -/
def IsSlice (source piece : String) (i j : Nat) : Prop :=
  ∃ before after, source = before ++ piece ++ after ∧ before.utf8ByteSize = i ∧
    i + piece.utf8ByteSize = j

/-- What is passed over from one place to another is the slice between their offsets. -/
theorem isSlice_advance (before piece after : List Char) :
    IsSlice (String.ofList (before ++ (piece ++ after))) (String.ofList piece)
      (Position.start.advance before).offset
      (Position.start.advance (before ++ piece)).offset := by
  refine ⟨String.ofList before, String.ofList after, ?_, ?_, ?_⟩
  · rw [← String.ofList_append, ← String.ofList_append, List.append_assoc]
  · rw [String.utf8ByteSize_ofList, Position.offset_advance]
    exact (Nat.zero_add _).symm
  · rw [String.utf8ByteSize_ofList, Position.offset_advance, Position.offset_advance,
      String.utf8Len_append, Nat.add_assoc]

/-- The tokens are those of the source, and between them is layout; what is behind the last token
is as `closing` says. -/
structure Lossless (source : String) (closing : List Char → Prop) (ts : List Token) : Prop where
  /-- No token is empty. -/
  nonempty : ∀ t ∈ ts, t.span.start.offset < t.span.stop.offset
  /-- Each token ends before the next begins. -/
  ordered : ts.Pairwise fun t u => t.span.stop.offset ≤ u.span.start.offset
  /-- The text of a token is the source between its offsets. -/
  slice : ∀ t ∈ ts, IsSlice source t.value t.span.start.offset t.span.stop.offset
  /-- Between the token before, or the start, and a token is layout. -/
  gap : ∀ before t after, ts = before ++ t :: after →
    ∃ gap, IsSlice source gap (stopOf .start before).offset t.span.start.offset ∧
      IsLayout gap.toList
  /-- Behind the last token is the rest of the source. -/
  last : ∃ gap, IsSlice source gap (stopOf .start ts).offset source.utf8ByteSize ∧
    closing gap.toList

/-! ## 2. Tokens in their text -/

section Tokens

variable {p q : Position} {text rest : List Char} {ts before after : List Token} {t : Token}

/-- A token in the part of the text that has been read. -/
theorem Lexes.at_token (h : Lexes p text (before ++ t :: after) q rest) :
    ∃ front gap value middle, text = front ++ (gap ++ (value ++ (middle ++ rest))) ∧
      stopOf p before = p.advance front ∧ IsLayout gap ∧
      t.IsRead (p.advance (front ++ gap)) value := by
  obtain ⟨front, _, rfl, hstop, hlexes⟩ := h.cut_behind
  obtain ⟨gap, value, _, rfl, hgap, hread, hlexes⟩ := hlexes.exists_token
  obtain ⟨middle, rfl, -, -⟩ := hlexes.cut_off
  rw [hstop, ← Position.advance_append] at hread
  exact ⟨front, gap, value, middle, rfl, hstop, hgap, hread⟩

/-- Tokens begin behind the place where their text begins. -/
theorem Lexes.offset_le (h : Lexes p text ts q rest) (ht : t ∈ ts) :
    p.offset ≤ t.span.start.offset := by
  obtain ⟨before, after, rfl⟩ := List.append_of_mem ht
  obtain ⟨front, gap, value, middle, -, -, -, hread⟩ := h.at_token
  rw [hread.start_eq, Position.offset_advance]
  exact Nat.le_add_right _ _

/-- Tokens do not overlap. -/
theorem Lexes.pairwise (h : Lexes p text ts q rest) :
    ts.Pairwise fun t u => t.span.stop.offset ≤ u.span.start.offset := by
  induction ts generalizing p text with
  | nil => exact .nil
  | cons t ts ih =>
    obtain ⟨gap, value, middle, -, -, -, hlexes⟩ := h.exists_token
    exact .cons (fun u hu => hlexes.offset_le hu) (ih hlexes)

/-- **Reading loses nothing** of the text that has been read. -/
theorem Lexes.lossless (h : Lexes .start text ts q rest) :
    ∃ front, text = front ++ rest ∧ q = Position.start.advance front ∧
      Lossless (String.ofList front)
        (fun gap => IsLayout gap ∨ rest = [] ∧ IsClosingLayout gap) ts := by
  obtain ⟨front, htext, rfl, -⟩ := h.cut_off
  have hat {before after : List Token} {t : Token} (hts : ts = before ++ t :: after) :
      ∃ shown gap value middle, front = shown ++ (gap ++ (value ++ middle)) ∧
        stopOf .start before = Position.start.advance shown ∧ IsLayout gap ∧
        t.IsRead (Position.start.advance (shown ++ gap)) value := by
    subst hts
    obtain ⟨shown, gap, value, middle, heq, hstop, hgap, hread⟩ := h.at_token
    refine ⟨shown, gap, value, middle, ?_, hstop, hgap, hread⟩
    exact List.append_cancel_right (htext.symm.trans (by simpa using heq))
  refine ⟨front, htext, rfl, ?_, h.pairwise, ?_, ?_, ?_⟩
  · intro t ht
    obtain ⟨before, after, hts⟩ := List.append_of_mem ht
    obtain ⟨shown, gap, value, middle, -, -, -, hread⟩ := hat hts
    have hpos := utf8Len_pos hread.value_ne_nil
    rw [hread.start_eq, hread.stop_eq, Position.offset_advance _ value]
    omega
  · intro t ht
    obtain ⟨before, after, hts⟩ := List.append_of_mem ht
    obtain ⟨shown, gap, value, middle, rfl, -, -, hread⟩ := hat hts
    rw [hread.start_eq, hread.stop_eq, hread.value_eq, ← Position.advance_append,
      ← List.append_assoc shown gap]
    exact isSlice_advance (shown ++ gap) value middle
  · intro before t after hts
    obtain ⟨shown, gap, value, middle, rfl, hstop, hgap, hread⟩ := hat hts
    refine ⟨String.ofList gap, ?_, by rwa [String.toList_ofList]⟩
    rw [hstop, hread.start_eq]
    exact isSlice_advance shown gap (value ++ middle)
  · rw [← List.append_nil ts] at h
    obtain ⟨shown, _, hshown, hstop, hlexes⟩ := h.cut_behind
    obtain ⟨gap, rfl, -, hgap⟩ := hlexes.exists_gap
    obtain rfl : front = shown ++ gap :=
      List.append_cancel_right (htext.symm.trans (by simpa using hshown))
    refine ⟨String.ofList gap, ?_, by rwa [String.toList_ofList]⟩
    have hslice := isSlice_advance shown gap []
    rw [List.append_nil, Position.offset_advance _ (shown ++ gap), ← String.utf8ByteSize_ofList,
      ← hstop] at hslice
    simpa [Position.start] using hslice

theorem Lossless.imp {source : String} {closing closing' : List Char → Prop}
    (h : Lossless source closing ts) (himp : ∀ gap, closing gap → closing' gap) :
    Lossless source closing' ts := by
  obtain ⟨gap, hslice, hgap⟩ := h.last
  exact { h with last := ⟨gap, hslice, himp _ hgap⟩ }

end Tokens

/-! ## 3. Tokenizing -/

/-- Without tokens, the source is what is behind them. -/
theorem Lossless.closing_of_nil {source : String} {closing : List Char → Prop}
    (h : Lossless source closing []) : closing source.toList := by
  obtain ⟨gap, ⟨before, after, hsource, hbefore, hsize⟩, hgap⟩ := h.last
  have hnil : before = "" := String.utf8ByteSize_eq_zero_iff.mp hbefore
  have hafter : after = "" := by
    rw [← String.utf8ByteSize_eq_zero_iff]
    have hsum := congrArg String.utf8ByteSize hsource
    rw [String.utf8ByteSize_append, String.utf8ByteSize_append] at hsum
    omega
  rw [hsource, hnil, hafter]
  simpa using hgap

section Sources

variable {source : String} {ts : List Token} {stop : Position} {e : Error}

/-- A source that is tokenized to its end. -/
theorem lossless_of_ended (his : itemsOf source = ⟨ts, .ended stop⟩) :
    stop.offset = source.utf8ByteSize ∧ Lossless source IsClosingLayout ts := by
  have hlexes := lexes_of_ended his
  obtain ⟨front, htext, -, hlossless⟩ := hlexes.lossless
  obtain rfl : source = String.ofList front := by
    rw [← String.ofList_toList (s := source), htext, List.append_nil]
  refine ⟨?_, hlossless.imp ?_⟩
  · rw [hlexes.eq_advance, Position.offset_advance, String.utf8Len_toList]
    exact Nat.zero_add _
  · rintro gap (hgap | ⟨-, hgap⟩)
    · exact .complete hgap
    · exact hgap

/-- A source that is tokenized up to an error: there is text at the place of the error, so the
layout before it is complete. -/
theorem lossless_of_failed (his : itemsOf source = ⟨ts, .failed e⟩) :
    ∃ front rest, source = front ++ rest ∧ front.utf8ByteSize = e.position.offset ∧
      Lossless front IsLayout ts := by
  obtain ⟨c, tail, hlexes⟩ := lexes_of_failed his
  obtain ⟨front, htext, hplace, hlossless⟩ := hlexes.lossless
  obtain ⟨hsource, hsize⟩ := Position.cut_advance_start htext
  rw [← hplace] at hsize
  refine ⟨String.ofList front, String.ofList (c :: tail), hsource, hsize, hlossless.imp ?_⟩
  rintro gap (hgap | ⟨hnil, -⟩)
  · exact hgap
  · cases hnil

end Sources

/-- **Tokenizing loses nothing.**  Its tokens are the source but for layout, and the end of the
input stands behind them, once and without a text.  Where it fails, this holds of the source up to
the error.  There are no tokens just when the source is layout. -/
theorem tokenize_lossless (source : String) :
    (∀ tokens, tokenize source = .ok tokens →
      ∃ ts stop, tokens = ts ++ [Token.endOfInput stop] ∧ (∀ t ∈ ts, t.kind ≠ .endOfInput) ∧
        stop.offset = source.utf8ByteSize ∧ Lossless source IsClosingLayout ts) ∧
    (∀ e, tokenize source = .error e →
      ∃ ts front rest, (itemsOf source).toList = ts.map .ok ++ [.error e] ∧
        (∀ t ∈ ts, t.kind ≠ .endOfInput) ∧ source = front ++ rest ∧
        front.utf8ByteSize = e.position.offset ∧ Lossless front IsLayout ts) ∧
    ((∃ stop, tokenize source = .ok [Token.endOfInput stop]) ↔
      IsClosingLayout source.toList) := by
  have hkinds := kind_ne_endOfInput_of_mem_itemsOf source
  refine ⟨?_, ?_, ?_, ?_⟩
  · intro tokens htok
    obtain ⟨ts, stop, his, rfl⟩ := tokenize_eq_ok_iff.mp htok
    rw [his] at hkinds
    exact ⟨ts, stop, rfl, hkinds, lossless_of_ended his⟩
  · intro e he
    have hend := tokenize_eq_error_iff.mp he
    have his : itemsOf source = ⟨(itemsOf source).tokens, .failed e⟩ := by rw [← hend]
    obtain ⟨front, rest, hsource, hsize, hlossless⟩ := lossless_of_failed his
    refine ⟨_, front, rest, ?_, hkinds, hsource, hsize, hlossless⟩
    rw [Items.toList, hend]
  · rintro ⟨stop, htok⟩
    obtain ⟨ts, stop', his, heq⟩ := tokenize_eq_ok_iff.mp htok
    obtain ⟨rfl, -⟩ := List.append_inj' ((List.nil_append _).trans heq) rfl
    exact (lossless_of_ended his).2.closing_of_nil
  · intro h
    exact ⟨_, tokenize_eq_ok_iff.mpr ⟨[], _, items_closingLayout h, rfl⟩⟩

/-- An annotation parts two words, and a line comment runs to the end; before an error it may not.
The last source is a comment that holds two more. -/
theorem tokenize_lossless_comments :
    Lossless "unit\x7b.\x7da;//c" IsClosingLayout
      [⟨.unitKw, "unit", ⟨⟨0, 1, 0⟩, ⟨4, 1, 4⟩⟩⟩, ⟨.identifier, "a", ⟨⟨7, 1, 7⟩, ⟨8, 1, 8⟩⟩⟩,
        ⟨.semicolon, ";", ⟨⟨8, 1, 8⟩, ⟨9, 1, 9⟩⟩⟩] ∧
    (∃ front rest, "a//b\n @;" = front ++ rest ∧ front.utf8ByteSize = 6 ∧
      Lossless front IsLayout [⟨.identifier, "a", ⟨⟨0, 1, 0⟩, ⟨1, 1, 1⟩⟩⟩]) ∧
    IsClosingLayout "//a //b \x7b".toList := by
  refine ⟨?_, ?_, ?_⟩
  · have htok : tokenize "unit\x7b.\x7da;//c" =
        .ok ([⟨.unitKw, "unit", ⟨⟨0, 1, 0⟩, ⟨4, 1, 4⟩⟩⟩,
          ⟨.identifier, "a", ⟨⟨7, 1, 7⟩, ⟨8, 1, 8⟩⟩⟩,
          ⟨.semicolon, ";", ⟨⟨8, 1, 8⟩, ⟨9, 1, 9⟩⟩⟩] ++ [Token.endOfInput ⟨12, 1, 12⟩]) := by
      decide +kernel
    obtain ⟨ts, stop, heq, -, -, hlossless⟩ := (tokenize_lossless _).1 _ htok
    obtain ⟨rfl, -⟩ := List.append_inj' heq rfl
    exact hlossless
  · have herror : tokenize "a//b\n @;" = .error (.unrecognised ⟨6, 2, 1⟩ '@') := by
      decide +kernel
    have his : (itemsOf "a//b\n @;").toList =
        [⟨.identifier, "a", ⟨⟨0, 1, 0⟩, ⟨1, 1, 1⟩⟩⟩].map .ok ++
          [.error (.unrecognised ⟨6, 2, 1⟩ '@')] := by decide +kernel
    obtain ⟨ts, front, rest, hlist, -, hsource, hsize, hlossless⟩ :=
      (tokenize_lossless _).2.1 _ herror
    obtain ⟨hts, -⟩ := List.append_inj' (his.symm.trans hlist) rfl
    obtain rfl := List.map_injective_iff.mpr (fun _ _ => Except.ok.inj) hts
    exact ⟨front, rest, hsource, hsize, hlossless⟩
  · have htok : tokenize "//a //b \x7b" = .ok [Token.endOfInput ⟨9, 1, 9⟩] := by decide +kernel
    exact (tokenize_lossless _).2.2.mp ⟨_, htok⟩

end UnitLang

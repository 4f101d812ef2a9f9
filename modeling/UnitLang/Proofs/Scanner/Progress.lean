/-
# A scanner makes progress

A call to a scanner that counts bytes makes one pass after the other, as long as they pass over
silent matches, and nothing in it bounds their number.  But a match takes at least one byte, so
each of these passes moves the cursor forward; it stops at a boundary of two characters that is not
behind the end of the source (`ByteScanner.MovesTo`).  Hence there are no more passes than bytes
left, and one (`StandsFor.exists_call`).  Behind the source the cursor gets with the end of the
input only, by one byte, and there it stays (`ByteScanner.Delivers`).

All this is said of one pass (`StandsFor.exists_pass`), wherever a scanner can get to by loading,
calls that have ended or not, and modes (`ByteScanner.Reachable`).

Seen as a sequence, the items of a source are no more than its bytes and one, whatever else is asked
of the scanner between them (`Session.yielded_le`).
-/
import UnitLang.Proofs.Scanner.Bytes
import UnitLang.Proofs.Scanner.Order

namespace UnitLang

/-! ## 1. No match is empty -/

/-- No pattern of a rule has a way that takes no character. -/
theorem Rule.zero_notMem_ways (r : Rule) (text : List Char) : 0 ∉ r.pattern.ways text := by
  intro h
  have hform := (Pattern.takes_pattern_iff.mp (Pattern.takes_of_mem h)).1
  exact hform.ne_nil List.take_zero

namespace ByteScanner

theorem match?_pos {b : ByteScanner} {text : List Char} {r : Rule} {length : Nat}
    (h : b.match? text = some (r, length)) : 0 < length := by
  rw [match?_eq] at h
  obtain ⟨⟨r', n⟩, hf, heq⟩ := Option.map_eq_some_iff.mp h
  cases heq
  have hbounds := Rule.matched?_bounds (Rule.matched?_of_first? hf)
  refine utf8Len_pos (List.ne_nil_of_length_pos ?_)
  rw [List.length_take]
  omega

/-! ## 2. What a pass does -/

/-- The cursor has moved forward in the same source, to a boundary of two characters or to the
end. -/
structure MovesTo (b b' : ByteScanner) : Prop where
  source_eq : b'.source = b.source
  cursor_lt : b.cursor < b'.cursor
  cursor_le : b'.cursor ≤ b.size
  boundary : ∃ front rest, cutAt? b'.cursor b.source.toList = some (front, rest)

/-- What becomes of the cursor when an item is handed out. -/
inductive Delivers (b : ByteScanner) : Except Error Token → ByteScanner → Prop where
  /-- A token takes it along. -/
  | token {t : Token} {b' : ByteScanner} :
      t.kind ≠ .endOfInput → b.MovesTo b' → Delivers b (.ok t) b'
  /-- The end of the input puts it one byte behind the source. -/
  | endOfInput {p : Position} {b' : ByteScanner} :
      b.size ≤ b.cursor → b'.source = b.source → b'.cursor = b.size + 1 →
      Delivers b (.ok (.endOfInput p)) b'
  /-- An error leaves it before the end. -/
  | error {e : Error} {b' : ByteScanner} :
      b.cursor < b.size → b'.source = b.source → b'.cursor = b.cursor → Delivers b (.error e) b'

section Passes

variable {b b' : ByteScanner} {s s' : Scanner} {item : Except Error Token}

theorem Delivers.source_eq (h : b.Delivers item b') : b'.source = b.source := by
  cases h with
  | token _ hmoves => exact hmoves.source_eq
  | endOfInput _ hsource _ => exact hsource
  | error _ hsource _ => exact hsource

/-- The cursor has moved forward if that of the scanner it stands for has text left. -/
theorem StandsFor.movesTo (h : b'.StandsFor s') (hs : s'.ended = false)
    (hsource : b'.source = b.source) (hlt : b.cursor < b'.cursor) : b.MovesTo b' := by
  obtain ⟨front, hcut, -, hsize⟩ := h.exists_front hs
  have hsize' : b'.size = b.size := congrArg String.utf8ByteSize hsource
  refine ⟨hsource, hlt, by omega, front, s'.rest, ?_⟩
  rwa [hsource] at hcut

/-- A pass moves the cursor over what matches there, and hands out a token or nothing. -/
theorem StandsFor.exists_pass_of_match {front rest : List Char} {r : Rule} {length : Nat}
    (h : b.StandsFor s) (hcut : cutAt? b.cursor b.source.toList = some (front, rest))
    (hmatch : b.match? rest = some (r, length)) :
    ∃ b', b.MovesTo b' ∧ b'.cursor = b.cursor + length ∧
      (b.pass? = some (.goesOn b') ∨ ∃ t, b.pass? = some (.handsOut (.ok t) b')) := by
  have hs : s.ended = false := by
    rw [Bool.eq_false_iff]
    intro hs
    obtain ⟨hcursor, -⟩ := h.past_end hs
    obtain ⟨hsource, hcount⟩ := cutAt?_eq_some_iff.mp hcut
    have hsize := congrArg String.utf8Len hsource
    rw [String.utf8Len_toList, String.utf8Len_append] at hsize
    rw [size] at hcursor
    omega
  obtain ⟨_, hcut', -⟩ := h.exists_front hs
  cases hcut.symm.trans hcut'
  rw [match?_eq] at hmatch
  obtain ⟨⟨r', n⟩, hf, heq⟩ := Option.map_eq_some_iff.mp hmatch
  cases heq
  obtain ⟨a, rest, hrest, rfl⟩ := exists_append_of_first? hf
  rw [hrest, List.take_left]
  rw [hrest] at hf
  obtain ⟨hpass, hlt, hnext⟩ := h.pass?_of_match hs hrest hf
  refine ⟨b.behind a, hnext.movesTo hs rfl hlt, rfl, ?_⟩
  rw [hpass]
  cases r.kind? a with
  | none => exact .inl rfl
  | some kind => exact .inr ⟨_, rfl⟩

/-- **One pass** passes over a silent match, so that the same item is next, or hands it out. -/
theorem StandsFor.exists_pass (h : b.StandsFor s) :
    (∃ b' s', b.pass? = some (.goesOn b') ∧ b.MovesTo b' ∧ b'.StandsFor s' ∧
      s'.nextToken = s.nextToken) ∨
    ∃ b', b.pass? = some (.handsOut s.nextToken.1 b') ∧ b.Delivers s.nextToken.1 b' ∧
      b'.StandsFor s.nextToken.2 := by
  cases hs : s.ended with
  | true =>
    obtain ⟨hcursor, -⟩ := h.past_end hs
    rw [Scanner.nextToken_of_ended hs]
    exact .inr ⟨b, h.pass?_of_ended hs, .endOfInput (by omega) rfl hcursor, h⟩
  | false =>
    cases hf : Rule.first? s.rest with
    | none =>
      cases hrest : s.rest with
      | nil =>
        obtain ⟨hpass, hnext⟩ := h.pass?_of_nil hs hrest
        obtain ⟨front, -, -, hsize⟩ := h.exists_front hs
        have htoken : s.nextToken = (.ok (.endOfInput s.position), { s with ended := true }) := by
          simp [Scanner.nextToken, hs, hrest, scan_nil]
        rw [hrest, String.utf8Len_nil] at hsize
        rw [htoken]
        exact .inr ⟨_, hpass, .endOfInput hsize.ge rfl rfl, hnext⟩
      | cons c rest =>
        obtain ⟨hpass, hlt, hnext⟩ := h.pass?_of_stuck hs hrest hf
        rw [hrest] at hf
        have htoken : s.nextToken =
            (.error (.unrecognised s.position c), { s with failed := true }) := by
          simp [Scanner.nextToken, hs, hrest, scan_stuck hf]
        rw [htoken]
        exact .inr ⟨_, hpass, .error hlt rfl rfl, hnext⟩
    | some found =>
      obtain ⟨r, n⟩ := found
      obtain ⟨a, rest, hrest, rfl⟩ := exists_append_of_first? hf
      rw [hrest] at hf
      obtain ⟨hpass, hlt, hnext⟩ := h.pass?_of_match hs hrest hf
      have hmoves : b.MovesTo (b.behind a) := hnext.movesTo hs rfl hlt
      cases hk : r.kind? a with
      | none =>
        rw [hk] at hpass
        refine .inl ⟨_, _, hpass, hmoves, hnext, ?_⟩
        have hscan := scan_silent (p := s.position) hf (by rwa [List.take_left])
        rw [List.take_left, List.drop_left] at hscan
        simp [Scanner.nextToken, hs, hrest, hscan]
      | some kind =>
        rw [hk] at hpass
        have hscan := scan_token (p := s.position) hf (by rwa [List.take_left])
        rw [List.drop_left, Token.cut, List.take_left] at hscan
        have htoken : s.nextToken =
            (.ok ⟨kind, String.ofList a, ⟨s.position, s.position.advance a⟩⟩,
              { s with rest, position := s.position.advance a }) := by
          simp [Scanner.nextToken, hs, hrest, hscan]
        rw [htoken]
        exact .inr ⟨_, hpass, .token (Rule.kind?_ne_endOfInput hk) hmoves, hnext⟩

end Passes

/-! ## 3. Calls -/

/-- A call: so many passes, the item that is handed out, and the scanner that is left. -/
inductive Call : Nat → ByteScanner → Except Error Token → ByteScanner → Prop where
  | last {b b' : ByteScanner} {item : Except Error Token} :
      b.pass? = some (.handsOut item b') → Call 1 b item b'
  | more {b b' b'' : ByteScanner} {item : Except Error Token} {n : Nat} :
      b.pass? = some (.goesOn b') → Call n b' item b'' → Call (n + 1) b item b''

section Calls

variable {b b' c : ByteScanner} {s : Scanner} {item item' : Except Error Token} {n m : Nat}

/-- A call goes in one way only. -/
theorem Call.unique (h : Call n b item b') (h' : Call m b item' c) :
    n = m ∧ item = item' ∧ b' = c := by
  induction h generalizing m with
  | last hpass =>
    cases h' with
    | last hpass' =>
      cases hpass.symm.trans hpass'
      exact ⟨rfl, rfl, rfl⟩
    | more hpass' _ => cases hpass.symm.trans hpass'
  | more hpass _ ih =>
    cases h' with
    | last hpass' => cases hpass.symm.trans hpass'
    | more hpass' h' =>
      cases hpass.symm.trans hpass'
      obtain ⟨rfl, heq⟩ := ih h'
      exact ⟨rfl, heq⟩

/-- **A call comes to its end**, with one pass for each byte that is left, and one more, at most.
It hands out what the scanner does that it stands for. -/
theorem StandsFor.exists_call (h : b.StandsFor s) :
    ∃ n b', Call n b s.nextToken.1 b' ∧ n ≤ b.size - b.cursor + 1 ∧ b'.source = b.source ∧
      b'.StandsFor s.nextToken.2 := by
  -- On the bytes that are left: a pass that hands out nothing leaves fewer.
  induction hleft : b.size - b.cursor using Nat.strong_induction_on generalizing b s with
  | _ left ih =>
    rcases h.exists_pass with
      ⟨b', s', hpass, hmoves, hnext, htoken⟩ | ⟨b', hpass, hdelivers, hnext⟩
    · have hsize : b'.size = b.size := congrArg String.utf8ByteSize hmoves.source_eq
      have hlt := hmoves.cursor_lt
      have hle := hmoves.cursor_le
      obtain ⟨n, b'', hcall, hn, hsource, hlast⟩ := ih _ (by omega) hnext rfl
      rw [htoken] at hcall hlast
      exact ⟨n + 1, b'', .more hpass hcall, by omega, hsource.trans hmoves.source_eq, hlast⟩
    · exact ⟨1, b', .last hpass, by omega, hdelivers.source_eq, hnext⟩

end Calls

/-! ## 4. Where a scanner gets to -/

/-- The scanners that there can be, also in the middle of a call. -/
inductive Reachable : ByteScanner → Prop where
  | new (source : String) : Reachable (ofSource source)
  | load {b : ByteScanner} (source : String) : Reachable b → Reachable (b.load source)
  | goesOn {b b' : ByteScanner} :
      Reachable b → b.pass? = some (.goesOn b') → Reachable b'
  | handsOut {b b' : ByteScanner} {item : Except Error Token} :
      Reachable b → b.pass? = some (.handsOut item b') → Reachable b'
  | enter {b : ByteScanner} (m : Mode) : Reachable b → Reachable (b.enter m)
  | leave {b b' : ByteScanner} {m : Mode} :
      Reachable b → b.leave? = some (m, b') → Reachable b'

section Reaching

variable {b b' : ByteScanner} {s : Scanner} {item : Except Error Token} {n : Nat} {m : Mode}

theorem Call.reachable (h : Call n b item b') (hb : b.Reachable) : b'.Reachable := by
  induction h with
  | last hpass => exact hb.handsOut hpass
  | more hpass _ ih => exact ih (hb.goesOn hpass)

theorem StandsFor.enter (h : b.StandsFor s) (m : Mode) : (b.enter m).StandsFor (s.enter m) :=
  ⟨h.reading, h.past_end, h.lineStart_le, h.position_eq, h.failed_eq, congrArg (m :: ·) h.modes_eq⟩

/-- A mode is left by both or by neither. -/
theorem StandsFor.leave? (h : b.StandsFor s) :
    b.leave? = none ∧ s.leave? = none ∨
      ∃ m b' s', b.leave? = some (m, b') ∧ s.leave? = some (m, s') ∧ b'.source = b.source ∧
        b'.StandsFor s' := by
  unfold ByteScanner.leave? Scanner.leave?
  rw [h.modes_eq]
  cases hentered : s.entered with
  | nil => exact .inl ⟨rfl, rfl⟩
  | cons m below =>
    refine .inr ⟨m, { b with modes := below ++ [.initial] }, _, ?_, rfl, rfl,
      h.reading, h.past_end, h.lineStart_le, h.position_eq, h.failed_eq, rfl⟩
    rw [if_neg (by simp)]
    rfl

/-- Whatever was done, it stands for some scanner. -/
theorem Reachable.exists_standsFor (h : b.Reachable) : ∃ s, b.StandsFor s := by
  induction h with
  | new source => exact ⟨_, standsFor_ofSource source⟩
  | load source _ _ => exact ⟨_, standsFor_ofSource source⟩
  | goesOn _ hpass ih =>
    obtain ⟨s, hs⟩ := ih
    rcases hs.exists_pass with ⟨_, s', hpass', -, hnext, -⟩ | ⟨_, hpass', -⟩
    · cases hpass.symm.trans hpass'
      exact ⟨s', hnext⟩
    · cases hpass.symm.trans hpass'
  | handsOut _ hpass ih =>
    obtain ⟨s, hs⟩ := ih
    rcases hs.exists_pass with ⟨_, _, hpass', -⟩ | ⟨_, hpass', -, hnext⟩
    · cases hpass.symm.trans hpass'
    · cases hpass.symm.trans hpass'
      exact ⟨_, hnext⟩
  | enter m _ ih =>
    obtain ⟨s, hs⟩ := ih
    exact ⟨_, hs.enter m⟩
  | leave _ hleave ih =>
    obtain ⟨s, hs⟩ := ih
    rcases hs.leave? with ⟨hnone, -⟩ | ⟨_, _, s', hleave', -, -, hnext⟩
    · cases hleave.symm.trans hnone
    · cases hleave.symm.trans hleave'
      exact ⟨s', hnext⟩

/-- One step of a session. -/
theorem StandsFor.exists_step {x : Session} (h : b.StandsFor x.scanner) (hb : b.Reachable)
    (hsource : b.source = x.source) (a : Scanner.Step) :
    ∃ c : ByteScanner, c.Reachable ∧ c.source = (x.step a).source ∧
      c.StandsFor (x.step a).scanner := by
  obtain ⟨n, b', hcall, -, hsource', hnext⟩ := h.exists_call
  cases a with
  | nextToken => exact ⟨b', hcall.reachable hb, hsource'.trans hsource, hnext⟩
  | next =>
    rw [Session.step, Scanner.next?]
    split
    · exact ⟨b, hb, hsource, h⟩
    · exact ⟨b', hcall.reachable hb, hsource'.trans hsource, hnext⟩
  | load source => exact ⟨b.load source, hb.load source, rfl, standsFor_ofSource source⟩
  | enter m => exact ⟨b.enter m, hb.enter m, hsource, h.enter m⟩
  | leave =>
    rw [Session.step]
    rcases h.leave? with ⟨-, hnone⟩ | ⟨m, c, s', hleave, hleave', hsource', hnext⟩
    · rw [hnone]
      exact ⟨b, hb, hsource, h⟩
    · rw [hleave']
      exact ⟨c, hb.leave hleave, hsource'.trans hsource, hnext⟩

/-- **Each scanner in use has one that counts bytes and stands for it.** -/
theorem exists_standsFor_run (source : String) (steps : List Scanner.Step) :
    ∃ b : ByteScanner, b.Reachable ∧ b.source = (Session.run source steps).source ∧
      b.StandsFor (Session.run source steps).scanner := by
  have hfoldl (x : Session) (b : ByteScanner) (hb : b.Reachable) (hsource : b.source = x.source)
      (h : b.StandsFor x.scanner) :
      ∃ c : ByteScanner, c.Reachable ∧ c.source = (steps.foldl Session.step x).source ∧
        c.StandsFor (steps.foldl Session.step x).scanner := by
    induction steps generalizing x b with
    | nil => exact ⟨b, hb, hsource, h⟩
    | cons a steps ih =>
      obtain ⟨c, hc, hsource', hnext⟩ := h.exists_step hb hsource a
      exact ih _ c hc hsource' hnext
  exact hfoldl _ _ (.new source) rfl (standsFor_ofSource source)

end Reaching

/-- A scanner goes forward in its source, and each call comes to its end. -/
structure Progresses (b : ByteScanner) : Prop where
  /-- The cursor is at a boundary of two characters, at an end of the source, or one byte behind. -/
  cursor_valid : (∃ front rest, cutAt? b.cursor b.source.toList = some (front, rest)) ∨
    b.cursor = b.size + 1
  /-- The line of the cursor has begun, so its column is a difference. -/
  line_begun : b.lineStart ≤ min b.cursor b.size
  /-- A match takes some bytes, over which the pass moves the cursor, and no further. -/
  match_moves (front rest : List Char) (r : Rule) (length : Nat) :
    cutAt? b.cursor b.source.toList = some (front, rest) → b.match? rest = some (r, length) →
    0 < length ∧ ∃ b', b.MovesTo b' ∧ b'.cursor = b.cursor + length ∧
      (b.pass? = some (.goesOn b') ∨ ∃ t, b.pass? = some (.handsOut (.ok t) b'))
  /-- No cut is refused in a pass.  It moves the cursor forward over a silent match, or hands out an
  item. -/
  pass_ok : (∃ b', b.pass? = some (.goesOn b') ∧ b.MovesTo b') ∨
    ∃ item b', b.pass? = some (.handsOut item b') ∧ b.Delivers item b'
  /-- The passes of a call are no more than the bytes that are left, and one. -/
  call_ends : ∃ n item b', Call n b item b' ∧ n ≤ b.size - b.cursor + 1 ∧
    ∀ m item' b'', Call m b item' b'' → m = n ∧ item' = item ∧ b'' = b'

theorem StandsFor.progresses {b : ByteScanner} {s : Scanner} (h : b.StandsFor s) :
    b.Progresses where
  cursor_valid := by
    cases hs : s.ended with
    | true => exact .inr (h.past_end hs).1
    | false =>
      obtain ⟨front, hcut⟩ := h.reading hs
      exact .inl ⟨front, _, hcut⟩
  line_begun := h.lineStart_le
  match_moves _ _ _ _ hcut hmatch := ⟨match?_pos hmatch, h.exists_pass_of_match hcut hmatch⟩
  pass_ok := by
    rcases h.exists_pass with ⟨b', _, hpass, hmoves, -⟩ | ⟨b', hpass, hdelivers, -⟩
    · exact .inl ⟨b', hpass, hmoves⟩
    · exact .inr ⟨_, b', hpass, hdelivers⟩
  call_ends := by
    obtain ⟨n, b', hcall, hn, -⟩ := h.exists_call
    exact ⟨n, _, b', hcall, hn, fun _ _ _ hcall' => hcall'.unique hcall⟩

end ByteScanner

/-! ## 5. The sequence -/

/-- The most items that the sequence can still have. -/
def Scanner.toYield (s : Scanner) : Nat := if s.failed || s.ended then 0 else s.rest.length + 1

namespace Session

variable {x : Session} {a : Scanner.Step}

/-- Whether the step is answered by an item of the sequence. -/
def yields (x : Session) : Scanner.Step → Bool
  | .next => x.scanner.next?.1.isSome
  | _ => false

/-- How many of the steps, taken from here, are answered by an item of the sequence. -/
def yielded : Session → List Scanner.Step → Nat
  | _, [] => 0
  | x, a :: steps => (x.yields a).toNat + (x.step a).yielded steps

end Session

section Sequence

variable {s : Scanner} {x : Session} {a : Scanner.Step}

/-- A call leaves fewer items for the sequence, or none if there were none. -/
theorem Scanner.toYield_nextToken (s : Scanner) : s.nextToken.2.toYield ≤ s.toYield - 1 := by
  unfold nextToken
  split
  · rename_i hended
    simp [toYield, hended]
  · split
    · rename_i t rest hscan
      have hlt := length_lt_of_scan_token hscan
      unfold toYield
      dsimp only
      split
      · exact Nat.zero_le _
      · omega
    · simp [toYield]
    · simp [toYield]

theorem Scanner.toYield_next? (s : Scanner) :
    s.next?.1.isSome.toNat + s.next?.2.toYield ≤ s.toYield := by
  have hcall := s.toYield_nextToken
  unfold next?
  split
  · exact Nat.le_of_eq (Nat.zero_add _)
  · rename_i hnot
    have hpos : s.toYield = s.rest.length + 1 := if_neg hnot
    simp only [Option.isSome_some, Bool.toNat_true]
    omega

namespace Session

theorem yields_add_toYield (ha : a.isLoad = false) :
    (x.yields a).toNat + (x.step a).scanner.toYield ≤ x.scanner.toYield := by
  cases a with
  | nextToken =>
    have hcall := x.scanner.toYield_nextToken
    simp only [yields, step, Bool.toNat_false]
    omega
  | next => exact x.scanner.toYield_next?
  | load source => cases ha
  | enter m => exact Nat.le_of_eq (Nat.zero_add _)
  | leave =>
    obtain ⟨entered, hstep⟩ := exists_step_eq_withModes (x := x) (a := .leave) rfl
    rw [hstep]
    exact Nat.le_of_eq (Nat.zero_add _)

theorem yielded_le_toYield {steps : List Scanner.Step} (h : ∀ a ∈ steps, a.isLoad = false) :
    x.yielded steps ≤ x.scanner.toYield := by
  induction steps generalizing x with
  | nil => exact Nat.zero_le _
  | cons a steps ih =>
    obtain ⟨ha, hsteps⟩ := List.forall_mem_cons.mp h
    have hone := yields_add_toYield (x := x) ha
    have hall := ih (x := x.step a) hsteps
    rw [yielded]
    omega

end Session

/-- A text has no more characters than bytes. -/
theorem length_le_utf8Len (text : List Char) : text.length ≤ String.utf8Len text := by
  induction text with
  | nil => exact Nat.le_refl 0
  | cons c text ih =>
    have hc := c.utf8Size_pos
    rw [List.length_cons, String.utf8Len_cons]
    omega

/-- **The sequence has no more items than the source has bytes, and one**, whatever is asked between
them. -/
theorem Session.yielded_le (x : Session) (source : String) {steps : List Scanner.Step}
    (h : ∀ a ∈ steps, a.isLoad = false) :
    (x.step (.load source)).yielded steps ≤ source.utf8ByteSize + 1 := by
  have hyielded := yielded_le_toYield (x := x.step (.load source)) h
  have hlength := length_le_utf8Len source.toList
  rw [String.utf8Len_toList] at hlength
  exact hyielded.trans (Nat.succ_le_succ hlength)

end Sequence

/-- **A scanner makes progress.**  No rule matches without taking a character.  Wherever a scanner
that counts bytes can get to, its cursor is in its source and on a boundary, or one byte behind the
source when the end of the input has been handed out; no cut of the source is refused; each pass
over a match moves the cursor forward; and a call comes to its end.  Any scanner in use is stood for
by such a one, which hands out the same.  As a sequence it has no more items than its source has
bytes, and one. -/
theorem scanner_makes_progress :
    (∀ (r : Rule) (text : List Char), 0 ∉ r.pattern.ways text) ∧
    (∀ b : ByteScanner, b.Reachable → b.Progresses) ∧
    (∀ (source : String) (steps : List Scanner.Step),
      let x := Session.run source steps
      ∃ b : ByteScanner, b.Reachable ∧ b.source = x.source ∧ b.StandsFor x.scanner ∧
        ∃ n b', ByteScanner.Call n b x.scanner.nextToken.1 b' ∧
          b'.StandsFor x.scanner.nextToken.2) ∧
    ∀ (x : Session) (source : String) (steps : List Scanner.Step),
      (∀ a ∈ steps, a.isLoad = false) →
      (x.step (.load source)).yielded steps ≤ source.utf8ByteSize + 1 := by
  refine ⟨Rule.zero_notMem_ways, ?_, ?_, fun x source steps h => x.yielded_le source h⟩
  · intro b hb
    obtain ⟨s, hs⟩ := hb.exists_standsFor
    exact hs.progresses
  · intro source steps x
    obtain ⟨b, hb, hsource, hstands⟩ := ByteScanner.exists_standsFor_run source steps
    obtain ⟨n, b', hcall, -, -, hnext⟩ := hstands.exists_call
    exact ⟨b, hb, hsource, hstands, n, b', hcall, hnext⟩

/-- Behind the annotation, which is four bytes of three characters, and between two calls that hand
out the word and then the end of the input, for which the second passes over a comment first.  The
second byte is the first half of a character. -/
theorem scanner_makes_progress_annotation :
    let b : ByteScanner := ⟨"\x7bé\x7da//", 4, 1, 0, false, [.initial]⟩
    let steps : List Scanner.Step := [.next, .nextToken, .next]
    (ByteScanner.ofSource "\x7bé\x7da//").pass? = some (.goesOn b) ∧ b.Reachable ∧ b.Progresses ∧
      cutAt? 2 "\x7bé\x7da//".toList = none ∧
      (∀ a ∈ steps, a.isLoad = false) ∧
      ((Session.start "b").step (.load "\x7bé\x7da//")).yielded steps ≤ 8 := by
  intro b steps
  have hpass : (ByteScanner.ofSource "\x7bé\x7da//").pass? = some (.goesOn b) := by
    decide +kernel
  have hreach : b.Reachable := .goesOn (.new _) hpass
  have hsteps : ∀ a ∈ steps, a.isLoad = false := by decide
  obtain ⟨-, hprogress, -, hyielded⟩ := scanner_makes_progress
  exact ⟨hpass, hreach, hprogress b hreach, by decide +kernel, hsteps,
    hyielded (.start "b") "\x7bé\x7da//" steps hsteps⟩

end UnitLang

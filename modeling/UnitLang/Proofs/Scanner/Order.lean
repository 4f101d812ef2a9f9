/-
# The order of items

A scanner has two calls.  One hands out an item whatever happened before, and the other ends with
the sequence.  They may be mixed, and modes entered and left between them.  `Session.KeepsOrder`
says what comes of it: the items of the source in their order, whichever call asks for them, and
behind the last of them that one again from the first call and nothing from the second.

A scanner that has been loaded is in one of two phases.  While it is reading (`Session.Reading`)
what it has handed out and what is still to come are the items of its source; when it is over
(`Session.Over`) no call changes it any more.  One step keeps to the phases (`inOrder_step`), so
all steps do.

Modes are apart from this.  Without the steps that concern them all is the same but the modes
(`forgetModes_foldl`), and their number is counted by the steps (`entered_add_modesLeft`).
-/
import UnitLang.Proofs.Scanner.Session

namespace UnitLang

/-! ## 1. The last item -/

/-- Whether an item is the last of its sequence: the end of the input, or an error. -/
def IsFinal : Except Error Token → Prop
  | .ok t => t.isEnd = true
  | .error _ => True

namespace Items

/-- The last item. -/
def last (is : Items) : Except Error Token :=
  match is.ending with
  | .ended p => .ok (Token.endOfInput p)
  | .failed e => .error e

theorem toList_eq_append_last (is : Items) : is.toList = is.tokens.map .ok ++ [is.last] := by
  unfold toList last
  cases is.ending <;> rfl

theorem isFinal_last (is : Items) : IsFinal is.last := by
  unfold last
  cases is.ending
  · rfl
  · trivial

/-- A token before the last item is not the end of the input. -/
theorem not_isFinal_of_mem {source : String} {item : Except Error Token}
    (h : item ∈ (itemsOf source).tokens.map .ok) : ¬ IsFinal item := by
  obtain ⟨t, ht, rfl⟩ := List.mem_map.mp h
  have hkind := kind_ne_endOfInput_of_mem_itemsOf source t ht
  simpa [IsFinal, Token.isEnd] using hkind

end Items

/-- A scan that is stuck is stuck again from there. -/
theorem scan_stuck_again {p q : Position} {text rest : List Char} {c : Char}
    (h : scan p text = .stuck q c rest) : scan q rest = .stuck q c rest := by
  induction p, text using lex_induction with
  | nil p =>
    rw [scan_nil] at h
    cases h
  | stuck p c rest hf =>
    rw [scan_stuck hf] at h
    cases h
    exact scan_stuck hf
  | silent p text r n hf hk ih =>
    rw [scan_silent hf hk] at h
    exact ih h
  | token p text r n k hf hk ih =>
    rw [scan_token hf hk] at h
    cases h

/-! ## 2. The two phases -/

namespace Session

/-- Some items are still to be handed out: those of the source that have not been yet. -/
structure Reading (x : Session) : Prop where
  not_ended : x.scanner.ended = false
  not_failed : x.scanner.failed = false
  split : (itemsOf x.source).toList = x.delivered ++ x.scanner.items.toList

/-- All items have been handed out, the last of them perhaps several times, and nothing changes any
more. -/
structure Over (x : Session) : Prop where
  delivered : ∃ n, x.delivered =
    (itemsOf x.source).toList ++ List.replicate n (itemsOf x.source).last
  nextToken : x.scanner.nextToken = ((itemsOf x.source).last, x.scanner)
  next : x.scanner.next? = (none, x.scanner)
  hasMore : x.scanner.hasMore = false ↔ ∃ t, (itemsOf x.source).last = .ok t

/-- The session is in one of the two phases. -/
def InOrder (x : Session) : Prop := x.Reading ∨ x.Over

variable {x : Session}

theorem reading_start (source : String) : (start source).Reading := ⟨rfl, rfl, rfl⟩

/-- The item that a call hands out is the first of those that are still to come. -/
theorem Reading.exists_items (h : x.Reading) :
    ∃ later, x.scanner.items.toList = x.scanner.nextToken.1 :: later := by
  rcases Scanner.nextToken_items h.not_ended with
    ⟨t, s', ht, -, -, his⟩ | ⟨p, s', ht, -, his⟩ | ⟨e, s', ht, his⟩
  · exact ⟨s'.items.toList, by rw [his, ht]; rfl⟩
  · exact ⟨[], by rw [his, ht]; rfl⟩
  · exact ⟨[], by rw [his, ht]; rfl⟩

/-- While a scanner is reading, the sequence does not end. -/
theorem Reading.next_eq (h : x.Reading) :
    x.scanner.next? = (some x.scanner.nextToken.1, x.scanner.nextToken.2) := by
  unfold Scanner.next?
  rw [h.not_ended, h.not_failed]
  rfl

/-- The item that is left when it is the only one. -/
theorem Reading.last_eq {item : Except Error Token} (h : x.Reading)
    (hitem : x.scanner.items.toList = [item]) : (itemsOf x.source).last = item := by
  have hsplit := h.split
  rw [hitem, Items.toList_eq_append_last] at hsplit
  obtain ⟨-, hlast⟩ := List.append_inj' hsplit rfl
  exact List.singleton_inj.mp hlast

/-- **While it is reading**, a call hands out the next item and reads on, or hands out the last. -/
theorem Reading.step_nextToken (h : x.Reading) : (x.step .nextToken).InOrder := by
  have hended := h.not_ended
  have hsplit := h.split
  have hitems : x.scanner.items = items x.scanner.position x.scanner.rest := rfl
  rw [items_eq_scan] at hitems
  unfold step Scanner.nextToken
  rw [if_neg (by simp [hended])]
  cases hscan : scan x.scanner.position x.scanner.rest with
  | token t rest =>
    rw [hscan] at hitems
    refine .inl ⟨hended, h.not_failed, hsplit.trans ?_⟩
    rw [hitems, List.append_assoc]
    rfl
  | ended p =>
    rw [hscan] at hitems
    have hlist : x.scanner.items.toList = [.ok (Token.endOfInput p)] := by rw [hitems]; rfl
    have hlast := h.last_eq hlist
    refine .inr ⟨⟨0, ?_⟩, ?_, ?_, ?_⟩
    · rw [hsplit, hlist, List.replicate_zero, List.append_nil]
    · rw [Scanner.nextToken_of_ended rfl, hlast]
    · simp [Scanner.next?]
    · simp [Scanner.hasMore, hlast]
  | stuck p c rest =>
    rw [hscan] at hitems
    have hlist : x.scanner.items.toList = [.error (.unrecognised p c)] := by rw [hitems]; rfl
    have hlast := h.last_eq hlist
    refine .inr ⟨⟨0, ?_⟩, ?_, ?_, ?_⟩
    · rw [hsplit, hlist, List.replicate_zero, List.append_nil]
    · simp [Scanner.nextToken, hended, scan_stuck_again hscan, hlast]
    · simp [Scanner.next?]
    · simp [Scanner.hasMore, hended, hlast]

/-- **When it is over**, a call hands out the last item again and changes nothing. -/
theorem Over.step_nextToken (h : x.Over) : (x.step .nextToken).Over := by
  obtain ⟨n, hn⟩ := h.delivered
  unfold step
  rw [h.nextToken]
  refine ⟨⟨n + 1, ?_⟩, h.nextToken, h.next, h.hasMore⟩
  rw [hn, List.append_assoc, List.replicate_succ']

theorem Over.step_next (h : x.Over) : x.step .next = x := by
  unfold step
  rw [h.next]
  simp

end Session

/-! ## 3. Modes are apart -/

namespace Scanner

/-- The scanner with other modes entered. -/
def withModes (s : Scanner) (entered : List Mode) : Scanner := { s with entered }

/-- Modes have no influence on what a call hands out, nor the call on them. -/
theorem nextToken_withModes (s : Scanner) (entered : List Mode) :
    (s.withModes entered).nextToken = (s.nextToken.1, s.nextToken.2.withModes entered) := by
  unfold nextToken withModes
  dsimp only
  split
  · rfl
  · split <;> rfl

theorem next?_withModes (s : Scanner) (entered : List Mode) :
    (s.withModes entered).next? = (s.next?.1, s.next?.2.withModes entered) := by
  unfold next?
  rw [nextToken_withModes]
  unfold withModes
  dsimp only
  split <;> rfl

theorem entered_nextToken (s : Scanner) : s.nextToken.2.entered = s.entered := by
  unfold nextToken
  split
  · rfl
  · split <;> rfl

theorem entered_next? (s : Scanner) : s.next?.2.entered = s.entered := by
  unfold next?
  split
  · rfl
  · exact s.entered_nextToken

theorem isSome_leave?_iff (s : Scanner) : s.leave?.isSome = true ↔ 0 < s.entered.length := by
  unfold leave?
  cases s.entered <;> simp

/-- Whether the step loads another source. -/
def Step.isLoad : Step → Bool
  | load _ => true
  | _ => false

/-- Whether the step enters a mode. -/
def Step.isEnter : Step → Bool
  | enter _ => true
  | _ => false

/-- Whether the step enters or leaves a mode. -/
def Step.isMode : Step → Bool
  | enter _ | leave => true
  | _ => false

end Scanner

namespace Session

variable {x z : Session} {a : Scanner.Step}

/-- The session with other modes entered. -/
def withModes (x : Session) (entered : List Mode) : Session :=
  { x with scanner := x.scanner.withModes entered }

/-- The session as if no mode had been entered. -/
def forgetModes (x : Session) : Session := x.withModes []

/-- A step that enters or leaves a mode, or is refused, changes the modes only. -/
theorem exists_step_eq_withModes (h : a.isMode = true) :
    ∃ entered, x.step a = x.withModes entered := by
  cases a with
  | enter m => exact ⟨m :: x.scanner.entered, rfl⟩
  | leave =>
    unfold step Scanner.leave?
    cases hentered : x.scanner.entered with
    | nil => exact ⟨x.scanner.entered, rfl⟩
    | cons m below => exact ⟨below, rfl⟩
  | nextToken | next | load => cases h

/-- Any other step is the same whatever modes have been entered. -/
theorem step_forgetModes (h : a.isMode = false) :
    (x.step a).forgetModes = x.forgetModes.step a := by
  cases a with
  | nextToken => simp only [forgetModes, withModes, step, Scanner.nextToken_withModes]
  | next => simp only [forgetModes, withModes, step, Scanner.next?_withModes]
  | load source => rfl
  | enter | leave => cases h

/-- **Without the steps that concern modes** all is the same but the modes. -/
theorem forgetModes_foldl (h : x.forgetModes = z.forgetModes) (steps : List Scanner.Step) :
    ((steps.filter (!·.isMode)).foldl step x).forgetModes =
      (steps.foldl step z).forgetModes := by
  induction steps generalizing x z with
  | nil => exact h
  | cons a steps ih =>
    cases ha : a.isMode with
    | true =>
      obtain ⟨entered, hstep⟩ := exists_step_eq_withModes (x := z) ha
      have hz : (z.step a).forgetModes = z.forgetModes := by rw [hstep]; rfl
      rw [List.filter_cons_of_neg (by simp [ha])]
      exact ih (h.trans hz.symm)
    | false =>
      rw [List.filter_cons_of_pos (by simp [ha])]
      refine ih ?_
      rw [step_forgetModes ha, step_forgetModes ha, h]

/-- Whether the step leaves a mode; at the outermost this is refused. -/
def leaves (x : Session) : Scanner.Step → Bool
  | .leave => x.scanner.leave?.isSome
  | _ => false

/-- How many of the steps, taken from here, leave a mode. -/
def modesLeft : Session → List Scanner.Step → Nat
  | _, [] => 0
  | x, a :: steps => (x.leaves a).toNat + (x.step a).modesLeft steps

/-- A step enters a mode, leaves one, or leaves the modes as they are. -/
theorem entered_step (h : a.isLoad = false) :
    (x.step a).scanner.entered.length + (x.leaves a).toNat =
      x.scanner.entered.length + a.isEnter.toNat := by
  cases a with
  | nextToken => exact congrArg List.length x.scanner.entered_nextToken
  | next => exact congrArg List.length x.scanner.entered_next?
  | enter m => rfl
  | leave =>
    unfold step leaves Scanner.leave?
    cases hentered : x.scanner.entered with
    | nil => simp [hentered, Scanner.Step.isEnter]
    | cons m below => simp [Scanner.Step.isEnter]
  | load source => cases h

/-- **The modes are those that have been entered and not left.** -/
theorem entered_add_modesLeft {steps : List Scanner.Step} (h : ∀ a ∈ steps, a.isLoad = false) :
    (steps.foldl step x).scanner.entered.length + x.modesLeft steps =
      x.scanner.entered.length + steps.countP Scanner.Step.isEnter := by
  induction steps generalizing x with
  | nil => rfl
  | cons a steps ih =>
    obtain ⟨ha, hsteps⟩ := List.forall_mem_cons.mp h
    have hone := entered_step (x := x) ha
    have hall := ih (x := x.step a) hsteps
    rw [List.foldl_cons, modesLeft, List.countP_cons]
    cases hent : a.isEnter <;> simp [hent] at hone ⊢ <;> omega

/-! ## 4. All steps -/

theorem InOrder.withModes (h : x.InOrder) (entered : List Mode) :
    (x.withModes entered).InOrder := by
  rcases h with h | h
  · exact .inl ⟨h.not_ended, h.not_failed, h.split⟩
  · refine .inr ⟨h.delivered, ?_, ?_, h.hasMore⟩
    · exact (x.scanner.nextToken_withModes entered).trans (by rw [h.nextToken]; rfl)
    · exact (x.scanner.next?_withModes entered).trans (by rw [h.next]; rfl)

/-- **One step keeps to the phases.** -/
theorem inOrder_step (h : x.InOrder) (a : Scanner.Step) : (x.step a).InOrder := by
  cases a with
  | nextToken => exact h.elim Reading.step_nextToken fun h => .inr h.step_nextToken
  | next =>
    rcases h with h | h
    · have hstep : x.step .next = x.step .nextToken := by
        unfold step
        rw [h.next_eq]
        rfl
      rw [hstep]
      exact h.step_nextToken
    · rw [h.step_next]
      exact .inr h
  | load source => exact .inl (reading_start source)
  | enter m =>
    obtain ⟨entered, hstep⟩ := exists_step_eq_withModes (x := x) (a := .enter m) rfl
    rw [hstep]
    exact h.withModes entered
  | leave =>
    obtain ⟨entered, hstep⟩ := exists_step_eq_withModes (x := x) (a := .leave) rfl
    rw [hstep]
    exact h.withModes entered

theorem inOrder_foldl (h : x.InOrder) (steps : List Scanner.Step) :
    (steps.foldl step x).InOrder := by
  induction steps generalizing x with
  | nil => exact h
  | cons a steps ih => exact ih (inOrder_step h a)

/-- The source is the one that was loaded last. -/
theorem source_foldl {steps : List Scanner.Step} (h : ∀ a ∈ steps, a.isLoad = false) :
    (steps.foldl step x).source = x.source := by
  induction steps generalizing x with
  | nil => rfl
  | cons a steps ih =>
    obtain ⟨ha, hsteps⟩ := List.forall_mem_cons.mp h
    rw [List.foldl_cons, ih hsteps]
    cases a with
    | load => cases ha
    | leave =>
      obtain ⟨entered, hstep⟩ := exists_step_eq_withModes (x := x) (a := .leave) rfl
      rw [hstep]
      rfl
    | nextToken | next | enter => rfl

/-! ## 5. The order -/

/-- The items of the source have been handed out in their order, and are going to be. -/
structure KeepsOrder (x : Session) : Prop where
  /-- No item has been left out or handed out twice, but for the last. -/
  in_order : x.delivered <+: (itemsOf x.source).toList ∨
    ∃ n, x.delivered = (itemsOf x.source).toList ++ List.replicate n (itemsOf x.source).last
  /-- As long as there is a next item, either call hands it out. -/
  next_item : ∀ item, (itemsOf x.source).toList[x.delivered.length]? = some item →
    x.scanner.nextToken.1 = item ∧ x.scanner.next?.1 = some item
  /-- Once the end of the input or an error has been handed out, one call hands it out again and
  the other nothing, and the scanner stays as it is. -/
  final : ∀ item ∈ x.delivered, IsFinal item →
    x.scanner.nextToken = (item, x.scanner) ∧ x.scanner.next? = (none, x.scanner)
  /-- There is more just until the end of the input has been handed out. -/
  hasMore_iff : x.scanner.hasMore = false ↔ ∃ t, .ok t ∈ x.delivered ∧ t.isEnd = true

/-- While there are items to come, the last has not been handed out. -/
theorem Reading.not_isFinal {item : Except Error Token} (h : x.Reading)
    (hitem : item ∈ x.delivered) : ¬ IsFinal item := by
  obtain ⟨later, hlater⟩ := h.exists_items
  have hsplit := h.split
  rw [hlater, Items.toList_eq_append_last] at hsplit
  have hfront := congrArg List.dropLast hsplit
  rw [List.dropLast_concat, List.dropLast_append_of_ne_nil (List.cons_ne_nil _ _)] at hfront
  have hmem : item ∈ (itemsOf x.source).tokens.map .ok := by
    rw [hfront]
    exact List.mem_append_left _ hitem
  exact Items.not_isFinal_of_mem hmem

theorem Reading.keepsOrder (h : x.Reading) : x.KeepsOrder where
  in_order := .inl ⟨_, h.split.symm⟩
  next_item item hitem := by
    obtain ⟨later, hlater⟩ := h.exists_items
    rw [h.split, hlater] at hitem
    obtain rfl : x.scanner.nextToken.1 = item := by simpa using hitem
    exact ⟨rfl, by rw [h.next_eq]⟩
  final item hitem hfinal := absurd hfinal (h.not_isFinal hitem)
  hasMore_iff := by
    constructor
    · intro hmore
      rw [Scanner.hasMore, h.not_ended] at hmore
      cases hmore
    · rintro ⟨t, ht, hend⟩
      exact absurd hend (h.not_isFinal ht)

/-- Of all that has been handed out, only the last item can end the sequence. -/
theorem Over.eq_last {item : Except Error Token} (h : x.Over) (hitem : item ∈ x.delivered)
    (hfinal : IsFinal item) : item = (itemsOf x.source).last := by
  obtain ⟨n, hn⟩ := h.delivered
  rw [hn, Items.toList_eq_append_last, List.append_assoc] at hitem
  rcases List.mem_append.mp hitem with hitem | hitem
  · exact absurd hfinal (Items.not_isFinal_of_mem hitem)
  · rcases List.mem_cons.mp hitem with heq | hitem
    · exact heq
    · exact List.eq_of_mem_replicate hitem

theorem Over.keepsOrder (h : x.Over) : x.KeepsOrder where
  in_order := .inr h.delivered
  next_item item hitem := by
    obtain ⟨n, hn⟩ := h.delivered
    obtain ⟨hlt, -⟩ := List.getElem?_eq_some_iff.mp hitem
    rw [hn, List.length_append] at hlt
    omega
  final item hitem hfinal := by
    rw [h.eq_last hitem hfinal]
    exact ⟨h.nextToken, h.next⟩
  hasMore_iff := by
    refine h.hasMore.trans ⟨?_, ?_⟩
    · rintro ⟨t, ht⟩
      obtain ⟨n, hn⟩ := h.delivered
      have hfinal := (itemsOf x.source).isFinal_last
      rw [ht] at hfinal
      refine ⟨t, ?_, hfinal⟩
      rw [hn, Items.toList_eq_append_last, ht]
      simp
    · rintro ⟨t, ht, hend⟩
      exact ⟨t, (h.eq_last ht hend).symm⟩

end Session

/-- **A scanner hands out its items in order, however it is used.**  Take any session, load a source
and go on with any calls and modes.  The items of the source are handed out one after the other,
none left out and none twice, until the last; from then on nothing changes.  Modes have no influence
on this.  A mode can be left just when more have been entered since the loading than left. -/
theorem handed_out_in_order (x : Session) (source : String) {steps : List Scanner.Step}
    (hsteps : ∀ a ∈ steps, a.isLoad = false) :
    let loaded := x.step (.load source)
    let y := steps.foldl Session.step loaded
    y.source = source ∧ y.KeepsOrder ∧
      ((steps.filter (!·.isMode)).foldl Session.step loaded).forgetModes = y.forgetModes ∧
      y.scanner.entered.length + loaded.modesLeft steps =
        steps.countP Scanner.Step.isEnter ∧
      (y.scanner.leave?.isSome = true ↔
        loaded.modesLeft steps < steps.countP Scanner.Step.isEnter) := by
  intro loaded y
  have hcount : y.scanner.entered.length + loaded.modesLeft steps =
      steps.countP Scanner.Step.isEnter :=
    (Session.entered_add_modesLeft hsteps).trans (Nat.zero_add _)
  refine ⟨?_, ?_, Session.forgetModes_foldl rfl steps, hcount, ?_⟩
  · exact Session.source_foldl hsteps
  · have hstart : loaded.InOrder := .inl (Session.reading_start source)
    exact (Session.inOrder_foldl hstart steps).elim Session.Reading.keepsOrder
      Session.Over.keepsOrder
  · rw [Scanner.isSome_leave?_iff]
    omega

/-- An error is handed out by one call and then by the other, between modes, of which one more is
asked to be left than was entered.  The end of the input is handed out again too, but the sequence
ends behind it. -/
theorem handed_out_in_order_again :
    (let steps : List Scanner.Step :=
        [.leave, .enter .initial, .next, .leave, .nextToken, .next, .leave, .nextToken]
      let loaded := (Session.run "b" [.next, .enter .initial, .nextToken]).step (.load "a @")
      let y := steps.foldl Session.step loaded
      (∀ a ∈ steps, a.isLoad = false) ∧
        y.delivered = [.ok ⟨.identifier, "a", ⟨⟨0, 1, 0⟩, ⟨1, 1, 1⟩⟩⟩,
          .error (.unrecognised ⟨2, 1, 2⟩ '@'), .error (.unrecognised ⟨2, 1, 2⟩ '@')] ∧
        y.scanner.nextToken = (.error (.unrecognised ⟨2, 1, 2⟩ '@'), y.scanner) ∧
        y.scanner.next? = (none, y.scanner) ∧ y.scanner.hasMore = true ∧
        y.scanner.leave?.isSome = false) ∧
    (let steps : List Scanner.Step := [.enter .initial, .next, .nextToken, .next, .nextToken]
      let y := steps.foldl Session.step ((Session.start "b").step (.load "a"))
      (∀ a ∈ steps, a.isLoad = false) ∧
        y.delivered = [.ok ⟨.identifier, "a", ⟨⟨0, 1, 0⟩, ⟨1, 1, 1⟩⟩⟩,
          .ok (.endOfInput ⟨1, 1, 1⟩), .ok (.endOfInput ⟨1, 1, 1⟩)] ∧
        y.scanner.nextToken = (.ok (.endOfInput ⟨1, 1, 1⟩), y.scanner) ∧
        y.scanner.next? = (none, y.scanner) ∧ y.scanner.hasMore = false ∧
        y.scanner.leave?.isSome = true) := by
  refine ⟨?_, ?_⟩
  · intro steps loaded y
    have hsteps : ∀ a ∈ steps, a.isLoad = false := by decide
    have hdelivered : y.delivered = [.ok ⟨.identifier, "a", ⟨⟨0, 1, 0⟩, ⟨1, 1, 1⟩⟩⟩,
        .error (.unrecognised ⟨2, 1, 2⟩ '@'), .error (.unrecognised ⟨2, 1, 2⟩ '@')] := by
      decide +kernel
    obtain ⟨-, horder, -, -, hleave⟩ := handed_out_in_order
      (Session.run "b" [.next, .enter .initial, .nextToken]) "a @" hsteps
    have hfinal := horder.final (.error (.unrecognised ⟨2, 1, 2⟩ '@'))
      (by rw [hdelivered]; simp) trivial
    refine ⟨hsteps, hdelivered, hfinal.1, hfinal.2, by decide +kernel, ?_⟩
    rw [Bool.eq_false_iff, ne_eq, hleave]
    decide +kernel
  · intro steps y
    have hsteps : ∀ a ∈ steps, a.isLoad = false := by decide
    have hdelivered : y.delivered = [.ok ⟨.identifier, "a", ⟨⟨0, 1, 0⟩, ⟨1, 1, 1⟩⟩⟩,
        .ok (.endOfInput ⟨1, 1, 1⟩), .ok (.endOfInput ⟨1, 1, 1⟩)] := by
      decide +kernel
    obtain ⟨-, horder, -, -, hleave⟩ :=
      handed_out_in_order (Session.start "b") "a" hsteps
    have hmem : .ok (.endOfInput ⟨1, 1, 1⟩) ∈ y.delivered := by
      rw [hdelivered]
      simp
    have hfinal := horder.final _ hmem rfl
    refine ⟨hsteps, hdelivered, hfinal.1, hfinal.2, ?_, ?_⟩
    · exact horder.hasMore_iff.mpr ⟨_, hmem, rfl⟩
    · rw [hleave]
      decide +kernel

end UnitLang

/-
# The parse stack after any history

The same stack can be kept in one row of slots, the bottom slot among them (`SlotRow`).  Nothing in
the type of a row keeps the bottom from being popped, from having a value or from having another
state than 0, nor the other slots from having none; and several symbols are popped by cutting off
their slots before these are asked for their values, so that one slot without a value would lose
the symbols of all.

None of this ever happens.  Whatever has been shifted, pushed, popped and reset, and in whatever
order, the row is that of a parse stack (`SlotRow.run_eq_row`), and it gives the answers that the
stack gives (`ParseStack.row_answers`).

What the stack holds then is told by the history alone.  A cell that was pushed is still there if
the depth has not fallen back since to what it was before, and the cells that are still there lie in
the order in which they were pushed (`ParseStack.pushed_run`).
-/
import Mathlib.Data.List.DropRight
import UnitLang.ParseStack

namespace UnitLang

/-! ## 1. A stack in one row -/

/-- A state, and the value of the symbol by which it was entered, if there is one. -/
structure Slot where
  state : Nat
  value? : Option Value
deriving DecidableEq

/-- The slot at the bottom of a stack. -/
def Slot.bottom : Slot := ⟨0, none⟩

/-- The slot that a cell takes. -/
def Cell.slot (cell : Cell) : Slot := ⟨cell.state, some cell.value⟩

/-- A stack by its slots, the bottom first. -/
structure SlotRow where
  slots : List Slot
deriving DecidableEq

namespace SlotRow

/-- The row that has its bottom only. -/
def empty : SlotRow := ⟨[.bottom]⟩

/-- The row with all slots removed and a new bottom. -/
def reset (_ : SlotRow) : SlotRow := ⟨[.bottom]⟩

/-- The state on top. -/
def topState? (r : SlotRow) : Option Nat := r.slots.getLast?.map (·.state)

/-- The number of slots above the bottom. -/
def depth (r : SlotRow) : Nat := r.slots.length - 1

/-- Whether there is one slot, and its state is 0. -/
def isBottom (r : SlotRow) : Bool :=
  r.slots.length == 1 && r.slots.head?.any (·.state == 0)

/-- Goes to `state` by a value. -/
def push (r : SlotRow) (state : Nat) (value : Value) : SlotRow :=
  ⟨r.slots ++ [⟨state, some value⟩]⟩

/-- Removes the top slot, unless there is none above the bottom. -/
def pop (r : SlotRow) : Option Slot × SlotRow :=
  if r.depth = 0 then (none, r) else (r.slots.getLast?, ⟨r.slots.dropLast⟩)

/-- Cuts off the top `count` slots, unless there are fewer above the bottom, and gives their values
if they all have one. -/
def popSymbols (r : SlotRow) (count : Nat) : Option (List Value) × SlotRow :=
  if count > r.depth then (none, r)
  else
    let left := r.slots.length - count
    ((r.slots.drop left).mapM (·.value?), ⟨r.slots.take left⟩)

/-- Removes the top slot `count` times, and gives all answers in turn. -/
def popEach : Nat → SlotRow → List (Option Slot) × SlotRow
  | 0, r => ([], r)
  | count + 1, r =>
    let (answers, below) := popEach count r.pop.2
    (r.pop.1 :: answers, below)

end SlotRow

/-! ## 2. The row of a stack -/

namespace ParseStack

/-- The cells of a stack in the order in which they were pushed. -/
def pushed (s : ParseStack) : List Cell := s.cells.reverse

/-- A stack in one row. -/
def row (s : ParseStack) : SlotRow := ⟨.bottom :: s.pushed.map Cell.slot⟩

section Row

variable {s : ParseStack} {n : Nat}

@[simp] theorem length_pushed (s : ParseStack) : s.pushed.length = s.depth :=
  List.length_reverse

theorem pushed_push (s : ParseStack) (state : Nat) (v : Value) :
    (s.push state v).pushed = s.pushed ++ [⟨state, v⟩] :=
  List.reverse_cons

theorem row_push (s : ParseStack) (state : Nat) (v : Value) :
    (s.push state v).row = s.row.push state v := by
  simp [row, SlotRow.push, pushed_push, Cell.slot]

@[simp] theorem depth_row (s : ParseStack) : s.row.depth = s.depth := by
  simp [row, SlotRow.depth]

theorem isBottom_row (s : ParseStack) : s.row.isBottom = s.isBottom := by
  obtain ⟨cells⟩ := s
  cases cells <;> simp [row, pushed, SlotRow.isBottom, isBottom, Slot.bottom]

theorem topState?_row (s : ParseStack) : s.row.topState? = some s.topState := by
  obtain ⟨cells⟩ := s
  cases cells with
  | nil => rfl
  | cons cell below =>
    simp [row, pushed, SlotRow.topState?, topState, Cell.slot, List.getLast?_cons]

/-- Popping from the row is popping from the stack; the bottom stays in both. -/
theorem pop_row (s : ParseStack) :
    s.row.pop =
      match s.pop? with
      | some (cell, below) => (some cell.slot, below.row)
      | none => (none, s.row) := by
  obtain ⟨cells⟩ := s
  cases cells with
  | nil => rfl
  | cons cell below =>
    have hdepth : (⟨cell :: below⟩ : ParseStack).row.depth ≠ 0 := by simp [depth]
    have hslots : (⟨cell :: below⟩ : ParseStack).row.slots =
        (⟨below⟩ : ParseStack).row.slots ++ [cell.slot] := by
      simp [row, pushed]
    rw [SlotRow.pop, if_neg hdepth, hslots, List.getLast?_concat, List.dropLast_concat]
    rfl

/-- The slots of cells all have a value. -/
theorem mapM_value?_slot (cells : List Cell) :
    (cells.map Cell.slot).mapM (·.value?) = some (cells.map (·.value)) := by
  induction cells with
  | nil => rfl
  | cons cell cells ih => simp [ih, Cell.slot]

/-- A row that is cut above its bottom. -/
theorem slots_row_cut (h : n ≤ s.depth) :
    s.row.slots.take (s.row.slots.length - n) = .bottom :: (s.pushed.rdrop n).map Cell.slot ∧
      s.row.slots.drop (s.row.slots.length - n) = (s.pushed.rtake n).map Cell.slot := by
  have hlength : s.row.slots.length - n = (s.depth - n) + 1 := by
    simp only [row, List.length_cons, List.length_map, length_pushed]
    omega
  rw [hlength, row, List.take_succ_cons, List.drop_succ_cons, ← List.map_take, ← List.map_drop,
    ← length_pushed]
  exact ⟨rfl, rfl⟩

/-- **Cutting off the top slots of the row gives their values**, as many as are asked for, and none
is lost. -/
theorem popSymbols_row (s : ParseStack) (n : Nat) :
    s.row.popSymbols n =
      match s.popSymbols? n with
      | some (values, below) => (some values, below.row)
      | none => (none, s.row) := by
  unfold SlotRow.popSymbols popSymbols?
  rw [depth_row]
  by_cases h : n ≤ s.depth
  · obtain ⟨htake, hdrop⟩ := slots_row_cut h
    rw [if_neg (Nat.not_lt.mpr h), if_pos h]
    dsimp only
    rw [htake, hdrop, mapM_value?_slot, List.rtake_eq_reverse_take_reverse,
      List.rdrop_eq_reverse_drop_reverse]
    simp [row, pushed]
  · rw [if_pos (Nat.not_le.mp h), if_neg h]

/-- Single pops give the top cells, the latest first. -/
theorem popEach_row (h : n ≤ s.depth) :
    s.row.popEach n = ((s.cells.take n).map fun cell => some cell.slot,
      (⟨s.cells.drop n⟩ : ParseStack).row) := by
  induction n generalizing s with
  | zero => rfl
  | succ n ih =>
    obtain ⟨cells⟩ := s
    cases cells with
    | nil => simp [depth] at h
    | cons cell below =>
      have hbelow : n ≤ (⟨below⟩ : ParseStack).depth := Nat.le_of_succ_le_succ h
      rw [SlotRow.popEach, pop_row]
      simp only [pop?, ih hbelow]
      rfl

end Row

/-- The row answers all questions as the stack does. -/
structure Answers (s : ParseStack) (r : SlotRow) : Prop where
  topState : r.topState? = some s.topState
  depth : r.depth = s.depth
  isBottom : r.isBottom = s.isBottom
  pop : r.pop =
    match s.pop? with
    | some (cell, below) => (some cell.slot, below.row)
    | none => (none, s.row)
  popSymbols (count : Nat) : r.popSymbols count =
    match s.popSymbols? count with
    | some (values, below) => (some values, below.row)
    | none => (none, s.row)

theorem row_answers (s : ParseStack) : s.Answers s.row where
  topState := s.topState?_row
  depth := s.depth_row
  isBottom := s.isBottom_row
  pop := s.pop_row
  popSymbols := s.popSymbols_row

/-! ## 3. Histories -/

/-- What can be done to a stack. -/
inductive Step where
  /-- Goes to a state by a lexeme. -/
  | shift (state : Nat) (l : Lexeme)
  /-- Goes to a state by a tree. -/
  | pushNode (state : Nat) (n : Node)
  /-- Removes the top cell, or is refused. -/
  | pop
  /-- Removes the top cells, or is refused. -/
  | popSymbols (count : Nat)
  /-- Removes everything above the bottom. -/
  | reset

/-- The stack after one step. -/
def step (s : ParseStack) : Step → ParseStack
  | .shift state l => s.shift state l
  | .pushNode state n => s.pushNode state n
  | .pop => s.pop?.elim s (·.2)
  | .popSymbols count => (s.popSymbols? count).elim s (·.2)
  | .reset => s.reset

/-- The stack after all steps. -/
def run (steps : List Step) : ParseStack := steps.foldl step empty

end ParseStack

namespace SlotRow

/-- The row after one step. -/
def step (r : SlotRow) : ParseStack.Step → SlotRow
  | .shift state l => r.push state (.lexeme l)
  | .pushNode state n => r.push state (.node n)
  | .pop => r.pop.2
  | .popSymbols count => (r.popSymbols count).2
  | .reset => r.reset

/-- The row after all steps. -/
def run (steps : List ParseStack.Step) : SlotRow := steps.foldl step empty

/-- A step of the row is that of the stack. -/
theorem step_row (s : ParseStack) (a : ParseStack.Step) : s.row.step a = (s.step a).row := by
  cases a with
  | shift state l => exact (s.row_push state _).symm
  | pushNode state n => exact (s.row_push state _).symm
  | pop =>
    rw [step, ParseStack.step, s.pop_row]
    cases s.pop? <;> rfl
  | popSymbols count =>
    rw [step, ParseStack.step, s.popSymbols_row]
    cases s.popSymbols? count <;> rfl
  | reset => rfl

/-- **The row is that of the stack after any history.** -/
theorem run_eq_row (steps : List ParseStack.Step) : run steps = (ParseStack.run steps).row := by
  have hfoldl (s : ParseStack) : steps.foldl step s.row = (steps.foldl ParseStack.step s).row := by
    induction steps generalizing s with
    | nil => rfl
    | cons a steps ih => rw [List.foldl_cons, List.foldl_cons, step_row, ih]
  exact hfoldl .empty

end SlotRow

/-! ## 4. What is still there -/

namespace ParseStack

/-- The cell that a step pushes. -/
def Step.pushed? : Step → Option Cell
  | shift state l => some ⟨state, .lexeme l⟩
  | pushNode state n => some ⟨state, .node n⟩
  | pop | popSymbols _ | reset => none

/-- The depth behind a step, from the depth before it. -/
def Step.depthAfter : Step → Nat → Nat
  | shift .., depth | pushNode .., depth => depth + 1
  | pop, depth => depth - 1
  | popSymbols count, depth => if count ≤ depth then depth - count else depth
  | reset, _ => 0

/-- The least depth from here on. -/
def lowest : Nat → List Step → Nat
  | depth, [] => depth
  | depth, a :: steps => min depth (lowest (a.depthAfter depth) steps)

/-- The cells that are pushed from here on and stay: the depth does not fall back to what it was
before them. -/
def survivors : Nat → List Step → List Cell
  | _, [] => []
  | depth, a :: steps =>
    (if depth < lowest (a.depthAfter depth) steps then a.pushed?.toList else []) ++
      survivors (a.depthAfter depth) steps

section Survivors

variable {s : ParseStack} {a : Step} {depth : Nat}

theorem lowest_le (depth : Nat) (steps : List Step) : lowest depth steps ≤ depth := by
  cases steps with
  | nil => exact Nat.le_refl _
  | cons a steps => exact Nat.min_le_left _ _

theorem depthAfter_of_pushed? {cell : Cell} (h : a.pushed? = some cell) (depth : Nat) :
    a.depthAfter depth = depth + 1 := by
  cases a with
  | shift | pushNode => rfl
  | pop | popSymbols | reset => cases h

theorem depthAfter_le_of_pushed? (h : a.pushed? = none) (depth : Nat) :
    a.depthAfter depth ≤ depth := by
  cases a with
  | shift | pushNode => cases h
  | pop => exact Nat.sub_le _ _
  | popSymbols count =>
    simp only [Step.depthAfter]
    split <;> omega
  | reset => exact Nat.zero_le _

/-- **What one step does**: it keeps the cells up to its depth, and may push one. -/
theorem pushed_step (s : ParseStack) (a : Step) :
    (s.step a).pushed = s.pushed.take (a.depthAfter s.depth) ++ a.pushed?.toList := by
  have hall {n : Nat} (h : s.depth ≤ n) : s.pushed.take n = s.pushed :=
    List.take_of_length_le (by rwa [length_pushed])
  cases a with
  | shift state l => rw [Step.depthAfter, hall (Nat.le_succ _)]; exact s.pushed_push state _
  | pushNode state n => rw [Step.depthAfter, hall (Nat.le_succ _)]; exact s.pushed_push state _
  | pop =>
    obtain ⟨cells⟩ := s
    cases cells with
    | nil => rfl
    | cons cell below => simp [step, pop?, pushed, depth, Step.depthAfter, Step.pushed?]
  | popSymbols count =>
    simp only [step, popSymbols?, Step.depthAfter, Step.pushed?, Option.toList_none,
      List.append_nil]
    split
    · rename_i h
      have hdrop : (s.cells.drop count).reverse = s.cells.reverse.take (s.depth - count) := by
        rw [List.reverse_drop, depth]
      exact hdrop
    · exact (hall (Nat.le_refl _)).symm
  | reset => simp [step, reset, pushed, Step.depthAfter, Step.pushed?]

theorem depth_step (s : ParseStack) (a : Step) : (s.step a).depth = a.depthAfter s.depth := by
  have hlength := congrArg List.length (pushed_step s a)
  rw [List.length_append, List.length_take, length_pushed, length_pushed] at hlength
  cases ha : a.pushed? with
  | none =>
    have hle := depthAfter_le_of_pushed? ha s.depth
    rw [ha] at hlength
    simpa [Nat.min_eq_left hle] using hlength
  | some cell =>
    have hsucc := depthAfter_of_pushed? ha s.depth
    rw [ha, hsucc] at hlength
    simpa [hsucc] using hlength

/-- The cells that a step leaves, cut at a depth that it does not fall below. -/
theorem take_pushed_step {m : Nat} (hm : m ≤ a.depthAfter s.depth) :
    (s.step a).pushed.take m = s.pushed.take (min s.depth m) ++
      if s.depth < m then a.pushed?.toList else [] := by
  rw [pushed_step]
  cases ha : a.pushed? with
  | none =>
    have hle := depthAfter_le_of_pushed? ha s.depth
    simp [List.take_take, Nat.min_eq_left hm, Nat.min_eq_right (hm.trans hle)]
  | some cell =>
    have hsucc := depthAfter_of_pushed? ha s.depth
    have hall : s.pushed.take (s.depth + 1) = s.pushed :=
      List.take_of_length_le (by rw [length_pushed]; exact Nat.le_succ _)
    rw [hsucc] at hm
    rw [hsucc, hall]
    by_cases h : s.depth < m
    · obtain rfl : m = s.depth + 1 := by omega
      simp [List.take_of_length_le]
    · have hle : m ≤ s.pushed.length := by rw [length_pushed]; omega
      rw [if_neg h, List.append_nil, List.take_append_of_le_length hle,
        Nat.min_eq_right (by omega)]

/-- **After any steps there are the cells below the least depth, and the ones pushed since that have
stayed.** -/
theorem pushed_foldl (s : ParseStack) (steps : List Step) :
    (steps.foldl step s).pushed =
      s.pushed.take (lowest s.depth steps) ++ survivors s.depth steps := by
  -- From the first step on: it has left the cells below it, and its own cell if it pushes one, of
  -- which the least depth ahead says whether they stay.
  induction steps generalizing s with
  | nil =>
    rw [lowest, survivors, List.append_nil, ← length_pushed, List.take_length]
    rfl
  | cons a steps ih =>
    have hm : lowest (a.depthAfter s.depth) steps ≤ a.depthAfter s.depth := lowest_le _ _
    rw [List.foldl_cons, ih, depth_step, take_pushed_step hm, lowest, survivors, List.append_assoc]

theorem pushed_run (steps : List Step) : (run steps).pushed = survivors 0 steps := by
  have hfoldl := pushed_foldl empty steps
  have hnil : empty.pushed = [] := rfl
  rwa [hnil, List.take_nil, List.nil_append] at hfoldl

end Survivors

end ParseStack

/-! ## 5. The row -/

namespace SlotRow

/-- The row holds these cells above its bottom, in the order in which they were pushed. -/
structure Holds (r : SlotRow) (cells : List Cell) : Prop where
  /-- Above the bottom are the cells. -/
  slots_eq : r.slots = .bottom :: cells.map Cell.slot
  /-- The bottom has state 0 and no value. -/
  bottom : r.slots.head? = some ⟨0, none⟩
  /-- All other slots have a value. -/
  has_value : ∀ slot ∈ r.slots.tail, slot.value?.isSome = true
  depth_eq : r.depth = cells.length
  isBottom_iff : r.isBottom = true ↔ r.depth = 0
  /-- Nothing is popped at the bottom only, and then nothing changes. -/
  pop_none_iff : r.pop.1 = none ↔ r.depth = 0
  pop_refused : r.pop.1 = none → r.pop.2 = r
  /-- No symbols are popped only if there are too few, and then nothing changes. -/
  popSymbols_none_iff (n : Nat) : (r.popSymbols n).1 = none ↔ n > r.depth
  popSymbols_refused (n : Nat) : (r.popSymbols n).1 = none → (r.popSymbols n).2 = r
  /-- Otherwise the last ones are, in the order in which they were pushed, and those below stay. -/
  popSymbols_eq (n : Nat) : n ≤ r.depth →
    r.popSymbols n = (some ((cells.rtake n).map (·.value)),
      ⟨.bottom :: (cells.rdrop n).map Cell.slot⟩)
  /-- It is the same to pop them one by one and turn them round. -/
  popEach_eq (n : Nat) : n ≤ r.depth →
    (r.popEach n).2 = (r.popSymbols n).2 ∧
      (r.popEach n).1.reverse = (cells.rtake n).map fun cell => some cell.slot

theorem holds_row (s : ParseStack) : s.row.Holds s.pushed where
  slots_eq := rfl
  bottom := rfl
  has_value slot hslot := by
    obtain ⟨cell, -, rfl⟩ := List.mem_map.mp hslot
    rfl
  depth_eq := by rw [s.depth_row, s.length_pushed]
  isBottom_iff := by rw [s.isBottom_row, s.depth_row, s.isBottom_iff]
  pop_none_iff := by
    obtain ⟨cells⟩ := s
    rw [ParseStack.pop_row, ParseStack.depth_row]
    cases cells <;> simp [ParseStack.pop?, ParseStack.depth]
  pop_refused h := by
    rw [ParseStack.pop_row] at h ⊢
    cases hpop : s.pop? with
    | none => rfl
    | some popped =>
      rw [hpop] at h
      cases h
  popSymbols_none_iff n := by
    rw [s.popSymbols_row, s.depth_row]
    unfold ParseStack.popSymbols?
    split <;> simp_all
  popSymbols_refused n h := by
    rw [s.popSymbols_row] at h ⊢
    cases hpop : s.popSymbols? n with
    | none => rfl
    | some popped =>
      rw [hpop] at h
      cases h
  popSymbols_eq n h := by
    rw [s.depth_row] at h
    obtain ⟨htake, hdrop⟩ := ParseStack.slots_row_cut h
    rw [popSymbols, s.depth_row, if_neg (Nat.not_lt.mpr h)]
    dsimp only
    rw [htake, hdrop, ParseStack.mapM_value?_slot]
  popEach_eq n h := by
    rw [s.depth_row] at h
    rw [ParseStack.popEach_row h, s.popSymbols_row, ParseStack.popSymbols?, if_pos h,
      List.rtake_eq_reverse_take_reverse]
    simp [ParseStack.pushed]

end SlotRow

/-- **A stack holds what was pushed on it and has stayed, whatever is done to it.**  The row of
slots after any history is that of the parse stack and answers as it does.  Above its bottom, which
no step removes or changes, lie the cells since whose pushing the depth has not fallen back to what
it was before them, in the order in which they were pushed. -/
theorem stack_holds_survivors (steps : List ParseStack.Step) :
    let s := ParseStack.run steps
    let r := SlotRow.run steps
    r = s.row ∧ s.Answers r ∧ s.pushed = ParseStack.survivors 0 steps ∧
      r.Holds (ParseStack.survivors 0 steps) := by
  intro s r
  have hrow : r = s.row := SlotRow.run_eq_row steps
  have hpushed : s.pushed = ParseStack.survivors 0 steps := ParseStack.pushed_run steps
  refine ⟨hrow, ?_, hpushed, ?_⟩
  · rw [hrow]
    exact s.row_answers
  · rw [hrow, ← hpushed]
    exact SlotRow.holds_row s

/-- At the bottom a pop is refused, and later the popping of three symbols where there are two.  One
of these is popped and another takes its place, which a reset removes with what was below it. -/
theorem stack_holds_survivors_refused :
    let steps : List ParseStack.Step :=
      [.pop, .shift 5 ⟨"unit", default⟩, .shift 11 ⟨"a", default⟩, .popSymbols 3, .popSymbols 1,
        .pushNode 9 (.list [])]
    let r := SlotRow.run steps
    ParseStack.survivors 0 steps =
        [⟨5, .lexeme ⟨"unit", default⟩⟩, ⟨9, .node (.list [])⟩] ∧
      2 ≤ r.depth ∧
      r.popSymbols 2 =
        (some [.lexeme ⟨"unit", default⟩, .node (.list [])], SlotRow.empty) ∧
      (r.popEach 2).1.reverse =
        [some ⟨5, some (.lexeme ⟨"unit", default⟩)⟩, some ⟨9, some (.node (.list []))⟩] ∧
      (r.popSymbols 3).2 = r ∧
      (SlotRow.run (steps ++ [.reset, .shift 7 ⟨";", default⟩])).Holds
        [⟨7, .lexeme ⟨";", default⟩⟩] := by
  intro steps r
  obtain ⟨-, -, -, hholds⟩ := stack_holds_survivors steps
  have hcells : ParseStack.survivors 0 steps =
      [⟨5, .lexeme ⟨"unit", default⟩⟩, ⟨9, .node (.list [])⟩] := by decide
  rw [hcells] at hholds
  have hdepth : 2 ≤ r.depth := hholds.depth_eq.ge
  refine ⟨hcells, hdepth, hholds.popSymbols_eq 2 hdepth, (hholds.popEach_eq 2 hdepth).2, ?_, ?_⟩
  · refine hholds.popSymbols_refused 3 ((hholds.popSymbols_none_iff 3).mpr ?_)
    rw [hholds.depth_eq]
    decide
  · obtain ⟨-, -, -, hreset⟩ :=
      stack_holds_survivors (steps ++ [.reset, .shift 7 ⟨";", default⟩])
    exact hreset

end UnitLang

/-
# The log as a certificate

The shifts and reductions that a log tells of can be replayed on a stack of states alone.  Each of
them names the state it begins in and the state it goes to, and a reduction names its production,
by which the stack is cut down (`Event.replay?`).  Whatever the source, the replay succeeds and
keeps the states that are on the stack of the parser.

Of a source that is accepted the log says more.  Its reductions, the latest first, are the steps of
the rightmost derivation of the tokens: at every head of the loop the symbols on the stack derive
the shifted tokens by the reductions made so far (`Parser.Certified`), and with the program on the
stack there is no other derivation (`Grammar.rightDerives_program_unique`).
-/
import UnitLang.Proofs.Automaton.Handle
import UnitLang.Proofs.Parser.Answer
import UnitLang.Proofs.Parser.Stack

namespace UnitLang

open Grammar
open Automaton (lookup? next?_terminal_iff next?_nonterminal_iff Path)

/-! ## 1. Replaying -/

namespace Event

/-- The production of a reduction. -/
def reduced? : Event → Option Nat
  | reduce production .. => some production
  | _ => none

/-- What an event makes of a stack of states, the top one first, if it fits there.  A shift and a
reduction push the state they go to; a reduction first pops a state for each symbol of the
right-hand side. -/
def replayOn? (states : List Nat) : Event → Option (List Nat)
  | shift state next _ => if states.head? = some state then some (next :: states) else none
  | reduce id previous next lhs => do
    let p ← production? id
    let below := states.drop p.length
    if below.head? = some previous ∧ p.lhs = lhs then some (next :: below) else none
  | _ => some states

theorem replayOn?_reduce {states below : List Nat} {id previous next : Nat} {p : Production}
    (hp : production? id = some p) (hdrop : states.drop p.length = below)
    (hprevious : below.head? = some previous) :
    replayOn? states (.reduce id previous next p.lhs) = some (next :: below) := by
  subst hdrop
  rw [replayOn?, hp]
  exact if_pos ⟨hprevious, rfl⟩

/-- The stack of states that the events lead to, from the first state on. -/
def replay? (events : List Event) : Option (List Nat) := events.foldlM replayOn? [0]

theorem replay?_concat (events : List Event) (e : Event) :
    replay? (events ++ [e]) = (replay? events).bind (replayOn? · e) := by
  simp [replay?, List.foldlM_append]

/-- Events that move nothing leave the states as they are. -/
theorem replay?_append_of_still {es fs : List Event}
    (h : ∀ e ∈ fs, ∀ states, replayOn? states e = some states) :
    replay? (es ++ fs) = replay? es := by
  induction fs generalizing es with
  | nil => rw [List.append_nil]
  | cons e fs ih =>
    obtain ⟨he, hfs⟩ := List.forall_mem_cons.mp h
    rw [List.append_cons, ih hfs, replay?_concat]
    cases replay? es with
    | none => rfl
    | some states => exact he states

end Event

/-! ## 2. Reducing the symbols on the stack -/

section Reducing

variable {s below : ParseStack} {Xs : List Symbol} {k : Kind} {id next : Nat} {p : Production}
  {values : List Value} {node : Node}

/-- The right-hand side lies on top of the path, and the left-hand side takes its place. -/
theorem Automaton.Path.reduces (h : Path s Xs) (hr : s.Reduces k id p values below node next) :
    ∃ Ys, Xs = Ys ++ p.rhs ∧ Path (below.pushNode next node) (Ys ++ [.nonterminal p.lhs]) := by
  obtain ⟨p', hp', hu⟩ := Automaton.table_reduces hr.entry
  cases hr.production?.symm.trans hp'
  obtain ⟨Ys, hXs, hbelow, -⟩ := hr.uncovers h hu
  exact ⟨Ys, hXs, hbelow.push _ (next?_nonterminal_iff.mpr hr.goto)⟩

/-- The table never reduces by the first production; it accepts instead. -/
theorem Automaton.lookup?_ne_reduce_zero (state : Nat) (X : Symbol) :
    lookup? state X ≠ some (.reduce 0) := by
  intro h
  exact Automaton.lookup?_induction (P := fun _ _ entry => entry ≠ .reduce 0) (by decide) h rfl

end Reducing

/-! ## 3. What the log certifies -/

namespace Parser

/-- The productions of the reductions made so far, the latest first. -/
def reductions (q : Parser) : List Nat := q.log.filterMap Event.reduced?

/-- Replaying the log leads to the states on the stack; and by the reductions, the latest first,
the symbols on the stack derive the tokens that were shifted. -/
structure Certified (shifted : List Token) (q : Parser) : Prop where
  replays : Event.replay? q.log.reverse = some q.stack.states
  derives : ∃ Xs, Path q.stack Xs ∧ RightDerives Xs q.reductions (leaves (shifted.map (·.kind)))
  nonzero : 0 ∉ q.reductions

section Certifying

variable {p q : Parser} {source : String} {shifted : List Token} {lookahead t : Token}
  {scanner : Scanner} {id next : Nat} {production : Production} {values : List Value}
  {below : ParseStack} {node : Node}

theorem replay?_ofToken_append (t : Token) (log : List Event) :
    Event.replay? (Event.ofToken t ++ log).reverse = Event.replay? log.reverse := by
  have hstill : ∀ e ∈ Event.ofToken t, ∀ states, Event.replayOn? states e = some states :=
    Event.forall_ofToken fun _ => rfl
  rw [List.reverse_append]
  exact Event.replay?_append_of_still fun e he => hstill e (List.mem_reverse.mp he)

theorem replay?_ofNode_append (a : Action) (n : Node) (log : List Event) :
    Event.replay? ((Event.ofNode a n).reverse ++ log).reverse = Event.replay? log.reverse := by
  rw [List.reverse_append, List.reverse_reverse]
  exact Event.replay?_append_of_still (Event.forall_ofNode (fun _ _ => rfl) fun _ _ => rfl)

theorem filterMap_reduced?_ofToken (t : Token) :
    (Event.ofToken t).filterMap Event.reduced? = [] :=
  List.filterMap_eq_nil_iff.mpr (Event.forall_ofToken rfl)

theorem filterMap_reduced?_ofNode (a : Action) (n : Node) :
    (Event.ofNode a n).filterMap Event.reduced? = [] :=
  List.filterMap_eq_nil_iff.mpr (Event.forall_ofNode (fun _ => rfl) fun _ => rfl)

theorem Certified.start (t : Token) (scanner : Scanner) :
    Certified [] ⟨scanner, .empty, Event.ofToken t⟩ where
  replays := by
    have h := replay?_ofToken_append t []
    rw [List.append_nil] at h
    exact h
  derives := ⟨[], .empty, by rw [reductions, filterMap_reduced?_ofToken]; exact .nil _⟩
  nonzero := by simp [reductions, filterMap_reduced?_ofToken]

/-- A shifted token stands behind the others, as itself. -/
theorem Certified.shift (h : Certified shifted q)
    (he : lookup? q.stack.topState (.terminal lookahead.kind) = some (.shift next)) :
    Certified (shifted ++ [lookahead]) (q.afterShift lookahead next scanner t) := by
  have hred : (q.afterShift lookahead next scanner t).reductions = q.reductions := by
    rw [reductions, afterShift, List.filterMap_append, filterMap_reduced?_ofToken]
    rfl
  obtain ⟨hreplays, ⟨Xs, hpath, hderives⟩, hnonzero⟩ := h
  refine ⟨?_, ⟨Xs ++ [.terminal lookahead.kind], ?_, ?_⟩, hred ▸ hnonzero⟩
  · rw [afterShift, replay?_ofToken_append, List.reverse_cons, Event.replay?_concat, hreplays]
    simp [Event.replayOn?, ParseStack.shift]
  · exact hpath.push _ (next?_terminal_iff.mpr he)
  · rw [hred]
    simpa using hderives.append_leaves [lookahead.kind]

/-- A reduction is a step before all others. -/
theorem Certified.reduce (h : Certified shifted q)
    (hr : q.stack.Reduces lookahead.kind id production values below node next) :
    Certified shifted (q.afterReduce id production below node next) := by
  have hred : (q.afterReduce id production below node next).reductions = id :: q.reductions := by
    simp only [reductions, afterReduce, List.filterMap_cons, List.filterMap_append,
      Event.reduced?, List.filterMap_reverse, filterMap_reduced?_ofNode, List.reverse_nil,
      List.nil_append]
  obtain ⟨hreplays, ⟨Xs, hpath, hderives⟩, hnonzero⟩ := h
  obtain ⟨Ys, rfl, hpath'⟩ := hpath.reduces hr
  refine ⟨?_, ⟨_, hpath', ?_⟩, ?_⟩
  · rw [afterReduce, List.reverse_cons, Event.replay?_concat, replay?_ofNode_append, hreplays]
    rw [Option.bind_some, Event.replayOn?_reduce hr.production? hr.drop_states below.head?_states]
    rfl
  · rw [hred]
    refine .cons ?_ hderives
    simpa using RightStep.replace Ys [] hr.production?
  · rw [hred, List.mem_cons, not_or]
    refine ⟨?_, hnonzero⟩
    rintro rfl
    exact Automaton.lookup?_ne_reduce_zero _ _ hr.entry

/-- **The log certifies every head of the loop.** -/
theorem Visits.certified (h : Visits p source q lookahead) :
    ∃ shifted, Invariant (itemsOf source) shifted q lookahead ∧
      Certified shifted q ∧ q.Logged shifted lookahead := by
  refine Visits.induction
    (motive := fun shifted q lookahead => Certified shifted q ∧ q.Logged shifted lookahead)
    ?_ ?_ ?_ h
  · intro t scanner _
    exact ⟨.start t scanner, .start t scanner⟩
  · intro shifted q lookahead next t scanner _ he _ ⟨hcert, hlog⟩
    exact ⟨hcert.shift he, hlog.shift (kind_ne_endOfInput_of_lookup? he)⟩
  · intro shifted q lookahead id production values below node next _ hr ⟨hcert, hlog⟩
    exact ⟨hcert.reduce hr, hlog.reduce⟩

/-- Where a parse accepts, the program is all that lies on the stack. -/
theorem Certified.derives_program (h : Certified shifted q)
    (he : lookup? q.stack.topState (.terminal lookahead.kind) = some .accept) :
    RightDerives [.nonterminal .program] q.reductions (leaves (shifted.map (·.kind))) := by
  obtain ⟨Xs, hpath, hderives⟩ := h.derives
  obtain ⟨-, hu⟩ := Automaton.table_accepts he
  obtain ⟨top, below, Ys, -, -, rfl, hbelow, hgood⟩ := hpath.pop hu
  obtain ⟨-, rfl⟩ := hbelow.eq_empty (of_decide_eq_true hgood)
  exact hderives

/-- The log of every parse can be replayed. -/
theorem isSome_replay?_log (p : Parser) (source : String) :
    (Event.replay? (p.parse source).2.log.reverse).isSome = true := by
  rcases parse_ends p source with ⟨e, -, -, hlog⟩ | ⟨q, lookahead, hvisits, hends⟩
  · rw [hlog]
    rfl
  · obtain ⟨shifted, hinv, hcert, -⟩ := hvisits.certified
    have hend := hends shifted hinv
    generalize (p.parse source).1 = outcome at hend
    generalize (p.parse source).2.log = log at hend ⊢
    cases hend with
    | lexical he _ =>
      rw [List.reverse_cons, Event.replay?_concat, hcert.replays]
      simp [Event.replayOn?]
    | unexpected he _ =>
      rw [hcert.replays]
      rfl
    | unfinished he _ _ =>
      rw [hcert.replays]
      rfl
    | accepted he _ _ _ _ =>
      rw [List.reverse_cons, Event.replay?_concat, hcert.replays]
      rfl

/-- What the log certifies when a source is accepted: the shifted tokens are all there are, and the
reductions derive them from a program. -/
theorem certified_of_ok {n : Node} (h : (p.parse source).1 = .ok n) :
    ∃ ts stop, itemsOf source = ⟨ts, .ended stop⟩ ∧
      (p.parse source).2.shiftedKinds = ts.map (·.kind) ∧
      0 ∉ (p.parse source).2.reductions ∧
      RightDerives [.nonterminal .program] (p.parse source).2.reductions
        (leaves (ts.map (·.kind))) := by
  rcases parse_ends p source with ⟨e, -, herror, -⟩ | ⟨q, lookahead, hvisits, hends⟩
  · cases h.symm.trans herror
  · obtain ⟨shifted, hinv, hcert, hlogged⟩ := hvisits.certified
    have hend := hends shifted hinv
    generalize (p.parse source).1 = outcome at h hend
    generalize (p.parse source).2 = final at hend ⊢
    generalize hlog : final.log = log at hend
    subst h
    cases hend with
    | accepted he _ his _ _ =>
      have hreductions : final.reductions = q.reductions := by
        rw [reductions, hlog]
        rfl
      rw [hreductions]
      refine ⟨shifted, _, his, ?_, hcert.nonzero, hcert.derives_program he⟩
      rw [← hlogged.shiftedKinds_eq, shiftedKinds, shiftedKinds, hlog]
      simp [Event.shifted?]

end Certifying

end Parser

/-- **The log of a parse is a certificate.**  Replayed on a stack of states it never fails, whether
the source is accepted or not.  For a source that is accepted, the productions of its reductions,
the latest first, are behind the first production the steps of the rightmost derivation of the
kinds of its tokens: they are one, and it is the only one.  The first production itself is not
reduced, and the kinds that were shifted are all of these, in order. -/
theorem parse_log_replays (p : Parser) (source : String) :
    (Event.replay? (p.parse source).2.log.reverse).isSome = true ∧
      ∀ n, (p.parse source).1 = .ok n →
        ∃ ts stop, tokenize source = .ok (ts ++ [Token.endOfInput stop]) ∧
          (p.parse source).2.shiftedKinds = ts.map (·.kind) ∧
          0 ∉ (p.parse source).2.reductions ∧
          ∀ ids, RightDerives [.nonterminal .start] ids (leaves (ts.map (·.kind))) ↔
            ids = 0 :: (p.parse source).2.reductions := by
  refine ⟨Parser.isSome_replay?_log p source, fun n hok => ?_⟩
  obtain ⟨ts, stop, his, hshifted, hnonzero, hderives⟩ := Parser.certified_of_ok hok
  refine ⟨ts, stop, tokenize_eq_ok_iff.mpr ⟨ts, stop, his, rfl⟩, hshifted, hnonzero, ?_⟩
  intro ids
  rw [rightDerives_start_iff]
  constructor
  · rintro ⟨ids', rfl, hids⟩
    rw [rightDerives_program_unique hids hderives]
  · rintro rfl
    exact ⟨_, rfl, hderives⟩

/-- The smallest program is reduced five times. -/
theorem parse_log_replays_unit :
    (∃ n, (Parser.new.parse "unit a;").1 = .ok n) ∧
      (Parser.new.parse "unit a;").2.reductions = [1, 3, 11, 6, 5] ∧
      (Event.replay? (Parser.new.parse "unit a;").2.log.reverse).isSome = true := by
  have hok := Parser.new.parse_unit
  obtain ⟨hreplay, haccepted⟩ := parse_log_replays Parser.new "unit a;"
  obtain ⟨ts, stop, htokens, -, -, hunique⟩ := haccepted _ hok
  obtain ⟨ts', stop', his', heq⟩ := tokenize_eq_ok_iff.mp htokens
  obtain ⟨rfl, -⟩ := List.append_inj' heq rfl
  cases Parser.itemsOf_unit.symm.trans his'
  have hderives : RightDerives [.nonterminal .start] [0, 1, 3, 11, 6, 5]
      (leaves [.unitKw, .identifier, .semicolon]) := by
    refine .cons (.replace [] [] (rfl : production? 0 = some productions[0])) ?_
    refine .cons (.replace [] [] (rfl : production? 1 = some productions[1])) ?_
    refine .cons (.replace [] [.semicolon] (rfl : production? 3 = some productions[3])) ?_
    refine .cons (.replace [] [.semicolon] (rfl : production? 11 = some productions[11])) ?_
    refine .cons (.replace [.terminal .unitKw] [.semicolon]
      (rfl : production? 6 = some productions[6])) ?_
    refine .cons (.replace [.terminal .unitKw] [.semicolon]
      (rfl : production? 5 = some productions[5])) ?_
    exact .nil _
  exact ⟨⟨_, hok⟩, (List.cons_eq_cons.mp ((hunique _).mp hderives)).2.symm, hreplay⟩

end UnitLang

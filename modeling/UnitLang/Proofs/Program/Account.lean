/-
# What a compilation tells

A clause is told when it is built, with the number of its parts.  `Node.clauseEvents` lists what
was told while a tree was built, and an action adds to what its values tell just the event of its
own (`Action.Makes.clauseEvents`).  So at every head of the loop the clauses that the log tells of
are those of the values on the stack, from the bottom up (`Parser.TellsClauses`), and in the end
they are those of the program, in order.

Together with the protocol that reading keeps to (`Event.OneAhead`) this accounts for the log of a
compilation as a whole.  How many tokens were read and not shifted depends on the outcome, and only
a program is told as accepted and executed (`Event.AccountFor`).
-/
import UnitLang.Compiler
import UnitLang.Proofs.Grammar.Making
import UnitLang.Proofs.Parser.OneAhead
import UnitLang.Proofs.Program.Syntax

namespace UnitLang

open Automaton (lookup?)

/-! ## 1. The clauses of a tree -/

/-- What is told when a clause is built. -/
def Clause.event : Clause → Event
  | unit path => .unitPath path.length
  | uses imports => .usesImports imports.length

/-- Whether an event tells of a clause. -/
def Event.isClause : Event → Bool
  | unitPath _ | usesImports _ => true
  | _ => false

namespace Node

mutual

/-- What is told while a tree is built: of each clause in it, behind what is told of its parts. -/
@[simp] def clauseEvents : Node → List Event
  | identifier _ => []
  | list items => clauseEventsAll items
  | unit path => clauseEventsAll path ++ [.unitPath path.length]
  | uses imports => clauseEventsAll imports ++ [.usesImports imports.length]
  | imported path _ _ => clauseEventsAll path

/-- What is told while some trees are built. -/
@[simp] def clauseEventsAll : List Node → List Event
  | [] => []
  | n :: ns => clauseEvents n ++ clauseEventsAll ns

end

@[simp] theorem clauseEventsAll_eq_flatMap (ns : List Node) :
    clauseEventsAll ns = ns.flatMap clauseEvents := by
  induction ns with
  | nil => rfl
  | cons n ns ih => rw [clauseEventsAll, ih, List.flatMap_cons]

end Node

/-- What is told while a value is built. -/
@[simp] def Value.clauseEvents : Value → List Event
  | lexeme _ => []
  | node n => n.clauseEvents

/-- **An action tells of its own clause only**, behind what its values have told. -/
theorem Action.Makes.clauseEvents {a : Action} {vs : List Value} {n : Node} (h : a.Makes vs n) :
    n.clauseEvents = vs.flatMap Value.clauseEvents ++ Event.ofNode a n := by
  cases h with
  | wholePath hpath =>
    obtain ⟨front, last, rfl, rfl⟩ := Import.ofPath?_eq_some_iff.mp hpath
    simp [Event.ofNode, Import.toNode]
  | keep | firstClause | nextClause | name | firstItem | nextItem | member | rename | unit
  | uses => simp [Event.ofNode, Import.toNode, Import.withMember, Import.rename]

/-- The tree of a clause tells of this clause only: names tell of nothing. -/
theorem Clause.clauseEvents_toNode (c : Clause) : c.toNode.clauseEvents = [c.event] := by
  cases c with
  | unit path => simp [Clause.toNode, Clause.event, List.flatMap_map]
  | uses imports => simp [Clause.toNode, Clause.event, Using.toNode, List.flatMap_map]

/-- The tree of a program tells of its clauses in order. -/
theorem Program.clauseEvents_toNode (p : Program) :
    (Program.toNode p).clauseEvents = p.map Clause.event := by
  simp [Program.toNode, List.flatMap_map, Clause.clauseEvents_toNode, ← List.map_eq_flatMap]

/-! ## 2. The clauses on the stack -/

/-- Whether an event comes at the end of a compilation. -/
def Event.isFinal : Event → Bool
  | accepted _ | executed _ => true
  | _ => false

theorem Event.filter_isClause_ofToken (t : Token) : (ofToken t).filter isClause = [] :=
  List.filter_eq_nil_iff.mpr (forall_ofToken Bool.false_ne_true)

theorem Event.filter_isClause_ofNode (a : Action) (n : Node) :
    (ofNode a n).filter isClause = ofNode a n :=
  List.filter_eq_self.mpr (forall_ofNode (fun _ => rfl) fun _ => rfl)

namespace Parser

/-- The log tells of the clauses in the values on the stack, from the bottom up, and of no end. -/
structure TellsClauses (q : Parser) : Prop where
  clauses : q.log.reverse.filter Event.isClause = q.stack.values.flatMap Value.clauseEvents
  unfinished : ∀ e ∈ q.log, e.isFinal = false

section Heads

variable {p q : Parser} {source : String} {lookahead t : Token} {id next : Nat}
  {scanner : Scanner} {production : Production} {values : List Value} {below : ParseStack}
  {node : Node}

theorem TellsClauses.start (t : Token) (scanner : Scanner) :
    TellsClauses ⟨scanner, .empty, Event.ofToken t⟩ where
  clauses := by
    rw [List.filter_reverse, Event.filter_isClause_ofToken]
    rfl
  unfinished := Event.forall_ofToken rfl

/-- A shift tells of no clause, and a lexeme has none. -/
theorem TellsClauses.shift (h : q.TellsClauses) :
    (q.afterShift lookahead next scanner t).TellsClauses where
  clauses := by
    have hold := h.clauses
    rw [List.filter_reverse] at hold
    simp [afterShift, Event.filter_isClause_ofToken, hold, Event.isClause, ParseStack.shift]
  unfinished := List.forall_mem_append.mpr
    ⟨Event.forall_ofToken rfl, List.forall_mem_cons.mpr ⟨rfl, h.unfinished⟩⟩

/-- A reduction tells of the clause that its action builds, if it builds one. -/
theorem TellsClauses.reduce (h : q.TellsClauses)
    (hr : q.stack.Reduces lookahead.kind id production values below node next) :
    (q.afterReduce id production below node next).TellsClauses where
  clauses := by
    have hold := h.clauses
    rw [List.filter_reverse, hr.values_eq, List.flatMap_append] at hold
    simp [afterReduce, ParseStack.pushNode, Event.filter_isClause_ofNode, hold, Event.isClause,
      (Action.run_eq_ok_iff.mp hr.run).clauseEvents]
  unfinished := by
    have htold : ∀ e ∈ Event.ofNode production.action node, e.isFinal = false :=
      Event.forall_ofNode (fun _ => rfl) fun _ => rfl
    exact List.forall_mem_cons.mpr ⟨rfl, List.forall_mem_append.mpr
      ⟨fun e he => htold e (List.mem_reverse.mp he), h.unfinished⟩⟩

/-- **At every head of the loop** the log keeps to the protocol and tells of the clauses on the
stack. -/
theorem Visits.tells (h : Visits p source q lookahead) :
    ∃ shifted, Invariant (itemsOf source) shifted q lookahead ∧
      q.Holding lookahead ∧ q.TellsClauses := by
  refine Visits.induction
    (motive := fun _ q lookahead => q.Holding lookahead ∧ q.TellsClauses) ?_ ?_ ?_ h
  · intro t scanner _
    exact ⟨.start t scanner, .start t scanner⟩
  · intro shifted q lookahead next t scanner _ he _ ⟨hholding, htells⟩
    exact ⟨hholding.shift he, htells.shift⟩
  · intro shifted q lookahead id production values below node next _ hr ⟨hholding, htells⟩
    exact ⟨hholding.reduce, htells.reduce hr⟩

end Heads

end Parser

/-! ## 3. The log of a compilation -/

namespace Event

/-- The events account for the outcome of a compilation. -/
structure AccountFor (events : List Event) (outcome : Except Error Node) : Prop where
  oneAhead : OneAhead events
  /-- On success every token that was read is shifted.  The clauses that are told are those of the
  program, in order, and at the end it is accepted and executed. -/
  ok {n : Node} : outcome = .ok n →
    (events.filterMap token?).length = (events.filterMap shifted?).length ∧
    (∃ program, n = Program.toNode program ∧ events.filter isClause = program.map Clause.event) ∧
    ∃ front, events = front ++ [.accepted n.shape, .executed n.shape] ∧
      ∀ e ∈ front, e.isFinal = false
  /-- A token that cannot go on is the only one that was read and not shifted. -/
  unexpected {e : Error} {text : String} : outcome = .error e → e.cause = .unexpectedToken text →
    ∃ ts t, events.filterMap token? = ts ++ [t] ∧
      ts.length = (events.filterMap shifted?).length ∧ t.value = text ∧ t.span.start = e.position
  /-- Behind any other error every token that was read is shifted. -/
  failed {e : Error} : outcome = .error e → (∀ text, e.cause ≠ .unexpectedToken text) →
    (events.filterMap token?).length = (events.filterMap shifted?).length
  /-- What fails is neither accepted nor executed. -/
  unfinished {e : Error} : outcome = .error e → ∀ event ∈ events, event.isFinal = false

section Account

variable {events : List Event} {outcome : Except Error Node} {e : Error} {phase : Phase}
  {t : Token}

/-- Where no token is ahead, as many are shifted as are read. -/
theorem length_eq_of_phase? (h : phase? events = some phase) (hheld : phase.held = []) :
    (events.filterMap token?).length = (events.filterMap shifted?).length := by
  obtain ⟨ts, htokens, hshifted⟩ := exists_tokens_of_phase? h
  rw [htokens, hshifted, hheld, List.append_nil, List.length_map]

/-- What is told up to an error, with no token ahead, accounts for it. -/
theorem accountFor_failed (h : phase? events = some phase) (hheld : phase.held = [])
    (hfinal : ∀ event ∈ events, event.isFinal = false)
    (hcause : ∀ text, e.cause ≠ .unexpectedToken text) : AccountFor events (.error e) where
  oneAhead := oneAhead_of_phase? h
  ok h := by cases h
  unexpected heq htext := by
    cases heq
    exact absurd htext (hcause _)
  failed _ _ := length_eq_of_phase? h hheld
  unfinished _ := hfinal

/-- What is told up to a token that cannot go on, and holds it, accounts for it. -/
theorem accountFor_unexpected (h : phase? events = some phase) (hheld : phase.held = [t])
    (hfinal : ∀ event ∈ events, event.isFinal = false) :
    AccountFor events (.error ⟨.unexpectedToken t.value, t.span.start⟩) where
  oneAhead := oneAhead_of_phase? h
  ok h := by cases h
  unexpected heq htext := by
    cases heq
    cases htext
    obtain ⟨ts, htokens, hshifted⟩ := exists_tokens_of_phase? h
    exact ⟨ts, t, by rw [htokens, hheld], by rw [hshifted, List.length_map], rfl, rfl⟩
  failed heq hcause := by
    cases heq
    exact absurd rfl (hcause _)
  unfinished _ := hfinal

/-- What is told up to the end of a program, with its clauses, accounts for it when it is accepted
and executed. -/
theorem accountFor_ok {program : Program} (h : phase? events = some phase)
    (hheld : phase.held = []) (hfinal : ∀ event ∈ events, event.isFinal = false)
    (hclauses : events.filter isClause = program.map Clause.event) :
    AccountFor (events ++ [.accepted program.toNode.shape, .executed program.toNode.shape])
      (.ok program.toNode) := by
  have hquiet : ∀ e ∈ [accepted program.toNode.shape, executed program.toNode.shape],
      e.token? = none ∧ e.shifted? = none := by
    simp [token?, shifted?]
  obtain ⟨phase', hphase', hheld'⟩ := exists_phase?_append h hquiet
  constructor
  case oneAhead => exact oneAhead_of_phase? hphase'
  case ok =>
    intro n hn
    cases hn
    refine ⟨length_eq_of_phase? hphase' (hheld'.trans hheld), ⟨program, rfl, ?_⟩, events, rfl,
      hfinal⟩
    rw [List.filter_append, hclauses]
    simp [isClause]
  all_goals
    intros
    contradiction

end Account

end Event

namespace Compiler

section Compilation

variable {c : Compiler} {source : String} {n : Node} {e : Error} {log : List Event}

/-- Behind a parse that succeeds the tree is executed. -/
theorem events_of_ok (h : (c.parser.parse source).1 = .ok n)
    (hlog : (c.parser.parse source).2.log = .accepted n.shape :: log) :
    (c.compile source).2.events = log.reverse ++ [.accepted n.shape, .executed n.shape] := by
  unfold compile
  split
  · rename_i m p hparse
    rw [hparse] at h hlog
    cases h
    have hp : p.log = .accepted n.shape :: log := hlog
    simp [events, hp]
  · rename_i hparse
    rw [hparse] at h
    cases h

/-- A parse that fails is all there is. -/
theorem events_of_error (h : (c.parser.parse source).1 = .error e) :
    (c.compile source).2.events = (c.parser.parse source).2.log.reverse := by
  unfold compile
  split
  · rename_i hparse
    rw [hparse] at h
    cases h
  · rename_i hparse
    rw [hparse]
    rfl

end Compilation

end Compiler

/-- **The log of a compilation accounts for its outcome**, whatever the compiler did before.
Reading is one token ahead of shifting, and only a token that cannot go on stays unshifted.  The
clauses that are told are those of the program, in order, and just a program is told, at the end,
as accepted and executed. -/
theorem compile_accounted (c : Compiler) (source : String) :
    Event.AccountFor (c.compile source).2.events (c.compile source).1 := by
  rw [Compiler.compile_fst]
  rcases c.parser.parse_ends source with ⟨e, his, herror, hlog⟩ | ⟨q, lookahead, hvisits, hends⟩
  · obtain ⟨_, _, rfl⟩ := exists_eq_unrecognised (congrArg Items.ending his)
    rw [Compiler.events_of_error herror, herror, hlog]
    exact Event.accountFor_failed rfl rfl (by simp) (fun _ h => by cases h)
  · obtain ⟨shifted, hinv, hholding, htells⟩ := hvisits.tells
    have hend := hends shifted hinv
    have hfinal : ∀ e ∈ q.log.reverse, e.isFinal = false :=
      fun e he => htells.unfinished e (List.mem_reverse.mp he)
    obtain ⟨phase, hphase, hheld⟩ := id hholding
    generalize houtcome : (c.parser.parse source).1 = outcome at hend
    generalize hlog : (c.parser.parse source).2.log = log at hend
    cases hend with
    | lexical he his =>
      obtain ⟨_, _, rfl⟩ := exists_eq_unrecognised (congrArg Items.ending his)
      rw [Compiler.events_of_error houtcome, hlog]
      refine Event.accountFor_failed (hholding.phase?_shift he) rfl ?_ (fun _ h => by cases h)
      rw [List.reverse_cons]
      exact List.forall_mem_append.mpr ⟨hfinal, List.forall_mem_singleton.mpr rfl⟩
    | unexpected he hk =>
      rw [Token.isEnd, decide_eq_false hk] at hheld
      rw [Compiler.events_of_error houtcome, hlog]
      exact Event.accountFor_unexpected hphase hheld hfinal
    | unfinished he hk _ =>
      rw [Token.isEnd, decide_eq_true hk] at hheld
      rw [Compiler.events_of_error houtcome, hlog]
      exact Event.accountFor_failed hphase hheld hfinal (fun _ h => by cases h)
    | accepted he hk _ hcells hb =>
      obtain ⟨program, -, rfl⟩ := builds_program_iff.mp hb
      rw [Token.isEnd, decide_eq_true hk] at hheld
      rw [Compiler.events_of_ok houtcome hlog]
      refine Event.accountFor_ok hphase hheld hfinal ?_
      rw [htells.clauses, ← Program.clauseEvents_toNode]
      simp [ParseStack.values, hcells]

/-- The smallest program has one clause, whose path has one name. -/
theorem compile_accounted_unit :
    (∃ n, (Compiler.new.compile "unit a;").1 = .ok n) ∧
      (Compiler.new.compile "unit a;").2.events.filter Event.isClause = [.unitPath 1] := by
  have hok := (Compiler.compile_fst .new "unit a;").trans (Parser.parse_unit _)
  obtain ⟨-, ⟨program, htree, hclauses⟩, -⟩ := (compile_accounted .new "unit a;").ok hok
  refine ⟨⟨_, hok⟩, ?_⟩
  rw [hclauses, ← Program.clauseEvents_toNode, ← htree]
  rfl

end UnitLang

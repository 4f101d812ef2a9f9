/-
# What the actions need

An action goes through the values of a right-hand side from the right, and needs each of them to
be something: a lexeme, a tree, or a tree of a certain shape (`Need`).  What it needs is written
down here in source order and without any taking (`Action.needs`), and it is one need for each
symbol of the productions that have the action (`Action.length_needs`).

Whatever the values are and however many there are, an action takes one after the other as long as
they are what it needs, and stops behind the first that is not (`Attempt`).  Each way to take one
value does so, and so does one way behind another (`Taking.Asks.bind`).
-/
import UnitLang.Parser
import UnitLang.Proofs.Automaton.Path
import UnitLang.Proofs.Grammar.Making

namespace UnitLang

open Grammar

/-! ## 1. Needs -/

/-- What a value may be needed to be. -/
inductive Need where
  | lexeme
  | node
  | list
  | identifier
  | imported
  /-- A list that ends in an identifier. -/
  | path
deriving DecidableEq, Repr

namespace Need

/-- The value is what is needed. -/
inductive Meets : Need → Value → Prop where
  | lexeme (l : Lexeme) : Meets .lexeme (.lexeme l)
  | node (n : Node) : Meets .node (.node n)
  | list (items : List Node) : Meets .list (.node (.list items))
  | identifier (id : Identifier) : Meets .identifier (.node (.identifier id))
  | imported (i : Import) : Meets .imported (.node i.toNode)
  | path (front : List Node) (last : Identifier) :
      Meets .path (.node (.list (front ++ [.identifier last])))

/-- The shape of tree that is needed, if it matters. -/
def shape? : Need → Option Shape
  | lexeme | node => none
  | list | path => some .list
  | identifier => some .identifier
  | imported => some .imported

/-- What is wrong with a value that is not what is needed. -/
def misfit (need : Need) : Value → Misfit
  | .lexeme l => .notNode l.text
  | .node n =>
    match need.shape? with
    | none => .notLexeme
    | some wanted => if n.shape = wanted then .namelessPath else .wrongShape wanted n.shape

section Shapes

variable {need : Need} {wanted : Shape}

theorem not_meets_lexeme (hshape : need.shape? = some wanted) (l : Lexeme) :
    ¬ need.Meets (.lexeme l) := by
  rintro ⟨⟩
  cases hshape

/-- But for paths, a tree of the shape that is needed is what is needed. -/
theorem meets_node_iff (hpath : need ≠ .path) (hshape : need.shape? = some wanted) {n : Node} :
    need.Meets (.node n) ↔ n.shape = wanted := by
  constructor
  · intro h
    cases h with
    | node => cases hshape
    | list | identifier | imported => exact Option.some.inj hshape
    | path => exact absurd rfl hpath
  · rintro rfl
    cases need with
    | lexeme | node => cases hshape
    | path => exact absurd rfl hpath
    | list =>
      cases n <;> cases hshape
      exact .list _
    | identifier =>
      cases n <;> cases hshape
      exact .identifier _
    | imported =>
      cases n <;> cases hshape
      exact .imported ⟨_, _, _⟩

end Shapes

/-- How an action stops that has these needs, in source order: with this misfit, and with these
values left, the rightmost first. -/
inductive StopsAt : List Need → List Value → Misfit → List Value → Prop where
  /-- At the first value from the right that is not what is needed. -/
  | unsuitable {early late : List Need} {need : Need} {below good : List Value} {v : Value} :
      List.Forall₂ Meets late good → ¬ need.Meets v →
      StopsAt (early ++ need :: late) (below ++ v :: good) (need.misfit v) below.reverse
  /-- At the end of the values, when there are too few. -/
  | tooFew {early late : List Need} {need : Need} {values : List Value} :
      List.Forall₂ Meets late values → StopsAt (early ++ need :: late) values .ranOut []

end Need

/-- What an action needs, in source order. -/
def Action.needs : Action → List Need
  | keep => [.node]
  | firstClause => [.node, .lexeme]
  | nextClause => [.list, .node, .lexeme]
  | name => [.lexeme]
  | firstItem => [.node]
  | nextItem => [.list, .lexeme, .node]
  | wholePath => [.path]
  | member => [.list, .lexeme, .identifier]
  | rename => [.imported, .lexeme, .identifier]
  | unit => [.lexeme, .list]
  | uses => [.lexeme, .list]

/-- An action has one need for each symbol of a production, and needs lexemes for the terminals. -/
theorem Action.forall₂_needs {p : Production} (hp : p ∈ productions) :
    List.Forall₂ (fun X need => X.isNonterminal = false ↔ need = Need.lexeme) p.rhs
      p.action.needs := by
  revert p
  decide

/-! ## 2. Taking what is needed -/

section Attempts

variable {α β : Type}

/-- What comes of taking these values, the rightmost first, for these needs. -/
inductive Attempt : List Need → List Value → Except Misfit α × List Value → Prop where
  | taken (a : α) (rest : List Value) : Attempt [] rest (.ok a, rest)
  | ranOut (need : Need) (needs : List Need) : Attempt (need :: needs) [] (.error .ranOut, [])
  | unsuitable {need : Need} {v : Value} (needs : List Need) (rest : List Value) :
      ¬ need.Meets v → Attempt (need :: needs) (v :: rest) (.error (need.misfit v), rest)
  | next {need : Need} {v : Value} {needs : List Need} {values : List Value}
      {outcome : Except Misfit α × List Value} :
      need.Meets v → Attempt needs values outcome → Attempt (need :: needs) (v :: values) outcome

namespace Taking

/-- The computation takes values for these needs, the rightmost first. -/
def Asks (x : Taking α) (needs : List Need) : Prop :=
  ∀ values, Attempt needs values (x.run.run values)

variable {x : Taking α} {f : α → Taking β} {needs needs' : List Need}

theorem asks_pure (a : α) : Asks (pure a) [] := fun values => .taken a values

/-- **What comes second takes values for its needs behind the others.** -/
theorem Asks.bind (hx : Asks x needs) (hf : ∀ a, Asks (f a) needs') :
    Asks (x >>= f) (needs ++ needs') := by
  intro values
  have h := hx values
  clear hx
  rw [ExceptT.run_bind, StateT.run_bind]
  generalize x.run.run values = outcome at h
  induction h with
  | taken a rest => exact hf a rest
  | ranOut need needs => exact .ranOut need _
  | unsuitable needs rest hv => exact .unsuitable _ rest hv
  | next hv _ ih => exact .next hv ih

theorem asks_lexeme : Asks lexeme [.lexeme] := by
  intro values
  rcases values with - | ⟨l | n, values⟩
  · exact .ranOut .lexeme []
  · exact .next (.lexeme l) (.taken l values)
  · exact .unsuitable [] values nofun

theorem asks_node : Asks node [.node] := by
  intro values
  rcases values with - | ⟨l | n, values⟩
  · exact .ranOut .node []
  · exact .unsuitable [] values nofun
  · exact .next (.node n) (.taken n values)

theorem run_shaped_of_none {wanted : Shape} {view? : Node → Option α} {n : Node}
    (h : view? n = none) (values : List Value) :
    (shaped wanted view?).run.run (.node n :: values) =
      (.error (.wrongShape wanted n.shape), values) := by
  have hnode : node.run.run (.node n :: values) = (.ok n, values) := rfl
  rw [shaped, run_bind hnode, h]
  rfl

/-- What is needed is a tree of the shape that the view looks for. -/
theorem asks_shaped {need : Need} {wanted : Shape} {view? : Node → Option α} (hpath : need ≠ .path)
    (hshape : need.shape? = some wanted) (hview : ∀ n, (view? n).isSome ↔ n.shape = wanted) :
    Asks (shaped wanted view?) [need] := by
  intro values
  rcases values with - | ⟨l | n, values⟩
  · exact .ranOut need []
  · exact .unsuitable [] values (Need.not_meets_lexeme hshape l)
  · have hmeets := Need.meets_node_iff hpath hshape (n := n)
    rw [← hview] at hmeets
    cases hn : view? n with
    | some a =>
      have hrun : (shaped wanted view?).run.run (.node n :: values) = (.ok a, values) :=
        gives_shaped_iff.mpr ⟨n, hn, rfl⟩
      rw [hrun]
      exact .next (hmeets.mpr (by rw [hn]; rfl)) (.taken a values)
    | none =>
      have hwrong : n.shape ≠ wanted := by simp [← hview, hn]
      have hmisfit : need.misfit (.node n) = .wrongShape wanted n.shape := by
        simp [Need.misfit, hshape, hwrong]
      rw [run_shaped_of_none hn, ← hmisfit]
      exact .unsuitable [] values (by simp [hmeets, hn])

theorem asks_list : Asks list [.list] :=
  asks_shaped (by decide) rfl fun n => by cases n <;> simp [Node.asList?, Node.shape]

theorem asks_identifier : Asks identifier [.identifier] :=
  asks_shaped (by decide) rfl fun n => by cases n <;> simp [Node.asIdentifier?, Node.shape]

theorem asks_imported : Asks imported [.imported] :=
  asks_shaped (by decide) rfl fun n => by cases n <;> simp [Node.asImport?, Node.shape]

/-- The import of a whole path fails only behind the path that it has taken. -/
theorem asks_wholePath : Asks Action.wholePath.build [.path] := by
  intro values
  rcases values with - | ⟨l | n, values⟩
  · exact .ranOut .path []
  · exact .unsuitable [] values (by rintro ⟨⟩)
  · cases n with
    | list items =>
      have hlist : list.run.run (.node (.list items) :: values) = (.ok items, values) := rfl
      rw [Action.build, run_bind hlist]
      cases hi : Import.ofPath? items with
      | some i =>
        obtain ⟨front, last, rfl, -⟩ := Import.ofPath?_eq_some_iff.mp hi
        exact .next (.path front last) (.taken i.toNode values)
      | none =>
        refine .unsuitable [] values fun hmeets => ?_
        cases hmeets with
        | path front last =>
          cases hi.symm.trans (Import.ofPath?_eq_some_iff.mpr ⟨front, last, rfl, rfl⟩)
    | identifier | unit | uses | imported => exact .unsuitable [] values (by rintro ⟨⟩)

end Taking

end Attempts

namespace Action

open Taking

/-- **Every action takes values for its needs, the last one first.** -/
theorem asks_build (a : Action) : Asks a.build a.needs.reverse := by
  cases a with
  | keep => exact asks_node
  | firstClause => exact asks_lexeme.bind fun _ => asks_node.bind fun _ => asks_pure _
  | nextClause =>
    exact asks_lexeme.bind fun _ => asks_node.bind fun _ => asks_list.bind fun _ => asks_pure _
  | name => exact asks_lexeme.bind fun _ => asks_pure _
  | firstItem => exact asks_node.bind fun _ => asks_pure _
  | nextItem =>
    exact asks_node.bind fun _ => asks_lexeme.bind fun _ => asks_list.bind fun _ => asks_pure _
  | wholePath => exact asks_wholePath
  | member =>
    exact asks_identifier.bind fun _ => asks_lexeme.bind fun _ => asks_list.bind fun _ =>
      asks_pure _
  | rename =>
    exact asks_identifier.bind fun _ => asks_lexeme.bind fun _ => asks_imported.bind fun _ =>
      asks_pure _
  | unit => exact asks_list.bind fun _ => asks_lexeme.bind fun _ => asks_pure _
  | uses => exact asks_list.bind fun _ => asks_lexeme.bind fun _ => asks_pure _

end Action

/-! ## 3. How an attempt ends -/

section Ends

variable {α : Type} {needs : List Need} {values taken rest : List Value} {a : α} {misfit : Misfit}
  {outcome : Except Misfit α × List Value}

/-- An attempt that succeeds has taken what was needed. -/
theorem Attempt.exists_taken (h : Attempt needs values (.ok a, rest)) :
    ∃ taken, values = taken ++ rest ∧ List.Forall₂ Need.Meets needs taken := by
  generalize houtcome : (Except.ok a, rest) = outcome at h
  induction h with
  | taken a' rest' =>
    cases houtcome
    exact ⟨[], rfl, .nil⟩
  | ranOut => cases houtcome
  | unsuitable => cases houtcome
  | next hv _ ih =>
    obtain ⟨taken, rfl, htaken⟩ := ih houtcome
    exact ⟨_ :: taken, rfl, .cons hv htaken⟩

/-- Where what is needed lies on the right, an attempt succeeds. -/
theorem Attempt.exists_ok (h : Attempt needs (taken ++ rest) outcome)
    (htaken : List.Forall₂ Need.Meets needs taken) : ∃ a : α, outcome = (.ok a, rest) := by
  induction htaken with
  | nil =>
    cases h with
    | taken a => exact ⟨a, rfl⟩
  | cons hv _ ih =>
    cases h with
    | unsuitable _ _ hnot => exact absurd hv hnot
    | next _ h => exact ih h

/-- One more value that is what is needed, on the right, is taken before. -/
theorem Need.StopsAt.concat {need : Need} {v : Value}
    (h : Need.StopsAt needs values misfit rest) (hv : need.Meets v) :
    Need.StopsAt (needs ++ [need]) (values ++ [v]) misfit rest := by
  cases h with
  | unsuitable hgood hnot =>
    rw [List.append_assoc, List.append_assoc]
    exact .unsuitable (List.rel_append hgood (.cons hv .nil)) hnot
  | tooFew hgood =>
    rw [List.append_assoc]
    exact .tooFew (List.rel_append hgood (.cons hv .nil))

/-- An attempt that fails has stopped at the first value that is not what is needed, or at the
end. -/
theorem Attempt.stopsAt (h : Attempt needs values ((.error misfit : Except Misfit α), rest)) :
    Need.StopsAt needs.reverse values.reverse misfit rest := by
  generalize houtcome : ((.error misfit : Except Misfit α), rest) = outcome at h
  induction h with
  | taken => cases houtcome
  | ranOut need needs =>
    cases houtcome
    rw [List.reverse_cons]
    exact .tooFew .nil
  | @unsuitable need v needs rest' hnot =>
    cases houtcome
    rw [List.reverse_cons, List.reverse_cons]
    have hstop : Need.StopsAt (needs.reverse ++ [need]) (rest.reverse ++ [v]) (need.misfit v)
        rest.reverse.reverse := .unsuitable .nil hnot
    rwa [List.reverse_reverse] at hstop
  | next hv _ ih =>
    rw [List.reverse_cons, List.reverse_cons]
    exact (ih houtcome).concat hv

end Ends

/-! ## 4. Actions on the values of a production -/

/-- The action as a reduction by the production with the number `id` runs it, on values in source
order: a misfit is reported with that number. -/
def Action.perform (a : Action) (id : Nat) (values : List Value) :
    Except Cause Node × List Value :=
  let (result, rest) := a.run values
  (result.mapError (.malformedReduction id), rest)

section Performing

variable {a : Action} {id : Nat} {p : Production} {values rest : List Value} {node : Node}
  {cause : Cause}

theorem Action.perform_eq_ok_iff :
    a.perform id values = (.ok node, rest) ↔ a.run values = (.ok node, rest) := by
  unfold perform
  rcases a.run values with ⟨misfit | n, rest'⟩ <;> simp [Except.mapError]

theorem Action.perform_eq_error_iff :
    a.perform id values = (.error cause, rest) ↔
      ∃ misfit, cause = .malformedReduction id misfit ∧ a.run values = (.error misfit, rest) := by
  unfold perform
  rcases a.run values with ⟨misfit | n, rest'⟩ <;> simp [Except.mapError, eq_comm]

/-- A reduction fails with the cause with which its action fails. -/
theorem reduce_of_perform {s below : ParseStack} (hp : production? id = some p)
    (hpop : s.popSymbols? p.length = some (values, below))
    (h : p.action.perform id values = (.error cause, rest)) : reduce id s = .error cause := by
  obtain ⟨misfit, rfl, hrun⟩ := Action.perform_eq_error_iff.mp h
  simp only [reduce, hp, hpop, hrun]
  rfl

/-- What comes of running an action, in source order. -/
theorem Action.attempt_run (a : Action) (values : List Value) :
    Attempt a.needs.reverse values.reverse (a.run values) := a.asks_build values.reverse

theorem Action.exists_taken_of_run (h : a.run values = (.ok node, rest)) :
    ∃ taken, values = rest.reverse ++ taken ∧ List.Forall₂ Need.Meets a.needs taken := by
  have hattempt := a.attempt_run values
  rw [h] at hattempt
  obtain ⟨taken, hvalues, htaken⟩ := hattempt.exists_taken
  refine ⟨taken.reverse, ?_, ?_⟩
  · rw [← List.reverse_append, ← hvalues, List.reverse_reverse]
  · rwa [← List.forall₂_reverse_iff, List.reverse_reverse]

theorem Action.exists_run_of_meets (below : List Value) {taken : List Value}
    (h : List.Forall₂ Need.Meets a.needs taken) :
    ∃ node, a.run (below ++ taken) = (.ok node, below.reverse) := by
  have hattempt := a.attempt_run (below ++ taken)
  rw [List.reverse_append] at hattempt
  exact hattempt.exists_ok (List.forall₂_reverse_iff.mpr h)

theorem Action.stopsAt_of_run {misfit : Misfit} (h : a.run values = (.error misfit, rest)) :
    Need.StopsAt a.needs values misfit rest := by
  have hattempt := a.attempt_run values
  rw [h] at hattempt
  simpa only [List.reverse_reverse] using hattempt.stopsAt

/-- **Actions agree with the productions that have them**, whatever the values are that they are
run on.  An action needs as much as its production has symbols.  It succeeds just when the last of
the values are what it needs, and then it takes just these; so none is left just when there were as
many values as symbols.  Otherwise it fails with a misfit of its production, and so does a
reduction; it has then taken the values from the right up to the first that is not what is needed,
or all of them when there are too few. -/
theorem action_takes_rhs (hp : production? id = some p) (values : List Value) :
    p.action.needs.length = p.length ∧
    ((∃ node rest, p.action.perform id values = (.ok node, rest)) ↔
      ∃ below taken, values = below ++ taken ∧
        List.Forall₂ Need.Meets p.action.needs taken) ∧
    (∀ node rest, p.action.perform id values = (.ok node, rest) →
      (∃ taken, values = rest.reverse ++ taken ∧ taken.length = p.length ∧
        List.Forall₂ Need.Meets p.action.needs taken) ∧
      (rest = [] ↔ values.length = p.length)) ∧
    ∀ cause rest, p.action.perform id values = (.error cause, rest) →
      ∃ misfit, cause = .malformedReduction id misfit ∧
        Need.StopsAt p.action.needs values misfit rest ∧
        ∀ s below, s.popSymbols? p.length = some (values, below) → reduce id s = .error cause := by
  have hlength : p.action.needs.length = p.length :=
    (Action.forall₂_needs (mem_of_production? hp)).length_eq.symm
  refine ⟨hlength, ⟨?_, ?_⟩, ?_, ?_⟩
  · rintro ⟨node, rest, h⟩
    obtain ⟨taken, hvalues, htaken⟩ :=
      Action.exists_taken_of_run (Action.perform_eq_ok_iff.mp h)
    exact ⟨rest.reverse, taken, hvalues, htaken⟩
  · rintro ⟨below, taken, rfl, htaken⟩
    obtain ⟨node, hrun⟩ := Action.exists_run_of_meets below htaken
    exact ⟨node, below.reverse, Action.perform_eq_ok_iff.mpr hrun⟩
  · intro node rest h
    obtain ⟨taken, rfl, htaken⟩ := Action.exists_taken_of_run (Action.perform_eq_ok_iff.mp h)
    have htakenLength : taken.length = p.length := htaken.length_eq.symm.trans hlength
    refine ⟨⟨taken, rfl, htakenLength, htaken⟩, ?_⟩
    rw [List.length_append, htakenLength, List.length_reverse, ← List.length_eq_zero_iff]
    omega
  · intro cause rest h
    obtain ⟨misfit, rfl, hrun⟩ := Action.perform_eq_error_iff.mp h
    exact ⟨misfit, rfl, Action.stopsAt_of_run hrun, fun s below hpop => reduce_of_perform hp hpop h⟩

/-- Three lexemes are no path, dot and name: the first one from the right is taken, and no more.
Where a path, a dot and a name stand behind another tree, that tree is left. -/
theorem action_takes_rhs_path :
    (∃ misfit, Cause.malformedReduction 7 (.notNode "b") = .malformedReduction 7 misfit ∧
      Need.StopsAt [.list, .lexeme, .node]
        [.lexeme ⟨"a", default⟩, .lexeme ⟨".", default⟩, .lexeme ⟨"b", default⟩] misfit
        [.lexeme ⟨".", default⟩, .lexeme ⟨"a", default⟩]) ∧
    ∃ node rest, Action.nextItem.perform 7 [.node default, .node (.list []),
      .lexeme ⟨".", default⟩, .node default] = (.ok node, rest) ∧ rest ≠ [] := by
  have hp : production? 7 = some ⟨.path, [Nonterminal.path, Kind.dot, Nonterminal.ident],
    .nextItem⟩ := rfl
  obtain ⟨-, -, -, hfails⟩ := action_takes_rhs hp
    [.lexeme ⟨"a", default⟩, .lexeme ⟨".", default⟩, .lexeme ⟨"b", default⟩]
  obtain ⟨-, hsucceeds, htakes, -⟩ := action_takes_rhs hp
    [.node default, .node (.list []), .lexeme ⟨".", default⟩, .node default]
  obtain ⟨misfit, hcause, hstop, -⟩ := hfails _ _ rfl
  obtain ⟨node, rest, h⟩ := hsucceeds.mpr
    ⟨[.node default], _, rfl, .cons (.list []) (.cons (.lexeme _) (.cons (.node _) .nil))⟩
  obtain ⟨-, hexhausted⟩ := htakes node rest h
  exact ⟨⟨misfit, hcause, hstop⟩, node, rest, h,
    fun hrest => absurd (hexhausted.mp hrest) (by decide)⟩

end Performing

end UnitLang

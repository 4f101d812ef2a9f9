/-
# Values built along a derivation

The parser does not only derive: every symbol on its stack carries a value, a lexeme for a
terminal and a tree for a nonterminal.  `Builds Xs ts vs` says that the symbols `Xs` stand for
the tokens `ts` and carry the values `vs`, each tree being what the action of its production
makes of the values below it.

The relation is the grammar's derivation with values attached (`Builds.derivesAll`), and it can
be cut and joined like one (`Builds.append`, `Builds.cut`).  The values have the shapes of their
symbols (`Builds.fits`), and that is all an action asks for: `exists_run_of_fits` says that on
values of the right shapes every action yields a tree and leaves no value over.
-/
import UnitLang.Grammar.Derivation
import UnitLang.Reduction
import Mathlib.Data.List.Forall2

namespace UnitLang

open Grammar

/-! ## 1. The relation -/

/-- The symbols stand for the tokens and carry the values. -/
inductive Builds : List Symbol → List Token → List Value → Prop where
  | nil : Builds [] [] []
  | lexeme {Xs : List Symbol} {ts : List Token} {vs : List Value} (t : Token) :
      Builds Xs ts vs → Builds (.terminal t.kind :: Xs) (t :: ts) (.lexeme t.lexeme :: vs)
  | node {p : Production} {n : Node} {us ts : List Token} {ws vs : List Value}
      {Xs : List Symbol} :
      p ∈ productions → Builds p.rhs us ws → p.action.run ws = (.ok n, []) →
      Builds Xs ts vs → Builds (.nonterminal p.lhs :: Xs) (us ++ ts) (.node n :: vs)

namespace Builds

variable {X : Symbol} {Xs Ys : List Symbol} {ts us : List Token} {vs ws : List Value}

/-- A shifted token carries its lexeme. -/
theorem singleton_lexeme (t : Token) : Builds [.terminal t.kind] [t] [.lexeme t.lexeme] :=
  .lexeme t .nil

/-- A reduction makes one tree of the values of a right-hand side. -/
theorem singleton_node {p : Production} {n : Node} (hp : p ∈ productions)
    (h : Builds p.rhs ts vs) (hrun : p.action.run vs = (.ok n, [])) :
    Builds [.nonterminal p.lhs] ts [.node n] := by
  simpa using Builds.node hp h hrun .nil

theorem append (hX : Builds Xs ts vs) (hY : Builds Ys us ws) :
    Builds (Xs ++ Ys) (ts ++ us) (vs ++ ws) := by
  induction hX with
  | nil => exact hY
  | lexeme t _ ih => exact .lexeme t ih
  | node hp hrhs hrun _ _ ih =>
    rw [List.append_assoc]
    exact .node hp hrhs hrun ih

/-- Every symbol carries one value. -/
theorem length_eq (h : Builds Xs ts vs) : vs.length = Xs.length := by
  induction h with
  | nil => rfl
  | lexeme _ _ ih => simpa using ih
  | node _ _ _ _ _ ih => simpa using ih

/-- Where the symbols can be cut, so can the tokens and the values. -/
theorem cut (h : Builds (Xs ++ Ys) ts vs) :
    ∃ ts₁ ts₂ vs₁ vs₂, ts = ts₁ ++ ts₂ ∧ vs = vs₁ ++ vs₂ ∧
      Builds Xs ts₁ vs₁ ∧ Builds Ys ts₂ vs₂ := by
  induction Xs generalizing ts vs with
  | nil => exact ⟨[], ts, [], vs, rfl, rfl, .nil, h⟩
  | cons X Xs ih =>
    cases h with
    | lexeme t h =>
      obtain ⟨ts₁, ts₂, vs₁, vs₂, rfl, rfl, h₁, h₂⟩ := ih h
      exact ⟨t :: ts₁, ts₂, .lexeme t.lexeme :: vs₁, vs₂, rfl, rfl, .lexeme t h₁, h₂⟩
    | node hp hrhs hrun h =>
      obtain ⟨ts₁, ts₂, vs₁, vs₂, rfl, rfl, h₁, h₂⟩ := ih h
      exact ⟨_ ++ ts₁, ts₂, .node _ :: vs₁, vs₂, (List.append_assoc ..).symm, rfl,
        .node hp hrhs hrun h₁, h₂⟩

/-- The cut falls where the values are cut, if there are as many as symbols. -/
theorem cut_at (h : Builds (Xs ++ Ys) ts (vs ++ ws)) (hlen : ws.length = Ys.length) :
    ∃ ts₁ ts₂, ts = ts₁ ++ ts₂ ∧ Builds Xs ts₁ vs ∧ Builds Ys ts₂ ws := by
  obtain ⟨ts₁, ts₂, vs₁, vs₂, rfl, hv, h₁, h₂⟩ := h.cut
  obtain ⟨rfl, rfl⟩ := List.append_inj' hv (hlen.trans h₂.length_eq.symm)
  exact ⟨ts₁, ts₂, rfl, h₁, h₂⟩

/-- With the values left out it is a derivation. -/
theorem derivesAll (h : Builds Xs ts vs) : DerivesAll Xs (ts.map (·.kind)) := by
  induction h with
  | nil => exact .nil
  | lexeme t _ ih => exact .cons (.terminal t.kind) ih
  | node hp _ _ _ ihrhs ih =>
    rw [List.map_append]
    exact .cons (.nonterminal hp ihrhs) ih

end Builds

/-! ## 2. The shape of a value -/

/-- A unit clause or a uses clause. -/
def Node.IsClause (n : Node) : Prop := (∃ path, n = .unit path) ∨ ∃ imports, n = .uses imports

/-- The shape of the trees of a nonterminal. -/
def Nonterminal.Fits : Nonterminal → Node → Prop
  | ident, n => ∃ id, n = .identifier id
  | path, n => ∃ ids : List Identifier, ids ≠ [] ∧ n = .list (ids.map .identifier)
  | imported, n => ∃ i : Import, n = i.toNode
  | importList, n => ∃ is : List Import, is ≠ [] ∧ n = .list (is.map Import.toNode)
  | unitDecl, n => ∃ path, n = .unit path
  | usesDecl, n => ∃ imports, n = .uses imports
  | clause, n => n.IsClause
  | program, n | start, n => ∃ cs : List Node, cs ≠ [] ∧ (∀ c ∈ cs, c.IsClause) ∧ n = .list cs

/-- The shape of the values of a symbol: lexemes for a terminal, trees of its shape for a
nonterminal. -/
def Symbol.Fits : Symbol → Value → Prop
  | terminal _, v => ∃ l, v = .lexeme l
  | nonterminal A, v => ∃ n, v = .node n ∧ A.Fits n

/-! ## 3. The import of a whole path -/

/-- What follows a successful computation goes on with the values it left. -/
theorem Taking.run_bind {α β : Type} {x : Taking α} {f : α → Taking β} {a : α}
    {values rest : List Value} (h : x.run.run values = (.ok a, rest)) :
    (x >>= f).run.run values = (f a).run.run rest := by
  rw [ExceptT.run_bind, StateT.run_bind, h]
  rfl

/-- The one action that can fail on values of the right shapes does not, if the path ends in a
name. -/
theorem Action.run_wholePath {items : List Node} {i : Import}
    (h : Import.ofPath? items = some i) :
    wholePath.run [.node (.list items)] = (.ok i.toNode, []) := by
  have hlist : Taking.list.run.run [.node (.list items)] = (.ok items, []) := rfl
  unfold run build
  rw [List.reverse_singleton, Taking.run_bind hlist, h]
  rfl

/-- A path of names can be imported as a whole. -/
theorem Import.ofPath?_map_identifier {ids : List Identifier} (h : ids ≠ []) :
    Import.ofPath? (ids.map .identifier) =
      some ⟨ids.map .identifier, none, ids.getLast h⟩ := by
  unfold Import.ofPath?
  rw [List.getLast?_map, List.getLast?_eq_some_getLast h]
  rfl

/-! ## 4. Every action succeeds on values of the right shapes -/

theorem fits_one {X : Symbol} {vs : List Value} (h : List.Forall₂ Symbol.Fits [X] vs) :
    ∃ a, vs = [a] ∧ X.Fits a := by
  cases h with
  | cons ha h => cases h; exact ⟨_, rfl, ha⟩

theorem fits_two {X Y : Symbol} {vs : List Value} (h : List.Forall₂ Symbol.Fits [X, Y] vs) :
    ∃ a b, vs = [a, b] ∧ X.Fits a ∧ Y.Fits b := by
  cases h with
  | cons ha h => obtain ⟨b, rfl, hb⟩ := fits_one h; exact ⟨_, b, rfl, ha, hb⟩

theorem fits_three {X Y Z : Symbol} {vs : List Value}
    (h : List.Forall₂ Symbol.Fits [X, Y, Z] vs) :
    ∃ a b c, vs = [a, b, c] ∧ X.Fits a ∧ Y.Fits b ∧ Z.Fits c := by
  cases h with
  | cons ha h => obtain ⟨b, c, rfl, hb, hc⟩ := fits_two h; exact ⟨_, b, c, rfl, ha, hb, hc⟩

/-- **The actions agree with the productions.**  On values of the shapes that the right-hand side
of a production asks for, its action yields a tree of the shape of its left-hand side, and takes
all the values. -/
theorem exists_run_of_fits {p : Production} {vs : List Value} (hp : p ∈ productions)
    (h : List.Forall₂ Symbol.Fits p.rhs vs) :
    ∃ n, p.action.run vs = (.ok n, []) ∧ p.lhs.Fits n := by
  simp only [productions, List.mem_cons, List.not_mem_nil, or_false] at hp
  rcases hp with rfl | rfl | rfl | rfl | rfl | rfl | rfl | rfl | rfl | rfl | rfl | rfl | rfl |
    rfl | rfl
  -- Start → Program
  · obtain ⟨_, rfl, n, rfl, hn⟩ := fits_one h
    exact ⟨n, rfl, hn⟩
  -- Program → Clause ;
  · obtain ⟨_, _, rfl, ⟨n, rfl, hn⟩, l, rfl⟩ := fits_two h
    exact ⟨_, rfl, [n], by simp, List.forall_mem_singleton.mpr hn, rfl⟩
  -- Program → Program Clause ;
  · obtain ⟨_, _, _, rfl, ⟨_, rfl, cs, -, hcs, rfl⟩, ⟨n, rfl, hn⟩, l, rfl⟩ := fits_three h
    exact ⟨_, rfl, cs ++ [n], by simp,
      List.forall_mem_append.mpr ⟨hcs, List.forall_mem_singleton.mpr hn⟩, rfl⟩
  -- Clause → UnitDecl
  · obtain ⟨_, rfl, n, rfl, hn⟩ := fits_one h
    exact ⟨n, rfl, .inl hn⟩
  -- Clause → UsesDecl
  · obtain ⟨_, rfl, n, rfl, hn⟩ := fits_one h
    exact ⟨n, rfl, .inr hn⟩
  -- Ident → IDENTIFIER
  · obtain ⟨_, rfl, l, rfl⟩ := fits_one h
    exact ⟨_, rfl, _, rfl⟩
  -- Path → Ident
  · obtain ⟨_, rfl, _, rfl, id, rfl⟩ := fits_one h
    exact ⟨_, rfl, [id], by simp, rfl⟩
  -- Path → Path . Ident
  · obtain ⟨_, _, _, rfl, ⟨_, rfl, ids, -, rfl⟩, ⟨l, rfl⟩, _, rfl, id, rfl⟩ := fits_three h
    exact ⟨_, rfl, ids ++ [id], by simp, by simp⟩
  -- Import → Path
  · obtain ⟨_, rfl, _, rfl, ids, hids, rfl⟩ := fits_one h
    exact ⟨_, Action.run_wholePath (Import.ofPath?_map_identifier hids), _, rfl⟩
  -- Import → Path \ Ident
  · obtain ⟨_, _, _, rfl, ⟨_, rfl, ids, -, rfl⟩, ⟨l, rfl⟩, _, rfl, id, rfl⟩ := fits_three h
    exact ⟨_, rfl, _, rfl⟩
  -- Import → Import as Ident
  · obtain ⟨_, _, _, rfl, ⟨_, rfl, i, rfl⟩, ⟨l, rfl⟩, _, rfl, id, rfl⟩ := fits_three h
    exact ⟨_, rfl, i.rename id, rfl⟩
  -- UnitDecl → unit Path
  · obtain ⟨_, _, rfl, ⟨l, rfl⟩, _, rfl, ids, -, rfl⟩ := fits_two h
    exact ⟨_, rfl, _, rfl⟩
  -- UsesDecl → uses ImportList
  · obtain ⟨_, _, rfl, ⟨l, rfl⟩, _, rfl, is, -, rfl⟩ := fits_two h
    exact ⟨_, rfl, _, rfl⟩
  -- ImportList → Import
  · obtain ⟨_, rfl, _, rfl, i, rfl⟩ := fits_one h
    exact ⟨_, rfl, [i], by simp, rfl⟩
  -- ImportList → ImportList , Import
  · obtain ⟨_, _, _, rfl, ⟨_, rfl, is, -, rfl⟩, ⟨l, rfl⟩, _, rfl, i, rfl⟩ := fits_three h
    exact ⟨_, rfl, is ++ [i], by simp, by simp⟩

/-- The values of symbols have their shapes. -/
theorem Builds.fits {Xs : List Symbol} {ts : List Token} {vs : List Value}
    (h : Builds Xs ts vs) : List.Forall₂ Symbol.Fits Xs vs := by
  induction h with
  | nil => exact .nil
  | lexeme t _ ih => exact .cons ⟨t.lexeme, rfl⟩ ih
  | node hp _ hrun _ ihrhs ih =>
    obtain ⟨n', hrun', hfits⟩ := exists_run_of_fits hp ihrhs
    rw [hrun] at hrun'
    cases hrun'
    exact .cons ⟨_, rfl, hfits⟩ ih

end UnitLang

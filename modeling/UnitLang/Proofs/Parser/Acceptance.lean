/-
# The parser accepts the grammar

The parser succeeds on a source just when the kinds of its tokens are a sentence of the grammar.

One half is what the stack holds: where the table accepts, the one tree on the stack was built
along a derivation of the tokens (`ParseStack.Holds.answer_ok`).

The other half follows a derivation.  `ReadsAs Xs w` says of some symbols and the kinds they
derive that from every stack that has a way along the symbols, reading tokens of these kinds
leads along it, whatever comes behind them that may follow.  A terminal is shifted.  A
nonterminal first reads its right-hand side and then reduces, because the kind that comes next
may follow it, and the state below goes on by it (`Automaton.table_walks`).  Symbols one behind
the other hand over at the kind with which the next of them begins.  So every derivation reads
(`readsAs_of_derives`), and one of a program ends where the table accepts.
-/
import UnitLang.Proofs.Automaton.Lookahead
import UnitLang.Proofs.Parser.Answer

namespace UnitLang

open Automaton (lookup? next? walk walk_cons_iff walk_singleton_iff)
open Grammar

/-! ## 1. What is accepted is derived -/

/-- **A parse that succeeds builds its tree along a derivation** of all its tokens. -/
theorem ParseStack.Holds.answer_ok {s : ParseStack} {shifted ts : List Token} {e : Ending}
    {n : Node} (h : s.Holds shifted) (hts : ∀ t ∈ ts, t.kind ≠ .endOfInput)
    (hok : answer ts e s = .ok n) :
    (∃ p, e = .ended p) ∧ Builds [.nonterminal .program] (shifted ++ ts) [.node n] := by
  induction ts generalizing s shifted with
  | nil =>
    cases e with
    | failed e => cases hok
    | ended p =>
      rcases h.answer_nil with ⟨n', hb, heq⟩ | heq
      · cases (heq p).symm.trans hok
        exact ⟨⟨p, rfl⟩, by simpa using hb⟩
      · cases (heq p).symm.trans hok
  | cons t ts ih =>
    obtain ⟨ht, hts⟩ := List.forall_mem_cons.mp hts
    rcases h.answer_cons t ht with ⟨s', hholds, heq⟩ | heq
    · rw [heq] at hok
      simpa using ih hholds hts hok
    · cases (heq ts e).symm.trans hok

/-! ## 2. What is derived is read -/

/-- What comes first of the tokens of some symbols, or behind them, is one of their first
kinds. -/
theorem nextKind_mem_firsts {Xs : List Symbol} {ts rest : List Token} {after : List Kind}
    (h : DerivesAll Xs (ts.map (·.kind))) (hrest : nextKind rest ∈ after) :
    nextKind (ts ++ rest) ∈ firsts after Xs := by
  cases Xs with
  | nil =>
    obtain rfl := List.map_eq_nil_iff.mp (derivesAll_nil_iff.mp h)
    exact hrest
  | cons X Xs =>
    obtain ⟨u, v, huv, hX, -⟩ := derivesAll_cons_iff.mp h
    obtain ⟨k, u, rfl, hk⟩ := exists_first_of_derives hX
    cases ts with
    | nil => cases huv
    | cons t ts =>
      obtain ⟨rfl, -⟩ := List.cons_eq_cons.mp huv
      exact hk

/-- From every stack with a way along the symbols, tokens of these kinds lead along it: the stack
gets one cell for each symbol, and goes on as it did before the tokens. -/
def ReadsAs (Xs : List Symbol) (w : List Kind) : Prop :=
  ∀ {s : ParseStack} {shifted ts : List Token} {after : List Kind} {state : Nat},
    s.Holds shifted → ts.map (·.kind) = w → walk s.topState Xs = some state →
    followedBy after Xs = true →
    ∃ s' : ParseStack, s'.Holds (shifted ++ ts) ∧ s'.topState = state ∧
      (∃ top, s'.cells = top ++ s.cells ∧ top.length = Xs.length) ∧
      ∀ rest e, nextKind rest ∈ after → answer (ts ++ rest) e s = answer rest e s'

namespace ReadsAs

theorem nil : ReadsAs [] [] := by
  intro s shifted ts after state hholds hts hwalk _
  obtain rfl := List.map_eq_nil_iff.mp hts
  cases hwalk
  exact ⟨s, by simpa using hholds, rfl, ⟨[], rfl, rfl⟩, fun rest e _ => rfl⟩

/-- A terminal is shifted. -/
theorem terminal (k : Kind) : ReadsAs [.terminal k] [k] := by
  intro s shifted ts after state hholds hts hwalk _
  obtain ⟨t, rfl, rfl⟩ := List.map_eq_singleton_iff.mp hts
  have he := Automaton.next?_terminal_iff.mp (walk_singleton_iff.mp hwalk)
  refine ⟨s.shift state t.lexeme, hholds.shift he, rfl, ⟨[⟨state, _⟩], rfl, rfl⟩, ?_⟩
  intro rest e _
  exact answer_cons_of_shift he

/-- A nonterminal is read by its right-hand side and a reduction. -/
theorem nonterminal {p : Production} {w : List Kind} (hp : p ∈ productions)
    (ih : ReadsAs p.rhs w) : ReadsAs [.nonterminal p.lhs] w := by
  intro s shifted ts after state hholds hts hwalk hafter
  obtain ⟨id, hid⟩ := List.mem_iff_getElem?.mp hp
  have hnext := walk_singleton_iff.mp hwalk
  obtain ⟨last, hlast, hreduces⟩ := Automaton.table_walks hid hnext
  obtain ⟨s₁, hholds₁, rfl, ⟨top, hcells, hlen⟩, hanswer⟩ :=
    ih hholds hts hlast (followedBy_rhs hp)
  obtain ⟨k, hk⟩ := List.exists_mem_of_ne_nil _ (follow_ne_nil p.lhs)
  obtain ⟨q, values, below, node, next, hq, hpop, -, -, hgoto, hreduce, hholds'⟩ :=
    hholds₁.exists_reduce (hreduces k hk)
  obtain rfl : p = q := Option.some.inj (hid.symm.trans hq)
  obtain ⟨top', hcells', hlen', -⟩ := ParseStack.popSymbols?_eq_some_iff.mp hpop
  -- As many cells are popped as were pushed, so the stack below is the one at the beginning.
  obtain ⟨-, hbelow⟩ :=
    List.append_inj (hcells.symm.trans hcells') (hlen.trans hlen'.symm)
  obtain rfl : s = below := by cases s; cases below; exact congrArg ParseStack.mk hbelow
  obtain rfl : state = next :=
    Option.some.inj (hnext.symm.trans (Automaton.next?_nonterminal_iff.mpr hgoto))
  refine ⟨s.pushNode state node, hholds', rfl, ⟨[⟨state, _⟩], rfl, rfl⟩, ?_⟩
  intro rest e hrest
  have hfollow : nextKind rest ∈ follow p.lhs := by
    simp only [followedBy, firsts, Bool.and_true, List.all_eq_true, decide_eq_true_eq] at hafter
    exact hafter _ hrest
  rw [hanswer rest e hfollow]
  exact answer_of_reduce (hreduces _ hfollow) hreduce

/-- Symbols are read one behind the other. -/
theorem cons {X : Symbol} {Xs : List Symbol} {v w : List Kind} (hX : ReadsAs [X] v)
    (hXs : ReadsAs Xs w) (hw : DerivesAll Xs w) : ReadsAs (X :: Xs) (v ++ w) := by
  intro s shifted ts after state hholds hts hwalk hafter
  obtain ⟨us, vs, rfl, rfl, rfl⟩ := List.map_eq_append_iff.mp hts
  obtain ⟨next, hnext, hwalk⟩ := walk_cons_iff.mp hwalk
  have hX' : followedBy (firsts after Xs) [X] = true := by
    cases X <;> simp_all [followedBy, firsts]
  have hXs' : followedBy after Xs = true := by
    cases X <;> simp_all [followedBy]
  obtain ⟨s₁, hholds₁, rfl, ⟨top₁, hcells₁, hlen₁⟩, hanswer₁⟩ :=
    hX hholds rfl (walk_singleton_iff.mpr hnext) hX'
  obtain ⟨s₂, hholds₂, rfl, ⟨top₂, hcells₂, hlen₂⟩, hanswer₂⟩ := hXs hholds₁ rfl hwalk hXs'
  refine ⟨s₂, by simpa using hholds₂, rfl, ⟨top₂ ++ top₁, ?_, ?_⟩, ?_⟩
  · rw [hcells₂, hcells₁, List.append_assoc]
  · simp [hlen₁, hlen₂]
  · intro rest e hrest
    rw [List.append_assoc, hanswer₁ _ e (nextKind_mem_firsts hw hrest), hanswer₂ rest e hrest]

end ReadsAs

/-- **Whatever a symbol derives is read as it.** -/
theorem readsAs_of_derives {X : Symbol} {w : List Kind} (h : Derives X w) : ReadsAs [X] w := by
  refine Derives.rec (motive_1 := fun X w _ => ReadsAs [X] w)
    (motive_2 := fun Xs w _ => ReadsAs Xs w) ?_ ?_ ?_ ?_ h
  · exact ReadsAs.terminal
  · intro p w hp _ ih
    exact ReadsAs.nonterminal hp ih
  · exact ReadsAs.nil
  · intro X Xs v w _ hXs ihX ihXs
    exact ReadsAs.cons ihX ihXs hXs

/-- Tokens whose kinds are a sentence are answered with a tree. -/
theorem exists_answer_of_isSentence {ts : List Token} (p : Position)
    (h : IsSentence (ts.map (·.kind))) : ∃ n, answer ts (.ended p) .empty = .ok n := by
  have hwalk : walk ParseStack.empty.topState [.nonterminal .program] = some 1 := by decide
  have hafter : followedBy [.endOfInput] [.nonterminal .program] = true := by decide
  obtain ⟨s, hholds, htop, -, hanswer⟩ :=
    readsAs_of_derives h ParseStack.holds_empty rfl hwalk hafter
  have he : lookup? s.topState (.terminal .endOfInput) = some .accept := by rw [htop]; rfl
  obtain ⟨state, n, hcells, -⟩ := hholds.accept he
  have hrest : nextKind [] ∈ [Kind.endOfInput] := by decide
  refine ⟨n, ?_⟩
  rw [← List.append_nil ts, hanswer [] _ hrest]
  exact answer_nil_of_accept he hcells

/-! ## 3. The language of the parser -/

/-- What is answered with a tree, from the beginning on, is a sentence that is at its end. -/
theorem exists_answer_ok_iff {ts : List Token} {e : Ending}
    (hts : ∀ t ∈ ts, t.kind ≠ .endOfInput) :
    (∃ n, answer ts e .empty = .ok n) ↔
      (∃ p, e = .ended p) ∧ IsSentence (ts.map (·.kind)) := by
  constructor
  · rintro ⟨n, hn⟩
    obtain ⟨he, hb⟩ := ParseStack.holds_empty.answer_ok hts hn
    exact ⟨he, derivesAll_singleton_iff.mp hb.derivesAll⟩
  · rintro ⟨⟨p, rfl⟩, h⟩
    exact exists_answer_of_isSentence p h

/-- What is parsed with success has tokens. -/
theorem Parser.exists_tokenize_of_ok {p : Parser} {source : String} {n : Node}
    (h : (p.parse source).1 = .ok n) : ∃ tokens, tokenize source = .ok tokens := by
  rw [parse_eq_answer] at h
  obtain ⟨⟨stop, hstop⟩, -⟩ :=
    (exists_answer_ok_iff (kind_ne_endOfInput_of_mem_itemsOf source)).mp ⟨n, h⟩
  exact ⟨_, tokenize_eq_ok_iff.mpr ⟨_, stop, by rw [← hstop], rfl⟩⟩

/-- **The parser accepts the grammar.**  Whatever it did before, it succeeds on a source just when
tokenizing the source succeeds and the kinds of the tokens, without the end of the input, are a
sentence; so it fails on every other source. -/
theorem parse_ok_iff_isSentence (p : Parser) (source : String) :
    (∃ n, (p.parse source).1 = .ok n) ↔
      ∃ ts stop, tokenize source = .ok (ts ++ [Token.endOfInput stop]) ∧
        IsSentence (ts.map (·.kind)) := by
  have hkinds := kind_ne_endOfInput_of_mem_itemsOf source
  rw [Parser.parse_eq_answer, exists_answer_ok_iff hkinds]
  constructor
  · rintro ⟨⟨stop, hstop⟩, h⟩
    exact ⟨_, stop, tokenize_eq_ok_iff.mpr ⟨_, stop, by rw [← hstop], rfl⟩, h⟩
  · rintro ⟨ts, stop, htok, h⟩
    obtain ⟨ts', stop', his, heq⟩ := tokenize_eq_ok_iff.mp htok
    obtain ⟨rfl, -⟩ := List.append_inj' heq rfl
    rw [his]
    exact ⟨⟨stop', rfl⟩, h⟩

end UnitLang

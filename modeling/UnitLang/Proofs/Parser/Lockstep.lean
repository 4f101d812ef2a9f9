/-
# Only the kinds matter

Parsing looks at the kinds of the tokens and at nothing else.  On two sources whose tokens are of
the same kinds and end the same way (`Items.SameKinds`), two parsers go in lockstep.  To every head
of the loop of the one there is a head of the other (`Parser.Accompanied`) with the same states on
its stack and with as many tokens shifted, to which it came by the same shifts and reductions
(`Parser.Abreast`).  The values on the stacks differ, but no turn depends on them: an action that
the table asks for succeeds on whatever values there are (`Parser.Invariant.exists_reduces`).

So they end alike.  Either both succeed, with trees that are equal but for the names and spans in
them, because a tree is determined by the tokens and keeps their texts as they are
(`Builds.relabel`); or both fail at the same item.
-/
import UnitLang.Proofs.Parser.Moves
import UnitLang.Proofs.Program.Reading
import UnitLang.Proofs.Grammar.Making

namespace UnitLang

open Automaton (lookup?)

/-! ## 1. Items of the same kinds -/

/-- Whether items end at the end of a text, and not at an error. -/
def Ending.isEnded : Ending → Bool
  | ended _ => true
  | failed _ => false

/-- The tokens are of the same kinds, and both end at the end of their text or both at an error. -/
structure Items.SameKinds (is is' : Items) : Prop where
  kinds : is.tokens.map (·.kind) = is'.tokens.map (·.kind)
  ending : is.ending.isEnded = is'.ending.isEnded

namespace Items.SameKinds

variable {is is' : Items} {shifted shifted' : List Token} {scanner scanner' : Scanner}
  {t t' : Token} {e : Error}

theorem symm (h : is.SameKinds is') : is'.SameKinds is := ⟨h.kinds.symm, h.ending.symm⟩

theorem length_eq (h : is.SameKinds is') : is.tokens.length = is'.tokens.length := by
  simpa using congrArg List.length h.kinds

/-- Behind as many tokens the items that come next are of the same kind. -/
theorem kind_eq (h : is.SameKinds is') (hlen : shifted.length = shifted'.length)
    (hahead : Ahead is shifted scanner t) (hahead' : Ahead is' shifted' scanner' t') :
    t.kind = t'.kind := by
  have hkinds := congrArg (List.drop shifted.length) h.kinds
  rw [← List.map_drop, ← List.map_drop] at hkinds
  rw [← hahead.nextKind_drop, ← hahead'.nextKind_drop, nextKind, nextKind, ← List.head?_map,
    ← List.head?_map, hkinds, hlen]

/-- Where a token or the end of the input comes next in the one, no error does in the other. -/
theorem ne_failed (h : is.SameKinds is') (hlen : shifted.length = shifted'.length)
    (hahead : Ahead is shifted scanner t) : is' ≠ ⟨shifted', .failed e⟩ := by
  rintro rfl
  cases hahead with
  | token _ _ his =>
    have hlength := h.length_eq
    rw [his] at hlength
    simp [hlen] at hlength
  | ended _ his =>
    have hending := h.ending
    rw [his] at hending
    cases hending

/-- Where a scanner of the one reads on, so does a scanner of the other. -/
theorem exists_nextToken (h : is.SameKinds is') (hlen : shifted.length = shifted'.length)
    (hahead : Ahead is shifted scanner t) (hs' : scanner'.ended = false)
    (his' : is' = ⟨shifted' ++ scanner'.items.tokens, scanner'.items.ending⟩) :
    ∃ t' next, scanner'.nextToken = (.ok t', next) := by
  rcases hnext : scanner'.nextToken with ⟨e | t', next⟩
  · exact absurd (Ahead.eq_failed_of_nextToken_error hs' his' hnext) (h.ne_failed hlen hahead)
  · exact ⟨t', next, rfl⟩

end Items.SameKinds

/-! ## 2. Two parsers in lockstep -/

namespace Parser

/-- Both parsers have the same states on their stacks, and came there by the same moves. -/
structure Abreast (q q' : Parser) : Prop where
  states : q.stack.states = q'.stack.states
  moves : q.moves = q'.moves

section Lockstep

variable {p p' q q' : Parser} {source source' : String} {is is' : Items}
  {shifted shifted' : List Token} {lookahead lookahead' t t' : Token}
  {scanner scanner' : Scanner} {id next : Nat}

theorem Abreast.topState_eq (h : q.Abreast q') : q.stack.topState = q'.stack.topState := by
  have htop := congrArg List.head? h.states
  rw [ParseStack.head?_states, ParseStack.head?_states] at htop
  exact Option.some.inj htop

/-- Shifting tokens of the same kind keeps parsers abreast. -/
theorem Abreast.shift (h : q.Abreast q') (hkind : lookahead.kind = lookahead'.kind) :
    (q.afterShift lookahead next scanner t).Abreast
      (q'.afterShift lookahead' next scanner' t') where
  states := congrArg (next :: ·) h.states
  moves := by rw [moves_afterShift, moves_afterShift, h.topState_eq, hkind, h.moves]

/-- **Reducing keeps parsers abreast**: they reduce by the same production and go to the same
state, whatever their values are. -/
theorem Abreast.reduce {production production' : Production} {values values' : List Value}
    {below below' : ParseStack} {node node' : Node} {next' : Nat} {k : Kind}
    (h : q.Abreast q') (hr : q.stack.Reduces k id production values below node next)
    (hr' : q'.stack.Reduces k id production' values' below' node' next') :
    (q.afterReduce id production below node next).Abreast
      (q'.afterReduce id production' below' node' next') := by
  cases hr.production?.symm.trans hr'.production?
  have hbelow : below.states = below'.states := by
    rw [← hr.drop_states, ← hr'.drop_states, h.states]
  have htop : below.topState = below'.topState := by
    have hhead := congrArg List.head? hbelow
    rw [ParseStack.head?_states, ParseStack.head?_states] at hhead
    exact Option.some.inj hhead
  have hgoto := hr.goto
  rw [htop] at hgoto
  cases hgoto.symm.trans hr'.goto
  constructor
  · exact congrArg (next :: ·) hbelow
  · rw [moves_afterReduce, moves_afterReduce, htop, h.moves]

/-- The other parse has a head at which the parsers are abreast, with as many tokens shifted. -/
def Accompanied (p' : Parser) (source' : String) (shifted : List Token) (q : Parser) : Prop :=
  ∃ shifted' q' lookahead', Visits p' source' q' lookahead' ∧
    Invariant (itemsOf source') shifted' q' lookahead' ∧ shifted.length = shifted'.length ∧
    q.Abreast q'

section Sources

variable (hsame : (itemsOf source).SameKinds (itemsOf source'))
include hsame

/-- Where the one parse begins, so does the other. -/
theorem Accompanied.start (p' : Parser)
    (ht : (p.scanner.load source).nextToken = (.ok t, scanner)) :
    Accompanied p' source' [] ⟨scanner, .empty, Event.ofToken t⟩ := by
  have hahead : Ahead (itemsOf source) [] scanner t := .of_nextToken_ok rfl rfl ht
  have hscanner : (p'.scanner.load source').ended = false := rfl
  have hitems : itemsOf source' = ⟨[] ++ (p'.scanner.load source').items.tokens,
    (p'.scanner.load source').items.ending⟩ := rfl
  obtain ⟨t', scanner', ht'⟩ := hsame.exists_nextToken rfl hahead hscanner hitems
  refine ⟨[], _, t', .start ht', ⟨ParseStack.holds_empty, .of_nextToken_ok rfl rfl ht'⟩, rfl,
    rfl, ?_⟩
  rw [moves, moves, filter_isMove_ofToken, filter_isMove_ofToken]

/-- Where the one parse shifts and reads on, so does the other. -/
theorem Accompanied.shift (h : Accompanied p' source' shifted q)
    (hinv : Invariant (itemsOf source) shifted q lookahead)
    (he : lookup? q.stack.topState (.terminal lookahead.kind) = some (.shift next))
    (ht : q.scanner.nextToken = (.ok t, scanner)) :
    Accompanied p' source' (shifted ++ [lookahead]) (q.afterShift lookahead next scanner t) := by
  obtain ⟨shifted', q', lookahead', hvisits', hinv', hlen, habreast⟩ := h
  have hkind := hsame.kind_eq hlen hinv.ahead hinv'.ahead
  have he' := he
  rw [habreast.topState_eq, hkind] at he'
  obtain ⟨hscanner, hitems⟩ := hinv'.ahead.shift (kind_ne_endOfInput_of_lookup? he')
  have hlen' : (shifted ++ [lookahead]).length = (shifted' ++ [lookahead']).length := by
    simp [hlen]
  obtain ⟨t', scanner', ht'⟩ :=
    hsame.exists_nextToken hlen' (hinv.shift he ht).ahead hscanner hitems
  exact ⟨_, _, t', hvisits'.next (turn_of_shift he' ht'), hinv'.shift he' ht', hlen',
    habreast.shift hkind⟩

/-- Where the one parse reduces, so does the other. -/
theorem Accompanied.reduce {production : Production} {values : List Value} {below : ParseStack}
    {node : Node} (h : Accompanied p' source' shifted q)
    (hinv : Invariant (itemsOf source) shifted q lookahead)
    (hr : q.stack.Reduces lookahead.kind id production values below node next) :
    Accompanied p' source' shifted (q.afterReduce id production below node next) := by
  obtain ⟨shifted', q', lookahead', hvisits', hinv', hlen, habreast⟩ := h
  have hkind := hsame.kind_eq hlen hinv.ahead hinv'.ahead
  have he' := hr.entry
  rw [habreast.topState_eq, hkind] at he'
  obtain ⟨_, _, _, _, _, hr', hturn', hinv''⟩ := hinv'.exists_reduces he'
  rw [← hkind] at hr'
  exact ⟨_, _, _, hvisits'.next hturn', hinv'', hlen, habreast.reduce hr hr'⟩

/-- **Every head of the one parse is accompanied by one of the other.** -/
theorem Visits.accompanied (p' : Parser) (h : Visits p source q lookahead) :
    ∃ shifted, Invariant (itemsOf source) shifted q lookahead ∧
      Accompanied p' source' shifted q := by
  refine Visits.induction (motive := fun shifted q _ => Accompanied p' source' shifted q)
    ?_ ?_ ?_ h
  · intro t scanner ht
    exact .start hsame p' ht
  · intro shifted q lookahead next t scanner hinv he ht hacc
    exact hacc.shift hsame hinv he ht
  · intro shifted q lookahead id production values below node next hinv hr hacc
    exact hacc.reduce hsame hinv hr

/-- Where the one parse ends, so does the other, at a counterpart of the same head. -/
theorem Accompanied.ends {outcome : Except Error Node} {log : List Event}
    (h : Accompanied p' source' shifted q)
    (hinv : Invariant (itemsOf source) shifted q lookahead)
    (hend : Ends (itemsOf source) shifted q lookahead outcome log) :
    ∃ shifted' q' lookahead', Invariant (itemsOf source') shifted' q' lookahead' ∧
      shifted.length = shifted'.length ∧ q.Abreast q' ∧
      Ends (itemsOf source') shifted' q' lookahead' (p'.parse source').1
        (p'.parse source').2.log := by
  obtain ⟨shifted', q', lookahead', hvisits', hinv', hlen, habreast⟩ := h
  refine ⟨shifted', q', lookahead', hinv', hlen, habreast, ?_⟩
  have hentry : lookup? q.stack.topState (.terminal lookahead.kind) =
      lookup? q'.stack.topState (.terminal lookahead'.kind) := by
    rw [habreast.topState_eq, hsame.kind_eq hlen hinv.ahead hinv'.ahead]
  cases hturn : turn q' lookahead' with
  | done outcome' => exact hvisits'.ends hinv' hturn
  | again q'' lookahead'' =>
    -- The entry is that of a last turn, so it can only be a shift behind which there is no token.
    exfalso
    rcases turn_eq_again hturn with ⟨next, scanner, he', ht', -⟩ | ⟨id, r, he', -⟩
    · cases hend with
      | lexical he his =>
        have hlen' : (shifted' ++ [lookahead']).length = (shifted ++ [lookahead]).length := by
          simp [hlen]
        exact hsame.symm.ne_failed hlen' (hinv'.shift he' ht').ahead his
      | accepted he | unexpected he | unfinished he => cases he.symm.trans (hentry.trans he')
    · cases hend with
      | lexical he | accepted he | unexpected he | unfinished he =>
        cases he.symm.trans (hentry.trans he')

end Sources

end Lockstep

end Parser

/-! ## 3. The same outcome -/

namespace Items

/-- The error of a parse that fails at this item. -/
def errorAt : Except Error Token → Error
  | .ok t => ⟨if t.isEnd then .unexpectedEndOfInput else .unexpectedToken t.value, t.span.start⟩
  | .error e => e

/-- The error is one at the item with this number. -/
def FailsAt (is : Items) (i : Nat) (e : Error) : Prop :=
  ∃ item, is.toList[i]? = some item ∧ e = errorAt item

/-- The tokens have the same texts. -/
def SameValues (is is' : Items) : Prop := is.tokens.map (·.value) = is'.tokens.map (·.value)

end Items

/-- The tree without its names and their places. -/
def Node.bare (n : Node) : Node := n.relabel fun _ => default

/-- The tree without the places of its names. -/
def Node.unplaced (n : Node) : Node := n.relabel fun id => ⟨id.name, default⟩

/-- Two outcomes that are alike: trees that differ in their names and places at most, or errors of
the same sort at the same item.  If the texts of the tokens are the same, the trees differ in
places only, and so do errors that are not lexical. -/
inductive Items.AlikeOutcomes (is is' : Items) : Except Error Node → Except Error Node → Prop where
  | ok {n n' : Node} : n.bare = n'.bare → (is.SameValues is' → n.unplaced = n'.unplaced) →
      AlikeOutcomes is is' (.ok n) (.ok n')
  | error {e e' : Error} (i : Nat) : e.cause.name = e'.cause.name →
      is.FailsAt i e → is'.FailsAt i e' →
      (is.SameValues is' → e.cause.category = .syntactic → e.cause = e'.cause) →
      AlikeOutcomes is is' (.error e) (.error e')

section Outcomes

variable {is is' : Items} {shifted shifted' : List Token} {scanner scanner' : Scanner}
  {t t' : Token} {e : Error} {ts ts' : List Token} {n n' : Node}

/-- The lookahead is the item behind the shifted tokens. -/
theorem Ahead.getElem?_toList (h : Ahead is shifted scanner t) :
    is.toList[shifted.length]? = some (.ok t) := by
  cases h with
  | token _ _ his => simp [his, Items.toList]
  | ended _ his => simp [his, Items.toList]

/-- A lookahead that is a token is the one behind the shifted tokens. -/
theorem Ahead.getElem?_tokens (h : Ahead is shifted scanner t) (hk : t.kind ≠ .endOfInput) :
    is.tokens[shifted.length]? = some t := by
  cases h with
  | token _ _ his => simp [his]
  | ended => exact absurd rfl hk

/-- The error that ends some items is behind their tokens. -/
theorem Items.getElem?_toList_failed (ts : List Token) (e : Error) :
    (Items.mk ts (.failed e)).toList[ts.length]? = some (.error e) := by
  simp [Items.toList]

/-- Behind as many tokens the tokens that come next have the same text, if all have. -/
theorem Items.SameValues.value_eq (h : is.SameValues is') (hlen : shifted.length = shifted'.length)
    (hahead : Ahead is shifted scanner t) (hahead' : Ahead is' shifted' scanner' t')
    (hk : t.kind ≠ .endOfInput) (hk' : t'.kind ≠ .endOfInput) : t.value = t'.value := by
  have hvalue := congrArg (·[shifted.length]?) h
  simp only [List.getElem?_map, hahead.getElem?_tokens hk] at hvalue
  rw [hlen, hahead'.getElem?_tokens hk'] at hvalue
  exact Option.some.inj hvalue

/-- Without names and places, tokens are as their kinds are. -/
theorem map_relabel_bare (h : ts.map (·.kind) = ts'.map (·.kind)) :
    ts.map (Token.relabel fun _ => default) = ts'.map (Token.relabel fun _ => default) := by
  have hmap := congrArg (List.map fun k => (⟨k, default, default⟩ : Token)) h
  rwa [List.map_map, List.map_map] at hmap

/-- Without places, tokens are as their kinds and texts are. -/
theorem map_relabel_unplaced (hkinds : ts.map (·.kind) = ts'.map (·.kind))
    (hvalues : ts.map (·.value) = ts'.map (·.value)) :
    ts.map (Token.relabel fun id => ⟨id.name, default⟩) =
      ts'.map (Token.relabel fun id => ⟨id.name, default⟩) := by
  induction ts generalizing ts' with
  | nil =>
    rw [List.map_nil, eq_comm, List.map_eq_nil_iff] at hkinds
    rw [hkinds]
  | cons t ts ih =>
    cases ts' with
    | nil => cases hkinds
    | cons t' ts' =>
      obtain ⟨hkind, hkinds⟩ := List.cons_eq_cons.mp hkinds
      obtain ⟨hvalue, hvalues⟩ := List.cons_eq_cons.mp hvalues
      rw [List.map_cons, List.map_cons, ih hkinds hvalues]
      simp [Token.relabel, Lexeme.relabel, Lexeme.identifier, Token.lexeme, hkind, hvalue]

/-- Trees of programs that differ in names and places differ as their tokens do. -/
theorem Builds.relabel_eq (g : Identifier → Identifier)
    (h : Builds [.nonterminal .program] ts [.node n])
    (h' : Builds [.nonterminal .program] ts' [.node n'])
    (heq : ts.map (Token.relabel g) = ts'.map (Token.relabel g)) :
    n.relabel g = n'.relabel g := by
  have hg := h.relabel g
  have hg' := h'.relabel g
  rw [heq] at hg
  exact hg.program_unique hg'

/-- Programs of tokens of the same kinds are alike. -/
theorem Items.AlikeOutcomes.of_builds {stop stop' : Position}
    (hsame : (Items.mk ts (.ended stop)).SameKinds ⟨ts', .ended stop'⟩)
    (h : Builds [.nonterminal .program] ts [.node n])
    (h' : Builds [.nonterminal .program] ts' [.node n']) :
    AlikeOutcomes ⟨ts, .ended stop⟩ ⟨ts', .ended stop'⟩ (.ok n) (.ok n') :=
  .ok (h.relabel_eq _ h' (map_relabel_bare hsame.kinds)) fun hvalues =>
    h.relabel_eq _ h' (map_relabel_unplaced hsame.kinds hvalues)

/-- Lexical errors behind as many tokens are alike. -/
theorem Items.AlikeOutcomes.of_failed {e' : Error} (hlen : ts.length = ts'.length)
    (he : e.cause.category = .lexical) (hname : e.cause.name = e'.cause.name) :
    AlikeOutcomes ⟨ts, .failed e⟩ ⟨ts', .failed e'⟩ (.error e) (.error e') := by
  refine .error ts.length hname ⟨_, getElem?_toList_failed ts e, rfl⟩
    ⟨_, hlen ▸ getElem?_toList_failed ts' e', rfl⟩ fun _ hsyntactic => ?_
  cases he.symm.trans hsyntactic

/-- **At counterparts of the same head two parses end alike.** -/
theorem Parser.Ends.alike {source source' : String} {q q' : Parser}
    {outcome outcome' : Except Error Node} {log log' : List Event}
    (hend : Ends (itemsOf source) shifted q t outcome log)
    (hend' : Ends (itemsOf source') shifted' q' t' outcome' log')
    (hsame : (itemsOf source).SameKinds (itemsOf source'))
    (hahead : Ahead (itemsOf source) shifted q.scanner t)
    (hahead' : Ahead (itemsOf source') shifted' q'.scanner t')
    (hlen : shifted.length = shifted'.length) (habreast : q.Abreast q') :
    log.filter Event.isMove = log'.filter Event.isMove ∧
      (itemsOf source).AlikeOutcomes (itemsOf source') outcome outcome' := by
  have hkind := hsame.kind_eq hlen hahead hahead'
  have hentry : lookup? q.stack.topState (.terminal t.kind) =
      lookup? q'.stack.topState (.terminal t'.kind) := by
    rw [habreast.topState_eq, hkind]
  have hitem := hahead.getElem?_toList
  have hitem' := hahead'.getElem?_toList
  rw [← hlen] at hitem'
  cases hend with
  | lexical he his =>
    cases hend' with
    | lexical he' his' =>
      cases he.symm.trans (hentry.trans he')
      obtain ⟨_, _, rfl⟩ := exists_eq_unrecognised (congrArg Items.ending his)
      obtain ⟨_, _, rfl⟩ := exists_eq_unrecognised (congrArg Items.ending his')
      constructor
      · rw [habreast.topState_eq, hkind]
        exact congrArg (_ :: ·) habreast.moves
      · rw [his, his']
        exact .of_failed (by simp [hlen]) rfl rfl
    | accepted he' | unexpected he' | unfinished he' => cases he.symm.trans (hentry.trans he')
  | accepted he _ his _ hb =>
    cases hend' with
    | accepted he' _ his' _ hb' =>
      refine ⟨habreast.moves, ?_⟩
      rw [his, his'] at hsame ⊢
      exact .of_builds hsame hb hb'
    | lexical he' | unexpected he' | unfinished he' => cases he.symm.trans (hentry.trans he')
  | unexpected he hk =>
    cases hend' with
    | unexpected he' hk' =>
      refine ⟨habreast.moves, .error shifted.length rfl ⟨_, hitem, ?_⟩ ⟨_, hitem', ?_⟩ ?_⟩
      · simp [Items.errorAt, Token.isEnd, hk]
      · simp [Items.errorAt, Token.isEnd, hk']
      · intro hvalues _
        exact congrArg Cause.unexpectedToken (hvalues.value_eq hlen hahead hahead' hk hk')
    | unfinished he' hk' => exact absurd (hkind.trans hk') hk
    | lexical he' | accepted he' => cases he.symm.trans (hentry.trans he')
  | unfinished he hk _ =>
    cases hend' with
    | unfinished he' hk' _ =>
      refine ⟨habreast.moves, .error shifted.length rfl ⟨_, hitem, ?_⟩ ⟨_, hitem', ?_⟩ ?_⟩
      · simp [Items.errorAt, Token.isEnd, hk]
      · simp [Items.errorAt, Token.isEnd, hk']
      · intro _ _
        rfl
    | unexpected he' hk' => exact absurd (hkind.symm.trans hk) hk'
    | lexical he' | accepted he' => cases he.symm.trans (hentry.trans he')

end Outcomes

/-- **Parsing depends on the kinds of the tokens only.**  On sources whose tokens are of the same
kinds and end the same way, two parsers make the same shifts and reductions, whatever they did
before.  Both succeed, with trees that differ in names and places at most, or both fail with an
error of the same sort at the same item; and with the same texts the trees, and the syntactic
errors, differ in places only. -/
theorem parse_of_sameKinds (p p' : Parser) {source source' : String}
    (hsame : (itemsOf source).SameKinds (itemsOf source')) :
    (p.parse source).2.moves = (p'.parse source').2.moves ∧
      (itemsOf source).AlikeOutcomes (itemsOf source') (p.parse source).1 (p'.parse source').1 := by
  rcases p.parse_ends source with ⟨e, his, herror, hlog⟩ | ⟨q, lookahead, hvisits, hends⟩
  · rcases p'.parse_ends source' with ⟨e', his', herror', hlog'⟩ | ⟨q', lookahead', hvisits', -⟩
    · obtain ⟨_, _, rfl⟩ := exists_eq_unrecognised (congrArg Items.ending his)
      obtain ⟨_, _, rfl⟩ := exists_eq_unrecognised (congrArg Items.ending his')
      rw [Parser.moves, Parser.moves, hlog, hlog', his, his', herror, herror']
      exact ⟨rfl, .of_failed rfl rfl rfl⟩
    · -- The other parse has a first token, so this one has one as well.
      obtain ⟨_, -, shifted, q, lookahead, -, hinv, -⟩ := hvisits'.accompanied hsame.symm p
      have hahead := hinv.ahead
      rw [his] at hahead
      cases hahead with
      | token _ _ his => simp at his
      | ended _ his => simp at his
  · obtain ⟨shifted, hinv, hacc⟩ := hvisits.accompanied hsame p'
    have hend := hends shifted hinv
    obtain ⟨shifted', q', lookahead', hinv', hlen, habreast, hend'⟩ := hacc.ends hsame hinv hend
    exact hend.alike hend' hsame hinv.ahead hinv'.ahead hlen habreast

/-- A comment and another name change the name and the places in the tree, and no move. -/
theorem parse_of_sameKinds_comment :
    (itemsOf "unit a;").SameKinds (itemsOf "unit//\nbc;") ∧
      (Parser.new.parse "unit a;").2.moves = (Parser.new.parse "unit//\nbc;").2.moves ∧
      ∃ n, (Parser.new.parse "unit//\nbc;").1 = .ok n ∧
        n.bare = .list [.unit [.identifier default]] := by
  have hsame : (itemsOf "unit a;").SameKinds (itemsOf "unit//\nbc;") :=
    ⟨by decide +kernel, by decide +kernel⟩
  obtain ⟨hmoves, halike⟩ := parse_of_sameKinds Parser.new Parser.new hsame
  refine ⟨hsame, hmoves, ?_⟩
  rw [Parser.parse_unit] at halike
  generalize (Parser.new.parse "unit//\nbc;").1 = outcome at halike ⊢
  cases halike with
  | ok hbare _ => exact ⟨_, rfl, hbare.symm⟩

end UnitLang

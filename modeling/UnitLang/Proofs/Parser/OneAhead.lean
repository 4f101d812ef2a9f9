/-
# One token ahead

The log of a parse keeps to a protocol: a token is read, and before the next is read it is
shifted.  `Event.Phase` says how far reading is ahead of shifting, by one token or by none, and
`Event.phase?` follows the events.  What the protocol means for the log as a whole, cut at any of
its shifts, is said by `Event.OneAhead`, and every log that can be followed is so
(`Event.oneAhead_of_phase?`).

The log of a parse can be followed to every head of the loop, and the token that is held there is
the lookahead (`Parser.Holding`).
-/
import UnitLang.Proofs.Parser.Stack
import Mathlib.Data.List.Induction

namespace UnitLang

/-! ## 1. The protocol -/

namespace Event

/-- How far reading is ahead of shifting. -/
inductive Phase where
  /-- All tokens are shifted, and a shift was the last that was told, if anything. -/
  | level
  /-- This token was read and is not shifted yet. -/
  | ahead (t : Token)
  /-- All tokens are shifted, and no more can be read. -/
  | past
deriving DecidableEq, Repr

namespace Phase

/-- The token that was read and is not shifted yet. -/
def held : Phase → List Token
  | ahead t => [t]
  | _ => []

/-- The phase behind something else than a token or a shift: with no token ahead, none comes. -/
def wait : Phase → Phase
  | ahead t => .ahead t
  | _ => .past

/-- The phase behind an event, if the event is in order. -/
def after? (phase : Phase) : Event → Option Phase
  | token t => if phase = level then some (ahead t) else none
  | shift _ _ kind =>
    match phase with
    | ahead t => if kind = t.kind then some level else none
    | _ => none
  | _ => some phase.wait

@[simp] theorem held_wait (phase : Phase) : phase.wait.held = phase.held := by
  cases phase <;> rfl

end Phase

/-- The phase behind some events, if all of them are in order. -/
def phase? (events : List Event) : Option Phase := events.foldlM Phase.after? .level

section Protocol

variable {es before after between : List Event} {e : Event} {phase phase' : Phase} {t : Token}
  {state next : Nat} {kind : Kind}

theorem phase?_append (es fs : List Event) :
    phase? (es ++ fs) = (phase? es).bind fun phase => fs.foldlM Phase.after? phase :=
  List.foldlM_append

/-- A phase goes on by a token, by a shift, or by something else. -/
theorem Phase.after?_cases (h : phase.after? e = some phase') :
    (∃ t, e = .token t ∧ phase = .level ∧ phase' = .ahead t) ∨
      (∃ state next t, e = .shift state next t.kind ∧ phase = .ahead t ∧ phase' = .level) ∨
      e.token? = none ∧ e.shifted? = none ∧ phase' = phase.wait := by
  cases e with
  | token t =>
    simp only [after?, Option.ite_none_right_eq_some, Option.some.injEq] at h
    exact .inl ⟨t, rfl, h.1, h.2.symm⟩
  | shift state next kind =>
    cases phase with
    | ahead t =>
      simp only [after?, Option.ite_none_right_eq_some, Option.some.injEq] at h
      obtain ⟨rfl, rfl⟩ := h
      exact .inr (.inl ⟨state, next, t, rfl, rfl, rfl⟩)
    | level => cases h
    | past => cases h
  | reduce | unitPath | usesImports | accepted | executed =>
    cases h
    exact .inr (.inr ⟨rfl, rfl, rfl⟩)

theorem Phase.after?_of_quiet (htoken : e.token? = none) (hshifted : e.shifted? = none) :
    phase.after? e = some phase.wait := by
  cases e with
  | token t => cases htoken
  | shift state next kind => cases hshifted
  | reduce | unitPath | usesImports | accepted | executed => rfl

/-- Events that tell of no token leave the token that is held. -/
theorem exists_phase?_append (h : phase? es = some phase) {fs : List Event}
    (hquiet : ∀ e ∈ fs, e.token? = none ∧ e.shifted? = none) :
    ∃ phase', phase? (es ++ fs) = some phase' ∧ phase'.held = phase.held := by
  induction fs generalizing es phase with
  | nil => exact ⟨phase, by rwa [List.append_nil], rfl⟩
  | cons e fs ih =>
    obtain ⟨⟨htoken, hshifted⟩, hrest⟩ := List.forall_mem_cons.mp hquiet
    have he : phase? (es ++ [e]) = some phase.wait := by
      simp [phase?_append, h, Phase.after?_of_quiet htoken hshifted]
    obtain ⟨phase', hphase', hheld⟩ := ih he hrest
    rw [List.append_assoc] at hphase'
    exact ⟨phase', hphase', hheld.trans phase.held_wait⟩

/-- The tokens that were shifted, by their kinds, are those that were read but the one that is
held. -/
theorem exists_tokens_of_phase? (h : phase? es = some phase) :
    ∃ ts, es.filterMap token? = ts ++ phase.held ∧ es.filterMap shifted? = ts.map (·.kind) := by
  induction es using List.reverseRecOn generalizing phase with
  | nil =>
    cases h
    exact ⟨[], rfl, rfl⟩
  | append_singleton es e ih =>
    rw [phase?_append] at h
    obtain ⟨old, hold, h⟩ := Option.bind_eq_some_iff.mp h
    obtain ⟨phase', h, hphase⟩ := Option.bind_eq_some_iff.mp h
    cases hphase
    obtain ⟨ts, htokens, hshifted⟩ := ih hold
    simp only [List.filterMap_append, htokens, hshifted]
    rcases Phase.after?_cases h with ⟨t, rfl, rfl, rfl⟩ | ⟨_, _, t, rfl, rfl, rfl⟩ | ⟨ht, hs, rfl⟩
    · exact ⟨ts, by simp [Phase.held, token?], by simp [shifted?]⟩
    · exact ⟨ts ++ [t], by simp [Phase.held, token?], by simp [shifted?]⟩
    · exact ⟨ts, by simp [ht], by simp [hs]⟩

/-! ## 2. What the protocol means -/

/-- Reading is one token ahead of shifting. -/
structure OneAhead (events : List Event) : Prop where
  /-- Each shift is told with the kind of the token that has the same number among the tokens, and
  behind this token. -/
  shift {before after : List Event} {state next : Nat} {kind : Kind} :
    events = before ++ .shift state next kind :: after →
    ∃ t, (before.filterMap token?)[(before.filterMap shifted?).length]? = some t ∧ t.kind = kind
  /-- Between two shifts with no other between them one token is told, directly behind the first
  of them. -/
  between {before between after : List Event} {state next state' next' : Nat} {kind kind' : Kind} :
    events = before ++ .shift state next kind :: (between ++ .shift state' next' kind' :: after) →
    (∀ e ∈ between, e.shifted? = none) →
    ∃ t rest, between = .token t :: rest ∧ ∀ e ∈ rest, e.token? = none

/-- With a token ahead, no other is read before it is shifted. -/
theorem Phase.forall_token?_of_ahead (hquiet : ∀ e ∈ es, e.shifted? = none)
    (h : es.foldlM after? (ahead t) = some phase) : ∀ e ∈ es, e.token? = none := by
  induction es with
  | nil => simp
  | cons e es ih =>
    obtain ⟨he, hothers⟩ := List.forall_mem_cons.mp hquiet
    obtain ⟨middle, hmiddle, h⟩ := Option.bind_eq_some_iff.mp h
    rcases after?_cases hmiddle with ⟨_, -, hlevel, -⟩ | ⟨_, _, _, rfl, -, -⟩ | ⟨ht, -, rfl⟩
    · cases hlevel
    · cases he
    · exact List.forall_mem_cons.mpr ⟨ht, ih hothers h⟩

/-- When no more tokens come, none does. -/
theorem Phase.eq_past_of_foldlM (hquiet : ∀ e ∈ es, e.shifted? = none)
    (h : es.foldlM after? past = some phase) : phase = past := by
  induction es with
  | nil =>
    cases h
    rfl
  | cons e es ih =>
    obtain ⟨he, hothers⟩ := List.forall_mem_cons.mp hquiet
    obtain ⟨middle, hmiddle, h⟩ := Option.bind_eq_some_iff.mp h
    rcases after?_cases hmiddle with ⟨_, -, hlevel, -⟩ | ⟨_, _, _, rfl, -, -⟩ | ⟨-, -, rfl⟩
    · cases hlevel
    · cases he
    · exact ih hothers h

/-- Where a shift is told, the token it shifts is held, and behind it none is. -/
theorem exists_phase?_of_shift
    (h : phase? (before ++ .shift state next kind :: after) = some phase) :
    ∃ t, t.kind = kind ∧ phase? before = some (.ahead t) ∧
      after.foldlM Phase.after? .level = some phase := by
  rw [phase?_append] at h
  obtain ⟨old, hold, h⟩ := Option.bind_eq_some_iff.mp h
  obtain ⟨phase', hshift, hafter⟩ := Option.bind_eq_some_iff.mp h
  rcases Phase.after?_cases hshift with ⟨_, he, -⟩ | ⟨_, _, t, he, rfl, rfl⟩ | ⟨-, hs, -⟩
  · cases he
  · cases he
    exact ⟨t, rfl, hold, hafter⟩
  · cases hs

/-- **A log that keeps to the protocol is one token ahead.** -/
theorem oneAhead_of_phase? (h : phase? es = some phase) : OneAhead es where
  shift heq := by
    rw [heq] at h
    obtain ⟨t, hkind, hbefore, -⟩ := exists_phase?_of_shift h
    obtain ⟨ts, htokens, hshifted⟩ := exists_tokens_of_phase? hbefore
    refine ⟨t, ?_, hkind⟩
    rw [htokens, hshifted, List.length_map]
    exact List.getElem?_concat_length
  between {before between after _ _ _ _ _ _} heq hquiet := by
    rw [heq] at h
    obtain ⟨-, -, -, h⟩ := exists_phase?_of_shift h
    rw [List.foldlM_append] at h
    obtain ⟨held, hbetween, h⟩ := Option.bind_eq_some_iff.mp h
    obtain ⟨phase', hshift, -⟩ := Option.bind_eq_some_iff.mp h
    -- The second shift needs a token ahead, and the first leaves none.
    obtain ⟨t', rfl⟩ : ∃ t, held = .ahead t := by
      rcases Phase.after?_cases hshift with ⟨_, he, -⟩ | ⟨_, _, t, -, rfl, -⟩ | ⟨-, hs, -⟩
      · cases he
      · exact ⟨t, rfl⟩
      · cases hs
    cases between with
    | nil => cases hbetween
    | cons e rest =>
      obtain ⟨he, hothers⟩ := List.forall_mem_cons.mp hquiet
      obtain ⟨middle, hmiddle, hrest⟩ := Option.bind_eq_some_iff.mp hbetween
      rcases Phase.after?_cases hmiddle with ⟨t, rfl, -, rfl⟩ | ⟨_, _, _, rfl, -, -⟩ | ⟨-, -, rfl⟩
      · exact ⟨t, rest, rfl, Phase.forall_token?_of_ahead hothers hrest⟩
      · cases he
      · cases Phase.eq_past_of_foldlM hothers hrest

end Protocol

end Event

/-! ## 3. The log of a parse -/

namespace Parser

section Heads

open Automaton (lookup?)

variable {p q : Parser} {source : String} {lookahead t : Token} {id next : Nat}
  {scanner : Scanner} {production : Production} {below : ParseStack} {node : Node}

/-- The log keeps to the protocol, and the token that is held is the lookahead, unless that is the
end of the input. -/
def Holding (q : Parser) (lookahead : Token) : Prop :=
  ∃ phase, Event.phase? q.log.reverse = some phase ∧
    phase.held = if lookahead.isEnd then [] else [lookahead]

theorem Holding.start (t : Token) (scanner : Scanner) :
    Holding ⟨scanner, .empty, Event.ofToken t⟩ t := by
  unfold Holding Event.ofToken
  cases t.isEnd with
  | true => exact ⟨.level, rfl, rfl⟩
  | false => exact ⟨.ahead t, rfl, rfl⟩

/-- The lookahead that is shifted is the token ahead. -/
theorem Holding.phase?_shift (h : q.Holding lookahead)
    (he : lookup? q.stack.topState (.terminal lookahead.kind) = some (.shift next)) :
    Event.phase? (.shift q.stack.topState next lookahead.kind :: q.log).reverse = some .level := by
  obtain ⟨phase, hphase, hheld⟩ := h
  have hend : lookahead.isEnd = false := decide_eq_false (kind_ne_endOfInput_of_lookup? he)
  rw [hend, if_neg Bool.false_ne_true] at hheld
  obtain rfl : phase = .ahead lookahead := by
    cases phase with
    | ahead t => exact congrArg _ (List.singleton_inj.mp hheld)
    | level => cases hheld
    | past => cases hheld
  rw [List.reverse_cons, Event.phase?_append, hphase]
  simp [Event.Phase.after?]

theorem Holding.shift (h : q.Holding lookahead)
    (he : lookup? q.stack.topState (.terminal lookahead.kind) = some (.shift next)) :
    (q.afterShift lookahead next scanner t).Holding t := by
  have hlevel := h.phase?_shift he
  unfold Holding afterShift Event.ofToken
  cases t.isEnd with
  | true => exact ⟨.level, hlevel, rfl⟩
  | false =>
    refine ⟨.ahead t, ?_, rfl⟩
    change Event.phase? (.token t :: (.shift q.stack.topState next lookahead.kind :: q.log)).reverse
      = _
    rw [List.reverse_cons, Event.phase?_append, hlevel]
    rfl

/-- A reduction leaves the token ahead. -/
theorem Holding.reduce (h : q.Holding lookahead) :
    (q.afterReduce id production below node next).Holding lookahead := by
  obtain ⟨phase, hphase, hheld⟩ := h
  have hquiet : ∀ e ∈ Event.ofNode production.action node ++
      [.reduce id below.topState next production.lhs], e.token? = none ∧ e.shifted? = none :=
    List.forall_mem_append.mpr
      ⟨Event.forall_ofNode (fun _ => ⟨rfl, rfl⟩) fun _ => ⟨rfl, rfl⟩,
        List.forall_mem_singleton.mpr ⟨rfl, rfl⟩⟩
  obtain ⟨phase', hphase', hheld'⟩ := Event.exists_phase?_append hphase hquiet
  refine ⟨phase', ?_, hheld'.trans hheld⟩
  rw [← hphase']
  simp [afterReduce]

end Heads

end Parser

end UnitLang

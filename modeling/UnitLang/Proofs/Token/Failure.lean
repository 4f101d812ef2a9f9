/-
# Where reading fails

Reading fails where no rule matches.  `StartsUnread` says which texts these are, without speaking of
rules: a character that begins nothing, a slash alone, an annotation that is not closed, or a
quotation that is not closed.  There are no others (`first?_eq_none_iff_startsUnread`).  The first
character tells which rule could match there (`leader`), and for the three rules that look further
the rest of the text decides.

A text that starts so is read no further, so reading comes to one such place at most, and fails
there if there is one (`Lexes.itemsOf_unread`).  As a text can be cut at every place that reading
comes to, the text before the failure is read without an error, and as the same tokens.
-/
import UnitLang.Proofs.Token.Longest
import UnitLang.Proofs.Token.Quotation

namespace UnitLang

namespace Rule

/-! ## 1. Texts at which no rule matches -/

/-- Nothing begins with this character: it is no white space, no ASCII letter or digit, no
underscore and no mark. -/
def BeginsNone (c : Char) : Prop :=
  Text.isBlank c = false ∧ isWordPart c = false ∧
    c ∉ ['.', ',', ';', '\\', '\x7b', '/', '"', '\'']

/-- Nothing can be read at the start of the text: there is a character that begins nothing, or a
slash without a second one, or a brace or a quote that is not closed. -/
inductive StartsUnread : List Char → Prop where
  | other {c : Char} {rest : List Char} : BeginsNone c → StartsUnread (c :: rest)
  | slash {rest : List Char} : rest.head? ≠ some '/' → StartsUnread ('/' :: rest)
  | brace {rest : List Char} : '\x7d' ∉ rest → StartsUnread ('\x7b' :: rest)
  | quote {q : Char} {rest : List Char} : q = '"' ∨ q = '\'' →
      (∀ body after, ¬ Closes q rest body after) → StartsUnread (q :: rest)

section Unread

variable {c : Char} {text rest : List Char}

theorem StartsUnread.ne_nil (h : StartsUnread text) : text ≠ [] := by
  cases h <;> exact List.cons_ne_nil _ _

theorem BeginsNone.leader_eq_none (h : BeginsNone c) : leader c = none := by
  obtain ⟨hblank, hpart, hmark⟩ := h
  rw [isWordPart_eq, Bool.or_eq_false_iff] at hpart
  have hmarks : marks.lookup c = none := by
    rw [List.lookup_eq_none_iff]
    intro e he
    have hall : ∀ e ∈ marks, e.1 ∈ ['.', ',', ';', '\\', '\x7b', '/', '"', '\''] := by decide
    by_contra hce
    obtain rfl : c = e.1 := by simpa using hce
    exact hmark (hall e he)
  rw [leader, hmarks]
  simp [hblank, hpart.1, hpart.2]

theorem StartsUnread.matched?_eq_none (h : StartsUnread text) (r : Rule) :
    r.matched? text = none := by
  cases hn : r.matched? text with
  | none => rfl
  | some n =>
    cases h with
    | other hc => cases hc.leader_eq_none.symm.trans (leader_of_matched? hn)
    | @slash rest hrest =>
      obtain rfl : r = lineComment := eq_of_leader rfl (by decide) hn
      have hslashes : ¬ ['/', '/'] <+: '/' :: rest := by
        rintro ⟨text, heq⟩
        cases heq
        exact hrest rfl
      cases hn.symm.trans (lineComment?_eq_none hslashes)
    | brace hrest =>
      obtain rfl : r = braces := eq_of_leader rfl (by decide) hn
      cases hn.symm.trans (braces?_open hrest)
    | quote hq hrest => cases hn.symm.trans (matched?_eq_none_of_not_closes hq hrest r)

theorem startsUnread_of_first? (h : first? (c :: rest) = none) : StartsUnread (c :: rest) := by
  have hnone := first?_eq_none_iff.mp h
  by_cases hquote : c = '"' ∨ c = '\''
  · refine .quote hquote fun body after hcloses => ?_
    cases h.symm.trans (first?_of_closes hquote hcloses)
  rcases eq_or_ne c '\x7b' with rfl | hbrace
  · refine .brace fun hmem => ?_
    obtain ⟨body, after, rfl, hbody⟩ := List.eq_append_cons_of_mem hmem
    cases (hnone braces).symm.trans (braces?_closed hbody)
  rcases eq_or_ne c '/' with rfl | hslash
  · refine .slash fun hhead => ?_
    obtain ⟨text, rfl⟩ := List.head?_eq_some_iff.mp hhead
    obtain ⟨n, hn, -⟩ := exists_lineComment List.not_mem_nil text
    cases (hnone lineComment).symm.trans hn
  -- The rules that are left match one character, or a run that would begin here.
  have hmark {d : Char} (hd : mark? d (c :: rest) = none) : c ≠ d := by simpa [mark?] using hd
  have hstart : isWordStart c = false := by simpa [matched?, word?] using hnone word
  refine .other ⟨run?_cons_eq_none_iff.mp (hnone blanks), ?_, ?_⟩
  · rw [isWordPart_eq, hstart, isDigit_eq_false_of_first? h]
    rfl
  · simp [hmark (hnone dot), hmark (hnone comma), hmark (hnone semicolon),
      hmark (hnone backslash), hbrace, hslash, not_or.mp hquote]

/-- **No rule matches just where nothing can be read.** -/
theorem first?_eq_none_iff_startsUnread :
    first? (c :: rest) = none ↔ StartsUnread (c :: rest) :=
  ⟨startsUnread_of_first?, fun h => first?_eq_none_iff.mpr h.matched?_eq_none⟩

end Unread

end Rule

open Rule (StartsUnread)

/-! ## 2. The place of a failure -/

/-- Reading the source comes to `p` with the tokens `ts`, and cannot go on with the text that begins
with `c` there; there is no such place before `p`. -/
structure FailsAt (source : String) (ts : List Token) (p : Position) (c : Char)
    (rest : List Char) : Prop where
  reached : Lexes .start source.toList ts p (c :: rest)
  unread : StartsUnread (c :: rest)
  first : ∀ ts' p' rest', Lexes .start source.toList ts' p' rest' → StartsUnread rest' →
    p.offset ≤ p'.offset

section Places

variable {source : String} {ts : List Token} {p : Position} {c : Char} {rest : List Char}
  {e : Error}

/-- At a place where nothing can be read the items end. -/
theorem Lexes.itemsOf_unread (h : Lexes .start source.toList ts p (c :: rest))
    (hunread : StartsUnread (c :: rest)) :
    itemsOf source = ⟨ts, .failed (.unrecognised p c)⟩ := by
  have hstuck := items_stuck (p := p) (Rule.first?_eq_none_iff_startsUnread.mpr hunread)
  rw [itemsOf, h.items, hstuck, List.append_nil]

/-- The items of a source end with an error at such a place, and at no other. -/
theorem failsAt_iff : FailsAt source ts p c rest ↔
    Lexes .start source.toList ts p (c :: rest) ∧ StartsUnread (c :: rest) := by
  constructor
  · intro h
    exact ⟨h.reached, h.unread⟩
  · rintro ⟨hreached, hunread⟩
    refine ⟨hreached, hunread, fun ts' p' rest' hreached' hunread' => ?_⟩
    obtain ⟨c', rest', rfl⟩ := List.exists_cons_of_ne_nil hunread'.ne_nil
    have heq := (hreached.itemsOf_unread hunread).symm.trans (hreached'.itemsOf_unread hunread')
    have hplace : p = p' :=
      congrArg Error.position (Ending.failed.inj (congrArg Items.ending heq))
    rw [hplace]

/-- Where a source is not read to its end, reading fails. -/
theorem exists_failsAt (h : (itemsOf source).ending = .failed e) :
    ∃ ts p c rest, FailsAt source ts p c rest ∧ e = .unrecognised p c := by
  obtain ⟨p, text, hreached, hend⟩ := exists_lexes_all .start source.toList
  rcases hend with ⟨hended, -⟩ | ⟨c, rest, hfailed, rfl, hnone⟩
  · cases h.symm.trans hended
  · have hunread := Rule.first?_eq_none_iff_startsUnread.mp hnone
    refine ⟨_, p, c, rest, failsAt_iff.mpr ⟨hreached, hunread⟩, ?_⟩
    cases h.symm.trans hfailed
    rfl

/-- **The source before a failure** is read to its end, as the tokens before the failure. -/
theorem FailsAt.tokenize_front (h : FailsAt source ts p c rest) :
    ∃ front : String, source = front ++ String.ofList (c :: rest) ∧
      front.utf8ByteSize = p.offset ∧ tokenize front = .ok (ts ++ [Token.endOfInput p]) := by
  obtain ⟨front, htext, rfl, hlexes⟩ := h.reached.cut_off
  obtain ⟨hsource, hsize⟩ := Position.cut_advance_start htext
  have hitems := hlexes.items
  rw [items_nil, List.append_nil] at hitems
  refine ⟨String.ofList front, hsource, hsize, tokenize_eq_ok_iff.mpr ⟨ts, _, ?_, rfl⟩⟩
  rw [itemsOf, String.toList_ofList, hitems]

end Places

/-- **Tokenizing fails at the first place where nothing can be read**, and only if there is one.
The error holds the one character that stands there.  The items are then the tokens before the place
and the error, and the source up to there is tokenized to the same tokens and the end of the
input. -/
theorem tokenize_error_iff_failsAt (source : String) :
    (∀ e, tokenize source = .error e ↔
      ∃ ts p c rest, FailsAt source ts p c rest ∧
        e = ⟨.unrecognisedToken (String.singleton c), p⟩) ∧
    ∀ ts p c rest, FailsAt source ts p c rest →
      (itemsOf source).toList =
        ts.map .ok ++ [.error ⟨.unrecognisedToken (String.singleton c), p⟩] ∧
      ∃ front : String, source = front ++ String.ofList (c :: rest) ∧
        front.utf8ByteSize = p.offset ∧ tokenize front = .ok (ts ++ [Token.endOfInput p]) := by
  constructor
  · intro e
    constructor
    · intro h
      exact exists_failsAt (tokenize_eq_error_iff.mp h)
    · rintro ⟨ts, p, c, rest, hfails, rfl⟩
      rw [tokenize_eq_error_iff, hfails.reached.itemsOf_unread hfails.unread]
      rfl
  · intro ts p c rest hfails
    refine ⟨?_, hfails.tokenize_front⟩
    rw [hfails.reached.itemsOf_unread hfails.unread]
    rfl

/-- The quote in the comment is not read.  The one on the second line has an escaped quote behind it
and no other. -/
theorem tokenize_error_iff_failsAt_escaped :
    ∃ rest,
      FailsAt "a//\"\n 'b\\';" [⟨.identifier, "a", ⟨⟨0, 1, 0⟩, ⟨1, 1, 1⟩⟩⟩] ⟨6, 2, 1⟩ '\'' rest ∧
      ∃ front : String, "a//\"\n 'b\\';" = front ++ String.ofList ('\'' :: rest) ∧
        front.utf8ByteSize = 6 ∧
        tokenize front =
          .ok [⟨.identifier, "a", ⟨⟨0, 1, 0⟩, ⟨1, 1, 1⟩⟩⟩, Token.endOfInput ⟨6, 2, 1⟩] := by
  obtain ⟨hiff, hfails⟩ := tokenize_error_iff_failsAt "a//\"\n 'b\\';"
  have herror : tokenize "a//\"\n 'b\\';" = .error (.unrecognised ⟨6, 2, 1⟩ '\'') := by
    decide +kernel
  have hlist : (itemsOf "a//\"\n 'b\\';").toList =
      [⟨.identifier, "a", ⟨⟨0, 1, 0⟩, ⟨1, 1, 1⟩⟩⟩].map .ok ++
        [.error (.unrecognised ⟨6, 2, 1⟩ '\'')] := by decide +kernel
  obtain ⟨ts, p, c, rest, hat, he⟩ := (hiff _).mp herror
  obtain rfl : ⟨6, 2, 1⟩ = p := congrArg Error.position he
  obtain rfl : '\'' = c := by
    have hcause := Cause.unrecognisedToken.inj (congrArg Error.cause he)
    simpa using congrArg String.toList hcause
  obtain ⟨hitems, hfront⟩ := hfails _ _ _ _ hat
  obtain ⟨hts, -⟩ := List.append_inj' (hlist.symm.trans hitems) rfl
  obtain rfl := List.map_injective_iff.mpr (fun _ _ => Except.ok.inj) hts
  exact ⟨rest, hat, hfront⟩

end UnitLang

/-
# Printing tokens

Where the rule of a token stopped in the source, it stops as well before a blank and at the end of
the text: a blank goes on with no token.  So the text of a token that is read alone is that token
again, whatever stood around it (`readsAlone_of_mem`), and it is the same token before a blank
(`ReadsAlone.first?_blank`).

From there it is an induction that the texts of any number of tokens, with a blank between each and
the next, are read as these tokens (`items_printed`).  The blanks that a quotation holds are within
its match and part nothing.
-/
import UnitLang.Proofs.Token.Splitting

namespace UnitLang

open Rule (first?)

/-! ## 1. The text of a token alone -/

/-- All of the text is one match, which becomes a token of this kind. -/
def ReadsAlone (value : String) (k : Kind) : Prop :=
  ∃ r, first? value.toList = some (r, value.toList.length) ∧ r.kind? value.toList = some k

section Alone

variable {source source' value : String} {p : Position} {text : List Char} {k k' : Kind}
  {t t' : Token}

/-- **The text of a token can be read alone**, as its kind. -/
theorem readsAlone_of_mem (h : t ∈ (items p text).tokens) : ReadsAlone t.value t.kind := by
  obtain ⟨front, value, after, r, -, hfirst, hk, hvalue, -⟩ := exists_match_of_mem h
  have halone : first? (value ++ []) = some (r, value.length) :=
    Rule.first?_of_append (by simpa using hfirst)
  rw [List.append_nil] at halone
  rw [hvalue, ReadsAlone, String.toList_ofList]
  exact ⟨r, halone, hk⟩

/-- A text is read alone as one kind only. -/
theorem ReadsAlone.kind_eq (h : ReadsAlone value k) (h' : ReadsAlone value k') : k = k' := by
  obtain ⟨r, hfirst, hk⟩ := h
  obtain ⟨r', hfirst', hk'⟩ := h'
  cases hfirst.symm.trans hfirst'
  exact Option.some.inj (hk.symm.trans hk')

/-- The text is read as one token, and then it is at its end. -/
theorem ReadsAlone.items (h : ReadsAlone value k) (p : Position) :
    UnitLang.items p value.toList =
      ⟨[⟨k, value, ⟨p, p.advance value.toList⟩⟩], .ended (p.advance value.toList)⟩ := by
  obtain ⟨r, hfirst, hk⟩ := h
  have hfirst' : first? (value.toList ++ []) = some (r, value.toList.length) := by
    rwa [List.append_nil]
  have hitems := items_append_token (p := p) hfirst' hk
  rwa [List.append_nil, items_nil, String.ofList_toList] at hitems

/-- No token goes on with a blank. -/
theorem ReadsAlone.first?_blank (h : ReadsAlone value k) (v : List Char) :
    ∃ r, first? (value.toList ++ ' ' :: v) = some (r, value.toList.length) ∧
      r.kind? value.toList = some k := by
  obtain ⟨r, hfirst, hk⟩ := h
  have hlayout : Rule.BeginsLayout ' ' := by decide
  refine ⟨r, ?_, hk⟩
  refine Rule.first?_append_layout (b := []) (by rwa [List.append_nil]) hlayout ?_
  rcases (Rule.stops_nil r value.toList).append_layout hlayout v with hstop | ⟨-, hsilent⟩
  · exact hstop
  · rcases hsilent with rfl | ⟨rfl, -⟩ <;> cases hk

/-- Before a blank, the text is read as the same token, and the items behind the blank follow. -/
theorem ReadsAlone.items_blank (h : ReadsAlone value k) (p : Position) (v : List Char) :
    ∃ q, UnitLang.items p (value.toList ++ ' ' :: v) =
      ⟨⟨k, value, ⟨p, p.advance value.toList⟩⟩ :: (UnitLang.items q v).tokens,
        (UnitLang.items q v).ending⟩ := by
  obtain ⟨r, hfirst, hk⟩ := h.first?_blank v
  have hblank : ∀ c ∈ [' '], Text.isBlank c = true := List.forall_mem_singleton.mpr (by decide)
  have hskip := items_blanks (p := p.advance value.toList) hblank v
  rw [List.singleton_append] at hskip
  refine ⟨(p.advance value.toList).advance [' '], ?_⟩
  rw [items_append_token hfirst hk, hskip, String.ofList_toList]

/-- The end of the input has a text that no token has. -/
theorem not_readsAlone_endText : ¬ ReadsAlone Token.endText k := by
  rintro ⟨r, hfirst, -⟩
  have hnone : first? Token.endText.toList = none := by decide
  cases hnone.symm.trans hfirst

/-- An item that is no error can be read alone, or it is the end of the input. -/
theorem readsAlone_or_of_mem_toList (h : .ok t ∈ (itemsOf source).toList) :
    ReadsAlone t.value t.kind ∨ ∃ q, t = Token.endOfInput q := by
  rcases List.mem_append.mp h with hmem | hmem
  · obtain ⟨u, hu, heq⟩ := List.mem_map.mp hmem
    cases heq
    exact .inl (readsAlone_of_mem hu)
  · split at hmem
    · exact .inr ⟨_, Except.ok.inj (List.mem_singleton.mp hmem)⟩
    · cases List.mem_singleton.mp hmem

/-- **Items with the same text are of the same kind**, in all sources. -/
theorem kind_eq_of_mem_toList (h : .ok t ∈ (itemsOf source).toList)
    (h' : .ok t' ∈ (itemsOf source').toList) (hvalue : t.value = t'.value) : t.kind = t'.kind := by
  rcases readsAlone_or_of_mem_toList h with halone | ⟨q, rfl⟩
  · rw [hvalue] at halone
    rcases readsAlone_or_of_mem_toList h' with halone' | ⟨q', rfl⟩
    · exact halone.kind_eq halone'
    · exact absurd halone not_readsAlone_endText
  · rcases readsAlone_or_of_mem_toList h' with halone' | ⟨q', rfl⟩
    · rw [← hvalue] at halone'
      exact absurd halone' not_readsAlone_endText
    · rfl

end Alone

/-! ## 2. Many tokens -/

/-- The texts of the tokens, with a blank between each and the next. -/
def printed (ts : List Token) : String := " ".intercalate (ts.map (·.value))

/-- What a token is when its place does not matter: its kind and its text. -/
def Token.reading (t : Token) : Kind × String := (t.kind, t.value)

theorem printed_singleton (t : Token) : printed [t] = t.value := by
  rw [printed, List.map_singleton, String.intercalate_singleton]

theorem toList_printed_cons_cons (t u : Token) (ts : List Token) :
    (printed (t :: u :: ts)).toList = t.value.toList ++ ' ' :: (printed (u :: ts)).toList := by
  rw [printed, List.map_cons, List.map_cons, String.intercalate_cons_cons]
  simp [printed]

/-- **Tokens that can be read alone are read again when they are printed.** -/
theorem items_printed {ts : List Token} (hts : ∀ t ∈ ts, ReadsAlone t.value t.kind)
    (p : Position) :
    ∃ us q, items p (printed ts).toList = ⟨us, .ended q⟩ ∧
      us.map Token.reading = ts.map Token.reading := by
  induction ts generalizing p with
  | nil => exact ⟨[], p, items_nil p, rfl⟩
  | cons t ts ih =>
    obtain ⟨ht, hts⟩ := List.forall_mem_cons.mp hts
    cases ts with
    | nil =>
      rw [printed_singleton]
      exact ⟨_, _, ht.items p, rfl⟩
    | cons u ts =>
      obtain ⟨q, hitems⟩ := ht.items_blank p (printed (u :: ts)).toList
      obtain ⟨us, stop, hlater, hreading⟩ := ih hts q
      rw [hlater] at hitems
      refine ⟨_, stop, (congrArg _ (toList_printed_cons_cons t u ts)).trans hitems, ?_⟩
      rw [List.map_cons, hreading]
      rfl

/-- **Printing tokens and reading them again is the identity.**  The texts of the tokens of a
source, with blanks between them, are read as tokens of the same kinds and texts; each text alone is
read as its token.  In any two sources, whether or not they can be read to the end, items with the
same text are of the same kind. -/
theorem tokenize_printed :
    (∀ source tokens, tokenize source = .ok tokens →
      ∃ ts stop, tokens = ts ++ [Token.endOfInput stop] ∧
        (∃ us stop', tokenize (printed ts) = .ok (us ++ [Token.endOfInput stop']) ∧
          us.map Token.reading = ts.map Token.reading) ∧
        ∀ t ∈ ts, ∃ stop', tokenize t.value =
          .ok [⟨t.kind, t.value, ⟨.start, stop'⟩⟩, Token.endOfInput stop']) ∧
    ∀ source source' : String, ∀ t t' : Token, .ok t ∈ (itemsOf source).toList →
      .ok t' ∈ (itemsOf source').toList → t.value = t'.value → t.kind = t'.kind := by
  constructor
  · intro source tokens htok
    obtain ⟨ts, stop, his, rfl⟩ := tokenize_eq_ok_iff.mp htok
    have halone : ∀ t ∈ ts, ReadsAlone t.value t.kind := by
      intro t ht
      have hmem : t ∈ (itemsOf source).tokens := by rwa [his]
      exact readsAlone_of_mem hmem
    refine ⟨ts, stop, rfl, ?_, fun t ht => ?_⟩
    · obtain ⟨us, stop', hitems, hreading⟩ := items_printed halone .start
      exact ⟨us, stop', tokenize_eq_ok_iff.mpr ⟨us, stop', hitems, rfl⟩, hreading⟩
    · exact ⟨_, tokenize_eq_ok_iff.mpr ⟨_, _, (halone t ht).items .start, rfl⟩⟩
  · intro source source' t t' h h' hvalue
    exact kind_eq_of_mem_toList h h' hvalue

/-- Behind `1.5` a dot and a digit make no fraction, and the quotation holds blanks, slashes and an
escaped quote.  Wherever the word `as` is a token it is the keyword. -/
theorem tokenize_printed_close :
    (∃ us stop, tokenize "1.5 . as ' // \\' ' . 5" = .ok (us ++ [Token.endOfInput stop]) ∧
      us.map Token.reading = [(.float, "1.5"), (.dot, "."), (.asKw, "as"),
        (.string, "' // \\' '"), (.dot, "."), (.int, "5")]) ∧
    (∃ stop, tokenize "' // \\' '" =
      .ok [⟨.string, "' // \\' '", ⟨.start, stop⟩⟩, Token.endOfInput stop]) ∧
    ∀ source : String, ∀ t : Token, .ok t ∈ (itemsOf source).toList → t.value = "as" →
      t.kind = .asKw := by
  obtain ⟨hprinted, hkind⟩ := tokenize_printed
  have htok : tokenize "1.5.as' // \\' '.5" =
      .ok ([⟨.float, "1.5", ⟨⟨0, 1, 0⟩, ⟨3, 1, 3⟩⟩⟩, ⟨.dot, ".", ⟨⟨3, 1, 3⟩, ⟨4, 1, 4⟩⟩⟩,
        ⟨.asKw, "as", ⟨⟨4, 1, 4⟩, ⟨6, 1, 6⟩⟩⟩,
        ⟨.string, "' // \\' '", ⟨⟨6, 1, 6⟩, ⟨15, 1, 15⟩⟩⟩,
        ⟨.dot, ".", ⟨⟨15, 1, 15⟩, ⟨16, 1, 16⟩⟩⟩, ⟨.int, "5", ⟨⟨16, 1, 16⟩, ⟨17, 1, 17⟩⟩⟩] ++
          [Token.endOfInput ⟨17, 1, 17⟩]) := by decide +kernel
  obtain ⟨ts, stop, heq, htogether, halone⟩ := hprinted _ _ htok
  obtain ⟨rfl, -⟩ := List.append_inj' heq rfl
  refine ⟨htogether, halone ⟨.string, _, ⟨⟨6, 1, 6⟩, ⟨15, 1, 15⟩⟩⟩ (by simp), ?_⟩
  intro source t ht hvalue
  have hmem : .ok ⟨.asKw, "as", ⟨⟨0, 1, 0⟩, ⟨2, 1, 2⟩⟩⟩ ∈ (itemsOf "as").toList := by
    decide +kernel
  exact hkind _ _ _ _ ht hmem hvalue

end UnitLang

/-
# The order of the ways

A pattern lists its ways in order of preference.  For the rules this is the order of their
lengths (`descending_pattern`): a way that is preferred is longer.  What a rule repeats matches in
one way only (`Single`), so a repetition comes before those with fewer turns.  What stands behind a
repetition, where anything does, never matches where the repeated pattern can (`Apart`), so only
the repetition with all its turns goes on (`Single.ways_many_seq`).
-/
import UnitLang.Token.Pattern
import Mathlib.Tactic.ByContra

namespace UnitLang.Pattern

/-! ## 1. Patterns whose ways descend -/

/-- The pattern matches in one way at most. -/
def Single (x : Pattern) : Prop := ∀ text, (x.ways text).length ≤ 1

/-- The ways of the pattern come from the longest to the shortest. -/
def Descending (x : Pattern) : Prop := ∀ text, (x.ways text).Pairwise (· > ·)

/-- The patterns never match at the same place. -/
def Apart (x y : Pattern) : Prop := ∀ text, x.ways text = [] ∨ y.ways text = []

section Order

variable {x y z : Pattern} {text : List Char}

/-- Where the repeated pattern does not match, it is matched no times. -/
theorem ways_many_of_nil (h : x.ways text = []) : (many x).ways text = [0] := by
  rw [ways_many, h]
  rfl

/-- There is no way, or there is one. -/
theorem Single.eq_nil_or (h : x.Single) (text : List Char) :
    x.ways text = [] ∨ ∃ n, x.ways text = [n] := by
  have hlen := h text
  match hways : x.ways text with
  | [] => exact .inl rfl
  | [n] => exact .inr ⟨n, rfl⟩
  | n :: m :: ns => simp [hways] at hlen

theorem Apart.eq_nil {n : Nat} (h : Apart x y) (hx : x.ways text = [n]) : y.ways text = [] := by
  rcases h text with hnil | hnil
  · rw [hx] at hnil
    cases hnil
  · exact hnil

/-- Ways that descend do so behind something. -/
theorem pairwise_map_add {ns : List Nat} (h : ns.Pairwise (· > ·)) (n : Nat) :
    (ns.map (n + ·)).Pairwise (· > ·) := by
  rw [List.pairwise_map]
  exact h.imp fun hlt => Nat.add_lt_add_left hlt n

theorem Single.descending (h : x.Single) : x.Descending := by
  intro text
  rcases h.eq_nil_or text with hways | ⟨n, hways⟩
  · rw [hways]
    exact .nil
  · rw [hways]
    exact List.pairwise_singleton _ _

theorem single_one (p : Char → Bool) : (one p).Single := by
  intro text
  cases text with
  | nil => simp [ways]
  | cons c text =>
    simp only [ways]
    split <;> simp

theorem single_mark (c : Char) : (mark c).Single := single_one _

theorem single_atEnd : atEnd.Single := by
  intro text
  cases text <;> simp [ways]

theorem single_alt (hx : x.Single) (hy : y.Single) (hapart : Apart x y) : (alt x y).Single := by
  intro text
  rcases hapart text with hnil | hnil
  · simpa [ways_alt, hnil] using hy text
  · simpa [ways_alt, hnil] using hx text

theorem descending_alt (hx : x.Descending) (hy : y.Descending) (hapart : Apart x y) :
    (alt x y).Descending := by
  intro text
  rcases hapart text with hnil | hnil
  · simpa [ways_alt, hnil] using hy text
  · simpa [ways_alt, hnil] using hx text

/-- Behind a pattern that matches in one way, the ways are those of what follows. -/
theorem Single.ways_seq (hx : x.Single) (y : Pattern) (text : List Char) :
    (seq x y).ways text = [] ∨ ∃ n, (seq x y).ways text = (y.ways (text.drop n)).map (n + ·) := by
  rcases hx.eq_nil_or text with hways | ⟨n, hways⟩
  · exact .inl (by rw [Pattern.ways_seq, hways, List.flatMap_nil])
  · exact .inr ⟨n, by rw [Pattern.ways_seq, hways, List.flatMap_singleton]⟩

theorem single_seq (hx : x.Single) (hy : y.Single) : (seq x y).Single := by
  intro text
  rcases hx.ways_seq y text with hways | ⟨n, hways⟩
  · simp [hways]
  · simpa [hways] using hy (text.drop n)

theorem descending_seq (hx : x.Single) (hy : y.Descending) : (seq x y).Descending := by
  intro text
  rcases hx.ways_seq y text with hways | ⟨n, hways⟩
  · rw [hways]
    exact .nil
  · rw [hways]
    exact pairwise_map_add (hy _) n

/-- A repetition prefers more turns to fewer. -/
theorem descending_many (hx : x.Single) : (many x).Descending := by
  intro text
  induction text using (measure List.length).wf.induction with
  | _ text ih =>
    rcases hx.eq_nil_or text with hways | ⟨n, hways⟩
    · rw [ways_many_of_nil hways]
      exact List.pairwise_singleton _ _
    · rw [ways_many, hways, List.flatMap_singleton]
      split
      · rename_i hn
        refine List.pairwise_append.mpr
          ⟨pairwise_map_add (ih _ (length_drop_lt hn)) n, List.pairwise_singleton _ _, ?_⟩
        intro m hm k hk
        obtain ⟨m, -, rfl⟩ := List.mem_map.mp hm
        cases List.mem_singleton.mp hk
        omega
      · exact List.pairwise_singleton _ _

/-- **A repetition that what follows cannot interrupt** is matched in one way only: all its turns
are taken. -/
theorem Single.ways_many_seq (hx : x.Single) (hapart : Apart x y) (text : List Char) :
    ∃ n, (seq (many x) y).ways text = (y.ways (text.drop n)).map (n + ·) := by
  induction text using (measure List.length).wf.induction with
  | _ text ih =>
    rcases hx.eq_nil_or text with hways | ⟨n, hways⟩
    · exact ⟨0, by rw [Pattern.ways_seq, ways_many_of_nil hways, List.flatMap_singleton]⟩
    · -- To stop here is no way, as `y` does not match; so `x` takes its turn.
      have hy := hapart.eq_nil hways
      by_cases hn : 0 < n ∧ n ≤ text.length
      · obtain ⟨m, hm⟩ := ih _ (length_drop_lt hn)
        have hturn : (seq (many x) y).ways text =
            ((seq (many x) y).ways (text.drop n)).map (n + ·) := by
          rw [Pattern.ways_seq, Pattern.ways_seq, ways_many, hways, List.flatMap_singleton,
            if_pos hn]
          simp [hy, List.flatMap_map, List.map_flatMap, Function.comp_def, Nat.add_assoc]
        refine ⟨n + m, ?_⟩
        rw [hturn, hm]
        simp [Function.comp_def, Nat.add_assoc]
      · refine ⟨0, ?_⟩
        rw [Pattern.ways_seq, ways_many, hways, List.flatMap_singleton, if_neg hn]
        simp

theorem single_many_seq (hx : x.Single) (hapart : Apart x y) (hy : y.Single) :
    (seq (many x) y).Single := by
  intro text
  obtain ⟨n, hn⟩ := hx.ways_many_seq hapart text
  simpa [hn] using hy (text.drop n)

theorem descending_many_seq (hx : x.Single) (hapart : Apart x y) (hy : y.Descending) :
    (seq (many x) y).Descending := by
  intro text
  obtain ⟨n, hn⟩ := hx.ways_many_seq hapart text
  rw [hn]
  exact pairwise_map_add (hy _) n

/-- Three patterns, one behind the other. -/
theorem ways_seq_assoc (x y z : Pattern) (text : List Char) :
    (seq (seq x y) z).ways text = (seq x (seq y z)).ways text := by
  simp [Pattern.ways_seq, List.flatMap_assoc, List.flatMap_map, List.map_flatMap,
    Function.comp_def, Nat.add_assoc]

end Order

/-! ## 2. Patterns that never match at the same place -/

/-- Where the pattern matches, the text begins with a character that passes the test. -/
def Begins (x : Pattern) (p : Char → Bool) : Prop :=
  ∀ text, x.ways text ≠ [] → ∃ c rest, text = c :: rest ∧ p c = true

section Apart

variable {x y z : Pattern} {p q : Char → Bool}

theorem begins_one (p : Char → Bool) : (one p).Begins p := by
  intro text h
  cases text with
  | nil => exact absurd rfl h
  | cons c rest =>
    refine ⟨c, rest, rfl, ?_⟩
    by_contra hc
    exact h (by rw [ways, if_neg hc])

theorem Begins.seq (h : x.Begins p) (y : Pattern) : (Pattern.seq x y).Begins p := by
  intro text hseq
  refine h text fun hnil => hseq ?_
  rw [ways_seq, hnil, List.flatMap_nil]

theorem Begins.alt (hx : x.Begins p) (hy : y.Begins p) : (Pattern.alt x y).Begins p := by
  intro text halt
  by_cases hnil : x.ways text = []
  · refine hy text fun hnil' => halt ?_
    rw [ways_alt, hnil, hnil', List.append_nil]
  · exact hx text hnil

theorem Begins.imp (h : x.Begins p) (himp : ∀ c, p c = true → q c = true) : x.Begins q := by
  intro text hways
  obtain ⟨c, rest, htext, hc⟩ := h text hways
  exact ⟨c, rest, htext, himp c hc⟩

/-- Patterns that begin with characters of different classes. -/
theorem Begins.apart (hx : x.Begins p) (hy : y.Begins q) (h : ∀ c, p c = true → q c = false) :
    Apart x y := by
  intro text
  by_contra hnot
  obtain ⟨hx', hy'⟩ := not_or.mp hnot
  obtain ⟨c, rest, rfl, hc⟩ := hx text hx'
  obtain ⟨d, rest', heq, hd⟩ := hy _ hy'
  cases heq
  rw [h c hc] at hd
  cases hd

theorem Begins.apart_atEnd (hx : x.Begins p) : Apart x atEnd := by
  intro text
  by_contra hnot
  obtain ⟨hx', hend⟩ := not_or.mp hnot
  obtain ⟨c, rest, rfl, -⟩ := hx text hx'
  exact hend rfl

theorem Apart.alt (hy : Apart x y) (hz : Apart x z) : Apart x (Pattern.alt y z) := by
  intro text
  rcases hy text with hnil | hy
  · exact .inl hnil
  · rcases hz text with hnil | hz
    · exact .inl hnil
    · exact .inr (by rw [ways_alt, hy, hz, List.append_nil])

end Apart

section Rules

variable {p : Char → Bool} {q : Char}

theorem begins_mark (c : Char) : (mark c).Begins (· = c) := begins_one _

theorem descending_run (p : Char → Bool) : (run (one p)).Descending :=
  descending_seq (single_one p) (descending_many (single_one p))

theorem apart_piece_parts (q : Char) :
    Apart (one fun c => c ≠ q ∧ c ≠ '\\' ∧ c ≠ '\n') (seq (mark '\\') (one (· ≠ '\n'))) := by
  refine (begins_one _).apart ((begins_mark '\\').seq _) ?_
  intro c hc
  simp only [decide_eq_true_eq] at hc
  exact decide_eq_false hc.2.1

theorem single_piece (q : Char) : (piece q).Single :=
  single_alt (single_one _) (single_seq (single_mark _) (single_one _)) (apart_piece_parts q)

/-- No piece of a quotation begins with the quote. -/
theorem apart_piece_mark (hq : q ≠ '\\') : Apart (piece q) (mark q) := by
  have hpiece : (piece q).Begins (· ≠ q) := by
    refine Begins.alt ((begins_one _).imp ?_) (((begins_mark '\\').seq _).imp ?_)
    · intro c hc
      simp only [decide_eq_true_eq] at hc ⊢
      exact hc.1
    · intro c hc
      simp only [decide_eq_true_eq] at hc ⊢
      exact hc ▸ hq.symm
  refine hpiece.apart (begins_mark q) ?_
  intro c hc
  simpa using hc

theorem single_quotation (hq : q ≠ '\\') : (quotation q).Single :=
  single_seq (single_mark q)
    (single_many_seq (single_piece q) (apart_piece_mark hq) (single_mark q))

/-- Every character but this one, and then this one. -/
theorem apart_other (c : Char) : Apart (one (· ≠ c)) (mark c) :=
  (begins_one _).apart (begins_mark c) fun d hd => by simpa using hd

/-- **The preferred way of a rule is a longer one**: its ways come from the longest to the
shortest. -/
theorem descending_pattern (r : Rule) : r.pattern.Descending := by
  cases r with
  | dot | comma | semicolon | backslash => exact (single_mark _).descending
  | blanks | integer => exact descending_run _
  | word => exact descending_seq (single_one _) (descending_many (single_one _))
  | braces =>
    exact (single_seq (single_mark _)
      (single_many_seq (single_one _) (apart_other _) (single_mark _))).descending
  | lineComment =>
    have hend : (alt (mark '\n') atEnd).Single :=
      single_alt (single_mark _) single_atEnd (begins_mark '\n').apart_atEnd
    have hrest : Apart (one (· ≠ '\n')) (alt (mark '\n') atEnd) :=
      (apart_other '\n').alt (begins_one _).apart_atEnd
    exact (single_seq (single_mark _)
      (single_seq (single_mark _) (single_many_seq (single_one _) hrest hend))).descending
  | float =>
    have hfraction : Apart (one Char.isDigit) (seq (mark '.') (run (one Char.isDigit))) := by
      refine (begins_one _).apart ((begins_mark '.').seq _) fun c hc => ?_
      refine decide_eq_false ?_
      rintro rfl
      cases hc
    intro text
    rw [Rule.pattern, run, ways_seq_assoc]
    exact descending_seq (single_one _) (descending_many_seq (single_one _) hfraction
      (descending_seq (single_mark _) (descending_run _))) text
  | quoted =>
    refine descending_alt (single_quotation (by decide)).descending
      (single_quotation (by decide)).descending ?_
    refine ((begins_mark '"').seq _).apart ((begins_mark '\'').seq _) fun c hc => ?_
    refine decide_eq_false ?_
    rintro rfl
    exact absurd hc (by decide)

end Rules

end UnitLang.Pattern

/-
# Blank characters

The layout between tokens may hold every character with the Unicode property White_Space, not
just the four that a keyboard has.  The property has 25 members and has not changed since it
was last trimmed; they are written out here as ranges.

`isBlank_iff`: these are the members.  `isBlank_of_isWhitespace`: the set extends the ASCII blanks
of `Char.isWhitespace`.
-/

namespace UnitLang.Text

/-- The ranges of White_Space, ends included, in ascending order. -/
def blankRanges : List (Nat × Nat) :=
  [(0x0009, 0x000d), (0x0020, 0x0020), (0x0085, 0x0085), (0x00a0, 0x00a0), (0x1680, 0x1680),
   (0x2000, 0x200a), (0x2028, 0x2029), (0x202f, 0x202f), (0x205f, 0x205f), (0x3000, 0x3000)]

/-- Whether `c` is white space. -/
def isBlank (c : Char) : Bool :=
  blankRanges.any fun (lo, hi) => lo ≤ c.toNat && c.toNat ≤ hi

/-- The members, one by one. -/
theorem isBlank_iff {c : Char} :
    isBlank c = true ↔ c.toNat ∈
      [0x0009, 0x000a, 0x000b, 0x000c, 0x000d, 0x0020, 0x0085, 0x00a0, 0x1680, 0x2000, 0x2001,
       0x2002, 0x2003, 0x2004, 0x2005, 0x2006, 0x2007, 0x2008, 0x2009, 0x200a, 0x2028, 0x2029,
       0x202f, 0x205f, 0x3000] := by
  simp only [isBlank, blankRanges, List.any_cons, List.any_nil, Bool.or_eq_true, Bool.and_eq_true,
    decide_eq_true_eq, Bool.false_eq_true, or_false, List.mem_cons, List.not_mem_nil]
  omega

theorem isBlank_of_isWhitespace {c : Char} (h : c.isWhitespace = true) : isBlank c = true := by
  simp only [Char.isWhitespace, Bool.or_eq_true, decide_eq_true_eq] at h
  rcases h with ((rfl | rfl) | rfl) | rfl <;> decide

end UnitLang.Text

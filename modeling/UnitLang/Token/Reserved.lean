/-
# Reserved words

Sixteen words are not names: the fourteen keywords and the two truth values.  A word is compared
as a whole and in lower case only, so `units` and `Unit` are names.
-/
import UnitLang.Token.Kind

namespace UnitLang.Reserved

/-- The reserved words, each with the kind of its token. -/
def words : List (String × Kind) :=
  [("unit", .unitKw), ("uses", .usesKw), ("as", .asKw), ("const", .constKw), ("var", .varKw),
   ("begin", .beginKw), ("if", .ifKw), ("then", .thenKw), ("else", .elseKw), ("case", .caseKw),
   ("is", .isKw), ("end", .endKw), ("constructor", .constructorKw), ("function", .functionKw),
   ("true", .bool), ("false", .bool)]

/-- The kind of a reserved word. -/
def kind? (word : String) : Option Kind := words.lookup word

/-- These are the sixteen. -/
theorem isSome_kind?_iff {word : String} :
    (kind? word).isSome = true ↔ word ∈
      ["unit", "uses", "as", "const", "var", "begin", "if", "then", "else", "case", "is", "end",
       "constructor", "function", "true", "false"] := by
  rw [kind?, List.lookup_isSome_iff]
  simp [words]

/-- The kind of a keyword has its name, with a capital letter. -/
theorem name_of_kind? {word : String} {k : Kind} (h : kind? word = some k) :
    k = .bool ∧ word ∈ ["true", "false"] ∨ k.name = word.capitalize := by
  have hwords : ∀ e ∈ words,
      e.2 = .bool ∧ e.1 ∈ ["true", "false"] ∨ e.2.name = e.1.capitalize := by decide +kernel
  obtain ⟨before, after, hsplit, -⟩ := List.lookup_eq_some_iff.mp h
  exact hwords (word, k) (by rw [hsplit]; simp)

/-- The kind of a word: its own if it is reserved, and otherwise a name. -/
def kindOf (word : String) : Kind := (kind? word).getD .identifier

end UnitLang.Reserved

/-
# Reading the next token

`scan` reads one token from a text, together with the layout before it.  It asks for the first
rule that matches, passes over the match if the rule is silent, and begins again behind it.  It
stops at a token, at the end of the text, or at a character where no rule matches.

Every match is non-empty, so each round leaves less text, and a token leaves less text than
there was (`length_lt_of_scan_token`).  `items` therefore comes to an end: the tokens of a
text, and how they end.
-/
import UnitLang.Error
import UnitLang.Token.Basic
import UnitLang.Token.Rule

namespace UnitLang

/-! ## 1. One token -/

/-- What comes next in a text: a token and the text behind it, the end, or a character where no
rule matches and the text from there on. -/
inductive Scan where
  | token (t : Token) (rest : List Char)
  | ended (p : Position)
  | stuck (p : Position) (c : Char) (rest : List Char)

/-- The token that begins `text` at `p` and is `n` characters long. -/
def Token.cut (kind : Kind) (p : Position) (text : List Char) (n : Nat) : Token :=
  ⟨kind, String.ofList (text.take n), ⟨p, p.advance (text.take n)⟩⟩

/-- Reads the next token of `text`, which begins at `p`. -/
def scan (p : Position) (text : List Char) : Scan :=
  match _h : Rule.first? text with
  | some (rule, n) =>
    match rule.kind? (text.take n) with
    | some kind => .token (Token.cut kind p text n) (text.drop n)
    | none => scan (p.advance (text.take n)) (text.drop n)
  | none =>
    match text with
    | [] => .ended p
    | c :: rest => .stuck p c (c :: rest)
termination_by text.length
decreasing_by
  have := Rule.matched?_bounds (Rule.matched?_of_first? _h)
  simp only [List.length_drop]
  omega

theorem length_lt_of_scan_token {p : Position} {text rest : List Char} {t : Token}
    (h : scan p text = .token t rest) : rest.length < text.length := by
  induction text using (measure List.length).wf.induction generalizing p with
  | _ text ih =>
    rw [scan] at h
    split at h
    · rename_i rule n hfirst
      have hb := Rule.matched?_bounds (Rule.matched?_of_first? hfirst)
      have hlt : (text.drop n).length < text.length := by
        simp only [List.length_drop]; omega
      split at h
      · cases h; exact hlt
      · exact Nat.lt_trans (ih _ hlt h) hlt
    · split at h <;> simp at h

/-! ## 2. All tokens -/

/-- The error at a character where no rule matches. -/
def Error.unrecognised (p : Position) (c : Char) : Error :=
  ⟨.unrecognisedToken (String.singleton c), p⟩

/-- How the tokens of a text end: at the end of the text, or at an error. -/
inductive Ending where
  | ended (p : Position)
  | failed (e : Error)
deriving DecidableEq, Repr

/-- The tokens of a text, the end of the input not among them, and how they end. -/
structure Items where
  tokens : List Token
  ending : Ending
deriving DecidableEq, Repr

/-- The tokens of `text`, which begins at `p`. -/
def items (p : Position) (text : List Char) : Items :=
  match _h : scan p text with
  | .token t rest =>
    let later := items t.span.stop rest
    ⟨t :: later.tokens, later.ending⟩
  | .ended p => ⟨[], .ended p⟩
  | .stuck p c _ => ⟨[], .failed (.unrecognised p c)⟩
termination_by text.length
decreasing_by exact length_lt_of_scan_token _h

namespace Items

/-- The items one by one: each token, and then the end of the input or the error. -/
def toList (is : Items) : List (Except Error Token) :=
  is.tokens.map .ok ++
    match is.ending with
    | .ended p => [.ok (Token.endOfInput p)]
    | .failed e => [.error e]

/-- All tokens and the end of the input, unless the text holds an error. -/
def complete (is : Items) : Except Error (List Token) :=
  match is.ending with
  | .ended p => .ok (is.tokens ++ [Token.endOfInput p])
  | .failed e => .error e

end Items

/-- The tokens of a source text, and how they end. -/
def itemsOf (source : String) : Items := items .start source.toList

/-- The tokens of a source text, the end of the input last, or its lexical error. -/
def tokenize (source : String) : Except Error (List Token) := (itemsOf source).complete

end UnitLang

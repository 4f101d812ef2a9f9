/-
# Kinds of tokens

The unit language has twenty-four kinds: the end of the input, names, four kinds of literals,
four marks and fourteen keywords.  `Kind.all` lists them in their official order, the one in
which kinds are sorted.  `nodup_all` and `mem_all` say that the list holds each kind once.
-/

namespace UnitLang

/-- The kind of a token. -/
inductive Kind where
  | endOfInput
  | identifier
  | bool
  | int
  | float
  | string
  | dot
  | comma
  | semicolon
  | backslash
  | unitKw
  | usesKw
  | asKw
  | constKw
  | varKw
  | beginKw
  | ifKw
  | thenKw
  | elseKw
  | caseKw
  | isKw
  | endKw
  | constructorKw
  | functionKw
deriving DecidableEq, Repr, Inhabited

namespace Kind

/-- Every kind, in the official order. -/
def all : List Kind :=
  [endOfInput, identifier, bool, int, float, string, dot, comma, semicolon, backslash,
   unitKw, usesKw, asKw, constKw, varKw, beginKw, ifKw, thenKw, elseKw, caseKw, isKw, endKw,
   constructorKw, functionKw]

theorem mem_all (k : Kind) : k ∈ all := by cases k <;> decide

theorem nodup_all : all.Nodup := by decide

/-- The name under which a kind is listed. -/
def name : Kind → String
  | endOfInput => "EOF"
  | identifier => "Identifier"
  | bool => "Bool"
  | int => "Int"
  | float => "Float"
  | string => "String"
  | dot => "Dot"
  | comma => "Comma"
  | semicolon => "Semicolon"
  | backslash => "Backslash"
  | unitKw => "Unit"
  | usesKw => "Uses"
  | asKw => "As"
  | constKw => "Const"
  | varKw => "Var"
  | beginKw => "Begin"
  | ifKw => "If"
  | thenKw => "Then"
  | elseKw => "Else"
  | caseKw => "Case"
  | isKw => "Is"
  | endKw => "End"
  | constructorKw => "Constructor"
  | functionKw => "Function"

/-- The kind listed under a name. -/
def ofName? (text : String) : Option Kind := all.find? (·.name = text)

theorem ofName?_name (k : Kind) : ofName? k.name = some k := by cases k <;> decide

/-- The place of a kind in the official order. -/
def rank (k : Kind) : Nat := all.idxOf k

/-- Kinds in the official order, each as often as it was given. -/
def sort (kinds : List Kind) : List Kind := kinds.mergeSort fun a b => a.rank ≤ b.rank

theorem sort_perm (kinds : List Kind) : (sort kinds).Perm kinds := List.mergeSort_perm _ _

/-- Whether a listing shows the text of a token of this kind: names and literals differ in it,
while all tokens of another kind are alike. -/
def showsValue : Kind → Bool
  | identifier | bool | int | float | string => true
  | _ => false

end Kind

end UnitLang

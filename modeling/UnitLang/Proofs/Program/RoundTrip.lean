/-
# Printing and parsing

The canonical text of a well-formed program is parsed to its tree, up to the places of its
identifiers.  Two things make it so.  The text is read as the tokens that are written in it
(`LexesTo`): a word ends before a mark or a blank, a mark is read whatever follows, and layout is
passed over.  And these tokens spell the program (`SpellsProgram`), or one that differs from it in
places only: an import whose name is not written is known under the identifier it has by default,
which has the same name.

Both are found together, part by part, from the names up to the whole program; what is read is
followed from the end of the text to its beginning, since where a word ends depends on what comes
behind it.
-/
import UnitLang.Proofs.Program.Origin

namespace UnitLang

open Grammar

/-! ## 1. Up to spans -/

/-- The identifier without its place. -/
def Identifier.unspanned (id : Identifier) : Identifier := ⟨id.name, default⟩

/-- The tree without its places. -/
def Node.unspanned (n : Node) : Node := n.relabel Identifier.unspanned

/-- The token without its place. -/
def Token.unspanned (t : Token) : Token := t.relabel Identifier.unspanned

/-- The token that spells an identifier. -/
def Identifier.token (id : Identifier) : Token := ⟨.identifier, id.name, id.span⟩

/-! ## 2. Reading what is written -/

/-- From every place on, the text is read to its end as these tokens, up to spans. -/
def LexesTo (text : List Char) (ts : List Token) : Prop :=
  ∀ p, ∃ us, items p text = ⟨us, .ended (p.advance text)⟩ ∧
    us.map Token.unspanned = ts.map Token.unspanned

/-- A word ends where this text follows. -/
def EndsWord (rest : List Char) : Prop := ∀ c ∈ rest.head?, isWordPart c = false

/-- Where a word may end behind it, the text is read as these tokens, and then what follows is
read. -/
def WrittenAs (text : List Char) (ts : List Token) : Prop :=
  ∀ rest us, EndsWord rest → LexesTo rest us → LexesTo (text ++ rest) (ts ++ us)

section Reading

variable {text a w : List Char} {ts : List Token} {t : Token} {r : Rule} {k : Kind} {c : Char}
  {id : Identifier}

theorem lexesTo_nil : LexesTo [] [] := fun p => ⟨[], items_nil p, rfl⟩

theorem endsWord_cons (hc : isWordPart c = false) (rest : List Char) : EndsWord (c :: rest) := by
  intro d hd
  cases hd
  exact hc

/-- Layout is passed over. -/
theorem LexesTo.layout (h : LexesTo text ts) (hw : IsLayout w) : LexesTo (w ++ text) ts := by
  intro p
  obtain ⟨us, hitems, heq⟩ := h (p.advance w)
  refine ⟨us, ?_, heq⟩
  rw [items_layout hw, hitems, Position.advance_append]

/-- A lexeme is read as its token, where its rule stops. -/
theorem LexesTo.token (h : LexesTo text ts) (hform : r.Lexeme a) (hstop : r.Stops a text)
    (hr : r ≠ .integer) (hk : r.kind? a = some t.kind) (hvalue : t.value = String.ofList a) :
    LexesTo (a ++ text) (t :: ts) := by
  intro p
  obtain ⟨us, hitems, heq⟩ := h (p.advance a)
  have hfirst := Rule.first?_of_matched? (Rule.matched?_append_iff.mpr ⟨hform, hstop⟩)
    fun h => absurd h hr
  refine ⟨⟨t.kind, t.value, ⟨p, p.advance a⟩⟩ :: us, ?_, ?_⟩
  · rw [items_append_token hfirst hk, hitems, Position.advance_append, hvalue]
  · rw [List.map_cons, List.map_cons, heq]
    rfl

/-- A name is read as an identifier, where a word may end behind it. -/
theorem LexesTo.name (h : LexesTo text ts) (hid : IsName id.name) (hstop : EndsWord text) :
    LexesTo (id.name.toList ++ text) (id.token :: ts) := by
  obtain ⟨⟨c, rest, hname, hc, hrest⟩, hreserved⟩ := hid
  refine h.token (r := .word) ⟨c, rest, hname, hc, List.all_eq_true.mp hrest⟩ hstop (by decide)
    ?_ String.ofList_toList.symm
  rw [Rule.kind?, String.ofList_toList, Reserved.kindOf, hreserved]
  rfl

/-- A blank is layout. -/
theorem isLayout_blank (hc : Text.isBlank c = true) : IsLayout [c] := by
  have hspan : IsSilentSpan [c] := .blanks (List.cons_ne_nil _ _) (List.forall_mem_singleton.mpr hc)
  exact .span hspan .nil

/-- A keyword and a blank are read as the keyword. -/
theorem LexesTo.keyword (h : LexesTo text ts) (hform : Rule.word.Lexeme a)
    (hk : Rule.word.kind? a = some k) :
    LexesTo (a ++ ' ' :: text) (⟨k, String.ofList a, default⟩ :: ts) :=
  (h.layout (isLayout_blank (c := ' ') (by decide))).token (t := ⟨k, String.ofList a, default⟩)
    hform (endsWord_cons (by decide) _) (by decide) hk rfl

end Reading

/-! ## 3. Lists that begin with their first item -/

section Lists

variable {ts us : List Token} {ids : List Identifier} {u : Using} {is : List Using} {c : Clause}
  {p : Program} {t d s : Token}

/-- A name may also stand before a path, and then a dot between them. -/
theorem SpellsPath.cons (ht : t.kind = .identifier) (hd : d.kind = .dot) (h : SpellsPath ts ids) :
    SpellsPath (t :: d :: ts) (t.identifier :: ids) := by
  induction h with
  | name ht' => exact (SpellsPath.name ht).dot hd ht'
  | dot _ hd' ht' ih => exact ih.dot hd' ht'

/-- An import may also stand before imports. -/
theorem SpellsUsings.cons (husing : SpellsUsing us u) (hd : d.kind = .comma)
    (h : SpellsUsings ts is) : SpellsUsings (us ++ d :: ts) (u :: is) := by
  induction h with
  | one husing' => exact (SpellsUsings.one husing).comma hd husing'
  | comma _ hd' husing' ih =>
    have hcomma := ih.comma hd' husing'
    rwa [List.append_assoc, List.cons_append] at hcomma

/-- A clause may also stand before a program. -/
theorem SpellsProgram.cons (hclause : SpellsClause us c) (hs : s.kind = .semicolon)
    (h : SpellsProgram ts p) : SpellsProgram (us ++ s :: ts) (c :: p) := by
  induction h with
  | one hclause' hs' =>
    have hnext := (SpellsProgram.one hclause hs).next hclause' hs'
    rwa [List.append_assoc, List.singleton_append] at hnext
  | next _ hclause' hs' ih =>
    have hnext := ih.next hclause' hs'
    rwa [List.append_assoc, List.cons_append] at hnext

end Lists

/-! ## 4. Parts that are written -/

/-- A path is written with its own names. -/
theorem exists_spellsPath {ids : List Identifier} (hne : ids ≠ [])
    (hnames : ∀ id ∈ ids, IsName id.name) :
    ∃ ts, SpellsPath ts ids ∧ WrittenAs (pathText ids).toList ts := by
  induction ids with
  | nil => exact absurd rfl hne
  | cons id ids ih =>
    obtain ⟨hid, hids⟩ := List.forall_mem_cons.mp hnames
    cases ids with
    | nil =>
      refine ⟨[id.token], .name (t := id.token) rfl, ?_⟩
      intro rest us hend h
      rw [pathText, List.map_singleton, String.intercalate_singleton]
      exact h.name hid hend
    | cons id' ids =>
      obtain ⟨ts, hpath, hwritten⟩ := ih (List.cons_ne_nil _ _) hids
      refine ⟨id.token :: ⟨.dot, ".", default⟩ :: ts, hpath.cons (t := id.token) rfl rfl, ?_⟩
      intro rest us hend h
      have hdot : LexesTo ('.' :: ((pathText (id' :: ids)).toList ++ rest))
          (⟨.dot, ".", default⟩ :: (ts ++ us)) :=
        (hwritten rest us hend h).token (r := .dot) (a := ['.']) rfl (fun _ _ => rfl) (by decide)
          rfl rfl
      have hname := hdot.name hid (endsWord_cons (by decide) _)
      rw [pathText, List.map_cons, List.map_cons, String.intercalate_cons_cons]
      simpa [pathText] using hname

/-- An import without its new name, as it is written. -/
def Using.partsText (u : Using) : List Char :=
  (pathText u.path).toList ++ (u.member.map fun m => '\\' :: m.name.toList).getD []

/-- The text of an import goes on behind its parts if it is renamed. -/
theorem Using.toList_text (u : Using) :
    u.text.toList = u.partsText ++
      if u.defaultName?.map (·.name) = some u.knownAs.name then []
      else " as ".toList ++ u.knownAs.name.toList := by
  unfold text partsText
  by_cases hname : u.defaultName?.map (·.name) = some u.knownAs.name
  · rw [if_pos hname, if_pos hname]
    cases u.member with
    | none => simp
    | some m => simp
  · rw [if_neg hname, if_neg hname]
    cases u.member with
    | none => simp
    | some m => simp

/-- The parts of an import are written as an import with its default name. -/
theorem exists_spellsUsing_default {u : Using} (hu : u.WellFormed) :
    ∃ ts last, u.defaultName? = some last ∧ SpellsUsing ts ⟨u.path, u.member, last⟩ ∧
      WrittenAs u.partsText ts := by
  obtain ⟨hne, hnames, hmember, -⟩ := hu
  obtain ⟨ts, hpath, hwritten⟩ := exists_spellsPath hne hnames
  obtain ⟨path, member, knownAs⟩ := u
  cases member with
  | none =>
    have hlast : path.getLast? = some (path.getLast hne) := List.getLast?_eq_some_getLast hne
    refine ⟨ts, path.getLast hne, hlast, .path hpath hlast, ?_⟩
    simpa [Using.partsText] using hwritten
  | some m =>
    refine ⟨ts ++ [⟨.backslash, "\\", default⟩, m.token], m, rfl,
      .member (t := m.token) hpath rfl rfl, ?_⟩
    intro rest us hend h
    have hname := h.name (hmember m rfl) hend
    have hmark : LexesTo ('\\' :: (m.name.toList ++ rest))
        (⟨.backslash, "\\", default⟩ :: m.token :: us) :=
      hname.token (r := .backslash) (a := ['\\']) rfl (fun _ _ => rfl) (by decide) rfl rfl
    have hwhole := hwritten _ _ (endsWord_cons (by decide) _) hmark
    simpa [Using.partsText] using hwhole

/-- An import is written as one with the same names.  It may differ in one place: a name that is
not written is that of another identifier. -/
theorem exists_spellsUsing {u : Using} (hu : u.WellFormed) :
    ∃ ts u', SpellsUsing ts u' ∧ u'.toNode.unspanned = u.toNode.unspanned ∧
      WrittenAs u.text.toList ts := by
  obtain ⟨ts, last, hdefault, husing, hwritten⟩ := exists_spellsUsing_default hu
  rw [Using.toList_text, hdefault]
  by_cases hname : last.name = u.knownAs.name
  · refine ⟨ts, _, husing, ?_, ?_⟩
    · have hlast : last.unspanned = u.knownAs.unspanned := by
        rw [Identifier.unspanned, Identifier.unspanned, hname]
      simp [Node.unspanned, Using.toNode, hlast]
    · simpa [hname] using hwritten
  · refine ⟨ts ++ [⟨.asKw, "as", default⟩, u.knownAs.token], u,
      husing.rename (t := u.knownAs.token) rfl rfl, rfl, ?_⟩
    intro rest us hend h
    have hword : Rule.word.Lexeme "as".toList := ⟨'a', ['s'], rfl, rfl, List.all_eq_true.mp rfl⟩
    have hkeyword := (h.name hu.2.2.2 hend).keyword hword (k := .asKw) (by decide)
    have hblank := hkeyword.layout (isLayout_blank (c := ' ') (by decide))
    have hwhole := hwritten _ _ (endsWord_cons (by decide) _) hblank
    simpa [hname] using hwhole

/-- Imports are written one behind the other. -/
theorem exists_spellsUsings {is : List Using} (hne : is ≠ []) (his : ∀ u ∈ is, u.WellFormed) :
    ∃ ts is', SpellsUsings ts is' ∧
      is'.map (·.toNode.unspanned) = is.map (·.toNode.unspanned) ∧
      WrittenAs (", ".intercalate (is.map Using.text)).toList ts := by
  induction is with
  | nil => exact absurd rfl hne
  | cons u is ih =>
    obtain ⟨hu, his⟩ := List.forall_mem_cons.mp his
    obtain ⟨us, u', husing, hsame, hwritten⟩ := exists_spellsUsing hu
    cases is with
    | nil =>
      refine ⟨us, [u'], .one husing, by simp [hsame], ?_⟩
      rwa [List.map_singleton, String.intercalate_singleton]
    | cons v is =>
      obtain ⟨ts, is', husings, hsames, hlater⟩ := ih (List.cons_ne_nil _ _) his
      refine ⟨us ++ ⟨.comma, ",", default⟩ :: ts, u' :: is', husings.cons husing rfl, ?_, ?_⟩
      · rw [List.map_cons, hsame, hsames]
        rfl
      · intro rest vs hend h
        have hblank := (hlater rest vs hend h).layout (isLayout_blank (c := ' ') (by decide))
        have hcomma := hblank.token (r := .comma) (a := [',']) (t := ⟨.comma, ",", default⟩) rfl
          (fun _ _ => rfl) (by decide) rfl rfl
        have hwhole := hwritten _ _ (endsWord_cons (by decide) _) hcomma
        rw [List.map_cons, List.map_cons, String.intercalate_cons_cons]
        simpa using hwhole

/-- A clause is written with its semicolon, whatever follows. -/
theorem exists_spellsClause {c : Clause} (hc : c.WellFormed) :
    ∃ ts c', SpellsClause ts c' ∧ c'.toNode.unspanned = c.toNode.unspanned ∧
      ∀ rest us, LexesTo rest us →
        LexesTo (c.text.toList ++ rest) (ts ++ ⟨.semicolon, ";", default⟩ :: us) := by
  have hsemicolon {rest : List Char} {us : List Token} (h : LexesTo rest us) :
      LexesTo (';' :: rest) (⟨.semicolon, ";", default⟩ :: us) :=
    h.token (r := .semicolon) (a := [';']) rfl (fun _ _ => rfl) (by decide) rfl rfl
  cases c with
  | unit path =>
    obtain ⟨ts, hpath, hwritten⟩ := exists_spellsPath hc.1 hc.2
    refine ⟨⟨.unitKw, "unit", default⟩ :: ts, .unit path, .unit rfl hpath, rfl, ?_⟩
    intro rest us h
    have hword : Rule.word.Lexeme "unit".toList :=
      ⟨'u', ['n', 'i', 't'], rfl, rfl, List.all_eq_true.mp rfl⟩
    have hparts := hwritten _ _ (endsWord_cons (by decide) _) (hsemicolon h)
    have hkeyword := hparts.keyword hword (k := .unitKw) (by decide)
    simpa [Clause.text] using hkeyword
  | uses imports =>
    obtain ⟨ts, is', husings, hsame, hwritten⟩ := exists_spellsUsings hc.1 hc.2
    refine ⟨⟨.usesKw, "uses", default⟩ :: ts, .uses is', .uses rfl husings, ?_, ?_⟩
    · simpa [Clause.toNode, Node.unspanned, Function.comp_def] using hsame
    · intro rest us h
      have hword : Rule.word.Lexeme "uses".toList :=
        ⟨'u', ['s', 'e', 's'], rfl, rfl, List.all_eq_true.mp rfl⟩
      have hparts := hwritten _ _ (endsWord_cons (by decide) _) (hsemicolon h)
      have hkeyword := hparts.keyword hword (k := .usesKw) (by decide)
      simpa [Clause.text] using hkeyword

/-- A program is written clause by clause, with any layout between. -/
theorem exists_spellsProgram {p : Program} {w : String} (hp : Program.WellFormed p)
    (hw : IsLayout w.toList) :
    ∃ ts p', SpellsProgram ts p' ∧
      (Program.toNode p').unspanned = (Program.toNode p).unspanned ∧
      LexesTo (String.join (p.map fun c => c.text ++ w)).toList ts := by
  obtain ⟨hne, hclauses⟩ := hp
  induction p with
  | nil => exact absurd rfl hne
  | cons c p ih =>
    obtain ⟨hc, hp⟩ := List.forall_mem_cons.mp hclauses
    obtain ⟨us, c', hclause, hsame, hwritten⟩ := exists_spellsClause hc
    cases p with
    | nil =>
      refine ⟨us ++ [⟨.semicolon, ";", default⟩], [c'], .one hclause rfl, ?_, ?_⟩
      · simpa [Program.toNode, Node.unspanned] using hsame
      · have hlayout := hwritten _ _ (lexesTo_nil.layout hw)
        simpa [String.join_cons] using hlayout
    | cons d p =>
      obtain ⟨ts, p', hprogram, hsames, hlater⟩ := ih (List.cons_ne_nil _ _) hp
      refine ⟨us ++ ⟨.semicolon, ";", default⟩ :: ts, c' :: p', hprogram.cons hclause rfl, ?_, ?_⟩
      · simp only [Program.toNode, Node.unspanned, Node.relabel, Node.relabelAll_eq_map,
          List.map_cons, Node.list.injEq] at hsame hsames ⊢
        rw [hsame, hsames]
      · have hwhole := hwritten _ _ (hlater.layout hw)
        rw [List.map_cons, String.join_cons]
        simpa using hwhole

/-! ## 5. Parsing what is printed -/

section Parsing

variable {p : Parser} {source : String} {ts : List Token} {n : Node}

/-- A source that is read as the tokens of a tree, up to spans, is parsed to that tree, up to
spans. -/
theorem LexesTo.exists_parse (h : LexesTo source.toList ts)
    (hbuilds : Builds [.nonterminal .program] ts [.node n]) :
    ∃ m, (p.parse source).1 = .ok m ∧ m.unspanned = n.unspanned := by
  obtain ⟨us, hitems, hsame⟩ := h .start
  have hkinds : us.map (·.kind) = ts.map (·.kind) := by
    have hmap := congrArg (List.map Token.kind) hsame
    rwa [List.map_map, List.map_map] at hmap
  have hsentence : IsSentence (us.map (·.kind)) := by
    rw [hkinds]
    exact derivesAll_singleton_iff.mp hbuilds.derivesAll
  obtain ⟨m, hm⟩ := exists_answer_of_isSentence (Position.start.advance source.toList) hsentence
  have hparse : (p.parse source).1 = .ok m := by
    rw [Parser.parse_eq_answer, itemsOf, hitems]
    exact hm
  obtain ⟨us', stop, hitems', hbuilds'⟩ := Parser.parse_eq_ok_iff.mp hparse
  rw [itemsOf, hitems] at hitems'
  cases hitems'
  have hplain := hbuilds.relabel Identifier.unspanned
  have hplain' := hbuilds'.relabel Identifier.unspanned
  change Builds _ (us.map Token.unspanned) _ at hplain'
  rw [hsame] at hplain'
  exact ⟨m, hparse, hplain'.program_unique hplain⟩

/-- **Printing and parsing go round.**  The clauses of a well-formed program, printed with any
layout behind each, are parsed to its tree up to spans.  So every tree of a parse is that of a
program whose canonical text is parsed to the same tree up to spans. -/
theorem parse_text (p : Parser) :
    (∀ (program : Program) (w : String), Program.WellFormed program → IsLayout w.toList →
      ∃ n, (p.parse (String.join (program.map fun c => c.text ++ w))).1 = .ok n ∧
        n.unspanned = (Program.toNode program).unspanned) ∧
    ∀ source n, (p.parse source).1 = .ok n →
      ∃ program m, Program.WellFormed program ∧ n = Program.toNode program ∧
        (p.parse (Program.text program)).1 = .ok m ∧ m.unspanned = n.unspanned := by
  have hprinted (program : Program) (w : String) (hp : Program.WellFormed program)
      (hw : IsLayout w.toList) :
      ∃ n, (p.parse (String.join (program.map fun c => c.text ++ w))).1 = .ok n ∧
        n.unspanned = (Program.toNode program).unspanned := by
    obtain ⟨ts, program', hspells, hsame, hlexes⟩ := exists_spellsProgram hp hw
    rw [← hsame]
    exact hlexes.exists_parse hspells.builds
  refine ⟨hprinted, ?_⟩
  intro source n h
  obtain ⟨ts, stop, his, hbuilds⟩ := Parser.parse_eq_ok_iff.mp h
  obtain ⟨program, hspells, rfl⟩ := builds_program_iff.mp hbuilds
  have hp := hspells.wellFormed fun id hid => ((names_of_ended his).1 id hid).1
  obtain ⟨m, hm, hsame⟩ := hprinted program "\n" hp (isLayout_blank (by decide))
  exact ⟨program, m, hp, rfl, hm, hsame⟩

/-- A renamed member, and an import under a name that is understood but stands elsewhere. -/
theorem parse_text_renamed_member :
    Program.WellFormed [.uses [⟨[⟨"a", default⟩], some ⟨"b", default⟩, ⟨"c", default⟩⟩,
        ⟨[⟨"a", default⟩], none, ⟨"a", ⟨⟨1, 1, 1⟩, ⟨2, 1, 2⟩⟩⟩⟩]] ∧
      Program.text [.uses [⟨[⟨"a", default⟩], some ⟨"b", default⟩, ⟨"c", default⟩⟩,
        ⟨[⟨"a", default⟩], none, ⟨"a", ⟨⟨1, 1, 1⟩, ⟨2, 1, 2⟩⟩⟩⟩]] = "uses a\\b as c, a;\n" ∧
      ∃ n, (Parser.new.parse "uses a\\b as c, a;\n").1 = .ok n ∧
        n.unspanned = .list [.uses [
          .imported [.identifier ⟨"a", default⟩] (some ⟨"b", default⟩) ⟨"c", default⟩,
          .imported [.identifier ⟨"a", default⟩] none ⟨"a", default⟩]] := by
  have ha : IsName "a" := ⟨⟨'a', [], rfl, by decide, by decide⟩, by decide⟩
  have hb : IsName "b" := ⟨⟨'b', [], rfl, by decide, by decide⟩, by decide⟩
  have hc : IsName "c" := ⟨⟨'c', [], rfl, by decide, by decide⟩, by decide⟩
  have hmember : Using.WellFormed ⟨[⟨"a", default⟩], some ⟨"b", default⟩, ⟨"c", default⟩⟩ := by
    simp [Using.WellFormed, ha, hb, hc]
  have hpath :
      Using.WellFormed ⟨[⟨"a", default⟩], none, ⟨"a", ⟨⟨1, 1, 1⟩, ⟨2, 1, 2⟩⟩⟩⟩ := by
    simp [Using.WellFormed, ha]
  have hwellFormed : Program.WellFormed [.uses [
      ⟨[⟨"a", default⟩], some ⟨"b", default⟩, ⟨"c", default⟩⟩,
      ⟨[⟨"a", default⟩], none, ⟨"a", ⟨⟨1, 1, 1⟩, ⟨2, 1, 2⟩⟩⟩⟩]] := by
    simp [Program.WellFormed, Clause.WellFormed, hmember, hpath]
  have htext : Program.text [.uses [⟨[⟨"a", default⟩], some ⟨"b", default⟩, ⟨"c", default⟩⟩,
      ⟨[⟨"a", default⟩], none, ⟨"a", ⟨⟨1, 1, 1⟩, ⟨2, 1, 2⟩⟩⟩⟩]] = "uses a\\b as c, a;\n" := by
    decide +kernel
  obtain ⟨n, hn, hsame⟩ :=
    (parse_text Parser.new).1 _ "\n" hwellFormed (isLayout_blank (by decide))
  refine ⟨hwellFormed, htext, n, ?_, hsame⟩
  rw [← htext]
  exact hn

end Parsing

end UnitLang

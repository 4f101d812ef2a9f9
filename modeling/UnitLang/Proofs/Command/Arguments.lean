/-
# Which arguments name a file

The program processes a file when it is called with the name of the file and with each flag once or
not at all, in any order (`Command.Calls`).  A name that would be taken for an option has to stand
behind a double dash, and any name may.  `Request.ofArgs_eq_process_iff` says that every such call
is accepted, and that no other is.

The words before the double dash are read one by one, and what has been read is told by the words
alone (`Given.words`): a flag or a name that is read comes to them (`Given.Takes.words_perm`), and
one that is still missing can be read (`Given.exists_takes`), as long as none is there twice.  So
the words of a call may come in any order (`Given.foldlM_read_iff`).
-/
import UnitLang.Command
import Mathlib.Data.List.Basic

namespace UnitLang.Command

/-! ## 1. Calls -/

/-- The word is not taken for an option: it is not empty, and a dash is not its beginning unless it
is all of it. -/
def IsPlain (word : String) : Prop :=
  word ≠ "" ∧ (word.toList.head? = some '-' → word = "-")

instance (word : String) : Decidable (IsPlain word) := inferInstanceAs (Decidable (_ ∧ _))

theorem IsPlain.toList_ne {word : String} (h : IsPlain word) (c : Char) (rest : List Char) :
    word.toList ≠ '-' :: c :: rest := by
  intro htext
  have hdash := h.2 (by rw [htext]; rfl)
  rw [hdash] at htext
  cases htext

/-- An option is not plain. -/
theorem IsPlain.ne {word option : String} (h : IsPlain word)
    (hoption : ¬ IsPlain option) : word ≠ option := by
  rintro rfl
  exact hoption h

/-- The flags that ask for this to be shown. -/
def flags (showTokens showTree : Bool) : List String :=
  (if showTokens then ["--tokens"] else []) ++ if showTree then ["--ast"] else []

/-- The arguments name the file and give its flags. -/
inductive Calls (o : Options) : List String → Prop where
  /-- The flags and the name, in any order. -/
  | plain {args : List String} :
      IsPlain o.file → args.Perm (flags o.showTokens o.showTree ++ [o.file]) → Calls o args
  /-- The same, and a double dash with nothing behind it. -/
  | ended {args : List String} :
      IsPlain o.file → args.Perm (flags o.showTokens o.showTree ++ [o.file]) →
      Calls o (args ++ ["--"])
  /-- The flags in any order, and the name behind a double dash. -/
  | behind {args : List String} :
      o.file ≠ "" → args.Perm (flags o.showTokens o.showTree) → Calls o (args ++ ["--", o.file])

namespace Given

/-! ## 2. One word -/

section Word

variable {g g' : Given} {word : String}

/-- The words that have been read. -/
def words (g : Given) : List String := flags g.showTokens g.showTree ++ g.file.toList

/-- No double dash has been read, and so no name that would be taken for an option. -/
structure IsOpen (g : Given) : Prop where
  filesOnly_eq : g.filesOnly = false
  isPlain : ∀ file ∈ g.file, IsPlain file

/-- Before a double dash: the word is a flag that is not there yet, or the name of the file. -/
inductive Takes (g : Given) : String → Given → Prop where
  | tokens : g.showTokens = false → Takes g "--tokens" { g with showTokens := true }
  | tree : g.showTree = false → Takes g "--ast" { g with showTree := true }
  | file {word : String} :
      IsPlain word → g.file = none → Takes g word { g with file := some word }

theorem withFile_eq_ok_iff :
    g.withFile word = .ok g' ↔ word ≠ "" ∧ g.file = none ∧ g' = { g with file := some word } := by
  unfold withFile
  split_ifs with hempty hfile
  · simp_all
  · cases h : g.file <;> simp_all
  · have hnone : g.file = none := by simpa using hfile
    have hne : word ≠ "" := by simpa using hempty
    rw [Except.ok.injEq, eq_comm]
    exact ⟨fun h => ⟨hne, hnone, h⟩, fun h => h.2.2⟩

/-- **A word before the double dash** is read just when it can be taken. -/
theorem read_eq_ok_iff (hopen : g.filesOnly = false) (hword : word ≠ "--") :
    g.read word = .ok g' ↔ g.Takes word g' := by
  unfold read
  rw [if_neg (by simp [hopen]), if_neg hword]
  constructor
  · intro h
    split_ifs at h with hhelp hversion htokens hshown htree hshown
    · cases h
      subst htokens
      exact .tokens (by simpa using hshown)
    · cases h
      subst htree
      exact .tree (by simpa using hshown)
    · split at h
      · cases h
      · cases h
      · cases h
      · rename_i hplain
        obtain ⟨hne, hfile, rfl⟩ := withFile_eq_ok_iff.mp h
        refine .file ⟨hne, fun hhead => ?_⟩ hfile
        obtain ⟨rest, htext⟩ := List.head?_eq_some_iff.mp hhead
        cases rest with
        | nil => exact String.toList_inj.mp htext
        | cons c rest => exact absurd htext (hplain c rest)
  · intro h
    cases h with
    | tokens hshown => simp [hshown]
    | tree hshown => simp [hshown]
    | file hplain hfile =>
      rw [if_neg (hplain.ne (by decide)), if_neg (hplain.ne (by decide)),
        if_neg (hplain.ne (by decide)), if_neg (hplain.ne (by decide))]
      split
      · exact absurd ‹_› (hplain.toList_ne _ _)
      · exact absurd ‹_› (hplain.toList_ne _ _)
      · exact absurd ‹_› (hplain.toList_ne _ _)
      · exact withFile_eq_ok_iff.mpr ⟨hplain.1, hfile, rfl⟩

end Word

/-! ## 3. The words that have been read -/

section Words

variable {g g' : Given} {word : String} {args : List String}

theorem mem_words_iff :
    word ∈ g.words ↔ g.showTokens = true ∧ word = "--tokens" ∨
      g.showTree = true ∧ word = "--ast" ∨ g.file = some word := by
  simp [words, flags]

/-- A name that is plain is no flag. -/
theorem mem_words_iff_of_isPlain (h : IsPlain word) : word ∈ g.words ↔ g.file = some word := by
  have htokens : word ≠ "--tokens" := h.ne (by decide)
  have htree : word ≠ "--ast" := h.ne (by decide)
  simp [mem_words_iff, htokens, htree]

namespace IsOpen

theorem tokens_mem_words (h : g.IsOpen) : "--tokens" ∈ g.words ↔ g.showTokens = true := by
  have hfile : g.file ≠ some "--tokens" := fun hfile => (h.isPlain _ hfile).ne (by decide) rfl
  simp [mem_words_iff, hfile]

theorem tree_mem_words (h : g.IsOpen) : "--ast" ∈ g.words ↔ g.showTree = true := by
  have hfile : g.file ≠ some "--ast" := fun hfile => (h.isPlain _ hfile).ne (by decide) rfl
  simp [mem_words_iff, hfile]

/-- No word is there twice. -/
theorem nodup_words (h : g.IsOpen) : g.words.Nodup := by
  refine List.nodup_append.mpr ⟨?_, ?_, ?_⟩
  · unfold flags
    cases g.showTokens <;> cases g.showTree <;> decide
  · cases g.file <;> simp
  · rintro flag hflag file hfile rfl
    have hplain := h.isPlain flag (by simpa using hfile)
    have hoption : flag = "--tokens" ∨ flag = "--ast" := by
      simp only [flags, List.mem_append] at hflag
      split_ifs at hflag <;> simp_all
    rcases hoption with rfl | rfl
    · exact hplain.ne (by decide) rfl
    · exact hplain.ne (by decide) rfl

/-- The words tell what has been read, in whatever order they stand. -/
theorem eq_of_words_perm (h : g.IsOpen) (h' : g'.IsOpen) (hwords : g.words.Perm g'.words) :
    g = g' := by
  have htokens : g.showTokens = g'.showTokens := by
    rw [Bool.eq_iff_iff, ← h.tokens_mem_words, ← h'.tokens_mem_words, hwords.mem_iff]
  have htree : g.showTree = g'.showTree := by
    rw [Bool.eq_iff_iff, ← h.tree_mem_words, ← h'.tree_mem_words, hwords.mem_iff]
  have hfile : g.file = g'.file := by
    have hname {file : String} (hplain : IsPlain file) :
        g.file = some file ↔ g'.file = some file := by
      rw [← mem_words_iff_of_isPlain hplain, ← mem_words_iff_of_isPlain hplain, hwords.mem_iff]
    refine Option.ext fun file => ⟨fun hmem => ?_, fun hmem => ?_⟩
    · exact (hname (h.isPlain file hmem)).mp hmem
    · exact (hname (h'.isPlain file hmem)).mpr hmem
  have hfiles := h.filesOnly_eq.trans h'.filesOnly_eq.symm
  cases g
  cases g'
  simp_all

theorem dashes_notMem_words (h : g.IsOpen) : "--" ∉ g.words := by
  have hfile : g.file ≠ some "--" := fun hfile => (h.isPlain _ hfile).ne (by decide) rfl
  simp [mem_words_iff, hfile]

/-- What takes a word is open as before. -/
theorem of_takes (h : g.IsOpen) (htakes : g.Takes word g') : g'.IsOpen := by
  cases htakes with
  | tokens => exact ⟨h.filesOnly_eq, h.isPlain⟩
  | tree => exact ⟨h.filesOnly_eq, h.isPlain⟩
  | file hplain => exact ⟨h.filesOnly_eq, by rintro _ ⟨⟩; exact hplain⟩

end IsOpen

/-- A word that is taken comes to the others. -/
theorem Takes.words_perm (h : g.Takes word g') : g'.words.Perm (word :: g.words) := by
  cases h with
  | tokens hshown => simp [words, flags, hshown]
  | tree hshown => simp [words, flags, hshown]
  | file _ hfile => simp [words, hfile]

/-- **A word that is still missing can be taken.** -/
theorem exists_takes (h : g.IsOpen) (h' : g'.IsOpen)
    (hwords : (word :: args ++ g.words).Perm g'.words) : ∃ middle, g.Takes word middle := by
  have hnodup := hwords.nodup_iff.mpr h'.nodup_words
  have hnew : word ∉ g.words := fun hmem =>
    (List.nodup_cons.mp hnodup).1 (List.mem_append_right _ hmem)
  have hmem : word ∈ g'.words := hwords.subset List.mem_cons_self
  rcases mem_words_iff.mp hmem with ⟨-, rfl⟩ | ⟨-, rfl⟩ | hfile
  · rw [h.tokens_mem_words, Bool.not_eq_true] at hnew
    exact ⟨_, .tokens hnew⟩
  · rw [h.tree_mem_words, Bool.not_eq_true] at hnew
    exact ⟨_, .tree hnew⟩
  · -- A name is there already only if it is this one.
    have hplain := h'.isPlain word hfile
    refine ⟨_, .file hplain (Option.eq_none_iff_forall_not_mem.mpr fun file hmem => ?_)⟩
    have hfile' : file ∈ g'.words :=
      hwords.subset (List.mem_append_right _ (mem_words_iff.mpr (.inr (.inr hmem))))
    rw [mem_words_iff_of_isPlain (h.isPlain file hmem), hfile] at hfile'
    cases hfile'
    exact hnew (mem_words_iff.mpr (.inr (.inr hmem)))

end Words

/-! ## 4. All words -/

section Run

variable {g g' : Given} {word : String} {args : List String}

/-- What is read in two steps is read by the first, and the second goes on from there. -/
theorem bind_eq_ok_iff {first : Except Request Given} {next : Given → Except Request Given} :
    first >>= next = .ok g' ↔ ∃ middle, first = .ok middle ∧ next middle = .ok g' := by
  cases first with
  | error r =>
    constructor
    · rintro ⟨⟩
    · rintro ⟨_, ⟨⟩, _⟩
  | ok middle =>
    constructor
    · intro h
      exact ⟨middle, rfl, h⟩
    · rintro ⟨_, ⟨⟩, h⟩
      exact h

theorem foldlM_read_cons_iff :
    (word :: args).foldlM read g = .ok g' ↔
      ∃ middle, g.read word = .ok middle ∧ args.foldlM read middle = .ok g' := by
  rw [List.foldlM_cons, bind_eq_ok_iff]

theorem foldlM_read_append_iff {before : List String} :
    (before ++ args).foldlM read g = .ok g' ↔
      ∃ middle, before.foldlM read g = .ok middle ∧ args.foldlM read middle = .ok g' := by
  rw [List.foldlM_append, bind_eq_ok_iff]

/-- Words without a double dash leave what has been read open. -/
theorem IsOpen.of_foldlM (h : g.IsOpen) (hargs : "--" ∉ args)
    (hread : args.foldlM read g = .ok g') : g'.IsOpen := by
  induction args generalizing g with
  | nil =>
    cases hread
    exact h
  | cons word args ih =>
    obtain ⟨hword, hargs⟩ := List.ne_and_not_mem_of_not_mem_cons hargs
    obtain ⟨middle, hmiddle, hrest⟩ := foldlM_read_cons_iff.mp hread
    exact ih (h.of_takes ((read_eq_ok_iff h.filesOnly_eq hword.symm).mp hmiddle)) hargs hrest

/-- **The words before the double dash** are read to what has the same words, in any order. -/
theorem foldlM_read_iff (h : g.IsOpen) (h' : g'.IsOpen) (hargs : "--" ∉ args) :
    args.foldlM read g = .ok g' ↔ (args ++ g.words).Perm g'.words := by
  induction args generalizing g with
  | nil =>
    constructor
    · rintro ⟨⟩
      exact List.Perm.refl _
    · intro hwords
      rw [h.eq_of_words_perm h' hwords]
      rfl
  | cons word args ih =>
    obtain ⟨hword, hargs⟩ := List.ne_and_not_mem_of_not_mem_cons hargs
    have hmoved {middle : Given} (htakes : g.Takes word middle) :
        (args ++ middle.words).Perm (word :: args ++ g.words) :=
      (htakes.words_perm.append_left args).trans List.perm_middle
    rw [foldlM_read_cons_iff]
    constructor
    · rintro ⟨middle, hmiddle, hrest⟩
      have htakes := (read_eq_ok_iff h.filesOnly_eq hword.symm).mp hmiddle
      exact (hmoved htakes).symm.trans ((ih (h.of_takes htakes) hargs).mp hrest)
    · intro hwords
      obtain ⟨middle, htakes⟩ := exists_takes h h' hwords
      refine ⟨middle, (read_eq_ok_iff h.filesOnly_eq hword.symm).mpr htakes, ?_⟩
      exact (ih (h.of_takes htakes) hargs).mpr ((hmoved htakes).trans hwords)

theorem read_dashes (h : g.filesOnly = false) :
    g.read "--" = .ok { g with filesOnly := true } := by
  rw [read, if_neg (by simp [h]), if_pos rfl]

/-- Behind the double dash there is no more than the name of the file. -/
theorem foldlM_read_behind_iff (h : g.filesOnly = true) :
    args.foldlM read g = .ok g' ↔
      args = [] ∧ g' = g ∨
        ∃ file, args = [file] ∧ file ≠ "" ∧ g.file = none ∧ g' = { g with file := some file } := by
  have hread (word : String) : g.read word = g.withFile word := by rw [read, if_pos h]
  cases args with
  | nil =>
    constructor
    · rintro ⟨⟩
      exact .inl ⟨rfl, rfl⟩
    · rintro (⟨-, rfl⟩ | ⟨_, hnil, -⟩)
      · rfl
      · cases hnil
  | cons word args =>
    rw [foldlM_read_cons_iff]
    constructor
    · rintro ⟨middle, hmiddle, hrest⟩
      rw [hread] at hmiddle
      obtain ⟨hne, hfile, rfl⟩ := withFile_eq_ok_iff.mp hmiddle
      cases args with
      | nil =>
        cases hrest
        exact .inr ⟨word, rfl, hne, hfile, rfl⟩
      | cons next args =>
        -- There is a name already.
        obtain ⟨_, hnext, -⟩ := foldlM_read_cons_iff.mp hrest
        rw [read, if_pos h] at hnext
        cases (withFile_eq_ok_iff.mp hnext).2.1
    · rintro (⟨hnil, -⟩ | ⟨file, hargs, hne, hfile, rfl⟩)
      · cases hnil
      · cases hargs
        exact ⟨_, (hread word).trans (withFile_eq_ok_iff.mpr ⟨hne, hfile, rfl⟩), rfl⟩

theorem withFile_ne_process (g : Given) (word : String) (o : Options) :
    g.withFile word ≠ .error (.process o) := by
  unfold withFile
  split_ifs
  · rintro ⟨⟩
  · rintro ⟨⟩
  · rintro ⟨⟩

/-- What is answered at once is not that a file is processed. -/
theorem read_ne_process (g : Given) (word : String) (o : Options) :
    g.read word ≠ .error (.process o) := by
  have hfile := g.withFile_ne_process word o
  unfold read
  split_ifs
  · exact hfile
  · rintro ⟨⟩
  · rintro ⟨⟩
  · rintro ⟨⟩
  · rintro ⟨⟩
  · rintro ⟨⟩
  · rintro ⟨⟩
  · rintro ⟨⟩
  · split
    · rintro ⟨⟩
    · rintro ⟨⟩
    · rintro ⟨⟩
    · exact hfile

theorem foldlM_read_ne_process (g : Given) (args : List String) (o : Options) :
    args.foldlM read g ≠ .error (.process o) := by
  induction args generalizing g with
  | nil => rintro ⟨⟩
  | cons word args ih =>
    rw [List.foldlM_cons]
    cases hword : g.read word with
    | ok middle => exact ih middle
    | error r =>
      rintro ⟨⟩
      exact g.read_ne_process word o hword

end Run

end Given

/-! ## 5. The request -/

section Request

variable {args : List String} {o : Options}

/-- The arguments make the program process a file just when they are read to its name. -/
theorem Request.ofArgs_eq_process_iff_foldlM :
    Request.ofArgs args = .process o ↔ ∃ filesOnly,
      args.foldlM Given.read ⟨none, false, false, false⟩ =
        .ok ⟨some o.file, o.showTokens, o.showTree, filesOnly⟩ := by
  unfold Request.ofArgs
  cases h : args.foldlM Given.read ⟨none, false, false, false⟩ with
  | error r =>
    constructor
    · rintro rfl
      exact absurd h (Given.foldlM_read_ne_process _ args o)
    · rintro ⟨_, ⟨⟩⟩
  | ok g =>
    obtain ⟨file, showTokens, showTree, filesOnly⟩ := g
    cases file with
    | none =>
      constructor
      · rintro ⟨⟩
      · rintro ⟨_, ⟨⟩⟩
    | some file =>
      constructor
      · rintro ⟨⟩
        exact ⟨filesOnly, rfl⟩
      · rintro ⟨_, h⟩
        cases h
        rfl

/-- Before anything has been read. -/
theorem Given.isOpen_start : Given.IsOpen ⟨none, false, false, false⟩ where
  filesOnly_eq := rfl
  isPlain := by rintro _ ⟨⟩

/-- The words of what is open can be read in any order. -/
theorem Given.IsOpen.foldlM_of_perm {g : Given} (h : g.IsOpen) (hargs : args.Perm g.words) :
    args.foldlM Given.read ⟨none, false, false, false⟩ = .ok g := by
  have hdashes : "--" ∉ args := fun hmem => h.dashes_notMem_words (hargs.subset hmem)
  refine (Given.foldlM_read_iff Given.isOpen_start h hdashes).mpr ?_
  simpa [Given.words, flags] using hargs

/-- Words without a double dash are the words of what they are read to. -/
theorem Given.words_perm_of_foldlM {g : Given} (hdashes : "--" ∉ args)
    (h : args.foldlM Given.read ⟨none, false, false, false⟩ = .ok g) :
    g.IsOpen ∧ args.Perm g.words := by
  have hopen := Given.isOpen_start.of_foldlM hdashes h
  have hwords := (Given.foldlM_read_iff Given.isOpen_start hopen hdashes).mp h
  exact ⟨hopen, by simpa [Given.words, flags] using hwords⟩

/-- Arguments that call for a file are accepted. -/
theorem Request.ofArgs_of_calls (h : Calls o args) : Request.ofArgs args = .process o := by
  rw [ofArgs_eq_process_iff_foldlM]
  have hnamed (hplain : IsPlain o.file) :
      Given.IsOpen ⟨some o.file, o.showTokens, o.showTree, false⟩ :=
    ⟨rfl, by rintro _ ⟨⟩; exact hplain⟩
  cases h with
  | plain hplain hperm => exact ⟨false, (hnamed hplain).foldlM_of_perm hperm⟩
  | ended hplain hperm =>
    refine ⟨true, Given.foldlM_read_append_iff.mpr ⟨_, (hnamed hplain).foldlM_of_perm hperm, ?_⟩⟩
    exact Given.foldlM_read_cons_iff.mpr ⟨_, Given.read_dashes rfl, rfl⟩
  | behind hne hperm =>
    have hflags : Given.IsOpen ⟨none, o.showTokens, o.showTree, false⟩ :=
      ⟨rfl, by rintro _ ⟨⟩⟩
    have hread := hflags.foldlM_of_perm (by simpa [Given.words] using hperm)
    refine ⟨true, Given.foldlM_read_append_iff.mpr ⟨_, hread, ?_⟩⟩
    refine Given.foldlM_read_cons_iff.mpr ⟨_, Given.read_dashes rfl, ?_⟩
    exact (Given.foldlM_read_behind_iff rfl).mpr (.inr ⟨_, rfl, hne, rfl, rfl⟩)

/-- No other arguments make the program process a file. -/
theorem Request.calls_of_ofArgs (h : Request.ofArgs args = .process o) : Calls o args := by
  obtain ⟨filesOnly, h⟩ := ofArgs_eq_process_iff_foldlM.mp h
  by_cases hdashes : "--" ∈ args
  · obtain ⟨front, back, rfl, hfront⟩ := List.eq_append_cons_of_mem hdashes
    obtain ⟨g, hread, hrest⟩ := Given.foldlM_read_append_iff.mp h
    obtain ⟨hopen, hperm⟩ := Given.words_perm_of_foldlM hfront hread
    obtain ⟨_, hmiddle, hback⟩ := Given.foldlM_read_cons_iff.mp hrest
    cases (Given.read_dashes hopen.filesOnly_eq).symm.trans hmiddle
    obtain ⟨file, showTokens, showTree, _⟩ := g
    rcases (Given.foldlM_read_behind_iff rfl).mp hback with ⟨rfl, heq⟩ | ⟨_, rfl, hne, hfile, heq⟩
    · cases heq
      exact .ended (hopen.isPlain _ rfl) hperm
    · cases heq
      cases hfile
      exact .behind hne (by simpa [Given.words] using hperm)
  · obtain ⟨hopen, hperm⟩ := Given.words_perm_of_foldlM hdashes h
    exact .plain (hopen.isPlain _ rfl) hperm

/-- **A file is processed when the arguments call for it**, and only then. -/
theorem Request.ofArgs_eq_process_iff : Request.ofArgs args = .process o ↔ Calls o args :=
  ⟨calls_of_ofArgs, ofArgs_of_calls⟩

end Request

end UnitLang.Command

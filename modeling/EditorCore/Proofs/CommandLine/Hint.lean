import EditorCore.CommandLine.Run
import EditorCore.Proofs.Session.Boundary
import EditorCore.Proofs.Toml.Scalar

/-!
# The hint of a file and the hint of a buffer

A hint can be asked for in two places: for a position of a file, from a command
line, and for a selection of a buffer, in a session. Both come to the same. A
command line with hints enabled fails exactly for the positions that a session
holding the file's text refuses, and otherwise it prints what the session answers
(`CommandLine.run_hint`).

The two do not share how they come by a boundary. A command line is given the line
where the imports end, or derives it from the file. A session takes the last report
of the hint panel, or derives the boundary with every change of its buffer; so the
report comes after the text (`CommandLine.setUp`), and where there is none the
session has to derive.

Every position of every file can be asked about from a command line, whatever the
name of the file looks like (`CommandLine.parse_hintArguments`).
-/

namespace EditorCore

/-- **A file that holds a text in UTF-8** is read as that text. -/
theorem FileSystem.readText_utf8 {fs : FileSystem} {path : Text} {t : String}
    (h : fs path = .ok (.file t.toUTF8)) : fs.readText path = .ok t.toList := by
  have hdecode : String.fromUTF8? t.toUTF8 = some t := by
    rw [String.fromUTF8?]
    simp only [String.toUTF8_eq_toByteArray, dif_pos t.isValidUTF8]
    rfl
  rw [readText, h]
  dsimp only
  rw [hdecode]

namespace Session

variable {s : Session} {key : Text} {command : EditCommand} {p : Position}

/-- A cursor is refused where it lies outside the buffer. -/
theorem firstOutside?_cursor (s : Session) (p : Position) :
    s.firstOutside? [.cursor p] = if s.document.contains p then none else some p := by
  have hends : [Selection.cursor p].flatMap (fun t => [t.anchor, t.head]) = [p, p] := rfl
  rw [firstOutside?, hends]
  cases h : s.document.contains p <;> simp [h]

/-- **A key that edits refuses the first end outside**, and nothing else. -/
theorem handleKey_outOfRange_iff {ss : List Selection}
    (hkey : KeyBinding.ofName? key = some (.edit command)) :
    (s.handleKey key ss).2 = .error (.outOfRange p) ↔ s.firstOutside? ss = some p := by
  have hstep := keyStep_handleKey s key ss
  generalize s.handleKey key ss = outcome at hstep
  cases hstep with
  | unknown hunknown => exact absurd (hkey.symm.trans hunknown) nofun
  | compiled hcompile => exact absurd (hkey.symm.trans hcompile) nofun
  | outside _ q _ hfirst =>
    rw [← firstOutside?_eq_some_iff] at hfirst
    simp [hfirst]
  | passed _ _ hinside | overflowed _ _ hinside | edited _ _ _ _ hinside =>
    simp [firstOutside?_eq_none_iff.2 hinside]

end Session

namespace CommandLine

variable {p : Position} {source : Text} {importEnd : Option UInt32} {g : Given} {setting : Setting}

/-! ## Positions -/

/-- Why a position outside a document is refused: its line is looked at first. -/
def outside (d : Document) (p : Position) : Failure :=
  if d.lineCount ≤ p.line then .lineOutside p.line d.lineCount
  else .columnOutside p.column p.line (d.lineLength p.line)

/-- **The two checks of positions are one**: what a command line refuses is what no
cursor in a buffer can be at. -/
theorem checkPosition_eq (d : Document) (p : Position) :
    checkPosition d p = if d.contains p then .ok () else .error (outside d p) := by
  rw [checkPosition, outside]
  by_cases hline : d.lineCount ≤ p.line
  · have hnot : ¬ d.contains p := fun h =>
      UInt32.not_le.2 (Document.contains_iff.1 h).1 hline
    rw [if_pos hline, if_neg hnot, if_pos hline]
  · have hcontains : d.contains p ↔ ¬ d.lineLength p.line < p.column := by
      rw [Document.contains_iff, UInt32.not_lt]
      exact and_iff_right (UInt32.not_le.1 hline)
    rw [if_neg hline, if_neg hline]
    simp only [hcontains, ite_not]

/-! ## Arguments for every position -/

theorem isDigit_of_mem_ofWord {n : UInt32} : ∀ c ∈ Text.ofWord n, c.isDigit :=
  fun _ => Numeral.isDigit_of_mem_ofNat

/-- A word is read back from its digits. -/
theorem word?_ofWord (n : UInt32) : word? (.ofWord n) = some n := by
  have hdigit := isDigit_of_mem_ofWord (n := n)
  have hne : Text.ofWord n ≠ [] := Nat.toDigits_ne_nil
  have hsign : (Text.ofWord n).splitSign = (false, Text.ofWord n) := by
    generalize Text.ofWord n = t at hdigit
    unfold Text.splitSign
    split
    · exact absurd (hdigit '+' List.mem_cons_self) (by decide)
    · exact absurd (hdigit '-' List.mem_cons_self) (by decide)
    · rfl
  have hvalue : Nat.ofDigitChars 10 (Text.ofWord n) 0 = n.toNat := Nat.ofDigitChars_ten_toDigits
  rw [word?, hsign]
  simp [hne, Text.digits?_of_isDigit hdigit, hvalue, n.toNat_lt_size]

/-- Digits are an operand, and so may follow an option. -/
theorem argument_ofWord (n : UInt32) : Argument.ofText (.ofWord n) = .operand (.ofWord n) := by
  have hdigit := isDigit_of_mem_ofWord (n := n)
  generalize Text.ofWord n = t at hdigit
  unfold Argument.ofText
  split
  case h_4 => rfl
  all_goals exact absurd (hdigit '-' List.mem_cons_self) (by decide)

/-- The argument that announces the value of a setting. -/
def Setting.flag (setting : Setting) : Text := '-' :: '-' :: setting.word

/-- **A setting and its value are taken** by the subcommand for hints, where the value
is a word. -/
theorem options_flag_ofWord {next : Given} {n : UInt32}
    (hset : g.set? setting (.ofWord n) = some next) (rest : List Text) :
    options (.subcommand .hint) g (setting.flag :: Text.ofWord n :: rest)
      = options (.subcommand .hint) next rest := by
  have hargument : Argument.ofText setting.flag = .option setting.word none := by
    cases setting <;> decide
  have hsetting : (Level.subcommand .hint).setting? setting.word = some setting := by
    cases setting <;> decide
  rw [options, hargument]
  dsimp only
  rw [hsetting]
  dsimp only
  rw [argument_ofWord, hset]

/-- **The arguments that ask for a hint.** The name of the file comes last, after two
hyphens, since it may look like an option. -/
def hintArguments (file : Text) (p : Position) (importEnd : Option UInt32) : List Text :=
  "hint".toList :: Setting.line.flag :: Text.ofWord p.line
    :: Setting.column.flag :: Text.ofWord p.column
    :: (importEnd.elim [] fun n => [Setting.importEnd.flag, Text.ofWord n])
      ++ ["--".toList, file]

/-- The options are taken one after the other, and the name of the file is left. -/
theorem options_hintArguments (file : Text) (p : Position) (importEnd : Option UInt32) :
    options (.subcommand .hint) {} (hintArguments file p importEnd).tail
      = .ok ({ line := p.line, column := p.column, importEnd }, .separator [file]) := by
  have hline : Given.set? {} .line (Text.ofWord p.line) = some { line := p.line } := by
    simp [Given.set?, word?_ofWord]
  have hcolumn : Given.set? { line := p.line } .column (Text.ofWord p.column)
      = some { line := p.line, column := p.column } := by
    simp [Given.set?, word?_ofWord]
  refine (options_flag_ofWord hline _).trans ((options_flag_ofWord hcolumn _).trans ?_)
  cases importEnd with
  | none => rfl
  | some n =>
    have hend : Given.set? { line := p.line, column := p.column } .importEnd (Text.ofWord n)
        = some { line := p.line, column := p.column, importEnd := n } := by
      simp [Given.set?, word?_ofWord]
    exact options_flag_ofWord hend _

/-- **Every position of every file can be asked about.** -/
theorem parse_hintArguments {file : Text} (hfile : file ≠ []) (p : Position)
    (importEnd : Option UInt32) :
    parse (hintArguments file p importEnd) = .ok ⟨['.'], .hint file p importEnd⟩ := by
  obtain ⟨c, t, rfl⟩ := List.exists_cons_of_ne_nil hfile
  have hargs : subcommandArguments .hint (hintArguments (c :: t) p importEnd).tail
      = .ok ({ line := p.line, column := p.column, importEnd }, some (c :: t)) := by
    rw [subcommandArguments, options_hintArguments]
    rfl
  have hprogram : options .program {} (hintArguments (c :: t) p importEnd)
      = .ok ({}, .operand "hint".toList (hintArguments (c :: t) p importEnd).tail) := rfl
  have hword : Subcommand.ofWord? "hint".toList = some .hint := by decide
  rw [parse, hprogram]
  simp only [Except.bind, bind, pure, hword, hargs]
  rfl

/-! ## A session for a file -/

/-- **The calls that set a session up for a text**: the text, and then where its
imports end, if that is given. -/
def setUp (source : Text) (importEnd : Option UInt32) : List Session.Call :=
  .setSource source :: importEnd.toList.map .updateBoundary

theorem document_run_setUp (s : Session) (source : Text) (importEnd : Option UInt32) :
    (s.run (setUp source importEnd)).document = .ofText source := by
  cases importEnd <;> rfl

/-- The boundary of such a session is the given one, or else that of the text. -/
theorem boundary_run_setUp {s : Session} (hderives : importEnd = none → s.Derives) :
    (s.run (setUp source importEnd)).boundary
      = .upTo (importEnd.getD (Document.ofText source).importRegionEnd) := by
  cases importEnd with
  | none => exact (s.boundary_setSource source).trans (if_pos (hderives rfl))
  | some line => rfl

/-! ## Both ways to a hint -/

/-- A report with hints enabled is told by the position alone. -/
theorem hintReport_of_enabled {hints : HintSettings} (henabled : hints.enabled) (d : Document)
    (p : Position) (importEnd : Option UInt32) :
    hintReport d hints p importEnd
      = if d.contains p then
          .ok ((d.hint (.upTo (importEnd.getD d.importRegionEnd)) (.cursor p)).getD ['-'] ++ ['\n'])
        else .error (outside d p) := by
  rw [hintReport, checkPosition_eq]
  simp only [henabled]
  split_ifs <;> rfl

/-- **What a command line comes to** that asks for a hint, told in the terms of a session
that is set up for the file. -/
theorem run_eq_of_setUp {fs : FileSystem} {args : List Text} {root file : Text} {t : String}
    (hargs : parse args = .ok ⟨root, .hint file p importEnd⟩)
    (hfile : fs file = .ok (.file t.toUTF8))
    (henabled : (Config.load fs root).1.hints.enabled)
    {s session : Session} (hderives : importEnd = none → s.Derives)
    (hsession : session = s.run (setUp t.toList importEnd)) :
    run fs args
      = if session.document.contains p then
          ⟨0, (session.hintAt (.cursor p)).getD ['-'] ++ ['\n'], none⟩
        else ⟨1, [], some ("playground-hints error: "
          ++ (outside session.document p).message).toList⟩ := by
  have hread : readDocument fs file = .ok session.document := by
    rw [readDocument, FileSystem.readText_utf8 hfile, hsession, document_run_setUp]
  have hboundary : session.boundary
      = .upTo (importEnd.getD session.document.importRegionEnd) := by
    rw [hsession, boundary_run_setUp hderives, document_run_setUp]
  have hreport : Command.report fs (Config.load fs root).1 (.hint file p importEnd)
      = hintReport session.document (Config.load fs root).1.hints p importEnd := by
    rw [Command.report, hread]
    rfl
  rw [run, hargs]
  dsimp only
  rw [hreport, hintReport_of_enabled henabled, Session.hintAt, hboundary]
  split_ifs <;> rfl

/-- **A command line and a session agree on hints.** Let hints be enabled where the
command line runs, and let a session, in whatever state, be set up for the text of
the file; it derives its boundary if the command line does. Then the command line
fails exactly where the session's check of positions fails, as every key that edits
shows, and it says which number is too large. Otherwise it prints the session's hint,
or a hyphen for none, in a line of its own. -/
theorem run_hint {fs : FileSystem} {args : List Text} {root file : Text} {p : Position}
    {importEnd : Option UInt32} {t : String}
    (hargs : parse args = .ok ⟨root, .hint file p importEnd⟩)
    (hfile : fs file = .ok (.file t.toUTF8))
    (henabled : (Config.load fs root).1.hints.enabled)
    (s : Session) (hderives : importEnd = none → s.Derives) :
    let session := s.run (setUp t.toList importEnd)
    ((run fs args).code ≠ 0 ↔ (session.firstOutside? [.cursor p]).isSome)
    ∧ (∀ key command, KeyBinding.ofName? key = some (.edit command) →
        ((run fs args).code ≠ 0
          ↔ (session.handleKey key [.cursor p]).2 = .error (.outOfRange p)))
    ∧ ((run fs args).code ≠ 0 →
        run fs args = ⟨1, [], some ("playground-hints error: "
          ++ (outside session.document p).message).toList⟩)
    ∧ ((run fs args).code = 0 →
        run fs args = ⟨0, (session.hintAt (.cursor p)).getD ['-'] ++ ['\n'], none⟩) := by
  intro session
  have hrun := run_eq_of_setUp hargs hfile henabled hderives (rfl : session = _)
  have hcheck := session.firstOutside?_cursor p
  have hkeys : ∀ key command, KeyBinding.ofName? key = some (.edit command) →
      ((session.handleKey key [.cursor p]).2 = .error (.outOfRange p)
        ↔ session.firstOutside? [.cursor p] = some p) :=
    fun key command hkey => Session.handleKey_outOfRange_iff hkey
  by_cases hinside : session.document.contains p
  · rw [if_pos hinside] at hrun hcheck
    rw [hcheck] at hkeys ⊢
    rw [hrun]
    refine ⟨by simp, fun key command hkey => ?_, fun h => absurd rfl h, fun _ => rfl⟩
    simp [hkeys key command hkey]
  · rw [if_neg hinside] at hrun hcheck
    rw [hcheck] at hkeys ⊢
    rw [hrun]
    refine ⟨by simp, fun key command hkey => ?_, fun _ => rfl, fun h => absurd h (by simp)⟩
    simp [hkeys key command hkey]

/-- The module of an import, asked for without a boundary: one column past the end of
the line is refused, and a column within the name has the hint of the session. -/
theorem run_hint_derived :
    let fs : FileSystem := fun path =>
      if path = "Main.elm".toList then .ok (.file "import Html exposing (div)\n".toUTF8)
      else .error .notFound
    let session := (Session.new { hints := { deriveImportBoundary := true } }).run
      (setUp "import Html exposing (div)\n".toList none)
    session.hintAt (.cursor ⟨0, 9⟩) = some "module:Html".toList
    ∧ run fs (hintArguments "Main.elm".toList ⟨0, 9⟩ none) = ⟨0, "module:Html\n".toList, none⟩
    ∧ (session.firstOutside? [.cursor ⟨0, 27⟩]).isSome
    ∧ (run fs (hintArguments "Main.elm".toList ⟨0, 27⟩ none)).code ≠ 0 := by
  intro fs session
  have henabled : (Config.load fs ['.']).1.hints.enabled := by decide +kernel
  have hagree (p : Position) :=
    run_hint (parse_hintArguments (by decide) p none) (if_pos rfl : fs _ = _) henabled
      (Session.new { hints := { deriveImportBoundary := true } }) fun _ => rfl
  have hhint : session.hintAt (.cursor ⟨0, 9⟩) = some "module:Html".toList := by decide +kernel
  have hcode : (run fs (hintArguments "Main.elm".toList ⟨0, 9⟩ none)).code = 0 := by
    by_contra hcode
    exact absurd ((hagree ⟨0, 9⟩).1.1 hcode) (by decide +kernel)
  refine ⟨hhint, ?_, by decide +kernel, (hagree ⟨0, 27⟩).1.2 (by decide +kernel)⟩
  have hrun : run fs (hintArguments "Main.elm".toList ⟨0, 9⟩ none)
      = ⟨0, (session.hintAt (.cursor ⟨0, 9⟩)).getD ['-'] ++ ['\n'], none⟩ :=
    (hagree ⟨0, 9⟩).2.2.2 hcode
  rw [hrun, hhint]
  rfl

end CommandLine

end EditorCore

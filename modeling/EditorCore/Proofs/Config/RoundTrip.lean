import EditorCore.CommandLine.Run
import EditorCore.Proofs.Toml.Lines
import EditorCore.Proofs.Toml.Scalar
import EditorCore.Proofs.Toml.Sections

/-!
# Reading configurations back

The written form of a configuration is a document in sections, one per group of
settings, and lists every setting (`Config.adds_render`). So it is read as these
sections, and every setting as the value it was written from: the
configuration is read back, but for its path, which is not written, where a tab
has a column (`Config.ofContents_render`).

Whatever a configuration was read from, a tab has a column. So what the program
prints of it is a configuration that reads as the one in force
(`Config.ofContents_report`), however much the file left out, and also where it
was no configuration at all.
-/

namespace EditorCore

open Toml (Adds BareKey Spells sectionStatements)

/-! ## Settings -/

namespace Toml

/-- **A section with its settings in order** is read as them. -/
theorem settings?_table (origin : TableOrigin) (es : Entries) (hkeys : (es.map Prod.fst).Nodup) :
    settings? (es.map Prod.fst) (.table origin es) = some (es.map fun e => some e.2) := by
  have hnone : es.filter (fun e => !(es.map Prod.fst).contains e.1) = [] := by
    refine List.filter_eq_nil_iff.2 fun e he => ?_
    rw [List.contains_iff_mem.2 (List.mem_map_of_mem he)]
    exact Bool.false_ne_true
  rw [settings?, hnone, List.map_map]
  exact congrArg some (List.map_congr_left fun e he => lookup_of_mem hkeys he)

theorem toWord?_toNat (n : UInt32) : toWord? (.integer (some n.toNat)) = some n := by
  rw [toWord?, if_pos ⟨Int.natCast_nonneg _, Int.ofNat_lt.2 n.toNat_lt⟩]
  exact congrArg some (UInt32.ofNat_toNat)

theorem toTheme?_name (theme : Theme) : toTheme? (.string theme.name) = some theme := by
  cases theme <;> decide +kernel

end Toml

/-! ## Values -/

theorem spells_boolText (b : Bool) : Spells (Config.boolText b) (.boolean b) := by
  cases b with
  | true =>
    have hbare : BareKey ['t', 'r', 'u', 'e'] := by decide
    exact Toml.spells_scalar hbare.1 hbare.not_endsAtom rfl
  | false =>
    have hbare : BareKey ['f', 'a', 'l', 's', 'e'] := by decide
    exact Toml.spells_scalar hbare.1 hbare.not_endsAtom rfl

theorem spells_ofWord (n : UInt32) : Spells (.ofWord n) (.integer (some n.toNat)) := by
  have hbare : BareKey (.ofWord n) := by
    refine ⟨Nat.toDigits_ne_nil, List.all_eq_true.2 fun c hc => ?_⟩
    have hdigit : c.isDigit := Numeral.isDigit_of_mem_ofNat hc
    rw [Char.isAlphanum, hdigit, Bool.or_true, Bool.true_or, Bool.true_or]
  exact Toml.spells_scalar hbare.1 hbare.not_endsAtom (Toml.scalar?_ofNat _)

theorem spells_theme (theme : Theme) :
    Spells (['"'] ++ theme.name ++ ['"']) (.string theme.name) := by
  refine Toml.spells_string fun c hc => ?_
  cases theme with
  | dark =>
    change c ∈ ['d', 'a', 'r', 'k'] at hc
    fin_cases hc <;> decide
  | light =>
    change c ∈ ['l', 'i', 'g', 'h', 't'] at hc
    fin_cases hc <;> decide

/-! ## The written form -/

namespace EditorSettings

theorem names_nodup : names.Nodup := by decide +kernel

/-- The section of the settings. -/
def entries (s : EditorSettings) : Toml.Entries :=
  names.zip [.string s.theme.name, .integer (some s.tabSize.toNat),
    .integer (some s.indentUnit.toNat), .boolean s.indentWithTabs, .boolean s.lineNumbers,
    .boolean s.matchBrackets]

/-- **The section is read as the settings.** -/
theorem ofToml?_entries (s : EditorSettings) :
    ofToml? (.table .header s.entries) = some s := by
  have hkeys : s.entries.map Prod.fst = names := rfl
  have hsettings := Toml.settings?_table .header s.entries (hkeys ▸ names_nodup)
  rw [hkeys] at hsettings
  have htheme := Toml.toTheme?_name s.theme
  have htabSize := Toml.toWord?_toNat s.tabSize
  have hindentUnit := Toml.toWord?_toNat s.indentUnit
  rw [ofToml?, hsettings]
  simp only [entries, names, List.map_cons, List.map_nil, List.zip_cons_cons, List.zip_nil_left,
    Option.bind_eq_bind, Option.bind_some, Toml.setting?, htheme, htabSize, hindentUnit]
  rfl

end EditorSettings

namespace HintSettings

theorem names_nodup : names.Nodup := by decide +kernel

/-- The section of the settings. -/
def entries (s : HintSettings) : Toml.Entries :=
  names.zip [.boolean s.enabled, .boolean s.deriveImportBoundary]

/-- **The section is read as the settings.** -/
theorem ofToml?_entries (s : HintSettings) :
    ofToml? (.table .header s.entries) = some s := by
  have hkeys : s.entries.map Prod.fst = names := rfl
  have hsettings := Toml.settings?_table .header s.entries (hkeys ▸ names_nodup)
  rw [hkeys] at hsettings
  rw [ofToml?, hsettings]
  rfl

end HintSettings

namespace Config

theorem sections_nodup : sections.Nodup := by decide +kernel

/-- The sections of a configuration. -/
def entries (c : Config) : List (Text × Toml.Entries) :=
  sections.zip [c.editor.entries, c.hints.entries]

/-- **The sections are read as the configuration**, which has no path. -/
theorem ofToml?_entries (c : Config) :
    ofToml? (c.entries.map fun s => (s.1, .table .header s.2))
      = some { editor := c.editor, hints := c.hints } := by
  have hnames : (c.entries.map fun s => (s.1, Toml.table .header s.2)).map Prod.fst = sections :=
    rfl
  have hsettings := Toml.settings?_table .header (c.entries.map fun s => (s.1, .table .header s.2))
    (hnames ▸ sections_nodup)
  have heditor := c.editor.ofToml?_entries
  have hhints := c.hints.ofToml?_entries
  rw [hnames] at hsettings
  rw [ofToml?, hsettings]
  simp only [entries, sections, List.map_cons, List.map_nil, List.zip_cons_cons, List.zip_nil_left,
    Option.bind_eq_bind, Option.bind_some, Toml.setting?, heditor, hhints]
  rfl

/-- A line adds the setting it gives. -/
theorem adds_settingLine {name : String} {text : Text} {v : Toml} (h : BareKey name.toList)
    (hv : Spells text v) : Adds (settingLine name text) [.assignment [name.toList] v] :=
  Toml.adds_assignment h hv

/-- **The written form adds the sections**, line by line. -/
theorem adds_render (c : Config) :
    Adds c.render (c.entries.flatMap fun s => sectionStatements s.1 s.2) := by
  have heditor : BareKey ['e', 'd', 'i', 't', 'o', 'r'] := by decide
  have hhints : BareKey ['h', 'i', 'n', 't', 's'] := by decide
  have hbool {name : String} (h : BareKey name.toList) (b : Bool) :=
    adds_settingLine h (spells_boolText b)
  have hword {name : String} (h : BareKey name.toList) (n : UInt32) :=
    adds_settingLine h (spells_ofWord n)
  exact (Toml.adds_header heditor)
    |>.append (adds_settingLine (by decide +kernel) (spells_theme c.editor.theme))
    |>.append (hword (by decide +kernel) c.editor.tabSize)
    |>.append (hword (by decide +kernel) c.editor.indentUnit)
    |>.append (hbool (by decide +kernel) c.editor.indentWithTabs)
    |>.append (hbool (by decide +kernel) c.editor.lineNumbers)
    |>.append (hbool (by decide +kernel) c.editor.matchBrackets)
    |>.append (Toml.adds_newline.append (Toml.adds_header hhints))
    |>.append (hbool (by decide +kernel) c.hints.enabled)
    |>.append (hbool (by decide +kernel) c.hints.deriveImportBoundary)

/-! ## Reading back -/

theorem one_le_max_one (n : UInt32) : 1 ≤ max n 1 := by
  show 1 ≤ if n ≤ 1 then 1 else n
  split_ifs with hle
  · exact UInt32.le_refl 1
  · exact UInt32.le_of_lt (UInt32.not_le.1 hle)

theorem max_one_eq {n : UInt32} (h : 1 ≤ n) : max n 1 = n := by
  show (if n ≤ 1 then 1 else n) = n
  split_ifs with hle
  · exact UInt32.le_antisymm h hle
  · rfl

/-- **A configuration is read back from its written form**, but for its path,
where a tab has a column. -/
theorem ofContents_render (path : Option Text) (c : Config) (h : 1 ≤ c.editor.tabSize) :
    ofContents path c.render = ({ c with path }, []) := by
  have hnames : (c.entries.map Prod.fst).Nodup := sections_nodup
  have hkeys : ∀ s ∈ c.entries, (s.2.map Prod.fst).Nodup := by
    refine List.forall_mem_cons.2 ⟨EditorSettings.names_nodup, List.forall_mem_singleton.2 ?_⟩
    exact HintSettings.names_nodup
  have hread : (Toml.ofText? c.render).bind ofToml?
      = some { editor := c.editor, hints := c.hints } := by
    rw [c.adds_render.ofText?_eq nofun, Toml.ofStatements?_sections hnames hkeys,
      Option.bind_some, ofToml?_entries]
  rw [ofContents, hread]
  dsimp only [widenTab]
  rw [max_one_eq h]

/-- **Whatever a configuration is read from**, a tab has a column, and the path is
the one given. -/
theorem ofContents_fst (path : Option Text) (contents : Text) :
    1 ≤ (ofContents path contents).1.editor.tabSize
      ∧ (ofContents path contents).1.path = path := by
  unfold ofContents
  split <;> exact ⟨one_le_max_one _, rfl⟩

/-- **What the program prints of a configuration reads as that configuration**,
for the path it is read with, and there is nothing to warn of. So it is for all settings where
a tab has a column, and with them for whatever contents a configuration was read
from, complete, in part or malformed. -/
theorem ofContents_report (fs : FileSystem) (path : Option Text) :
    (∀ c : Config, 1 ≤ c.editor.tabSize →
      ∃ text, CommandLine.Command.config.report fs c = .ok text
        ∧ ofContents path text = ({ c with path }, []))
    ∧ ∀ contents, ∃ text,
      CommandLine.Command.config.report fs (ofContents path contents).1 = .ok text
        ∧ ofContents path text = ((ofContents path contents).1, []) := by
  refine ⟨fun c htab => ⟨c.render, rfl, ofContents_render path c htab⟩, fun contents => ?_⟩
  obtain ⟨htab, hpath⟩ := ofContents_fst path contents
  generalize (ofContents path contents).1 = c at htab hpath ⊢
  refine ⟨c.render, rfl, ?_⟩
  rw [ofContents_render path c htab, ← hpath]

/-- Contents with a tab of no columns, a key that is none and half of the settings, and contents
that are no configuration. What is printed of the first has a tab of one column. -/
theorem ofContents_report_partial :
    let fs : FileSystem := fun _ => .error .notFound
    let settings : Config := { editor := { theme := .light, tabSize := 1, indentUnit := 7 } }
    let part : Text :=
      "[editor]\ntheme = \"light\"\ntab_size = 0\nindent_unit = 7\nfont = 1\n".toList
    let malformed : Text := "[editor\n".toList
    (ofContents none part = (settings, [])
      ∧ ∃ text, CommandLine.Command.config.report fs settings = .ok text
        ∧ ofContents none text = (settings, []))
    ∧ ofContents none malformed = ({}, [.malformed])
      ∧ ∃ text, CommandLine.Command.config.report fs {} = .ok text
        ∧ ofContents none text = ({}, []) := by
  intro fs settings part malformed
  have hpart : ofContents none part = (settings, []) := by decide +kernel
  have hmalformed : ofContents none malformed = ({}, [.malformed]) := by decide +kernel
  obtain ⟨hall, hread⟩ := ofContents_report fs none
  have hdefaults := hread malformed
  rw [hmalformed] at hdefaults
  exact ⟨⟨hpart, hall settings (by decide)⟩, hmalformed, hdefaults⟩

end Config

end EditorCore

import EditorCore.CommandLine.Report
import EditorCore.Proofs.Text.Lines

/-!
# A line of output for every line

The tokens of a source are listed line by line, and whoever reads the list finds the
tokens of a line by counting. For that a token must not bring a line feed of its own
into the list, though it may well hold one: white space, comments and triple-quoted
strings run over lines, and a carriage return or a control character may stand in any
of them. A line only has the piece of a token that lies there, and the piece is
listed between quotes, where every character is printable (`Text.isPrintable_of_mem_quoted`).

So the list has one line for every line of the source, and it is the line that the
source's line alone is answered with (`CommandLine.tokensReport_lines`).
-/

namespace EditorCore

namespace Text

/-! ## Printable texts -/

set_option maxRecDepth 4000 in
/-- No range of characters that are not printable reaches into those from the space to
the tilde. -/
theorem outside_of_mem_unprintableRanges :
    ∀ r ∈ unprintableRanges, r.2 < 0x20 ∨ 0x7e < r.1 := by
  decide

/-- A character from the space to the tilde. -/
def isGraphic (c : Char) : Bool := 0x20 ≤ c.toNat && c.toNat ≤ 0x7e

theorem isPrintable_of_isGraphic {c : Char} (h : isGraphic c) : isPrintable c := by
  rw [isGraphic, Bool.and_eq_true, decide_eq_true_eq, decide_eq_true_eq] at h
  rw [isPrintable, Bool.not_eq_true', List.any_eq_false]
  intro r hr
  have hr := outside_of_mem_unprintableRanges r hr
  rw [Bool.and_eq_true, decide_eq_true_eq, decide_eq_true_eq]
  omega

theorem isPrintable_of_mem_graphic {t : Text} (ht : t.all isGraphic) {c : Char} (hc : c ∈ t) :
    isPrintable c :=
  isPrintable_of_isGraphic (List.all_eq_true.1 ht c hc)

/-- A line feed is not printable. -/
theorem not_isPrintable_newline : ¬ isPrintable '\n' := by
  rw [isPrintable, unprintableRanges, List.any_cons]
  decide

/-- The digits of a number are printable, in any base up to sixteen. -/
theorem isPrintable_of_mem_toDigits {base n : Nat} (hbase : 1 < base) (hle : base ≤ 16)
    {c : Char} (hc : c ∈ Nat.toDigits base n) : isPrintable c := by
  have hdigit : ∀ k < 16, isGraphic (Nat.digitChar k) := by decide
  induction n using Nat.strong_induction_on with
  | h n ih =>
    rw [Nat.toDigits_eq_if hbase] at hc
    split_ifs at hc with hlt
    · rw [List.mem_singleton.1 hc]
      exact isPrintable_of_isGraphic (hdigit n (hlt.trans_le hle))
    · rcases List.mem_append.1 hc with hc | hc
      · exact ih (n / base) (Nat.div_lt_self (by omega) hbase) hc
      · rw [List.mem_singleton.1 hc]
        exact isPrintable_of_isGraphic (hdigit _ ((Nat.mod_lt n (by omega)).trans_le hle))

/-- **Whatever a character is, it is shown by printable ones.** -/
theorem isPrintable_of_mem_quoteChar {c d : Char} (hd : d ∈ quoteChar c) : isPrintable d := by
  unfold quoteChar at hd
  split at hd
  case h_7 =>
    split_ifs at hd with hescape
    · simp only [codePointEscape, List.mem_append, or_assoc] at hd
      rcases hd with hd | hd | hd
      · exact isPrintable_of_mem_graphic (by decide) hd
      · exact isPrintable_of_mem_toDigits (by decide) (by decide) hd
      · exact isPrintable_of_mem_graphic (by decide) hd
    · -- a character that is not escaped is printable itself
      rw [Bool.or_eq_true, not_or, Bool.not_eq_true', Bool.not_eq_false] at hescape
      rw [List.mem_singleton.1 hd]
      exact hescape.2
  all_goals exact isPrintable_of_mem_graphic (by decide) hd

/-- **A quoted text is printable**, whatever the text is. -/
theorem isPrintable_of_mem_quoted {t : Text} {c : Char} (hc : c ∈ t.quoted) : isPrintable c := by
  simp only [quoted, List.mem_append, List.mem_singleton, List.mem_flatMap] at hc
  rcases hc with (rfl | ⟨d, -, hc⟩) | rfl
  · exact isPrintable_of_isGraphic (by decide)
  · exact isPrintable_of_mem_quoteChar hc
  · exact isPrintable_of_isGraphic (by decide)

/-- The lines that texts make, each followed by a line feed. -/
theorem segments_flatMap {ts : List Text} (h : ∀ t ∈ ts, '\n' ∉ t) :
    segments (ts.flatMap (· ++ ['\n'])) = ts ++ [[]] := by
  induction ts with
  | nil => rfl
  | cons t ts ih =>
    obtain ⟨ht, hts⟩ := List.forall_mem_cons.1 h
    rw [List.flatMap_cons, List.append_assoc, List.singleton_append, segments_append_newline,
      segments_of_not_mem ht, ih hts]
    rfl

end Text

namespace CommandLine

/-! ## The report of a line -/

theorem isPrintable_of_mem_name {kind : TokenKind} {c : Char} (hc : c ∈ kind.name.toList) :
    isPrintable c :=
  Text.isPrintable_of_mem_graphic (by cases kind <;> decide) hc

theorem isPrintable_of_mem_ofWord {n : UInt32} {c : Char} (hc : c ∈ Text.ofWord n) :
    isPrintable c :=
  Text.isPrintable_of_mem_toDigits (by decide) (by decide) hc

/-- **The report of a token is printable.** -/
theorem isPrintable_of_mem_tokenReport {t : LineToken} {c : Char} (hc : c ∈ tokenReport t) :
    isPrintable c := by
  simp only [tokenReport, List.mem_append, or_assoc] at hc
  rcases hc with hc | hc | hc | hc | hc | hc | hc | hc
  · exact Text.isPrintable_of_mem_graphic (by decide) hc
  · exact isPrintable_of_mem_name hc
  · exact Text.isPrintable_of_mem_graphic (by decide) hc
  · exact isPrintable_of_mem_ofWord hc
  · exact Text.isPrintable_of_mem_graphic (by decide) hc
  · exact isPrintable_of_mem_ofWord hc
  · exact Text.isPrintable_of_mem_graphic (by decide) hc
  · exact Text.isPrintable_of_mem_quoted hc

/-- What is reported of a line, up to the line feed. -/
def lineEntry (d : Document) (line : UInt32) : Text :=
  .ofWord line ++ [':'] ++ ((d.lineTokens line).filter (!·.kind.isTrivia)).flatMap tokenReport

/-- **The entry of a line is printable**, and so has no line feed. -/
theorem isPrintable_of_mem_lineEntry {d : Document} {line : UInt32} {c : Char}
    (hc : c ∈ lineEntry d line) : isPrintable c := by
  simp only [lineEntry, List.mem_append, List.mem_singleton, List.mem_flatMap] at hc
  rcases hc with (hc | rfl) | ⟨t, -, hc⟩
  · exact isPrintable_of_mem_ofWord hc
  · exact Text.isPrintable_of_isGraphic (by decide)
  · exact isPrintable_of_mem_tokenReport hc

/-! ## The report of a source -/

/-- **The tokens of a source are listed line by line.** There is one line of output
for every line of the source, in their order: its number and its tokens that are not
trivia, all of it printable. A line of the source alone is answered with its line of
output, and a line that the source does not have is refused. -/
theorem tokensReport_lines (d : Document) :
    ∃ entries : List Text,
      entries.length = d.lineCount.toNat
      ∧ (∀ line : UInt32, ∀ h : line.toNat < entries.length,
          tokensReport d (some line) = .ok (entries[line.toNat] ++ ['\n'])
          ∧ entries[line.toNat] = .ofWord line ++ [':']
            ++ ((d.lineTokens line).filter (!·.kind.isTrivia)).flatMap tokenReport)
      ∧ (∀ entry ∈ entries, '\n' ∉ entry ∧ ∀ c ∈ entry, isPrintable c)
      ∧ tokensReport d none = .ok (entries.flatMap (· ++ ['\n']))
      ∧ Text.segments (entries.flatMap (· ++ ['\n'])) = entries ++ [[]]
      ∧ ∀ line, d.lineCount ≤ line →
          tokensReport d (some line) = .error (.lineOutside line d.lineCount) := by
  have hentries : ∀ entry ∈ (List.range d.lineCount.toNat).map fun i => lineEntry d (.ofNat i),
      '\n' ∉ entry ∧ ∀ c ∈ entry, isPrintable c := by
    intro entry hentry
    obtain ⟨i, -, rfl⟩ := List.mem_map.1 hentry
    refine ⟨fun hnewline => ?_, fun c => isPrintable_of_mem_lineEntry⟩
    exact Text.not_isPrintable_newline (isPrintable_of_mem_lineEntry hnewline)
  refine ⟨(List.range d.lineCount.toNat).map fun i => lineEntry d (.ofNat i), by simp,
    fun line hline => ?_, hentries, ?_, Text.segments_flatMap fun t ht => (hentries t ht).1,
    fun line hline => if_neg (UInt32.not_lt.2 hline)⟩
  · rw [List.length_map, List.length_range] at hline
    rw [List.getElem_map, List.getElem_range, UInt32.ofNat_toNat]
    exact ⟨if_pos (UInt32.lt_iff_toNat_lt.2 hline), rfl⟩
  · rw [List.flatMap_map]
    rfl

/-- The end of a string that runs over a line, with a carriage return in it. -/
example : lineEntry (.ofText "\"\"\"\n\rx\"\"\"".toList) 1
    = "1: MultilineString@0..5 \"\\rx\\\"\\\"\\\"\"".toList := by
  decide +kernel

end CommandLine

end EditorCore

import EditorCore.Proofs.Document.Tiling
import EditorCore.Proofs.Session.Keys

/-!
# The selections after an edit

A host hands the planned selections back with the next key, so they should
lie within the buffer that the edit has made. Commands compute them from the
lines before the edit, and the lines are as many afterwards and as wide as
the edits account for – with one exception. A carriage return within a line
belongs to it, but one at its end is part of the terminator. When backspace
removes a pair that stood between a carriage return and the end of its line,
the carriage return comes to end the line, which gets one column narrower
than planned, and the cursor is past its end.

So the planned selections are within the buffer, and the next key accepts
them, exactly when no carriage return is exposed that way
(`Session.handleKey_inside_iff`). Only backspace can do it.
-/

namespace EditorCore

namespace Text

/-- **The columns of a text are words**, on every line. -/
def Addressable (t : Text) : Prop := ∀ line ∈ t.lines, line.width < UInt32.size

instance (t : Text) : Decidable t.Addressable :=
  inferInstanceAs (Decidable (∀ line ∈ t.lines, line.width < UInt32.size))

theorem Addressable.width_line_lt {t : Text} (h : t.Addressable) (i : Nat) :
    (t.line i).width < UInt32.size := by
  rw [← getD_lines, List.getD_eq_getElem?_getD]
  cases hline : t.lines[i]? with
  | none => decide
  | some line => exact h line (List.mem_of_getElem? hline)

/-- **Some carriage return comes to end a line** from one text to another: it
was no ending of that line before. -/
def ExposesReturn (t u : Text) : Prop := ∃ i, ReturnExposed t u i

end Text

namespace Document

/-- A position lies within a document when its line is one of those of the text and
its column no further than the width of that line, both counted in words. -/
theorem contains_iff_text {d : Document} {p : Position} :
    d.contains p ↔ p.line < .ofNat d.text.segments.length
      ∧ p.column ≤ .ofNat (d.text.line p.line.toNat).width := by
  rw [contains_iff, lineCount, d.lines_eq, Text.lines, List.length_map, lineLength,
    lineText_eq_line]

/-- A position on a line whose columns are words lies within a document when it lies
within its text. -/
theorem contains_iff_reach_of_width {d : Document} {p : Position}
    (h : (d.text.line p.line.toNat).width < UInt32.size) :
    d.contains p ↔ d.text.Reach [] p := by
  rw [contains_iff_text, UInt32.le_iff_toNat_le, UInt32.toNat_ofNat_of_lt' h]
  exact Iff.rfl

/-- A position lies within a document when it lies within its text. -/
theorem contains_iff_reach {d : Document} (h : d.text.Addressable) {p : Position} :
    d.contains p ↔ d.text.Reach [] p :=
  contains_iff_reach_of_width (h.width_line_lt _)

/-- A position within a document lies within its text, also where columns are
not words. -/
theorem reach_of_contains {d : Document} {p : Position} (h : d.contains p) :
    d.text.Reach [] p := by
  obtain ⟨hline, hcolumn⟩ := contains_iff_text.1 h
  rw [UInt32.le_iff_toNat_le] at hcolumn
  exact ⟨hline, hcolumn.trans (UInt32.toNat_ofNat.trans_le (Nat.mod_le _ _))⟩

end Document

namespace EditPlan

open TextEdit

variable {plan : EditPlan} {t u : Text}

theorem KeepsEndings.marksExposed (h : plan.KeepsEndings t) : plan.MarksExposed t :=
  fun i hreturn hnot => absurd (h i hreturn) hnot

/-- **The planned selections lie within the text after the edits** exactly when
no carriage return has come to end a line. -/
theorem Tracks.reach_iff (h : plan.Tracks t) (hmarks : plan.MarksExposed t)
    (hlen : u.segments.length = t.segments.length)
    (hseg : ∀ i, u.segment i = t.edited i plan.edits) :
    (∀ s ∈ plan.selections, u.Reach [] s.anchor ∧ u.Reach [] s.head)
      ↔ ¬ t.ExposesReturn u := by
  constructor
  · -- the cursor after the carriage return is one column past the line
    rintro hinside ⟨i, hexposed⟩
    have hwidth := Text.width_line_edited h.ascending h.within (hseg i)
    obtain ⟨s, hs, hline, hmark⟩ := hmarks i (hseg i ▸ hexposed.1) hexposed.2
    have hhead := (hinside s hs).2.2
    change _ + 0 ≤ _ + 0 at hhead
    rw [if_pos hexposed] at hwidth
    rw [hline] at hhead
    omega
  · intro hnot
    have hend : ∀ p, t.Reach plan.edits p → u.Reach [] p := by
      rintro p ⟨hline, hcolumn⟩
      have hwidth := Text.width_line_edited h.ascending h.within (hseg p.line.toNat)
      rw [if_neg fun hexposed => hnot ⟨_, hexposed⟩] at hwidth
      refine ⟨hlen ▸ hline, ?_⟩
      show _ + 0 ≤ _ + 0
      omega
    exact fun s hs => (h.reach s hs).imp (hend _) (hend _)

end EditPlan

namespace Session

variable {s : Session} {key : Text} {ss : List Selection} {plan : EditPlan}

/-! ## The next key -/

/-- All ends lie within the buffer when they lie within its text. -/
theorem inside_iff_reach (h : s.source.Addressable) :
    s.Inside ss ↔ ∀ t ∈ ss, s.source.Reach [] t.anchor ∧ s.source.Reach [] t.head :=
  forall₂_congr fun _ _ =>
    and_congr (Document.contains_iff_reach h) (Document.contains_iff_reach h)

/-- The selections that a key acts on lie within the text. -/
theorem reach_normalize (h : s.Inside ss) :
    ∀ t ∈ Selection.normalize ss, s.source.Reach [] t.anchor ∧ s.source.Reach [] t.head :=
  Selection.ends_normalize fun t ht =>
    (h t ht).imp Document.reach_of_contains Document.reach_of_contains

/-- **The keys accept selections within the buffer, and only those.** -/
theorem forall_ne_outOfRange_iff :
    (∀ key p, (s.handleKey key ss).2 ≠ .error (.outOfRange p)) ↔ s.Inside ss := by
  constructor
  · intro hnone
    by_contra hinside
    -- any key with an edit command refuses an end outside
    have hstep := keyStep_handleKey s "Backspace".toList ss
    have hkey : KeyBinding.ofName? "Backspace".toList = some (.edit .backspace) := by decide
    have hne := hnone "Backspace".toList
    generalize s.handleKey "Backspace".toList ss = outcome at hstep hne
    cases hstep with
    | unknown hunknown => exact absurd (hkey.symm.trans hunknown) nofun
    | compiled hcompile => exact absurd (hkey.symm.trans hcompile) (by decide)
    | outside command p => exact hne p rfl
    | passed _ _ hin | overflowed _ _ hin | edited _ _ _ _ hin => exact hinside hin
  · intro hinside key p hout
    have hstep := keyStep_handleKey s key ss
    generalize s.handleKey key ss = outcome at hstep hout
    cases hstep with
    | outside command q _ hfirst => exact not_isFirstOutside hinside q hfirst
    | _ => exact absurd hout nofun

/-- **The planned selections are within the buffer exactly when no carriage
return comes to end a line**, and exactly then every key accepts them. The
buffer has as many lines as before, and where a carriage return does come to
end a line, the key was backspace. -/
theorem handleKey_inside_iff
    (h : (s.handleKey key ss).2 = .ok (.edited plan))
    (hold : s.source.Addressable) (hnew : (s.handleKey key ss).1.source.Addressable) :
    (s.handleKey key ss).1.document.lines.length = s.document.lines.length
    ∧ ((s.handleKey key ss).1.Inside plan.selections
        ↔ ¬ s.source.ExposesReturn (s.handleKey key ss).1.source)
    ∧ ((∀ next p, ((s.handleKey key ss).1.handleKey next plan.selections).2
          ≠ .error (.outOfRange p))
        ↔ ¬ s.source.ExposesReturn (s.handleKey key ss).1.source)
    ∧ (s.source.ExposesReturn (s.handleKey key ss).1.source →
        KeyBinding.ofName? key = some (.edit .backspace)) := by
  rw [forall_ne_outOfRange_iff]
  have hstep := keyStep_handleKey s key ss
  generalize s.handleKey key ss = outcome at hstep h hnew
  cases hstep with
  | edited command plan' text hkey hinside hplan happly =>
    obtain rfl : plan' = plan := KeyResponse.edited.inj (Except.ok.inj h)
    have hsource := source_edited happly
    rw [inside_iff_reach hnew]
    dsimp only at hsource ⊢
    rw [Document.lines_eq, Document.lines_eq, ← source, ← source, hsource]
    obtain ⟨htracks, hends⟩ := EditCommand.tracks_plan (KeyBinding.isPlain_of_ofName? hkey)
      s.document.lineText_eq_line (Selection.pairwise_normalize ss)
      (Selection.ends_normalize ((inside_iff_reach hold).1 hinside)) hplan
    have htext := Except.ok.inj
      ((EditPlan.apply_of_ascending htracks.ascending s.source).symm.trans happly)
    obtain ⟨hlen, hseg⟩ := Text.segment_foldr_replace htracks.ascending htracks.within
    have hiff := htracks.reach_iff (hends.elim EditPlan.KeepsEndings.marksExposed And.right)
      hlen hseg
    change EditPlan.Tracks plan' s.source at htracks
    rw [htext] at hlen hseg hiff
    refine ⟨?_, hiff, hiff, ?_⟩
    · rw [Text.lines, Text.lines, List.length_map, List.length_map]
      exact hlen
    · rintro ⟨i, hexposed⟩
      rcases hends with hkeeps | ⟨rfl, -⟩
      · exact absurd (hkeeps i (hseg i ▸ hexposed.1)) hexposed.2
      · exact hkey
  | _ => cases h

/-- Where the carriage return comes to end the line, the planned cursor is
outside the buffer. -/
theorem handleKey_inside_iff_exposed :
    let pressed := ((new {}).setSource ['a', '\r', '(', ')']).handleKey "Backspace".toList
      [.cursor ⟨0, 3⟩]
    pressed.2 = .ok (.edited ⟨[.delete ⟨0, 2⟩ ⟨0, 4⟩], [.cursor ⟨0, 2⟩]⟩)
    ∧ ¬ pressed.1.Inside [.cursor ⟨0, 2⟩] := by
  have hpressed : (((new {}).setSource ['a', '\r', '(', ')']).handleKey "Backspace".toList
      [.cursor ⟨0, 3⟩]).2 = .ok (.edited ⟨[.delete ⟨0, 2⟩ ⟨0, 4⟩], [.cursor ⟨0, 2⟩]⟩) := by
    decide +kernel
  refine ⟨hpressed, fun hinside => ?_⟩
  refine (handleKey_inside_iff hpressed ?_ ?_).2.1.1 hinside ⟨0, ?_⟩ <;> decide +kernel

/-- **A cursor past the end of its line**: backspace between the parentheses
of a line that reads `a`, a carriage return and an empty pair leaves `a` with
a carriage return that now belongs to the terminator, and the planned cursor
is refused. -/
theorem handleKey_refuses_planned :
    let pressed := ((new {}).setSource ['a', '\r', '(', ')']).handleKey "Backspace".toList
      [.cursor ⟨0, 3⟩]
    pressed.2 = .ok (.edited ⟨[.delete ⟨0, 2⟩ ⟨0, 4⟩], [.cursor ⟨0, 2⟩]⟩)
    ∧ pressed.1.source = ['a', '\r']
    ∧ (pressed.1.handleKey "Backspace".toList [.cursor ⟨0, 2⟩]).2
        = .error (.outOfRange ⟨0, 2⟩) := by
  refine ⟨?_, ?_, ?_⟩ <;> decide +kernel

end Session

end EditorCore

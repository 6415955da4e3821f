import EditorCore.Edit.Command

/-!
# Commands with checked arithmetic

Columns are words, and arithmetic of words wraps around. Indentation checks its sums; the
commands for pairs do not, and here they are told once more with operations that give no
result where one of words would leave them (`Checked.add`, `Checked.sub`), in the order in
which a command computes: a running sum is checked whenever it grows, and so is a sum that
another operation takes back again. What a command computes without such an operation is as
in the command itself.

So a checked command gives a plan exactly if nothing overflows on the way to it. What has
to hold for that is told with the value, for one computation after the other
(`Checked.Computes`).
-/

namespace EditorCore

namespace Checked

/-! ## Operations -/

/-- Adds a width to what a log has for a line. -/
def record (log : ShiftLog) (line width : UInt32) : Option ShiftLog :=
  (add (log.on line) width).map fun _ => (line, width) :: log

variable {a b : UInt32} {log : ShiftLog}

theorem add_eq (h : a.toNat + b.toNat < UInt32.size) : add a b = some (a + b) := if_pos h

theorem sub_eq (h : b ≤ a) : sub a b = some (a - b) := if_pos h

theorem toNat_add (h : a.toNat + b.toNat < UInt32.size) : (a + b).toNat = a.toNat + b.toNat := by
  rw [UInt32.toNat_add]
  exact Nat.mod_eq_of_lt h

theorem record_eq {line width : UInt32} (h : (log.on line).toNat + width.toNat < UInt32.size) :
    record log line width = some ((line, width) :: log) := by
  rw [record, add_eq h]
  rfl

/-- **A computation gives a value exactly if a condition holds.** -/
def Computes {α : Type} (x : Option α) (P : Prop) (a : α) : Prop := ∀ b, x = some b ↔ P ∧ a = b

section

variable {α β : Type} {x : Option α} {P Q : Prop} {a : α} {b : β}

theorem Computes.eq (h : Computes x P a) (hP : P) : x = some a := (h a).2 ⟨hP, rfl⟩

theorem Computes.congr (h : Computes x P a) (hPQ : P ↔ Q) : Computes x Q a :=
  fun b => (h b).trans (and_congr_left' hPQ)

/-- The value is told in another way. -/
theorem Computes.congr_value {a' : α} (h : Computes x P a) (heq : P → a = a') :
    Computes x P a' :=
  fun b => (h b).trans (and_congr_right fun hP => by rw [heq hP])

/-- No value is given exactly if the condition fails. -/
theorem Computes.eq_none_iff (h : Computes x P a) : x = none ↔ ¬ P := by
  rw [Option.eq_none_iff_forall_ne_some]
  constructor
  · exact fun hnone hP => hnone a (h.eq hP)
  · exact fun hP b hb => hP ((h b).1 hb).1

theorem computes_pure (a : α) : Computes (pure a) True a := by
  intro b
  rw [true_and]
  exact Option.some_inj

/-- A computation that gives a value in any case. -/
theorem computes_some (h : x = some a) : Computes x True a := h ▸ computes_pure a

/-- **Computations one after the other**: the second need only be looked at where there
is a first value. -/
theorem Computes.bind {f : α → Option β} (hx : Computes x P a) (hf : P → Computes (f a) Q b) :
    Computes (x >>= f) (P ∧ Q) b := by
  intro c
  rw [Option.bind_eq_bind, Option.bind_eq_some_iff]
  constructor
  · rintro ⟨d, hd, hc⟩
    obtain ⟨hP, rfl⟩ := (hx d).1 hd
    obtain ⟨hQ, rfl⟩ := (hf hP c).1 hc
    exact ⟨⟨hP, hQ⟩, rfl⟩
  · rintro ⟨⟨hP, hQ⟩, rfl⟩
    exact ⟨a, hx.eq hP, (hf hP).eq hQ⟩

/-- The values of a list are computed in turn. -/
theorem computes_mapM {l : List α} {f : α → Option β} {P : α → Prop} {g : α → β}
    (h : ∀ a ∈ l, Computes (f a) (P a) (g a)) :
    Computes (l.mapM f) (∀ a ∈ l, P a) (l.map g) := by
  induction l with
  | nil => exact (computes_pure []).congr (iff_of_true trivial nofun)
  | cons a l ih =>
    obtain ⟨ha, hl⟩ := List.forall_mem_cons.1 h
    rw [List.mapM_cons]
    refine (ha.bind fun _ => (ih hl).bind fun _ => computes_pure (g a :: l.map g)).congr ?_
    rw [and_true, List.forall_mem_cons]

end

theorem computes_add (a b : UInt32) :
    Computes (add a b) (a.toNat + b.toNat < UInt32.size) (a + b) := by
  intro c
  rw [add, Option.ite_none_right_eq_some, Option.some.injEq]

theorem computes_sub (a b : UInt32) : Computes (sub a b) (b ≤ a) (a - b) := by
  intro c
  rw [sub, Option.ite_none_right_eq_some, Option.some.injEq]

/-! ## Pairs -/

/-- Typing a closing character. -/
def closePair (source : TokenSource) (ss : List Selection) (closing : Char) :
    Option KeyOutcome :=
  if ss ≠ [] ∧ ∀ s ∈ ss, s.isEmpty ∧ source.charAfter s.head = some closing then do
    let cursors ← (Selection.sortByStart ss).mapM fun s => do
      let column ← add s.head.column (columnWidth closing)
      return .cursor ⟨s.head.line, column⟩
    return .edit ⟨[], cursors⟩
  else return .pass

/-- The cursors inside pairs inserted at `ps`, which come in order. -/
def pairCursors (opening closing : Char) (log : ShiftLog) :
    List Position → Option (List Selection)
  | [] => return []
  | p :: ps => do
    let moved ← add p.column (log.on p.line)
    let inside ← add moved (columnWidth opening)
    let both ← add (columnWidth opening) (columnWidth closing)
    let log ← record log p.line both
    let cursors ← pairCursors opening closing log ps
    return .cursor ⟨p.line, inside⟩ :: cursors

/-- Inserts a pair at every cursor. -/
def insertPairs (ss : List Selection) (opening closing : Char) : Option EditPlan := do
  let heads := (Selection.sortByStart ss).map (·.head)
  let cursors ← pairCursors opening closing [] heads
  return ⟨heads.map (TextEdit.insert · [opening, closing]), cursors⟩

/-- The selections of the wrapped texts. -/
def wrapped (opening closing : Char) (log : ShiftLog) :
    List Selection → Option (List Selection)
  | [] => return []
  | s :: ss => do
    let opened ← record log s.start.line (columnWidth opening)
    let start ← add s.start.column (opened.on s.start.line)
    let stop ← add s.stop.column (opened.on s.stop.line)
    let closed ← record opened s.stop.line (columnWidth closing)
    let more ← wrapped opening closing closed ss
    return s.withBounds ⟨s.start.line, start⟩ ⟨s.stop.line, stop⟩ :: more

/-- Wraps every selection. -/
def surround (ss : List Selection) (opening closing : Char) : Option EditPlan := do
  let sorted := Selection.sortByStart ss
  let selections ← wrapped opening closing [] sorted
  return ⟨sorted.flatMap fun s => [.insert s.start [opening], .insert s.stop [closing]],
    selections⟩

/-- Typing an opening character. -/
def openPair (source : TokenSource) (ss : List Selection) (opening closing : Char) :
    Option KeyOutcome :=
  if ss = [] then return .pass
  else if closing = '"' ∧ ∃ s ∈ ss, s.isEmpty ∧ source.inLiteral s.head then
    closePair source ss closing
  else if ∀ s ∈ ss, s.isEmpty ∧ source.pairable s.head then
    return .edit (← insertPairs ss opening closing)
  else if ∀ s ∈ ss, ¬ s.isEmpty then return .edit (← surround ss opening closing)
  else if opening = closing then closePair source ss closing
  else return .pass

/-- All selections are cursors inside empty pairs. They are looked at in turn, up to the
first that is not. -/
def allInEmptyPair (source : TokenSource) : List Selection → Option Bool
  | [] => return true
  | s :: ss =>
    if s.isEmpty ∧ s.head.column ≠ 0 then do
      let start ← sub s.head.column 1
      let stop ← add s.head.column 1
      if emptyPairs.contains ((source.lineText s.head.line).slice start.toNat stop.toNat) then
        allInEmptyPair source ss
      else return false
    else return false

/-- The removals of pairs and the cursors they leave. A pair that starts before the end
of the last one removed is left to it. -/
def removals (last : Option Position) (log : ShiftLog) :
    List Position → Option (List TextEdit × List Selection)
  | [] => return ([], [])
  | p :: ps => do
    let start ← sub p.column 1
    if last.any fun stop => (⟨p.line, start⟩ : Position) < stop then removals last log ps
    else
      let stop ← add p.column 1
      let column ← sub start (log.on p.line)
      let log ← record log p.line 2
      let (edits, cursors) ← removals (some ⟨p.line, stop⟩) log ps
      return (.delete ⟨p.line, start⟩ ⟨p.line, stop⟩ :: edits, .cursor ⟨p.line, column⟩ :: cursors)

/-- Backspace inside empty pairs. -/
def backspace (source : TokenSource) (ss : List Selection) : Option KeyOutcome :=
  if ss = [] then return .pass
  else do
    if ← allInEmptyPair source ss then
      let (edits, cursors) ← removals none [] ((Selection.sortByStart ss).map (·.head))
      return .edit ⟨edits, cursors⟩
    else return .pass

/-! ## Commands -/

/-- **Plans a command** for the selections, unless a word overflows. -/
def plan (command : EditCommand) (source : TokenSource) (ss : List Selection)
    (settings : IndentSettings) : Option KeyOutcome :=
  match command with
  | .openPair opening closing => openPair source ss opening closing
  | .closePair closing => closePair source ss closing
  | .indent direction => EditorCore.indent source ss settings direction
  | .backspace => backspace source ss

end Checked

end EditorCore

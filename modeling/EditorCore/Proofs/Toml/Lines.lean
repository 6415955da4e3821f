import EditorCore.Proofs.Text.Search
import EditorCore.Toml.Parse

/-!
# Reading TOML line by line

A document may be read a line at a time where no array or inline table stays
open at the end of one. A text of such lines **adds** its statements to those
before it, whatever follows (`Toml.Adds`), and two texts one after the other add
the statements of the first and then those of the second. So a document is read
back once its lines are: an empty one, a header, and an assignment of a value
that one token spells.
-/

namespace EditorCore

/-! ## Tokens -/

namespace TomlToken

variable {token : TomlToken} {rest t : Text}

/-- A token and what follows it. -/
theorem ofText?_cons_append {c : Char} {s : Text}
    (h : scan? c (s ++ rest) = some (some token, s.length)) :
    ofText? (c :: (s ++ rest)) = (ofText? rest).map (token :: ·) := by
  rw [ofText?, h]
  dsimp only
  rw [List.drop_left]
  rfl

/-- Blanks end atoms. -/
theorem not_isBlankChar {c : Char} (h : endsAtom c = false) : isBlankChar c = false := by
  rw [Bool.eq_false_iff]
  intro hblank
  simp only [isBlankChar, Bool.or_eq_true, beq_iff_eq] at hblank
  rcases hblank with rfl | rfl <;> exact absurd h (by decide)

/-- A character that ends no atom starts one. -/
theorem scan?_of_not_endsAtom {c : Char} (h : endsAtom c = false) (t : Text) :
    scan? c t = some (some (atom (c :: t.takeWhile (!endsAtom ·))),
      (t.takeWhile (!endsAtom ·)).length) := by
  unfold scan?
  split
  case h_13 => rw [if_neg (by rw [not_isBlankChar h]; exact Bool.false_ne_true)]
  all_goals exact absurd h (by decide)

/-- **An atom is read back** where what follows ends it. -/
theorem ofText?_atom (hne : t ≠ []) (ht : ∀ c ∈ t, endsAtom c = false)
    (hrest : ∀ c ∈ rest.head?, endsAtom c) :
    ofText? (t ++ rest) = (ofText? rest).map (atom t :: ·) := by
  obtain ⟨c, s, rfl⟩ := List.exists_cons_of_ne_nil hne
  obtain ⟨hc, hs⟩ := List.forall_mem_cons.1 ht
  have htake : (s ++ rest).takeWhile (!endsAtom ·) = s :=
    Text.takeWhile_append_of_head? (fun c hmem => by rw [hs c hmem]; rfl)
      fun c hmem => by rw [hrest c hmem]; rfl
  rw [List.cons_append]
  refine ofText?_cons_append ?_
  rw [scan?_of_not_endsAtom hc, htake]

/-- **A single space is read back** where no other blank follows. -/
theorem ofText?_space (hrest : ∀ c ∈ rest.head?, isBlankChar c = false) :
    ofText? (' ' :: rest) = (ofText? rest).map (blanks [' '] :: ·) := by
  have htake : rest.takeWhile isBlankChar = [] :=
    Text.takeWhile_append_of_head? (s := []) nofun hrest
  refine ofText?_cons_append (s := []) ?_
  show some (some (blanks (' ' :: rest.takeWhile isBlankChar)), (rest.takeWhile isBlankChar).length)
    = _
  rw [htake]

/-- A string ends at its closing quote. -/
theorem basic?_append {s : Text} (hs : ∀ c ∈ s, isPlain c ∧ c ≠ '"' ∧ c ≠ '\\') :
    basic? (s ++ '"' :: rest) = some (s, s.length + 1) := by
  induction s with
  | nil => rw [List.nil_append, basic?]; rfl
  | cons c s ih =>
    obtain ⟨⟨hplain, hquote, hbackslash⟩, hs⟩ := List.forall_mem_cons.1 hs
    rw [List.cons_append, basic?.eq_4 _ _ hquote hbackslash, if_pos hplain, ih hs]
    rfl

/-- A string that does not start with three quotes is on one line. -/
theorem string?_eq_single {quote : Char} (h : ∀ body, t ≠ quote :: quote :: body) :
    string? quote t = string?.single quote t := by
  unfold string?
  split
  · rw [if_neg]
    rintro ⟨rfl, rfl⟩
    exact h _ rfl
  · rfl

/-- **A string without escapes is read back.** -/
theorem ofText?_string {s : Text} (hs : ∀ c ∈ s, isPlain c ∧ c ≠ '"' ∧ c ≠ '\\')
    (hrest : rest.head? ≠ some '"') :
    ofText? ('"' :: (s ++ '"' :: rest)) = (ofText? rest).map (string false s :: ·) := by
  have hstring : string? '"' (s ++ '"' :: rest) = some (string false s, s.length + 1) := by
    rw [string?_eq_single, string?.single, if_pos rfl, basic?_append hs, Option.map_some]
    intro body hbody
    cases s with
    | nil => exact hrest (congrArg List.head? (List.cons.inj hbody).2)
    | cons c s => exact (hs c List.mem_cons_self).2.1 (List.cons.inj hbody).1
  rw [List.append_cons]
  refine ofText?_cons_append ?_
  rw [← List.append_cons, scan?, hstring, List.length_append]
  rfl

end TomlToken

namespace Toml

open TomlToken (endsAtom isBlankChar isPlain)

variable {name text : Text} {v : Toml}

/-! ## Reading a text from a state on -/

/-- Reads a text in a state. -/
def readFrom (r : Reading) (t : Text) : Option Reading :=
  (TomlToken.ofText? t).bind (·.foldlM Reading.step? r)

/-- Reading goes on behind a token that the state takes. -/
theorem readFrom_eq {token : TomlToken} {t rest : Text} {r r' : Reading}
    (h : TomlToken.ofText? t = (TomlToken.ofText? rest).map (token :: ·))
    (hstep : r.step? token = some r') : readFrom r t = readFrom r' rest := by
  unfold readFrom
  rw [h]
  cases TomlToken.ofText? rest with
  | none => rfl
  | some ts =>
    rw [Option.map_some, Option.bind_some, Option.bind_some, List.foldlM_cons, hstep]
    rfl

/-- A token of one character. -/
theorem readFrom_symbol {c : Char} {token : TomlToken} {rest : Text} {r r' : Reading}
    (h : TomlToken.scan? c rest = some (some token, 0)) (hstep : r.step? token = some r') :
    readFrom r (c :: rest) = readFrom r' rest :=
  readFrom_eq (TomlToken.ofText?_cons_append (s := []) h) hstep

/-- **A document of which some statements have been read**, up to the end of a
line. -/
def Reading.ready (statements : List TomlStatement) (path : List Text) : Reading :=
  ⟨statements, path, [], .statement⟩

/-! ## Lines -/

/-- **A text adds statements** to those before it, whatever follows. -/
def Adds (text : Text) (statements : List TomlStatement) : Prop :=
  ∀ before path rest, ∃ path', readFrom (.ready before path) (text ++ rest)
    = readFrom (.ready (before ++ statements) path') rest

theorem Adds.append {s t : Text} {ss ts : List TomlStatement} (hs : Adds s ss) (ht : Adds t ts) :
    Adds (s ++ t) (ss ++ ts) := by
  intro before path rest
  obtain ⟨path', hs⟩ := hs before path (t ++ rest)
  obtain ⟨path'', ht⟩ := ht (before ++ ss) path' rest
  refine ⟨path'', ?_⟩
  rw [List.append_assoc, hs, ht, List.append_assoc]

/-- An empty line adds nothing. -/
theorem adds_newline : Adds ['\n'] [] := by
  intro before path rest
  refine ⟨path, ?_⟩
  rw [List.append_nil]
  exact readFrom_symbol rfl rfl

/-- **A bare key** needs no quotes. -/
def BareKey (name : Text) : Prop :=
  name ≠ [] ∧ name.all fun c => c.isAlphanum || c == '_' || c == '-'

instance : DecidablePred BareKey := fun _ => inferInstanceAs (Decidable (_ ∧ _))

theorem BareKey.not_endsAtom (h : BareKey name) : ∀ c ∈ name, endsAtom c = false := by
  intro c hc
  have hbare := List.all_eq_true.1 h.2 c hc
  rw [Bool.eq_false_iff]
  intro hends
  rw [endsAtom, List.contains_iff_mem] at hends
  fin_cases hends <;> exact absurd hbare (by decide)

/-- A bare key is taken as the first segment of a key. -/
theorem BareKey.segment? (h : BareKey name) (r : Reading) (use : KeyUse) :
    r.segment? use [] (.atom name) = some (r.expect (.afterSegment use [name])) :=
  if_pos h.2

/-- A bare key is read up to what ends it. -/
theorem BareKey.readFrom_eq (h : BareKey name) {rest : Text} {r r' : Reading}
    (hrest : ∀ c ∈ rest.head?, endsAtom c) (hstep : r.step? (.atom name) = some r') :
    readFrom r (name ++ rest) = readFrom r' rest :=
  Toml.readFrom_eq (TomlToken.ofText?_atom h.1 h.not_endsAtom hrest) hstep

/-- **A header** adds itself. -/
theorem adds_header (h : BareKey name) :
    Adds ('[' :: name ++ [']', '\n']) [.header false [name]] := by
  intro before path rest
  have hends : ∀ c ∈ List.head? (']' :: '\n' :: rest), endsAtom c := by
    rintro c ⟨⟩
    rfl
  refine ⟨path, ?_⟩
  rw [List.cons_append, List.cons_append, List.append_assoc]
  calc readFrom (.ready before path) ('[' :: (name ++ ']' :: '\n' :: rest))
    _ = readFrom ⟨before, path, [], .bracket⟩ (name ++ ']' :: '\n' :: rest) :=
      readFrom_symbol rfl rfl
    _ = readFrom ⟨before, path, [], .afterSegment .header [name]⟩ (']' :: '\n' :: rest) :=
      h.readFrom_eq hends (h.segment? _ .header)
    _ = readFrom ⟨before ++ [.header false [name]], path, [], .lineEnd⟩ ('\n' :: rest) :=
      readFrom_symbol rfl rfl
    _ = readFrom (.ready (before ++ [.header false [name]]) path) rest := readFrom_symbol rfl rfl

/-! ## Values -/

/-- **A text spells a value**: read where the value of an assignment is expected,
and up to the end of the line, it completes the assignment. -/
structure Spells (text : Text) (v : Toml) : Prop where
  not_blank : ∀ rest, ∀ c ∈ (text ++ '\n' :: rest).head?, isBlankChar c = false
  readFrom_eq : ∀ before path rest,
    readFrom ⟨before, path, [], .value⟩ (text ++ '\n' :: rest)
      = readFrom (.ready (before ++ [.assignment path v]) path) rest

/-- A scalar is spelled without quotes. -/
theorem spells_scalar (hne : text ≠ []) (htext : ∀ c ∈ text, endsAtom c = false)
    (hv : scalar? text = some v) : Spells text v where
  not_blank rest c hc := by
    rw [List.head?_append_of_ne_nil _ hne] at hc
    exact TomlToken.not_isBlankChar (htext c (List.mem_of_mem_head? hc))
  readFrom_eq before path rest := by
    have hends : ∀ c ∈ List.head? ('\n' :: rest), endsAtom c := by
      rintro c ⟨⟩
      rfl
    have hstep : Reading.step? ⟨before, path, [], .scalar text⟩ .newline
        = some (.ready (before ++ [.assignment path v]) path) := by
      show (Reading.scalarEnd? _ text).bind _ = _
      rw [Reading.scalarEnd?, hv]
      rfl
    calc readFrom ⟨before, path, [], .value⟩ (text ++ '\n' :: rest)
      _ = readFrom ⟨before, path, [], .scalar text⟩ ('\n' :: rest) :=
        Toml.readFrom_eq (TomlToken.ofText?_atom hne htext hends) rfl
      _ = readFrom (.ready (before ++ [.assignment path v]) path) rest :=
        readFrom_symbol rfl hstep

/-- A string is spelled between quotes where nothing in it needs an escape. -/
theorem spells_string (h : ∀ c ∈ text, isPlain c ∧ c ≠ '"' ∧ c ≠ '\\') :
    Spells (['"'] ++ text ++ ['"']) (.string text) where
  not_blank rest c hc := by
    obtain rfl : '"' = c := Option.some.inj hc
    rfl
  readFrom_eq before path rest := by
    have hquote : List.head? ('\n' :: rest) ≠ some '"' := by
      rintro ⟨⟩
    rw [List.append_assoc, List.append_assoc]
    calc readFrom ⟨before, path, [], .value⟩ ('"' :: (text ++ '"' :: '\n' :: rest))
      _ = readFrom ⟨before ++ [.assignment path (.string text)], path, [], .lineEnd⟩
          ('\n' :: rest) := Toml.readFrom_eq (TomlToken.ofText?_string h hquote) rfl
      _ = readFrom (.ready (before ++ [.assignment path (.string text)]) path) rest :=
        readFrom_symbol rfl rfl

/-- **An assignment** adds itself. -/
theorem adds_assignment (h : BareKey name) (hv : Spells text v) :
    Adds (name ++ [' ', '=', ' '] ++ text ++ ['\n']) [.assignment [name] v] := by
  intro before path rest
  have hends : ∀ c ∈ List.head? (' ' :: '=' :: ' ' :: (text ++ '\n' :: rest)), endsAtom c := by
    rintro c ⟨⟩
    rfl
  have hequals : ∀ c ∈ List.head? ('=' :: ' ' :: (text ++ '\n' :: rest)), isBlankChar c = false := by
    rintro c ⟨⟩
    rfl
  refine ⟨[name], ?_⟩
  rw [List.append_assoc, List.append_assoc, List.append_assoc]
  calc readFrom (.ready before path) (name ++ ' ' :: '=' :: ' ' :: (text ++ '\n' :: rest))
    _ = readFrom ⟨before, path, [], .afterSegment .assignment [name]⟩
        (' ' :: '=' :: ' ' :: (text ++ '\n' :: rest)) :=
      h.readFrom_eq hends (h.segment? _ .assignment)
    _ = readFrom ⟨before, path, [], .afterSegment .assignment [name]⟩
        ('=' :: ' ' :: (text ++ '\n' :: rest)) :=
      readFrom_eq (TomlToken.ofText?_space hequals) rfl
    _ = readFrom ⟨before, [name], [], .value⟩ (' ' :: (text ++ '\n' :: rest)) :=
      readFrom_symbol rfl rfl
    _ = readFrom ⟨before, [name], [], .value⟩ (text ++ '\n' :: rest) :=
      readFrom_eq (TomlToken.ofText?_space (hv.not_blank rest)) rfl
    _ = readFrom (.ready (before ++ [.assignment [name] v]) [name]) rest :=
      hv.readFrom_eq before [name] rest

/-! ## Documents -/

/-- **The document of the statements that a text adds.** -/
theorem Adds.ofText?_eq {statements : List TomlStatement} (h : Adds text statements)
    (hmark : text.head? ≠ some '\ufeff') : ofText? text = ofStatements? statements := by
  have hdrop : dropMark text = text := dropMark.eq_2 _ fun t ht => hmark (congrArg List.head? ht)
  have hread : ofText? text
      = ((readFrom .start text).bind Reading.finish?).bind ofStatements? := by
    simp only [ofText?, hdrop, readFrom, Option.bind_eq_bind, Option.bind_assoc]
  obtain ⟨path, hpath⟩ := h [] [] []
  rw [List.append_nil, List.nil_append, readFrom.eq_1 _ [], TomlToken.ofText?] at hpath
  rw [hread]
  exact congrArg (fun r : Option Reading => (r.bind Reading.finish?).bind ofStatements?) hpath

end Toml

end EditorCore

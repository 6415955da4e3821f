import EditorCore.Token.Scan

/-!
# The lexer

A source text is a sequence of **lexemes**, each a kind with its own text,
and nothing of the source is left out: white space, comments and unknown
characters are lexemes too. Cutting is by longest match, one scan after
the other, with one exception. A number takes a point after its digits
even when no digit follows, as in a range that is still being typed; such
a number is parted into the digits and a dot, so that no number ends in
one.
-/

namespace EditorCore

/-- A kind of token and the characters it was read from. -/
structure Lexeme where
  kind : TokenKind
  text : Text
  deriving DecidableEq, Repr

namespace Lexeme

/-- **The longest matches** of a source, in order. -/
def scan : Text → List Lexeme
  | [] => []
  | c :: t =>
    let (kind, n) := Scan.token c t
    ⟨kind, c :: t.take n⟩ :: scan (t.drop n)
termination_by t => t.length
decreasing_by simp only [List.length_drop, List.length_cons]; omega

/-- Parts a number from the point that ends it. -/
def splitPoint (l : Lexeme) : List Lexeme :=
  if l.kind = .number ∧ l.text.getLast? = some '.' then
    [⟨.number, l.text.dropLast⟩, ⟨.operator, ['.']⟩]
  else [l]

/-- **The lexemes of a source.** -/
def ofSource (source : Text) : List Lexeme := (scan source).flatMap splitPoint

/-- The characters of a sequence of lexemes. -/
def texts (ls : List Lexeme) : Text := ls.flatMap text

/-! ## Nothing is lost -/

@[simp] theorem texts_nil : texts [] = [] := rfl

@[simp] theorem texts_cons (l : Lexeme) (ls : List Lexeme) :
    texts (l :: ls) = l.text ++ texts ls := by simp [texts]

@[simp] theorem texts_append (ls ms : List Lexeme) :
    texts (ls ++ ms) = texts ls ++ texts ms := by simp [texts]

theorem texts_scan (source : Text) : texts (scan source) = source := by
  fun_induction scan source with
  | case1 => rfl
  | case2 c t kind n _ ih => simp [ih]

theorem texts_splitPoint (l : Lexeme) : texts l.splitPoint = l.text := by
  unfold splitPoint
  split
  · rename_i h
    obtain ⟨s, hs⟩ := List.getLast?_eq_some_iff.1 h.2
    simp [hs]
  · simp

theorem texts_flatMap_splitPoint (ls : List Lexeme) :
    texts (ls.flatMap splitPoint) = texts ls := by
  induction ls with
  | nil => rfl
  | cons l ls ih => simp [texts_splitPoint, ih]

/-- **Lexing loses nothing**: the lexemes spell the source. -/
theorem texts_ofSource (source : Text) : texts (ofSource source) = source := by
  rw [ofSource, texts_flatMap_splitPoint, texts_scan]

end Lexeme

/-- **A token**: a lexeme and the byte of the source it starts at. -/
structure Token extends Lexeme where
  start : Nat
  deriving DecidableEq, Repr

namespace Token

/-- The number of bytes a token takes. -/
def size (t : Token) : Nat := Text.byteSize t.text

/-- The byte after a token. -/
def stop (t : Token) : Nat := t.start + t.size

/-- Lays lexemes one after the other, the first at byte `start`. -/
def place (start : Nat) : List Lexeme → List Token
  | [] => []
  | l :: ls => ⟨l, start⟩ :: place (start + Text.byteSize l.text) ls

/-- **The tokens of a source.** -/
def ofSource (source : Text) : List Token := place 0 (Lexeme.ofSource source)

end Token

end EditorCore

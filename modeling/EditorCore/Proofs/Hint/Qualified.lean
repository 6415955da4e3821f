import EditorCore.Proofs.Hint.ByIndex
import EditorCore.Proofs.Token.Names

/-!
# Hints for qualified names

A qualified name at the start of a line has one hint, and it is the name: a
cursor within it, at whichever segment or dot, has the whole name as its hint
(`Document.resolve?_qualifiedName`).

From a segment the left walk collects what comes before it and the right walk
what comes after it, so the two meet in the name (`LineToken.InName`). That is
an induction on the name, in which a step moves an upper-case segment and its
dot across: what holds of a segment of the rest of the name holds of it in the
whole. A dot has the hint of the segment after it, which every dot of a name
has.

Before the name there are only blanks, which are no dot, and so the left walk
ends there; after it comes what does not go on with it.
-/

namespace EditorCore

/-! ## The first line -/

namespace Text

/-- A first line starts with what comes before the first line feed. -/
theorem line_zero_append {s : Text} (hs : '\n' ∉ s) (hlast : s.getLast? ≠ some '\r') (t : Text) :
    (s ++ t).line 0 = s ++ t.line 0 := by
  obtain ⟨g, gs, hg⟩ := List.exists_cons_of_ne_nil (segments_ne_nil t)
  rw [line, segment, segments_append_of_not_mem hs, line, segment, hg]
  exact dropReturn_append (.inr hlast)

end Text

namespace Lexeme

/-- Lexemes that are not empty are all there up to where they end. -/
theorem cut_zero_of_le {n : Nat} {ls : List Lexeme} (hne : ∀ l ∈ ls, l.text ≠ [])
    (h : (texts ls).length ≤ n) : cut 0 n ls = ls := by
  induction ls generalizing n with
  | nil => rfl
  | cons l ls ih =>
    obtain ⟨hl, hls⟩ := List.forall_mem_cons.1 hne
    rw [texts_cons, List.length_append] at h
    rw [cut, List.take_of_length_le (by omega), List.drop_zero, piece_of_ne_nil l.kind hl,
      Nat.zero_sub, ih hls (by omega)]
    rfl

/-- What is cut from a text that starts with no dot does not start with one. -/
theorem text_ne_dot_of_head?_cut {n : Nat} {ls : List Lexeme} {l : Lexeme}
    (h : ∀ c ∈ (texts ls).head?, c ≠ '.') (hl : l ∈ (cut 0 n ls).head?) : l.text ≠ ['.'] := by
  intro hdot
  obtain ⟨ms, hms⟩ := List.head?_eq_some_iff.1 hl
  have htexts := texts_cut 0 n ls
  rw [hms, texts_cons, hdot, List.drop_zero] at htexts
  obtain ⟨rest, hrest⟩ := List.take_prefix n (texts ls)
  rw [← htexts] at hrest
  exact h '.' (congrArg List.head? hrest.symm) rfl

/-- **A column within a row** is at one of its tokens, after where that starts
and not after where it stops. -/
theorem exists_reaching {start : Nat} {ls : List Lexeme} {column : UInt32}
    (hsize : start + (texts ls).width < UInt32.size) (hstart : start < column.toNat)
    (hstop : column.toNat ≤ start + (texts ls).width) :
    ∃ before t after, placeRow start ls = before ++ t :: after
      ∧ t.start < column ∧ column ≤ t.stop := by
  induction ls generalizing start with
  | nil => exact absurd hstop (Nat.not_le.2 hstart)
  | cons l ls ih =>
    rw [texts_cons, Text.width_append, ← Nat.add_assoc] at hsize hstop
    rcases Nat.lt_or_ge (start + l.text.width) column.toNat with hlt | hle
    · obtain ⟨before, t, after, hrow, ht⟩ := ih hsize hlt hstop
      exact ⟨_ :: before, t, after, congrArg (List.cons _) hrow, ht⟩
    · refine ⟨[], _, _, rfl, ?_, ?_⟩
      · rw [UInt32.lt_iff_toNat_lt, UInt32.toNat_ofNat_of_lt' (by omega)]
        exact hstart
      · rw [UInt32.le_iff_toNat_le, UInt32.toNat_ofNat_of_lt' (by omega)]
        exact hle

end Lexeme

namespace LineToken

/-! ## The tokens of a name -/

/-- A dot between names, as the lexer reads it. -/
def IsDot (t : LineToken) : Prop := t.text = ['.'] ∧ t.category = .keyword

/-- **The tokens of a name**: upper-case segments with a dot after each, and a
last segment of either case. -/
inductive IsName : List LineToken → Prop
  | upper {t : LineToken} (ht : t.category = .upperIdentifier) : IsName [t]
  | lower {t : LineToken} (ht : t.category = .lowerIdentifier) : IsName [t]
  | within {u dot : LineToken} {ts : List LineToken} (hu : u.category = .upperIdentifier)
      (hdot : dot.IsDot) (h : IsName ts) : IsName (u :: dot :: ts)

variable {left right before after ts : List LineToken} {t u dot : LineToken}

/-- **The tokens of a qualified name are those of a name.** -/
theorem isName_placeRow (column : Nat) (q : QualifiedName) :
    IsName (Lexeme.placeRow column q.lexemes) := by
  induction q generalizing column with
  | upper u => exact .upper rfl
  | lower u l => exact .within rfl ⟨rfl, rfl⟩ (.lower rfl)
  | within u q ih => exact .within rfl ⟨rfl, rfl⟩ (ih _)

/-- The tokens of a row spell what its lexemes do. -/
theorem spelling_placeRow (column : Nat) (ls : List Lexeme) :
    spelling (Lexeme.placeRow column ls) = Lexeme.texts ls := by
  have h := congrArg Lexeme.texts (Lexeme.map_lexeme_placeRow column ls)
  rwa [Lexeme.texts, List.flatMap_map] at h

/-- Tokens do not go on with a name. -/
def EndsName (right : List LineToken) : Prop := ∀ u ∈ right.head?, u.text ≠ ['.']

theorem endsName_placeRow {column : Nat} {ls : List Lexeme} (h : ∀ l ∈ ls.head?, l.text ≠ ['.']) :
    EndsName (Lexeme.placeRow column ls) := by
  cases ls with
  | nil => exact nofun
  | cons l ls =>
    rintro u hu
    obtain rfl := Option.some.inj hu
    exact h l rfl

/-- Where a name does not go on there is no rest of it. -/
theorem pathAfter_of_endsName (h : EndsName right) : pathAfter right = [] := by
  match right with
  | [] => rfl
  | [dot] => exact if_neg (h dot rfl)
  | dot :: u :: right =>
    rw [pathAfter_cons_cons]
    exact if_neg (h dot rfl)

/-- The spelling of a dot and what follows it. -/
theorem spelling_dot_cons (hdot : dot.IsDot) (ts : List LineToken) :
    spelling (dot :: ts) = '.' :: spelling ts := by
  rw [spelling, List.flatMap_cons, hdot.1]
  rfl

/-- **The right walk collects a whole name after a dot.** -/
theorem IsName.pathAfter (h : IsName ts) (hdot : dot.IsDot) (hright : EndsName right) :
    pathAfter (dot :: ts ++ right) = spelling (dot :: ts) := by
  induction h generalizing dot with
  | @upper u hu =>
    show LineToken.pathAfter (dot :: u :: right) = _
    rw [pathAfter_cons_cons, if_pos hdot.1, if_pos hu, pathAfter_of_endsName hright,
      spelling_dot_cons hdot, spelling, List.flatMap_singleton, List.append_nil]
  | @lower t ht =>
    show LineToken.pathAfter (dot :: t :: right) = _
    rw [pathAfter_cons_cons, if_pos hdot.1, if_neg (by rw [ht]; decide), if_pos ht,
      spelling_dot_cons hdot, spelling, List.flatMap_singleton]
  | @within u dot' ts hu hdot' h ih =>
    show LineToken.pathAfter (dot :: u :: (dot' :: ts ++ right)) = _
    rw [pathAfter_cons_cons, if_pos hdot.1, if_pos hu, ih hdot', spelling_dot_cons hdot]
    rfl

/-- **A segment in a name**: the left walk collects what comes before it, and
from an upper-case segment the right walk collects what comes after it; a
lower-case one is the last. -/
structure InName (before : List LineToken) (t : LineToken) (after : List LineToken) : Prop where
  path : ∀ left, pathBefore (before.reverse ++ left) = pathBefore left ++ spelling before
  rest : t.category = .upperIdentifier ∧
      (∀ right, EndsName right → LineToken.pathAfter (after ++ right) = spelling after)
    ∨ t.category = .lowerIdentifier ∧ after = []

/-- The first segment of a name. -/
theorem IsName.first (h : IsName (t :: after)) : InName [] t after := by
  refine ⟨fun left => (List.append_nil _).symm, ?_⟩
  cases h with
  | upper ht => exact .inl ⟨ht, fun right hright => pathAfter_of_endsName hright⟩
  | lower ht => exact .inr ⟨ht, rfl⟩
  | within ht hdot h => exact .inl ⟨ht, fun right hright => h.pathAfter hdot hright⟩

/-- A segment of the rest of a name is one of the name. -/
theorem InName.within (hu : u.category = .upperIdentifier) (hdot : dot.IsDot)
    (h : InName before t after) : InName (u :: dot :: before) t after := by
  refine ⟨fun left => ?_, h.rest⟩
  have hrest := h.path (dot :: u :: left)
  have hspelling : spelling (u :: dot :: before) = u.text ++ '.' :: spelling before := by
    rw [← spelling_dot_cons hdot]
    rfl
  rw [pathBefore_cons_cons, if_pos ⟨hdot.1, hu⟩] at hrest
  rw [List.reverse_cons, List.reverse_cons, List.append_assoc, List.append_assoc, hspelling]
  simpa only [List.append_assoc, List.singleton_append] using hrest

/-- **Every token of a name is a segment, or a dot before one.** -/
theorem IsName.at : ∀ {before : List LineToken}, IsName (before ++ t :: after) →
    InName before t after
      ∨ t.IsDot ∧ ∃ u after', after = u :: after' ∧ InName (before ++ [t]) u after'
  | [], h => .inl h.first
  | [u], h => by
    have h' : IsName (u :: t :: after) := h
    cases h' with
    | within hu hdot hrest =>
      cases after with
      | nil => exact absurd hrest nofun
      | cons v after => exact .inr ⟨hdot, v, after, rfl, hrest.first.within hu hdot⟩
  | u :: dot :: before, h => by
    have h' : IsName (u :: dot :: (before ++ t :: after)) := h
    cases h' with
    | within hu hdot hrest =>
      rcases hrest.at with hname | ⟨ht, v, after', rfl, hname⟩
      · exact .inl (hname.within hu hdot)
      · exact .inr ⟨ht, v, after', rfl, hname.within hu hdot⟩

end LineToken

namespace Document

open LineToken (IsName InName EndsName IsDot spelling pathBefore getElem?_length)

variable {d : Document} {boundary : ImportBoundary} {line : UInt32}
  {left right before after ts : List LineToken} {t : LineToken}

/-! ## The hint of a name -/

/-- **A segment of a name has the name as its hint**, unless it names the
module of an import. -/
theorem nameByIndex_of_inName (h : InName before t after) (hleft : pathBefore left.reverse = [])
    (hright : EndsName right) (hmodule : ¬ (d.lineText line).NamesModule t.stop)
    (hts : d.lineTokens line = left ++ before ++ t :: (after ++ right)) :
    d.nameByIndex boundary line (left ++ before).length
      = some (spelling (before ++ t :: after)) := by
  have hdrop : (left ++ before ++ t :: (after ++ right)).drop ((left ++ before).length + 1)
      = after ++ right := by
    rw [List.append_cons]
    exact List.drop_left' List.length_append
  have hpath : pathBefore (left ++ before).reverse = spelling before := by
    rw [List.reverse_append, h.path, hleft, List.nil_append]
  have hspelling : spelling (before ++ t :: after)
      = spelling before ++ t.text ++ spelling after := by
    rw [spelling, List.flatMap_append, List.flatMap_cons, List.append_assoc]
    rfl
  unfold nameByIndex
  dsimp only
  rw [hts, getElem?_length, Option.bind_some, List.take_left, hdrop, hpath, hspelling]
  rcases h.rest with ⟨hupper, hafter⟩ | ⟨hlower, rfl⟩
  · rw [hupper, hafter right hright]
    dsimp only
    rw [if_neg fun hboth => hmodule hboth.2]
  · rw [hlower]
    exact congrArg some (List.append_nil _).symm

/-- **Every token of a name has the name as its hint.** -/
theorem tokenHintByIndex_of_isName (h : IsName (before ++ t :: after))
    (hleft : pathBefore left.reverse = []) (hright : EndsName right)
    (hmodule : ∀ stop, ¬ (d.lineText line).NamesModule stop)
    (hts : d.lineTokens line = left ++ before ++ t :: (after ++ right)) :
    d.tokenHintByIndex boundary line (left ++ before).length
      = some (spelling (before ++ t :: after)) := by
  unfold tokenHintByIndex
  rw [hts, getElem?_length, Option.bind_some]
  rcases h.at with hname | ⟨hdot, u, after, rfl, hname⟩
  · have hkeyword : t.category ≠ .keyword := by
      rcases hname.rest with ⟨hcategory, -⟩ | ⟨hcategory, -⟩ <;> rw [hcategory] <;> decide
    rw [if_neg hkeyword, nameByIndex_of_inName hname hleft hright (hmodule _) hts]
  · have hts' : d.lineTokens line = left ++ (before ++ [t]) ++ u :: (after ++ right) := by
      rw [hts]
      simp only [List.append_assoc, List.cons_append, List.nil_append]
    have hlength : (left ++ (before ++ [t])).length = (left ++ before).length + 1 := by
      rw [← List.append_assoc]
      exact List.length_append
    rw [if_pos hdot.2, if_pos hdot.1, ← hlength,
      nameByIndex_of_inName hname hleft hright (hmodule _) hts', List.append_assoc]
    rfl

/-! ## The line of a name -/

variable (k : Nat) (q : QualifiedName) (tail : Text)

theorem width_replicate_blank : Text.width (List.replicate k ' ') = k := by
  rw [Text.width_eq_length, List.length_replicate]
  intro c hc
  rw [List.eq_of_mem_replicate hc]
  rfl

/-- The text of a line that starts with blanks and a qualified name. -/
theorem lineText_name :
    (ofText (List.replicate k ' ' ++ q.text ++ tail)).lineText 0
      = List.replicate k ' ' ++ q.text ++ tail.line 0 := by
  have hall : ∀ c ∈ List.replicate k ' ' ++ q.text, c = ' ' ∨ isNameChar c ∨ c = '.' :=
    List.forall_mem_append.2 ⟨fun c hc => .inl (List.eq_of_mem_replicate hc),
      fun c hc => .inr (q.forall_mem_text c hc)⟩
  rw [lineText_eq_line]
  refine Text.line_zero_append (fun hmem => ?_) (fun hlast => ?_) tail
  · exact absurd (hall '\n' hmem) (by decide)
  · exact absurd (hall '\r' (List.mem_of_getLast? hlast)) (by decide)

/-- The lexemes of a text that starts with blanks and a qualified name. -/
theorem ofSource_blanks_name {tail : Text} (htail : tail.EndsName) :
    Lexeme.ofSource (List.replicate k ' ' ++ q.text ++ tail)
      = Lexeme.piece .whitespace (List.replicate k ' ') ++ q.lexemes ++ Lexeme.ofSource tail := by
  obtain ⟨c, t, hq, hc⟩ := q.exists_text_eq_cons
  have hspace : ∀ d ∈ (q.text ++ tail).head?, isSpace d = false := by
    rw [hq]
    rintro d hd
    obtain rfl := Option.some.inj hd
    exact isSpace_of_isNameChar (isNameChar_of_isUpper hc)
  have hblanks : ∀ d ∈ List.replicate k ' ', isSpace d := fun d hd =>
    List.eq_of_mem_replicate hd ▸ rfl
  rw [List.append_assoc, Lexeme.ofSource_blanks hblanks hspace, Lexeme.ofSource_name q htail,
    List.append_assoc]

/-- **The tokens of a line that starts with blanks and a qualified name.** -/
theorem lineTokens_name {tail : Text} (htail : tail.EndsName) :
    ∃ right, (ofText (List.replicate k ' ' ++ q.text ++ tail)).lineTokens 0
        = Lexeme.placeRow 0 (Lexeme.piece .whitespace (List.replicate k ' '))
          ++ Lexeme.placeRow k q.lexemes ++ right
      ∧ EndsName right := by
  have hne : ∀ l ∈ Lexeme.piece .whitespace (List.replicate k ' ') ++ q.lexemes, l.text ≠ [] :=
    List.forall_mem_append.2 ⟨fun l => Lexeme.text_ne_nil_of_mem_piece, q.text_ne_nil⟩
  have hlength : (Lexeme.texts (Lexeme.piece .whitespace (List.replicate k ' ')
      ++ q.lexemes)).length = (List.replicate k ' ' ++ q.text).length := by
    rw [Lexeme.texts_append, Lexeme.texts_piece, q.texts_lexemes]
  have hrow : (ofText (List.replicate k ' ' ++ q.text ++ tail)).row 0
      = Lexeme.piece .whitespace (List.replicate k ' ') ++ q.lexemes
        ++ Lexeme.cut 0 (tail.line 0).length (Lexeme.ofSource tail) := by
    show Lexeme.cut 0 (0 + _) (Lexeme.ofSource (List.replicate k ' ' ++ q.text ++ tail)) = _
    rw [lineText_name, ofSource_blanks_name k q htail, Lexeme.cut_append, hlength, Nat.zero_add,
      List.length_append, Nat.add_sub_cancel_left, Nat.zero_sub, Lexeme.cut_zero_of_le hne]
    rw [hlength]
    exact Nat.le_add_right _ _
  rw [lineTokens_eq_placeRow, hrow, Lexeme.placeRow_append, Lexeme.placeRow_append,
    Lexeme.texts_piece, width_replicate_blank, Nat.zero_add]
  refine ⟨_, rfl, LineToken.endsName_placeRow fun l => Lexeme.text_ne_dot_of_head?_cut ?_⟩
  rw [Lexeme.texts_ofSource]
  exact fun c hc => (htail c hc).2

/-- A line that starts with a qualified name is no import. -/
theorem not_namesModule_name (stop : UInt32) :
    ¬ ((ofText (List.replicate k ' ' ++ q.text ++ tail)).lineText 0).NamesModule stop := by
  rintro ⟨⟨rest, hrest, -⟩, -⟩
  obtain ⟨c, t, hq, hc⟩ := q.exists_text_eq_cons
  have hhead := congrArg List.head? hrest
  rw [lineText_name, hq] at hhead
  cases k with
  | zero =>
    obtain rfl : c = 'i' := Option.some.inj hhead
    exact absurd hc (by decide)
  | succ k => exact absurd (Option.some.inj hhead) (by decide)

/-- **A qualified name is the hint of every cursor within it.** The line, whose
columns are words, starts with blanks and the name, and what follows does not go
on with the name; the cursor is at any column after the start of the name and
not after its end, so at a segment or at a dot. -/
theorem resolve?_qualifiedName {tail : Text} (htail : tail.EndsName)
    (boundary : ImportBoundary) (column : UInt32)
    (hw : ((ofText (List.replicate k ' ' ++ q.text ++ tail)).lineText 0).width < UInt32.size)
    (hstart : k < column.toNat) (hstop : column.toNat ≤ k + q.text.length) :
    (ofText (List.replicate k ' ' ++ q.text ++ tail)).source.resolve? boundary
      (.cursor ⟨0, column⟩) = some (some q.text) := by
  have hsize : k + (Lexeme.texts q.lexemes).width < UInt32.size := by
    rw [lineText_name, Text.width_append, Text.width_append, width_replicate_blank] at hw
    rw [q.texts_lexemes]
    omega
  obtain ⟨right, hts, hright⟩ := lineTokens_name k q htail
  have hmodule := not_namesModule_name k q tail
  generalize ofText (List.replicate k ' ' ++ q.text ++ tail) = d at hw hts hmodule ⊢
  -- the cursor is at a token of the name
  obtain ⟨before, t, after, hname, htstart, htstop⟩ := Lexeme.exists_reaching hsize hstart
    (by rwa [q.texts_lexemes, q.width_text])
  have hisName := LineToken.isName_placeRow k q
  have hspelling := LineToken.spelling_placeRow k q.lexemes
  rw [hname] at hts hisName hspelling
  have hts' : d.lineTokens 0
      = Lexeme.placeRow 0 (Lexeme.piece .whitespace (List.replicate k ' ')) ++ before
        ++ t :: (after ++ right) := by
    rw [hts]
    simp only [List.append_assoc, List.cons_append]
  have hleft : pathBefore
      (Lexeme.placeRow 0 (Lexeme.piece .whitespace (List.replicate k ' '))).reverse = [] := by
    cases k <;> rfl
  have htokenAt : d.tokenAt ⟨0, column⟩ = t := by
    have htiles := LineToken.Tiles.find?_eq_some (hts' ▸ tiles_lineTokens hw) htstart htstop
    have hcolumn : column ≠ 0 :=
      UInt32.pos_iff_ne_zero.1 (UInt32.lt_of_le_of_lt UInt32.zero_le htstart)
    rw [tokenAt, if_neg hcolumn]
    dsimp only
    rw [hts', htiles, Option.getD_some]
  have hempty : (Selection.cursor ⟨0, column⟩).isEmpty := decide_eq_true rfl
  rw [TokenSource.resolve?, if_pos hempty]
  show d.source.tokenHint? boundary 0 (d.tokenAt ⟨0, column⟩).view = _
  rw [htokenAt, tokenHint?_view hw hts',
    tokenHintByIndex_of_isName hisName hleft hright hmodule hts', hspelling, q.texts_lexemes]

/-- At the dot of `Dom.offset`, a name that starts like a reserved word comes
after it. -/
theorem resolve?_qualifiedName_dot :
    (ofText "  Dom.offset (x)".toList).source.resolve? .empty (.cursor ⟨0, 6⟩)
      = some (some "Dom.offset".toList) :=
  resolve?_qualifiedName 2
    (.lower ⟨'D', ['o', 'm'], by decide, List.all_eq_true.1 (by decide)⟩
      ⟨'o', ['f', 'f', 's', 'e', 't'], by decide, List.all_eq_true.1 (by decide), by decide⟩)
    (Text.endsName_of_mem (t := [' ', '(', 'x', ')']) (by simp)) .empty 6 (by decide +kernel)
    (by decide) (by decide)

end Document

end EditorCore

import EditorCore.Proofs.Token.Names

/-!
# Block comments nest

A block comment holds text and other block comments (`Text.IsComment`). The lexer
keeps no stack for them, only a depth: an opening delimiter adds one, a closing one
takes one away, and the comment ends where a closing delimiter finds none left.

What stands within a comment leaves the depth as it was, whatever the depth is and
whatever follows (`Scan.blockComment_body`). So a comment ends with its own closing
delimiter and not before (`Token.ofSource_comment`): cut anywhere behind its opening
delimiter, be it within another delimiter, it is one comment still, the one that
never ends.
-/

namespace EditorCore

namespace Text

/-- **What stands within a block comment**: text without any character of a
delimiter, and block comments. -/
inductive IsCommentBody : Text → Prop
  | nil : IsCommentBody []
  | text {s body : Text} : s ≠ [] → (∀ c ∈ s, c ∉ ['{', '-', '}']) → IsCommentBody body →
      IsCommentBody (s ++ body)
  | comment {inner body : Text} : IsCommentBody inner → IsCommentBody body →
      IsCommentBody ('{' :: '-' :: (inner ++ '-' :: '}' :: body))

/-- **A block comment**, closed at its end. -/
def IsComment (t : Text) : Prop :=
  ∃ body, IsCommentBody body ∧ t = '{' :: '-' :: (body ++ ['-', '}'])

end Text

namespace Scan

open Text

/-- Text without the first character of a delimiter is stepped over. -/
theorem blockComment_text {s : Text} (hs : ∀ c ∈ s, c ∉ ['{', '-', '}']) (depth : Nat) (t : Text) :
    blockComment depth (s ++ t) = s.length + blockComment depth t := by
  induction s with
  | nil => exact (Nat.zero_add _).symm
  | cons c s ih =>
    obtain ⟨hc, hs⟩ := List.forall_mem_cons.1 hs
    rw [List.mem_cons, List.mem_cons, not_or, not_or] at hc
    rw [List.cons_append, blockComment.eq_4 depth c _ (fun _ h => absurd h hc.1)
      (fun _ h => absurd h hc.2.1), ih hs, List.length_cons, Nat.add_right_comm]

/-- **What stands within a comment is taken at any depth**, and the depth after it is
the one before it. -/
theorem blockComment_body {body : Text} (h : IsCommentBody body) (depth : Nat) (t : Text) :
    blockComment depth (body ++ t) = body.length + blockComment depth t := by
  induction h generalizing depth t with
  | nil => exact (Nat.zero_add _).symm
  | text _ hs _ ih =>
    rw [List.append_assoc, blockComment_text hs, ih, List.length_append, Nat.add_assoc]
  | @comment inner body _ _ ihinner ihbody =>
    have hsplit : '{' :: '-' :: (inner ++ '-' :: '}' :: body) ++ t
        = '{' :: '-' :: (inner ++ '-' :: '}' :: (body ++ t)) := by simp
    rw [hsplit, blockComment, ihinner, blockComment, ihbody]
    simp only [List.length_cons, List.length_append]
    omega

/-- A comment ends with the delimiter that closes it. -/
theorem blockComment_closed {body : Text} (h : IsCommentBody body) (r : Text) :
    blockComment 0 (body ++ ['-', '}'] ++ r) = (body ++ ['-', '}']).length := by
  rw [List.append_assoc, blockComment_body h, List.length_append]
  rfl

/-- **A comment that is cut off never ends.** -/
theorem blockComment_cut {body q r : Text} (h : IsCommentBody body)
    (hcut : q ++ r = body ++ ['-', '}']) (hr : r ≠ []) : blockComment 0 q = q.length := by
  have hclosed := blockComment_closed h []
  rw [List.append_nil, ← hcut, List.length_append] at hclosed
  have hpos := List.length_pos_iff.2 hr
  rcases blockComment_append 0 q r with hsame | ⟨hall, -⟩
  · -- closed within `q`, it would not have taken `r` either
    have hle := blockComment_le 0 q
    omega
  · exact hall

end Scan

/-- What a comment takes after its opening delimiter is one lexeme with it. -/
theorem Lexeme.ofSource_openComment {s t : Text}
    (h : Scan.blockComment 0 (s ++ t) = s.length) :
    ofSource ('{' :: '-' :: s ++ t) = ⟨.blockComment, '{' :: '-' :: s⟩ :: ofSource t := by
  refine ofSource_cons_append (s := '-' :: s) nofun ?_
  rw [List.cons_append, Scan.token_openComment, h]
  rfl

namespace Token

open Text

/-- **A block comment is one token**, whatever follows it. Of what it starts with,
everything from the opening delimiter on is one token by itself. -/
theorem ofSource_comment {comment : Text} (h : comment.IsComment) :
    (∀ r, ofSource (comment ++ r)
      = ⟨⟨.blockComment, comment⟩, 0⟩ :: place comment.byteSize (Lexeme.ofSource r))
    ∧ ∀ p, p <+: comment → p ≠ comment → 2 ≤ p.length →
        ofSource p = [⟨⟨.blockComment, p⟩, 0⟩] := by
  obtain ⟨body, hbody, rfl⟩ := h
  constructor
  · intro r
    rw [ofSource, Lexeme.ofSource_openComment (Scan.blockComment_closed hbody r), place,
      Nat.zero_add]
  · rintro p ⟨r, hr⟩ hne hlength
    obtain ⟨a, p, rfl⟩ := List.exists_cons_of_length_pos (Nat.zero_lt_of_lt hlength)
    obtain ⟨b, q, rfl⟩ := List.exists_cons_of_length_pos (Nat.le_of_succ_le_succ hlength)
    rw [List.cons_append, List.cons_append, List.cons.injEq, List.cons.injEq] at hr
    obtain ⟨rfl, rfl, hcut⟩ := hr
    have hrest : r ≠ [] := by
      rintro rfl
      rw [List.append_nil] at hcut
      exact hne (by rw [hcut])
    have hlexemes := @Lexeme.ofSource_openComment q []
    rw [List.append_nil, List.append_nil, Lexeme.ofSource_nil] at hlexemes
    rw [ofSource, hlexemes (Scan.blockComment_cut hbody hcut hrest)]
    rfl

/-- A comment that holds another one, on a line of its own, and a start of it that
ends within the closing delimiter of the inner one. -/
theorem ofSource_comment_nested :
    let comment : Text := ['{', '-', 'é', '\n', '{', '-', '-', '}', '-', '}']
    comment.IsComment
    ∧ ofSource (comment ++ ['-', '}'])
      = ⟨⟨.blockComment, comment⟩, 0⟩ :: place comment.byteSize (Lexeme.ofSource ['-', '}'])
    ∧ ofSource (comment.take 7) = [⟨⟨.blockComment, comment.take 7⟩, 0⟩] := by
  have hcomment : IsComment ['{', '-', 'é', '\n', '{', '-', '-', '}', '-', '}'] :=
    ⟨['é', '\n', '{', '-', '-', '}'],
      .text (s := ['é', '\n']) (by simp) (by simp) (.comment .nil .nil), rfl⟩
  obtain ⟨hwhole, hcut⟩ := ofSource_comment hcomment
  exact ⟨hcomment, hwhole _, hcut _ (List.take_prefix _ _) (by decide) (by decide)⟩

end Token

end EditorCore

import EditorCore.Exchange.Codec
import EditorCore.Proofs.Json.Parse

/-!
# Messages are read back

What a session writes for a page says all there is to say: reading it gives the
message back (`Exchange.read?_write`). For the form of a message that is one
lemma about records, whose fields are found by their names
(`Json.fields?_record`), and one about messages of several kinds, whose tag is
found and taken off (`Json.variant?_record`); each message is then its fields,
read one after the other. The forms are simple values, and not deeper nested
than is taken in, so their texts are read back (`Exchange.Lawful`).

A page may spell a message in other ways than a session would. Since what is
written is read back, the spelling does not matter: written again, a message that
was read is the same message, in one spelling (`Exchange.messages_faithful`).
-/

namespace EditorCore

namespace Json

variable {fields : List (String × Json)} {depth : Nat}

/-! ## Records -/

theorem simple_record (h : ∀ f ∈ fields, Simple depth f.2) :
    Simple (depth + 1) (record fields) := by
  refine .object (fun m hm => ?_) fun m hm => ?_ <;> obtain ⟨f, hf, rfl⟩ := List.mem_map.1 hm
  · exact ⟨f.1.toList, rfl⟩
  · exact h f hf

/-- A field of a record is looked up by its name. -/
theorem lookup_record (h : (fields.map Prod.fst).Nodup) {f : String × Json} (hf : f ∈ fields) :
    (fields.map fun (name, j) => (some name.toList, j)).lookup (some f.1.toList) = some f.2 := by
  induction fields with
  | nil => exact absurd hf List.not_mem_nil
  | cons g fields ih =>
    obtain ⟨hg, hfields⟩ := List.nodup_cons.1 h
    rw [List.map_cons, List.lookup_cons]
    rcases List.mem_cons.1 hf with rfl | hf
    · rw [beq_self_eq_true]
    · have hne : f.1 ≠ g.1 := fun heq => hg (heq ▸ List.mem_map_of_mem hf)
      have hkey : (some f.1.toList == some g.1.toList) = false := by
        rw [beq_eq_false_iff_ne, Ne, Option.some.injEq, String.toList_inj]
        exact hne
      rw [hkey]
      exact ih hfields hf

/-- **The fields of a record** are found where they were written. -/
theorem fields?_record {names : List String} (hnames : fields.map Prod.fst = names)
    (h : names.Nodup) : (record fields).fields? names = some (fields.map fun f => some f.2) := by
  subst hnames
  have hkeys : (fields.map fun (name, j) => (some name.toList, j)).map Prod.fst
      = (fields.map Prod.fst).map fun name => some name.toList := by
    rw [List.map_map, List.map_map]
    rfl
  have hinjective : Function.Injective fun name : String => some name.toList :=
    fun a b hab => String.toList_inj.1 (Option.some.inj hab)
  have hcount : ((fields.map Prod.fst).all fun name =>
      ((fields.map fun (name, j) => (some name.toList, j)).map Prod.fst).count (some name.toList)
        ≤ 1) = true := by
    rw [List.all_eq_true]
    intro name _
    rw [hkeys, decide_eq_true_eq]
    exact List.nodup_iff_count_le_one.1 (h.map hinjective) _
  have hsome : (((fields.map fun (name, j) => (some name.toList, j)).map Prod.fst).all
      (·.isSome)) = true := by
    rw [hkeys, List.all_map, List.all_eq_true]
    exact fun _ _ => rfl
  have hlookup : (fields.map Prod.fst).map (fun name =>
      (fields.map fun (name, j) => (some name.toList, j)).lookup (some name.toList))
        = fields.map fun f => some f.2 := by
    rw [List.map_map]
    exact List.map_congr_left fun f hf => lookup_record h hf
  rw [record, fields?]
  dsimp only
  rw [hsome, hcount, Bool.and_self, if_pos rfl, hlookup]

/-- **The kind of a message** is found under its tag, and the fields besides. -/
theorem variant?_record {tag : String} {kind : Text} (hfields : ∀ f ∈ fields, Simple depth f.2)
    (hdepth : depth < maxDepth) (htag : ∀ f ∈ fields, f.1 ≠ tag) :
    (record ((tag, .text kind) :: fields)).variant? tag = some (kind, record fields) := by
  have hfits : (record ((tag, .text kind) :: fields)).fits maxDepth :=
    (simple_record (List.forall_mem_cons.2 ⟨.text kind, hfields⟩)).fits hdepth
  have hne : ∀ m ∈ fields.map fun (name, j) => (some name.toList, j), m.1 ≠ some tag.toList := by
    intro m hm
    obtain ⟨f, hf, rfl⟩ := List.mem_map.1 hm
    rw [Ne, Option.some.injEq, String.toList_inj]
    exact htag f hf
  have htagged : (((tag, text kind) :: fields).map fun (name, j) => (some name.toList, j)).filter
      (fun (key, _) => key = some tag.toList) = [(some tag.toList, text kind)] := by
    rw [List.map_cons, List.filter_cons_of_pos (by simp), List.filter_eq_nil_iff.2]
    exact fun m hm => by simpa using hne m hm
  have hrest : (((tag, text kind) :: fields).map fun (name, j) => (some name.toList, j)).filter
      (fun (key, _) => key ≠ some tag.toList)
        = fields.map fun (name, j) => (some name.toList, j) := by
    rw [List.map_cons, List.filter_cons_of_neg (by simp), List.filter_eq_self.2]
    exact fun m hm => by simpa using hne m hm
  unfold variant?
  rw [if_pos hfits, record]
  dsimp only
  rw [htagged, hrest]
  rfl

theorem simple_optionalText (t : Option Text) : Simple depth (optionalText t) := by
  cases t with
  | none => exact .null
  | some t => exact .text t

theorem toWord?_word (n : UInt32) : (word n).toWord? = some n := by
  rw [word, toWord?, Numeral.toNat?_ofNat, Option.bind_some, if_pos n.toNat_lt, UInt32.ofNat_toNat]

theorem toOptionalText?_optionalText (t : Option Text) :
    (optionalText t).toOptionalText? = some t := by
  cases t <;> rfl

end Json

namespace Exchange

open Json (Simple simple_record fields?_record)

variable {α : Type} [Exchange α] {depth : Nat}

/-- **What is exchanged is read back**: its form is a simple value of some
depth, and stands for it. -/
class Lawful (α : Type) [Exchange α] (depth : outParam Nat) : Prop where
  simple : ∀ a : α, Simple depth (toJson a)
  ofJson?_toJson : ∀ a : α, ofJson? (toJson a) = some a

/-- **Reading what was written gives it back.** -/
theorem read?_write [Lawful α depth] (a : α) : read? (write a) = some a := by
  rw [read?, write, (Lawful.simple a).ofText?_render, Option.bind_some, Lawful.ofJson?_toJson]

instance [Lawful α depth] : Lawful (List α) (depth + 1) where
  simple items := by
    refine .array fun j hj => ?_
    obtain ⟨a, -, rfl⟩ := List.mem_map.1 hj
    exact Lawful.simple a
  ofJson?_toJson items := by
    show (items.map toJson).mapM ofJson? = some items
    induction items with
    | nil => rfl
    | cons a items ih =>
      rw [List.map_cons, List.mapM_cons, Lawful.ofJson?_toJson, ih]
      rfl

/-! ## Records -/

/-- A record of two fields, of values that are simple. -/
theorem simple_pair {a b : String} {i j : Json} (hi : Simple depth i) (hj : Simple depth j) :
    Simple (depth + 1) (.record [(a, i), (b, j)]) :=
  simple_record (List.forall_mem_cons.2 ⟨hi, List.forall_mem_singleton.2 hj⟩)

/-- **A record of two fields is read** one field after the other. -/
theorem read_pair {β γ δ : Type} {a b : String} {i j : Json} {f : Json → Option β}
    {g : Json → Option γ} {x : β} {y : γ} (make : β → γ → δ) (hne : a ≠ b) (hi : f i = some x)
    (hj : g j = some y) :
    (do
      match ← (Json.record [(a, i), (b, j)]).fields? [a, b] with
      | [first, second] => return make (← f (← first)) (← g (← second))
      | _ => none : Option δ) = some (make x y) := by
  have hfields : (Json.record [(a, i), (b, j)]).fields? [a, b] = some [some i, some j] :=
    fields?_record rfl (by simpa using hne)
  simp only [hfields, hi, hj, Option.bind_eq_bind, Option.bind_some]
  rfl

instance : Lawful Position 1 where
  simple p := simple_pair (.word p.line) (.word p.column)
  ofJson?_toJson p :=
    read_pair Position.mk (by decide) (Json.toWord?_word p.line) (Json.toWord?_word p.column)

instance : Lawful Selection 2 where
  simple s := simple_pair (Lawful.simple s.anchor) (Lawful.simple s.head)
  ofJson?_toJson s := read_pair Selection.mk (by decide) (Lawful.ofJson?_toJson s.anchor)
    (Lawful.ofJson?_toJson s.head)

instance : Lawful Range 2 where
  simple r := simple_pair (Lawful.simple r.start) (Lawful.simple r.stop)
  ofJson?_toJson r := read_pair Range.mk (by decide) (Lawful.ofJson?_toJson r.start)
    (Lawful.ofJson?_toJson r.stop)

instance : Lawful TextEdit 3 where
  simple e := simple_pair (Lawful.simple (⟨e.start, e.stop⟩ : Range)) (.text e.newText)
  ofJson?_toJson e := read_pair (fun (r : Range) text => TextEdit.mk r.start r.stop text)
    (by decide) (Lawful.ofJson?_toJson (⟨e.start, e.stop⟩ : Range))
    (rfl : (Json.text e.newText).toText? = _)

instance : Lawful EditPlan 5 where
  simple plan := simple_pair (Lawful.simple plan.edits)
    ((Lawful.simple plan.selections).mono (by decide))
  ofJson?_toJson plan := read_pair EditPlan.mk (by decide) (Lawful.ofJson?_toJson plan.edits)
    (Lawful.ofJson?_toJson plan.selections)

instance : Lawful KeyRequest 4 where
  simple r := simple_pair (.text r.key) (Lawful.simple r.selections)
  ofJson?_toJson r := read_pair KeyRequest.mk (by decide) (rfl : (Json.text r.key).toText? = _)
    (Lawful.ofJson?_toJson r.selections)

/-- A record of one field, of a value that is simple. -/
theorem simple_single {a : String} {i : Json} (h : Simple depth i) :
    Simple (depth + 1) (.record [(a, i)]) :=
  simple_record (List.forall_mem_singleton.2 h)

instance : Lawful HintItem 1 where
  simple h := simple_single (Json.simple_optionalText h.hint : Simple 0 _)
  ofJson?_toJson h := by
    have hfields : (toJson h).fields? ["hint"] = some [some (.optionalText h.hint)] :=
      fields?_record rfl (by decide)
    simp only [ofJson?, hfields, Option.bind_eq_bind, Option.bind_some, Option.getD_some,
      Json.toOptionalText?_optionalText]
    rfl

instance : Lawful Submission 1 where
  simple s := simple_single (.text s.source : Simple 0 _)
  ofJson?_toJson s := by
    have hfields : (toJson s).fields? ["source"] = some [some (.text s.source)] :=
      fields?_record rfl (by decide)
    simp only [ofJson?, hfields]
    rfl

instance : Lawful SessionStatus 1 where
  simple s := simple_record (List.forall_mem_cons.2 ⟨.word s.lineCount, List.forall_mem_cons.2
    ⟨.word s.importEndLine, List.forall_mem_cons.2 ⟨.text s.theme, List.forall_mem_singleton.2
      (.bool s.hintsAttached)⟩⟩⟩)
  ofJson?_toJson s := by
    have hfields : (toJson s).fields? ["line_count", "import_end_line", "theme", "hints_attached"]
        = some [some (.word s.lineCount), some (.word s.importEndLine), some (.text s.theme),
          some (.bool s.hintsAttached)] := fields?_record rfl (by decide)
    simp only [ofJson?, hfields, Option.bind_eq_bind, Option.bind_some, Json.toWord?_word]
    rfl

/-! ## Messages of several kinds -/

/-- The kind of a message of one field is found, and the field besides. -/
theorem variant?_single {tag name : String} {kind : Text} {j : Json} (hj : Simple 0 j)
    (hne : name ≠ tag) :
    (Json.record [(tag, .text kind), (name, j)]).variant? tag
      = some (kind, .record [(name, j)]) :=
  Json.variant?_record (List.forall_mem_singleton.2 hj) (by decide)
    (List.forall_mem_singleton.2 hne)

instance : Lawful HintMessage 1 where
  simple
    | .cursorMoved hint => simple_pair (.text _) (Json.simple_optionalText hint)
    | .submitted source => simple_pair (.text _) (.text source)
  ofJson?_toJson
    | .cursorMoved hint => by
      have hvariant : (toJson (HintMessage.cursorMoved hint)).variant? "kind"
          = some ("cursor_moved".toList, toJson (⟨hint⟩ : HintItem)) :=
        variant?_single (Json.simple_optionalText hint) (by decide)
      show ((toJson (HintMessage.cursorMoved hint)).variant? "kind").bind _ = _
      rw [hvariant]
      show (ofJson? (toJson (⟨hint⟩ : HintItem)) : Option HintItem).bind _ = _
      rw [Lawful.ofJson?_toJson (⟨hint⟩ : HintItem)]
      rfl
    | .submitted source => by
      have hvariant : (toJson (HintMessage.submitted source)).variant? "kind"
          = some ("submitted".toList, toJson (⟨source⟩ : Submission)) :=
        variant?_single (.text source) (by decide)
      show ((toJson (HintMessage.submitted source)).variant? "kind").bind _ = _
      rw [hvariant, Option.bind_some]
      dsimp only
      rw [if_neg (by decide), if_pos rfl]
      show (ofJson? (toJson (⟨source⟩ : Submission)) : Option Submission).bind _ = _
      rw [Lawful.ofJson?_toJson (⟨source⟩ : Submission)]
      rfl

instance : Lawful KeyResponse 5 where
  simple
    | .pass => simple_single (.text _)
    | .edited plan => by
      refine simple_record (List.forall_mem_cons.2 ⟨.text _, List.forall_mem_cons.2
        ⟨Lawful.simple plan.edits, List.forall_mem_singleton.2 ?_⟩⟩)
      exact (Lawful.simple plan.selections).mono (by decide)
    | .compiled source => simple_pair (.text _) (.text source)
  ofJson?_toJson
    | .pass => by
      have hvariant : (toJson KeyResponse.pass).variant? "outcome"
          = some ("pass".toList, .record []) := by
        have hnone : ∀ f ∈ ([] : List (String × Json)), Simple 0 f.2 := nofun
        exact Json.variant?_record hnone (by decide) nofun
      show ((toJson KeyResponse.pass).variant? "outcome").bind _ = _
      rw [hvariant]
      rfl
    | .edited plan => by
      have hvariant : (toJson (KeyResponse.edited plan)).variant? "outcome"
          = some ("edit".toList, toJson plan) := by
        have hselections := (Lawful.simple plan.selections).mono (by decide : 3 ≤ 4)
        exact Json.variant?_record
          (List.forall_mem_cons.2
            ⟨Lawful.simple plan.edits, List.forall_mem_singleton.2 hselections⟩)
          (by decide)
          (List.forall_mem_cons.2 ⟨(by decide : "edits" ≠ "outcome"),
            List.forall_mem_singleton.2 (by decide : "selections" ≠ "outcome")⟩)
      show ((toJson (KeyResponse.edited plan)).variant? "outcome").bind _ = _
      rw [hvariant]
      show (ofJson? (toJson plan)).bind _ = _
      rw [Lawful.ofJson?_toJson plan]
      rfl
    | .compiled source => by
      have hvariant : (toJson (KeyResponse.compiled source)).variant? "outcome"
          = some ("compile".toList, toJson (⟨source⟩ : Submission)) :=
        variant?_single (.text source) (by decide)
      show ((toJson (KeyResponse.compiled source)).variant? "outcome").bind _ = _
      rw [hvariant, Option.bind_some]
      dsimp only
      rw [if_neg (by decide), if_neg (by decide), if_pos rfl]
      show (ofJson? (toJson (⟨source⟩ : Submission)) : Option Submission).bind _ = _
      rw [Lawful.ofJson?_toJson (⟨source⟩ : Submission)]
      rfl

/-! ## Spellings -/

variable (α) in
/-- **The text that is written for what a text is read as**: the fields in order
and none besides, every one of them given, nothing escaped without need and no
blanks. -/
def respell? (t : Text) : Option Text := (read? t : Option α).map write

variable (α) in
/-- **A kind of message is exchanged faithfully**: what is written is read back,
so that different messages are written differently; and whatever the spelling in
which a message is read, writing it gives one that is read as the same message,
and is not spelled differently again. -/
structure Faithful : Prop where
  read?_write : ∀ a : α, read? (write a) = some a
  write_injective : Function.Injective (write : α → Text)
  read?_respell : ∀ t u, respell? α t = some u →
    (read? u : Option α) = read? t ∧ (read? u : Option α).isSome
  respell?_respell : ∀ t u, respell? α t = some u → respell? α u = some u

/-- **What is read back is exchanged faithfully.** -/
theorem Lawful.faithful [Lawful α depth] : Faithful α where
  read?_write := read?_write
  write_injective a b hab := by
    have hb := read?_write b
    rw [← hab, read?_write] at hb
    exact Option.some.inj hb
  read?_respell t u h := by
    obtain ⟨a, ha, rfl⟩ := Option.map_eq_some_iff.1 h
    rw [read?_write, ha]
    exact ⟨rfl, rfl⟩
  respell?_respell t u h := by
    obtain ⟨a, -, rfl⟩ := Option.map_eq_some_iff.1 h
    rw [respell?, read?_write, Option.map_some]

/-- **All messages between a page and a session are exchanged faithfully**: those
on hints and the answers to keys, which are of several kinds, and key requests,
selections and the status, which are records. -/
theorem messages_faithful :
    Faithful HintMessage ∧ Faithful KeyResponse ∧ Faithful KeyRequest ∧ Faithful Selection
      ∧ Faithful SessionStatus :=
  ⟨Lawful.faithful, Lawful.faithful, Lawful.faithful, Lawful.faithful, Lawful.faithful⟩

/-- A key request whose records are arrays but for a position, which has its
fields in the other order and one that is unknown, and whose key is escaped; and a
message that leaves its hint out. What they are read as is spelled in one way. -/
theorem messages_faithful_spellings :
    let request : Text :=
      "[\"\\u0022\",[[\x7b\"x\":null,\"column\":1,\"line\":0\x7d,[0,2]]]]".toList
    let moved : Text := "\x7b\"kind\":\"cursor_moved\"\x7d".toList
    let spelled := write (⟨['"'], [⟨⟨0, 1⟩, ⟨0, 2⟩⟩]⟩ : KeyRequest)
    let hint := write (HintMessage.cursorMoved none)
    (respell? KeyRequest request = some spelled ∧ respell? KeyRequest spelled = some spelled)
      ∧ respell? HintMessage moved = some hint ∧ respell? HintMessage hint = some hint := by
  intro request moved spelled hint
  obtain ⟨hmessage, -, hrequest, -, -⟩ := messages_faithful
  have hspelled : respell? KeyRequest request = some spelled := by decide +kernel
  have hhint : respell? HintMessage moved = some hint := by decide +kernel
  exact ⟨⟨hspelled, hrequest.respell?_respell _ _ hspelled⟩,
    hhint, hmessage.respell?_respell _ _ hhint⟩

end Exchange

end EditorCore

import EditorCore.Toml.Table

/-!
# Documents in sections

A document in sections is a header for each, and after it an assignment for each
of its settings. Where no two sections have one name, nor two settings of a
section, no statement is refused, and the document has the tables that the
headers name with what is assigned after each (`Toml.ofStatements?_sections`).
-/

namespace EditorCore.Toml

variable {name : Text} {v old : Toml} {es root : Entries}

/-! ## Keys -/

theorem lookup_eq_none_of_not_mem (h : name ∉ root.map Prod.fst) : root.lookup name = none := by
  refine List.lookup_eq_none_iff.2 fun e he => bne_iff_ne.2 ?_
  rintro rfl
  exact h (List.mem_map_of_mem he)

/-- A key has the value it was given, where it was given once. -/
theorem lookup_of_mem {e : Text × Toml} (hkeys : (es.map Prod.fst).Nodup) (he : e ∈ es) :
    es.lookup e.1 = some e.2 := by
  induction es with
  | nil => exact absurd he List.not_mem_nil
  | cons f es ih =>
    obtain ⟨hf, hkeys⟩ := List.nodup_cons.1 hkeys
    rcases List.mem_cons.1 he with rfl | he
    · exact List.lookup_cons_self
    · have hne : e.1 ≠ f.1 := fun heq => hf (heq ▸ List.mem_map_of_mem he)
      rw [List.lookup_cons, beq_eq_false_iff_ne.2 hne]
      exact ih hkeys he

/-- The value of the last key, where it is not among the others. -/
theorem lookup_concat (h : name ∉ root.map Prod.fst) :
    (root ++ [(name, v)]).lookup name = some v := by
  rw [List.lookup_append, lookup_eq_none_of_not_mem h, Option.none_or, List.lookup_cons_self]

/-- A key that is new goes after the others. -/
theorem put_of_not_mem (h : name ∉ root.map Prod.fst) : put name v root = root ++ [(name, v)] := by
  induction root with
  | nil => rfl
  | cons e root ih =>
    rw [List.map_cons, List.mem_cons, not_or] at h
    rw [put, if_neg (Ne.symm h.1), ih h.2, List.cons_append]

/-- The last key gets another value, where it is not among the others. -/
theorem put_concat (h : name ∉ root.map Prod.fst) :
    put name v (root ++ [(name, old)]) = root ++ [(name, v)] := by
  induction root with
  | nil => exact if_pos rfl
  | cons e root ih =>
    rw [List.map_cons, List.mem_cons, not_or] at h
    rw [List.cons_append, put, if_neg (Ne.symm h.1), ih h.2, List.cons_append]

/-! ## Sections -/

/-- The statements of a section. -/
def sectionStatements (name : Text) (es : Entries) : List TomlStatement :=
  .header false [name] :: es.map fun (key, v) => .assignment [key] v

/-- A header of a new name opens an empty table. -/
theorem take?_header (hname : name ∉ root.map Prod.fst) (current : List Text) :
    take? (root, current) (.header false [name])
      = some (root ++ [(name, .table .header [])], [name]) := by
  have hopen : open? false [name] root = some (root ++ [(name, .table .header [])]) := by
    rw [open?, put_of_not_mem hname]
    exact lookup_eq_none_of_not_mem hname
  rw [take?, hopen, Option.map_some]

/-- An assignment to a new key of the last section goes there. -/
theorem take?_assignment {key : Text} (hname : name ∉ root.map Prod.fst)
    (hkey : key ∉ es.map Prod.fst) :
    take? (root ++ [(name, .table .header es)], [name]) (.assignment [key] v)
      = some (root ++ [(name, .table .header (es ++ [(key, v)]))], [name]) := by
  have hassign : assign? v [key] es = some (es ++ [(key, v)]) := by
    rw [assign?, lookup_eq_none_of_not_mem hkey, if_neg (by simp)]
  rw [take?, within?, lookup_concat hname]
  dsimp only
  rw [within?, hassign, Option.map_some, put_concat hname, Option.map_some]

/-- The settings of a section are assigned one after the other. -/
theorem foldlM_take?_assignments {before : Entries} (hname : name ∉ root.map Prod.fst)
    (hkeys : ((before ++ es).map Prod.fst).Nodup) :
    (es.map fun (key, v) => TomlStatement.assignment [key] v).foldlM take?
        (root ++ [(name, .table .header before)], [name])
      = some (root ++ [(name, .table .header (before ++ es))], [name]) := by
  induction es generalizing before with
  | nil => rw [List.append_nil]; rfl
  | cons e es ih =>
    have hkey : e.1 ∉ before.map Prod.fst := by
      rw [List.map_append, List.nodup_append] at hkeys
      exact fun hmem => hkeys.2.2 _ hmem e.1 List.mem_cons_self rfl
    rw [List.append_cons] at hkeys
    have hrest := ih hkeys
    rw [← List.append_cons] at hrest
    rw [List.map_cons, List.foldlM_cons, take?_assignment hname hkey]
    exact hrest

/-- **A section is put after the others**, with the settings that are assigned in
it. -/
theorem foldlM_take?_section (hname : name ∉ root.map Prod.fst) (hkeys : (es.map Prod.fst).Nodup)
    (current : List Text) :
    (sectionStatements name es).foldlM take? (root, current)
      = some (root ++ [(name, .table .header es)], [name]) := by
  rw [sectionStatements, List.foldlM_cons, take?_header hname]
  exact foldlM_take?_assignments hname hkeys

/-- **The document of sections** has their tables. -/
theorem ofStatements?_sections {sections : List (Text × Entries)}
    (hnames : (sections.map Prod.fst).Nodup) (hkeys : ∀ s ∈ sections, (s.2.map Prod.fst).Nodup) :
    ofStatements? (sections.flatMap fun s => sectionStatements s.1 s.2)
      = some (sections.map fun s => (s.1, .table .header s.2)) := by
  suffices ∀ (root : Entries) (current : List Text),
      (root.map Prod.fst ++ sections.map Prod.fst).Nodup →
      ∃ current', (sections.flatMap fun s => sectionStatements s.1 s.2).foldlM take? (root, current)
        = some (root ++ sections.map fun s => (s.1, .table .header s.2), current') by
    obtain ⟨current, h⟩ := this [] [] hnames
    rw [ofStatements?, h]
    rfl
  clear hnames
  induction sections with
  | nil => exact fun root current _ => ⟨current, by rw [List.map_nil, List.append_nil]; rfl⟩
  | cons s sections ih =>
    obtain ⟨hs, hkeys⟩ := List.forall_mem_cons.1 hkeys
    intro root current hnames
    have hname : s.1 ∉ root.map Prod.fst := by
      rw [List.nodup_append] at hnames
      exact fun hmem => hnames.2.2 _ hmem s.1 List.mem_cons_self rfl
    rw [List.map_cons, List.append_cons] at hnames
    obtain ⟨current', hrest⟩ := ih hkeys (root ++ [(s.1, .table .header s.2)]) [s.1]
      (by rwa [List.map_append])
    rw [← List.append_cons] at hrest
    refine ⟨current', ?_⟩
    rw [List.flatMap_cons, List.foldlM_append, foldlM_take?_section hname hs, List.map_cons]
    exact hrest

end EditorCore.Toml

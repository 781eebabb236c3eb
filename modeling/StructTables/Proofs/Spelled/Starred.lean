import StructTables.Proofs.Spelled.Lines

/-! # Reading stars that are spaced freely

A declaration is parted at the last space ahead of its first mark, so what stands ahead of the last blank
among the stars of the first declarator is read as part of the type, and without such a blank nothing is
read at all. Of a later declarator, the stars stand together with its name. -/

namespace StructTables.Spelled
open Text Declaration Body Comment Canonical

/-- Stars with blanks around and between them. -/
def IsStars (t : Text) : Prop := ∀ c ∈ t, c = '*' ∨ isBlank c = true

instance (t : Text) : Decidable (IsStars t) := List.decidableBAll _ t

abbrev Stars := { t : Text // IsStars t }

/-- A declarator whose stars are spaced freely. -/
structure Starred where
  stars : Stars
  name : Identifier
  extent : Extent
  behind : Blanks

namespace Starred

/-- The declarator without its stars. -/
def plain (d : Starred) : Variable where
  ahead := ⟨[], .nil⟩
  stars := 0
  name := d.name
  extent := d.extent
  behind := d.behind

def text (d : Starred) : Text := d.stars.1 ++ d.plain.text

/-- How many stars the declarator has. -/
def levels (d : Starred) : Nat := d.stars.1.count '*'

end Starred

/-- A line that declares variables of one type. -/
structure StarredLine where
  type : DataType
  first : Starred
  more : List Starred
  /-- Something stands between the type and the first name. -/
  apart : first.stars.1 ≠ []

namespace StarredLine

def row (line : StarredLine) : List Starred := line.first :: line.more

def text (line : StarredLine) : Text :=
  line.type.text ++ (join [','] (line.row.map Starred.text) ++ [';'])

end StarredLine

/-! ## Texts -/

variable {line : StarredLine} {d : Starred}

namespace Starred

theorem isMark_of_mem {c : Char} (hc : c ∈ d.stars.1 ++ d.name.1) : isMark c = false := by
  rcases List.mem_append.mp hc with hc | hc
  · rcases d.stars.2 c hc with rfl | hblank
    · rfl
    · exact isMark_of_isBlank hblank
  · exact (d.plain.isSolid_of_mem_named (List.mem_append_right _ hc)).2

theorem not_mem_stars {c : Char} (hblank : isBlank c = false) (hstar : c ≠ '*') : c ∉ d.stars.1 := by
  intro hc
  rcases d.stars.2 c hc with rfl | h
  · exact hstar rfl
  · rw [hblank] at h
    cases h

theorem code_append (d : Starred) {r : Text} (hr : Calm r) :
    code (d.text ++ r) = d.text ++ code r := by
  rw [text, List.append_assoc, Comment.code_append (not_mem_stars rfl (by decide)),
    code_variable_append d.plain hr, List.append_assoc]

theorem not_mem_text {c : Char} (hmark : c ∉ ['*', '[', ']', ':']) (hblank : isBlank c = false)
    (hcharacter : Macro.isIdentifierCharacter c = false) (hsize : ∀ size : Size, c ∉ size.text)
    (d : Starred) : c ∉ d.text := by
  obtain ⟨hstar, hmark⟩ := List.ne_and_not_mem_of_not_mem_cons hmark
  have hnamed : c ∉ d.plain.named := fun hc => by
    rcases mem_named hc with hc | hc
    · exact hstar hc
    · rw [hcharacter] at hc
      cases hc
  exact List.not_mem_append (not_mem_stars hblank hstar) (List.not_mem_append List.not_mem_nil
    (List.not_mem_append hnamed (List.not_mem_append (not_mem_extent hmark hblank hsize d.extent)
      (d.behind.2.not_mem hblank))))

theorem semicolon_not_mem (d : Starred) : ';' ∉ d.text :=
  not_mem_text (by decide) rfl rfl (fun size hc => (size.plain ';' hc).2 rfl) d

theorem comma_not_mem (d : Starred) : ',' ∉ d.text :=
  not_mem_text (by decide) rfl rfl (fun size hc => by cases (size.plain ',' hc).1) d

/-- The declarator as it stands in a tidy declaration, behind a comma. -/
def tidied (d : Starred) : Text := collapse (d.stars.1 ++ d.name.1) ++ d.extent.tidied

theorem tidyFrom_append {lead r : Text} (hlead : ∀ c ∈ lead, isMark c = false) (hr : Settles r) :
    tidyFrom false false (lead ++ (d.text ++ r)) =
      collapse (lead ++ (d.stars.1 ++ d.name.1)) ++ (d.extent.tidied ++ tidyFrom false false r) := by
  have hstars : ∀ c ∈ lead ++ d.stars.1, isMark c = false :=
    List.forall_mem_append.mpr ⟨hlead, fun c hc => isMark_of_mem (List.mem_append_left _ hc)⟩
  have hplain := d.plain.tidyFrom_append hstars hr false
  rw [text, ← List.append_assoc lead, ← List.append_assoc lead, ← List.append_assoc lead]
  rw [List.append_assoc _ _ r, hplain]
  rfl

theorem tidyFrom_text (d : Starred) {r : Text} (hr : Settles r) :
    tidyFrom false false (d.text ++ r) = d.tidied ++ tidyFrom false false r := by
  rw [tidied, List.append_assoc]
  exact d.tidyFrom_append (List.forall_mem_nil _) hr

end Starred

/-! ## Reading the line -/

namespace Starred

/-- What the declarator comes to where its name and stars stand as given. -/
def declaredAs (d : Starred) (named : Text) : Declarator :=
  { bare named with arraySize := d.extent.arraySize, bitLength := d.extent.bitLength }

/-- What the declarator comes to behind a comma. -/
def declared (d : Starred) : Declarator := d.declaredAs (collapse (d.stars.1 ++ d.name.1))

theorem exists_mem_name (d : Starred) : ∃ c ∈ d.name.1, isBlank c = false ∧ c ≠ '*' := by
  obtain ⟨c, r, hcons⟩ := List.exists_cons_of_ne_nil (identifier_ne_nil d.name)
  have hhead : c ∈ d.name.1.head? := by rw [hcons]; rfl
  have hc : c ∈ d.name.1 := List.mem_of_mem_head? hhead
  exact ⟨c, hc, (d.plain.isSolid_of_mem_named (List.mem_append_right _ hc)).1,
    star_not_mem_head? d.name c hhead⟩

theorem mem_collapse_name {c : Char} (hc : c ∈ d.name.1) (hblank : isBlank c = false) :
    c ∈ collapse (d.stars.1 ++ d.name.1) := by
  rw [← List.count_pos_iff, count_collapse hblank, List.count_pos_iff]
  exact List.mem_append_right _ hc

theorem declaredAs_name_ne_nil {named : Text}
    (h : ∀ c ∈ d.name.1, isBlank c = false → c ∈ named) : (d.declaredAs named).name ≠ [] := by
  obtain ⟨c, hc, hblank, hstar⟩ := d.exists_mem_name
  exact List.ne_nil_of_mem (mem_bare_name hblank hstar (h c hc hblank))

theorem ofText_append_tidied {named : Text} (hplain : ∀ c ∈ named, isMark c = false) (d : Starred) :
    Declarator.ofText (named ++ d.extent.tidied) = d.declaredAs named := by
  have hno : ∀ {c : Char}, isMark c = true → c ∉ named := fun h hc => by
    rw [hplain _ hc] at h
    cases h
  exact ofText_tidied (hno rfl) (hno rfl) d.extent

theorem isMark_of_mem_collapse {c : Char} (hc : c ∈ collapse (d.stars.1 ++ d.name.1)) :
    isMark c = false := by
  rcases mem_of_mem_collapse hc with rfl | hc
  · rfl
  · exact isMark_of_mem hc

/-- A tidy declarator is one piece between commas. -/
theorem piece_append_tidied {named : Text} (hplain : ∀ c ∈ named, isMark c = false)
    (htrim : trim named = named) (hne : named ≠ []) (d : Starred) :
    ',' ∉ named ++ d.extent.tidied ∧ trim (named ++ d.extent.tidied) = named ++ d.extent.tidied ∧
      named ++ d.extent.tidied ≠ [] := by
  have hcomma : ',' ∉ named := fun hc => by cases hplain ',' hc
  exact ⟨List.not_mem_append hcomma (comma_not_mem_tidied d.extent),
    trim_append hne htrim (trim_tidied d.extent), List.append_ne_nil_of_left_ne_nil hne _⟩

theorem piece_tidied (d : Starred) : ',' ∉ d.tidied ∧ trim d.tidied = d.tidied ∧ d.tidied ≠ [] := by
  obtain ⟨c, hc, hblank, -⟩ := d.exists_mem_name
  exact piece_append_tidied (fun _ => isMark_of_mem_collapse) (trim_collapse _)
    (List.ne_nil_of_mem (mem_collapse_name hc hblank)) d

theorem ofText_tidied (d : Starred) : Declarator.ofText d.tidied = d.declared :=
  ofText_append_tidied (fun _ => isMark_of_mem_collapse) d

end Starred

namespace StarredLine

theorem row_text (line : StarredLine) :
    join [','] (line.row.map Starred.text) =
      line.first.text ++ line.more.flatMap fun d => ',' :: d.text := by
  rw [row, List.map_cons, join_cons, List.flatMap_map]
  rfl

/-- The line without its terminator. -/
def declaration (line : StarredLine) : Text :=
  line.type.text ++ join [','] (line.row.map Starred.text)

theorem text_eq (line : StarredLine) : line.text = line.declaration ++ [';'] := by
  rw [text, declaration, List.append_assoc]

theorem tidy_declaration (line : StarredLine) :
    tidy line.declaration =
      collapse (line.type.text ++ (line.first.stars.1 ++ line.first.name.1)) ++
        (line.first.extent.tidied ++ line.more.flatMap fun d => ',' :: d.tidied) := by
  have hpieces : ∀ word gap, tidyFrom word gap (line.more.flatMap fun d => ',' :: d.text) =
      line.more.flatMap fun d => ',' :: d.tidied := by
    intro word gap
    have h := tidyFrom_pieces (fun d _ hr => d.tidyFrom_text hr) settles_nil line.more word gap
    rwa [List.append_nil, tidyFrom, List.append_nil] at h
  have hmore : Settles (line.more.flatMap fun d => ',' :: d.text) := fun word gap => by
    rw [hpieces, hpieces]
  rw [declaration, row_text, tidy, line.first.tidyFrom_append (fun _ => line.type.isMark_of_mem) hmore,
    hpieces]

theorem statements_text (line : StarredLine) :
    statements line.text = [⟨line.text, tidy line.declaration, true, []⟩] := by
  have htype : '/' ∉ line.type.text := not_mem_type line.type rfl rfl
  have hfree : code (line.declaration ++ [';']) = line.declaration ++ [';'] := by
    obtain ⟨hcalm, hmore⟩ := code_pieces_append (fun d _ => d.code_append) line.more
      (calm_cons (c := ';') (by decide) [])
    rw [declaration, row_text, List.append_assoc, List.append_assoc, Comment.code_append htype,
      line.first.code_append hcalm, hmore]
    rfl
  have hnone : ';' ∉ line.declaration := by
    refine List.not_mem_append (not_mem_type line.type rfl rfl) fun hc => ?_
    rcases mem_of_mem_join hc with hc | ⟨t, ht, hc⟩
    · cases List.mem_singleton.mp hc
    · obtain ⟨d, -, rfl⟩ := List.mem_map.mp ht
      exact d.semicolon_not_mem hc
  rw [text_eq, statements_of_terminated hfree hnone]

theorem read_text (line : StarredLine) :
    Body.read [line.text] =
      (readStatement {} ⟨line.text, tidy line.declaration, true, []⟩ []).entries := by
  have hend : endsWith (line.type.text ++ (join [','] (line.row.map Starred.text) ++ [';'])) ['{'] =
      false := by
    rw [← List.append_assoc, endsWith_append_singleton]
    rfl
  have hline : readLine {} line.text [] = readStatements {} [] (statements line.text) :=
    readLine_typed line.type hend {} []
  rw [Body.read, readFrom, hline, statements_text, readStatements_singleton rfl]
  simp only [readFrom, List.append_nil]

end StarredLine

namespace StarredLine

theorem mark_of_mem_head? (line : StarredLine) :
    ∀ c ∈ (line.first.extent.tidied ++ line.more.flatMap fun d => ',' :: d.tidied).head?,
      c = ',' ∨ c = '[' ∨ c = ':' := by
  refine mark_of_mem_head?_tidied line.first.extent ?_
  cases line.more with
  | nil => exact fun c hc => by cases hc
  | cons d more => exact fun c hc => (Option.some.inj hc).symm

theorem isMark_of_mem_lead (line : StarredLine) :
    ∀ c ∈ line.type.text ++ (line.first.stars.1 ++ line.first.name.1), isMark c = false :=
  List.forall_mem_append.mpr ⟨fun _ => line.type.isMark_of_mem, fun _ => Starred.isMark_of_mem⟩

/-- Without a blank ahead of the first name, the line declares nothing. -/
theorem read_unparted (h : ∀ c ∈ line.type.text ++ line.first.stars.1, isBlank c = false) :
    Body.read [line.text] = [.invalid line.text] := by
  have hword := (isWord_identifier line.first.name).append h
  rw [List.append_assoc] at hword
  have hsolid := all_isSolid_iff.mpr fun c hc => ⟨hword.2 c hc, line.isMark_of_mem_lead c hc⟩
  have hparts := typeAndNames?_eq_none hsolid line.mark_of_mem_head?
  have hempty : (tidy line.declaration).isEmpty = false := by
    rw [tidy_declaration, hword.collapse_eq]
    simp [line.apart]
  rw [read_text, readStatement, hempty, tidy_declaration, hword.collapse_eq, hparts]
  rfl

/-- The last blank ahead of the first name: what stands ahead of it is the type of all variables, what
stands behind it goes to the first name. -/
structure Parting (line : StarredLine) where
  front : Text
  blank : Blank
  run : Text
  split : line.type.text ++ line.first.stars.1 = front ++ blank.1 :: run
  solid : ∀ c ∈ run, isBlank c = false

namespace Parting

variable (p : Parting line)

def named : Text := p.run ++ line.first.name.1

theorem isWord_named : IsWord p.named := (isWord_identifier line.first.name).append p.solid

theorem lead_eq : line.type.text ++ (line.first.stars.1 ++ line.first.name.1) =
    p.front ++ p.blank.1 :: p.named := by
  rw [← List.append_assoc, p.split, List.append_assoc, List.cons_append, named]

theorem isMark_of_mem_named {c : Char} (hc : c ∈ p.named) : isMark c = false := by
  refine line.isMark_of_mem_lead c ?_
  rw [p.lead_eq]
  exact List.mem_append_right _ (List.mem_cons_of_mem _ hc)

theorem isMark_of_mem_type {c : Char} (hc : c ∈ collapse p.front) : isMark c = false := by
  rcases mem_of_mem_collapse hc with rfl | hc
  · rfl
  · refine line.isMark_of_mem_lead c ?_
    rw [p.lead_eq]
    exact List.mem_append_left _ hc

/-- The first word of the type stands ahead of the blank. -/
theorem words_front_ne_nil : words p.front ≠ [] := by
  obtain ⟨c, s, hcons, hc⟩ := exists_text_cons line.type
  have hblank : isBlank c = false := Macro.isBlank_eq_false hc
  have hsplit := p.split
  rw [hcons, List.cons_append] at hsplit
  cases hfront : p.front with
  | nil =>
    rw [hfront] at hsplit
    rw [(List.cons.inj hsplit).1, p.blank.2] at hblank
    cases hblank
  | cons d r =>
    rw [hfront] at hsplit
    obtain rfl : c = d := (List.cons.inj hsplit).1
    obtain ⟨w, hw, -⟩ := exists_mem_words (t := c :: r) List.mem_cons_self hblank
    exact List.ne_nil_of_mem hw

theorem tidy_declaration :
    tidy line.declaration = collapse p.front ++ ' ' :: (p.named ++
      (line.first.extent.tidied ++ line.more.flatMap fun d => ',' :: d.tidied)) := by
  have hcollapse : collapse (p.front ++ p.blank.1 :: p.named) = collapse p.front ++ ' ' :: p.named :=
    @collapse_append_word _ _ _ [] p.words_front_ne_nil p.blank.2 (List.forall_mem_nil _)
      p.isWord_named
  rw [line.tidy_declaration, p.lead_eq, hcollapse, List.append_assoc, List.cons_append]

/-- What the declarators of the line come to. -/
def declared : List Declarator := line.first.declaredAs p.named :: line.more.map Starred.declared

theorem declarators_eq :
    declarators (p.named ++
      (line.first.extent.tidied ++ line.more.flatMap fun d => ',' :: d.tidied)) = p.declared := by
  have hjoin : p.named ++ (line.first.extent.tidied ++ line.more.flatMap fun d => ',' :: d.tidied) =
      join [','] ((p.named ++ line.first.extent.tidied) :: line.more.map Starred.tidied) := by
    rw [join_cons, List.flatMap_map, ← List.append_assoc]
    rfl
  have hpieces : ∀ piece ∈ (p.named ++ line.first.extent.tidied) :: line.more.map Starred.tidied,
      ',' ∉ piece ∧ trim piece = piece ∧ piece ≠ [] := by
    refine List.forall_mem_cons.mpr ⟨?_, List.forall_mem_map.mpr fun d _ => d.piece_tidied⟩
    exact Starred.piece_append_tidied (fun _ => p.isMark_of_mem_named) p.isWord_named.trim_eq
      p.isWord_named.1 line.first
  rw [hjoin, declarators_join (List.cons_ne_nil _ _) hpieces, List.map_cons, List.map_map,
    Starred.ofText_append_tidied fun _ => p.isMark_of_mem_named]
  exact congrArg _ (List.map_congr_left fun d _ => d.ofText_tidied)

theorem read_eq :
    Body.read [line.text] = p.declared.map (entryOf (collapse p.front) [] line.text) := by
  have hsolid := all_isSolid_iff.mpr fun c hc => ⟨p.isWord_named.2 c hc, p.isMark_of_mem_named hc⟩
  have hparts := typeAndNames?_append (fun _ => p.isMark_of_mem_type) hsolid line.mark_of_mem_head?
  rw [trim_collapse] at hparts
  have hstatement := @readStatement_declares {} ⟨line.text, _, true, []⟩ (collapse p.front) _
    (by simp) (by rintro ⟨⟩) hparts []
  rw [read_text, p.tidy_declaration, hstatement, p.declarators_eq]
  rfl

end Parting
end StarredLine

end StructTables.Spelled

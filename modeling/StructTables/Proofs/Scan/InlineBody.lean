import StructTables.Proofs.Body.Sequence
import StructTables.Proofs.Canonical.Outline
import StructTables.Proofs.Outline.Inline
import StructTables.Proofs.Scan.Agreement

/-! # Structures on one line

A structure that is defined on one line is broken into its opening, its body and its closing. The body
stays one line, and of the declarations on that line those are read that a body line can hold. -/

namespace StructTables.Outline
open Text

/-- Without a brace below, a line opens no body. -/
theorem reopening?_eq_none_of_no_brace {line : Text} (hline : '{' ∉ line) {below : List Text}
    (hbelow : ∀ row ∈ below, '{' ∉ row) : reopening? line below = none := by
  have hends : endsWith (trimEnd (Comment.code line)) ['{'] = false := by
    obtain ⟨trail, hcode, -⟩ := exists_trimEnd_append (Comment.code line)
    refine Body.endsWith_brace_eq_false fun hmem => hline ?_
    exact (Comment.code_prefix_self line).subset (hcode ▸ List.mem_append_left trail hmem)
  have hfirst : (firstCode? below).any (fun code => startsWith code ['{']) = false := by
    cases hcode : firstCode? below with
    | none => rfl
    | some code =>
      obtain ⟨row, hrow, hfound⟩ := List.exists_of_findSome?_eq_some hcode
      obtain ⟨-, rfl⟩ : _ ∧ trim (Comment.code row) = code := by simpa using hfound
      refine Bool.eq_false_iff.mpr fun hstarts => hbelow row hrow ?_
      have hmem : '{' ∈ trim (Comment.code row) :=
        (List.isPrefixOf_iff_prefix.mp hstarts).subset (List.mem_singleton.mpr rfl)
      exact (Comment.code_prefix_self row).subset (mem_of_mem_trim hmem)
  have hopens : opensBody line below = false := by rw [opensBody, hends, hfirst]; rfl
  rw [reopening?, Option.filter_eq_none_iff]
  simp [hopens]

/-- Lines without braces and without comments are the body of a structure. -/
theorem regionsFrom_rows (opening : Opening) {rows : List Text}
    (hplain : ∀ row ∈ rows, '{' ∉ row ∧ '}' ∉ row ∧ Comment.code row = row) {closing : Text}
    (hclosing : closes closing = true) (hbrace : '{' ∉ closing) (body : List Text) (number : Nat) :
    regionsFrom number (.inside opening body false) (rows ++ [closing]) =
      [.closed opening (body ++ rows) closing] := by
  induction rows generalizing body number with
  | nil => rw [List.nil_append, regionsFrom_closing _ _ hclosing, List.append_nil]; rfl
  | cons row more ih =>
    obtain ⟨⟨hopen, hclose, hcode⟩, hmore⟩ := List.forall_mem_cons.mp hplain
    have hbelow : ∀ below ∈ more ++ [closing], '{' ∉ below :=
      List.forall_mem_append.mpr
        ⟨fun row hrow => (hmore row hrow).1, List.forall_mem_singleton.mpr hbrace⟩
    have hnext : Comment.openAfter false row = false := by
      rw [← Comment.openAfter_cut, Comment.cut_eq_self hcode]
      rfl
    rw [List.cons_append, regionsFrom_body opening body (closes_eq_false hclose)
      (reopening?_eq_none_of_no_brace hopen hbelow), hnext, ih hmore, List.append_assoc]
    rfl

end StructTables.Outline

namespace StructTables.Scan
open Text Outline Body

/-- The frame of a structure on lines of its own: its opening line and its closing line. -/
def frame (name : Canonical.Identifier) : Canonical.Definition :=
  { form := .tagged, name := name, fields := [], distinct := List.nodup_nil }

/-- A structure with each of its parts on a line of its own. -/
def definedOnLines (name : Canonical.Identifier) (parts : List Part) : List Text :=
  (frame name).openingLine :: (parts.map Part.line ++ [(frame name).closingLine])

/-- The same structure on one line. -/
def definedInline (name : Canonical.Identifier) (parts : List Part) : Text :=
  (frame name).openingLine ++ ' ' :: (sharedLine parts ++ ' ' :: (frame name).closingLine)

example : definedInline ⟨"S".toList, rfl⟩ [⟨"int a".toList, by decide, by decide, by simp⟩] =
    "struct S \x7b int a; \x7d;".toList := by
  decide

theorem closingLine_frame (name : Canonical.Identifier) : (frame name).closingLine = ['}', ';'] := rfl

/-- How much of a definition a scan adds does not depend on how its body is split into lines. -/
theorem addLines_rows (name : Canonical.Identifier) {rows : List Text}
    (hplain : ∀ row ∈ rows, '{' ∉ row ∧ '}' ∉ row ∧ Comment.code row = row) {lines : List Text}
    (hlines : brokenLines lines = (frame name).openingLine :: (rows ++ [(frame name).closingLine]))
    (scan : Scan) :
    scan.addLines lines =
      let (s, collector, log) :=
        Structure.addBody { name := name.1, form := .tagged } scan.collector rows
      { scan with
        collector := collector
        structures := scan.structures ++ [s]
        log := scan.log ++ log ++ [.extracted s.name s.members.length] } := by
  have hregions : regions lines =
      [.closed ⟨.tagged, name.1, 1⟩ rows (frame name).closingLine] := by
    rw [regions, hlines, regionsFrom_opening (frame name).opening?_openingLine,
      (frame name).openAfter_openingLine,
      regionsFrom_rows _ hplain (frame name).closes_closingLine (by simp [closingLine_frame])]
    rfl
  have hname : (closedName ⟨.tagged, name.1, 1⟩ (frame name).closingLine).isEmpty = false := by
    simpa [closedName] using Canonical.identifier_ne_nil name
  rw [addLines, hregions]
  exact addClosed_of_named hname scan rows

/-- Two bodies with the same entries, but for the texts that these quote, make the same structure. -/
theorem addLines_alike (name : Canonical.Identifier) {rows others : List Text}
    (hplain : ∀ row ∈ rows, '{' ∉ row ∧ '}' ∉ row ∧ Comment.code row = row)
    (hother : ∀ row ∈ others, '{' ∉ row ∧ '}' ∉ row ∧ Comment.code row = row)
    {lines otherLines : List Text}
    (hlines : brokenLines lines = (frame name).openingLine :: (rows ++ [(frame name).closingLine]))
    (hotherLines : brokenLines otherLines =
      (frame name).openingLine :: (others ++ [(frame name).closingLine]))
    (h : (Body.read rows).map Entry.unsourced = (Body.read others).map Entry.unsourced)
    (scan : Scan) :
    (scan.addLines lines).structures = (scan.addLines otherLines).structures ∧
      (scan.addLines lines).collector = (scan.addLines otherLines).collector ∧
      (scan.addLines lines).warnings.length = (scan.addLines otherLines).warnings.length := by
  obtain ⟨hstructure, hcollector, hwarnings⟩ :=
    addBody_alike { name := name.1, form := .tagged } scan.collector h
  rw [addLines_rows name hplain hlines, addLines_rows name hother hotherLines]
  have hlog : ∀ (log : List Event) (found : Text) (members : Nat),
      StructTables.warnings (scan.log ++ log ++ [.extracted found members]) =
        scan.warnings ++ StructTables.warnings log := fun log found members => by
    have hextracted : [Event.extracted found members].filterMap Event.warning? = [] := rfl
    rw [StructTables.warnings, List.filterMap_append, hextracted, List.append_nil,
      List.filterMap_append]
    rfl
  refine ⟨congrArg (scan.structures ++ [·]) hstructure, hcollector, ?_⟩
  simp only [Scan.warnings, hlog, List.length_append, hwarnings]

/-! ## Breaking the line -/

theorem brokenLines_definedOnLines (name : Canonical.Identifier) (parts : List Part) :
    brokenLines (definedOnLines name parts) = definedOnLines name parts := by
  have hparts : brokenLines (parts.map Part.line) = parts.map Part.line := by
    induction parts with
    | nil => rfl
    | cons part more ih =>
      have hbrace : '{' ∉ part.line := List.not_mem_append part.plain.2.1 (by decide)
      rw [List.map_cons, brokenLines, List.flatMap_cons, brokenLine_of_no_brace hbrace,
        ← brokenLines, ih]
      rfl
  rw [definedOnLines, brokenLines, List.flatMap_cons, List.flatMap_append, ← brokenLines, hparts,
    (frame name).brokenLine_openingLine, List.flatMap_singleton, (frame name).brokenLine_closingLine]
  rfl

/-- A line is broken behind the brace of the frame and ahead of its closing brace. -/
theorem brokenLine_frame (name : Canonical.Identifier) {behind inside : Text}
    (hbehind : trim behind = inside ++ (frame name).closingLine)
    (hbegins : Comment.begins (trim behind) = false) :
    brokenLine ((frame name).openingLine ++ behind) =
      if (trim inside).isEmpty then [(frame name).openingLine, (frame name).closingLine]
      else [(frame name).openingLine, trim inside, (frame name).closingLine] := by
  let before := "struct ".toList ++ name.1 ++ [' ']
  have hopening : (frame name).openingLine = before ++ ['{'] := by
    simp [before, frame, Canonical.Definition.openingLine]
  have hbrace : '{' ∉ before := by
    have hname : '{' ∉ name.1 := Macro.not_mem_of_all (Canonical.all_identifier name) rfl
    simp [before, hname]
  have hassigns : '=' ∉ before := fun hmem =>
    (frame name).not_mem_openingLine (c := '=') rfl (hopening ▸ List.mem_append_left _ hmem)
  have hnames : namesStructure ((frame name).openingLine ++ behind) = true := rfl
  have hcut : cutFirst? '{' ((frame name).openingLine ++ behind) = some (before, behind) := by
    rw [hopening, List.append_assoc, List.singleton_append, cutFirst?_append hbrace]
  have hwhole : (before.contains '=' || (trim behind).isEmpty ||
      Comment.begins (trim behind)) = false := by
    rw [hbegins, Bool.or_false]
    simp [hassigns, hbehind, closingLine_frame]
  have hlast : cutLast? '}' (trim behind) = some (inside, [';']) := by
    rw [hbehind, closingLine_frame]
    exact cutLast?_append inside (by decide)
  have hhead : trim (before ++ ['{']) = (frame name).openingLine := by
    rw [hopening]
    exact trim_cons_append ("truct ".toList ++ name.1 ++ [' ']) rfl rfl
  simp only [brokenLine, hnames, hcut, hwhole, hlast, hhead, Bool.not_true, Bool.false_eq_true,
    if_false]
  rfl

/-- The line of a structure is broken into its opening, its body and its closing. -/
theorem brokenLine_definedInline (name : Canonical.Identifier) {part : Part} {more : List Part}
    (htrim : trim part.text = part.text) :
    brokenLine (definedInline name (part :: more)) =
      [(frame name).openingLine, sharedLine (part :: more), (frame name).closingLine] := by
  have hstart : trimStart part.text = part.text :=
    trimStart_eq_self fun c hc => isBlank_head?_trim (t := part.text) (htrim.symm ▸ hc)
  have hbody : trim (sharedLine (part :: more)) = sharedLine (part :: more) := by
    rw [sharedLine_cons, trim_sequence, hstart]
  have hne : sharedLine (part :: more) ≠ [] := by simp [sharedLine_cons, Body.sequence]
  have hbehind : trim (' ' :: (sharedLine (part :: more) ++ ' ' :: (frame name).closingLine)) =
      (sharedLine (part :: more) ++ [' ']) ++ (frame name).closingLine := by
    obtain ⟨c, r, hcons⟩ := List.exists_cons_of_ne_nil hne
    have hc : isBlank c = false := isBlank_head?_trim (by rw [hbody, hcons]; rfl)
    have hends : (sharedLine (part :: more) ++ [' ']) ++ (frame name).closingLine =
        c :: ((r ++ [' ', '}']) ++ [';']) := by simp [hcons, closingLine_frame]
    rw [trim_cons_of_isBlank rfl, List.append_cons, hends, trim_cons_append _ hc rfl]
  have hbegins : Comment.begins
      (trim (' ' :: (sharedLine (part :: more) ++ ' ' :: (frame name).closingLine))) = false := by
    rw [hbehind, closingLine_frame, List.append_assoc]
    have hfree : Comment.code (sharedLine (part :: more) ++ ([' '] ++ ['}', ';'])) =
        sharedLine (part :: more) ++ ([' '] ++ ['}', ';']) := by
      have hline : Comment.code (sharedLine (part :: more)) = sharedLine (part :: more) := by
        rw [sharedLine_cons, code_sequence part.free]
      exact Comment.code_append_of_calm hline (Comment.calm_cons (c := ' ') (by decide) ['}', ';'])
    rw [← hfree, Comment.begins_code]
  rw [definedInline, brokenLine_frame name hbehind hbegins, trim_append_of_isBlank rfl, hbody,
    if_neg (by simpa using hne)]

theorem brokenLine_definedInline_nil (name : Canonical.Identifier) :
    brokenLine (definedInline name []) = [(frame name).openingLine, (frame name).closingLine] := by
  have hbehind : trim (' ' :: (sharedLine [] ++ ' ' :: (frame name).closingLine)) =
      [] ++ (frame name).closingLine := by
    rw [closingLine_frame]
    decide
  rw [definedInline, brokenLine_frame name hbehind (by rw [hbehind, closingLine_frame]; decide)]
  rfl

/-! ## Structures -/

/-- What a scan adds for a structure on one line is what it adds for the parts that are read. -/
theorem addLines_definedInline (name : Canonical.Identifier) {parts : List Part}
    (htrim : ∀ part ∈ parts, trim part.text = part.text) (scan : Scan) :
    let inline := scan.addLines [definedInline name parts]
    let lines := scan.addLines (definedOnLines name (readHere parts))
    inline.structures = lines.structures ∧ inline.collector = lines.collector ∧
      inline.warnings.length = lines.warnings.length := by
  have hrows : ∀ row ∈ (readHere parts).map Part.line,
      '{' ∉ row ∧ '}' ∉ row ∧ Comment.code row = row := by
    intro row hrow
    obtain ⟨part, -, rfl⟩ := List.mem_map.mp hrow
    obtain ⟨hopen, hclose⟩ := brace_not_mem_sequence part []
    exact ⟨hopen, hclose, code_sequence part.free []⟩
  have hlines := brokenLines_definedOnLines name (readHere parts)
  cases parts with
  | nil =>
    have hinline : brokenLines [definedInline name []] =
        (frame name).openingLine :: ([] ++ [(frame name).closingLine]) := by
      rw [brokenLines, List.flatMap_singleton, brokenLine_definedInline_nil]
      rfl
    exact addLines_alike name hrows hrows hinline hlines rfl scan
  | cons part more =>
    have hinline : brokenLines [definedInline name (part :: more)] =
        (frame name).openingLine :: ([sharedLine (part :: more)] ++ [(frame name).closingLine]) := by
      rw [brokenLines, List.flatMap_singleton,
        brokenLine_definedInline name (htrim part List.mem_cons_self)]
      rfl
    obtain ⟨hopen, hclose⟩ := brace_not_mem_sequence part more
    have hshared : ∀ row ∈ [sharedLine (part :: more)],
        '{' ∉ row ∧ '}' ∉ row ∧ Comment.code row = row := by
      rw [sharedLine_cons]
      exact List.forall_mem_singleton.mpr ⟨hopen, hclose, code_sequence part.free more⟩
    exact addLines_alike name hshared hrows hinline hlines
      (read_sharedLine_eq (part :: more)) scan

/-- Declarations that share a line come to what those on lines of their own come to, up to and including
the first that is invalid, be the line in a body or a whole structure. So none is lost if all but the last
are valid. This is about declarations with something in them: behind the last one only may there be
nothing ahead of a semicolon. -/
theorem read_from_shared_line (parts : List Part)
    (hne : ∀ part ∈ parts.dropLast, trim part.text ≠ []) :
    (∀ (owner : Structure) (collector : Macro.Collector),
      let line := owner.addBody collector [sharedLine parts]
      let lines := owner.addBody collector ((upToInvalid parts).map Part.line)
      line.1 = lines.1 ∧ line.2.1 = lines.2.1 ∧
        (StructTables.warnings line.2.2).length = (StructTables.warnings lines.2.2).length) ∧
    (∀ (name : Canonical.Identifier) (scan : Scan), (∀ part ∈ parts, trim part.text = part.text) →
      let inline := scan.addLines [definedInline name parts]
      let lines := scan.addLines (definedOnLines name (upToInvalid parts))
      inline.structures = lines.structures ∧ inline.collector = lines.collector ∧
        inline.warnings.length = lines.warnings.length) ∧
    ((∀ part ∈ parts.dropLast, part.isInvalid = false) → upToInvalid parts = parts) := by
  rw [upToInvalid_eq_readHere hne]
  exact ⟨fun owner collector => addBody_sharedLine parts owner collector,
    fun name scan htrim => addLines_definedInline name htrim scan,
    fun hvalid => upToInvalid_eq_readHere hne ▸ upToInvalid_eq_self hvalid⟩

/-- Of two declarations on the line of a structure, the second may be invalid: nothing stands behind it. -/
theorem read_from_shared_line_of_two :
    let parts : List Part := [
      ⟨"int a".toList, by decide, by decide, by simp⟩,
      ⟨"unnamed".toList, by decide, by decide, by simp⟩]
    let name : Canonical.Identifier := ⟨"S".toList, rfl⟩
    let scan := start [] .generic
    let inline := scan.addLines [definedInline name parts]
    let lines := scan.addLines (definedOnLines name (upToInvalid parts))
    (∀ part ∈ parts.dropLast, trim part.text ≠ []) ∧
      (∀ part ∈ parts, trim part.text = part.text) ∧
      (∀ part ∈ parts.dropLast, part.isInvalid = false) ∧
      (inline.structures = lines.structures ∧ inline.collector = lines.collector ∧
        inline.warnings.length = lines.warnings.length) ∧
      upToInvalid parts = parts ∧ inline.structures ≠ [] ∧ inline.warnings ≠ [] := by
  intro parts name scan inline lines
  have hne : ∀ part ∈ parts.dropLast, trim part.text ≠ [] := by decide +kernel
  have htrim : ∀ part ∈ parts, trim part.text = part.text := by decide +kernel
  have hvalid : ∀ part ∈ parts.dropLast, part.isInvalid = false := by decide +kernel
  obtain ⟨-, hinline, hall⟩ := read_from_shared_line parts hne
  exact ⟨hne, htrim, hvalid, hinline name scan htrim, hall hvalid, by decide +kernel,
    by decide +kernel⟩

/-- Behind an invalid declaration a variable is lost: of `unnamed; int b;` nothing is left but a warning,
while on a line of its own `int b;` is a member. -/
theorem lost_on_shared_line :
    ¬ ∀ (parts : List Part) (owner : Structure) (collector : Macro.Collector),
      let line := owner.addBody collector [sharedLine parts]
      let lines := owner.addBody collector (parts.map Part.line)
      line.1 = lines.1 ∧ line.2.1 = lines.2.1 ∧
        (StructTables.warnings line.2.2).length = (StructTables.warnings lines.2.2).length := by
  intro h
  let parts : List Part := [
    ⟨"unnamed".toList, by decide, by decide, by simp⟩,
    ⟨"int b".toList, by decide, by decide, by simp⟩]
  have hsame := (h parts { name := "S".toList, form := .tagged } .plain).1
  revert hsame
  decide +kernel

end StructTables.Scan

import StructTables.Proofs.Body.Assembly
import StructTables.Proofs.Body.Lines
import StructTables.Proofs.Comment.Code
import StructTables.Proofs.Declaration.Statement
import StructTables.Proofs.Declaration.Tidy

/-! # Several declarations on one line

A line is read statement by statement, up to and including the first one that declares nothing. Up to
there it makes no difference whether the declarations share a line or stand on lines of their own, but
for the text that warnings quote. A declaration without a type is warned of, and the rest of its line is
skipped with it. -/

namespace StructTables.Declaration
open Text

/-- Whether a statement declares something, be it a variable without a name: what stands behind it on
the line is read as well. -/
def declares (t : Text) : Bool := (typeAndNames? (tidy t)).isSome

theorem declares_trimStart (t : Text) : declares (trimStart t) = declares t := by
  rw [declares, tidy_trimStart, declares]

end StructTables.Declaration

namespace StructTables.Body
open Text Declaration

/-- A declaration that could stand on a line of its own, without its terminator. -/
structure Part where
  text : Text
  free : Comment.code text = text
  plain : ';' ∉ text ∧ '{' ∉ text ∧ '}' ∉ text
  start : ∀ c ∈ text.head?, c ≠ '#' ∧ c ≠ '*' ∧ c ≠ '\\'

namespace Part

def line (part : Part) : Text := part.text ++ [';']

def declares (part : Part) : Bool := Declaration.declares part.text

/-- Whether the declaration says something, but not of what type. -/
def isInvalid (part : Part) : Bool := !(trim part.text).isEmpty && !part.declares

end Part

/-- All parts on one line. -/
def sharedLine (parts : List Part) : Text := join [' '] (parts.map Part.line)

/-- The parts that are read where all stand on one line. -/
def readHere : List Part → List Part
  | [] => []
  | part :: more => part :: if part.declares then readHere more else []

/-- The parts up to and including the first that is invalid. -/
def upToInvalid : List Part → List Part
  | [] => []
  | part :: more => part :: if part.isInvalid then [] else upToInvalid more

/-- The two differ only where something stands behind a part that is empty. -/
theorem upToInvalid_eq_readHere {parts : List Part}
    (h : ∀ part ∈ parts.dropLast, trim part.text ≠ []) : upToInvalid parts = readHere parts := by
  induction parts with
  | nil => rfl
  | cons part more ih =>
    cases more with
    | nil => simp [upToInvalid, readHere]
    | cons next more =>
      rw [List.dropLast_cons_of_ne_nil (List.cons_ne_nil next more)] at h
      obtain ⟨hpart, hmore⟩ := List.forall_mem_cons.mp h
      have hinvalid : part.isInvalid = !part.declares := by simp [Part.isInvalid, hpart]
      rw [upToInvalid, readHere, hinvalid, ih hmore]
      cases part.declares <;> rfl

theorem upToInvalid_eq_self {parts : List Part}
    (h : ∀ part ∈ parts.dropLast, part.isInvalid = false) : upToInvalid parts = parts := by
  induction parts with
  | nil => rfl
  | cons part more ih =>
    cases more with
    | nil => simp [upToInvalid]
    | cons next more =>
      rw [List.dropLast_cons_of_ne_nil (List.cons_ne_nil next more)] at h
      obtain ⟨hpart, hmore⟩ := List.forall_mem_cons.mp h
      rw [upToInvalid, hpart, if_neg Bool.false_ne_true, ih hmore]

/-! ## Statements -/

/-- A text behind which parts stand on the same line. -/
def sequence (t : Text) (more : List Part) : Text :=
  t ++ ';' :: more.flatMap fun part => ' ' :: part.line

theorem sharedLine_cons (part : Part) (more : List Part) :
    sharedLine (part :: more) = sequence part.text more := by
  rw [sharedLine, List.map_cons, join_cons, List.flatMap_map, sequence, Part.line]
  simp

theorem code_sequence {t : Text} (ht : Comment.code t = t) (more : List Part) :
    Comment.code (sequence t more) = sequence t more := by
  induction more generalizing t with
  | nil =>
    rw [sequence, Comment.code_append_of_calm ht (Comment.calm_cons (by decide) _)]
    rfl
  | cons part more ih =>
    have hmore := ih part.free
    have hsplit : sequence t (part :: more) = t ++ ';' :: ' ' :: sequence part.text more := by
      simp [sequence, Part.line]
    rw [hsplit, Comment.code_append_of_calm ht (Comment.calm_cons (by decide) _),
      Comment.code_cons_of_not_begins (Comment.begins_cons_eq_false (by decide) _),
      Comment.code_cons_of_not_begins (Comment.begins_cons_eq_false (by decide) _), hmore]

theorem exists_sequence_concat (t : Text) (more : List Part) : ∃ r, sequence t more = r ++ [';'] := by
  rcases List.eq_nil_or_concat more with rfl | ⟨init, last, rfl⟩
  · exact ⟨t, rfl⟩
  · exact ⟨t ++ ';' :: (init.flatMap fun part => ' ' :: part.line) ++ ' ' :: last.text,
      by simp [sequence, Part.line]⟩

/-- The rest of a line is trimmed before it is read on. -/
theorem trim_sequence (t : Text) (more : List Part) :
    trim (sequence t more) = sequence (trimStart t) more := by
  have hstart : trimStart (sequence t more) = sequence (trimStart t) more := by
    induction t with
    | nil => rfl
    | cons c r ih =>
      cases hc : isBlank c with
      | true =>
        rw [sequence, List.cons_append, trimStart, trimStart, List.dropWhile_cons_of_pos hc,
          List.dropWhile_cons_of_pos hc]
        exact ih
      | false =>
        rw [sequence, List.cons_append, trimStart, trimStart,
          List.dropWhile_cons_of_neg (by simp [hc]), List.dropWhile_cons_of_neg (by simp [hc])]
        rfl
  obtain ⟨r, hr⟩ := exists_sequence_concat (trimStart t) more
  rw [trim, hstart]
  refine trimEnd_eq_self fun c hc => ?_
  rw [hr, List.getLast?_concat] at hc
  exact Option.some.inj hc ▸ rfl

/-- The statements of a line of declarations. -/
theorem statements_sequence {t : Text} (ht : Comment.code t = t) (hplain : ';' ∉ t)
    (more : List Part) :
    statements (sequence t more) =
      ⟨sequence t more, tidy t, true, []⟩ ::
        match more with
        | [] => []
        | part :: more => statements (sequence (trimStart part.text) more) := by
  have hterm : terminator? (sequence t more) =
      some (t, more.flatMap fun part => ' ' :: part.line) := by
    rw [terminator?, code_sequence ht, if_pos (by simp [sequence]), sequence, cutFirst?_append hplain]
  cases more with
  | nil =>
    rw [statements_of_terminator hterm, firstStatement, hterm]
    rfl
  | cons part more =>
    have hcons : ((part :: more).flatMap fun part => ' ' :: part.line) =
        ' ' :: sequence part.text more := by simp [sequence, Part.line]
    have hrest : trim ((part :: more).flatMap fun part => ' ' :: part.line) =
        sequence (trimStart part.text) more := by
      rw [hcons, trim_cons_of_isBlank rfl, trim_sequence]
    have hfree : Comment.code (sequence (trimStart part.text) more) =
        sequence (trimStart part.text) more :=
      code_sequence (by rw [Comment.code_trimStart, part.free]) more
    have hbegins : Comment.begins (sequence (trimStart part.text) more) = false := by
      rw [← hfree, Comment.begins_code]
    have hempty : (sequence (trimStart part.text) more).isEmpty = false := by simp [sequence]
    rw [statements_of_terminator hterm, firstStatement, hterm]
    simp only [hrest, hempty, hbegins, Bool.or_self, Bool.false_eq_true, if_false]

/-! ## Entries -/

/-- The entry without the text that it quotes. -/
def Entry.unsourced : Entry → Entry
  | .invalid _ => .invalid []
  | entry => entry

/-- What a terminated statement without a comment comes to, whatever the type above it was. -/
def entriesOf (t : Text) : List Entry :=
  (readStatement {} ⟨[], tidy t, true, []⟩ []).entries.map Entry.unsourced

theorem entriesOf_trimStart (t : Text) : entriesOf (trimStart t) = entriesOf t := by
  rw [entriesOf, tidy_trimStart, entriesOf]

theorem unsourced_entryOf (dataType description source : Text) (declarator : Declarator) :
    (entryOf dataType description source declarator).unsourced =
      (entryOf dataType description [] declarator).unsourced := by
  unfold entryOf
  split <;> rfl

/-- No statement leaves more behind than the type that it had. -/
theorem readStatement_part (dataType source t : Text) :
    let reading := readStatement { dataType := dataType } ⟨source, tidy t, true, []⟩ []
    (∃ next, reading.context = { dataType := next }) ∧ reading.goesOn = declares t ∧
      reading.entries.map Entry.unsourced = entriesOf t := by
  rw [entriesOf]
  cases hempty : (tidy t).isEmpty with
  | true =>
    have hdeclares : declares t = false := by
      rw [declares, List.isEmpty_iff.mp hempty]
      rfl
    simp [readStatement, hempty, hdeclares]
  | false =>
    cases hparts : typeAndNames? (tidy t) with
    | none => simp [readStatement, hempty, declares, hparts, Entry.unsourced]
    | some parts =>
      have hentries := List.map_congr_left fun declarator (_ : declarator ∈ declarators parts.2) =>
        unsourced_entryOf parts.1 [] source declarator
      simpa [readStatement, hempty, declares, hparts, Context.description, join] using hentries

/-- The rest of a line is read on as long as each statement of it declares something. -/
theorem readStatements_sequence {t : Text} (ht : Comment.code t = t) (hplain : ';' ∉ t)
    (more : List Part) (dataType : Text) (below : List Text) :
    let reading := readStatements { dataType := dataType } below (statements (sequence t more))
    (∃ next, reading.context = { dataType := next }) ∧ reading.taken = 0 ∧
      reading.entries.map Entry.unsourced =
        entriesOf t ++ if declares t then (readHere more).flatMap (entriesOf ·.text) else [] := by
  induction more generalizing t dataType with
  | nil =>
    obtain ⟨hcontext, -, hentries⟩ := readStatement_part dataType (sequence t []) t
    rw [statements_sequence ht hplain, readStatements_singleton rfl]
    exact ⟨hcontext, rfl, by simpa [readHere] using hentries⟩
  | cons part more ih =>
    have hfree : Comment.code (trimStart part.text) = trimStart part.text := by
      rw [Comment.code_trimStart, part.free]
    have hrest : ';' ∉ trimStart part.text := fun hmem =>
      part.plain.1 ((List.dropWhile_sublist _).subset hmem)
    have hmore : (statements (sequence (trimStart part.text) more)).isEmpty = false := by
      simpa using statements_ne_nil _
    have hcomment : Comment.read [] below = ⟨[], 0⟩ := rfl
    obtain ⟨⟨next, hcontext⟩, hgoesOn, hentries⟩ :=
      readStatement_part dataType (sequence t (part :: more)) t
    rw [statements_sequence ht hplain]
    simp only [readStatements, hcomment, hmore, Bool.not_false, Bool.and_true, hgoesOn]
    cases declares t with
    -- the rest of the line is not looked at
    | false => exact ⟨⟨next, hcontext⟩, rfl, by simpa using hentries⟩
    | true =>
      obtain ⟨hnext, htaken, hbehind⟩ := ih hfree hrest next
      rw [declares_trimStart, entriesOf_trimStart] at hbehind
      simp only [hcontext, if_true, List.map_append, hentries, hbehind]
      refine ⟨hnext, htaken, ?_⟩
      cases h : declares part.text <;> simp [readHere, Part.declares, h]

/-! ## Bodies -/

theorem not_mem_sequence {c : Char} (hc : c ∉ [';', ' ']) (h : ∀ part : Part, c ∉ part.text)
    (part : Part) (more : List Part) : c ∉ sequence part.text more := by
  obtain ⟨hterminator, hblank⟩ : c ≠ ';' ∧ c ≠ ' ' := by simpa using hc
  simp [sequence, Part.line, h, hterminator, hblank]

theorem brace_not_mem_sequence (part : Part) (more : List Part) :
    '{' ∉ sequence part.text more ∧ '}' ∉ sequence part.text more :=
  ⟨not_mem_sequence (by decide) (fun part => part.plain.2.1) part more,
    not_mem_sequence (by decide) (fun part => part.plain.2.2) part more⟩

theorem readLine_sequence (part : Part) (more : List Part) (context : Context)
    (below : List Text) :
    readLine context (sequence part.text more) below =
      readStatements context below (statements (sequence part.text more)) := by
  have hbegins : Comment.begins (sequence part.text more) = false := by
    rw [← code_sequence part.free, Comment.begins_code]
  have hstart : ∀ c ∈ (sequence part.text more).head?,
      c ≠ '{' ∧ c ≠ '*' ∧ c ≠ '#' ∧ c ≠ '\\' := by
    intro c hc
    cases htext : part.text with
    | nil =>
      rw [htext] at hc
      obtain rfl : c = ';' := (Option.some.inj hc).symm
      decide
    | cons d r =>
      rw [htext] at hc
      obtain rfl : c = d := (Option.some.inj hc).symm
      obtain ⟨hhash, hstar, hslash⟩ := part.start c (by rw [htext]; rfl)
      refine ⟨fun heq => part.plain.2.1 ?_, hstar, hhash, hslash⟩
      rw [htext, heq]
      exact List.mem_cons_self
  have hend := endsWith_brace_eq_false (brace_not_mem_sequence part more).1
  refine readLine_eq_readStatements hbegins ?_ context below
  cases hline : sequence part.text more with
  | nil => simp [sequence] at hline
  | cons c r =>
    rw [hline] at hstart hend
    exact isSkipped_eq_false (hstart c rfl) hend

/-- Declarations on lines of their own are all read. -/
theorem readFrom_lines (parts : List Part) (dataType : Text) :
    (readFrom { dataType := dataType } 0 (parts.map Part.line)).map Entry.unsourced =
      parts.flatMap (entriesOf ·.text) := by
  induction parts generalizing dataType with
  | nil => rfl
  | cons part more ih =>
    obtain ⟨⟨next, hcontext⟩, htaken, hentries⟩ :=
      readStatements_sequence part.free part.plain.1 [] dataType (more.map Part.line)
    have hline : part.line = sequence part.text [] := rfl
    rw [List.map_cons, readFrom, hline, readLine_sequence]
    simp only [hcontext, htaken, List.map_append, hentries, ih]
    simp [readHere]

theorem read_sharedLine (parts : List Part) :
    (Body.read [sharedLine parts]).map Entry.unsourced =
      (readHere parts).flatMap (entriesOf ·.text) := by
  cases parts with
  | nil => rfl
  | cons part more =>
    obtain ⟨-, -, hentries⟩ := readStatements_sequence part.free part.plain.1 more [] []
    rw [Body.read, readFrom, sharedLine_cons, readLine_sequence, List.map_append]
    simp only [readFrom, List.map_nil, List.append_nil]
    rw [show ({} : Context) = { dataType := [] } from rfl, hentries]
    cases h : declares part.text <;> simp [readHere, Part.declares, h]

theorem read_sharedLine_eq (parts : List Part) :
    (Body.read [sharedLine parts]).map Entry.unsourced =
      (Body.read ((readHere parts).map Part.line)).map Entry.unsourced := by
  rw [read_sharedLine, Body.read, readFrom_lines]

/-! ## Members -/

/-- Two assemblies of which one may quote other texts in its warnings. -/
structure Assembly.Alike (a b : Assembly) : Prop where
  collector : a.collector = b.collector
  added : a.added = b.added
  warnings : (warnings a.log).length = (warnings b.log).length

theorem Assembly.Alike.add {a b : Assembly} (h : a.Alike b) (owner : Structure) {e f : Entry}
    (he : e.unsourced = f.unsourced) : (a.add owner e).Alike (b.add owner f) := by
  obtain ⟨collector, added, log⟩ := a
  obtain ⟨_, _, other⟩ := b
  obtain ⟨rfl, rfl, hlog⟩ := h
  have hreport : ∀ event, (StructTables.warnings (log ++ [event])).length =
      (StructTables.warnings (other ++ [event])).length := fun event => by
    simpa [StructTables.warnings, List.filterMap_append] using hlog
  match e, f, he with
  | .invalid _, .invalid _, _ =>
    refine ⟨rfl, rfl, ?_⟩
    simpa [Assembly.add, report, StructTables.warnings, Event.warning?] using hlog
  | .remark _, .remark _, rfl => exact ⟨rfl, rfl, hlog⟩
  | .variable dataType declarator description, .variable _ _ _, rfl =>
    have hcontains : (Assembly.mk collector added log).contains owner declarator.name =
        (Assembly.mk collector added other).contains owner declarator.name := rfl
    unfold Assembly.add
    dsimp only
    rw [hcontains]
    split
    · exact ⟨rfl, rfl, hreport _⟩
    · exact ⟨rfl, rfl, hlog⟩

theorem Assembly.Alike.foldl {a b : Assembly} (h : a.Alike b) (owner : Structure)
    {es fs : List Entry} (hs : es.map Entry.unsourced = fs.map Entry.unsourced) :
    (es.foldl (Assembly.add owner) a).Alike (fs.foldl (Assembly.add owner) b) := by
  induction es generalizing a b fs with
  | nil =>
    obtain rfl := List.map_eq_nil_iff.mp hs.symm
    exact h
  | cons e more ih =>
    obtain ⟨f, rest, rfl, he, hmore⟩ := List.map_eq_cons_iff.mp hs.symm
    exact ih (h.add owner he.symm) hmore.symm

/-- What two bodies add, and how much they warn of, is the same if they have the same entries but for
the texts that these quote. -/
theorem addBody_alike (owner : Structure) (collector : Macro.Collector) {body other : List Text}
    (h : (Body.read body).map Entry.unsourced = (Body.read other).map Entry.unsourced) :
    (owner.addBody collector body).1 = (owner.addBody collector other).1 ∧
      (owner.addBody collector body).2.1 = (owner.addBody collector other).2.1 ∧
      (warnings (owner.addBody collector body).2.2).length =
        (warnings (owner.addBody collector other).2.2).length := by
  have hstart : (Assembly.mk collector [] []).Alike (Assembly.mk collector [] []) :=
    ⟨rfl, rfl, rfl⟩
  obtain ⟨hcollector, hadded, hwarnings⟩ := hstart.foldl owner h
  refine ⟨?_, hcollector, hwarnings⟩
  rw [Structure.addBody, Structure.addBody]
  exact congrArg (fun added => { owner with members := owner.members ++ added }) hadded

/-- On one line, declarations are read up to the first that declares nothing. -/
theorem addBody_sharedLine (parts : List Part) (owner : Structure) (collector : Macro.Collector) :
    let line := owner.addBody collector [sharedLine parts]
    let lines := owner.addBody collector ((readHere parts).map Part.line)
    line.1 = lines.1 ∧ line.2.1 = lines.2.1 ∧
      (warnings line.2.2).length = (warnings lines.2.2).length :=
  addBody_alike owner collector (read_sharedLine_eq parts)

end StructTables.Body

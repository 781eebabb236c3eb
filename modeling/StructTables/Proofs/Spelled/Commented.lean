import StructTables.Proofs.Body.EmptyLines
import StructTables.Proofs.Body.Sequence
import StructTables.Proofs.Comment.Block
import StructTables.Proofs.Spelled.Starred

/-! # Comments around a declaration

A comment behind the semicolon of a declaration only describes. One ahead of it leaves the line without a
terminator: the line declares nothing then, and what stands ahead of the comment is the type of a
declaration that goes on below. The comment itself runs on until a line ends with the end of a block. -/

namespace StructTables
open Text

/-! ## Texts with comments -/

namespace Comment

/-- A block comment that is complete. -/
structure Block where
  inside : Text
  ends : ¬ ['*', '/'] <:+: inside

def Block.text (block : Block) : Text := '/' :: '*' :: (block.inside ++ ['*', '/'])

/-- A text with blocks in it, each with what stands behind it. -/
structure Remarked where
  start : Text
  more : List (Block × Text)

namespace Remarked

variable {t : Remarked}

def text (t : Remarked) : Text := t.start ++ t.more.flatMap fun part => part.1.text ++ part.2

/-- The text with a space in place of each block. -/
def spaced (t : Remarked) : Text := t.start ++ t.more.flatMap fun part => ' ' :: part.2

theorem blanks_of_spaced (h : IsBlanks t.spaced) :
    IsBlanks t.start ∧ ∀ part ∈ t.more, IsBlanks part.2 := by
  refine ⟨fun c hc => h c (List.mem_append_left _ hc), fun part hpart c hc => h c ?_⟩
  exact List.mem_append_right _ (List.mem_flatMap.mpr ⟨part, hpart, List.mem_cons_of_mem _ hc⟩)

/-- Blocks with nothing but blanks between them read as one block. -/
theorem exists_inside {more : List (Block × Text)} (hne : more ≠ [])
    (h : ∀ part ∈ more, IsBlanks part.2) :
    ∃ inside trail, IsBlanks trail ∧ more.flatMap (fun part => part.1.text ++ part.2) =
      '/' :: '*' :: (inside ++ ['*', '/']) ++ trail := by
  induction more with
  | nil => exact absurd rfl hne
  | cons part more ih =>
    obtain ⟨hpart, hmore⟩ := List.forall_mem_cons.mp h
    by_cases hlast : more = []
    · exact ⟨part.1.inside, part.2, hpart, by simp [hlast, Block.text]⟩
    · obtain ⟨inside, trail, htrail, heq⟩ := ih hlast hmore
      refine ⟨part.1.inside ++ '*' :: '/' :: (part.2 ++ '/' :: '*' :: inside), trail, htrail, ?_⟩
      rw [List.flatMap_cons, heq]
      simp [Block.text]

theorem trim_text (h : IsBlanks t.spaced) :
    trim t.text = [] ∨ ∃ inside, trim t.text = '/' :: '*' :: (inside ++ ['*', '/']) := by
  obtain ⟨hstart, hmore⟩ := blanks_of_spaced h
  rw [text, trim_append_of_blanks hstart]
  by_cases hne : t.more = []
  · exact .inl (by rw [hne]; rfl)
  · obtain ⟨inside, trail, htrail, heq⟩ := exists_inside hne hmore
    refine .inr ⟨inside, ?_⟩
    have hself := trim_cons_append ('*' :: (inside ++ ['*'])) (c := '/') (e := '/') rfl rfl
    rw [heq, trim_append_blanks htrail]
    simpa using hself

theorem endsWith_text (h : IsBlanks t.spaced) : endsWith t.text ['{'] = false := by
  obtain ⟨hstart, hmore⟩ := blanks_of_spaced h
  have hblanks : ∀ {s : Text}, IsBlanks s → endsWith s ['{'] = false := fun hs =>
    Body.endsWith_brace_eq_false (hs.not_mem rfl)
  rw [text]
  by_cases hne : t.more = []
  · rw [hne]
    exact endsWith_append_eq_false (hblanks hstart) rfl
  · obtain ⟨inside, trail, htrail, heq⟩ := exists_inside hne hmore
    have hend : endsWith ('/' :: '*' :: (inside ++ ['*', '/'])) ['{'] = false := by
      have hlast := endsWith_append_singleton ('/' :: '*' :: (inside ++ ['*'])) '/' '{'
      simpa using hlast
    rw [heq]
    exact endsWith_append_eq_false (hblanks hstart) (endsWith_append_eq_false hend (hblanks htrail))

end Remarked
end Comment

/-! ## What comments make no difference to -/

namespace Body
open Declaration Comment

/-- What an entry declares, without what it says and what it quotes. -/
def Entry.declares? (entry : Entry) : Option Entry := entry.bare?.map Entry.unsourced

theorem declares?_entryOf (dataType description other source quoted : Text) (declarator : Declarator) :
    (entryOf dataType description source declarator).declares? =
      (entryOf dataType other quoted declarator).declares? := by
  unfold entryOf
  split <;> rfl

theorem addBody_of_declares? (owner : Structure) (collector : Macro.Collector) {body other : List Text}
    (h : (read body).filterMap Entry.declares? = (read other).filterMap Entry.declares?) :
    (owner.addBody collector body).1.undescribed = (owner.addBody collector other).1.undescribed ∧
      (owner.addBody collector body).2.1 = (owner.addBody collector other).2.1 := by
  have hbare : ((read body).filterMap Entry.bare?).map Entry.unsourced =
      ((read other).filterMap Entry.bare?).map Entry.unsourced := by
    rw [List.map_filterMap, List.map_filterMap]
    exact h
  have hstart : (Assembly.mk collector [] []).Alike (Assembly.mk collector [] []) :=
    ⟨rfl, rfl, rfl⟩
  obtain ⟨hcollector, hadded, -⟩ := hstart.foldl owner hbare
  rw [← assemble, ← assemble, ← undescribed_assemble, ← undescribed_assemble] at hcollector hadded
  refine ⟨?_, hcollector⟩
  rw [Structure.addBody, Structure.addBody, Structure.undescribed, Structure.undescribed,
    List.map_append, List.map_append]
  exact congrArg (fun added => { owner with members := owner.members.map Member.undescribed ++ added })
    hadded

/-- A terminated declaration leaves the same behind, whatever is said beside it. -/
theorem readStatement_terminated (context : Context) (declaration source quoted beside other : Text)
    (said more : Text) :
    let first := readStatement context ⟨source, declaration, true, beside⟩ said
    let second := readStatement context ⟨quoted, declaration, true, other⟩ more
    first.context = second.context ∧
      first.entries.filterMap Entry.declares? = second.entries.filterMap Entry.declares? := by
  simp only [readStatement, Bool.not_true, Bool.false_and, Bool.false_eq_true, if_false]
  split
  · exact ⟨rfl, rfl⟩
  · split
    · exact ⟨rfl, rfl⟩
    · refine ⟨rfl, ?_⟩
      simp only [List.filterMap_map]
      exact List.filterMap_congr fun declarator _ => declares?_entryOf ..

/-- Without a terminator and a comma, a first statement is the type of the one below, and the comment
beside it is carried there. -/
theorem readStatements_remembered {declaration : Text} (hcomma : ',' ∉ declaration)
    (source comment : Text) (below : List Text) :
    readStatements {} below [⟨source, declaration, false, comment⟩] =
      { context :=
          { dataType := declaration
            continues := true
            carried := if declaration = [] then [] else (Comment.read comment below).text }
        taken := (Comment.read comment below).taken } := by
  by_cases hempty : declaration = []
  · simp [readStatements, readStatement, hempty]
  · simp [readStatements, readStatement, hempty, hcomma]

end Body

/-! ## Lines -/

namespace Spelled
open Declaration Comment Body

/-- A line of a declaration with comments in it, not at its very start. -/
structure CommentedLine where
  lead : Blanks
  type : DataType
  declarator : Starred
  /-- What stands ahead of the semicolon. -/
  ahead : Remarked
  behind : Remarked
  declaration : ahead.spaced = lead.1 ++ (type.text ++ declarator.text)
  begun : ahead.start ≠ []
  /-- A slash ahead of a block would begin a line comment with it. -/
  apart : ahead.more ≠ [] → ∀ c ∈ ahead.start.getLast?, c ≠ '/'
  blank : IsBlanks behind.spaced

namespace CommentedLine

variable (line : CommentedLine)

def text : Text := line.ahead.text ++ ';' :: line.behind.text

/-- The line with a space in place of each comment. -/
def spaced : Text := line.ahead.spaced ++ ';' :: line.behind.spaced

theorem start_prefix : line.ahead.start <+: line.lead.1 ++ (line.type.text ++ line.declarator.text) :=
  line.declaration ▸ List.prefix_append _ _

theorem code_start : code line.ahead.start = line.ahead.start := by
  have hlead : '/' ∉ line.lead.1 ++ line.type.text :=
    List.not_mem_append (line.lead.2.not_mem rfl) (not_mem_type line.type rfl rfl)
  have hdeclarator := line.declarator.code_append (r := []) fun c hc => by cases hc
  rw [List.append_nil] at hdeclarator
  refine code_eq_self_of_prefix line.start_prefix ?_
  rw [← List.append_assoc, Comment.code_append hlead, hdeclarator]
  exact congrArg _ (List.append_nil _)

theorem not_mem_start {c : Char} (hblank : isBlank c = false)
    (hcharacter : Macro.isIdentifierCharacter c = false) (h : c ∉ line.declarator.text) :
    c ∉ line.ahead.start := fun hc =>
  List.not_mem_append (line.lead.2.not_mem hblank)
    (List.not_mem_append (not_mem_type line.type hblank hcharacter) h) (line.start_prefix.subset hc)

/-- The line begins with a blank or with its type. -/
theorem exists_start_cons :
    ∃ c r, line.ahead.start = c :: r ∧ (isBlank c = true ∨ Macro.isIdentifierCharacter c = true) := by
  obtain ⟨c, r, hcons⟩ := List.exists_cons_of_ne_nil line.begun
  refine ⟨c, r, hcons, ?_⟩
  have hprefix := line.start_prefix
  rw [hcons] at hprefix
  obtain ⟨rest, hrest⟩ := hprefix
  cases hlead : line.lead.1 with
  | nil =>
    obtain ⟨d, s, htype, hd⟩ := exists_text_cons line.type
    rw [hlead, htype] at hrest
    exact .inr ((List.cons.inj hrest).1 ▸ hd)
  | cons d s =>
    rw [hlead] at hrest
    refine .inl ((List.cons.inj hrest).1 ▸ line.lead.2 d ?_)
    rw [hlead]
    exact List.mem_cons_self

theorem readLine_start {r : Text} (hend : endsWith (line.ahead.start ++ r) ['{'] = false)
    (below : List Text) :
    readLine {} (line.ahead.start ++ r) below =
      readStatements {} below (statements (line.ahead.start ++ r)) := by
  obtain ⟨c, s, hcons, hc⟩ := line.exists_start_cons
  have hno : ∀ d, isBlank d = false → Macro.isIdentifierCharacter d = false → c ≠ d := by
    rintro d hblank hcharacter rfl
    rcases hc with hc | hc
    · rw [hblank] at hc; cases hc
    · rw [hcharacter] at hc; cases hc
  rw [hcons] at hend ⊢
  refine readLine_eq_readStatements (begins_cons_eq_false (hno '/' rfl rfl) _) ?_ {} below
  exact isSkipped_eq_false ⟨hno '{' rfl rfl, hno '*' rfl rfl, hno '#' rfl rfl, hno '\\' rfl rfl⟩ hend

theorem endsWith_terminated (t : Text) {b : Text} (h : endsWith b ['{'] = false) :
    endsWith (t ++ ';' :: b) ['{'] = false := by
  have hsplit : t ++ ';' :: b = (t ++ [';']) ++ b := by simp
  rw [hsplit]
  exact endsWith_append_eq_false (endsWith_append_singleton t ';' '{') h

/-! ### Comments behind the semicolon -/

theorem statements_start {b : Text} (hb : trim b = [] ∨ begins (trim b) = true) :
    statements (line.ahead.start ++ ';' :: b) =
      [⟨line.ahead.start ++ ';' :: b, tidy line.ahead.start, true, trim b⟩] := by
  have hcode : ';' ∈ code (line.ahead.start ++ ';' :: b) := by
    rw [code_append_of_calm line.code_start (calm_cons (by decide) b),
      code_cons_of_not_begins (begins_cons_eq_false (by decide) b)]
    exact List.mem_append_right _ List.mem_cons_self
  exact statements_of_commented hcode
    (line.not_mem_start rfl rfl line.declarator.semicolon_not_mem) hb

theorem readLine_terminated {b : Text} (hend : endsWith b ['{'] = false)
    (hb : trim b = [] ∨ ∃ inside, trim b = '/' :: '*' :: (inside ++ ['*', '/'])) (below : List Text) :
    readLine {} (line.ahead.start ++ ';' :: b) below =
      let reading := readStatement {}
        ⟨line.ahead.start ++ ';' :: b, tidy line.ahead.start, true, trim b⟩
        (Comment.read (trim b) below).text
      { context := reading.context, entries := reading.entries } := by
  have hbegins : trim b = [] ∨ begins (trim b) = true := by
    refine hb.imp_right ?_
    rintro ⟨inside, heq⟩
    rw [heq]
    rfl
  have htaken : (Comment.read (trim b) below).taken = 0 := by
    rcases hb with heq | ⟨inside, heq⟩
    · rw [heq]
      rfl
    · rw [heq, Comment.read, continuation_block]
      rfl
  rw [line.readLine_start (endsWith_terminated _ hend), line.statements_start hbegins, readStatements]
  simp [htaken]

/-- Behind the semicolon, comments and spaces in their place are read alike. -/
theorem read_text_of_behind (h : line.ahead.more = []) (further : List Text) :
    (Body.read (line.text :: further)).filterMap Entry.declares? =
      (Body.read (line.spaced :: further)).filterMap Entry.declares? := by
  have htext : line.text = line.ahead.start ++ ';' :: line.behind.text := by
    simp [text, Remarked.text, h]
  have hspaced : line.spaced = line.ahead.start ++ ';' :: line.behind.spaced := by
    simp [spaced, Remarked.spaced, h]
  have htrim : trim line.behind.spaced = [] := trim_append_blanks line.blank []
  have hend : endsWith line.behind.spaced ['{'] = false :=
    endsWith_brace_eq_false (line.blank.not_mem rfl)
  have hfirst := line.readLine_terminated (Remarked.endsWith_text line.blank)
    (Remarked.trim_text line.blank) further
  have hsecond := line.readLine_terminated hend (.inl htrim) further
  obtain ⟨hcontext, hentries⟩ := readStatement_terminated {} (tidy line.ahead.start)
    (line.ahead.start ++ ';' :: line.behind.text) (line.ahead.start ++ ';' :: line.behind.spaced)
    (trim line.behind.text) (trim line.behind.spaced)
    (Comment.read (trim line.behind.text) further).text
    (Comment.read (trim line.behind.spaced) further).text
  rw [htext, hspaced, Body.read, Body.read, readFrom_cons, readFrom_cons, hfirst, hsecond]
  simp only [List.filterMap_append, hentries, hcontext]

/-! ### Comments ahead of the semicolon -/

/-- The line from its first comment on, if one stands ahead of the semicolon. -/
def comment : Text :=
  (line.ahead.more.flatMap fun part => part.1.text ++ part.2) ++ ';' :: line.behind.text

theorem text_eq : line.text = line.ahead.start ++ line.comment := by
  rw [text, Remarked.text, comment, List.append_assoc]

theorem exists_comment_eq (h : line.ahead.more ≠ []) :
    ∃ r, line.comment = '/' :: '*' :: (r ++ ';' :: line.behind.text) := by
  obtain ⟨⟨block, t⟩, more, hmore⟩ := List.exists_cons_of_ne_nil h
  refine ⟨block.inside ++ ['*', '/'] ++ (t ++ more.flatMap fun part => part.1.text ++ part.2), ?_⟩
  rw [comment, hmore]
  simp [Block.text]

theorem cut_text (h : line.ahead.more ≠ []) : cut line.text = (line.ahead.start, line.comment) := by
  have hcode : (cut line.text).1 = line.ahead.start := by
    obtain ⟨r, hr⟩ := line.exists_comment_eq h
    rw [← code, text_eq, hr, code_append_of_getLast? line.code_start (line.apart h),
      code_cons_of_begins rfl, List.append_nil]
  have hsplit := cut_append_cut line.text
  rw [hcode] at hsplit
  exact Prod.ext hcode (List.append_cancel_left (hsplit.trans line.text_eq))

/-- The lines below that the comment ahead of the semicolon leaves: with a comment behind the semicolon,
it ends with the line. -/
def left (below : List Text) : List Text :=
  if line.behind.more = [] then below.drop (throughEnd below).length else below

/-- What the comment ahead of the semicolon says, on its line and on those below that it takes. Beside a
type that is blank nothing is said. -/
def said (below : List Text) : Text :=
  if IsBlanks line.ahead.start then [] else (Comment.read line.comment below).text

theorem drop_taken (h : line.ahead.more ≠ []) (below : List Text) :
    below.drop (Comment.read line.comment below).taken = line.left below := by
  obtain ⟨r, hr⟩ := line.exists_comment_eq h
  obtain ⟨hstart, hmore⟩ := Remarked.blanks_of_spaced line.blank
  rw [left, Comment.read, ← continuation_trim, hr]
  by_cases hne : line.behind.more = []
  · have htext : '/' :: '*' :: (r ++ ';' :: line.behind.text) =
        ('/' :: ('*' :: r ++ [';'])) ++ line.behind.start := by
      simp [Remarked.text, hne]
    have hends : endsBlock ('/' :: ('*' :: r ++ [';'])) = false := by
      have hlast : ('/' :: ('*' :: r ++ [';'])) = ('/' :: '*' :: r) ++ [';'] := rfl
      rw [endsBlock, hlast]
      simp [endsWith, List.isSuffixOf, List.isPrefixOf]
    rw [if_pos hne, htext, trim_append_blanks hstart, trim_cons_append _ rfl rfl, continuation,
      trim_cons_append _ rfl rfl, hends]
    rfl
  · obtain ⟨inside, trail, htrail, heq⟩ := Remarked.exists_inside hne hmore
    have htext : '/' :: '*' :: (r ++ ';' :: line.behind.text) =
        ('/' :: '*' :: ((r ++ ';' :: (line.behind.start ++ '/' :: '*' :: inside)) ++ ['*', '/'])) ++
          trail := by
      rw [Remarked.text, heq]
      simp
    rw [if_neg hne, htext, trim_append_blanks htrail, continuation_trim, continuation_block]
    rfl

/-- A line with a comment ahead of its semicolon declares nothing: what stands ahead of that comment is
the type of the declaration that goes on below. -/
theorem readLine_of_ahead (h : line.ahead.more ≠ []) (below : List Text) :
    readLine {} line.text below =
      { context :=
          { dataType := tidy line.ahead.start
            continues := true
            carried := line.said below }
        taken := (Comment.read line.comment below).taken } := by
  have hcut := line.cut_text h
  have hsemicolon : ';' ∉ line.ahead.start :=
    line.not_mem_start rfl rfl line.declarator.semicolon_not_mem
  have hcomma : ',' ∉ tidy line.ahead.start := fun hc => by
    rcases mem_of_mem_tidyFrom hc with hc | hc
    · cases hc
    · exact line.not_mem_start rfl rfl line.declarator.comma_not_mem hc
  have hterm : terminator? line.text = none := by
    rw [terminator?, code, hcut, if_neg (by simpa using hsemicolon)]
  have hend : endsWith line.text ['{'] = false :=
    endsWith_terminated _ (Remarked.endsWith_text line.blank)
  have hline : readLine {} line.text below = readStatements {} below (statements line.text) := by
    rw [text_eq] at hend ⊢
    exact line.readLine_start hend below
  have hblank : tidy line.ahead.start = [] ↔ IsBlanks line.ahead.start :=
    tidyFrom_eq_nil_iff false false
  rw [hline, statements_of_unterminated hterm, firstStatement, hterm, hcut,
    readStatements_remembered hcomma]
  simp only [hblank, said]

/-! ### Bodies -/

/-- With no comment ahead of its semicolon, a line declares what it declares with a space in place of
each comment, and so do the lines below. With one there, it declares nothing, and its declaration goes
on behind the comment, with what that says carried along. -/
theorem addBody_commented :
    (line.ahead.more = [] → ∀ further owner collector,
      let commented := Structure.addBody owner collector (line.text :: further)
      let spaced := Structure.addBody owner collector (line.spaced :: further)
      commented.1.undescribed = spaced.1.undescribed ∧ commented.2.1 = spaced.2.1) ∧
    (line.ahead.more ≠ [] → ∀ further,
      let context : Context :=
        { dataType := tidy line.ahead.start
          continues := true
          carried := line.said further }
      Body.read (line.text :: further) = readFrom context 0 (line.left further)) := by
  constructor
  · intro h further owner collector
    exact addBody_of_declares? owner collector (line.read_text_of_behind h further)
  · intro h further context
    rw [Body.read, readFrom_cons, line.readLine_of_ahead h, line.drop_taken h, List.nil_append]

/-- `int a;` with a comment behind it. -/
def remarked : CommentedLine where
  lead := ⟨[], .nil⟩
  type := ⟨"int".toList, by decide +kernel, by decide +kernel, by decide +kernel⟩
  declarator := ⟨⟨" ".toList, by decide⟩, ⟨"a".toList, rfl⟩, .single, ⟨[], .nil⟩⟩
  ahead := ⟨"int a".toList, []⟩
  behind := ⟨" ".toList, [(⟨" one ".toList, by decide⟩, [])]⟩
  declaration := by decide +kernel
  begun := by decide
  apart := fun h => absurd rfl h
  blank := by decide

/-- `int a;` with a comment within it. -/
def interrupted : CommentedLine where
  lead := ⟨[], .nil⟩
  type := ⟨"int".toList, by decide +kernel, by decide +kernel, by decide +kernel⟩
  declarator := ⟨⟨"   ".toList, by decide⟩, ⟨"a".toList, rfl⟩, .single, ⟨[], .nil⟩⟩
  ahead := ⟨"int ".toList, [(⟨" one ".toList, by decide⟩, " a".toList)]⟩
  behind := ⟨[], []⟩
  declaration := by decide +kernel
  begun := by decide
  apart := fun _ => by rintro c ⟨⟩; decide
  blank := by decide

theorem addBody_remarked_interrupted :
    remarked.text = "int a; /* one */".toList ∧
      interrupted.text = "int /* one */ a;".toList ∧
      ((Structure.mk "S".toList .tagged []).addBody {} [remarked.text, "int b;".toList]).1.undescribed =
        ((Structure.mk "S".toList .tagged []).addBody {} [remarked.spaced, "int b;".toList]).1.undescribed ∧
      Body.read [interrupted.text, "int b;".toList] = [] := by
  refine ⟨by decide, by decide, ?_, ?_⟩
  · exact (remarked.addBody_commented.1 rfl ["int b;".toList] _ {}).1
  · have hread := interrupted.addBody_commented.2 (by decide) ["int b;".toList]
    have hleft : interrupted.left ["int b;".toList] = [] := by decide
    rw [hread, hleft, readFrom]

/-- The comment takes the declaration, and the lines below with it. -/
theorem addBody_interrupted_ne :
    interrupted.spaced = "int   a;".toList ∧
      ((Structure.mk "S".toList .tagged []).addBody {} [interrupted.text, "int b;".toList]).1.undescribed ≠
        ((Structure.mk "S".toList .tagged []).addBody {}
          [interrupted.spaced, "int b;".toList]).1.undescribed := by
  decide +kernel

end CommentedLine
end Spelled
end StructTables

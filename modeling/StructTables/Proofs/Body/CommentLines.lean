import StructTables.Proofs.Comment.Code
import StructTables.Proofs.Outline.Trace

/-! # Lines within a comment

The outline knows of every line of a body whether it begins within a block comment. The reading of the
body is not told: it finds the comments again, each behind the code of a line that it reads. A line
within a block gives no entry, then, as long as every block begins where the reading looks for one. -/

namespace StructTables.Comment
open Text

theorem beginsBlock_of_openAfter {t : Text} (hb : begins t = true) (h : openAfter false t = true) :
    beginsBlock t = true := by
  rcases Bool.or_eq_true_iff.mp hb with hblock | hline
  · exact hblock
  · rw [openAfter_of_beginsLine hline] at h
    cases h

end StructTables.Comment

namespace StructTables.Declaration
open Text Comment

theorem infix_of_terminator {line declaration after : Text}
    (h : terminator? line = some (declaration, after)) : trim after <:+: line := by
  obtain ⟨lead, trail, hsplit, -, -⟩ := exists_trim_append after
  have hline : line = declaration ++ ';' :: after := by
    unfold terminator? at h
    split at h
    · exact eq_of_cutFirst? h
    · cases h
  have hbehind : after <:+: line := ⟨declaration ++ [';'], [], by simp [hline]⟩
  exact List.IsInfix.trans ⟨lead, trail, hsplit.symm⟩ hbehind

/-- The code ahead of a terminator opens no block. -/
theorem openAfter_terminator {line declaration after : Text}
    (h : terminator? line = some (declaration, after)) :
    openAfter false (trim after) = openAfter false line := by
  unfold terminator? at h
  split at h
  case isFalse => cases h
  case isTrue hcode =>
    rw [openAfter_trim]
    induction line generalizing declaration with
    | nil => cases h
    | cons c r ih =>
      have hbegins : begins (c :: r) = false := by
        refine Bool.eq_false_iff.mpr ?_
        intro hb
        rw [code, cut, if_pos hb] at hcode
        cases hcode
      rw [openAfter_of_not_begins hbegins]
      unfold cutFirst? at h
      split at h
      case isTrue =>
        cases h
        rfl
      case isFalse hne =>
        obtain ⟨⟨before, rest⟩, hcut, heq⟩ := Option.map_eq_some_iff.mp h
        cases heq
        refine ih ?_ hcut
        rw [code, cut, hbegins, if_neg Bool.false_ne_true] at hcode
        simpa [code, Ne.symm hne] using hcode

end StructTables.Declaration

namespace StructTables.Body
open Text Comment Declaration

/-! ## Entries line by line -/

/-- The entries that each line gives, of lines of which the first `skip` belong to a comment that was
read before. -/
def entriesByLine (context : Context) (skip : Nat) : List Text → List (List Entry)
  | [] => []
  | line :: below =>
    match skip with
    | k + 1 => [] :: entriesByLine context k below
    | 0 =>
      let reading := readLine context line below
      reading.entries :: entriesByLine reading.context reading.taken below

theorem flatten_entriesByLine (context : Context) (skip : Nat) (lines : List Text) :
    (entriesByLine context skip lines).flatten = readFrom context skip lines := by
  induction lines generalizing context skip with
  | nil => rfl
  | cons line below ih =>
    cases skip with
    | zero => simp only [entriesByLine, readFrom, List.flatten_cons, ih]
    | succ k => simp only [entriesByLine, readFrom, List.flatten_cons, ih, List.nil_append]

/-! ## Comments of one line -/

theorem exists_taken_readStatements (context : Context) (below : List Text) (more : List Statement) :
    ∃ comment, (readStatements context below more).taken = (Comment.read comment below).taken := by
  induction more generalizing context with
  | nil => exact ⟨[], rfl⟩
  | cons statement more ih =>
    simp only [readStatements]
    split
    · exact ih _
    · exact ⟨statement.comment, rfl⟩

theorem exists_taken_readLine (context : Context) (line : Text) (below : List Text) :
    ∃ comment, (readLine context line below).taken = (Comment.read comment below).taken := by
  simp only [readLine]
  split
  · exact ⟨line, rfl⟩
  · split
    · exact ⟨[], rfl⟩
    · exact exists_taken_readStatements _ below _

/-- Whether the reading cannot miss a block that the line leaves open: it begins with a comment, or it
is a declaration line on which every statement ahead of the last one declares something. -/
def isReadThrough (line : Text) : Bool :=
  Comment.begins line ||
    !isSkipped line &&
      (statements line).dropLast.all fun statement => (typeAndNames? statement.declaration).isSome

theorem goesOn_readStatement {statement : Statement} (hterminated : statement.terminated = true)
    (h : (typeAndNames? statement.declaration).isSome = true) (context : Context) (comment : Text) :
    (readStatement context statement comment).goesOn = true := by
  obtain ⟨parts, hparts⟩ := Option.isSome_iff_exists.mp h
  have hne : statement.declaration.isEmpty = false := by
    refine Bool.eq_false_iff.mpr ?_
    intro hempty
    rw [List.isEmpty_iff.mp hempty] at hparts
    cases hparts
  cases hc : context.continues <;> simp [readStatement, hne, hterminated, hparts, hc]

theorem block_of_readStatements {line : Text} (hopen : openAfter false line = true)
    (hdeclare : ∀ statement ∈ (statements line).dropLast,
      (typeAndNames? statement.declaration).isSome = true)
    (context : Context) (below : List Text) :
    ∃ comment, beginsBlock comment = true ∧ openAfter false comment = true ∧ comment <:+: line ∧
      (readStatements context below (statements line)).taken =
        (Comment.read comment below).taken := by
  induction hn : line.length using Nat.strongRecOn generalizing line context with
  | _ n ih =>
    cases hterm : terminator? line with
    | none =>
      rw [statements_of_unterminated hterm]
      have hcomment : (firstStatement line).comment = (Comment.cut line).2 := by
        simp [firstStatement, hterm]
      rw [← openAfter_cut] at hopen
      refine ⟨(Comment.cut line).2, ?_, hopen, ?_, ?_⟩
      · rcases cut_comment_cases line with hnil | hbegins
        · rw [hnil] at hopen
          cases hopen
        · exact beginsBlock_of_openAfter hbegins hopen
      · exact List.IsSuffix.isInfix ⟨_, cut_append_cut line⟩
      · simp [readStatements, hcomment]
    | some parts =>
      obtain ⟨declaration, after⟩ := parts
      have hafter : openAfter false (trim after) = true := (openAfter_terminator hterm).trans hopen
      have hinfix := infix_of_terminator hterm
      rw [statements_of_terminator hterm] at hdeclare ⊢
      have hne : (trim after).isEmpty = false := by
        refine Bool.eq_false_iff.mpr ?_
        intro hempty
        rw [List.isEmpty_iff.mp hempty] at hafter
        cases hafter
      cases hb : Comment.begins (trim after) with
      | true =>
        have hcomment : (firstStatement line).comment = trim after := by
          simp [firstStatement, hterm, hb]
        refine ⟨trim after, beginsBlock_of_openAfter hb hafter, hafter, hinfix, ?_⟩
        simp [readStatements, hcomment]
      | false =>
        simp only [hne, hb, Bool.or_self, Bool.false_eq_true, if_false] at hdeclare ⊢
        rw [List.dropLast_cons_of_ne_nil (statements_ne_nil _)] at hdeclare
        obtain ⟨hfirst, hmore⟩ := List.forall_mem_cons.mp hdeclare
        have hgo : ∀ comment, (readStatement context (firstStatement line) comment).goesOn = true :=
          goesOn_readStatement (by simp [firstStatement, hterm]) hfirst context
        have hmoreNe : (statements (trim after)).isEmpty = false := by
          simpa using statements_ne_nil (trim after)
        obtain ⟨comment, hblock, hcomment, hin, htaken⟩ :=
          ih _ (hn ▸ length_terminator_lt hterm) hafter hmore
            (readStatement context (firstStatement line)
              (Comment.read (firstStatement line).comment below).text).context rfl
        refine ⟨comment, hblock, hcomment, hin.trans hinfix, ?_⟩
        rw [readStatements]
        simp only [hgo, hmoreNe, Bool.not_false, Bool.and_self, if_true]
        exact htaken

theorem block_of_readLine {line : Text} (hopen : openAfter false line = true)
    (hread : isReadThrough line = true) (context : Context) (below : List Text) :
    ∃ comment, beginsBlock comment = true ∧ openAfter false comment = true ∧ comment <:+: line ∧
      (readLine context line below).taken = (Comment.read comment below).taken := by
  simp only [readLine]
  cases hb : Comment.begins line with
  | true => exact ⟨line, beginsBlock_of_openAfter hb hopen, hopen, List.infix_rfl, rfl⟩
  | false =>
    simp only [isReadThrough, hb, Bool.false_or, Bool.and_eq_true, Bool.not_eq_true',
      List.all_eq_true] at hread
    rw [if_neg Bool.false_ne_true, if_neg (by simp [hread.1])]
    exact block_of_readStatements hopen hread.2 (context.enter line) below

/-- Behind the lines that are taken along with a line no block is open. -/
theorem foldl_openAfter_readLine {line : Text} {below : List Text}
    (hno : ∀ row ∈ line :: below, ¬ ['/', '*', '/'] <:+: row)
    (hread : openAfter false line = true → isReadThrough line = true) (context : Context)
    (hlt : (readLine context line below).taken < below.length) :
    (below.take (readLine context line below).taken).foldl openAfter (openAfter false line) =
      false := by
  obtain ⟨hline, hbelow⟩ := List.forall_mem_cons.mp hno
  cases hopen : openAfter false line with
  | false =>
    obtain ⟨comment, htaken⟩ := exists_taken_readLine context line below
    rw [htaken] at hlt ⊢
    exact foldl_openAfter_of_closed hbelow hlt
  | true =>
    obtain ⟨comment, hblock, hcomment, hin, htaken⟩ :=
      block_of_readLine hopen (hread hopen) context below
    rw [htaken] at hlt ⊢
    refine foldl_openAfter_of_block (beginsBlock_trim hblock) (fun hends => ?_) hbelow hlt
    rw [← hcomment]
    exact openAfter_of_endsBlock false hends fun hmark => hline (hmark.trans hin)

/-! ## Lines of a body -/

/-- The invariant is that no block is open behind the lines that are still to be skipped. -/
theorem entriesByLine_within_block {context : Context} {skip : Nat} {isOpen : Bool}
    {body : List Text}
    (hskip : skip < body.length → (body.take skip).foldl openAfter isOpen = false)
    (hno : ∀ row ∈ body, ¬ ['/', '*', '/'] <:+: row)
    (hread : ∀ i row, body[i]? = some row → (body.take i).foldl openAfter isOpen = false →
      openAfter false row = true → isReadThrough row = true)
    {i : Nat} (hi : i < body.length) (hopen : (body.take i).foldl openAfter isOpen = true) :
    (entriesByLine context skip body)[i]? = some [] := by
  induction body generalizing context skip isOpen i with
  | nil => cases hi
  | cons row below ih =>
    have hbelow := (List.forall_mem_cons.mp hno).2
    have hreadBelow : ∀ i next, below[i]? = some next →
        (below.take i).foldl openAfter (openAfter isOpen row) = false →
        openAfter false next = true → isReadThrough next = true :=
      fun i next hnext hclosed => hread (i + 1) next hnext hclosed
    cases skip with
    | succ k =>
      cases i with
      | zero => rfl
      | succ i =>
        refine ih (fun hk => ?_) hbelow hreadBelow (Nat.lt_of_succ_lt_succ hi) hopen
        exact hskip (Nat.succ_lt_succ hk)
    | zero =>
      have hclosed : isOpen = false := hskip (Nat.succ_pos _)
      subst hclosed
      cases i with
      | zero => cases hopen
      | succ i =>
        refine ih (fun hk => ?_) hbelow hreadBelow (Nat.lt_of_succ_lt_succ hi) hopen
        exact foldl_openAfter_readLine hno (hread 0 row rfl rfl) context hk

/-- Every block that runs on over lines of a body begins where the reading looks for one: not on the
opening line, not on a line that is skipped, and not behind a statement that declares nothing. And it
ends for the reading where it ends for the outline. -/
structure BlocksRead (line : Text) (body : List Text) : Prop where
  ahead : openAfter false line = false
  /-- No row holds `/*/`. For the outline its star only begins a block, but the reading asks no more
  than whether a line ends with a star and a slash: it would be done there with a block that is still
  open. -/
  marks : ∀ row ∈ body, ¬ ['/', '*', '/'] <:+: row
  rows : ∀ i row, body[i]? = some row → (line :: body.take i).foldl openAfter false = false →
    openAfter false row = true → isReadThrough row = true

theorem BlocksRead.entriesByLine_eq {line : Text} {body : List Text} (h : BlocksRead line body)
    {i : Nat} (hi : i < body.length) (hopen : (line :: body.take i).foldl openAfter false = true) :
    (entriesByLine {} 0 body)[i]? = some [] := by
  have hrows := h.rows
  simp only [List.foldl_cons, h.ahead] at hrows hopen
  exact entriesByLine_within_block (fun _ => rfl) h.marks hrows hi hopen

open Outline in
/-- A line of a closed structure that begins within a block comment gives no entry, so neither a member
nor a warning, if the blocks of the body are read. -/
theorem no_entry_within_block {lines : List Text} {opening : Opening} {body : List Text}
    {closing : Text} (h : .closed opening body closing ∈ regions lines) :
    ∃ span : Span, span.lines = brokenLines lines ∧ span.body = body ∧ span.closing = closing ∧
      span.Holds opening ∧ (entriesByLine {} 0 body).flatten = read body ∧
      (BlocksRead span.line body → ∀ i, i < body.length →
        (span.line :: body.take i).foldl openAfter false = true →
          (entriesByLine {} 0 body)[i]? = some []) := by
  obtain ⟨span, hlines, hbody, hclosing, hholds⟩ := exists_span h
  refine ⟨span, hlines, hbody, hclosing, hholds, flatten_entriesByLine _ _ _, ?_⟩
  intro hread i hi hopen
  exact hread.entriesByLine_eq hi hopen

open Outline in
/-- The second line of this body looks like a declaration and gives nothing. -/
theorem no_entry_within_trailing_block :
    let lines := ["struct S \x7b".toList, "int a; /* one".toList, "int x;".toList, "*/".toList,
      "\x7d;".toList]
    let body := ["int a; /* one".toList, "int x;".toList, "*/".toList]
    .closed ⟨.tagged, ['S'], 1⟩ body "\x7d;".toList ∈ regions lines ∧
      (entriesByLine {} 0 body)[1]? = some [] := by
  intro lines body
  have hmem : .closed ⟨.tagged, ['S'], 1⟩ body "\x7d;".toList ∈ regions lines := by decide +kernel
  obtain ⟨span, hlines, -, -, hholds, -, hentries⟩ := no_entry_within_block hmem
  have hline : "struct S \x7b".toList = span.line := by
    have hget := hholds.line_eq
    rw [hlines, show brokenLines lines = lines by decide +kernel] at hget
    exact Option.some.inj hget
  rw [← hline] at hentries
  refine ⟨hmem, hentries ⟨by decide, by decide +kernel, ?_⟩ 1 (by decide) (by decide)⟩
  intro i row hrow hclosed hopen
  match i, hrow with
  | 0, hrow =>
    cases hrow
    have hterm : terminator? "int a; /* one".toList = some ("int a".toList, " /* one".toList) := by
      decide
    rw [isReadThrough, statements_of_terminator hterm]
    decide
  | 1, hrow => cases hclosed
  | 2, hrow => cases hclosed

open Outline in
/-- A block that begins on the opening line is not read, and its text becomes a member. -/
theorem member_within_block :
    ¬ ∀ (lines : List Text) (opening : Opening) (body : List Text) (closing : Text),
      .closed opening body closing ∈ regions lines → ∀ span : Span, span.lines = brokenLines lines →
      span.body = body → span.closing = closing → span.Holds opening → ∀ i, i < body.length →
      (span.line :: body.take i).foldl openAfter false = true →
      (span.line :: body.take (i + 1)).foldl openAfter false = true →
      ∀ entries, (entriesByLine {} 0 body)[i]? = some entries →
        ∀ entry ∈ entries, ∃ text, entry = .remark text := by
  intro h
  let lines := ["struct S \x7b /* one".toList, "int x;".toList, "*/".toList, "int y;".toList,
    "\x7d;".toList]
  let body := ["int x;".toList, "*/".toList, "int y;".toList]
  have hmem : .closed ⟨.tagged, ['S'], 1⟩ body "\x7d;".toList ∈ regions lines := by decide +kernel
  obtain ⟨span, hlines, hbody, hclosing, hholds⟩ := exists_span hmem
  have hline : "struct S \x7b /* one".toList = span.line := by
    have hget := hholds.line_eq
    rw [hlines, show brokenLines lines = lines by decide +kernel] at hget
    exact Option.some.inj hget
  have hstatements : statements "int x;".toList = [firstStatement "int x;".toList] :=
    statements_of_terminator
      (show terminator? "int x;".toList = some ("int x".toList, []) by decide)
  have hentries : (readLine {} "int x;".toList ["*/".toList, "int y;".toList]).entries =
      [.variable "int".toList { name := ['x'] } []] := by
    simp only [readLine, hstatements]
    decide +kernel
  have hrow := h lines _ body _ hmem span hlines hbody hclosing hholds 0 (by decide)
  rw [← hline] at hrow
  obtain ⟨text, htext⟩ := hrow (by decide) (by decide) _ rfl
    (.variable "int".toList { name := ['x'] } []) (by rw [hentries]; exact List.mem_cons_self)
  cases htext

end StructTables.Body

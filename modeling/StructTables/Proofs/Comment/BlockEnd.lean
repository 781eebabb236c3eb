import StructTables.Body.Reading
import StructTables.Proofs.Comment.Delimiters
import StructTables.Proofs.Declaration.Statement
import StructTables.Proofs.Text.Trim

/-! # Where a block comment ends

Two rules say where a block ends. The outline follows the delimiters from character to character
(`Comment.openAfter`), the reading of a comment asks how a line ends (`Comment.endsBlock`). Here the
two are compared for every comment that a body hands to the reading: they name the same line unless
something stands behind the end of the block, or a line ends in an opening that looks like an end. -/

namespace StructTables.Comment
open Text

/-! ## The two rules -/

/-- How many of the lines a block runs over, given whether it is open ahead of them: up to the first
at whose end it is closed, or all of them. -/
def linesWhileOpen : Bool → List Text → Nat
  | true, line :: more => linesWhileOpen (openAfter true line) more + 1
  | _, _ => 0

theorem linesWhileOpen_le (isOpen : Bool) (lines : List Text) :
    linesWhileOpen isOpen lines ≤ lines.length := by
  induction lines generalizing isOpen with
  | nil => cases isOpen <;> exact Nat.le_refl 0
  | cons line more ih =>
    cases isOpen with
    | false => exact Nat.zero_le _
    | true => exact Nat.succ_le_succ (ih _)

theorem length_throughEnd (lines : List Text) :
    (throughEnd lines).length =
      min (lines.findIdx (fun line => endsBlock (trim line)) + 1) lines.length := by
  induction lines with
  | nil => rfl
  | cons line more ih =>
    by_cases h : endsBlock (trim line) = true
    · simp [throughEnd, List.findIdx_cons, h]
    · simp only [throughEnd, h, List.findIdx_cons, List.length_cons, ih, cond_false,
        Bool.false_eq_true, if_false]
      omega

/-- A block is read up to the first line, its own included, that ends as a block ends. -/
theorem taken_read_block {opening : Text} {below : List Text}
    (hb : beginsBlock (trim opening) = true) :
    (read opening below).taken =
      min ((opening :: below).findIdx fun line => endsBlock (trim line)) below.length := by
  have hl := beginsLine_eq_false hb
  by_cases he : endsBlock (trim opening) = true
  · simp [read, continuation, hl, he, List.findIdx_cons]
  · have hc : continuation opening below = throughEnd below := by
      simp [continuation, hl, hb, he]
    simp only [read, hc, length_throughEnd, List.findIdx_cons, he, cond_false]

/-- What ends as a block ends closes the block, unless the star of that end belongs to an opening. -/
theorem openAfter_of_endsBlock {line : Text} (isOpen : Bool)
    (he : endsBlock (trim line) = true) (hno : ¬ ['/', '*', '/'] <:+: line) :
    openAfter isOpen line = false := by
  obtain ⟨lead, trail, hline, -, htrail⟩ := exists_trim_append line
  obtain ⟨inside, hinside⟩ : ['*', '/'] <:+ trim line := by
    simpa [endsBlock, endsWith] using he
  have hsplit : line = (lead ++ inside) ++ '*' :: '/' :: trail := by
    rw [hline, ← hinside]
    simp
  rw [hsplit] at hno ⊢
  refine openAfter_append_end isOpen _ _ (fun hs => ?_) hno
  exact absurd (htrail _ hs) (by decide)

theorem beginsBlock_trim {t : Text} (h : beginsBlock t = true) : beginsBlock (trim t) = true := by
  obtain ⟨r, rfl⟩ : ['/', '*'] <+: t := List.isPrefixOf_iff_prefix.mp h
  have hstart : trimStart (['/', '*'] ++ r) = ['/', '*'] ++ r := rfl
  obtain ⟨trail, ht, htrail⟩ := exists_trimEnd_append (['/', '*'] ++ r)
  rw [trim, hstart]
  generalize trimEnd (['/', '*'] ++ r) = core at ht ⊢
  rcases core with _ | ⟨c, _ | ⟨d, core⟩⟩
  · obtain rfl : '/' :: '*' :: r = trail := by simpa using ht
    exact absurd (htrail '/' (by simp)) (by decide)
  · obtain ⟨-, rfl⟩ : '/' = c ∧ '*' :: r = trail := by simpa using ht
    exact absurd (htrail '*' (by simp)) (by decide)
  · obtain ⟨rfl, rfl, -⟩ : '/' = c ∧ '*' = d ∧ r = core ++ trail := by simpa using ht
    rfl

/-- A line ahead of the one at whose end a block is closed leaves it open. -/
theorem openAfter_of_mem_take {isOpen : Bool} {row : Text} {below : List Text} {line : Text}
    (h : line ∈ (row :: below).take (linesWhileOpen (openAfter isOpen row) below)) :
    ∃ before, openAfter before line = true := by
  induction below generalizing isOpen row with
  | nil => cases hrow : openAfter isOpen row <;> simp [hrow, linesWhileOpen] at h
  | cons next more ih =>
    cases hrow : openAfter isOpen row with
    | false => simp [hrow, linesWhileOpen] at h
    | true =>
      rw [hrow, linesWhileOpen, List.take_succ_cons] at h
      rcases List.mem_cons.mp h with rfl | h
      · exact ⟨isOpen, hrow⟩
      · exact ih h

/-! ## The two rules compared -/

/-- The first of `n + 1` places that passes a test, or the last one, is the given place. -/
theorem min_findIdx_eq_iff {α : Type} {rows : List α} {p : α → Bool} {k n : Nat}
    (hlen : rows.length = n + 1) (hk : k ≤ n) :
    min (rows.findIdx p) n = k ↔
      (∀ row ∈ rows.take k, p row = false) ∧ (k = n ∨ ∃ row, rows[k]? = some row ∧ p row = true) := by
  constructor
  · intro h
    refine ⟨fun row hrow => ?_, ?_⟩
    · obtain ⟨i, hi, rfl⟩ := List.mem_take_iff_getElem.mp hrow
      simpa using List.not_of_lt_findIdx (p := p) (by omega : i < rows.findIdx p)
    · by_cases hkn : k = n
      · exact .inl hkn
      · have hidx : rows.findIdx p = k := by omega
        have hlt : rows.findIdx p < rows.length := by omega
        refine .inr ⟨rows[rows.findIdx p], ?_, List.findIdx_getElem⟩
        rw [← hidx, List.getElem?_eq_getElem hlt]
  · rintro ⟨hbefore, hat⟩
    have hge : k ≤ rows.findIdx p := by
      refine Nat.le_of_not_lt ?_
      intro hlt
      have hp : p rows[rows.findIdx p] = true := List.findIdx_getElem
      rw [hbefore _ (List.mem_take_iff_getElem.mpr ⟨rows.findIdx p, by omega, rfl⟩)] at hp
      cases hp
    rcases hat with rfl | ⟨row, hrow, hp⟩
    · omega
    · obtain ⟨hlt, rfl⟩ := List.getElem?_eq_some_iff.mp hrow
      have hle : rows.findIdx p ≤ k :=
        Nat.le_of_not_lt fun hgt => by simp [List.not_of_lt_findIdx hgt] at hp
      omega

end StructTables.Comment

namespace StructTables.Body
open Text Comment Declaration

/-! ## The comments of a body -/

/-- The comments that are read along with statements; the text is empty where none stands. -/
def commentsAmong (context : Context) (below : List Text) : List Statement → List Text
  | [] => []
  | statement :: more =>
    let reading := readStatement context statement (Comment.read statement.comment below).text
    if reading.goesOn && !more.isEmpty then
      statement.comment :: commentsAmong reading.context below more
    else [statement.comment]

/-- The comments that are read on a line, each with all that follows it on the line. -/
def commentsOf (context : Context) (line : Text) (below : List Text) : List Text :=
  if Comment.begins line then [line]
  else if isSkipped line then []
  else commentsAmong (context.enter line) below (statements line)

theorem taken_readStatements {context : Context} {below : List Text} {comment : Text}
    (hb : beginsBlock comment = true) {more : List Statement}
    (hlast : ∀ statement ∈ more.dropLast, statement.comment = [])
    (hc : comment ∈ commentsAmong context below more) :
    (readStatements context below more).taken = (Comment.read comment below).taken := by
  induction more generalizing context with
  | nil => cases hc
  | cons statement more ih =>
    simp only [commentsAmong] at hc
    simp only [readStatements]
    split at hc
    case isTrue hgo =>
      rw [if_pos hgo]
      have hne : more ≠ [] := by simpa using (Bool.and_eq_true_iff.mp hgo).2
      rw [List.dropLast_cons_of_ne_nil hne] at hlast
      rcases List.mem_cons.mp hc with rfl | hc
      · rw [hlast statement List.mem_cons_self] at hb
        cases hb
      · exact ih (fun s hs => hlast s (List.mem_cons_of_mem _ hs)) hc
    case isFalse hstop =>
      rw [if_neg hstop, List.mem_singleton.mp hc]

/-- Reading a line takes the lines of the block comment that is read on it. -/
theorem taken_readLine {context : Context} {line : Text} {below : List Text} {comment : Text}
    (hb : beginsBlock comment = true) (hc : comment ∈ commentsOf context line below) :
    (readLine context line below).taken = (Comment.read comment below).taken := by
  simp only [commentsOf] at hc
  simp only [readLine]
  split at hc
  case isTrue hbegins => rw [if_pos hbegins, List.mem_singleton.mp hc]
  case isFalse hcode =>
    rw [if_neg hcode]
    split at hc
    case isTrue => cases hc
    case isFalse hdeclares =>
      rw [if_neg hdeclares]
      exact taken_readStatements hb (fun _ => comment_eq_nil_of_mem_dropLast) hc

/-- A block comment of a body ends with the first line whose text ends as a block ends. That is the
line at whose end the outline closes the block exactly if nothing stands behind the end there, and
no line ahead looks like an end; one that does has its star in a `/*/`. -/
theorem taken_eq_linesWhileOpen_iff {context : Context} {line : Text} {below : List Text}
    {comment : Text} (hb : beginsBlock comment = true)
    (hc : comment ∈ commentsOf context line below) :
    let rows := comment :: below
    let ends := fun row => endsBlock (trim row)
    let close := linesWhileOpen (openAfter false comment) below
    let endsThere := close = below.length ∨ ∃ row, rows[close]? = some row ∧ ends row = true
    (readLine context line below).taken = min (rows.findIdx ends) below.length ∧
    ((readLine context line below).taken = close ↔
      (∀ row ∈ rows.take close, ends row = false) ∧ endsThere) ∧
    ((∀ row ∈ rows.take close, ¬ ['/', '*', '/'] <:+: row) →
      ((readLine context line below).taken = close ↔ endsThere)) := by
  intro rows ends close endsThere
  have htaken : (readLine context line below).taken = min (rows.findIdx ends) below.length :=
    (taken_readLine hb hc).trans (taken_read_block (beginsBlock_trim hb))
  have hiff : (readLine context line below).taken = close ↔
      (∀ row ∈ rows.take close, ends row = false) ∧ endsThere := by
    rw [htaken]
    exact min_findIdx_eq_iff (by simp [rows]) (linesWhileOpen_le _ _)
  refine ⟨htaken, hiff, fun hno => hiff.trans ⟨And.right, fun h => ⟨fun row hrow => ?_, h⟩⟩⟩
  obtain ⟨before, hopen⟩ := openAfter_of_mem_take hrow
  refine Bool.eq_false_iff.mpr ?_
  intro hends
  rw [openAfter_of_endsBlock before hends (hno row hrow)] at hopen
  cases hopen

/-- A block that ends where its line ends is left at the same line by both. -/
theorem taken_of_spanning_block :
    let line := "int a; /* one".toList
    let below := ["two */".toList, "int b;".toList]
    let comment := "/* one".toList
    beginsBlock comment = true ∧ comment ∈ commentsOf {} line below ∧
      (readLine {} line below).taken = linesWhileOpen (openAfter false comment) below ∧
      linesWhileOpen (openAfter false comment) below = 1 := by
  intro line below comment
  have hb : beginsBlock comment = true := by decide
  have hs : statements line = [firstStatement line] :=
    statements_of_terminator (show terminator? line = some ("int a".toList, " /* one".toList) by decide)
  have hc : comment ∈ commentsOf {} line below := by
    simp only [commentsOf, hs]
    decide
  refine ⟨hb, hc, (taken_eq_linesWhileOpen_iff hb hc).2.1.mpr ⟨by decide, .inr ?_⟩, by decide⟩
  exact ⟨"two */".toList, rfl, by decide⟩

/-- Code behind the end of a block makes the reading go on where the outline has closed it. -/
theorem taken_ne_linesWhileOpen :
    ¬ ∀ (context : Context) (line : Text) (below : List Text) (comment : Text),
      (∀ row ∈ line :: below, trim row = row) → beginsBlock comment = true →
      comment ∈ commentsOf context line below →
      (readLine context line below).taken = linesWhileOpen (openAfter false comment) below := by
  intro h
  have hline := h {} "/* x */ int a;".toList ["int b;".toList] "/* x */ int a;".toList
    (by decide) (by decide) (by decide)
  exact absurd hline (by decide)

end StructTables.Body

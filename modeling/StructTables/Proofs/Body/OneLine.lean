import StructTables.Proofs.Body.Assembly
import StructTables.Proofs.Body.CommentLines
import StructTables.Proofs.Comment.Extent
import StructTables.Proofs.Macro.OneLine
import StructTables.Proofs.Sheet.Lines

/-! # The texts of a body

A body is read line by line. Whatever its entries say, be it pieced together from the comments of many
lines or carried from one declaration to the next, is on one line, and so are the members that they
become. -/

namespace StructTables.Comment
open Text

/-! ## Comments -/

theorem dropOne_subset (c : Char) (t : Text) : dropOne c t ⊆ t := by
  unfold dropOne
  split
  · exact List.Subset.refl _
  · split
    · exact List.subset_cons_self _ _
    · exact List.Subset.refl _

theorem withoutDelimiters_subset (t : Text) : withoutDelimiters t ⊆ t := by
  fun_induction withoutDelimiters t with
  | case1 => exact List.Subset.refl _
  | case2 r ih =>
    intro c hc
    have hdrop := List.dropWhile_subset _ (dropOne_subset _ _ (dropOne_subset _ _ (ih hc)))
    exact List.mem_cons_of_mem _ (List.mem_cons_of_mem _ hdrop)
  | case3 r s hs ih =>
    intro c hc
    have hbehind : c ∈ r.dropWhile (· == '*') := hs ▸ List.mem_cons_of_mem _ (ih hc)
    exact List.mem_cons_of_mem _ (List.dropWhile_subset _ hbehind)
  | case4 r _ ih => exact List.cons_subset_cons _ ih
  | case5 c r _ ih => exact List.cons_subset_cons _ ih
  | case6 c r _ ih =>
    intro d hd
    have hdrop := List.dropWhile_subset _ (List.dropWhile_subset _ (ih hd))
    exact List.mem_cons_of_mem _ (List.mem_cons_of_mem _ hdrop)
  | case7 c r _ _ _ ih => exact List.cons_subset_cons _ ih

theorem blockPiece_subset (line : Text) : blockPiece line ⊆ line := by
  intro c hc
  exact withoutDelimiters_subset _ (trim_subset _ (List.dropWhile_subset _ (trim_subset _ hc)))

theorem linePiece_subset (line : Text) : linePiece line ⊆ line := by
  have hbehind : ∀ lead r : Text, line.dropWhile (· == '/') = lead ++ r → trim r ⊆ line := by
    intro lead r h
    have hdrop : lead ++ r ⊆ line := h ▸ List.dropWhile_subset _
    exact List.Subset.trans (trim_subset r) (List.append_subset.mp hdrop).2
  unfold linePiece
  split
  case h_1 r h => exact hbehind ['!', '<'] r h
  case h_2 r h => exact hbehind ['<'] r h
  case h_3 r _ h => exact hbehind ['!'] r h
  case h_4 => exact hbehind [] _ rfl

theorem piece_subset (opening line : Text) : piece opening line ⊆ line := by
  unfold piece
  split
  · exact List.Subset.trans (linePiece_subset _) (trim_subset line)
  · split
    · exact List.Subset.trans (blockPiece_subset _) (trim_subset line)
    · exact trim_subset line

theorem continuation_subset (opening : Text) (following : List Text) :
    continuation opening following ⊆ following := (continuation_prefix_self opening following).subset

theorem oneLine_read {opening : Text} {following : List Text} (hopening : OneLine opening)
    (h : ∀ line ∈ following, OneLine line) : OneLine (read opening following).text := by
  refine oneLine_join (by decide) fun text htext => ?_
  obtain ⟨line, hline, rfl⟩ := List.mem_map.mp (List.mem_filter.mp htext).1
  refine OneLine.mono ?_ (piece_subset opening line)
  rcases List.mem_cons.mp hline with rfl | hline
  · exact hopening
  · exact h line (continuation_subset _ _ hline)

end StructTables.Comment

namespace StructTables.Declaration
open Text

/-! ## Declarations -/

/-- A line feed is a blank, and tidying writes all blanks as spaces. -/
theorem oneLine_tidy (t : Text) : OneLine (tidy t) := by
  have hfrom : ∀ (t : Text) (word gap : Bool), OneLine (tidyFrom word gap t) := by
    intro t
    induction t with
    | nil => exact fun _ _ => oneLine_nil
    | cons c r ih =>
      intro word gap
      unfold tidyFrom
      split
      case isTrue => exact ih word true
      case isFalse hc =>
        have hne : '\n' ≠ c := by
          rintro rfl
          exact hc rfl
        split
        · exact oneLine_cons.mpr ⟨hne, ih false false⟩
        · split
          · exact oneLine_cons.mpr ⟨by decide, oneLine_cons.mpr ⟨hne, ih true false⟩⟩
          · exact oneLine_cons.mpr ⟨hne, ih true false⟩
  exact hfrom t false false

theorem exists_firstStatement {line : Text} {statement : Statement}
    (h : statement ∈ statements line) : ∃ rest, rest ⊆ line ∧ statement = firstStatement rest := by
  induction hn : line.length using Nat.strongRecOn generalizing line with
  | _ n ih =>
    cases hterm : terminator? line with
    | none =>
      rw [statements_of_unterminated hterm] at h
      exact ⟨line, List.Subset.refl _, List.mem_singleton.mp h⟩
    | some parts =>
      obtain ⟨declaration, after⟩ := parts
      have hafter : trim after ⊆ line := (infix_of_terminator hterm).subset
      rw [statements_of_terminator hterm] at h
      rcases List.mem_cons.mp h with rfl | h
      · exact ⟨line, List.Subset.refl _, rfl⟩
      · split at h
        · cases h
        · obtain ⟨rest, hrest, heq⟩ := ih _ (hn ▸ length_terminator_lt hterm) h rfl
          exact ⟨rest, List.Subset.trans hrest hafter, heq⟩

theorem oneLine_declaration {line : Text} {statement : Statement} (h : statement ∈ statements line) :
    OneLine statement.declaration := by
  obtain ⟨rest, -, rfl⟩ := exists_firstStatement h
  unfold firstStatement
  split <;> exact oneLine_tidy _

theorem oneLine_comment {line : Text} (hline : OneLine line) {statement : Statement}
    (h : statement ∈ statements line) : OneLine statement.comment := by
  obtain ⟨rest, hrest, rfl⟩ := exists_firstStatement h
  refine (hline.mono hrest).mono ?_
  unfold firstStatement
  split
  case h_1 declaration after hterm =>
    dsimp only
    split
    · exact (infix_of_terminator hterm).subset
    · exact List.nil_subset _
  case h_2 =>
    conv => rhs; rw [← Comment.cut_append_cut rest]
    exact List.subset_append_right _ _

theorem oneLine_typeAndNames {declaration dataType names : Text} (h : OneLine declaration)
    (hparts : typeAndNames? declaration = some (dataType, names)) :
    OneLine dataType ∧ OneLine names := by
  obtain ⟨⟨before, after⟩, hcut, heq⟩ := Option.map_eq_some_iff.mp hparts
  cases heq
  have hhead : OneLine (declaration.takeWhile fun c => c != ',' && c != '[' && c != ':') :=
    h.mono (List.takeWhile_subset _)
  obtain ⟨hbefore, hafter⟩ := hhead.cut (eq_of_cutLast? hcut)
  exact ⟨hbefore.trim, oneLine_append.mpr ⟨hafter, h.mono (List.drop_subset _ _)⟩⟩

/-- What a sheet shows of a declarator. -/
def Declarator.texts (declarator : Declarator) : List Text :=
  [declarator.name, declarator.arraySize, declarator.bitLength]

theorem oneLine_dimensions {brackets : Text} (h : OneLine brackets) : OneLine (dimensions brackets) :=
  (OneLine.replaceAll h (by decide) _).mono List.filter_sublist.subset

theorem Declarator.oneLine_ofText {t : Text} (h : OneLine t) :
    ∀ text ∈ (ofText t).texts, OneLine text := by
  have htake : ∀ p, OneLine (t.takeWhile p) := fun p => h.mono (List.takeWhile_subset p)
  have hdrop : ∀ p, OneLine (t.dropWhile p) := fun p => h.mono (List.dropWhile_subset p)
  have hname : ∀ {named : Text}, OneLine named → OneLine (trim (named.dropWhile (· == '*'))) :=
    fun hnamed => (hnamed.mono (List.dropWhile_subset _)).trim
  unfold ofText
  cases hbracket : t.contains '[' with
  | true =>
    simpa [texts] using ⟨hname (htake _), oneLine_dimensions (hdrop _)⟩
  | false =>
    cases hcolon : t.contains ':' with
    | true => simpa [texts] using ⟨hname (htake _), ((hdrop _).mono (List.tail_sublist _).subset).trim⟩
    | false => simpa [texts] using hname h

theorem oneLine_declarators {names : Text} (h : OneLine names) {declarator : Declarator}
    (hd : declarator ∈ declarators names) : ∀ text ∈ declarator.texts, OneLine text := by
  obtain ⟨text, htext, rfl⟩ := List.mem_map.mp hd
  obtain ⟨piece, hpiece, rfl⟩ := List.mem_map.mp (List.mem_filter.mp htext).1
  exact Declarator.oneLine_ofText (h.of_mem_splitOn hpiece).trim

end StructTables.Declaration

namespace StructTables.Body
open Text Declaration

/-! ## Entries -/

/-- What a sheet shows of an entry, but for the stars and delimiters that it adds. -/
def Entry.texts : Entry → List Text
  | .variable dataType declarator description => dataType :: description :: declarator.texts
  | .remark text => [text]
  | .invalid _ => []

/-- A context that carries nothing on but texts on one line. -/
structure Context.Unbroken (context : Context) : Prop where
  dataType : OneLine context.dataType
  carried : OneLine context.carried

variable {context : Context}

theorem Context.Unbroken.description (h : context.Unbroken) {comment : Text}
    (hcomment : OneLine comment) : OneLine (context.description comment) := by
  refine oneLine_join (by decide) fun text htext => ?_
  have hcases := (List.mem_filter.mp htext).1
  simp only [List.mem_cons, List.not_mem_nil, or_false] at hcases
  rcases hcases with rfl | rfl | rfl
  · split
    · decide
    · exact oneLine_nil
  · exact h.carried
  · exact hcomment

theorem readStatement_oneLine (h : context.Unbroken) {statement : Statement}
    (hdeclaration : OneLine statement.declaration) {comment : Text} (hcomment : OneLine comment) :
    (readStatement context statement comment).context.Unbroken ∧
      ∀ entry ∈ (readStatement context statement comment).entries, ∀ t ∈ entry.texts, OneLine t := by
  unfold readStatement
  split
  · exact ⟨⟨h.dataType, h.carried⟩, fun entry he => nomatch he⟩
  · split
    · exact ⟨⟨hdeclaration, hcomment⟩, fun entry he => nomatch he⟩
    · dsimp only
      split
      case h_1 => exact ⟨⟨h.dataType, h.carried⟩, by simp [Entry.texts]⟩
      case h_2 dataType names hparts =>
        have hboth : OneLine dataType ∧ OneLine names := by
          split at hparts
          · cases hparts
            exact ⟨h.dataType, hdeclaration⟩
          · exact oneLine_typeAndNames hdeclaration hparts
        refine ⟨⟨hboth.1, oneLine_nil⟩, fun entry he => ?_⟩
        obtain ⟨declarator, hd, rfl⟩ := List.mem_map.mp he
        unfold entryOf
        split
        · exact fun t ht => nomatch ht
        · exact List.forall_mem_cons.mpr ⟨hboth.1, List.forall_mem_cons.mpr
            ⟨h.description hcomment, oneLine_declarators hboth.2 hd⟩⟩

/-- A reading that gives and carries on nothing but texts on one line. -/
structure LineReading.Unbroken (reading : LineReading) : Prop where
  context : reading.context.Unbroken
  entries : ∀ entry ∈ reading.entries, ∀ t ∈ entry.texts, OneLine t

theorem readStatements_unbroken (h : context.Unbroken) {below : List Text}
    (hbelow : ∀ line ∈ below, OneLine line) {statements : List Statement}
    (hstatements : ∀ statement ∈ statements,
      OneLine statement.declaration ∧ OneLine statement.comment) :
    (readStatements context below statements).Unbroken := by
  induction statements generalizing context with
  | nil => exact ⟨h, fun entry he => nomatch he⟩
  | cons statement more ih =>
    obtain ⟨⟨hdeclaration, hcomment⟩, hmore⟩ := List.forall_mem_cons.mp hstatements
    obtain ⟨hcontext, hentries⟩ :=
      readStatement_oneLine h hdeclaration (Comment.oneLine_read hcomment hbelow)
    unfold readStatements
    dsimp only
    split
    · have hrest := ih hcontext hmore
      exact ⟨hrest.context, List.forall_mem_append.mpr ⟨hentries, hrest.entries⟩⟩
    · exact ⟨hcontext, hentries⟩

theorem readLine_unbroken (h : context.Unbroken) {line : Text} (hline : OneLine line)
    {below : List Text} (hbelow : ∀ line ∈ below, OneLine line) :
    (readLine context line below).Unbroken := by
  have henter : (context.enter line).Unbroken := by
    unfold Context.enter
    split
    · exact ⟨h.dataType, h.carried⟩
    · split
      · exact ⟨h.dataType, h.carried⟩
      · exact h
  unfold readLine
  dsimp only
  split
  · exact ⟨henter, by simpa [Entry.texts] using Comment.oneLine_read hline hbelow⟩
  · split
    · exact ⟨henter, fun entry he => nomatch he⟩
    · exact readStatements_unbroken henter hbelow fun statement hs =>
        ⟨oneLine_declaration hs, oneLine_comment hline hs⟩

/-- The entries of a body say nothing that is not on one line. -/
theorem read_oneLine {body : List Text} (h : ∀ line ∈ body, OneLine line) :
    ∀ entry ∈ read body, ∀ t ∈ entry.texts, OneLine t := by
  have hfrom : ∀ {lines : List Text} {context : Context} (skip : Nat),
      (∀ line ∈ lines, OneLine line) → context.Unbroken →
      ∀ entry ∈ readFrom context skip lines, ∀ t ∈ entry.texts, OneLine t := by
    intro lines
    induction lines with
    | nil => exact fun _ _ _ entry he => nomatch he
    | cons line below ih =>
      intro context skip hlines hcontext
      obtain ⟨hline, hbelow⟩ := List.forall_mem_cons.mp hlines
      match skip with
      | k + 1 => exact ih k hbelow hcontext
      | 0 =>
        have hreading := readLine_unbroken hcontext hline hbelow
        exact List.forall_mem_append.mpr ⟨hreading.entries, ih _ hbelow hreading.context⟩
  exact hfrom 0 h ⟨oneLine_nil, oneLine_nil⟩

/-! ## Members -/

theorem oneLine_typeOf {dataType : Text} (h : OneLine dataType) (stars : Nat) :
    OneLine (typeOf dataType stars) := by
  unfold typeOf
  split
  · exact h
  · refine oneLine_append.mpr ⟨h, oneLine_cons.mpr ⟨by decide, fun hmem => ?_⟩⟩
    exact absurd (List.eq_of_mem_replicate hmem) (by decide)

theorem oneLine_describe {m : Member} (h : ∀ t ∈ m.texts, OneLine t) {remark : Text}
    (hremark : OneLine remark) : ∀ t ∈ (m.describe remark).texts, OneLine t := by
  have hdescribed : ∀ description, OneLine description →
      ∀ t ∈ ({ m with description := description } : Member).texts, OneLine t := by
    intro description hdescription
    simp only [Member.texts, List.forall_mem_cons] at h ⊢
    obtain ⟨hdataType, hname, harraySize, hbitLength, -⟩ := h
    exact ⟨hdataType, hname, harraySize, hbitLength, hdescription, List.forall_mem_nil _⟩
  have hold : OneLine m.description := h _ (by simp [Member.texts])
  unfold Member.describe
  split
  · exact h
  · split
    · exact hdescribed _ hremark.trim
    · exact hdescribed _ (oneLine_append.mpr ⟨hold, oneLine_cons.mpr ⟨by decide, hremark.trim⟩⟩)

theorem oneLine_describeLast {members : List Member} (h : ∀ m ∈ members, ∀ t ∈ m.texts, OneLine t)
    {remark : Text} (hremark : OneLine remark) :
    ∀ m ∈ describeLast remark members, ∀ t ∈ m.texts, OneLine t := by
  fun_induction describeLast remark members with
  | case1 => exact h
  | case2 m =>
    exact List.forall_mem_singleton.mpr (oneLine_describe (List.forall_mem_singleton.mp h) hremark)
  | case3 m next more ih =>
    obtain ⟨hfirst, hmore⟩ := List.forall_mem_cons.mp h
    exact List.forall_mem_cons.mpr ⟨hfirst, ih hmore⟩

/-- An assembly in which all is on one line. -/
structure Assembly.Unbroken (assembly : Assembly) : Prop where
  collector : assembly.collector.Unbroken
  added : ∀ m ∈ assembly.added, ∀ t ∈ m.texts, OneLine t

theorem Assembly.Unbroken.add {owner : Structure} {assembly : Assembly} (h : assembly.Unbroken)
    {entry : Entry} (hentry : ∀ t ∈ entry.texts, OneLine t) : (assembly.add owner entry).Unbroken := by
  match entry with
  | .invalid source => exact ⟨h.collector, h.added⟩
  | .remark text =>
    exact ⟨h.collector, oneLine_describeLast h.added (List.forall_mem_singleton.mp hentry)⟩
  | .variable dataType declarator description =>
    cases hdup : assembly.contains owner declarator.name with
    | true =>
      rw [add_duplicate hdup]
      exact ⟨h.collector, h.added⟩
    | false =>
      simp only [Entry.texts, Declarator.texts, List.forall_mem_cons] at hentry
      obtain ⟨hdataType, hdescription, hname, harraySize, hbitLength, -⟩ := hentry
      obtain ⟨harray, hcollector⟩ := h.collector.collect harraySize
      obtain ⟨hbits, hcollector⟩ := hcollector.collect hbitLength
      rw [add_variable hdup]
      refine ⟨hcollector, List.forall_mem_append.mpr ⟨h.added, List.forall_mem_singleton.mpr ?_⟩⟩
      simp only [memberOf, Member.texts, List.forall_mem_cons]
      exact ⟨oneLine_typeOf hdataType _, hname, harray, hbits, hdescription, fun _ ht => nomatch ht⟩

end StructTables.Body

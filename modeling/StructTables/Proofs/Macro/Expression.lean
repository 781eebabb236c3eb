import StructTables.Proofs.Macro.SizeOrder
import StructTables.Proofs.Spelled.Spelling

/-! # Sizes that are expressions

The components of a size are constant expressions of C. Only some of the operators of C make a formula of
a component; where it has none of these, all of it is taken for the name of a macro. So the names in a
table are identifiers exactly if no expression gets by with the other operators alone. -/

namespace StructTables.Macro
open Text Canonical Spelled

/-! ## Spelling -/

inductive UnaryOperator where
  | plus
  | minus
  | complement
  deriving DecidableEq

inductive BinaryOperator where
  | multiply
  | divide
  | remainder
  | add
  | subtract
  | shiftLeft
  | shiftRight
  | less
  | lessEqual
  | greater
  | greaterEqual
  | equal
  | unequal
  | bitAnd
  | bitXor
  | bitOr
  deriving DecidableEq

def UnaryOperator.symbol : UnaryOperator → Char
  | .plus => '+'
  | .minus => '-'
  | .complement => '~'

def BinaryOperator.symbol : BinaryOperator → Text
  | .multiply => ['*']
  | .divide => ['/']
  | .remainder => ['%']
  | .add => ['+']
  | .subtract => ['-']
  | .shiftLeft => ['<', '<']
  | .shiftRight => ['>', '>']
  | .less => ['<']
  | .lessEqual => ['<', '=']
  | .greater => ['>']
  | .greaterEqual => ['>', '=']
  | .equal => ['=', '=']
  | .unequal => ['!', '=']
  | .bitAnd => ['&']
  | .bitXor => ['^']
  | .bitOr => ['|']

/-- An integer literal of any radix: a digit, then letters and digits, and separators between these. -/
def IsLiteral (t : Text) : Prop :=
  ∃ c r, t = c :: r ∧ c.isDigit = true ∧ ∀ d ∈ r, isIdentifierCharacter d = true ∨ d = '\''

theorem IsLiteral.mem_cases {t : Text} (h : IsLiteral t) {d : Char} (hd : d ∈ t) :
    isIdentifierCharacter d = true ∨ d = '\'' := by
  obtain ⟨c, r, rfl, hc, hr⟩ := h
  rcases List.mem_cons.mp hd with rfl | hd
  · exact .inl (isIdentifierCharacter_of_isDigit hc)
  · exact hr d hd

/-- A text that may stand for a type in a component: it is not split by a comma. -/
def IsTypeName (t : Text) : Prop := ',' ∉ t

/-- An expression as it is spelled, with the blanks between its tokens. -/
inductive Expression where
  | name (i : Identifier)
  | literal (l : { t : Text // IsLiteral t })
  | parenthesized (ahead : Blanks) (inner : Expression) (behind : Blanks)
  | unary (op : UnaryOperator) (gap : Blanks) (operand : Expression)
  | binary (left : Expression) (ahead : Blanks) (op : BinaryOperator) (behind : Blanks)
      (right : Expression)
  | sizeof (gap : Blanks) (operand : Expression)
  | sizeofType (gap : Blanks) (type : { t : Text // IsTypeName t })

namespace Expression

def keyword : Text := "sizeof".toList

def text : Expression → Text
  | .name i => i.1
  | .literal l => l.1
  | .parenthesized ahead inner behind => '(' :: (ahead.1 ++ (inner.text ++ (behind.1 ++ [')'])))
  | .unary op gap operand => op.symbol :: (gap.1 ++ operand.text)
  | .binary left ahead op behind right =>
    left.text ++ (ahead.1 ++ (op.symbol ++ (behind.1 ++ right.text)))
  | .sizeof gap operand => keyword ++ (gap.1 ++ operand.text)
  | .sizeofType gap type => keyword ++ (gap.1 ++ '(' :: (type.1 ++ [')']))

/-- Whether a blank parts every `sizeof` from a word behind it. -/
def IsSpaced : Expression → Prop
  | .name _ | .literal _ | .sizeofType .. => True
  | .parenthesized _ inner _ => inner.IsSpaced
  | .unary _ _ operand => operand.IsSpaced
  | .binary left _ _ _ right => left.IsSpaced ∧ right.IsSpaced
  | .sizeof gap operand =>
    (gap.1 ≠ [] ∨ Formula.startsApart operand.text = true) ∧ operand.IsSpaced

end Expression

/-! ## Operators of formulas -/

/-- Whether the operator is one that makes a formula. -/
def UnaryOperator.isBasic : UnaryOperator → Bool
  | .plus | .minus => true
  | .complement => false

def BinaryOperator.isBasic : BinaryOperator → Bool
  | .multiply | .divide | .add | .subtract => true
  | _ => false

namespace Expression

/-- Whether there is a parenthesis or one of the four basic operators anywhere in the expression. -/
def usesBasic : Expression → Bool
  | .name _ | .literal _ => false
  | .parenthesized .. | .sizeofType .. => true
  | .unary op _ operand => op.isBasic || operand.usesBasic
  | .binary left _ op _ right => left.usesBasic || (op.isBasic || right.usesBasic)
  | .sizeof _ operand => operand.usesBasic

/-- Whether the expression is a name, a decimal or hexadecimal number, or a formula. -/
def isSupported : Expression → Bool
  | .name _ => true
  | .literal l => isNumeric l.1
  | e => e.usesBasic

end Expression

theorem isOperator_of_isBlank {c : Char} (h : isBlank c = true) : Formula.isOperator c = false := by
  refine Bool.eq_false_iff.mpr fun hoperator => ?_
  simp only [Formula.isOperator, Bool.or_eq_true, beq_iff_eq] at hoperator
  rcases hoperator with ((((rfl | rfl) | rfl) | rfl) | rfl) | rfl <;> cases h

theorem any_isOperator_blanks (gap : Blanks) : gap.1.any Formula.isOperator = false :=
  List.any_eq_false.mpr fun c hc => by simp [isOperator_of_isBlank (gap.2 c hc)]

theorem UnaryOperator.isOperator_symbol (op : UnaryOperator) :
    Formula.isOperator op.symbol = op.isBasic := by
  cases op <;> rfl

theorem BinaryOperator.any_isOperator_symbol (op : BinaryOperator) :
    op.symbol.any Formula.isOperator = op.isBasic := by
  cases op <;> rfl

theorem IsLiteral.any_isOperator {t : Text} (h : IsLiteral t) :
    t.any Formula.isOperator = false := by
  refine List.any_eq_false.mpr fun d hd => ?_
  rcases h.mem_cases hd with hword | rfl
  · exact fun hoperator => absurd (any_isOperator_eq_false (w := [d]) (by simp [hword])) (by
      simp [hoperator])
  · decide

namespace Expression

/-- The text of an expression has the characters of a formula if the expression has the operators. -/
theorem any_isOperator_text (e : Expression) : e.text.any Formula.isOperator = e.usesBasic := by
  induction e with
  | name i =>
    obtain ⟨c, r, hi, -, hall⟩ := exists_of_isIdentifier i.2
    exact any_isOperator_eq_false hall
  | literal l => exact l.2.any_isOperator
  | parenthesized ahead inner behind ih => rfl
  | unary op gap operand ih =>
    rw [text, List.any_cons, List.any_append, any_isOperator_blanks, Bool.false_or, ih,
      op.isOperator_symbol, usesBasic]
  | binary left ahead op behind right ihl ihr =>
    rw [text, List.any_append, List.any_append, List.any_append, List.any_append,
      any_isOperator_blanks, any_isOperator_blanks, Bool.false_or, Bool.false_or, ihl, ihr,
      op.any_isOperator_symbol, usesBasic]
  | sizeof gap operand ih =>
    rw [text, List.any_append, List.any_append, any_isOperator_blanks, ih, usesBasic]
    rfl
  | sizeofType gap type =>
    rw [text, List.any_append, List.any_append, any_isOperator_blanks, List.any_cons, usesBasic]
    rfl

/-! ## Texts of expressions -/

theorem comma_not_mem_text (e : Expression) : ',' ∉ e.text := by
  have hblanks : ∀ gap : Blanks, ',' ∉ gap.1 := fun gap => gap.2.not_mem (by decide)
  have hkeyword : ',' ∉ keyword := by decide
  induction e with
  | name i =>
    obtain ⟨c, r, hi, -, hall⟩ := exists_of_isIdentifier i.2
    exact not_mem_of_all hall rfl
  | literal l =>
    intro hmem
    rcases l.2.mem_cases hmem with hword | heq
    · cases hword
    · cases heq
  | parenthesized ahead inner behind ih => simp [text, hblanks, ih]
  | unary op gap operand ih =>
    have hop : op.symbol ≠ ',' := by cases op <;> decide
    simp [text, hblanks, ih, Ne.symm hop]
  | binary left ahead op behind right ihl ihr =>
    have hop : ',' ∉ op.symbol := by cases op <;> decide
    simp [text, hblanks, ihl, ihr, hop]
  | sizeof gap operand ih => simp [text, hblanks, hkeyword, ih]
  | sizeofType gap type =>
    have htype : ',' ∉ type.1 := type.2
    simp [text, hblanks, hkeyword, htype]

theorem exists_text_cons (e : Expression) : ∃ c r, e.text = c :: r ∧ isBlank c = false := by
  induction e with
  | name i =>
    obtain ⟨c, r, hi, hstart, -⟩ := exists_of_isIdentifier i.2
    exact ⟨c, r, hi, isBlank_eq_false (isIdentifierCharacter_of_isIdentifierStart hstart)⟩
  | literal l =>
    obtain ⟨c, r, hl, hdigit, -⟩ := l.2
    exact ⟨c, r, hl, isBlank_eq_false (isIdentifierCharacter_of_isDigit hdigit)⟩
  | parenthesized ahead inner behind _ => exact ⟨_, _, rfl, by decide⟩
  | unary op gap operand _ => exact ⟨_, _, rfl, by cases op <;> decide⟩
  | binary left ahead op behind right ih _ =>
    obtain ⟨c, r, hleft, hc⟩ := ih
    exact ⟨c, r ++ _, by rw [text, hleft, List.cons_append], hc⟩
  | sizeof gap operand _ | sizeofType gap type => exact ⟨'s', _, rfl, by decide⟩

theorem exists_text_concat (e : Expression) : ∃ r c, e.text = r ++ [c] ∧ isBlank c = false := by
  have hword : ∀ {t : Text}, t ≠ [] → (∀ c ∈ t, isBlank c = false) →
      ∃ r c, t = r ++ [c] ∧ isBlank c = false := fun hne hall =>
    ⟨_, _, (List.dropLast_append_getLast hne).symm, hall _ (List.getLast_mem hne)⟩
  induction e with
  | name i =>
    obtain ⟨c, r, hi, -, hall⟩ := exists_of_isIdentifier i.2
    exact hword (by simp [text, hi]) fun c hc => isBlank_of_mem hall hc
  | literal l =>
    obtain ⟨c, r, hl, -, -⟩ := l.2
    refine hword (by simp [text, hl]) fun d hd => ?_
    rcases l.2.mem_cases hd with hd | rfl
    · exact isBlank_eq_false hd
    · decide
  | parenthesized ahead inner behind _ =>
    exact ⟨'(' :: (ahead.1 ++ (inner.text ++ behind.1)), ')', by simp [text], by decide⟩
  | unary op gap operand ih =>
    obtain ⟨r, c, hoperand, hc⟩ := ih
    exact ⟨op.symbol :: (gap.1 ++ r), c, by simp [text, hoperand], hc⟩
  | binary left ahead op behind right _ ih =>
    obtain ⟨r, c, hright, hc⟩ := ih
    exact ⟨left.text ++ (ahead.1 ++ (op.symbol ++ (behind.1 ++ r))), c, by simp [text, hright], hc⟩
  | sizeof gap operand ih =>
    obtain ⟨r, c, hoperand, hc⟩ := ih
    exact ⟨keyword ++ (gap.1 ++ r), c, by simp [text, hoperand], hc⟩
  | sizeofType gap type =>
    exact ⟨keyword ++ (gap.1 ++ '(' :: type.1), ')', by simp [text], by decide⟩

theorem trim_text (e : Expression) : trim e.text = e.text := by
  refine trim_eq_self (fun d hd => ?_) fun d hd => ?_
  · obtain ⟨c, r, htext, hc⟩ := e.exists_text_cons
    rw [htext] at hd
    exact Option.some.inj hd ▸ hc
  · obtain ⟨r, c, htext, hc⟩ := e.exists_text_concat
    rw [htext, List.getLast?_concat] at hd
    exact Option.some.inj hd ▸ hc

theorem not_all_sizeof {gap : Blanks} {operand : Expression}
    (hspaced : gap.1 ≠ [] ∨ Formula.startsApart operand.text = true) :
    (sizeof gap operand).text.all isIdentifierCharacter = false := by
  refine Bool.eq_false_iff.mpr fun h => ?_
  rw [text, List.all_append, List.all_append, Bool.and_eq_true, Bool.and_eq_true] at h
  obtain ⟨-, hgap, hoperand⟩ := h
  rcases hspaced with hne | hapart
  · obtain ⟨c, r, hcons⟩ := List.exists_cons_of_ne_nil hne
    have hblank := gap.2 c (by simp [hcons])
    rw [hcons] at hgap
    rw [isBlank_of_mem hgap List.mem_cons_self] at hblank
    cases hblank
  · obtain ⟨c, r, htext, -⟩ := operand.exists_text_cons
    rw [htext] at hoperand hapart
    have hc := (Bool.and_eq_true_iff.mp hoperand).1
    simp [Formula.startsApart, hc] at hapart

/-- Nothing but a name or a literal is one word. -/
theorem cases_of_all {e : Expression} (hspaced : e.IsSpaced)
    (h : e.text.all isIdentifierCharacter = true) :
    (∃ i, e = .name i) ∨ ∃ l, e = .literal l := by
  cases e with
  | name i => exact .inl ⟨i, rfl⟩
  | literal l => exact .inr ⟨l, rfl⟩
  | parenthesized ahead inner behind => cases h
  | unary op gap operand =>
    have hop : isIdentifierCharacter op.symbol = false := by cases op <;> rfl
    simp [text, hop] at h
  | binary left ahead op behind right =>
    have hop : op.symbol.all isIdentifierCharacter = false := by cases op <;> rfl
    simp only [text, List.all_append, hop, Bool.false_and, Bool.and_false] at h
    cases h
  | sizeof gap operand => exact absurd h (by simp [not_all_sizeof hspaced.1])
  | sizeofType gap type =>
    simp only [text, List.all_append, Bool.and_eq_true] at h
    cases h.2.2

end Expression

/-! ## Names of macros -/

theorem isIdentifier_of_mem_mentions {t n : Text} (h : n ∈ Formula.mentions t) :
    isIdentifier n = true := by
  obtain ⟨hne, hall⟩ := all_of_mem_mentions h
  obtain ⟨piece, -, hpiece⟩ := List.mem_filterMap.mp h
  have hmention : Formula.isMention n = true := by
    cases piece with
    | other c => cases hpiece
    | word w =>
      rw [Formula.Piece.mention?] at hpiece
      split at hpiece
      case isTrue hw => exact Option.some.inj hpiece ▸ hw
      case isFalse => cases hpiece
  rw [Formula.isMention_eq hne hall] at hmention
  exact (Bool.and_eq_true_iff.mp hmention).1

theorem IsLiteral.isIdentifier_eq {t : Text} (h : IsLiteral t) : isIdentifier t = false := by
  obtain ⟨c, r, rfl, hdigit, -⟩ := h
  refine Bool.eq_false_iff.mpr fun hidentifier => ?_
  have hstart := (Bool.and_eq_true_iff.mp hidentifier).1
  rw [isIdentifierStart_iff] at hstart
  rw [isDigit_iff] at hdigit
  omega

/-- A component comes with identifiers alone if it is regular. -/
theorem forall_mentionsOf_iff {component : Text} :
    (∀ n ∈ mentionsOf component, isIdentifier n = true) ↔ isRegular component = true := by
  rw [isRegular, mentionsOf]
  split
  case isTrue hplain => simp [hplain]
  case isFalse hplain =>
    rw [Bool.not_eq_true] at hplain
    rw [hplain, Bool.false_or]
    split
    case isTrue hbare =>
      rw [Bool.not_eq_true'] at hbare
      rw [hbare, Bool.or_false, List.forall_mem_singleton]
    case isFalse hformula =>
      rw [Bool.not_eq_true, Bool.not_eq_false'] at hformula
      rw [hformula, Bool.or_true]
      exact iff_of_true (fun n hn => isIdentifier_of_mem_mentions hn) rfl

/-- Names that a collector comes with besides those of the sizes cannot spoil its table. -/
theorem forall_names_visit_iff {definitions : List Definition} (hcaptured : AllCaptured definitions)
    {table : Table} (hnames : ∀ n ∈ table.names, isIdentifier n = true) {stack : List Text} :
    (∀ n ∈ (visit definitions table stack).names, isIdentifier n = true) ↔
      ∀ n ∈ stack, isIdentifier n = true := by
  refine ⟨fun h n hn => h n (stack_subset_visit table stack hn), fun h n hn => ?_⟩
  rcases mem_names_visit hn with hold | hstack | ⟨d, hd, hmention⟩
  · exact hnames n hold
  · exact h n hstack
  · rw [← hcaptured.mentions_value hd] at hmention
    exact isIdentifier_of_mem_mentions hmention

namespace Expression

theorem isRegular_text {e : Expression} (hspaced : e.IsSpaced) :
    isRegular e.text = e.isSupported := by
  obtain ⟨c, r, hcons, -⟩ := e.exists_text_cons
  have hempty : e.text.isEmpty = false := by rw [hcons, List.isEmpty_cons]
  rw [isRegular, hempty, Bool.false_or, e.any_isOperator_text]
  by_cases hword : e.text.all isIdentifierCharacter = true
  · rcases cases_of_all hspaced hword with ⟨i, rfl⟩ | ⟨l, rfl⟩
    · rw [text, i.2, Bool.or_true, Bool.true_or, isSupported]
    · rw [text, l.2.isIdentifier_eq, usesBasic, Bool.or_false, Bool.or_false, isSupported]
  · have hnumeric : isNumeric e.text = false := by
      refine Bool.eq_false_iff.mpr fun h => hword ?_
      obtain ⟨_, _, -, -, hall⟩ := exists_of_isNumeric h
      exact hall
    have hidentifier : isIdentifier e.text = false := by
      refine Bool.eq_false_iff.mpr fun h => hword ?_
      obtain ⟨_, _, -, -, hall⟩ := exists_of_isIdentifier h
      exact hall
    rw [hnumeric, hidentifier, Bool.false_or, Bool.false_or]
    cases e with
    | name i => rw [text, i.2] at hidentifier; cases hidentifier
    | literal l => rw [usesBasic, isSupported, ← hnumeric, text]
    | parenthesized | unary | binary | sizeof | sizeofType => rfl

end Expression

/-! ## Sizes -/

/-- A component of a size: an expression, with blanks on both sides. -/
structure Component where
  ahead : Blanks := ⟨[], IsBlanks.nil⟩
  expression : Expression
  spaced : expression.IsSpaced
  behind : Blanks := ⟨[], IsBlanks.nil⟩

namespace Component

def text (component : Component) : Text :=
  component.ahead.1 ++ (component.expression.text ++ component.behind.1)

theorem trim_text (component : Component) : trim component.text = component.expression.text := by
  rw [text, trim_append_of_blanks component.ahead.2, trim_append_blanks component.behind.2,
    Expression.trim_text]

theorem comma_not_mem_text (component : Component) : ',' ∉ component.text := by
  have hblanks : ∀ gap : Blanks, ',' ∉ gap.1 := fun gap => gap.2.not_mem (by decide)
  simp [text, hblanks, Expression.comma_not_mem_text]

end Component

/-- A size with the components between commas. -/
def sizeText (components : List Component) : Text := join [','] (components.map Component.text)

theorem mentionsOfSize_sizeText (components : List Component) :
    mentionsOfSize (sizeText components) =
      components.flatMap fun component => mentionsOf component.expression.text := by
  cases components with
  | nil => decide
  | cons component more =>
    have hcommas : ∀ piece ∈ component.text :: more.map Component.text, ',' ∉ piece := by
      intro piece hpiece
      rw [← List.map_cons] at hpiece
      obtain ⟨c, -, rfl⟩ := List.mem_map.mp hpiece
      exact c.comma_not_mem_text
    rw [mentionsOfSize, sizeText, List.map_cons, splitOn_join hcommas, ← List.map_cons, List.map_map,
      List.flatMap_map]
    simp only [Function.comp_def, Component.trim_text]

/-- The macros of sizes that are expressions have identifiers for names exactly if no component does
without parentheses and the four basic operators, but for names and decimal or hexadecimal numbers. -/
theorem names_isIdentifier_iff {collector : Collector} (hgroup : collector.formulaGroup = none)
    (hcaptured : AllCaptured collector.definitions)
    (hnames : ∀ n ∈ collector.table.names, isIdentifier n = true) (sizes : List (List Component)) :
    (∀ n ∈ (collector.collectAll (sizes.map sizeText)).2.table.names, isIdentifier n = true) ↔
      ∀ components ∈ sizes, ∀ component ∈ components, component.expression.isSupported = true := by
  rw [Collector.collectAll_of_plain hgroup, Collector.reference, forall_names_visit_iff hcaptured hnames,
    List.flatMap_map]
  simp only [mentionsOfSize_sizeText, List.forall_mem_flatMap, forall_mentionsOf_iff]
  refine forall₂_congr fun components _ => forall₂_congr fun component _ => ?_
  rw [Expression.isRegular_text component.spaced]

/-- An operator that makes no formula by itself is all right beside one that does. -/
theorem names_isIdentifier_of_shift :
    let collector := Collector.plain.define "LEN".toList "HDR % 8".toList
    let one : Expression := .literal ⟨"1".toList, '1', [], rfl, by decide, by simp⟩
    let sum : Expression :=
      .binary (.name ⟨"N".toList, by decide⟩) ⟨[], by decide⟩ .add ⟨[], by decide⟩ one
    let shift : Expression :=
      .binary (.name ⟨"LEN".toList, by decide⟩) ⟨[' '], by decide⟩ .shiftLeft ⟨[' '], by decide⟩
        (.parenthesized ⟨[], by decide⟩ sum ⟨[], by decide⟩)
    let sizes : List (List Component) :=
      [[{ expression := shift, spaced := ⟨trivial, trivial, trivial⟩ },
        { ahead := ⟨[' '], by decide⟩, expression := one, spaced := trivial }]]
    sizes.map sizeText = ["LEN << (N+1), 1".toList] ∧ collector.formulaGroup = none ∧
      AllCaptured collector.definitions ∧
      (∀ n ∈ collector.table.names, isIdentifier n = true) ∧
      (∀ components ∈ sizes, ∀ component ∈ components,
        component.expression.isSupported = true) ∧
      (collector.collectAll (sizes.map sizeText)).2.table.names =
        ["LEN".toList, "HDR".toList, "N".toList] ∧
      ∀ n ∈ (collector.collectAll (sizes.map sizeText)).2.table.names, isIdentifier n = true := by
  intro collector one sum shift sizes
  have hcaptured : AllCaptured collector.definitions := fun d hd =>
    ⟨_, _, List.mem_singleton.mp hd⟩
  have hsupported : ∀ components ∈ sizes, ∀ component ∈ components,
      component.expression.isSupported = true := by
    decide +kernel
  exact ⟨by decide +kernel, rfl, hcaptured, by decide, hsupported, by decide +kernel,
    (names_isIdentifier_iff rfl hcaptured (by decide) sizes).mpr hsupported⟩

/-- A remainder has none of the operators that make a formula, and becomes the name of a macro. -/
theorem remainder_not_isIdentifier :
    let e : Expression :=
      .binary (.name ⟨"N".toList, by decide⟩) ⟨[' '], by decide⟩ .remainder ⟨[' '], by decide⟩
        (.literal ⟨"4".toList, '4', [], rfl, by decide, by simp⟩)
    e.IsSpaced ∧ e.text = "N % 4".toList ∧
      (Collector.plain.collectAll [e.text]).2.table.names = ["N % 4".toList] ∧
      isIdentifier "N % 4".toList = false := by
  exact ⟨⟨trivial, trivial⟩, by decide, by decide +kernel, by decide⟩

end StructTables.Macro

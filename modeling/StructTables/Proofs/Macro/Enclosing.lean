import StructTables.Proofs.Macro.Parallel
import StructTables.Proofs.Macro.Placeholder

/-! # Names between delimiters

Where formulas stay in the sizes, a size is written as it stands in the source, but for delimiters around the
names in it. They can be found again from left to right, and without them the size comes back. -/

namespace StructTables.Macro
open Text

/-! ## Delimiters in a text -/

/-- The texts between delimiters, which are found from left to right. -/
def betweenDelimiters : Text → List Text
  | c :: d :: r =>
    if c = '#' ∧ d = '#' then [] :: betweenDelimiters r
    else (betweenDelimiters (d :: r)).modifyHead (c :: ·)
  | t => [t]

/-- Every second one of these texts, which is what delimiters enclose when they are taken in pairs. -/
def enclosed : List Text → List Text
  | _ :: name :: more => name :: enclosed more
  | _ => []

theorem betweenDelimiters_cons {c : Char} (h : c ≠ '#') (t : Text) :
    betweenDelimiters (c :: t) = (betweenDelimiters t).modifyHead (c :: ·) := by
  cases t with
  | nil => rfl
  | cons d r => rw [betweenDelimiters, if_neg fun hboth => h hboth.1]

theorem betweenDelimiters_append {a : Text} (h : '#' ∉ a) (t : Text) :
    betweenDelimiters (a ++ t) = (betweenDelimiters t).modifyHead (a ++ ·) := by
  induction a with
  | nil => exact (congrFun List.modifyHead_id _).symm
  | cons c a ih =>
    obtain ⟨hc, ha⟩ := List.ne_and_not_mem_of_not_mem_cons h
    rw [List.cons_append, betweenDelimiters_cons (Ne.symm hc), ih ha, List.modifyHead_modifyHead]
    rfl

theorem betweenDelimiters_delimiter (t : Text) :
    betweenDelimiters ('#' :: '#' :: t) = [] :: betweenDelimiters t := by
  rw [betweenDelimiters, if_pos ⟨rfl, rfl⟩]

theorem betweenDelimiters_bound {n : Text} (h : '#' ∉ n) (t : Text) :
    betweenDelimiters (bound n ++ t) = [] :: n :: betweenDelimiters t := by
  have hbound : bound n ++ t = '#' :: '#' :: (n ++ '#' :: '#' :: t) := by simp [bound, delimiter]
  rw [hbound, betweenDelimiters_delimiter, betweenDelimiters_append h, betweenDelimiters_delimiter,
    List.modifyHead_cons, List.append_nil]

theorem enclosed_modifyHead (f : Text → Text) (texts : List Text) :
    enclosed (texts.modifyHead f) = enclosed texts := by
  match texts with
  | [] => rfl
  | [_] => rfl
  | _ :: _ :: _ => rfl

theorem replaceAll_delimiter_bound {n : Text} (h : '#' ∉ n) (t : Text) :
    replaceAll delimiter [] (bound n ++ t) = n ++ replaceAll delimiter [] t := by
  have hbound : bound n ++ t = '#' :: ['#'] ++ (n ++ ('#' :: ['#'] ++ t)) := by
    simp [bound, delimiter]
  rw [hbound, delimiter, replaceAll, replaceFrom_mark, replaceFrom_append h, replaceFrom_mark]
  rfl

/-! ## Delimiters of a written size -/

namespace Mark

/-- The text of a stretch without delimiters. -/
def text : Mark → Text
  | .plain t => t
  | .name n => n

variable {apart : Bool} {marks : List Mark}

theorem enclosed_written (h : Spaced apart marks) :
    enclosed (betweenDelimiters (marks.flatMap written)) = marks.filterMap name? ∧
      (betweenDelimiters (marks.flatMap written)).length =
        2 * (marks.filterMap name?).length + 1 := by
  induction marks generalizing apart with
  | nil => exact ⟨rfl, rfl⟩
  | cons mark more ih =>
    rw [List.flatMap_cons]
    cases mark with
    | plain t =>
      obtain ⟨hnames, hlength⟩ := ih h.2
      rw [written, betweenDelimiters_append h.1, enclosed_modifyHead, List.length_modifyHead]
      exact ⟨hnames, hlength⟩
    | name n =>
      obtain ⟨hnames, hlength⟩ := ih h.2.2
      rw [written, betweenDelimiters_bound h.2.1,
        List.filterMap_cons_some (show name? (.name n) = some n from rfl)]
      refine ⟨congrArg (n :: ·) hnames, ?_⟩
      simp only [List.length_cons]
      omega

theorem replaceAll_delimiter_written (h : Spaced apart marks) :
    replaceAll delimiter [] (marks.flatMap written) = marks.flatMap text := by
  induction marks generalizing apart with
  | nil => rfl
  | cons mark more ih =>
    rw [List.flatMap_cons, List.flatMap_cons]
    cases mark with
    | plain t => rw [← ih h.2, written, text, delimiter, replaceAll, replaceFrom_append h.1, replaceAll]
    | name n => rw [← ih h.2.2, written, text, replaceAll_delimiter_bound h.2.1]

end Mark

/-! ## Formulas -/

namespace Formula

/-- A formula with delimiters around its names. -/
def bounded (formula : Text) : Text :=
  (tokens formula).flatMap fun token => if isName token then bound token else token

theorem written_eq_bounded (t : Text) : written t = bounded t := by
  rw [← written_marks, marks_eq_map_tokens, List.flatMap_map]
  refine List.flatMap_congr fun token _ => ?_
  rw [tokenMark]
  split <;> rfl

theorem mentions_eq_filter (t : Text) : mentions t = (tokens t).filter isName := by
  have hguard : Mark.name? ∘ tokenMark = Option.guard isName := by
    funext token
    by_cases h : isName token = true <;> simp [tokenMark, Mark.name?, Option.guard, h]
  rw [← names_marks, marks_eq_map_tokens, List.filterMap_map, hguard, List.filterMap_eq_filter]

theorem text_marks (t : Text) : (marks t).flatMap Mark.text = t := by
  have htext : ∀ token, (tokenMark token).text = token := by
    intro token
    rw [tokenMark]
    split <;> rfl
  rw [marks_eq_map_tokens, List.flatMap_map, List.flatMap_congr fun token _ => htext token,
    List.flatMap_id']
  exact List.flatten_splitBy _ t

/-- A word of a formula that begins with a digit, between what stands ahead of it and behind it. -/
structure HasLiteral (formula ahead literal behind : Text) : Prop where
  parts : formula = ahead ++ (literal ++ behind)
  digit : ∃ c ∈ literal.head?, c.isDigit = true
  word : literal.all isIdentifierCharacter = true
  ahead : ∀ c ∈ ahead.getLast?, isIdentifierCharacter c = false
  behind : ∀ c ∈ behind.head?, isIdentifierCharacter c = false

theorem HasLiteral.bounded_eq {formula ahead literal behind : Text}
    (h : HasLiteral formula ahead literal behind) :
    bounded formula = bounded ahead ++ (literal ++ bounded behind) := by
  obtain ⟨c, hc, hdigit⟩ := h.digit
  have hne : literal ≠ [] := by
    rintro rfl
    cases hc
  have happart : startsApart behind = true := by
    cases hbehind : behind with
    | nil => rfl
    | cons d r => simpa [startsApart] using h.behind d (by rw [hbehind]; rfl)
  -- the literal is a token of its own, since no word ends ahead of it or begins behind it
  have htokens : tokens formula = tokens ahead ++ literal :: tokens behind := by
    rw [h.parts, ← tokens_word hne h.word happart]
    exact List.splitBy_append fun d hd _ _ => by simp [h.ahead d hd]
  have hname : isName literal = false := by
    obtain ⟨d, r, rfl⟩ := List.exists_cons_of_ne_nil hne
    obtain rfl : d = c := Option.some.inj hc
    rw [isName, ← isMention_eq hne h.word, isMention, hdigit]
    rfl
  rw [bounded, htokens, List.flatMap_append, List.flatMap_cons, hname]
  rfl

end Formula

/-! ## Components -/

/-- A component with delimiters around it, or around its names if it is a formula. One that is empty or a
number has none. -/
def boundedComponent (component : Text) : Text :=
  if component.isEmpty || isNumeric component then component
  else if component.any Formula.isOperator then Formula.bounded component
  else bound component

/-- What stands between delimiters in a component: nothing of a number, the names of a formula, and
anything else as a whole. -/
def namesWithin (component : Text) : List Text :=
  if component.isEmpty || isNumeric component then []
  else if component.any Formula.isOperator then (Formula.tokens component).filter Formula.isName
  else [component]

namespace Collector

theorem marks_plain_cases (component : Text) :
    (plain.marks component).flatMap Mark.written = boundedComponent component ∧
      (plain.marks component).filterMap Mark.name? = namesWithin component ∧
      (plain.marks component).flatMap Mark.text = component := by
  unfold marks boundedComponent namesWithin
  split
  · exact ⟨by simp [Mark.written], rfl, by simp [Mark.text]⟩
  · cases hoperator : component.any Formula.isOperator with
    | true =>
      refine ⟨?_, ?_, Formula.text_marks component⟩
      · exact (Formula.written_marks component).trans (Formula.written_eq_bounded component)
      · exact (Formula.names_marks component).trans (Formula.mentions_eq_filter component)
    | false => exact ⟨by simp [Mark.written], rfl, by simp [Mark.text]⟩

end Collector

theorem boundedComponent_of_isFormula {component : Text} (h : isFormula component = true) :
    boundedComponent component = Formula.bounded component := by
  obtain ⟨hplain, hoperator⟩ := Bool.and_eq_true_iff.mp h
  rw [Bool.not_eq_true'] at hplain
  rw [boundedComponent, if_neg (Bool.eq_false_iff.mp hplain), if_pos hoperator]

/-! ## Sizes -/

namespace Sizing

variable {sizing : Sizing}

theorem spaced_joined (hgroup : sizing.collector.formulaGroup = none) (hhash : '#' ∉ sizing.size) :
    Mark.Spaced true (joined sizing.marks) :=
  (sizing.parted_joined hhash fun _ hsome => by rw [hgroup] at hsome; cases hsome).spaced

theorem marks_of_plain (hgroup : sizing.collector.formulaGroup = none) :
    sizing.marks = sizing.components.map Collector.plain.marks :=
  Collector.marksOf_of_plain hgroup sizing.components

theorem written_of_plain (hgroup : sizing.collector.formulaGroup = none) :
    sizing.written = join [','] (sizing.components.map boundedComponent) := by
  rw [written, marks_of_plain hgroup, List.map_map]
  refine congrArg (join [',']) (List.map_congr_left fun component _ => ?_)
  exact (Collector.marks_plain_cases component).1

theorem names_of_plain (hgroup : sizing.collector.formulaGroup = none) :
    (joined sizing.marks).filterMap Mark.name? = sizing.components.flatMap namesWithin := by
  rw [names_joined, marks_of_plain hgroup, List.filterMap_flatten, List.map_map, ← List.flatMap_def]
  exact List.flatMap_congr fun component _ => (Collector.marks_plain_cases component).2.1

theorem text_of_plain (hgroup : sizing.collector.formulaGroup = none) :
    (joined sizing.marks).flatMap Mark.text = join [','] sizing.components := by
  rw [flatMap_joined rfl, marks_of_plain hgroup, List.map_map]
  refine congrArg (join [',']) (List.map_id'' (fun component => ?_) _)
  exact (Collector.marks_plain_cases component).2.2

end Sizing

/-- Where formulas stay, delimiters are all that is added to a size. They come in pairs around what stands
alone in a component and around the names of formulas, whatever else the collector holds, and no word
that begins with a digit comes within a pair of a formula. -/
theorem collect_encloses {collector : Collector} (hgroup : collector.formulaGroup = none)
    {size : Text} (hhash : '#' ∉ size) :
    let components := (splitOn ',' size).map trim
    let text := (collector.collect size).1
    replaceAll delimiter [] text = join [','] components ∧
      (∀ other : Collector, other.formulaGroup = none → (other.collect size).1 = text) ∧
      text = join [','] (components.map boundedComponent) ∧
      enclosed (betweenDelimiters text) = components.flatMap namesWithin ∧
      (betweenDelimiters text).length = 2 * (components.flatMap namesWithin).length + 1 ∧
      ∀ component ∈ components, isFormula component = true → ∀ ahead literal behind,
        Formula.HasLiteral component ahead literal behind →
        boundedComponent component = Formula.bounded ahead ++ (literal ++ Formula.bounded behind) := by
  intro components text
  let sizing : Sizing := ⟨collector, size⟩
  have hspaced := sizing.spaced_joined hgroup hhash
  have hwritten : text = (joined sizing.marks).flatMap Mark.written := by
    rw [← sizing.written_joined, sizing.written_eq]
  have hbounded : ∀ other : Collector, other.formulaGroup = none →
      (other.collect size).1 = join [','] (components.map boundedComponent) := fun other hother => by
    rw [← Sizing.written_eq ⟨other, size⟩, Sizing.written_of_plain hother]
    rfl
  obtain ⟨henclosed, hpairs⟩ := Mark.enclosed_written hspaced
  rw [← hwritten, Sizing.names_of_plain hgroup] at henclosed hpairs
  refine ⟨?_, ?_, hbounded collector hgroup, henclosed, hpairs, ?_⟩
  · rw [hwritten, Mark.replaceAll_delimiter_written hspaced, Sizing.text_of_plain hgroup]
    rfl
  · exact fun other hother => (hbounded other hother).trans (hbounded collector hgroup).symm
  · intro component _ hformula ahead literal behind hliteral
    rw [boundedComponent_of_isFormula hformula, hliteral.bounded_eq]

/-- Names are enclosed that were captured or are in the table already, and literals that end in letters are
not. What is no name is enclosed as a whole if it stands alone. -/
theorem collect_encloses_of_captured :
    let captured := (Collector.plain.define "N".toList "M + 1".toList).reference ["K".toList]
    let size := "4, N ,(HDR_LEN+0x1FUL)*sizeof(N9)-9N,N % 2".toList
    let text := (captured.collect size).1
    text = "4,##N##,(##HDR_LEN##+0x1FUL)*sizeof(##N9##)-9N,##N % 2##".toList ∧
      replaceAll delimiter [] text = "4,N,(HDR_LEN+0x1FUL)*sizeof(N9)-9N,N % 2".toList ∧
      (Collector.plain.collect size).1 = text ∧
      enclosed (betweenDelimiters text) =
        ["N".toList, "HDR_LEN".toList, "N9".toList, "N % 2".toList] ∧
      boundedComponent "(HDR_LEN+0x1FUL)*sizeof(N9)-9N".toList =
        Formula.bounded "(HDR_LEN+".toList ++
          ("0x1FUL".toList ++ Formula.bounded ")*sizeof(N9)-9N".toList) := by
  intro captured size text
  obtain ⟨hdeleted, hsame, hwritten, henclosed, -, hliterals⟩ :=
    @collect_encloses captured (by decide +kernel) size (by decide +kernel)
  refine ⟨hwritten.trans (by decide +kernel), hdeleted.trans (by decide +kernel),
    hsame Collector.plain rfl, henclosed.trans (by decide +kernel), ?_⟩
  refine hliterals _ (by decide +kernel) (by decide +kernel) _ _ _
    ⟨rfl, ⟨'0', rfl, rfl⟩, rfl, fun c hc => ?_, fun c hc => ?_⟩
  · obtain rfl : '+' = c := Option.some.inj hc
    rfl
  · obtain rfl : ')' = c := Option.some.inj hc
    rfl

end StructTables.Macro

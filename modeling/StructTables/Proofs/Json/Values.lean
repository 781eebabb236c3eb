import StructTables.Proofs.Json.Strings

/-! # Values in JSON

A value without numbers is read back from its written form, at whatever depth it is written and
whatever follows it. The reader spends fuel on each level and on each item, and the written form is
longer than what it spends. -/

namespace StructTables.Json
open Text

/-- No number stands in the value. -/
inductive Numberless : Json → Prop
  | null : Numberless .null
  | bool (b : Bool) : Numberless (.bool b)
  | string (text? : Option Text) : Numberless (.string text?)
  | array {items : List Json} (h : ∀ item ∈ items, Numberless item) : Numberless (.array items)
  | object {entries : List (Option Text × Json)} (h : ∀ entry ∈ entries, Numberless entry.2) :
      Numberless (.object entries)

@[simp]
theorem numberless_ofText (t : Text) : Numberless (Json.ofText t) := .string _

theorem Numberless.ofList {α : Type} {f : α → Json} {l : List α} (h : ∀ x ∈ l, Numberless (f x)) :
    Numberless (Json.ofList f l) := by
  refine .array fun item hitem => ?_
  obtain ⟨x, hx, rfl⟩ := List.mem_map.mp hitem
  exact h x hx

theorem Numberless.record {fields : List (Text × Json)} (h : ∀ field ∈ fields, Numberless field.2) :
    Numberless (Json.record fields) := by
  refine .object fun entry hentry => ?_
  obtain ⟨field, hfield, rfl⟩ := List.mem_map.mp hentry
  exact h field hfield

/-! ## Written forms -/

theorem written_array (depth : Nat) (item : Json) (more : List Json) :
    written depth (.array (item :: more)) =
      '[' :: (newLine (depth + 1) ++ (written (depth + 1) item ++
        (writtenItems (depth + 1) more ++ (newLine depth ++ [']'])))) := by
  have hwritten : written depth (.array (item :: more)) =
      '[' :: newLine (depth + 1) ++ written (depth + 1) item ++ writtenItems (depth + 1) more ++
        newLine depth ++ [']'] := rfl
  simp only [hwritten, List.cons_append, List.append_assoc]

theorem written_object (depth : Nat) (key : Option Text) (value : Json)
    (more : List (Option Text × Json)) :
    written depth (.object ((key, value) :: more)) =
      '\x7b' :: (newLine (depth + 1) ++ (writtenString key ++ ':' :: ' ' ::
        (written (depth + 1) value ++
          (writtenEntries (depth + 1) more ++ (newLine depth ++ ['\x7d']))))) := by
  have hwritten : written depth (.object ((key, value) :: more)) =
      '\x7b' :: newLine (depth + 1) ++ writtenString key ++ [':', ' '] ++ written (depth + 1) value ++
        writtenEntries (depth + 1) more ++ newLine depth ++ ['\x7d'] := rfl
  simp only [hwritten, List.cons_append, List.append_assoc, List.nil_append]

/-! ## Gaps -/

theorem skipSpace_cons {c : Char} (h : isSpace c = false) (r : Text) : skipSpace (c :: r) = c :: r :=
  List.dropWhile_cons_of_neg (by simp [h])

theorem skipSpace_space (r : Text) : skipSpace (' ' :: r) = skipSpace r := rfl

theorem skipSpace_newLine (depth : Nat) (r : Text) : skipSpace (newLine depth ++ r) = skipSpace r := by
  refine List.dropWhile_append_of_pos fun c hc => ?_
  simp only [newLine, List.mem_cons, List.mem_replicate] at hc
  rcases hc with rfl | ⟨-, rfl⟩ <;> rfl

/-- A written value begins with a character that is neither a space nor a closing bracket. -/
theorem exists_written_cons {value : Json} (h : Numberless value) (depth : Nat) :
    ∃ c r, written depth value = c :: r ∧ isSpace c = false ∧ c ≠ ']' := by
  cases h with
  | null => exact ⟨'n', _, rfl, rfl, by decide⟩
  | bool b =>
    cases b with
    | true => exact ⟨'t', _, rfl, rfl, by decide⟩
    | false => exact ⟨'f', _, rfl, rfl, by decide⟩
  | string text? =>
    obtain ⟨body, hbody, -⟩ := exists_writtenString text?
    exact ⟨'"', body, hbody, rfl, by decide⟩
  | @array items _ =>
    cases items with
    | nil => exact ⟨'[', [']'], rfl, rfl, by decide⟩
    | cons item more => exact ⟨'[', _, written_array depth item more, rfl, by decide⟩
  | @object entries _ =>
    cases entries with
    | nil => exact ⟨'\x7b', ['\x7d'], rfl, rfl, by decide⟩
    | cons entry more => exact ⟨'\x7b', _, written_object depth entry.1 entry.2 more, rfl, by decide⟩

theorem skipSpace_written {value : Json} (h : Numberless value) (depth : Nat) (rest : Text) :
    skipSpace (written depth value ++ rest) = written depth value ++ rest := by
  obtain ⟨c, r, hwritten, hc, -⟩ := exists_written_cons h depth
  rw [hwritten, List.cons_append, skipSpace_cons hc]

/-! ## Items and entries -/

/-- The value is read back, at any depth and with any text behind it. -/
def ReadsBack (value : Json) : Prop :=
  ∀ (depth fuel : Nat) (rest : Text), (written depth value).length < fuel →
    value? fuel (written depth value ++ rest) = some (value, rest)

theorem ReadsBack.of_succ {value : Json}
    (h : ∀ (depth fuel : Nat) (rest : Text), (written depth value).length ≤ fuel →
      value? (fuel + 1) (written depth value ++ rest) = some (value, rest)) : ReadsBack value
  | _, 0, _, hfuel => absurd hfuel (Nat.not_lt_zero _)
  | depth, fuel + 1, rest, hfuel => h depth fuel rest (Nat.le_of_lt_succ hfuel)

section Items

variable (depth outer : Nat) (rest : Text)

theorem items?_written {item : Json} {more : List Json}
    (hnumber : ∀ value ∈ item :: more, Numberless value)
    (hreads : ∀ value ∈ item :: more, ReadsBack value) {fuel : Nat}
    (hfuel : (written depth item).length + (writtenItems depth more).length + 1 < fuel) :
    items? fuel (written depth item ++
      (writtenItems depth more ++ (newLine outer ++ ']' :: rest))) = some (item :: more, rest) := by
  obtain ⟨fuel, rfl⟩ : ∃ n, fuel = n + 1 := ⟨fuel - 1, by omega⟩
  induction more generalizing item fuel with
  | nil =>
    have hitem := hreads item List.mem_cons_self depth fuel
    rw [items?, hitem _ (by omega)]
    simp only [writtenItems, List.nil_append, skipSpace_newLine, skipSpace_cons (c := ']') rfl]
  | cons second more ih =>
    obtain ⟨-, hnumber⟩ := List.forall_mem_cons.mp hnumber
    obtain ⟨hitem, hreads⟩ := List.forall_mem_cons.mp hreads
    simp only [writtenItems, List.length_append, List.length_cons] at hfuel
    obtain ⟨fuel, rfl⟩ : ∃ n, fuel = n + 1 := ⟨fuel - 1, by omega⟩
    rw [items?, hitem depth _ _ (by omega)]
    simp only [writtenItems, List.cons_append, List.append_assoc, skipSpace_cons (c := ',') rfl,
      skipSpace_newLine, skipSpace_written (hnumber second List.mem_cons_self)]
    rw [ih hnumber hreads fuel (by omega)]
    rfl

/-- One entry is read, and what follows it says whether there are more. -/
theorem entries?_entry (key : Option Text) {value : Json} (hnumber : Numberless value)
    (hreads : ReadsBack value) {fuel : Nat} (hfuel : (written depth value).length < fuel)
    (tail : Text) :
    entries? (fuel + 1) (writtenString key ++ ':' :: ' ' :: (written depth value ++ tail)) =
      match skipSpace tail with
      | '\x7d' :: rest => some ([(key, value)], rest)
      | ',' :: r =>
        (entries? fuel (skipSpace r)).map fun (entries, rest) => ((key, value) :: entries, rest)
      | _ => none := by
  obtain ⟨body, hbody, hkey⟩ := exists_writtenString key
  rw [hbody, List.cons_append, entries?, hkey]
  simp only [skipSpace_cons (c := ':') rfl, skipSpace_space, skipSpace_written hnumber]
  exact hreads depth fuel tail hfuel ▸ rfl

theorem skipSpace_writtenString (key : Option Text) (r : Text) :
    skipSpace (writtenString key ++ r) = writtenString key ++ r := by
  obtain ⟨body, hbody, -⟩ := exists_writtenString key
  rw [hbody, List.cons_append, skipSpace_cons rfl]

theorem entries?_written {key : Option Text} {value : Json} {more : List (Option Text × Json)}
    (hnumber : ∀ entry ∈ (key, value) :: more, Numberless entry.2)
    (hreads : ∀ entry ∈ (key, value) :: more, ReadsBack entry.2) {fuel : Nat}
    (hfuel : (written depth value).length + (writtenEntries depth more).length + 1 < fuel) :
    entries? fuel (writtenString key ++ ':' :: ' ' :: (written depth value ++
      (writtenEntries depth more ++ (newLine outer ++ '\x7d' :: rest)))) =
        some ((key, value) :: more, rest) := by
  obtain ⟨fuel, rfl⟩ : ∃ n, fuel = n + 1 := ⟨fuel - 1, by omega⟩
  induction more generalizing key value fuel with
  | nil =>
    rw [entries?_entry depth key (hnumber _ List.mem_cons_self) (hreads _ List.mem_cons_self)
      (by simp only; omega)]
    simp only [writtenEntries, List.nil_append, skipSpace_newLine, skipSpace_cons (c := '\x7d') rfl]
  | cons second more ih =>
    obtain ⟨second, next⟩ := second
    obtain ⟨hfirst, hnumber⟩ := List.forall_mem_cons.mp hnumber
    obtain ⟨hvalue, hreads⟩ := List.forall_mem_cons.mp hreads
    simp only [writtenEntries, List.length_append, List.length_cons] at hfuel
    obtain ⟨fuel, rfl⟩ : ∃ n, fuel = n + 1 := ⟨fuel - 1, by omega⟩
    rw [entries?_entry depth key hfirst hvalue (by simp only; omega)]
    simp only [writtenEntries, List.cons_append, List.append_assoc, List.nil_append,
      skipSpace_cons (c := ',') rfl, skipSpace_newLine, skipSpace_writtenString]
    rw [ih hnumber hreads fuel (by omega)]
    rfl

end Items

/-! ## Values -/

theorem value?_array {r : Text} (h : ∀ rest, skipSpace r ≠ ']' :: rest) (fuel : Nat) :
    value? (fuel + 1) ('[' :: r) =
      (items? fuel (skipSpace r)).map fun (items, rest) => (.array items, rest) := by
  rw [value?]
  split
  case h_1 rest heq => exact absurd heq (h rest)
  case h_2 => rfl

theorem value?_object {r : Text} (h : ∀ rest, skipSpace r ≠ '\x7d' :: rest) (fuel : Nat) :
    value? (fuel + 1) ('\x7b' :: r) =
      (entries? fuel (skipSpace r)).map fun (entries, rest) => (.object entries, rest) := by
  rw [value?]
  split
  case h_1 rest heq => exact absurd heq (h rest)
  case h_2 => rfl

theorem readsBack_array {items : List Json} (hnumber : ∀ item ∈ items, Numberless item)
    (hreads : ∀ item ∈ items, ReadsBack item) : ReadsBack (.array items) := by
  refine .of_succ fun depth fuel rest hfuel => ?_
  cases items with
  | nil => rfl
  | cons item more =>
    obtain ⟨c, r, hwritten, -, hc⟩ :=
      exists_written_cons (hnumber item List.mem_cons_self) (depth + 1)
    have hskip : ∀ tail, skipSpace (newLine (depth + 1) ++ (written (depth + 1) item ++ tail)) =
        written (depth + 1) item ++ tail := fun tail => by
      rw [skipSpace_newLine, skipSpace_written (hnumber item List.mem_cons_self)]
    rw [written_array] at hfuel ⊢
    simp only [List.length_cons, List.length_append] at hfuel
    simp only [List.cons_append, List.append_assoc, List.nil_append]
    rw [value?_array, hskip,
      items?_written (depth + 1) depth rest hnumber hreads (by omega)]
    · rfl
    · intro rest heq
      rw [hskip, hwritten, List.cons_append] at heq
      exact hc (List.cons.inj heq).1

theorem readsBack_object {entries : List (Option Text × Json)}
    (hnumber : ∀ entry ∈ entries, Numberless entry.2)
    (hreads : ∀ entry ∈ entries, ReadsBack entry.2) : ReadsBack (.object entries) := by
  refine .of_succ fun depth fuel rest hfuel => ?_
  cases entries with
  | nil => rfl
  | cons entry more =>
    obtain ⟨key, value⟩ := entry
    obtain ⟨body, hbody, -⟩ := exists_writtenString key
    have hskip : ∀ tail, skipSpace (newLine (depth + 1) ++ (writtenString key ++ tail)) =
        writtenString key ++ tail := fun tail => by
      rw [skipSpace_newLine, skipSpace_writtenString]
    rw [written_object] at hfuel ⊢
    simp only [List.length_cons, List.length_append] at hfuel
    simp only [List.cons_append, List.append_assoc, List.nil_append]
    rw [value?_object, hskip,
      entries?_written (depth + 1) depth rest hnumber hreads (by omega)]
    · rfl
    · intro rest heq
      rw [hskip, hbody, List.cons_append] at heq
      exact absurd (List.cons.inj heq).1 (by decide)

theorem Numberless.readsBack {value : Json} (h : Numberless value) : ReadsBack value := by
  induction h with
  | null => exact .of_succ fun depth fuel rest _ => rfl
  | bool b => exact .of_succ fun depth fuel rest _ => by cases b <;> rfl
  | string text? =>
    obtain ⟨body, hbody, hread⟩ := exists_writtenString text?
    refine .of_succ fun depth fuel rest _ => ?_
    have hwritten : written depth (.string text?) = '"' :: body := hbody
    rw [hwritten]
    show (string? (body ++ rest)).map _ = _
    rw [hread]
    rfl
  | array hnumber ih => exact readsBack_array hnumber ih
  | object hnumber ih => exact readsBack_object hnumber ih

/-- A value without numbers comes back from the text that it is rendered as. -/
theorem parse?_render_of_numberless {value : Json} (h : Numberless value) :
    parse? value.render = some value := by
  have hskip : skipSpace (written 0 value) = written 0 value := by
    simpa using skipSpace_written h 0 []
  have hread := h.readsBack 0 ((written 0 value).length + 1) [] (Nat.lt_succ_self _)
  rw [List.append_nil] at hread
  rw [parse?, render, hskip, hread]
  rfl

end StructTables.Json

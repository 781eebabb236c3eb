import Mathlib.Data.List.Nodup
import StructTables.Proofs.Macro.Factoring
import StructTables.Proofs.Macro.Lookup

/-! # Depth first

A reference adds a name, then all that its value leads to, and only then what was mentioned behind it. So
the names that it adds stand in the order of the routes to them: a route says at each name which of the
mentions is followed, and routes are compared as words are in a dictionary. -/

namespace StructTables.Macro
open Text

/-! ## Definitions as a graph -/

/-- The names that the captured value of a name mentions, in order of appearance. -/
def mentionsIn (definitions : List Definition) (name : Text) : List Text :=
  match definitions.find? (·.name == name) with
  | some d => d.mentions
  | none => []

/-- The value that a name is registered with. -/
def valueIn (definitions : List Definition) (name : Text) : Text :=
  match definitions.find? (·.name == name) with
  | some d => d.value
  | none => placeholder

/-- One name leads to another that has not been seen if its captured value mentions that one. -/
def LeadsPast (definitions : List Definition) (seen : List Text) (name other : Text) : Prop :=
  other ∈ mentionsIn definitions name ∧ other ∉ seen

/-- A route from the names of a stack to another name, past what has been seen and to no name twice. It
gives the place in the stack to start from, then at each name the place of the mention to follow. -/
inductive Route (definitions : List Definition) : List Text → List Text → List Nat → Text → Prop
  | here {seen stack : List Text} {i : Nat} {name : Text} :
      stack[i]? = some name → name ∉ seen → Route definitions seen stack [i] name
  | on {seen stack : List Text} {i : Nat} {name : Text} {route : List Nat} {last : Text} :
      stack[i]? = some name → name ∉ seen →
      Route definitions (name :: seen) (mentionsIn definitions name) route last →
      Route definitions seen stack (i :: route) last

variable {definitions : List Definition} {seen stack more : List Text} {name last : Text}
  {route other : List Nat} {table : Table}

namespace Route

theorem not_mem_seen (h : Route definitions seen stack route last) : last ∉ seen := by
  induction h with
  | here _ hseen => exact hseen
  | on _ _ _ ih => exact fun hmem => ih (List.mem_cons_of_mem _ hmem)

theorem mono (h : Route definitions seen stack route last) {fewer : List Text} (hfewer : fewer ⊆ seen) :
    Route definitions fewer stack route last := by
  induction h generalizing fewer with
  | here hname hseen => exact .here hname fun hmem => hseen (hfewer hmem)
  | on hname hseen _ ih =>
    exact .on hname (fun hmem => hseen (hfewer hmem)) (ih (List.cons_subset_cons _ hfewer))

/-- Only the place that a route starts from is read in the stack. -/
theorem move {i j : Nat} (h : Route definitions seen stack (i :: route) last)
    (hplace : more[j]? = stack[i]?) : Route definitions seen more (j :: route) last := by
  cases h with
  | here hname hseen => exact .here (hplace.trans hname) hseen
  | on hname hseen hroute => exact .on (hplace.trans hname) hseen hroute

theorem ne_nil (h : Route definitions seen stack route last) : route ≠ [] := by
  cases h <;> exact List.cons_ne_nil _ _

theorem lt_length {i : Nat} (h : Route definitions seen stack (i :: route) last) : i < stack.length := by
  cases h with
  | here hname _ | on hname _ _ => exact (List.getElem?_eq_some_iff.mp hname).1

/-- A route that meets a name on its way leads on from what that name mentions. -/
theorem avoids (h : Route definitions seen stack route last) (hne : last ≠ name) :
    Route definitions (name :: seen) stack route last ∨
      ∃ rest, Route definitions (name :: seen) (mentionsIn definitions name) rest last := by
  induction h with
  | here hname hseen => exact .inl (.here hname (List.not_mem_cons_of_ne_of_not_mem hne hseen))
  | @on seen stack i met route last hname hseen hroute ih =>
    by_cases hmet : met = name
    · subst hmet
      exact .inr ⟨route, hroute⟩
    · rcases ih hne with hroute | ⟨rest, hrest⟩
      · exact .inl (.on hname (List.not_mem_cons_of_ne_of_not_mem hmet hseen)
          (hroute.mono (List.Perm.swap name met seen).subset))
      · exact .inr ⟨rest, hrest.mono (List.cons_subset_cons _ (List.subset_cons_self _ _))⟩

end Route

/-- What a route leads to can be reached without a look at the places. -/
theorem Route.exists_leads (h : Route definitions seen stack route last) :
    ∃ name ∈ stack, name ∉ seen ∧ Relation.ReflTransGen (LeadsPast definitions seen) name last := by
  induction h with
  | here hname hseen => exact ⟨_, List.mem_of_getElem? hname, hseen, .refl⟩
  | @on seen stack i name route last hname hseen _ ih =>
    obtain ⟨next, hnext, hnew, hleads⟩ := ih
    have hfewer : ∀ a b, LeadsPast definitions (name :: seen) a b → LeadsPast definitions seen a b :=
      fun a b hlead => ⟨hlead.1, List.not_mem_of_not_mem_cons hlead.2⟩
    have hlead : LeadsPast definitions seen name next :=
      ⟨hnext, List.not_mem_of_not_mem_cons hnew⟩
    exact ⟨name, List.mem_of_getElem? hname, hseen, .head hlead (.mono hfewer _ _ hleads)⟩

theorem exists_route_of_leads (hname : name ∈ stack) (hseen : name ∉ seen)
    (hleads : Relation.ReflTransGen (LeadsPast definitions seen) name last) :
    ∃ route, Route definitions seen stack route last := by
  induction hleads using Relation.ReflTransGen.head_induction_on generalizing stack with
  | refl =>
    obtain ⟨i, hi⟩ := List.getElem?_of_mem hname
    exact ⟨[i], .here hi hseen⟩
  | @head name next hlead _ ih =>
    obtain ⟨i, hi⟩ := List.getElem?_of_mem hname
    by_cases heq : last = name
    · exact ⟨[i], heq ▸ .here hi hseen⟩
    · -- the route from the next name may come back to this one, and then goes on from here
      obtain ⟨route, hroute⟩ := ih hlead.1 hlead.2
      rcases hroute.avoids heq with hroute | ⟨rest, hrest⟩
      · exact ⟨i :: route, .on hi hseen hroute⟩
      · exact ⟨i :: rest, .on hi hseen hrest⟩

/-- Past the names seen, a name can be reached by a route as soon as it can be reached at all. -/
theorem exists_route_iff : (∃ route, Route definitions seen stack route last) ↔
    ∃ name ∈ stack, name ∉ seen ∧
      Relation.ReflTransGen (LeadsPast definitions seen) name last :=
  ⟨fun ⟨_, h⟩ => h.exists_leads, fun ⟨_, hname, hseen, hleads⟩ =>
    exists_route_of_leads hname hseen hleads⟩

/-! ## Visits -/

/-- A name that the table does not hold takes its place there, and its mentions take its place on the
stack. -/
theorem visit_of_new (h : table.contains name = false) :
    visit definitions table (name :: stack) =
      visit definitions (table.register name (valueIn definitions name))
        (mentionsIn definitions name ++ stack) := by
  rw [valueIn, mentionsIn]
  cases hfind : definitions.find? (·.name == name) with
  | none => exact visit_of_unknown h hfind
  | some d => exact visit_of_known h hfind

@[elab_as_elim]
theorem visit_induction (definitions : List Definition) {motive : Table → List Text → Prop}
    (nil : ∀ table, motive table [])
    (seen : ∀ table name stack, table.contains name = true → motive table stack →
      motive table (name :: stack))
    (new : ∀ table name stack, table.contains name = false →
      motive (table.register name (valueIn definitions name))
        (mentionsIn definitions name ++ stack) →
      motive table (name :: stack))
    (table : Table) (stack : List Text) : motive table stack := by
  induction table, stack using visit.induct definitions with
  | case1 table => exact nil table
  | case2 table name stack h ih => exact seen table name stack h ih
  | case3 table name stack h hfind ih =>
    refine new table name stack (by simpa using h) ?_
    rwa [valueIn, mentionsIn, hfind]
  | case4 table name stack h d hfind ih =>
    refine new table name stack (by simpa using h) ?_
    rwa [valueIn, mentionsIn, hfind]

/-- What is on top of a stack is done with before the rest of it. -/
theorem visit_append (definitions : List Definition) (table : Table) (stack more : List Text) :
    visit definitions table (stack ++ more) =
      visit definitions (visit definitions table stack) more := by
  induction table, stack using visit_induction definitions with
  | nil table => rw [List.nil_append, visit]
  | seen table name stack h ih => rw [List.cons_append, visit_of_contains h, visit_of_contains h, ih]
  | new table name stack h ih =>
    rw [List.cons_append, visit_of_new h, visit_of_new h, ← List.append_assoc, ih]

/-- The macros that a visit adds to a table. -/
def added (definitions : List Definition) (table : Table) (stack : List Text) : List Macro :=
  (visit definitions table stack).entries.drop table.entries.length

theorem entries_prefix_visit (table : Table) (stack : List Text) :
    table.entries <+: (visit definitions table stack).entries := by
  induction table, stack using visit_induction definitions with
  | nil table => rw [visit]
  | seen table name stack h ih => rwa [visit_of_contains h]
  | new table name stack h ih =>
    rw [visit_of_new h]
    exact (table.entries_prefix_register name _).trans ih

theorem entries_visit (table : Table) (stack : List Text) :
    (visit definitions table stack).entries = table.entries ++ added definitions table stack :=
  (List.prefix_iff_eq_append.mp (entries_prefix_visit table stack)).symm

theorem names_visit (table : Table) (stack : List Text) :
    (visit definitions table stack).names =
      table.names ++ (added definitions table stack).map Macro.name := by
  rw [Table.names, entries_visit, List.map_append, Table.names]

theorem added_nil (table : Table) : added definitions table [] = [] := by
  rw [added, visit, List.drop_length]

theorem added_of_contains (h : table.contains name = true) (stack : List Text) :
    added definitions table (name :: stack) = added definitions table stack := by
  rw [added, visit_of_contains h, added]

theorem added_of_new (h : table.contains name = false) (stack : List Text) :
    added definitions table (name :: stack) =
      ⟨name, valueIn definitions name⟩ ::
        added definitions (table.register name (valueIn definitions name))
          (mentionsIn definitions name ++ stack) := by
  rw [added, visit_of_new h, entries_visit, Table.entries_register h, List.append_assoc,
    List.drop_left]
  rfl

theorem value_of_mem_added (table : Table) (stack : List Text) :
    ∀ m ∈ added definitions table stack, m.value = valueIn definitions m.name := by
  induction table, stack using visit_induction definitions with
  | nil table => simp [added_nil]
  | seen table name stack h ih => rwa [added_of_contains h]
  | new table name stack h ih =>
    rw [added_of_new h]
    exact List.forall_mem_cons.mpr ⟨rfl, ih⟩

theorem names_register_perm (h : table.contains name = false) (value : Text) :
    (table.register name value).names.Perm (name :: table.names) := by
  rw [Table.names, Table.entries_register h, List.map_append]
  exact List.perm_append_singleton name table.names

theorem not_mem_names (h : table.contains name = false) : name ∉ table.names := by
  rwa [← Table.contains_iff, Bool.not_eq_true]

/-! ## Routes through a stack -/

namespace Route

/-- The route in a stack with a name on top of it, for a route in the stack that the mentions of the name
take its place in. -/
def raise (count : Nat) : List Nat → List Nat
  | [] => []
  | i :: route => if i < count then 0 :: i :: route else (i - count + 1) :: route

theorem raise_lt (count : Nat) (h : route < other) : raise count route < raise count other := by
  cases other with
  | nil => cases h
  | cons j other =>
    cases route with
    | nil =>
      rw [raise, raise]
      split <;> exact List.nil_lt_cons _ _
    | cons i route =>
      rw [List.cons_lt_cons_iff] at h
      rw [raise, raise]
      split <;> split <;> rw [List.cons_lt_cons_iff]
      · exact .inr ⟨rfl, List.cons_lt_cons_iff.mpr h⟩
      · exact .inl (Nat.succ_pos _)
      · omega
      · exact h.imp (fun hlt => by omega) fun ⟨heq, hlt⟩ => ⟨by rw [heq], hlt⟩

theorem raised (h : Route definitions (name :: seen) (mentionsIn definitions name ++ stack) route last)
    (hname : name ∉ seen) :
    Route definitions seen (name :: stack)
      (raise (mentionsIn definitions name).length route) last := by
  obtain ⟨i, rest, rfl⟩ := List.exists_cons_of_ne_nil h.ne_nil
  rw [raise]
  split
  case isTrue hi => exact .on rfl hname (h.move (List.getElem?_append_left hi).symm)
  case isFalse hi =>
    refine (h.mono (List.subset_cons_self _ _)).move ?_
    rw [List.getElem?_cons_succ, List.getElem?_append_right (by omega)]

theorem append (h : Route definitions seen stack route last) (more : List Text) :
    Route definitions seen (stack ++ more) route last := by
  obtain ⟨i, rest, rfl⟩ := List.exists_cons_of_ne_nil h.ne_nil
  exact h.move (List.getElem?_append_left h.lt_length)

/-- A route through the mentions of the name on top starts with this name. -/
theorem raise_eq (h : Route definitions seen stack route last) :
    raise stack.length route = 0 :: route := by
  obtain ⟨i, rest, rfl⟩ := List.exists_cons_of_ne_nil h.ne_nil
  rw [raise, if_pos h.lt_length]

/-- Every route to another name is that of a route through the mentions, or comes behind one. -/
theorem exists_raise (h : Route definitions seen (name :: stack) route last) (hne : last ≠ name) :
    ∃ inner, Route definitions (name :: seen) (mentionsIn definitions name ++ stack) inner last ∧
      (raise (mentionsIn definitions name).length inner = route ∨
        raise (mentionsIn definitions name).length inner < route) := by
  obtain ⟨i, rest, rfl⟩ := List.exists_cons_of_ne_nil h.ne_nil
  cases i with
  | zero =>
    cases h with
    | here htop _ => exact absurd (Option.some.inj htop).symm hne
    | on htop _ hrest =>
      obtain rfl := Option.some.inj htop
      exact ⟨rest, hrest.append stack, .inl hrest.raise_eq⟩
  | succ i =>
    rcases h.avoids hne with havoids | ⟨inner, hinner⟩
    · refine ⟨((mentionsIn definitions name).length + i) :: rest, havoids.move ?_, .inl ?_⟩
      · rw [List.getElem?_append_right (Nat.le_add_right _ _), Nat.add_sub_cancel_left,
          List.getElem?_cons_succ]
      · rw [raise, if_neg (by omega), Nat.add_sub_cancel_left]
    · refine ⟨inner, hinner.append stack, .inr ?_⟩
      rw [hinner.raise_eq, List.cons_lt_cons_iff]
      exact .inl (Nat.succ_pos i)

/-- No route to another name comes ahead of the one to the top of the stack. -/
theorem zero_lt (h : Route definitions seen (name :: stack) route last) (hne : last ≠ name) :
    [0] < route := by
  obtain ⟨i, rest, rfl⟩ := List.exists_cons_of_ne_nil h.ne_nil
  cases i with
  | zero =>
    cases h with
    | here htop _ => exact absurd (Option.some.inj htop).symm hne
    | on _ _ hrest =>
      obtain ⟨j, rest, rfl⟩ := List.exists_cons_of_ne_nil hrest.ne_nil
      exact List.cons_lt_cons_iff.mpr (.inr ⟨rfl, List.nil_lt_cons _ _⟩)
  | succ i => exact List.cons_lt_cons_iff.mpr (.inl (Nat.succ_pos i))

end Route

/-- Names that have been seen on top of a stack are passed over. -/
theorem Route.of_seen (h : Route definitions seen (name :: stack) route last) (hname : name ∈ seen) :
    ∃ i rest, route = (i + 1) :: rest ∧ Route definitions seen stack (i :: rest) last := by
  obtain ⟨i, rest, rfl⟩ := List.exists_cons_of_ne_nil h.ne_nil
  cases i with
  | zero =>
    cases h with
    | here htop hnew | on htop hnew _ => exact absurd (Option.some.inj htop ▸ hname) hnew
  | succ i => exact ⟨i, rest, rfl, h.move List.getElem?_cons_succ.symm⟩

theorem exists_route_cons_of_seen (hname : name ∈ seen) :
    (∃ route, Route definitions seen (name :: stack) route last) ↔
      ∃ route, Route definitions seen stack route last := by
  constructor
  · rintro ⟨route, hroute⟩
    obtain ⟨i, rest, -, hrest⟩ := hroute.of_seen hname
    exact ⟨i :: rest, hrest⟩
  · rintro ⟨route, hroute⟩
    obtain ⟨i, rest, rfl⟩ := List.exists_cons_of_ne_nil hroute.ne_nil
    exact ⟨(i + 1) :: rest, hroute.move List.getElem?_cons_succ⟩

theorem exists_route_cons_of_new (hname : name ∉ seen) :
    (∃ route, Route definitions seen (name :: stack) route last) ↔ last = name ∨
      ∃ route, Route definitions (name :: seen) (mentionsIn definitions name ++ stack) route last := by
  constructor
  · rintro ⟨route, hroute⟩
    by_cases heq : last = name
    · exact .inl heq
    · obtain ⟨inner, hinner, -⟩ := hroute.exists_raise heq
      exact .inr ⟨inner, hinner⟩
  · rintro (rfl | ⟨route, hroute⟩)
    · exact ⟨[0], .here rfl hname⟩
    · exact ⟨_, hroute.raised hname⟩

/-! ## First routes -/

/-- Whether one name is reached on a route that comes ahead of all routes to another. -/
def Precedes (definitions : List Definition) (seen stack : List Text) (name other : Text) : Prop :=
  ∃ route, Route definitions seen stack route name ∧
    ∀ later, Route definitions seen stack later other → route < later

namespace Precedes
variable {a b : Text}

theorem of_perm (h : Precedes definitions seen stack a b) {others : List Text}
    (hperm : seen.Perm others) : Precedes definitions others stack a b := by
  obtain ⟨route, hroute, hfirst⟩ := h
  exact ⟨route, hroute.mono hperm.symm.subset, fun later hlater =>
    hfirst later (hlater.mono hperm.subset)⟩

theorem cons_of_seen (h : Precedes definitions seen stack a b) (hname : name ∈ seen) :
    Precedes definitions seen (name :: stack) a b := by
  obtain ⟨route, hroute, hfirst⟩ := h
  obtain ⟨i, rest, rfl⟩ := List.exists_cons_of_ne_nil hroute.ne_nil
  refine ⟨(i + 1) :: rest, hroute.move List.getElem?_cons_succ, fun later hlater => ?_⟩
  obtain ⟨j, other, rfl, hother⟩ := hlater.of_seen hname
  have hlt := List.cons_lt_cons_iff.mp (hfirst _ hother)
  exact List.cons_lt_cons_iff.mpr (hlt.imp Nat.succ_lt_succ (.imp_left (congrArg (· + 1))))

theorem top (hname : name ∉ seen) (hne : b ≠ name) :
    Precedes definitions seen (name :: stack) name b :=
  ⟨[0], .here rfl hname, fun _ hlater => hlater.zero_lt hne⟩

/-- What a name leads to goes ahead of the stack below it. -/
theorem cons_of_new (h : Precedes definitions (name :: seen) (mentionsIn definitions name ++ stack) a b)
    (hname : name ∉ seen) (hne : b ≠ name) : Precedes definitions seen (name :: stack) a b := by
  obtain ⟨route, hroute, hfirst⟩ := h
  refine ⟨_, hroute.raised hname, fun later hlater => ?_⟩
  obtain ⟨inner, hinner, hle⟩ := hlater.exists_raise hne
  have hlt := Route.raise_lt (mentionsIn definitions name).length (hfirst inner hinner)
  rcases hle with heq | hle
  · exact heq ▸ hlt
  · exact List.lt_trans hlt hle

end Precedes

/-! ## What a visit adds -/

theorem mem_names_added_iff (table : Table) (stack : List Text) (last : Text) :
    last ∈ (added definitions table stack).map Macro.name ↔
      ∃ route, Route definitions table.names stack route last := by
  induction table, stack using visit_induction definitions with
  | nil table =>
    rw [added_nil]
    refine ⟨fun h => (List.not_mem_nil h).elim, ?_⟩
    rintro ⟨_, h⟩
    cases h with
    | here hname _ | on hname _ _ => cases hname
  | seen table name stack h ih =>
    rw [added_of_contains h, ih, exists_route_cons_of_seen (Table.contains_iff.mp h)]
  | new table name stack h ih =>
    have hperm := names_register_perm h (valueIn definitions name)
    rw [added_of_new h, List.map_cons, List.mem_cons, ih, exists_route_cons_of_new (not_mem_names h)]
    exact or_congr_right (exists_congr fun _ =>
      ⟨fun hroute => hroute.mono hperm.symm.subset, fun hroute => hroute.mono hperm.subset⟩)

/-- What is added was not there. -/
theorem not_mem_names_of_added {table : Table} {stack : List Text} {last : Text}
    (h : last ∈ (added definitions table stack).map Macro.name) : last ∉ table.names := by
  obtain ⟨route, hroute⟩ := (mem_names_added_iff table stack last).mp h
  exact hroute.not_mem_seen

theorem ne_of_added_behind {value : Text}
    (h : last ∈ (added definitions (table.register name value) stack).map Macro.name) :
    last ≠ name := by
  rintro rfl
  exact not_mem_names_of_added h (Table.mem_names_register.mpr (.inr rfl))

theorem nodup_names_added (table : Table) (stack : List Text) :
    ((added definitions table stack).map Macro.name).Nodup := by
  induction table, stack using visit_induction definitions with
  | nil table => simp [added_nil]
  | seen table name stack h ih => rwa [added_of_contains h]
  | new table name stack h ih =>
    rw [added_of_new h]
    exact List.nodup_cons.mpr ⟨fun hmem => ne_of_added_behind hmem rfl, ih⟩

/-- The macros that are added are known from what can be reached, whatever the order of the stack. -/
theorem mem_added_iff {table : Table} {stack : List Text} {m : Macro} :
    m ∈ added definitions table stack ↔
      (∃ name ∈ stack, name ∉ table.names ∧
        Relation.ReflTransGen (LeadsPast definitions table.names) name m.name) ∧
      m.value = valueIn definitions m.name := by
  rw [← exists_route_iff, ← mem_names_added_iff, List.mem_map]
  constructor
  · exact fun hm => ⟨⟨m, hm, rfl⟩, value_of_mem_added table stack m hm⟩
  · rintro ⟨⟨entry, hentry, hname⟩, hvalue⟩
    have hsame : entry.value = m.value := by
      rw [value_of_mem_added table stack entry hentry, hname, hvalue]
    have heq : entry = m := congrArg₂ Macro.mk hname hsame
    exact heq ▸ hentry

/-- Names are added in the order of the first routes to them. -/
theorem pairwise_precedes_added (table : Table) (stack : List Text) :
    ((added definitions table stack).map Macro.name).Pairwise
      (Precedes definitions table.names stack) := by
  induction table, stack using visit_induction definitions with
  | nil table => simp [added_nil]
  | seen table name stack h ih =>
    rw [added_of_contains h]
    exact ih.imp fun hprecedes => hprecedes.cons_of_seen (Table.contains_iff.mp h)
  | new table name stack h ih =>
    have hname := not_mem_names h
    have hperm := names_register_perm h (valueIn definitions name)
    rw [added_of_new h]
    refine List.pairwise_cons.mpr ⟨fun b hb => .top hname (ne_of_added_behind hb), ?_⟩
    exact ih.imp_of_mem fun _ hb hprecedes =>
      (hprecedes.of_perm hperm).cons_of_new hname (ne_of_added_behind hb)

/-! ## Calls inside one another -/

/-- A reference that calls itself for each mention, with a bound on how deep the calls are nested. -/
def referenceWithin (definitions : List Definition) : Nat → Table → Text → Option Table
  | 0, _, _ => none
  | depth + 1, table, name =>
    match definitions.find? (·.name == name) with
    | none => some (table.register name placeholder)
    | some d =>
      if table.contains name then some table
      else d.mentions.foldlM (referenceWithin definitions depth) (table.register name d.value)

/-- The number of definitions whose names the table does not hold. -/
def unregistered (definitions : List Definition) (table : Table) : Nat :=
  definitions.countP fun d => ! table.contains d.name

theorem unregistered_le (definitions : List Definition) {before after : Table}
    (h : before.names ⊆ after.names) :
    unregistered definitions after ≤ unregistered definitions before := by
  refine List.countP_mono_left fun d _ hd => ?_
  rw [Bool.not_eq_true', Bool.eq_false_iff, ne_eq, Table.contains_iff] at hd ⊢
  exact fun hmem => hd (h hmem)

theorem unregistered_register_lt {d : Definition} (hd : d ∈ definitions)
    (h : table.contains d.name = false) (value : Text) :
    unregistered definitions (table.register d.name value) < unregistered definitions table := by
  obtain ⟨before, after, rfl⟩ := List.append_of_mem hd
  have hsubset : table.names ⊆ (table.register d.name value).names := fun n hn =>
    Table.mem_names_register.mpr (.inl hn)
  have hbefore := unregistered_le before hsubset
  have hafter := unregistered_le after hsubset
  have hnew : (table.register d.name value).contains d.name = true :=
    Table.contains_iff.mpr (Table.mem_names_register.mpr (.inr rfl))
  simp only [unregistered, List.countP_append, List.countP_cons, h, hnew] at hbefore hafter ⊢
  simp only [Bool.not_true, Bool.not_false, Bool.false_eq_true, if_false, if_true]
  omega

/-- One call behind the other does what one visit of all the names does. -/
theorem foldlM_referenceWithin {depth : Nat}
    (heach : ∀ table name, unregistered definitions table < depth →
      referenceWithin definitions depth table name = some (visit definitions table [name]))
    (names : List Text) (h : unregistered definitions table < depth) :
    names.foldlM (referenceWithin definitions depth) table = some (visit definitions table names) := by
  induction names generalizing table with
  | nil =>
    rw [visit]
    rfl
  | cons name more ih =>
    have hle : unregistered definitions (visit definitions table [name]) ≤
        unregistered definitions table :=
      unregistered_le definitions (names_subset_visit table [name])
    have happend := visit_append definitions table [name] more
    rw [List.singleton_append] at happend
    rw [List.foldlM_cons, heach table name h, happend]
    exact ih (Nat.lt_of_le_of_lt hle h)

/-- Every call inside another has registered a definition, so they are nested no deeper than there are
definitions left to register, and one call for a name that has none. -/
theorem referenceWithin_eq {depth : Nat} (h : unregistered definitions table < depth) (name : Text) :
    referenceWithin definitions depth table name = some (visit definitions table [name]) := by
  induction depth generalizing table name with
  | zero => omega
  | succ depth ih =>
    rw [referenceWithin]
    cases hfind : definitions.find? (·.name == name) with
    | none =>
      cases hcontains : table.contains name with
      | true => rw [visit_of_contains hcontains, visit, Table.register, if_pos hcontains]
      | false => rw [visit_of_unknown hcontains hfind, visit]
    | some d =>
      cases hcontains : table.contains name with
      | true => simp [visit_of_contains hcontains, visit]
      | false =>
        obtain rfl : d.name = name := by simpa using List.find?_some hfind
        have hlt := unregistered_register_lt (List.mem_of_find?_eq_some hfind) hcontains d.value
        have hcalls := foldlM_referenceWithin (fun _ other hother => ih hother other) d.mentions
          (Nat.lt_of_lt_of_le hlt (Nat.le_of_lt_succ h))
        rw [visit_of_known hcontains hfind, List.append_nil, ← hcalls]
        rfl

/-! ## References -/

/-- A reference ends, and adds behind what the table holds the names that it leads to by way of names that
are not in the table, each of them once, with its value, and in the order of the first routes to them. -/
theorem reference_depthFirst (collector : Collector) (name : Text) :
    (∀ depth, unregistered collector.definitions collector.table < depth →
      referenceWithin collector.definitions depth collector.table name =
        some (collector.reference [name]).table) ∧
    ∃ new : List Macro,
      (collector.reference [name]).table.entries = collector.table.entries ++ new ∧
      (new.map Macro.name).Nodup ∧
      (∀ other, other ∈ new.map Macro.name ↔ name ∉ collector.table.names ∧
        Relation.ReflTransGen (LeadsPast collector.definitions collector.table.names) name other) ∧
      (new.map Macro.name).Pairwise
        (Precedes collector.definitions collector.table.names [name]) ∧
      ∀ m ∈ new, m.value = valueIn collector.definitions m.name := by
  refine ⟨fun depth hdepth => referenceWithin_eq hdepth name,
    added collector.definitions collector.table [name], entries_visit _ _, nodup_names_added _ _,
    fun other => ?_, pairwise_precedes_added _ _, value_of_mem_added _ _⟩
  rw [mem_names_added_iff, exists_route_iff]
  constructor
  · rintro ⟨n, hn, hreached⟩
    exact List.mem_singleton.mp hn ▸ hreached
  · exact fun hreached => ⟨name, List.mem_singleton_self name, hreached⟩

/-- Two definitions that mention each other, and a name that the table holds already. -/
theorem reference_depthFirst_of_cycle :
    let start : Collector := { table := ⟨[⟨"C".toList, "7".toList⟩]⟩ }
    let collector := (start.define "A".toList "C + B*D".toList).define "B".toList "(E - A)".toList
    unregistered collector.definitions collector.table < 3 ∧
      referenceWithin collector.definitions 3 collector.table "A".toList =
        some (collector.reference ["A".toList]).table ∧
      (collector.reference ["A".toList]).table.names =
        ["C".toList, "A".toList, "B".toList, "E".toList, "D".toList] := by
  intro start collector
  have hdepth : unregistered collector.definitions collector.table < 3 := by decide +kernel
  exact ⟨hdepth, (reference_depthFirst collector "A".toList).1 3 hdepth, by decide +kernel⟩

end StructTables.Macro

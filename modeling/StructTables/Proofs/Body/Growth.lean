import StructTables.Proofs.Body.CommentLines
import StructTables.Proofs.Body.InPlace
import StructTables.Proofs.Body.Names
import StructTables.Proofs.Macro.Lookup

/-! # What a body leaves as it was

A body only adds: members to a structure, macros to a collector, events to a log. Of the members that it
has added, the lines below can say more of the last one, and change nothing else. -/

namespace StructTables
open Text

/-- Collecting a size puts macros behind those that were there. -/
theorem Macro.Collector.entries_prefix_collect (collector : Macro.Collector) (size : Text) :
    collector.table.entries <+: (collector.collect size).2.table.entries := by
  obtain ⟨macros, htable⟩ := exists_registerEach_collect ⟨[], rfl⟩ size
  rw [htable]
  exact collector.table.entries_prefix_registerEach macros

/-! ## Members -/

/-- The same member with the same description, or with more behind it. -/
structure Member.IsContinuedBy (m other : Member) : Prop where
  undescribed : other.undescribed = m.undescribed
  description : m.description <+: other.description

theorem Member.IsContinuedBy.refl (m : Member) : m.IsContinuedBy m := ⟨rfl, List.prefix_rfl⟩

theorem Member.IsContinuedBy.trans {a b c : Member} (h : a.IsContinuedBy b)
    (h' : b.IsContinuedBy c) : a.IsContinuedBy c :=
  ⟨h'.undescribed.trans h.undescribed, h.description.trans h'.description⟩

theorem Member.isContinuedBy_describe (m : Member) (remark : Text) :
    m.IsContinuedBy (m.describe remark) := by
  refine ⟨m.undescribed_describe remark, ?_⟩
  unfold describe
  by_cases htext : (trim remark).isEmpty = true
  · rw [if_pos htext]
  · rw [if_neg htext]
    by_cases hnone : m.description.isEmpty = true
    · rw [if_pos hnone, List.isEmpty_iff.mp hnone]
      exact List.nil_prefix
    · rw [if_neg hnone]
      exact List.prefix_append _ _

namespace Body
open Declaration

/-! ## Entries -/

/-- What an assembly holds is there in a later one: the last of its members perhaps with more of a
description, all that stands ahead of that member as it was. -/
structure Assembly.GrowsTo (before after : Assembly) : Prop where
  added : ∀ ahead m, before.added = ahead ++ [m] →
    ∃ continued more, after.added = ahead ++ continued :: more ∧ m.IsContinuedBy continued
  macros : before.collector.table.entries <+: after.collector.table.entries
  log : before.log <+: after.log

theorem Assembly.GrowsTo.refl (assembly : Assembly) : assembly.GrowsTo assembly :=
  ⟨fun _ m h => ⟨m, [], h, .refl m⟩, List.prefix_rfl, List.prefix_rfl⟩

theorem Assembly.GrowsTo.trans {a b c : Assembly} (h : a.GrowsTo b) (h' : b.GrowsTo c) :
    a.GrowsTo c := by
  refine ⟨?_, h.macros.trans h'.macros, h.log.trans h'.log⟩
  intro ahead m ha
  obtain ⟨continued, more, hb, hm⟩ := h.added ahead m ha
  rcases List.eq_nil_or_concat more with rfl | ⟨init, last, rfl⟩
  · obtain ⟨next, rest, hc, hnext⟩ := h'.added ahead continued hb
    exact ⟨next, rest, hc, hm.trans hnext⟩
  · -- another member is the last one by then
    have hsplit : b.added = (ahead ++ continued :: init) ++ [last] := by simp [hb]
    obtain ⟨next, rest, hc, -⟩ := h'.added _ last hsplit
    exact ⟨continued, init ++ next :: rest, by simp [hc], hm⟩

theorem Assembly.growsTo_report (assembly : Assembly) (event : Event) :
    assembly.GrowsTo (assembly.report event) :=
  ⟨fun _ m h => ⟨m, [], h, .refl m⟩, List.prefix_rfl, List.prefix_append _ _⟩

theorem Assembly.growsTo_add (owner : Structure) (assembly : Assembly) (entry : Entry) :
    assembly.GrowsTo (assembly.add owner entry) := by
  match entry with
  | .invalid source => exact assembly.growsTo_report _
  | .remark text =>
    refine ⟨fun ahead m h => ?_, List.prefix_rfl, List.prefix_rfl⟩
    have hadded : (assembly.add owner (.remark text)).added = describeLast text assembly.added := rfl
    rw [hadded, h, describeLast_concat]
    exact ⟨m.describe text, [], rfl, m.isContinuedBy_describe text⟩
  | .variable dataType declarator description =>
    by_cases hdup : assembly.contains owner declarator.name = true
    · rw [add_duplicate hdup]
      exact assembly.growsTo_report _
    · rw [add_variable (Bool.eq_false_iff.mpr hdup)]
      refine ⟨fun ahead m h => ?_, ?_, List.prefix_rfl⟩
      · exact ⟨m, [(memberOf assembly.collector dataType declarator description).1], by simp [h],
          .refl m⟩
      · exact (assembly.collector.entries_prefix_collect declarator.arraySize).trans
          (Macro.Collector.entries_prefix_collect _ declarator.bitLength)

theorem Assembly.growsTo_foldl (owner : Structure) (assembly : Assembly) (entries : List Entry) :
    assembly.GrowsTo (entries.foldl (Assembly.add owner) assembly) := by
  induction entries generalizing assembly with
  | nil => exact .refl assembly
  | cons entry more ih => exact (assembly.growsTo_add owner entry).trans (ih _)

/-! ## Lines -/

/-- The assembly behind the first `count` lines of a body, with a log from before. -/
def stage (owner : Structure) (collector : Macro.Collector) (log : List Event) (body : List Text)
    (count : Nat) : Assembly :=
  ((entriesByLine {} 0 body).take count).flatten.foldl (Assembly.add owner)
    { collector := collector, log := log }

/-- The same with the structure growing in place. -/
def stageInPlace (owner : Structure) (collector : Macro.Collector) (log : List Event)
    (body : List Text) (count : Nat) : InPlace :=
  ((entriesByLine {} 0 body).take count).flatten.foldl InPlace.add
    { grown := owner, collector := collector, log := log }

variable (owner : Structure) (collector : Macro.Collector) (log : List Event) (body : List Text)

theorem stage_growsTo (i k : Nat) :
    (stage owner collector log body i).GrowsTo (stage owner collector log body (i + k)) := by
  rw [stage, stage, List.take_add, List.flatten_append, List.foldl_append]
  exact Assembly.growsTo_foldl owner _ _

theorem stageInPlace_mirrors (count : Nat) :
    (stageInPlace owner collector log body count).Mirrors owner
      (stage owner collector log body count) :=
  (InPlace.mirrors_start owner collector log).foldl _

theorem length_entriesByLine (context : Context) (skip : Nat) (lines : List Text) :
    (entriesByLine context skip lines).length = lines.length := by
  induction lines generalizing context skip with
  | nil => rfl
  | cons line below ih =>
    cases skip with
    | zero => exact congrArg (· + 1) (ih _ _)
    | succ k => exact congrArg (· + 1) (ih context k)

/-- What an entry reports does not depend on what was reported before. -/
theorem add_behind (assembly : Assembly) (entry : Entry) :
    Assembly.add owner { assembly with log := log ++ assembly.log } entry =
      { assembly.add owner entry with log := log ++ (assembly.add owner entry).log } := by
  match entry with
  | .invalid source => simp [Assembly.add, Assembly.report]
  | .remark text => rfl
  | .variable dataType declarator description =>
    have hcontains : Assembly.contains { assembly with log := log ++ assembly.log } owner
        declarator.name = assembly.contains owner declarator.name := rfl
    by_cases hdup : assembly.contains owner declarator.name = true
    · rw [add_duplicate hdup, add_duplicate (hcontains.trans hdup)]
      simp [Assembly.report]
    · have hnew := Bool.eq_false_iff.mpr hdup
      rw [add_variable hnew, add_variable (hcontains.trans hnew)]

theorem foldl_add_behind (assembly : Assembly) (entries : List Entry) :
    entries.foldl (Assembly.add owner) { assembly with log := log ++ assembly.log } =
      { entries.foldl (Assembly.add owner) assembly with
        log := log ++ (entries.foldl (Assembly.add owner) assembly).log } := by
  induction entries generalizing assembly with
  | nil => rfl
  | cons entry more ih => rw [List.foldl_cons, List.foldl_cons, add_behind, ih]

/-- Behind all lines there is what reading the body without a log gives, and the log ahead of that. -/
theorem stage_length :
    let assembly := assemble owner collector (read body)
    stage owner collector log body body.length = { assembly with log := log ++ assembly.log } := by
  have hlength := length_entriesByLine {} 0 body
  have hbehind := foldl_add_behind owner log { collector := collector } (read body)
  rw [List.append_nil] at hbehind
  rw [stage, ← hlength, List.take_length, flatten_entriesByLine, ← read]
  exact hbehind

/-- Whatever a structure, a collector and a log hold, a body puts its own behind it: members with names
of their own that were not taken, macros and events. Behind each of its lines, what it has put there is
kept by the lines below, of which only remarks on the last member so far go to that member. A structure
that grows in place is the same behind each line, with the place of that member remembered. -/
theorem addBody_growsTo :
    let stage := stage owner collector log body
    let last := stage body.length
    (∃ events, last.log = log ++ events ∧
      owner.addBody collector body =
        ({ owner with members := owner.members ++ last.added }, last.collector, events)) ∧
      (∀ m ∈ last.added, m.name ≠ [] ∧ owner.contains m.name = false) ∧
      (last.added.map Member.name).Nodup ∧
      collector.table.entries <+: last.collector.table.entries ∧
      warnings log <+: warnings last.log ∧
      (∀ i k, (stage i).GrowsTo (stage (i + k))) ∧
      ∀ i, (stageInPlace owner collector log body i).Mirrors owner (stage i) := by
  intro stage last
  have hlast : last = { assemble owner collector (read body) with
      log := log ++ (assemble owner collector (read body)).log } :=
    stage_length owner collector log body
  have hstart : ({ collector := collector } : Assembly).Fresh owner :=
    ⟨List.not_mem_nil, List.forall_mem_nil _, List.nodup_nil⟩
  obtain ⟨hnamed, huntaken, hdistinct⟩ := hstart.foldl (isNamed_readFrom {} 0 body)
  have hgrows : ∀ i k, (stage i).GrowsTo (stage (i + k)) := stage_growsTo owner collector log body
  have hwhole := hgrows 0 body.length
  rw [Nat.zero_add] at hwhole
  refine ⟨⟨(assemble owner collector (read body)).log, ?_, ?_⟩, ?_, ?_, hwhole.macros, ?_, hgrows,
    stageInPlace_mirrors owner collector log body⟩
  · rw [hlast]
  · rw [hlast]
    rfl
  · intro m hm
    rw [hlast] at hm
    exact ⟨fun hname => hnamed (List.mem_map.mpr ⟨m, hm, hname⟩),
      huntaken m.name (List.mem_map_of_mem hm)⟩
  · rw [hlast]
    exact hdistinct
  · exact hwhole.log.filterMap Event.warning?

end Body
end StructTables

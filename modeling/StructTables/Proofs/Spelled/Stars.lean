import StructTables.Proofs.Body.Variables
import StructTables.Proofs.Spelled.Starred

/-! # Whose stars they are

Stars that are read as part of the type go to every variable of the line. This module says which spacings
leave each variable the stars of its own declarator. -/

namespace StructTables.Spelled
open Text Declaration Body Canonical

variable {line : StarredLine} {d : Starred}

/-! ## Spacings -/

namespace Stars

/-- No blank stands between the stars or behind them. -/
def Attached (stars : Stars) : Prop :=
  ∃ lead n, IsBlanks lead ∧ stars.1 = lead ++ List.replicate n '*'

/-- No blank stands between the stars. -/
def Joined (stars : Stars) : Prop :=
  ∃ lead n trail, IsBlanks lead ∧ IsBlanks trail ∧ stars.1 = lead ++ (List.replicate n '*' ++ trail)

theorem isBlanks_of_not_mem {t : Text} (h : IsStars t) (hstar : '*' ∉ t) : IsBlanks t := fun c hc =>
    (h c hc).resolve_left fun heq => hstar (heq ▸ hc)

theorem eq_replicate {t : Text} (h : IsStars t) (hblank : ∀ c ∈ t, isBlank c = false) :
    t = List.replicate t.length '*' :=
  List.eq_replicate_iff.mpr ⟨rfl, fun c hc => (h c hc).resolve_right (by simp [hblank c hc])⟩

end Stars

namespace Starred

theorem bare_collapse {lead trail : Text} (hlead : IsBlanks lead) (htrail : IsBlanks trail) (n : Nat)
    (name : Identifier) :
    bare (collapse (lead ++ (List.replicate n '*' ++ (trail ++ name.1)))) =
      { name := name.1, stars := n } := by
  have hword := isWord_identifier name
  have hstars : ∀ c ∈ List.replicate n '*', isBlank c = false := fun c hc => by
    rw [List.eq_of_mem_replicate hc]
    rfl
  rw [hlead.collapse_append]
  by_cases hn : n = 0
  · rw [hn, List.replicate_zero, List.nil_append, htrail.collapse_append, hword.collapse_eq]
    exact bare_starred 0 name
  · cases trail with
    | nil => rw [List.nil_append, (hword.append hstars).collapse_eq, bare_starred]
    | cons c r =>
      -- the blank is left as one space, which the name is trimmed of
      obtain ⟨hc, hr⟩ := List.forall_mem_cons.mp htrail
      have hrun : IsWord (List.replicate n '*') := ⟨by simpa using hn, hstars⟩
      have hrest : collapse (r ++ name.1) = name.1 := by
        rw [IsBlanks.collapse_append hr, hword.collapse_eq]
      rw [List.cons_append, hrun.collapse_append hc (words_append_ne_nil r hword), hrest,
        bare_replicate n (by rintro d ⟨⟩; decide), trim_cons_of_isBlank rfl, hword.trim_eq]

theorem declared_of_joined (h : d.stars.Joined) :
    d.declared.name = d.name.1 ∧ d.declared.stars = d.levels := by
  obtain ⟨lead, n, trail, hlead, htrail, hstars⟩ := h
  have hlevels : d.levels = n := by
    have hno : ∀ {t : Text}, IsBlanks t → t.count '*' = 0 := fun ht =>
      List.count_eq_zero.mpr (ht.not_mem rfl)
    simp [levels, hstars, hno hlead, hno htrail]
  rw [declared, declaredAs, hstars, List.append_assoc, List.append_assoc,
    bare_collapse hlead htrail n d.name, hlevels]
  exact ⟨rfl, rfl⟩

end Starred

/-! ## Members -/

theorem count_typeOf (dataType : Text) (stars : Nat) :
    (typeOf dataType stars).count '*' = dataType.count '*' + stars := by
  unfold typeOf
  by_cases h : stars = 0
  · simp [h]
  · simp [h]

namespace StarredLine

namespace Parting

variable (p : Parting line)

theorem name_ne_nil : ∀ x ∈ p.declared, x.name ≠ [] := by
  refine List.forall_mem_cons.mpr ⟨?_, List.forall_mem_map.mpr fun d _ => ?_⟩
  · exact Starred.declaredAs_name_ne_nil fun c hc _ => List.mem_append_right _ hc
  · exact Starred.declaredAs_name_ne_nil fun c hc hblank => Starred.mem_collapse_name hc hblank

theorem exists_members (owner : Structure) (collector : Macro.Collector) :
    ∃ added, (owner.addBody collector [line.text]).1.members = owner.members ++ added ∧
      List.Forall₂ (fun m x => (Declared.mk (collapse p.front) x []).Becomes m) added
        (firstNamed Declarator.name (owner.members.map Member.name) p.declared) := by
  have hremark : ∀ entry ∈ Body.read [line.text], entry.isRemark = false := by
    rw [p.read_eq]
    exact List.forall_mem_map.mpr fun x _ => isRemark_entryOf _ _ _ x
  obtain ⟨added, hadded, hmembers⟩ := Body.exists_members hremark owner collector
  have hnamed : ∀ x ∈ p.declared, (Declared.mk (collapse p.front) x []).name = x.name := fun _ _ => rfl
  rw [p.read_eq, declared?_map_entryOf p.name_ne_nil, firstNamed_map hnamed,
    List.forall₂_map_right_iff] at hmembers
  exact ⟨added, hadded, hmembers⟩

end Parting

/-- The variables with new names become members, each with its bare name and the stars of its own
declarator. -/
def KeepsStars (line : StarredLine) (owner : Structure) (collector : Macro.Collector) : Prop :=
  ∃ added, (owner.addBody collector [line.text]).1.members = owner.members ++ added ∧
    List.Forall₂ (fun m d => m.name = d.name.1 ∧ m.dataType.count '*' = d.levels) added
      (firstNamed (·.name.1) (owner.members.map Member.name) line.row)

/-- What makes the line keep the stars: a blank ahead of the first name, and none between or behind the
stars ahead of it if there is another name. -/
structure Settled (line : StarredLine) : Prop where
  parted : ∃ c ∈ line.first.stars.1, isBlank c = true
  attached : (∃ d ∈ line.more, d.name.1 ≠ line.first.name.1) → line.first.stars.Attached

end StarredLine

theorem Stars.attached_iff {stars : Stars} {s : Text} {b : Char} {n : Nat}
    (h : stars.1 = s ++ b :: List.replicate n '*') (hb : isBlank b = true) :
    stars.Attached ↔ s.count '*' = 0 := by
  have hmem : ∀ c ∈ s, c ∈ stars.1 := fun c hc => h ▸ List.mem_append_left _ hc
  constructor
  · rintro ⟨lead, k, hlead, hstars⟩
    refine List.count_eq_zero.mpr fun hstar => ?_
    rcases List.append_eq_append_iff.mp (h.symm.trans hstars) with ⟨gap, hgap, -⟩ | ⟨gap, -, hrun⟩
    · exact hlead.not_mem rfl (hgap ▸ List.mem_append_left _ hstar)
    · have hblank : b ∈ List.replicate k '*' := by simp [hrun]
      rw [List.eq_of_mem_replicate hblank] at hb
      cases hb
  · intro hcount
    have hs : IsBlanks s :=
      isBlanks_of_not_mem (fun c hc => stars.2 c (hmem c hc)) (List.count_eq_zero.mp hcount)
    refine ⟨s ++ [b], n, List.forall_mem_append.mpr ⟨hs, List.forall_mem_singleton.mpr hb⟩, ?_⟩
    rw [h, List.append_assoc, List.singleton_append]

namespace StarredLine

/-- Where a blank stands among the stars of the first declarator, the stars ahead of the last one go to
the type of all variables. -/
theorem exists_parting (h : ∃ c ∈ line.first.stars.1, isBlank c = true) :
    ∃ (p : Parting line) (s : Text) (n : Nat), p.front = line.type.text ++ s ∧
      p.run = List.replicate n '*' ∧
      line.first.stars.1 = s ++ p.blank.1 :: List.replicate n '*' := by
  obtain ⟨s, b, run, hstars, hb, hrun⟩ := exists_last_blank h
  have hreplicate : run = List.replicate run.length '*' := by
    refine Stars.eq_replicate (fun c hc => line.first.stars.2 c ?_) hrun
    rw [hstars]
    exact List.mem_append_right _ (List.mem_cons_of_mem _ hc)
  refine ⟨⟨line.type.text ++ s, ⟨b, hb⟩, run, ?_, hrun⟩, s, run.length, rfl, hreplicate, ?_⟩
  · rw [hstars, List.append_assoc]
  · exact hstars.trans (congrArg (s ++ b :: ·) hreplicate)

section Parted

variable {p : Parting line} {s : Text} {n : Nat}

theorem count_front (hfront : p.front = line.type.text ++ s) :
    (collapse p.front).count '*' = s.count '*' := by
  have htype : line.type.text.count '*' = 0 :=
    List.count_eq_zero.mpr (not_mem_type line.type rfl rfl)
  rw [count_collapse rfl, hfront, List.count_append, htype, Nat.zero_add]

theorem declaredAs_first (hrun : p.run = List.replicate n '*') :
    (line.first.declaredAs p.named).name = line.first.name.1 ∧
      (line.first.declaredAs p.named).stars = n := by
  rw [Starred.declaredAs, Parting.named, hrun, bare_starred]
  exact ⟨rfl, rfl⟩

theorem levels_first (hstars : line.first.stars.1 = s ++ p.blank.1 :: List.replicate n '*') :
    line.first.levels = s.count '*' + n := by
  have hblank : p.blank.1 ≠ '*' := fun heq => by cases heq ▸ p.blank.2
  rw [Starred.levels, hstars, List.count_append, List.count_cons_of_ne hblank, List.count_replicate_self]

end Parted

theorem Settled.keepsStars (h : line.Settled) (hjoined : ∀ d ∈ line.more, d.stars.Joined)
    (owner : Structure) (collector : Macro.Collector) : line.KeepsStars owner collector := by
  obtain ⟨p, s, n, hfront, hrun, hstars⟩ := exists_parting h.parted
  obtain ⟨hname, hcount⟩ := declaredAs_first hrun
  obtain ⟨added, hadded, hmembers⟩ := p.exists_members owner collector
  have hlater : ∀ {taken members}, line.first.name.1 ∈ taken →
      List.Forall₂ (fun m x => (Declared.mk (collapse p.front) x []).Becomes m) members
        (firstNamed Declarator.name taken (line.more.map Starred.declared)) →
      List.Forall₂ (fun m d => m.name = d.name.1 ∧ m.dataType.count '*' = d.levels) members
        (firstNamed (·.name.1) taken line.more) := by
    intro taken members htaken hmembers
    rw [firstNamed_map fun d hd => (Starred.declared_of_joined (hjoined d hd)).1,
      List.forall₂_map_right_iff] at hmembers
    refine forall₂_imp_of_mem hmembers fun m d hd hbecomes => ?_
    obtain ⟨hd, hnew⟩ := mem_of_mem_firstNamed hd
    obtain ⟨hsame, hlevels⟩ := Starred.declared_of_joined (hjoined d hd)
    have hother : d.name.1 ≠ line.first.name.1 := fun heq => hnew (heq ▸ htaken)
    have hnone := (Stars.attached_iff hstars p.blank.2).mp (h.attached ⟨d, hd, hother⟩)
    refine ⟨hbecomes.name.trans hsame, ?_⟩
    rw [hbecomes.dataType, count_typeOf, count_front hfront, hnone, hlevels, Nat.zero_add]
  refine ⟨added, hadded, ?_⟩
  rw [Parting.declared, firstNamed, hname] at hmembers
  rw [row, firstNamed]
  by_cases htaken : line.first.name.1 ∈ owner.members.map Member.name
  · rw [if_pos htaken] at hmembers ⊢
    exact hlater htaken hmembers
  · rw [if_neg htaken] at hmembers ⊢
    cases hmembers with
    | cons hfirst hmore =>
      refine .cons ⟨hfirst.name.trans hname, ?_⟩ (hlater (by simp) hmore)
      rw [hfirst.dataType, count_typeOf, count_front hfront, hcount, levels_first hstars]

/-- A structure without members. -/
def vacant : Structure := ⟨[], .tagged, []⟩

theorem star_not_mem_identifier (i : Identifier) : '*' ∉ i.1 := fun hc => by
  cases List.all_eq_true.mp (all_identifier i) '*' hc

/-- The members that keep the stars are those that the declarators come to. -/
theorem KeepsStars.exists_members (p : Parting line) (h : line.KeepsStars vacant {}) :
    ∃ added, List.Forall₂ (fun m x => (Declared.mk (collapse p.front) x []).Becomes m) added
        (firstNamed Declarator.name [] p.declared) ∧
      List.Forall₂ (fun m d => m.name = d.name.1 ∧ m.dataType.count '*' = d.levels) added
        (firstNamed (·.name.1) [] line.row) := by
  obtain ⟨added, hadded, hkeeps⟩ := h
  obtain ⟨others, hothers, hbecomes⟩ := p.exists_members vacant {}
  obtain rfl : added = others := List.append_cancel_left (hadded.symm.trans hothers)
  exact ⟨added, hbecomes, hkeeps⟩

/-- Names of members have no star in them, so no declarator may come to such a name. -/
theorem KeepsStars.star_not_mem (p : Parting line) (h : line.KeepsStars vacant {}) :
    ∀ x ∈ p.declared, '*' ∉ x.name := by
  intro x hx
  obtain ⟨added, hbecomes, hkeeps⟩ := h.exists_members p
  obtain ⟨y, hy, hsame⟩ := exists_mem_firstNamed hx List.not_mem_nil
  obtain ⟨m, hm, hname⟩ := exists_of_mem_forall₂ hbecomes.flip hy
  obtain ⟨d, -, hd, -⟩ := exists_of_mem_forall₂ hkeeps hm
  have hx : x.name = d.name.1 := hsame.symm.trans (hname.name.symm.trans hd)
  rw [hx]
  exact star_not_mem_identifier d.name

/-- The last word of a type of several words. -/
theorem exists_last_word (type : DataType) (h : ∃ c ∈ type.text, isBlank c = true) :
    ∃ front b last, type.text = front ++ b :: last ∧ isBlank b = true ∧
      (∀ c ∈ last, isBlank c = false) ∧ ∃ c r, last = c :: r ∧ c ≠ '*' := by
  obtain ⟨front, b, last, htext, hb, hlast⟩ := exists_last_blank h
  refine ⟨front, b, last, htext, hb, hlast, ?_⟩
  cases last with
  | nil =>
    have hend : isBlank b = false :=
      isBlank_getLast?_trim (t := type.text) (by rw [type.trimmed, htext]; simp)
    rw [hb] at hend
    cases hend
  | cons c r =>
    have hc : c ∈ type.text := by simp [htext]
    exact ⟨c, r, rfl, fun heq => not_mem_type type rfl rfl (heq ▸ hc)⟩

/-- Without a blank among the stars of the first declarator, these stand in its name, or the line declares
nothing. -/
theorem KeepsStars.parted (h : line.KeepsStars vacant {}) :
    ∃ c ∈ line.first.stars.1, isBlank c = true := by
  refine Decidable.byContradiction fun hno => ?_
  have hsolid : ∀ c ∈ line.first.stars.1, isBlank c = false := fun c hc =>
    Bool.eq_false_iff.mpr fun hblank => hno ⟨c, hc, hblank⟩
  have hstar : '*' ∈ line.first.stars.1 := by
    obtain ⟨c, hc⟩ := List.exists_mem_of_ne_nil _ line.apart
    exact ((line.first.stars.2 c hc).resolve_right (by simp [hsolid c hc])) ▸ hc
  by_cases htype : ∃ c ∈ line.type.text, isBlank c = true
  · obtain ⟨front, b, last, htext, hb, hlast, c, r, rfl, hc⟩ := exists_last_word line.type htype
    let p : Parting line := ⟨front, ⟨b, hb⟩, c :: r ++ line.first.stars.1, by simp [htext],
      List.forall_mem_append.mpr ⟨hlast, hsolid⟩⟩
    have hbare := bare_replicate 0 (show ∀ d ∈ p.named.head?, d ≠ '*' by rintro d ⟨⟩; exact hc)
    rw [p.isWord_named.trim_eq] at hbare
    have hname : (line.first.declaredAs p.named).name = p.named := congrArg Declarator.name hbare
    refine h.star_not_mem p _ List.mem_cons_self ?_
    rw [hname]
    exact List.mem_append_left _ (List.mem_append_right _ hstar)
  · have hword : ∀ c ∈ line.type.text, isBlank c = false := fun c hc =>
      Bool.eq_false_iff.mpr fun hblank => htype ⟨c, hc, hblank⟩
    have hread := read_unparted (List.forall_mem_append.mpr ⟨hword, hsolid⟩)
    obtain ⟨added, hadded, hkeeps⟩ := h
    rw [Structure.addBody, hread] at hadded
    obtain rfl : added = [] := hadded.symm
    rw [row, vacant, firstNamed, if_neg (by simp)] at hkeeps
    cases hkeeps

theorem KeepsStars.settled (h : line.KeepsStars vacant {}) (hjoined : ∀ d ∈ line.more, d.stars.Joined) :
    line.Settled := by
  obtain ⟨p, s, n, hfront, hrun, hstars⟩ := exists_parting h.parted
  refine ⟨h.parted, ?_⟩
  rintro ⟨d, hd, hother⟩
  obtain ⟨added, hbecomes, hkeeps⟩ := h.exists_members p
  obtain ⟨hname, -⟩ := declaredAs_first hrun
  rw [Parting.declared, firstNamed, if_neg List.not_mem_nil, hname,
    firstNamed_map fun d hd => (Starred.declared_of_joined (hjoined d hd)).1] at hbecomes
  rw [row, firstNamed, if_neg List.not_mem_nil] at hkeeps
  cases hbecomes with
  | cons _ hbecomes =>
    cases hkeeps with
    | cons _ hkeeps =>
      rw [List.forall₂_map_right_iff] at hbecomes
      -- a later variable has the stars of the type besides its own
      have hnew : d.name.1 ∉ [] ++ [line.first.name.1] := fun hmem =>
        hother (List.mem_singleton.mp hmem)
      obtain ⟨e, he, -⟩ := @exists_mem_firstNamed _ (·.name.1) _ _ d hd hnew
      obtain ⟨m, -, hm, -, hlevels⟩ :=
        exists_of_mem_forall₂ (List.Forall₂.mp (fun _ _ => And.intro) hbecomes hkeeps).flip he
      have hstarred := (Starred.declared_of_joined (hjoined e (mem_of_mem_firstNamed he).1)).2
      rw [hm.dataType, count_typeOf, count_front hfront, hstarred] at hlevels
      exact (Stars.attached_iff hstars p.blank.2).mpr (Nat.add_eq_right.mp hlevels)

/-- Where the stars of each later declarator stand together, each variable becomes a member with its bare
name and the stars of its own declarator, in whatever structure, exactly when the line is settled. -/
theorem keepsStars_iff_settled (line : StarredLine) (hjoined : ∀ d ∈ line.more, d.stars.Joined) :
    (∀ owner collector, line.KeepsStars owner collector) ↔ line.Settled :=
  ⟨fun h => (h vacant {}).settled hjoined, fun h => h.keepsStars hjoined⟩

theorem keepsStars_of_attached :
    ∃ line : StarredLine, line.text = "char *a, ** b;".toList ∧
      ∀ owner collector, line.KeepsStars owner collector := by
  let nothing : Blanks := ⟨[], .nil⟩
  let a : Starred := ⟨⟨" *".toList, by decide⟩, ⟨"a".toList, rfl⟩, .single, nothing⟩
  let b : Starred := ⟨⟨" ** ".toList, by decide⟩, ⟨"b".toList, rfl⟩, .single, nothing⟩
  let line : StarredLine :=
    { type := ⟨"char".toList, by decide +kernel, by decide +kernel, by decide +kernel⟩
      first := a
      more := [b]
      apart := by decide }
  have hparted : ∃ c ∈ a.stars.1, isBlank c = true := ⟨' ', by decide, rfl⟩
  have hattached : a.stars.Attached := ⟨" ".toList, 1, by decide, by decide⟩
  have hjoined : ∀ d ∈ line.more, d.stars.Joined :=
    List.forall_mem_singleton.mpr ⟨" ".toList, 2, " ".toList, by decide, by decide, by decide⟩
  exact ⟨line, by decide +kernel, (line.keepsStars_iff_settled hjoined).mpr ⟨hparted, fun _ => hattached⟩⟩

/-- The star of `a` goes to `b` as well. -/
theorem not_keepsStars :
    ∃ line : StarredLine, line.text = "char * a, b;".toList ∧ ¬ line.KeepsStars vacant {} := by
  let nothing : Blanks := ⟨[], .nil⟩
  let a : Starred := ⟨⟨" * ".toList, by decide⟩, ⟨"a".toList, rfl⟩, .single, nothing⟩
  let b : Starred := ⟨⟨" ".toList, by decide⟩, ⟨"b".toList, rfl⟩, .single, nothing⟩
  let line : StarredLine :=
    { type := ⟨"char".toList, by decide +kernel, by decide +kernel, by decide +kernel⟩
      first := a
      more := [b]
      apart := by decide }
  refine ⟨line, by decide +kernel, fun h => ?_⟩
  have hother : b.name.1 ≠ a.name.1 := by decide
  have hjoined : ∀ d ∈ line.more, d.stars.Joined :=
    List.forall_mem_singleton.mpr ⟨" ".toList, 0, [], by decide, by decide, by decide⟩
  have hattached : a.stars.Attached := (h.settled hjoined).attached ⟨b, List.mem_cons_self, hother⟩
  have hsplit : a.stars.1 = " *".toList ++ ' ' :: List.replicate 0 '*' := by decide
  have hcount : " *".toList.count '*' = 0 := (Stars.attached_iff hsplit rfl).mp hattached
  exact absurd hcount (by decide)

end StarredLine
end StructTables.Spelled

import StructTables.Proofs.Comment.Following

/-! # Reading the code of a line

A reader that goes over a line piece by piece, and takes no slash into any piece, reads the code of the
line as it reads the line itself: it stops at the first comment, if not earlier. -/

namespace StructTables.Comment
open Text

theorem code_cons_of_begins {c : Char} {r : Text} (h : begins (c :: r) = true) :
    code (c :: r) = [] := by
  rw [code, cut, if_pos h]

theorem code_cons_of_not_begins {c : Char} {r : Text} (h : begins (c :: r) = false) :
    code (c :: r) = c :: code r := by
  rw [code, cut, if_neg (by simp [h])]
  rfl

/-- A character is code unless it is the slash of a comment. -/
theorem code_cons_cases (c : Char) (r : Text) :
    (c = '/' ∧ code (c :: r) = []) ∨ code (c :: r) = c :: code r := by
  cases h : begins (c :: r) with
  | true =>
    refine .inl ⟨Decidable.byContradiction fun hc => ?_, code_cons_of_begins h⟩
    rw [begins_cons_eq_false hc] at h
    cases h
  | false => exact .inr (code_cons_of_not_begins h)

/-- There is no code on a line that is empty or begins with a comment, and on no other. -/
theorem isEmpty_code (t : Text) : (code t).isEmpty = (t.isEmpty || begins t) := by
  cases t with
  | nil => rfl
  | cons c r =>
    cases h : begins (c :: r) with
    | true => simp [code_cons_of_begins h]
    | false => simp [code_cons_of_not_begins h]

theorem code_prefix_self (t : Text) : code t <+: t := by
  induction t with
  | nil => exact List.nil_prefix
  | cons c r ih =>
    rcases code_cons_cases c r with ⟨-, h⟩ | h
    · exact h ▸ List.nil_prefix
    · exact h ▸ List.cons_prefix_cons.mpr ⟨rfl, ih⟩

theorem cut_append_cut (t : Text) : (cut t).1 ++ (cut t).2 = t := by
  induction t with
  | nil => rfl
  | cons c r ih =>
    rw [cut]
    split
    case isTrue => rfl
    case isFalse => exact congrArg (c :: ·) ih

theorem begins_mono {s t : Text} (h : s <+: t) (hs : begins s = true) : begins t = true := by
  have hmono : ∀ mark, startsWith s mark = true → startsWith t mark = true := fun mark hmark =>
    List.isPrefixOf_iff_prefix.mpr ((List.isPrefixOf_iff_prefix.mp hmark).trans h)
  rw [begins, Bool.or_eq_true] at hs ⊢
  exact hs.imp (hmono _) (hmono _)

theorem code_code (t : Text) : code (code t) = code t := by
  induction t with
  | nil => rfl
  | cons c r ih =>
    cases h : begins (c :: r) with
    | true =>
      rw [code_cons_of_begins h]
      rfl
    | false =>
      have hcode : begins (c :: code r) = false := by
        refine Bool.eq_false_iff.mpr fun hbegins => ?_
        rw [begins_mono (List.cons_prefix_cons.mpr ⟨rfl, code_prefix_self r⟩) hbegins] at h
        cases h
      rw [code_cons_of_not_begins h, code_cons_of_not_begins hcode, ih]

theorem begins_code (t : Text) : begins (code t) = false := by
  have hempty := isEmpty_code (code t)
  rw [code_code] at hempty
  cases hcode : code t with
  | nil => rfl
  | cons c r => simpa [hcode] using hempty

/-! ## Texts without a comment -/

theorem cut_eq_self {t : Text} (h : code t = t) : cut t = (t, []) := by
  have happend := cut_append_cut t
  rw [show (cut t).1 = t from h] at happend
  exact Prod.ext h (List.append_right_eq_self.mp happend)

theorem of_code_cons_eq_self {c : Char} {r : Text} (h : code (c :: r) = c :: r) :
    begins (c :: r) = false ∧ code r = r := by
  cases hbegins : begins (c :: r) with
  | true =>
    rw [code_cons_of_begins hbegins] at h
    cases h
  | false => exact ⟨rfl, (List.cons.inj (code_cons_of_not_begins hbegins ▸ h)).2⟩

theorem code_eq_self_of_prefix {s t : Text} (h : s <+: t) (ht : code t = t) : code s = s := by
  induction s generalizing t with
  | nil => rfl
  | cons c more ih =>
    obtain ⟨r, rfl⟩ := h
    obtain ⟨hbegins, hmore⟩ := of_code_cons_eq_self ht
    have hfirst : begins (c :: more) = false := by
      refine Bool.eq_false_iff.mpr fun hb => Bool.false_ne_true ?_
      exact hbegins.symm.trans (begins_mono (List.prefix_append (c :: more) r) hb)
    rw [code_cons_of_not_begins hfirst, ih (List.prefix_append more r) hmore]

/-- No part of a text without a comment has one. -/
theorem code_eq_self_of_infix {s t : Text} (h : s <:+: t) (ht : code t = t) : code s = s := by
  induction t with
  | nil =>
    obtain rfl := List.infix_nil.mp h
    rfl
  | cons c r ih =>
    rcases List.infix_cons_iff.mp h with hprefix | hrest
    · exact code_eq_self_of_prefix hprefix ht
    · exact ih hrest (of_code_cons_eq_self ht).2

/-- Behind a text that does not end in a slash, a comment begins where it would without that text. -/
theorem code_append_of_getLast? {t : Text} (ht : code t = t) (hlast : ∀ c ∈ t.getLast?, c ≠ '/')
    (r : Text) : code (t ++ r) = t ++ code r := by
  induction t with
  | nil => rfl
  | cons c more ih =>
    obtain ⟨hbegins, hmore⟩ := of_code_cons_eq_self ht
    have hrest : code (more ++ r) = more ++ code r := by
      refine ih hmore fun d hd => hlast d ?_
      rw [List.getLast?_cons, Option.mem_def.mp hd]
      rfl
    have hcons : begins (c :: (more ++ r)) = false := by
      cases more with
      | nil => exact begins_cons_eq_false (hlast c rfl) r
      | cons d s => simpa [begins, beginsBlock, beginsLine, startsWith, List.isPrefixOf] using hbegins
    rw [List.cons_append, code_cons_of_not_begins hcons, hrest, List.cons_append]

/-- No slash ahead of the text begins a comment together with it. -/
def Calm (t : Text) : Prop := ∀ c ∈ t.head?, c ≠ '/' ∧ c ≠ '*'

theorem calm_cons {c : Char} (h : c ≠ '/' ∧ c ≠ '*') (r : Text) : Calm (c :: r) := fun _ hd =>
  Option.some.inj hd ▸ h

theorem code_append_of_calm {t r : Text} (ht : code t = t) (hr : Calm r) :
    code (t ++ r) = t ++ code r := by
  induction t with
  | nil => rfl
  | cons c more ih =>
    obtain ⟨hbegins, hmore⟩ := of_code_cons_eq_self ht
    have hcons : begins (c :: (more ++ r)) = false := by
      cases more with
      | nil =>
        cases r with
        | nil => exact hbegins
        | cons d s =>
          obtain ⟨hslash, hstar⟩ := hr d rfl
          simp [begins, beginsBlock, beginsLine, startsWith, List.isPrefixOf, hslash.symm,
            hstar.symm]
      | cons d s => simpa [begins, beginsBlock, beginsLine, startsWith, List.isPrefixOf] using hbegins
    rw [List.cons_append, code_cons_of_not_begins hcons, ih hmore, List.cons_append]

/-! ## Pieces without a slash -/

theorem code_dropWhile {p : Char → Bool} (hp : p '/' = false) (t : Text) :
    code (t.dropWhile p) = (code t).dropWhile p := by
  induction t with
  | nil => rfl
  | cons c r ih =>
    rcases code_cons_cases c r with ⟨rfl, h⟩ | h
    · rw [List.dropWhile_cons_of_neg (by simp [hp]), h]
      rfl
    · cases hc : p c with
      | true => rw [h, List.dropWhile_cons_of_pos hc, List.dropWhile_cons_of_pos hc, ih]
      | false =>
        have hneg : ¬ p c = true := by simp [hc]
        rw [List.dropWhile_cons_of_neg hneg, h, List.dropWhile_cons_of_neg hneg]

theorem code_trimStart (t : Text) : code (trimStart t) = trimStart (code t) := code_dropWhile rfl t

theorem code_dropOne {c : Char} (hc : c ≠ '/') (t : Text) :
    code (dropOne c t) = dropOne c (code t) := by
  cases t with
  | nil => rfl
  | cons d r =>
    rcases code_cons_cases d r with ⟨rfl, h⟩ | h
    · rw [dropOne, if_neg hc.symm, h]
      rfl
    · by_cases hd : d = c
      · rw [h, dropOne, dropOne, if_pos hd, if_pos hd]
      · rw [dropOne, if_neg hd, h, dropOne, if_neg hd]

theorem startsWith_code {keyword : Text} (h : '/' ∉ keyword) (t : Text) :
    startsWith (code t) keyword = startsWith t keyword := by
  rw [Bool.eq_iff_iff, startsWith, startsWith, List.isPrefixOf_iff_prefix,
    List.isPrefixOf_iff_prefix]
  constructor
  · exact fun hcode => hcode.trans (code_prefix_self t)
  · rintro ⟨r, rfl⟩
    exact ⟨code r, (code_append h r).symm⟩

end StructTables.Comment

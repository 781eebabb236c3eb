import Mathlib.Data.List.Basic
import Mathlib.Logic.Relation
import StructTables.Proofs.Declaration.Spacing

/-! # Respacing

Blanks beside a mark or around a declaration mean nothing, and of a run of blanks between words it
only matters that there is one. Tidying picks one text for all that differ in nothing else: the one in
which every blank is a single space between two words. -/

namespace StructTables.Declaration
open Text

/-! ## Texts that differ in their blanks -/

/-- The second text is the first with more blanks where they mean nothing, or with another run of
blanks in place of one. -/
inductive Respaced : Text → Text → Prop
  | ahead {gap : Text} {mark : Char} (before after : Text) (hmark : isMark mark = true)
      (hgap : IsBlanks gap) : Respaced (before ++ mark :: after) (before ++ (gap ++ mark :: after))
  | behind {gap : Text} {mark : Char} (before after : Text) (hmark : isMark mark = true)
      (hgap : IsBlanks gap) : Respaced (before ++ mark :: after) (before ++ mark :: (gap ++ after))
  | between {gap other : Text} (before after : Text) (hgap : gap ≠ [] ∧ IsBlanks gap)
      (hother : other ≠ [] ∧ IsBlanks other) :
      Respaced (before ++ (gap ++ after)) (before ++ (other ++ after))
  | around {lead trail : Text} (t : Text) (hlead : IsBlanks lead) (htrail : IsBlanks trail) :
      Respaced t (lead ++ (t ++ trail))

variable {gap s t : Text} {mark : Char}

theorem isBlank_of_isMark (h : isMark mark = true) : isBlank mark = false := by
  refine Bool.eq_false_iff.mpr fun hblank => ?_
  rw [isMark_of_isBlank hblank] at h
  cases h

/-- What is tidied alike wherever it stands is tidied alike behind the same text. -/
theorem tidyFrom_append_congr (h : ∀ word gap, tidyFrom word gap s = tidyFrom word gap t)
    (before : Text) (word gap : Bool) :
    tidyFrom word gap (before ++ s) = tidyFrom word gap (before ++ t) := by
  induction before generalizing word gap with
  | nil => exact h word gap
  | cons c r ih => simp only [List.cons_append, tidyFrom, ih]

theorem tidyFrom_blanks (hgap : gap ≠ [] ∧ IsBlanks gap) (word passed : Bool) (r : Text) :
    tidyFrom word passed (gap ++ r) = tidyFrom word true r := by
  obtain ⟨hne, hblanks⟩ := hgap
  induction gap generalizing passed with
  | nil => exact absurd rfl hne
  | cons c more ih =>
    obtain ⟨hc, hmore⟩ := List.forall_mem_cons.mp hblanks
    rw [List.cons_append, tidyFrom_blank hc]
    cases more with
    | nil => rfl
    | cons d more => exact ih true (List.cons_ne_nil d more) hmore

/-- Blanks mean nothing where no word stands ahead of them. -/
theorem tidyFrom_blanks_of_no_word (hgap : IsBlanks gap) (passed : Bool) (r : Text) :
    tidyFrom false passed (gap ++ r) = tidyFrom false passed r := by
  cases gap with
  | nil => rfl
  | cons c more =>
    rw [tidyFrom_blanks ⟨List.cons_ne_nil c more, hgap⟩, tidyFrom_gap, tidyFrom_gap]

theorem Respaced.tidy_eq (h : Respaced s t) : tidy s = tidy t := by
  cases h with
  | ahead before after hmark hgap =>
    have hsettles := settles_mark (isBlank_of_isMark hmark) hmark after
    refine tidyFrom_append_congr (fun word gap => ?_) before false false
    rw [hsettles, hsettles.tidyFrom_blanks hgap]
  | @behind gap mark before after hmark hgap =>
    have hblank := isBlank_of_isMark hmark
    refine tidyFrom_append_congr (fun word passed => ?_) before false false
    rw [tidyFrom_mark hblank hmark, tidyFrom_mark hblank hmark, tidyFrom_blanks_of_no_word hgap]
  | between before after hgap hother =>
    refine tidyFrom_append_congr (fun word passed => ?_) before false false
    rw [tidyFrom_blanks hgap, tidyFrom_blanks hother]
  | @around lead trail _ hlead htrail =>
    have hend := tidyFrom_append_congr (s := trail) (t := []) (fun word gap => ?_) s false false
    · rw [List.append_nil] at hend
      rw [tidy, tidy, tidyFrom_blanks_of_no_word hlead, hend]
    · have hnil := settles_nil.tidyFrom_blanks htrail word gap
      rw [List.append_nil] at hnil
      rw [hnil, settles_nil word gap]

theorem tidy_eq_of_eqvGen (h : Relation.EqvGen Respaced s t) : tidy s = tidy t := by
  induction h with
  | rel s t hst => exact hst.tidy_eq
  | refl s => rfl
  | symm s t _ ih => exact ih.symm
  | trans s t u _ _ hst htu => exact hst.trans htu

/-! ## Every text is a respacing of what it is tidied to -/

/-- Whether a word stands at the end of the text. -/
def endsInWord (t : Text) : Bool := t.getLast?.any isSolid

theorem endsInWord_iff : endsInWord t = true ↔ ∃ c ∈ t.getLast?, isSolid c = true := by
  rw [endsInWord, Option.any_eq_true]
  rfl

theorem endsInWord_concat (t : Text) (c : Char) : endsInWord (t ++ [c]) = isSolid c := by
  rw [endsInWord, List.getLast?_concat]
  rfl

/-- The blanks passed since the end of the copy, as one space. -/
def passedGap (gap : Bool) : Text := if gap then [' '] else []

theorem isBlanks_passedGap (gap : Bool) : IsBlanks (passedGap gap) := by
  cases gap <;> decide

theorem tidyFrom_solid {c : Char} (h : isSolid c = true) (word gap : Bool) (r : Text) :
    tidyFrom word gap (c :: r) = passedGap (word && gap) ++ c :: tidyFrom true false r :=
  tidyFrom_word (List.cons_ne_nil c []) (by simpa using h) word gap r

/-- A gap means nothing where no word stands ahead of it. -/
theorem eqvGen_passedGap {copied : Text} (h : endsInWord copied = false) (gap : Bool) (r : Text) :
    Relation.EqvGen Respaced (copied ++ (passedGap gap ++ r)) (copied ++ r) := by
  have hgap := isBlanks_passedGap gap
  rcases List.eq_nil_or_concat copied with rfl | ⟨front, c, rfl⟩
  · have haround := Respaced.around r hgap IsBlanks.nil
    rw [List.append_nil] at haround
    exact .symm _ _ (.rel _ _ haround)
  · rw [List.concat_eq_append, endsInWord_concat] at h
    cases hblank : isBlank c with
    | true =>
      have hc : IsBlanks [c] := by simpa [IsBlanks] using hblank
      have hrun : IsBlanks ([c] ++ passedGap gap) := List.forall_mem_append.mpr ⟨hc, hgap⟩
      have hstep := Respaced.between front r ⟨by simp, hrun⟩ ⟨List.cons_ne_nil c [], hc⟩
      exact .rel _ _ (by simpa using hstep)
    | false =>
      have hmark : isMark c = true := by simpa [isSolid, hblank] using h
      have hstep := Respaced.behind front r hmark hgap
      exact .symm _ _ (.rel _ _ (by simpa using hstep))

/-- At every point of the copying, the copy and what is left of the text are a respacing of the text. -/
theorem eqvGen_tidyFrom (copied : Text) (gap : Bool) (r : Text) :
    Relation.EqvGen Respaced (copied ++ (passedGap gap ++ r))
      (copied ++ tidyFrom (endsInWord copied) gap r) := by
  induction r generalizing gap copied with
  | nil =>
    have haround := Respaced.around copied IsBlanks.nil (isBlanks_passedGap gap)
    rw [tidyFrom, List.append_nil, List.append_nil]
    exact .symm _ _ (.rel _ _ haround)
  | cons c r ih =>
    cases hblank : isBlank c with
    | true =>
      have hrun : IsBlanks (passedGap gap ++ [c]) :=
        List.forall_mem_append.mpr ⟨isBlanks_passedGap gap, by simpa [IsBlanks] using hblank⟩
      have hstep := Respaced.between copied r ⟨by simp, hrun⟩
        ⟨List.cons_ne_nil ' ' [], isBlanks_passedGap true⟩
      rw [List.append_assoc, List.singleton_append] at hstep
      rw [tidyFrom_blank hblank]
      exact .trans _ _ _ (.rel _ _ hstep) (ih copied true)
    | false =>
      have hrest : ∀ kept, Relation.EqvGen Respaced (kept ++ c :: r)
          (kept ++ c :: tidyFrom (isSolid c) false r) := fun kept => by
        have hkept := ih (kept ++ [c]) false
        rwa [endsInWord_concat, List.append_assoc, List.append_assoc] at hkept
      cases hmark : isMark c with
      | true =>
        have hstep := Respaced.ahead copied r hmark (isBlanks_passedGap gap)
        have hcopied := hrest copied
        rw [isSolid, hblank, hmark] at hcopied
        rw [tidyFrom_mark hblank hmark]
        exact .trans _ _ _ (.symm _ _ (.rel _ _ hstep)) hcopied
      | false =>
        have hsolid : isSolid c = true := isSolid_iff.mpr ⟨hblank, hmark⟩
        rw [tidyFrom_solid hsolid]
        rw [hsolid] at hrest
        -- the gap is kept only behind a word
        have hgap : Relation.EqvGen Respaced (copied ++ (passedGap gap ++ c :: r))
            (copied ++ (passedGap (endsInWord copied && gap) ++ c :: r)) := by
          cases hword : endsInWord copied with
          | false => exact eqvGen_passedGap hword gap (c :: r)
          | true => exact .refl _
        have hkept := hrest (copied ++ passedGap (endsInWord copied && gap))
        rw [List.append_assoc, List.append_assoc] at hkept
        exact hgap.trans _ _ _ hkept

/-! ## Tidy texts -/

/-- A text without spare blanks. -/
structure IsTidy (t : Text) : Prop where
  trimmed : trim t = t
  spaces : ∀ c ∈ t, isBlank c = true → c = ' '
  single : ∀ b c, isBlank b = true → isBlank c = true → ¬ [b, c] <:+: t
  apart : ∀ b mark, isBlank b = true → isMark mark = true → ¬ [b, mark] <:+: t ∧ ¬ [mark, b] <:+: t

/-- Each blank of the text is a space, with a word on either side of it. -/
def PartsWords (t : Text) : Prop :=
  ∀ before b after, t = before ++ b :: after → isBlank b = true →
    b = ' ' ∧ (∃ c ∈ before.getLast?, isSolid c = true) ∧ ∃ c ∈ after.head?, isSolid c = true

theorem IsTidy.partsWords (h : IsTidy t) : PartsWords t := by
  rintro before b after rfl hb
  have hsolid : ∀ c, isBlank c = false → isMark c = false → isSolid c = true := fun c hc hm =>
    isSolid_iff.mpr ⟨hc, hm⟩
  refine ⟨h.spaces b (by simp) hb, ?_, ?_⟩
  · rcases List.eq_nil_or_concat before with rfl | ⟨front, c, rfl⟩
    · have hhead := isBlank_head?_trim (c := b) (by rw [h.trimmed]; rfl)
      rw [hb] at hhead
      cases hhead
    · have hinfix : [c, b] <:+: front.concat c ++ b :: after := ⟨front, after, by simp⟩
      exact ⟨c, by simp, hsolid c (Bool.eq_false_iff.mpr fun hc => h.single c b hc hb hinfix)
        (Bool.eq_false_iff.mpr fun hc => (h.apart b c hb hc).2 hinfix)⟩
  · cases after with
    | nil =>
      have hlast := isBlank_getLast?_trim (c := b) (by rw [h.trimmed, List.getLast?_concat]; rfl)
      rw [hb] at hlast
      cases hlast
    | cons c r =>
      have hinfix : [b, c] <:+: before ++ b :: c :: r := ⟨before, r, by simp⟩
      exact ⟨c, rfl, hsolid c (Bool.eq_false_iff.mpr fun hc => h.single b c hb hc hinfix)
        (Bool.eq_false_iff.mpr fun hc => (h.apart b c hb hc).1 hinfix)⟩

theorem PartsWords.isTidy (h : PartsWords t) : IsTidy t where
  trimmed := by
    refine trim_eq_self (fun c hc => ?_) fun c hc => ?_ <;> refine Bool.eq_false_iff.mpr fun hb => ?_
    · obtain ⟨r, rfl⟩ := List.head?_eq_some_iff.mp hc
      obtain ⟨-, ⟨_, hnone, -⟩, -⟩ := h [] c r rfl hb
      cases hnone
    · obtain ⟨front, rfl⟩ := List.getLast?_eq_some_iff.mp hc
      obtain ⟨-, -, _, hnone, -⟩ := h front c [] rfl hb
      cases hnone
  spaces c hc hb := by
    obtain ⟨before, after, rfl⟩ := List.append_of_mem hc
    exact (h before c after rfl hb).1
  single b c hb hc := by
    rintro ⟨before, after, rfl⟩
    obtain ⟨-, -, d, hd, hsolid⟩ := h before b (c :: after) (by simp) hb
    rw [← Option.some.inj hd, isSolid, hc] at hsolid
    cases hsolid
  apart b mark hb hmark := by
    have hsolid : ¬ isSolid mark = true := by simp [isSolid, hmark]
    constructor
    · rintro ⟨before, after, rfl⟩
      obtain ⟨-, -, d, hd, hd'⟩ := h before b (mark :: after) (by simp) hb
      exact hsolid (Option.some.inj hd ▸ hd')
    · rintro ⟨before, after, rfl⟩
      obtain ⟨-, ⟨d, hd, hd'⟩, -⟩ := h (before ++ [mark]) b after (by simp) hb
      rw [List.getLast?_concat] at hd
      exact hsolid (Option.some.inj hd ▸ hd')

theorem PartsWords.append (h : PartsWords t)
    (hs : ∀ before b after, s = before ++ b :: after → isBlank b = true →
      b = ' ' ∧ (∃ c ∈ (t ++ before).getLast?, isSolid c = true) ∧
        ∃ c ∈ after.head?, isSolid c = true) : PartsWords (t ++ s) := by
  intro before b after heq hb
  rcases List.append_eq_append_iff.mp heq with ⟨mid, rfl, hmid⟩ | ⟨mid, ht, hmid⟩
  · exact hs mid b after hmid hb
  · cases mid with
    | nil =>
      obtain rfl : t = before := by simpa using ht
      have hfirst := hs [] b after hmid.symm hb
      rwa [List.append_nil] at hfirst
    | cons c more =>
      obtain ⟨rfl, rfl⟩ := List.cons.inj hmid
      obtain ⟨hspace, hahead, d, hd, hsolid⟩ := h before b more ht hb
      exact ⟨hspace, hahead, d, List.mem_head?_append_of_mem_head? hd, hsolid⟩

theorem PartsWords.concat (h : PartsWords t) {c : Char} (hc : isBlank c = false) :
    PartsWords (t ++ [c]) := by
  refine h.append fun before b after heq hb => ?_
  obtain rfl : b = c := by
    have hmem : b ∈ [c] := heq ▸ List.mem_append_right before List.mem_cons_self
    exact List.mem_singleton.mp hmem
  rw [hb] at hc
  cases hc

theorem PartsWords.concat_space (h : PartsWords t) (hlast : ∃ d ∈ t.getLast?, isSolid d = true)
    {c : Char} (hc : isSolid c = true) : PartsWords (t ++ [' ', c]) := by
  refine h.append fun before b after heq hb => ?_
  rcases before with _ | ⟨_, before⟩
  · obtain ⟨rfl, rfl⟩ := List.cons.inj heq
    rw [List.append_nil]
    exact ⟨rfl, hlast, c, rfl, hc⟩
  · obtain rfl : b = c := by
      have hmem : b ∈ [c] :=
        (List.cons.inj heq).2 ▸ List.mem_append_right before List.mem_cons_self
      exact List.mem_singleton.mp hmem
    rw [isSolid, hb] at hc
    cases hc

/-- The copy stays tidy, whatever is copied behind it. -/
theorem partsWords_tidyFrom {copied : Text} (h : PartsWords copied) (gap : Bool) (r : Text) :
    PartsWords (copied ++ tidyFrom (endsInWord copied) gap r) := by
  induction r generalizing copied gap with
  | nil => rwa [tidyFrom, List.append_nil]
  | cons c r ih =>
    cases hblank : isBlank c with
    | true =>
      rw [tidyFrom_blank hblank]
      exact ih h true
    | false =>
      have hconcat := ih (h.concat hblank) false
      rw [endsInWord_concat, List.append_assoc, List.singleton_append] at hconcat
      cases hmark : isMark c with
      | true =>
        rw [tidyFrom_mark hblank hmark]
        rwa [isSolid, hblank, hmark] at hconcat
      | false =>
        have hsolid : isSolid c = true := isSolid_iff.mpr ⟨hblank, hmark⟩
        rw [hsolid] at hconcat
        rw [tidyFrom_solid hsolid]
        cases hgap : endsInWord copied && gap with
        | true =>
          have hlast := endsInWord_iff.mp (Bool.and_eq_true_iff.mp hgap).1
          have hspaced := ih (h.concat_space hlast hsolid) false
          rwa [List.append_cons, endsInWord_concat, hsolid, List.append_assoc, List.append_assoc]
            at hspaced
        | false => exact hconcat

theorem partsWords_nil : PartsWords [] := by
  rintro before b after heq
  simp at heq

theorem isTidy_tidy (t : Text) : IsTidy (tidy t) := (partsWords_tidyFrom partsWords_nil false t).isTidy

/-- Nothing is taken from a tidy text. -/
theorem tidyFrom_eq_self (copied : Text) (gap : Bool)
    (h : PartsWords (copied ++ (passedGap gap ++ t))) :
    tidyFrom (endsInWord copied) gap t = passedGap gap ++ t := by
  induction t generalizing copied gap with
  | nil =>
    cases gap with
    | false => rfl
    | true =>
      obtain ⟨-, -, _, hnone, -⟩ := h copied ' ' [] rfl rfl
      cases hnone
  | cons c r ih =>
    -- ahead of a gap there is a word, and so there is behind it
    have hgap : gap = true → endsInWord copied = true ∧ isSolid c = true := by
      rintro rfl
      obtain ⟨-, hahead, d, hd, hsolid⟩ := h copied ' ' (c :: r) rfl rfl
      exact ⟨endsInWord_iff.mpr hahead, Option.some.inj hd ▸ hsolid⟩
    have hnogap : isSolid c = false → gap = false := fun hc => Bool.eq_false_iff.mpr fun htrue => by
      rw [(hgap htrue).2] at hc
      cases hc
    cases hblank : isBlank c with
    | true =>
      obtain rfl := hnogap (by rw [isSolid, hblank]; rfl)
      obtain ⟨rfl, -, -⟩ := h copied c r rfl hblank
      rw [tidyFrom_blank hblank]
      exact ih copied true h
    | false =>
      have hrest := ih (copied ++ (passedGap gap ++ [c])) false (by simpa [passedGap] using h)
      rw [← List.append_assoc, endsInWord_concat] at hrest
      cases hmark : isMark c with
      | true =>
        have hc : isSolid c = false := by rw [isSolid, hblank, hmark]; rfl
        obtain rfl := hnogap hc
        rw [hc] at hrest
        rw [tidyFrom_mark hblank hmark, hrest]
        rfl
      | false =>
        have hc : isSolid c = true := isSolid_iff.mpr ⟨hblank, hmark⟩
        have hword : (endsInWord copied && gap) = gap := by
          cases gap with
          | false => exact Bool.and_false _
          | true => rw [(hgap rfl).1, Bool.true_and]
        rw [hc] at hrest
        rw [tidyFrom_solid hc, hword, hrest]
        rfl

/-- The texts that tidying leaves alone are the tidy ones. -/
theorem tidy_eq_self_iff : tidy t = t ↔ IsTidy t :=
  ⟨fun h => h ▸ isTidy_tidy t, fun h => tidyFrom_eq_self [] false h.partsWords⟩

/-! ## The canonical form -/

theorem eqvGen_tidy (t : Text) : Relation.EqvGen Respaced t (tidy t) := eqvGen_tidyFrom [] false t

/-- Tidying gives a tidy text, which it leaves alone from then on, and it gives two texts the same one
exactly if they differ in nothing but blanks that mean nothing and the length of runs of blanks. -/
theorem tidy_canonical (t : Text) :
    IsTidy (tidy t) ∧ (tidy t = t ↔ IsTidy t) ∧ tidy (tidy t) = tidy t ∧
      ∀ s, tidy s = tidy t ↔ Relation.EqvGen Respaced s t := by
  refine ⟨isTidy_tidy t, tidy_eq_self_iff, tidy_eq_self_iff.mpr (isTidy_tidy t), fun s => ?_⟩
  refine ⟨fun h => ?_, tidy_eq_of_eqvGen⟩
  have hback := (eqvGen_tidy t).symm
  rw [← h] at hback
  exact (eqvGen_tidy s).trans _ _ _ hback

example : tidy "uint8  grid [ ROWS ]\t[4] ".toList = "uint8 grid[ROWS][4]".toList := by decide

end StructTables.Declaration

import StructTables.Outline.Region

/-! # What one line does to the outline

The regions from a place on, by what the first line is. A line of a body is taken here with the
state of block comments at its end, so that each of these equations is about one case only. -/

namespace StructTables.Outline
open Text

variable {line : Text} {form : Form} {name : Text}

/-! ## Outside of structures -/

theorem regionsFrom_opening (h : opening? line = some (form, name)) (number : Nat)
    (below : List Text) :
    regionsFrom number .outside (line :: below) =
      regionsFrom (number + 1) (.inside ⟨form, name, number⟩ [] (Comment.openAfter false line))
        below := by
  simp [regionsFrom, h, Place.behind]

theorem regionsFrom_outside (h : opening? line = none) (hb : Comment.beginsBlock line = false)
    (number : Nat) (below : List Text) :
    regionsFrom number .outside (line :: below) =
      .outside line :: regionsFrom (number + 1) .outside below := by
  simp [regionsFrom, h, hb]

/-! ## In a body -/

variable (opening : Opening) (body : List Text)

theorem regionsFrom_closing (h : closes line = true) (number : Nat) (below : List Text) :
    regionsFrom number (.inside opening body false) (line :: below) =
      .closed opening body line :: regionsFrom (number + 1) .outside below := by
  simp [regionsFrom, h]

theorem regionsFrom_reopening {below : List Text} (hc : closes line = false)
    (h : reopening? line below = some (form, name)) (number : Nat) :
    regionsFrom number (.inside opening body false) (line :: below) =
      .abandoned opening ::
        regionsFrom (number + 1) (.inside ⟨form, name, number⟩ [] (Comment.openAfter false line))
          below := by
  simp [regionsFrom, hc, h, Place.behind]

theorem regionsFrom_body {below : List Text} (hc : closes line = false)
    (h : reopening? line below = none) (number : Nat) :
    regionsFrom number (.inside opening body false) (line :: below) =
      regionsFrom (number + 1) (.inside opening (body ++ [line]) (Comment.openAfter false line))
        below := by
  simp [regionsFrom, hc, h]

end StructTables.Outline

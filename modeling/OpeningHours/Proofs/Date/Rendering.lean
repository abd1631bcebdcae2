import OpeningHours.Config

/-! Which formats render.

An item of a format renders for every date or for none: only the fields of the time of day and of
a time zone have no text, and that on no date (`renderItems?_eq_none_iff`). So a format that
renders for one date renders for all, and the check of a format, which tries out the first date
alone, speaks for every date (`checkDateFormat_eq_ok_iff`). -/
namespace OpeningHours

namespace DateFormat

theorem mapM_eq_none_iff {α β : Type} {f : α → Option β} {l : List α} :
    l.mapM f = none ↔ ∃ a ∈ l, f a = none := by
  induction l with
  | nil => simp
  | cons a rest ih =>
    cases ha : f a with
    | none => simp [ha]
    | some b => cases hrest : rest.mapM f <;> simpa [ha, hrest] using ih

theorem Item.render?_eq_none_iff {item : Item} {d : Date} :
    item.render? d = none ↔ item = .clock := by
  cases item <;> simp [render?]

theorem renderItems?_eq_none_iff {items : List Item} {d : Date} :
    renderItems? d items = none ↔ .clock ∈ items := by
  rw [renderItems?, Option.map_eq_none_iff, mapM_eq_none_iff]
  simp only [Item.render?_eq_none_iff, exists_eq_right]

end DateFormat

open DateFormat

variable {format : String}

/-- A format renders for a date unless it is malformed or has a field that no date has. -/
theorem Date.format?_eq_none_iff {d : Date} : d.format? format = none ↔
    ∀ items, items? format.toList = some items → .clock ∈ items := by
  rw [format?, Option.bind_eq_none_iff]
  simp only [Option.map_eq_none_iff, renderItems?_eq_none_iff]

theorem Date.format?_eq_none_congr (d e : Date) :
    d.format? format = none ↔ e.format? format = none :=
  format?_eq_none_iff.trans format?_eq_none_iff.symm

namespace Config

/-- A well-formed format stands or falls with the first date. -/
theorem checkDateFormat_of_items (hblank : Text.trim format.toList ≠ [])
    (hitems : items? format.toList ≠ none) : checkDateFormat format =
      if Date.first.format? format = none then .error (.unrenderableFormat format)
      else .ok () := by
  rw [checkDateFormat, if_neg hblank, if_neg hitems]

/-- A format is accepted if it is not blank and the first date renders in it. -/
theorem checkDateFormat_eq_ok {text : String} (hblank : Text.trim format.toList ≠ [])
    (hfirst : Date.first.format? format = some text) : checkDateFormat format = .ok () := by
  have hitems : items? format.toList ≠ none := by
    intro hnone
    rw [Date.format?, hnone] at hfirst
    cases hfirst
  have hrendered : Date.first.format? format ≠ none := hfirst ▸ Option.some_ne_none text
  rw [checkDateFormat_of_items hblank hitems, if_neg hrendered]

/-- What the check accepts is not blank and renders for every date. -/
theorem checkDateFormat_eq_ok_iff : checkDateFormat format = .ok () ↔
    Text.trim format.toList ≠ [] ∧ ∀ d : Date, d.format? format ≠ none := by
  refine ⟨fun h => ?_, fun h => ?_⟩
  · have hblank : Text.trim format.toList ≠ [] := by
      intro hnone
      rw [checkDateFormat, if_pos hnone] at h
      cases h
    have hitems : items? format.toList ≠ none := by
      intro hnone
      rw [checkDateFormat, if_neg hblank, if_pos hnone] at h
      cases h
    have hfirst : Date.first.format? format ≠ none := by
      intro hnone
      rw [checkDateFormat_of_items hblank hitems, if_pos hnone] at h
      cases h
    exact ⟨hblank, fun d hd => hfirst ((d.format?_eq_none_congr Date.first).mp hd)⟩
  · obtain ⟨hblank, hrendered⟩ := h
    obtain ⟨text, hfirst⟩ := Option.ne_none_iff_exists'.mp (hrendered Date.first)
    exact checkDateFormat_eq_ok hblank hfirst

end Config

end OpeningHours

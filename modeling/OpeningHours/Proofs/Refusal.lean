import Mathlib.Data.List.Forall2

/-! Steps that may be refused.

A chain of steps has a result when every step has one (`bind_eq_ok_iff`), and a list is
read when each of its members is, one after the other (`mapM_eq_ok_iff`). A list that is
not read has the fault of the first member that is not (`mapM_eq_error_iff`). -/
namespace OpeningHours
variable {ε φ α β : Type}

theorem bind_eq_ok_iff {first : Except ε α} {next : α → Except ε β} {b : β} :
    first >>= next = .ok b ↔ ∃ a, first = .ok a ∧ next a = .ok b := by
  cases first with
  | error fault => exact ⟨nofun, nofun⟩
  | ok a => exact ⟨fun h => ⟨a, rfl, h⟩, fun ⟨_, ha, h⟩ => Except.ok.inj ha ▸ h⟩

theorem bind_eq_error_iff {first : Except ε α} {next : α → Except ε β} {fault : ε} :
    first >>= next = .error fault ↔
      first = .error fault ∨ ∃ a, first = .ok a ∧ next a = .error fault := by
  cases first with
  | error e =>
    have hbind : (Except.error e >>= next) = .error e := rfl
    simp [hbind]
  | ok a =>
    have hbind : (Except.ok a >>= next) = next a := rfl
    simp [hbind]

theorem map_eq_ok_iff {f : α → β} {x : Except ε α} {b : β} :
    x.map f = .ok b ↔ ∃ a, x = .ok a ∧ f a = b := by
  cases x <;> simp [Except.map]

theorem map_eq_error_iff {f : α → β} {x : Except ε α} {fault : ε} :
    x.map f = .error fault ↔ x = .error fault := by
  cases x <;> simp [Except.map]

theorem mapError_eq_ok_iff {f : ε → φ} {x : Except ε α} {a : α} :
    x.mapError f = .ok a ↔ x = .ok a := by
  cases x <;> simp [Except.mapError]

theorem mapError_eq_error_iff {f : ε → φ} {x : Except ε α} {fault : φ} :
    x.mapError f = .error fault ↔ ∃ e, x = .error e ∧ f e = fault := by
  cases x <;> simp [Except.mapError]

theorem mapM_eq_ok_iff {f : α → Except ε β} {l : List α} {values : List β} :
    l.mapM f = .ok values ↔ List.Forall₂ (fun a b => f a = .ok b) l values := by
  induction l generalizing values with
  | nil => cases values <;> simp [pure, Except.pure]
  | cons a rest ih =>
    rw [List.mapM_cons, bind_eq_ok_iff, List.forall₂_cons_left_iff]
    constructor
    · rintro ⟨b, hb, hrest⟩
      obtain ⟨bs, hbs, hvalues⟩ := bind_eq_ok_iff.mp hrest
      exact ⟨b, bs, hb, ih.mp hbs, (Except.ok.inj hvalues).symm⟩
    · rintro ⟨b, bs, hb, hbs, rfl⟩
      exact ⟨b, hb, bind_eq_ok_iff.mpr ⟨bs, ih.mpr hbs, rfl⟩⟩

/-- The members before the first one that is not read are read. -/
theorem mapM_eq_error_iff {f : α → Except ε β} {l : List α} {fault : ε} :
    l.mapM f = .error fault ↔ ∃ before a after, l = before ++ a :: after ∧
      (∀ x ∈ before, ∃ b, f x = .ok b) ∧ f a = .error fault := by
  induction l with
  | nil => simp [pure, Except.pure]
  | cons a rest ih =>
    rw [List.mapM_cons, bind_eq_error_iff]
    constructor
    · intro h
      rcases h with ha | ⟨b, hb, hrest⟩
      · exact ⟨[], a, rest, rfl, by simp, ha⟩
      · rcases bind_eq_error_iff.mp hrest with hmap | ⟨_, _, hpure⟩
        · obtain ⟨before, x, after, rfl, hbefore, hx⟩ := ih.mp hmap
          exact ⟨a :: before, x, after, rfl, List.forall_mem_cons.mpr ⟨⟨b, hb⟩, hbefore⟩, hx⟩
        · cases hpure
    · intro h
      obtain ⟨before, x, after, hl, hbefore, hx⟩ := h
      cases before with
      | nil =>
        cases hl
        exact .inl hx
      | cons y before =>
        cases hl
        obtain ⟨⟨b, hb⟩, hbefore⟩ := List.forall_mem_cons.mp hbefore
        have hmap := ih.mpr ⟨before, x, after, rfl, hbefore, hx⟩
        exact .inr ⟨b, hb, bind_eq_error_iff.mpr (.inl hmap)⟩

/-- Every value comes from a member. -/
theorem exists_of_mem_mapM {f : α → Except ε β} {l : List α} {values : List β}
    (h : l.mapM f = .ok values) {b : β} (hb : b ∈ values) : ∃ a ∈ l, f a = .ok b := by
  rw [mapM_eq_ok_iff] at h
  induction h with
  | nil => cases hb
  | cons ha _ ih =>
    rcases List.mem_cons.mp hb with rfl | hb
    · exact ⟨_, List.mem_cons_self, ha⟩
    · obtain ⟨a, hmem, hread⟩ := ih hb
      exact ⟨a, List.mem_cons_of_mem _ hmem, hread⟩

/-- Every member has a value. -/
theorem exists_mem_of_mapM {f : α → Except ε β} {l : List α} {values : List β}
    (h : l.mapM f = .ok values) {a : α} (ha : a ∈ l) : ∃ b ∈ values, f a = .ok b := by
  rw [mapM_eq_ok_iff] at h
  induction h with
  | nil => cases ha
  | cons hfirst _ ih =>
    rcases List.mem_cons.mp ha with rfl | ha
    · exact ⟨_, List.mem_cons_self, hfirst⟩
    · obtain ⟨b, hmem, hread⟩ := ih ha
      exact ⟨b, List.mem_cons_of_mem _ hmem, hread⟩

/-- A list is read if each of its members is. -/
theorem exists_mapM_eq_ok_iff {f : α → Except ε β} {l : List α} :
    (∃ values, l.mapM f = .ok values) ↔ ∀ a ∈ l, ∃ b, f a = .ok b := by
  constructor
  · rintro ⟨values, h⟩ a ha
    obtain ⟨b, _, hb⟩ := exists_mem_of_mapM h ha
    exact ⟨b, hb⟩
  · intro h
    cases hread : l.mapM f with
    | ok values => exact ⟨values, rfl⟩
    | error fault =>
      obtain ⟨before, a, after, rfl, _, ha⟩ := mapM_eq_error_iff.mp hread
      obtain ⟨b, hb⟩ := h a (by simp)
      rw [ha] at hb
      cases hb

/-- Values that are written one by one and read back one by one. -/
theorem mapM_map_eq_ok {f : β → Except ε α} {g : α → β} {l : List α}
    (h : ∀ a ∈ l, f (g a) = .ok a) : (l.map g).mapM f = .ok l := by
  rw [mapM_eq_ok_iff, List.forall₂_map_left_iff, List.forall₂_same]
  exact h

end OpeningHours

/-! Ordered entries: a list of keyed values in the order in which the keys first
came. Putting a value under a key that is there replaces the value and keeps its
place, so keys never repeat (`nodup_keys_put`). -/
namespace OpeningHours

abbrev Entries (κ ν : Type) := List (κ × ν)

namespace Entries
variable {κ ν : Type} [DecidableEq κ]

def keys (l : Entries κ ν) : List κ := l.map Prod.fst

def get? (key : κ) : Entries κ ν → Option ν
  | [] => none
  | e :: rest => if e.1 = key then some e.2 else get? key rest

/-- The value under `key` is replaced in place, or added at the end. -/
def put (key : κ) (value : ν) : Entries κ ν → Entries κ ν
  | [] => [(key, value)]
  | e :: rest => if e.1 = key then (key, value) :: rest else e :: put key value rest

/-- All entries of `new` put into `l`, one after the other. -/
def putAll (l new : Entries κ ν) : Entries κ ν := new.foldl (fun acc e => put e.1 e.2 acc) l

omit [DecidableEq κ] in
@[simp] theorem keys_cons (e : κ × ν) (l : Entries κ ν) : keys (e :: l) = e.1 :: keys l := rfl

theorem keys_put (key : κ) (value : ν) (l : Entries κ ν) :
    keys (put key value l) = if key ∈ keys l then keys l else keys l ++ [key] := by
  induction l with
  | nil => rfl
  | cons e rest ih =>
    by_cases h : e.1 = key
    · simp [put, h]
    · have h' : key ≠ e.1 := Ne.symm h
      by_cases hm : key ∈ keys rest <;> simp [put, h, h', hm, ih]

theorem nodup_keys_put {key : κ} {value : ν} {l : Entries κ ν} (h : (keys l).Nodup) :
    (keys (put key value l)).Nodup := by
  rw [keys_put]
  split
  · exact h
  · rename_i hk
    exact List.nodup_append.mpr ⟨h, by simp, by
      intro a ha b hb hab
      rw [List.mem_singleton.mp hb] at hab
      exact hk (hab ▸ ha)⟩

theorem get?_put (key k : κ) (value : ν) (l : Entries κ ν) :
    get? k (put key value l) = if key = k then some value else get? k l := by
  induction l with
  | nil => rfl
  | cons e rest ih =>
    by_cases h : e.1 = key
    · by_cases hk : key = k <;> simp [put, get?, h, hk]
    · rw [put, if_neg h, get?, get?, ih]
      by_cases hk : e.1 = k
      · rw [if_pos hk, if_pos hk, if_neg fun hh => h (hk.trans hh.symm)]
      · rw [if_neg hk, if_neg hk]

theorem mem_of_get? {key : κ} {value : ν} {l : Entries κ ν} (h : get? key l = some value) :
    (key, value) ∈ l := by
  induction l with
  | nil => cases h
  | cons e rest ih =>
    rw [get?] at h
    split at h
    · rename_i hkey
      cases h
      cases hkey
      exact List.mem_cons_self
    · exact List.mem_cons_of_mem e (ih h)

theorem not_mem_of_get? {key : κ} {l : Entries κ ν} (h : get? key l = none) (value : ν) :
    (key, value) ∉ l := by
  induction l with
  | nil => nofun
  | cons e rest ih =>
    rw [get?] at h
    split at h
    · cases h
    · rename_i hkey
      intro hmem
      cases hmem with
      | head => exact hkey rfl
      | tail _ hmem => exact ih h hmem

theorem get?_eq_none_iff {key : κ} {l : Entries κ ν} : get? key l = none ↔ key ∉ keys l := by
  induction l with
  | nil => simp [get?, keys]
  | cons e rest ih =>
    rw [keys_cons, List.mem_cons, not_or, get?]
    split
    · rename_i hkey
      simp [hkey]
    · rename_i hkey
      exact ih.trans ⟨fun h => ⟨Ne.symm hkey, h⟩, And.right⟩

theorem length_put_of_mem {key : κ} {value : ν} {l : Entries κ ν} (h : key ∈ keys l) :
    (put key value l).length = l.length := by
  have hkeys := congrArg List.length (keys_put key value l)
  rwa [if_pos h, keys, keys, List.length_map, List.length_map] at hkeys

theorem put_of_not_mem {key : κ} {value : ν} {l : Entries κ ν} (h : key ∉ keys l) :
    put key value l = l ++ [(key, value)] := by
  induction l with
  | nil => rfl
  | cons e rest ih =>
    rw [keys_cons, List.mem_cons, not_or] at h
    obtain ⟨hne, hrest⟩ := h
    rw [put, if_neg (Ne.symm hne), ih hrest, List.cons_append]

/-- Entries with keys of their own are added as they are. -/
theorem putAll_eq_append {l new : Entries κ ν} (h : (keys (l ++ new)).Nodup) :
    putAll l new = l ++ new := by
  induction new generalizing l with
  | nil => exact (List.append_nil l).symm
  | cons e new ih =>
    have hkeys : (keys l ++ e.1 :: keys new).Nodup := by simpa [keys] using h
    have hnew : e.1 ∉ keys l := fun hmem =>
      (List.nodup_append.mp hkeys).2.2 _ hmem _ List.mem_cons_self rfl
    show putAll (put e.1 e.2 l) new = _
    rw [put_of_not_mem hnew, ih (by simpa [keys] using h), List.append_assoc,
      List.singleton_append]

end Entries

end OpeningHours

import Mathlib.Data.List.Induction
import OpeningHours.DayTable
import OpeningHours.Proofs.Date.Order

/-! What a table of days holds after the values of days were pushed.

`HoldsLatest` is what the pushes keep up, if the days ascend: the keys stand in the
order in which they first came, and under each key is the value of the latest day
that has it. A function of the values can be taken before the pushes or after them
(`mapValues_ofList`). A list can be pushed in two parts, each into a table of its own
(`ofList_append`). -/
namespace OpeningHours

namespace Entries
variable {κ ν μ : Type} [DecidableEq κ]

@[simp] theorem put_put_same (key : κ) (old value : ν) (l : Entries κ ν) :
    put key value (put key old l) = put key value l := by
  induction l with
  | nil => simp [put]
  | cons e rest ih => by_cases h : e.1 = key <;> simp [put, h, ih]

/-- A key that has its place does not wait for another key. -/
theorem put_put_comm {key other : κ} (hne : key ≠ other) (value new : ν) {l : Entries κ ν}
    (h : key ∈ keys l) : put key value (put other new l) = put other new (put key value l) := by
  induction l with
  | nil => cases h
  | cons e rest ih =>
    by_cases hkey : e.1 = key
    · simp [put, hkey, hne]
    · have hrest : key ∈ keys rest := by simpa [Ne.symm hkey] using h
      by_cases hother : e.1 = other <;> simp [put, hkey, hother, Ne.symm hne, ih hrest]

/-- A function of the values does not touch the keys. -/
def mapValues (f : ν → μ) (l : Entries κ ν) : Entries κ μ := l.map fun e => (e.1, f e.2)

omit [DecidableEq κ] in
theorem keys_mapValues (f : ν → μ) (l : Entries κ ν) : keys (mapValues f l) = keys l := by
  simp [keys, mapValues]

theorem mapValues_put (f : ν → μ) (key : κ) (value : ν) (l : Entries κ ν) :
    mapValues f (put key value l) = put key (f value) (mapValues f l) := by
  induction l with
  | nil => rfl
  | cons e rest ih =>
    by_cases h : e.1 = key
    · simp [put, mapValues, h]
    · simpa [put, mapValues, h] using ih

end Entries

namespace DayTable
variable {α β : Type}

theorem keys_push (m : DayTable α) (key : String) (value : α) :
    (m.push key value).keys = if key ∈ m.keys then m.keys else m.keys ++ [key] :=
  Entries.keys_put key value m.entries

/-! ### The latest day of each key -/

/-- The table has the keys of the days, in the order in which they first come, and holds under
each of them the value of the latest day with that key. -/
structure HoldsLatest (m : DayTable α) (days : List Date) (key : Date → String)
    (value : Date → α) : Prop where
  keys : m.keys = (days.map key).eraseDups
  latest : ∀ k ∈ m.keys, ∃ d ∈ days, key d = k ∧ (∀ e ∈ days, d < e → key e ≠ k) ∧
    m.get? k = some (value d)

theorem eraseDups_append_singleton (l : List String) (k : String) :
    (l ++ [k]).eraseDups = if k ∈ l.eraseDups then l.eraseDups else l.eraseDups ++ [k] := by
  rw [List.eraseDups_append]
  by_cases h : k ∈ l
  · simp [h, List.removeAll]
  · simp [h, List.removeAll, List.eraseDups_cons]

variable {m : DayTable α} {days : List Date} {key : Date → String} {value : Date → α}

theorem holdsLatest_empty (key : Date → String) (value : Date → α) :
    (empty : DayTable α).HoldsLatest [] key value where
  keys := rfl
  latest := by
    intro k hk
    cases hk

/-- A day after all the others takes its key over; the other keys keep their days. -/
theorem HoldsLatest.push (h : m.HoldsLatest days key value) {d : Date}
    (hd : ∀ e ∈ days, e < d) :
    (m.push (key d) (value d)).HoldsLatest (days ++ [d]) key value where
  keys := by
    rw [keys_push, h.keys, List.map_append, List.map_singleton, eraseDups_append_singleton]
  latest := by
    intro k hk
    by_cases hkey : key d = k
    · refine ⟨d, by simp, hkey, fun e he hlt => ?_, by rw [get?_push, if_pos hkey]⟩
      rcases List.mem_append.mp he with he | he
      · exact absurd hlt (Date.lt_asymm (hd e he))
      · rw [List.mem_singleton.mp he] at hlt
        exact absurd hlt d.lt_irrefl
    · have hold : k ∈ m.keys := by
        rw [keys_push] at hk
        split at hk
        · exact hk
        · simpa [Ne.symm hkey] using hk
      obtain ⟨d', hd', hk', hlater, hget⟩ := h.latest k hold
      refine ⟨d', List.mem_append_left _ hd', hk', fun e he hlt => ?_, ?_⟩
      · rcases List.mem_append.mp he with he | he
        · exact hlater e he hlt
        · rwa [List.mem_singleton.mp he]
      · rw [get?_push, if_neg hkey, hget]

theorem ofList_append_singleton (l : List (String × α)) (e : String × α) :
    ofList (l ++ [e]) = (ofList l).push e.1 e.2 := by
  simp [ofList]

/-- **Values of ascending days**, pushed in turn. -/
theorem holdsLatest_ofList (hdays : days.Pairwise (· < ·)) (key : Date → String)
    (value : Date → α) :
    (ofList (days.map fun d => (key d, value d))).HoldsLatest days key value := by
  induction days using List.reverseRecOn with
  | nil => exact holdsLatest_empty key value
  | append_singleton days d ih =>
    obtain ⟨hfront, _, hlater⟩ := List.pairwise_append.mp hdays
    rw [List.map_append, List.map_singleton, ofList_append_singleton]
    exact (ih hfront).push fun e he => hlater e he d (by simp)

/-- A day after which its key does not come again has its value in the table. -/
theorem HoldsLatest.get?_eq (h : m.HoldsLatest days key value) {d : Date} (hd : d ∈ days)
    (hlast : ∀ e ∈ days, d < e → key e ≠ key d) : m.get? (key d) = some (value d) := by
  have hmem : key d ∈ m.keys := by
    rw [h.keys, List.mem_eraseDups]
    exact List.mem_map_of_mem hd
  obtain ⟨e, he, hkey, hlater, hget⟩ := h.latest (key d) hmem
  rcases Date.lt_or_eq_or_gt d e with hlt | rfl | hgt
  · exact absurd hkey (hlast e he hlt)
  · exact hget
  · exact absurd rfl (hlater d hd hgt)

/-! ### Functions of the values -/

def mapValues (f : α → β) (m : DayTable α) : DayTable β :=
  ⟨Entries.mapValues f m.entries, by rw [Entries.keys_mapValues]; exact m.nodup⟩

theorem mapValues_push (f : α → β) (m : DayTable α) (key : String) (value : α) :
    (m.push key value).mapValues f = (m.mapValues f).push key (f value) :=
  ext (Entries.mapValues_put f key value m.entries)

theorem mapValues_ofList (f : α → β) (l : List (String × α)) :
    (ofList l).mapValues f = ofList (l.map fun e => (e.1, f e.2)) := by
  induction l using List.reverseRecOn with
  | nil => rfl
  | append_singleton l e ih =>
    rw [ofList_append_singleton, mapValues_push, ih, List.map_append, List.map_singleton,
      ofList_append_singleton]

theorem entries_ofList_eq_putAll (l : List (String × α)) :
    (ofList l).entries = Entries.putAll [] l :=
  (List.foldl_hom entries fun _ _ => rfl).symm

/-- Entries with keys of their own stay as they are pushed. -/
theorem entries_ofList {l : List (String × α)} (h : (Entries.keys l).Nodup) :
    (ofList l).entries = l := by
  rw [entries_ofList_eq_putAll, Entries.putAll_eq_append (by simpa using h), List.nil_append]

/-- Pushing the entries of a table in turn makes the table again. -/
theorem ofList_entries (m : DayTable α) : ofList m.entries = m := ext (entries_ofList m.nodup)

/-! ### A table pushed after another -/

/-- The entries of one table pushed after those of another. -/
def pushAll (m n : DayTable α) : DayTable α := n.entries.foldl (fun m e => m.push e.1 e.2) m

/-- A value pushed at the end may take its place at once, if its key is there already and does
not come again. -/
theorem push_foldl_push {key : String} {m : DayTable α} (hm : key ∈ m.keys) (value : α)
    {l : Entries String α} (hl : key ∉ Entries.keys l) :
    (l.foldl (fun m e => m.push e.1 e.2) m).push key value =
      l.foldl (fun m e => m.push e.1 e.2) (m.push key value) := by
  induction l generalizing m with
  | nil => rfl
  | cons e rest ih =>
    rw [Entries.keys_cons, List.mem_cons, not_or] at hl
    obtain ⟨hne, hrest⟩ := hl
    have hmem : key ∈ (m.push e.1 e.2).keys := by
      rw [keys_push]
      split
      · exact hm
      · exact List.mem_append_left _ hm
    have hcomm : (m.push e.1 e.2).push key value = (m.push key value).push e.1 e.2 :=
      ext (Entries.put_put_comm hne value e.2 hm)
    rw [List.foldl_cons, ih hmem hrest, hcomm, List.foldl_cons]

/-- It makes no difference whether a value is pushed after the entries of a table or is one of
them, in the place that its key has there. -/
theorem pushAll_push (m n : DayTable α) (key : String) (value : α) :
    m.pushAll (n.push key value) = (m.pushAll n).push key value := by
  obtain ⟨l, hnodup⟩ := n
  show (Entries.put key value l).foldl (fun m e => m.push e.1 e.2) m =
    (l.foldl (fun m e => m.push e.1 e.2) m).push key value
  induction l generalizing m with
  | nil => rfl
  | cons e rest ih =>
    obtain ⟨hnew, hrest⟩ := List.nodup_cons.mp hnodup
    by_cases h : e.1 = key
    · subst h
      have hmem : e.1 ∈ (m.push e.1 e.2).keys := by
        rw [keys_push]
        split <;> simp_all
      have hsame : (m.push e.1 e.2).push e.1 value = m.push e.1 value :=
        ext (Entries.put_put_same e.1 e.2 value m.entries)
      rw [Entries.put, if_pos rfl, List.foldl_cons, List.foldl_cons,
        push_foldl_push hmem value hnew, hsame]
    · rw [Entries.put, if_neg h, List.foldl_cons, List.foldl_cons]
      exact ih (m.push e.1 e.2) hrest

/-- **A list pushed in two parts**, each into a table of its own, gives the table of the list. -/
theorem ofList_append (a b : List (String × α)) :
    ofList (a ++ b) = (ofList a).pushAll (ofList b) := by
  induction b using List.reverseRecOn with
  | nil => simp [ofList, pushAll, empty]
  | append_singleton b e ih =>
    rw [← List.append_assoc, ofList_append_singleton, ih, ofList_append_singleton, pushAll_push]

end DayTable

end OpeningHours

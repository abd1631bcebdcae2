import OpeningHours.Proofs.Eviction
import OpeningHours.Shelf

/-! A memory holds what stands on a shelf.

The queue of the memory lists the keys of the shelf in their order, and its table finds
under each key what the shelf has there (`Memory.Lists`). Taking a key from the front of the
queue and from the table is taking the first entry off the shelf, so an eviction leaves
what there is room for (`Lists.evicts`). One request is answered alike and leaves the two
alike (`Holds.observe`); so are all requests in turn (`Holds.observeAll`). -/
namespace OpeningHours

namespace Shelf
variable {κ ν : Type}

theorem fit_eq_self {capacity : Nat} {l : Entries κ ν} (h : l.length ≤ capacity) :
    fit capacity l = l := by
  rw [fit, Nat.sub_eq_zero_of_le h, List.drop_zero]

/-- Without room for all entries the first one falls off. -/
theorem fit_cons {capacity : Nat} {e : κ × ν} {l : Entries κ ν}
    (h : capacity < (e :: l).length) : fit capacity (e :: l) = fit capacity l := by
  have hle : capacity ≤ l.length := Nat.le_of_lt_succ h
  rw [fit, List.length_cons, Nat.succ_sub hle, List.drop_succ_cons, fit]

theorem length_fit_le (capacity : Nat) (l : Entries κ ν) : (fit capacity l).length ≤ capacity := by
  rw [fit, List.length_drop]
  omega

/-- With room for its entries, a shelf puts and lets fall off what is too much. -/
theorem put_eq [DecidableEq κ] {s : Shelf κ ν} (hroom : s.capacity ≠ 0)
    (hfits : s.entries.length ≤ s.capacity) (key : κ) (value : ν) :
    s.put key value = {s with entries := fit s.capacity (Entries.put key value s.entries)} := by
  rw [put, if_neg hroom]
  by_cases hkey : key ∈ Entries.keys s.entries
  · have hlength : (Entries.put key value s.entries).length = s.entries.length :=
      Entries.length_put_of_mem hkey
    rw [if_pos hkey, fit_eq_self (hlength ▸ hfits)]
  · rw [if_neg hkey, Entries.put_of_not_mem hkey]

end Shelf

namespace Memory
variable {κ ν : Type} [BEq κ] [LawfulBEq κ] [Hashable κ] [DecidableEq κ]
  {l : Entries κ ν} {queue : List κ} {table : Std.HashMap κ ν}

/-! ### Queue and table -/

/-- The keys of the entries are the queue, each is there once, and the table finds their values. -/
structure Lists (l : Entries κ ν) (queue : List κ) (table : Std.HashMap κ ν) : Prop where
  queue_eq : queue = Entries.keys l
  nodup : (Entries.keys l).Nodup
  getElem? : ∀ key, table[key]? = Entries.get? key l

theorem lists_nil : Lists [] [] (∅ : Std.HashMap κ ν) where
  queue_eq := rfl
  nodup := List.nodup_nil
  getElem? := by simp [Entries.get?]

theorem Lists.mem_iff (h : Lists l queue table) (key : κ) : key ∈ table ↔ key ∈ Entries.keys l := by
  rw [Std.HashMap.mem_iff_isSome_getElem?, h.getElem?, Option.isSome_iff_ne_none, ne_eq,
    Entries.get?_eq_none_iff, Decidable.not_not]

theorem Lists.inStep (h : Lists l queue table) : InStep queue table where
  nodup := h.queue_eq ▸ h.nodup
  mem_iff key := by rw [h.queue_eq, h.mem_iff]

theorem Lists.size_eq (h : Lists l queue table) : table.size = l.length := by
  rw [h.inStep.size_eq, h.queue_eq, Entries.keys, List.length_map]

theorem Lists.erase {e : κ × ν} (h : Lists (e :: l) (e.1 :: queue) table) :
    Lists l queue (table.erase e.1) := by
  obtain ⟨hnew, hrest⟩ := List.nodup_cons.mp h.nodup
  refine ⟨(List.cons.inj h.queue_eq).2, hrest, fun key => ?_⟩
  rw [Std.HashMap.getElem?_erase, h.getElem?, Entries.get?]
  by_cases hkey : e.1 = key
  · rw [if_pos (beq_iff_eq.mpr hkey)]
    exact (Entries.get?_eq_none_iff.mpr (hkey ▸ hnew)).symm
  · rw [if_neg (mt beq_iff_eq.mp hkey), if_neg hkey]

/-- **An eviction** leaves the entries that there is room for. -/
theorem Lists.evicts {capacity : Nat} {before after : List κ × Std.HashMap κ ν}
    (h : Lists l before.1 before.2) (hevicts : Evicts capacity before after) :
    Lists (Shelf.fit capacity l) after.1 after.2 := by
  induction hevicts generalizing l with
  | fits hfits =>
    rw [Shelf.fit_eq_self (h.size_eq ▸ hfits)]
    exact h
  | takes hlarge _ ih =>
    -- A key at the front of the queue is the key of a first entry.
    cases l with
    | nil => cases h.queue_eq
    | cons e rest =>
      obtain ⟨rfl, _⟩ := List.cons.inj h.queue_eq
      rw [Shelf.fit_cons (h.size_eq ▸ hlarge)]
      exact ih h.erase

theorem Lists.put (h : Lists l queue table) (key : κ) (value : ν) :
    Lists (Entries.put key value l) (if table.contains key then queue else queue ++ [key])
      (table.insert key value) where
  queue_eq := by
    rw [Entries.keys_put, h.queue_eq]
    by_cases hkey : key ∈ Entries.keys l
    · rw [if_pos hkey, if_pos (Std.HashMap.contains_iff_mem.mpr ((h.mem_iff key).mpr hkey))]
    · have hnew : ¬ table.contains key = true := fun hcontains =>
        hkey ((h.mem_iff key).mp (Std.HashMap.contains_iff_mem.mp hcontains))
      rw [if_neg hkey, if_neg hnew]
  nodup := Entries.nodup_keys_put h.nodup
  getElem? other := by
    rw [Std.HashMap.getElem?_insert, Entries.get?_put, h.getElem?]
    simp only [beq_iff_eq]

/-! ### One request -/

/-- The memory has the room of the shelf and holds what stands on it. -/
structure Holds (m : Memory κ ν) (s : Shelf κ ν) : Prop where
  capacity : m.capacity = s.capacity
  lists : Lists s.entries m.queue m.table
  fits : s.entries.length ≤ s.capacity

variable {m : Memory κ ν} {s : Shelf κ ν}

theorem holds_empty (capacity : Nat) : (empty capacity : Memory κ ν).Holds (.empty capacity) where
  capacity := rfl
  lists := lists_nil
  fits := Nat.zero_le capacity

theorem Holds.size (h : m.Holds s) : m.size = s.size := h.lists.size_eq

theorem Holds.isEmpty (h : m.Holds s) : m.isEmpty = s.isEmpty := by
  rw [Memory.isEmpty, Std.HashMap.isEmpty_eq_size_eq_zero, h.lists.size_eq, Shelf.isEmpty]
  cases s.entries <;> rfl

theorem Holds.bounded (h : m.Holds s) : m.Bounded s.capacity where
  capacity := h.capacity
  size_le := h.size ▸ h.fits
  inStep := h.lists.inStep

/-- A memory that was changed and has evicted what is too much, against a shelf that lets it fall
off. -/
theorem holds_shrink (h : Lists l m.queue m.table) :
    m.shrink.Holds ⟨m.capacity, Shelf.fit m.capacity l⟩ where
  capacity := rfl
  lists := h.evicts (h.inStep.evicts m.capacity)
  fits := Shelf.length_fit_le m.capacity l

theorem Holds.resize (h : m.Holds s) (capacity : Nat) :
    (m.resize capacity).Holds (s.resize capacity) := holds_shrink h.lists

theorem Holds.clear (h : m.Holds s) : m.clear.Holds s.clear := by
  rw [Memory.clear, Shelf.clear, h.capacity]
  exact holds_empty s.capacity

theorem Holds.put (h : m.Holds s) (key : κ) (value : ν) :
    (m.put key value).Holds (s.put key value) := by
  by_cases hroom : m.capacity = 0
  · rw [Memory.put, if_pos hroom, Shelf.put, if_pos (h.capacity ▸ hroom)]
    exact h
  · rw [Memory.put, if_neg hroom, Shelf.put_eq (h.capacity ▸ hroom) h.fits, ← h.capacity]
    exact holds_shrink (h.lists.put key value)

omit [LawfulBEq κ] in
theorem Holds.get? (h : m.Holds s) (key : κ) : m.get? key = s.get? key := by
  rw [Memory.get?, Shelf.get?, h.capacity, h.lists.getElem?]

theorem Holds.contains (h : m.Holds s) (key : κ) : m.contains key = s.contains key := by
  rw [Memory.contains, Shelf.contains, h.capacity, Bool.decide_and]
  congr 1
  rw [Bool.eq_iff_iff, Std.HashMap.contains_iff_mem, h.lists.mem_iff, decide_eq_true_iff]

theorem Holds.answer (h : m.Holds s) (request : Request κ ν) :
    (m.answer request).1 = (s.answer request).1 ∧
      (m.answer request).2.Holds (s.answer request).2 := by
  cases request with
  | put key value => exact ⟨rfl, h.put key value⟩
  | get key => exact ⟨congrArg Answer.value (h.get? key), h⟩
  | contains key => exact ⟨congrArg Answer.contained (h.contains key), h⟩
  | resize capacity => exact ⟨rfl, h.resize capacity⟩
  | clear => exact ⟨rfl, h.clear⟩

/-- **One request** shows the same on the memory and on the shelf. -/
theorem Holds.observe (h : m.Holds s) (request : Request κ ν) :
    (m.observe request).1 = (s.observe request).1 ∧
      (m.observe request).2.Holds (s.observe request).2 := by
  obtain ⟨hanswer, hnext⟩ := h.answer request
  refine ⟨?_, hnext⟩
  simp only [Memory.observe, Shelf.observe, hanswer, hnext.size, hnext.isEmpty, hnext.capacity]

/-! ### All requests -/

theorem Holds.observeAll (h : m.Holds s) (requests : List (Request κ ν)) :
    (Memory.observeAll Memory.observe m requests).1 =
        (Memory.observeAll Shelf.observe s requests).1 ∧
      (Memory.observeAll Memory.observe m requests).2.Holds
        (Memory.observeAll Shelf.observe s requests).2 := by
  induction requests generalizing m s with
  | nil => exact ⟨rfl, h⟩
  | cons request rest ih =>
    obtain ⟨hfirst, hnext⟩ := h.observe request
    obtain ⟨hothers, hlast⟩ := ih hnext
    refine ⟨?_, hlast⟩
    simp only [Memory.observeAll, hfirst, hothers]

/-- **A memory is a shelf.** Made with any capacity, it shows for all requests what the shelf of
that capacity shows, and afterwards it holds what stands on the shelf: its queue lists exactly the
keys of its table, each once, and it is within its capacity. The next eviction, by a smaller
capacity or by another value, ends because what is left fits and never asks an empty queue. -/
theorem observed_as_shelf (capacity : Nat) (requests : List (Request κ ν)) :
    let after := observeAll Memory.observe (.empty capacity : Memory κ ν) requests
    let expected := observeAll Shelf.observe (.empty capacity : Shelf κ ν) requests
    let m := after.2
    let s := expected.2
    after.1 = expected.1 ∧ m.size = s.size ∧ m.isEmpty = s.isEmpty ∧
      m.Holds s ∧ m.Bounded s.capacity ∧
      (∀ limit, Evicts limit (m.queue, m.table) ((m.resize limit).queue, (m.resize limit).table)) ∧
      ∀ key value, m.capacity ≠ 0 →
        Evicts m.capacity
          (if m.table.contains key then m.queue else m.queue ++ [key], m.table.insert key value)
          ((m.put key value).queue, (m.put key value).table) := by
  intro after expected m s
  obtain ⟨hshown, hholds⟩ := (holds_empty capacity).observeAll requests
  have hstep : InStep m.queue m.table := hholds.lists.inStep
  exact ⟨hshown, hholds.size, hholds.isEmpty, hholds, hholds.bounded, hstep.evicts,
    fun key value hroom => hstep.evicts_put hroom key value⟩

/-- With room for two: a key put again keeps its place and is the first to go, a capacity of zero
takes all the rest and lets nothing in, and none of it is back when there is room again. -/
theorem observed_as_shelf_regrown :
    let requests : List (Request Nat Nat) := [.put 1 10, .put 2 20, .put 1 11, .put 3 30, .get 1,
      .get 2, .resize 0, .contains 2, .put 4 40, .resize 2, .put 5 50, .get 5, .get 4, .clear]
    (observeAll observe (.empty 2 : Memory Nat Nat) requests).1 =
      [⟨.done, 1, false, 2⟩, ⟨.done, 2, false, 2⟩, ⟨.done, 2, false, 2⟩, ⟨.done, 2, false, 2⟩,
        ⟨.value none, 2, false, 2⟩, ⟨.value (some 20), 2, false, 2⟩, ⟨.done, 0, true, 0⟩,
        ⟨.contained false, 0, true, 0⟩, ⟨.done, 0, true, 0⟩, ⟨.done, 0, true, 2⟩,
        ⟨.done, 1, false, 2⟩, ⟨.value (some 50), 1, false, 2⟩, ⟨.value none, 1, false, 2⟩,
        ⟨.done, 0, true, 2⟩] :=
  (observed_as_shelf 2 _).1.trans (by decide)

end Memory

end OpeningHours

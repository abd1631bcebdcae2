import OpeningHours.Memory

/-! A memory within its capacity.

The queue of a memory lists exactly the keys of its table, each once (`InStep`). So an
eviction finds a key to take as long as the table is too large (`InStep.evicts`), and what
it leaves fits: a queue that ran out early would leave a table too large for ever.
Every operation keeps a memory within its capacity (`Bounded`). -/
namespace OpeningHours.Memory
variable {κ ν : Type} [BEq κ] [Hashable κ]

/-- The queue lists exactly the keys of the table, each once. -/
structure InStep (queue : List κ) (table : Std.HashMap κ ν) : Prop where
  nodup : queue.Nodup
  mem_iff : ∀ key, key ∈ queue ↔ key ∈ table

/-- The memory has this capacity and no more entries, and its queue is in step with its table. -/
structure Bounded (m : Memory κ ν) (limit : Nat) : Prop where
  capacity : m.capacity = limit
  size_le : m.size ≤ limit
  inStep : InStep m.queue m.table

theorem inStep_empty : InStep ([] : List κ) (∅ : Std.HashMap κ ν) where
  nodup := List.nodup_nil
  mem_iff := by simp

theorem bounded_empty (limit : Nat) : (empty limit : Memory κ ν).Bounded limit where
  capacity := rfl
  size_le := by simp [empty, size]
  inStep := inStep_empty

variable {m : Memory κ ν} {limit : Nat} {queue : List κ} {table : Std.HashMap κ ν}

theorem Bounded.clear (h : m.Bounded limit) : m.clear.Bounded limit :=
  h.capacity ▸ bounded_empty m.capacity

/-! ### Eviction -/

theorem evict_of_fits (h : table.size ≤ limit) : evict limit queue table = (queue, table) := by
  cases queue with
  | nil => rfl
  | cons oldest rest => exact if_pos h

theorem evict_cons {oldest : κ} (h : limit < table.size) :
    evict limit (oldest :: queue) table = evict limit queue (table.erase oldest) :=
  if_neg (Nat.not_le.mpr h)

/-- An eviction as it runs: keys leave from the front of the queue while the table is too large.
A queue that is empty too early has no rule. -/
inductive Evicts (limit : Nat) : List κ × Std.HashMap κ ν → List κ × Std.HashMap κ ν → Prop
  | fits {state} : state.2.size ≤ limit → Evicts limit state state
  | takes {oldest queue table after} : limit < table.size →
      Evicts limit (queue, table.erase oldest) after → Evicts limit (oldest :: queue, table) after

theorem Evicts.size_le {before after : List κ × Std.HashMap κ ν}
    (h : Evicts limit before after) : after.2.size ≤ limit := by
  induction h with
  | fits hfits => exact hfits
  | takes _ _ ih => exact ih

variable [LawfulBEq κ]

theorem InStep.size_eq (h : InStep queue table) : table.size = queue.length := by
  rw [← Std.HashMap.length_keys]
  apply List.Perm.length_eq
  apply (List.perm_ext_iff_of_nodup Std.HashMap.nodup_keys h.nodup).mpr
  intro key
  rw [Std.HashMap.mem_keys, h.mem_iff]

theorem InStep.erase {oldest : κ} (h : InStep (oldest :: queue) table) :
    InStep queue (table.erase oldest) := by
  obtain ⟨hnew, hrest⟩ := List.nodup_cons.mp h.nodup
  refine ⟨hrest, fun key => ?_⟩
  rw [Std.HashMap.mem_erase, ← h.mem_iff key, List.mem_cons, beq_eq_false_iff_ne]
  constructor
  · intro hkey
    exact ⟨fun heq => hnew (heq ▸ hkey), .inr hkey⟩
  · intro hkey
    obtain ⟨hne, heq | hmem⟩ := hkey
    · exact absurd heq.symm hne
    · exact hmem

theorem Evicts.inStep {before after : List κ × Std.HashMap κ ν} (h : Evicts limit before after)
    (hbefore : InStep before.1 before.2) : InStep after.1 after.2 := by
  induction h with
  | fits _ => exact hbefore
  | takes _ _ ih => exact ih hbefore.erase

/-- In step with its table, a queue has a key as long as the table is too large. -/
theorem InStep.evicts (h : InStep queue table) (limit : Nat) :
    Evicts limit (queue, table) (Memory.evict limit queue table) := by
  induction queue generalizing table with
  | nil =>
    have hfits : table.size ≤ limit := h.size_eq ▸ Nat.zero_le limit
    exact .fits hfits
  | cons oldest rest ih =>
    rcases Nat.lt_or_ge limit table.size with hlarge | hfits
    · rw [evict_cons hlarge]
      exact .takes hlarge (ih h.erase)
    · rw [evict_of_fits hfits]
      exact .fits hfits

/-- **What an eviction leaves fits**, and is in step again. -/
theorem bounded_shrink (hcapacity : m.capacity = limit) (h : InStep m.queue m.table) :
    m.shrink.Bounded limit where
  capacity := hcapacity
  size_le := hcapacity ▸ (h.evicts m.capacity).size_le
  inStep := (h.evicts m.capacity).inStep h

/-! ### Operations -/

theorem Bounded.resize (h : m.Bounded limit) (capacity : Nat) :
    (m.resize capacity).Bounded capacity :=
  bounded_shrink rfl h.inStep

/-- A key that is there keeps its place, another one comes last: the queue stays in step. -/
theorem InStep.insert (h : InStep queue table) (key : κ) (value : ν) :
    InStep (if table.contains key then queue else queue ++ [key]) (table.insert key value) := by
  by_cases hkey : table.contains key = true
  · have hmem : key ∈ table := Std.HashMap.contains_iff_mem.mp hkey
    rw [if_pos hkey]
    refine ⟨h.nodup, fun other => ?_⟩
    rw [Std.HashMap.mem_insert, beq_iff_eq, h.mem_iff other]
    exact ⟨.inr, fun hother => hother.elim (fun heq => heq ▸ hmem) id⟩
  · have hnew : key ∉ queue := fun hmem =>
      hkey (Std.HashMap.contains_iff_mem.mpr ((h.mem_iff key).mp hmem))
    rw [if_neg hkey]
    refine ⟨List.nodup_append.mpr ⟨h.nodup, by simp, ?_⟩, fun other => ?_⟩
    · intro a ha b hb hab
      rw [List.mem_singleton.mp hb] at hab
      exact hnew (hab ▸ ha)
    · rw [Std.HashMap.mem_insert, beq_iff_eq, List.mem_append, List.mem_singleton,
        h.mem_iff other, or_comm, eq_comm]

/-- The eviction after a value was put. -/
theorem InStep.evicts_put (h : InStep m.queue m.table) (hroom : m.capacity ≠ 0) (key : κ)
    (value : ν) :
    Evicts m.capacity
      (if m.table.contains key then m.queue else m.queue ++ [key], m.table.insert key value)
      ((m.put key value).queue, (m.put key value).table) := by
  rw [Memory.put, if_neg hroom]
  exact (h.insert key value).evicts m.capacity

theorem Bounded.put (h : m.Bounded limit) (key : κ) (value : ν) :
    (m.put key value).Bounded limit := by
  unfold Memory.put
  split
  · exact h
  · exact bounded_shrink h.capacity (h.inStep.insert key value)

theorem Bounded.fetch (h : m.Bounded limit) (f : κ → ν) (key : κ) :
    (m.fetch f key).2.Bounded limit := by
  unfold Memory.fetch
  split
  · exact h
  · exact h.put key (f key)

end OpeningHours.Memory

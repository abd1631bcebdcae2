import OpeningHours.Memory

/-! A memory that remembers one function.

A memory is exact for a function when everything in its table is a value of that
function. Putting a value of the function, evicting, resizing and clearing keep a
memory exact, whatever its capacity; so `fetch` answers as the function does
(`Exact.fetch_fst`). -/
namespace OpeningHours.Memory
variable {κ ν : Type} [BEq κ] [Hashable κ] {m : Memory κ ν} {f : κ → ν}

/-- Everything that is remembered is a value of `f`. -/
def Exact (m : Memory κ ν) (f : κ → ν) : Prop :=
  ∀ key value, m.table[key]? = some value → value = f key

theorem exact_empty (capacity : Nat) (f : κ → ν) : (empty capacity : Memory κ ν).Exact f := by
  intro key value h
  simp [empty] at h

theorem Exact.clear (f : κ → ν) : m.clear.Exact f := exact_empty _ f

theorem Exact.get? (h : m.Exact f) {key : κ} {value : ν} (hget : m.get? key = some value) :
    value = f key := by
  unfold Memory.get? at hget
  split at hget
  · cases hget
  · exact h key value hget

theorem Exact.fetch_fst (h : m.Exact f) (key : κ) : (m.fetch f key).1 = f key := by
  unfold Memory.fetch
  split
  · rename_i hget
    exact h.get? hget
  · rfl

variable [LawfulBEq κ]

/-- An eviction takes entries away and changes none. -/
theorem getElem?_of_evict {capacity : Nat} {queue : List κ} {table : Std.HashMap κ ν} {key : κ}
    {value : ν} (h : (evict capacity queue table).2[key]? = some value) :
    table[key]? = some value := by
  induction queue generalizing table with
  | nil => exact h
  | cons oldest rest ih =>
    unfold evict at h
    split at h
    · exact h
    · have herase := ih h
      rw [Std.HashMap.getElem?_erase] at herase
      split at herase
      · cases herase
      · exact herase

theorem Exact.shrink (h : m.Exact f) : m.shrink.Exact f :=
  fun key value hget => h key value (getElem?_of_evict hget)

theorem Exact.resize (h : m.Exact f) (capacity : Nat) : (m.resize capacity).Exact f := by
  have hcapacity : ({m with capacity} : Memory κ ν).Exact f := h
  exact hcapacity.shrink

theorem Exact.put (h : m.Exact f) (key : κ) : (m.put key (f key)).Exact f := by
  unfold Memory.put
  split
  · exact h
  · apply Exact.shrink
    intro k value hget
    rw [Std.HashMap.getElem?_insert] at hget
    split at hget
    · rename_i hkey
      rw [← eq_of_beq hkey]
      exact (Option.some.inj hget).symm
    · exact h k value hget

theorem Exact.fetch_snd (h : m.Exact f) (key : κ) : (m.fetch f key).2.Exact f := by
  unfold Memory.fetch
  split
  · exact h
  · exact h.put key

end OpeningHours.Memory

import Mathlib.Data.List.AList
import Mathlib.Data.List.Perm.Basic

/-! A table of pending requests beside the entries that stand for them elsewhere: in a queue, in
flight, or completed and not yet collected. Each entry carries the key of its request. -/
namespace PendingTable

variable {κ ρ ε : Type*} [DecidableEq κ] {key : ε → κ} {entry : ρ → Option ε}

/-- Every request of the table stands for one entry, and every entry for one request. -/
structure InStep (key : ε → κ) (entry : ρ → Option ε) (places : List ε)
    (table : AList fun _ : κ => ρ) : Prop where
  mem : ∀ e, e ∈ places ↔ ∃ r, table.lookup (key e) = some r ∧ entry r = some e
  entered : ∀ k r, table.lookup k = some r → ∃ e, entry r = some e ∧ key e = k
  nodup : (places.map key).Nodup

variable {places others : List ε} {table : AList fun _ : κ => ρ}

theorem InStep.empty : InStep key entry [] ∅ where
  mem e := by simp
  entered k r h := by simp at h
  nodup := List.nodup_nil

theorem InStep.perm (h : InStep key entry places table) (hp : places.Perm others) :
    InStep key entry others table where
  mem e := hp.mem_iff.symm.trans (h.mem e)
  entered := h.entered
  nodup := (hp.map key).nodup_iff.mp h.nodup

theorem InStep.lookup (h : InStep key entry places table) {e : ε} (hm : e ∈ places) :
    ∃ r, table.lookup (key e) = some r ∧ entry r = some e := (h.mem e).mp hm

theorem InStep.place (h : InStep key entry places table) {k : κ} {r : ρ}
    (hl : table.lookup k = some r) : ∃ e ∈ places, entry r = some e ∧ key e = k := by
  obtain ⟨e, he, rfl⟩ := h.entered k r hl
  exact ⟨e, (h.mem e).mpr ⟨r, hl, he⟩, he, rfl⟩

theorem InStep.insert (h : InStep key entry places table) {e : ε} {r : ρ}
    (he : entry r = some e) (hfresh : table.lookup (key e) = none) :
    InStep key entry (e :: places) (table.insert (key e) r) := by
  have hother : ∀ f ∈ places, key f ≠ key e := by
    intro f hf hk
    obtain ⟨q, hq, _⟩ := h.lookup hf
    rw [hk, hfresh] at hq
    cases hq
  constructor
  · intro f
    by_cases hk : key f = key e
    · rw [hk, AList.lookup_insert]
      constructor
      · intro hm
        rcases List.mem_cons.mp hm with rfl | hm
        · exact ⟨r, rfl, he⟩
        · exact absurd hk (hother f hm)
      · rintro ⟨q, hq, hf⟩
        cases hq
        rw [he] at hf
        cases hf
        exact List.mem_cons_self
    · rw [AList.lookup_insert_ne hk, ← h.mem f, List.mem_cons]
      constructor
      · rintro (rfl | hm)
        · exact absurd rfl hk
        · exact hm
      · exact Or.inr
  · intro k q hl
    by_cases hk : k = key e
    · subst hk
      rw [AList.lookup_insert] at hl
      cases hl
      exact ⟨e, he, rfl⟩
    · rw [AList.lookup_insert_ne hk] at hl
      exact h.entered k q hl
  · rw [List.map_cons, List.nodup_cons]
    refine ⟨fun hm => ?_, h.nodup⟩
    obtain ⟨f, hf, hk⟩ := List.mem_map.mp hm
    exact hother f hf hk

theorem InStep.erase {e : ε} (h : InStep key entry (e :: places) table) :
    InStep key entry places (table.erase (key e)) := by
  have hnodup := h.nodup
  rw [List.map_cons, List.nodup_cons] at hnodup
  constructor
  · intro f
    by_cases hk : key f = key e
    · rw [hk, AList.lookup_erase]
      constructor
      · intro hm
        exact absurd (hk ▸ List.mem_map_of_mem hm) hnodup.1
      · rintro ⟨q, hq, _⟩
        cases hq
    · rw [AList.lookup_erase_ne hk, ← h.mem f, List.mem_cons]
      constructor
      · exact Or.inr
      · rintro (rfl | hm)
        · exact absurd rfl hk
        · exact hm
  · intro k q hl
    by_cases hk : k = key e
    · subst hk
      rw [AList.lookup_erase] at hl
      cases hl
    · rw [AList.lookup_erase_ne hk] at hl
      exact h.entered k q hl
  · exact hnodup.2

theorem InStep.empty_iff (h : InStep key entry places table) :
    table.entries = [] ↔ places = [] := by
  constructor
  · intro ht
    refine List.eq_nil_iff_forall_not_mem.mpr fun e hm => ?_
    obtain ⟨r, hr, _⟩ := h.lookup hm
    have := AList.mem_lookup_iff.mp hr
    rw [ht] at this
    cases this
  · intro hp
    refine List.eq_nil_iff_forall_not_mem.mpr fun ⟨k, r⟩ hm => ?_
    obtain ⟨e, he, _⟩ := h.place (AList.mem_lookup_iff.mpr hm)
    rw [hp] at he
    cases he

/-- `Vec::swap_remove`: the last element takes the place of the removed one. -/
def swapRemove (list : List ε) (i : ℕ) : List ε :=
  match list.getLast? with
  | some last => (list.set i last).dropLast
  | none => []

theorem swapRemove_perm {list : List ε} {i : ℕ} (h : i < list.length) :
    list.Perm (list[i] :: swapRemove list i) := by
  rcases List.eq_nil_or_concat list with rfl | ⟨front, last, rfl⟩
  · cases h
  have hlast : swapRemove (front ++ [last]) i = ((front ++ [last]).set i last).dropLast := by
    simp [swapRemove]
  simp only [List.concat_eq_append] at h ⊢
  rw [hlast]
  by_cases hi : i < front.length
  · rw [List.set_append_left _ _ hi, List.dropLast_concat, List.getElem_append_left hi]
    have hset := (List.set_perm_cons_eraseIdx hi last).cons front[i]
    have hget := (List.getElem_cons_eraseIdx_perm hi).cons last
    have hback : (front ++ [last]).Perm (last :: front) := List.perm_append_singleton last front
    exact hback.trans (hget.symm.trans ((List.Perm.swap _ _ _).trans hset.symm))
  · have hend : i = front.length := by
      rw [List.length_append, List.length_singleton] at h
      omega
    subst hend
    simp

end PendingTable

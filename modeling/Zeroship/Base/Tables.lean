import Mathlib

/-! Association lists as tables with a unique key.

What a lookup finds after a row was written or deleted, and sums over a table by its keys. -/
namespace Zeroship.Base
open List AList

section
variable {α β : Type} [DecidableEq α] {t : AList fun _ : α => β} {a a' : α} {v v' : β}

theorem insert_cases (h : (t.insert a v).lookup a' = some v') :
    (a' = a ∧ v' = v) ∨ (a' ≠ a ∧ t.lookup a' = some v') := by
  by_cases heq : a' = a
  · subst heq
    rw [lookup_insert] at h
    exact .inl ⟨rfl, (Option.some.inj h).symm⟩
  · rw [lookup_insert_ne heq] at h
    exact .inr ⟨heq, h⟩

theorem erase_cases (h : (t.erase a).lookup a' = some v') : a' ≠ a ∧ t.lookup a' = some v' := by
  have hne : a' ≠ a := by
    intro heq
    rw [heq, lookup_erase] at h
    cases h
  exact ⟨hne, (lookup_erase_ne hne).symm.trans h⟩

/-- What is known of a row stays, if a row written over it has it too. -/
theorem map_lookup_insert {γ : Type} {f : β → γ} {c : γ} (h : (t.lookup a').map f = some c) (hn : a' = a → f v = c) :
    ((t.insert a v).lookup a').map f = some c := by
  by_cases heq : a' = a
  · rw [heq, lookup_insert, Option.map_some, hn heq]
  · rw [lookup_insert_ne heq]
    exact h

theorem mem_of_lookup_eq (h : t.lookup a = some v) : a ∈ t := lookup_isSome.mp (by rw [h]; rfl)

theorem exists_of_mem (h : a ∈ t) : ∃ v, t.lookup a = some v := Option.isSome_iff_exists.mp (lookup_isSome.mpr h)

end

/-- A sum over the rows is a sum over anything that has their keys, each once. -/
theorem sum_rows {α β γ M : Type} [DecidableEq α] [AddCommMonoid M] {t : AList fun _ : α => β} {l : List γ} {key : γ → α}
    {f : β → M} {g : γ → M} (hn : (l.map key).Nodup) (hk : ∀ a, a ∈ t ↔ a ∈ l.map key)
    (hvl : ∀ c ∈ l, ∀ v, t.lookup (key c) = some v → f v = g c) :
    (t.entries.map fun e => f e.2).sum = (l.map g).sum := by
  let value (a : α) : M := ((t.lookup a).map f).getD 0
  have hp : (t.entries.map (·.1)).Perm (l.map key) := (perm_ext_iff_of_nodup t.keys_nodup hn).mpr hk
  calc (t.entries.map fun e => f e.2).sum
      = ((t.entries.map (·.1)).map value).sum := by
        rw [map_map]
        refine congrArg _ (map_congr_left fun e he => ?_)
        have hl : t.lookup e.1 = some e.2 := mem_lookup_iff.mpr he
        simp [value, hl]
    _ = ((l.map key).map value).sum := (hp.map value).sum_eq
    _ = (l.map g).sum := by
        rw [map_map]
        refine congrArg _ (map_congr_left fun c hc => ?_)
        obtain ⟨v, hv⟩ := exists_of_mem ((hk (key c)).mpr (mem_map.mpr ⟨c, hc, rfl⟩))
        simp [value, hv, hvl c hc v hv]

end Zeroship.Base

import Mathlib

/-! Amounts under keys, and what a list of them says of one key. -/
namespace Zeroship.Base
open List

section
variable {κ : Type} [DecidableEq κ] {key : κ} {l l' : List (κ × Nat)}

/-- The sum of the amounts under a key. -/
def tally (key : κ) (l : List (κ × Nat)) : Nat := ((l.filter (·.1 = key)).map (·.2)).sum

@[simp] theorem tally_nil : tally key [] = 0 := rfl

theorem tally_cons (e : κ × Nat) : tally key (e :: l) = (if e.1 = key then e.2 else 0) + tally key l := by
  by_cases h : e.1 = key <;> simp [tally, h]

@[simp] theorem tally_append : tally key (l ++ l') = tally key l + tally key l' := by simp [tally]

theorem tally_perm (h : l.Perm l') : tally key l = tally key l' :=
  ((h.filter _).map _).sum_eq

theorem tally_positive : tally key (l.filter (0 < ·.2)) = tally key l := by
  induction l with
  | nil => rfl
  | cons e rest ih =>
    by_cases hp : 0 < e.2
    · rw [filter_cons_of_pos (by simpa using hp), tally_cons, tally_cons, ih]
    · rw [filter_cons_of_neg (by simpa using hp), tally_cons, ih, Nat.eq_zero_of_not_pos hp, ite_self,
        Nat.zero_add]

theorem tally_of_not_mem (h : key ∉ l.map (·.1)) : tally key l = 0 := by
  induction l with
  | nil => rfl
  | cons e rest ih =>
    rw [map_cons, mem_cons, not_or] at h
    rw [tally_cons, if_neg (Ne.symm h.1), ih h.2]

theorem tally_of_nodup (hn : (l.map (·.1)).Nodup) {n : Nat} (h : (key, n) ∈ l) : tally key l = n := by
  induction l with
  | nil => simp at h
  | cons e rest ih =>
    obtain ⟨hf, hr⟩ := nodup_cons.mp hn
    rw [tally_cons]
    obtain rfl | h := mem_cons.mp h
    · rw [if_pos rfl, tally_of_not_mem hf, Nat.add_zero]
    have hne : e.1 ≠ key := by
      rintro rfl
      exact hf (mem_map.mpr ⟨_, h, rfl⟩)
    rw [if_neg hne, ih hr h, Nat.zero_add]

/-- Amounts under the second halves of keys with one first half. -/
theorem tally_pairs {ν : Type} [DecidableEq ν] (outer other : ν) :
    tally (outer, key) (l.map fun e => ((other, e.1), e.2)) = if other = outer then tally key l else 0 := by
  induction l with
  | nil => simp
  | cons e rest ih =>
    rw [map_cons, tally_cons, tally_cons, ih]
    by_cases h : other = outer <;> simp [h]

end

/-- Amounts kept apart under distinct outer keys: one outer key's are what its entry says. -/
theorem tally_entries {ν κ : Type} {β : ν → Type} [DecidableEq ν] [DecidableEq κ] (amounts : Sigma β → List (κ × Nat))
    {entries : List (Sigma β)} (hn : entries.NodupKeys) (outer : ν) (key : κ) :
    tally (outer, key) (entries.flatMap fun e => (amounts e).map fun a => ((e.1, a.1), a.2)) =
      match entries.dlookup outer with
      | some b => tally key (amounts ⟨outer, b⟩)
      | none => 0 := by
  induction entries with
  | nil => rfl
  | cons e rest ih =>
    obtain ⟨hf, hr⟩ := nodupKeys_cons.mp hn
    obtain ⟨name, b⟩ := e
    rw [flatMap_cons, tally_append, tally_pairs, ih hr]
    by_cases h : name = outer
    · subst h
      rw [if_pos rfl, dlookup_cons_eq, dlookup_eq_none.mpr hf, Nat.add_zero]
    · rw [if_neg h, dlookup_cons_ne _ ⟨name, b⟩ (Ne.symm h), Nat.zero_add]

end Zeroship.Base

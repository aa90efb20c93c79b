import Mathlib

/-! Lists as finite sets, and lists with a given head and tail.

An ordered set is its elements in order, each once. Of a finite set under a partial
order the undominated elements still dominate every other. A list that starts with `p`
and ends with `s` has room for both, or `p` and `s` share a piece and determine it. -/
namespace Zeroship.Base
open List

section
variable {α : Type} [DecidableEq α] {a : α} {l : List α} {dominates : α → α → Bool}

/-- The elements of a list in order, each once. -/
def orderedSet [Ord α] (l : List α) : List α := l.eraseDups.insertionSort fun a b => (compare a b).isLE

@[simp] theorem mem_orderedSet [Ord α] : a ∈ orderedSet l ↔ a ∈ l := by
  rw [orderedSet, mem_insertionSort, mem_eraseDups]

theorem nodup_eraseDups (l : List α) : l.eraseDups.Nodup := by
  induction hn : l.length using Nat.strong_induction_on generalizing l with
  | _ n ih =>
    cases l with
    | nil => simp
    | cons a rest =>
      rw [eraseDups_cons, nodup_cons, mem_eraseDups]
      refine ⟨by simp, ih _ ?_ _ rfl⟩
      rw [← hn]
      exact Nat.lt_succ_of_le (length_filter_le _ _)

theorem nodup_orderedSet [Ord α] (l : List α) : (orderedSet l).Nodup :=
  (perm_insertionSort _ l.eraseDups).nodup_iff.mpr (nodup_eraseDups l)

theorem orderedSet_congr [Ord α] [Std.TransOrd α] [Std.LawfulEqOrd α] {l' : List α} (h : ∀ a, a ∈ l ↔ a ∈ l') :
    orderedSet l = orderedSet l' := by
  let le : α → α → Prop := fun a b => (compare a b).isLE
  have : IsTrans α le := ⟨fun _ _ _ => Std.TransCmp.isLE_trans⟩
  have : Std.Total le := ⟨fun a b => by
    have hs : compare b a = (compare a b).swap := Std.OrientedCmp.eq_swap
    show (compare a b).isLE ∨ (compare b a).isLE
    rw [hs]
    cases compare a b <;> decide⟩
  have hp : l.eraseDups.Perm l'.eraseDups := by
    rw [perm_ext_iff_of_nodup (nodup_eraseDups l) (nodup_eraseDups l')]
    intro a
    rw [mem_eraseDups, mem_eraseDups, h]
  refine Perm.eq_of_pairwise ?_ (pairwise_insertionSort le _) (pairwise_insertionSort le _) ?_
  · exact fun a b _ _ ha hb => Std.LawfulEqCmp.eq_of_compare (Std.OrientedCmp.isLE_antisymm ha hb)
  · exact (perm_insertionSort le _).trans (hp.trans (perm_insertionSort le _).symm)

/-- The elements of a list in order. -/
def sorted {α : Type} [Ord α] (l : List α) : List α := l.insertionSort fun a b => (compare a b).isLE

theorem perm_sorted {α : Type} [Ord α] (l : List α) : (sorted l).Perm l := List.perm_insertionSort _ l

theorem perm_of_sorted {α : Type} [Ord α] {l l' : List α} (h : sorted l = sorted l') : l.Perm l' :=
  (perm_sorted l).symm.trans (h ▸ perm_sorted l')

/-- The elements that no other one dominates. -/
def undominated (dominates : α → α → Bool) (l : List α) : List α :=
  l.filter fun a => !l.any fun b => b ≠ a && dominates b a

theorem mem_of_undominated (h : a ∈ undominated dominates l) : a ∈ l := (List.mem_filter.mp h).1

/-- Domination by a partial order leaves something above every element. -/
theorem exists_undominated (refl : ∀ a, dominates a a)
    (trans : ∀ a b c, dominates a b → dominates b c → dominates a c)
    (antisymm : ∀ a b, dominates a b → dominates b a → a = b) (ha : a ∈ l) :
    ∃ b ∈ undominated dominates l, dominates b a := by
  let _ : PartialOrder α := {
    le := fun x y => dominates y x
    le_refl := refl
    le_trans := fun x y z hx hyz => trans z y x hyz hx
    le_antisymm := fun x y hx hy => antisymm x y hy hx }
  obtain ⟨b, hab, hb, hm⟩ := l.toFinset.exists_le_maximal (mem_toFinset.mpr ha)
  refine ⟨b, mem_filter.mpr ⟨mem_toFinset.mp hb, ?_⟩, hab⟩
  simp only [Bool.not_eq_true', any_eq_false, Bool.and_eq_true, decide_eq_true_eq, not_and]
  intro c hc hne hcb
  have hbc := hm (mem_toFinset.mpr hc) hcb
  exact hne (antisymm c b hcb hbc)

end

section
variable {α : Type} {Q : List α → α → Prop} {l : List α} {a : α}

/-- Some element and what stands before it satisfy `Q`. -/
def ExistsSplit (Q : List α → α → Prop) (l : List α) : Prop := ∃ before a after, l = before ++ a :: after ∧ Q before a

theorem existsSplit_concat : ExistsSplit Q (l ++ [a]) ↔ ExistsSplit Q l ∨ Q l a := by
  constructor
  · rintro ⟨before, x, after, heq, hQ⟩
    rcases eq_nil_or_concat after with rfl | ⟨after', y, rfl⟩
    · obtain ⟨rfl, hx⟩ := append_inj' heq rfl
      exact .inr ((singleton_inj.mp hx) ▸ hQ)
    · rw [concat_eq_append, ← cons_append, ← append_assoc] at heq
      exact .inl ⟨before, x, after', (append_inj' heq rfl).1, hQ⟩
  · rintro (⟨before, x, after, rfl, hQ⟩ | hQ)
    · exact ⟨before, x, after ++ [a], by simp, hQ⟩
    · exact ⟨l, a, [], rfl, hQ⟩

theorem split_get (l : List α) (n : Fin l.length) : l = l.take n ++ l.get n :: l.drop (n + 1) := by
  rw [get_eq_getElem, getElem_cons_drop, take_append_drop]

theorem existsSplit_iff_get : ExistsSplit Q l ↔ ∃ n : Fin l.length, Q (l.take n) (l.get n) := by
  constructor
  · rintro ⟨before, a, after, rfl, hQ⟩
    refine ⟨⟨before.length, by simp⟩, ?_⟩
    simpa using hQ
  · rintro ⟨n, hQ⟩
    exact ⟨l.take n, l.get n, l.drop (n + 1), split_get l n, hQ⟩

instance [∀ before a, Decidable (Q before a)] : Decidable (ExistsSplit Q l) :=
  decidable_of_iff _ existsSplit_iff_get.symm

end

section
variable {α β : Type} {r : α → β → Prop} {l : List α} {l' : List β}

theorem right_of_forall₂ (h : List.Forall₂ r l l') {a : α} (ha : a ∈ l) : ∃ b ∈ l', r a b := by
  induction h with
  | nil => cases ha
  | cons hab _ ih =>
    rcases mem_cons.mp ha with rfl | ha
    · exact ⟨_, .head _, hab⟩
    · obtain ⟨b, hb, hr⟩ := ih ha
      exact ⟨b, .tail _ hb, hr⟩

theorem left_of_forall₂ (h : List.Forall₂ r l l') {b : β} (hb : b ∈ l') : ∃ a ∈ l, r a b :=
  right_of_forall₂ (r := flip r) (Forall₂.flip h) hb

/-- Pieces that map to the images of the elements make up the image of the list. -/
theorem map_flatten_of_forall₂ {γ δ : Type} {l' : List (List γ)} {f : α → List δ} {g : γ → δ}
    (h : List.Forall₂ (fun a b => b.map g = f a) l l') : l'.flatten.map g = l.flatMap f := by
  induction h with
  | nil => rfl
  | cons ha _ ih => rw [flatten_cons, map_append, flatMap_cons, ha, ih]

end

section
variable {κ β : Type} [DecidableEq κ] {l : List (κ × β)} {k : κ} {b : β}

theorem mem_of_lookup (h : l.lookup k = some b) : (k, b) ∈ l := by
  induction l with
  | nil => cases h
  | cons p rest ih =>
    rw [lookup_cons] at h
    cases hk : k == p.1 with
    | true =>
      rw [hk] at h
      cases h
      rw [eq_of_beq hk]
      exact mem_cons_self
    | false =>
      rw [hk] at h
      exact mem_cons_of_mem _ (ih h)

end

section
variable {α : Type} {p s w x : List α}

/-- Too short for both, a list is its head and its tail joined over a shared piece. -/
theorem overlap_of_short (hp : p <+: w) (hs : s <:+ w) (hlt : w.length < p.length + s.length) :
    ∃ x, x ≠ [] ∧ x <:+ p ∧ x <+: s ∧ w = p ++ s.drop x.length := by
  obtain ⟨v, rfl⟩ := hs
  have hl : v.length ≤ p.length := by
    simp only [length_append] at hlt
    omega
  -- what stands before the tail is the start of the head
  obtain ⟨x, rfl⟩ := prefix_of_prefix_length_le (prefix_append v s) hp hl
  obtain ⟨u, hu⟩ := hp
  have hsx : x ++ u = s := by
    rw [append_assoc] at hu
    exact append_cancel_left hu
  refine ⟨x, ?_, suffix_append v x, ⟨u, hsx⟩, ?_⟩
  · rintro rfl
    simp at hlt
  · rw [← hsx, drop_left, append_assoc]

theorem suffix_overlap (hp : x <:+ p) (hs : x <+: s) : s <:+ p ++ s.drop x.length := by
  obtain ⟨v, rfl⟩ := hp
  obtain ⟨u, rfl⟩ := hs
  rw [drop_left, append_assoc]
  exact suffix_append v (x ++ u)

end

theorem find?_map_key {α κ : Type} [DecidableEq κ] (key : α → κ) (f : α → α) (hf : ∀ a, key (f a) = key a) (k : κ)
    (l : List α) : (l.map f).find? (fun a => key a = k) = (l.find? fun a => key a = k).map f := by
  have hc : (fun a => decide (key a = k)) ∘ f = fun a => decide (key a = k) := by
    funext a
    simp [hf]
  rw [find?_map, hc]

section
variable {α : Type*} {p : α → Bool} {part : List α} {sep : α} {parts : List (List α)}

theorem of_mem_splitOnP {l : List α} (h : part ∈ l.splitOnP p) : ∀ c ∈ part, c ∈ l ∧ p c = false := by
  induction l generalizing part with
  | nil => simp_all
  | cons x xs ih =>
    have hl {part : List α} (hp : part ∈ xs.splitOnP p) : ∀ c ∈ part, c ∈ x :: xs ∧ p c = false :=
      fun c hc => ⟨mem_cons_of_mem _ (ih hp c hc).1, (ih hp c hc).2⟩
    rw [splitOnP_cons_eq_if_modifyHead] at h
    split at h
    · rcases mem_cons.mp h with rfl | h
      · simp
      · exact hl h
    next hx =>
    obtain ⟨first, rest, heq⟩ := exists_cons_of_ne_nil (splitOnP_ne_nil p xs)
    rw [heq] at h hl
    rcases mem_cons.mp h with rfl | h
    · exact forall_mem_cons.mpr ⟨⟨mem_cons_self, Bool.eq_false_iff.mpr hx⟩, hl mem_cons_self⟩
    · exact hl (mem_cons_of_mem _ h)

/-- What was joined with separators is split into its parts. -/
theorem splitOnP_flatMap (hs : p sep)
    (h : ∀ l ∈ part :: parts, ∀ c ∈ l, p c = false) : (part ++ parts.flatMap (sep :: ·)).splitOnP p = part :: parts := by
  induction parts generalizing part with
  | nil => simpa using splitOnP_eq_singleton (h part mem_cons_self)
  | cons next parts ih =>
    rw [flatMap_cons, cons_append, splitOnP_append_cons_of_forall_mem (h part mem_cons_self) sep hs,
      ih fun l hl => h l (mem_cons_of_mem _ hl)]

theorem flatMap_splitOn [BEq α] [LawfulBEq α] (sep : α) (l : List α) : (l.splitOn sep).flatMap (sep :: ·) = sep :: l := by
  induction l with
  | nil => rfl
  | cons x xs ih =>
    rw [splitOn] at ih ⊢
    rw [splitOnP_cons_eq_if_modifyHead]
    split
    · next hx =>
      rw [flatMap_cons, ih, eq_of_beq hx]
      rfl
    · obtain ⟨first, rest, heq⟩ := exists_cons_of_ne_nil (splitOnP_ne_nil (· == sep) xs)
      rw [heq, flatMap_cons, cons_append] at ih
      rw [heq, modifyHead_cons, flatMap_cons, cons_append, cons_append, (cons.inj ih).2]

theorem length_flatMap_take {n : Nat} (h : n < parts.length) :
    ((parts.take n).flatMap (sep :: ·)).length < (parts.flatMap (sep :: ·)).length := by
  have hp : (parts.take n ++ parts.drop n).flatMap (sep :: ·) = parts.flatMap (sep :: ·) := by
    rw [take_append_drop]
  obtain ⟨next, rest, heq⟩ := exists_cons_of_ne_nil fun hn => absurd (drop_eq_nil_iff.mp hn) (not_le.mpr h)
  rw [← hp, flatMap_append, heq]
  simp

end

end Zeroship.Base

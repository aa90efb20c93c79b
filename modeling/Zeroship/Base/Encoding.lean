import Mathlib

/-! Encodings that can be read back.

An encoding is readable if from the bytes of a value and any bytes after them both are
determined. Readable encodings can be put one after the other, counted and tagged. A value may
have to be of a size for it (`ok`), and may be determined up to a relation only (`same`). -/
namespace Zeroship.Base
open List

/-- The encoding of a value is told apart from whatever follows it. -/
def Readable {α β : Type} (enc : α → List β) (ok : α → Prop) (same : α → α → Prop) : Prop :=
  ∀ ⦃a b : α⦄ ⦃s t : List β⦄, ok a → ok b → enc a ++ s = enc b ++ t → same a b ∧ s = t

namespace Readable
variable {α β γ : Type} {enc : α → List β} {ok ok' : α → Prop} {same same' : α → α → Prop}

theorem of_length (n : Nat) (hl : ∀ a, (enc a).length = n) (hi : ∀ a b, ok a → ok b → enc a = enc b → same a b) :
    Readable enc ok same := by
  intro a b s t ha hb h
  obtain ⟨he, hr⟩ := append_inj h (by rw [hl, hl])
  exact ⟨hi a b ha hb he, hr⟩

theorem of_injective {f : α → β} (hf : Function.Injective f) : Readable (fun a => [f a]) (fun _ => True) Eq :=
  of_length 1 (fun _ => rfl) fun _ _ _ _ h => hf (singleton_inj.mp h)

theorem mono (h : Readable enc ok same) (ho : ∀ a, ok' a → ok a) (hsm : ∀ a b, same a b → same' a b) :
    Readable enc ok' same' := by
  intro a b s t ha hb hab
  obtain ⟨hs, hr⟩ := h (ho a ha) (ho b hb) hab
  exact ⟨hsm a b hs, hr⟩

theorem comap (h : Readable enc ok same) (f : γ → α) :
    Readable (fun c => enc (f c)) (fun c => ok (f c)) fun c c' => same (f c) (f c') :=
  fun _ _ _ _ hc hc' heq => h hc hc' heq

theorem append {enc' : α → List β} (h : Readable enc ok same) (h' : Readable enc' ok' same') :
    Readable (fun a => enc a ++ enc' a) (fun a => ok a ∧ ok' a) fun a b => same a b ∧ same' a b := by
  intro a b s t ha hb heq
  simp only [append_assoc] at heq
  obtain ⟨hs, heq⟩ := h ha.1 hb.1 heq
  obtain ⟨hs', heq⟩ := h' ha.2 hb.2 heq
  exact ⟨⟨hs, hs'⟩, heq⟩

theorem cons (tag : β) (h : Readable enc ok same) : Readable (fun a => tag :: enc a) ok same := by
  intro a b s t ha hb heq
  simp only [cons_append, cons.injEq, true_and] at heq
  exact h ha hb heq

theorem flatMap (h : Readable enc ok same) {l l' : List α} {s t : List β} (hl : ∀ a ∈ l, ok a) (hl' : ∀ a ∈ l', ok a)
    (hln : l.length = l'.length) (heq : l.flatMap enc ++ s = l'.flatMap enc ++ t) : l.Forall₂ same l' ∧ s = t := by
  induction l generalizing l' with
  | nil =>
    obtain rfl := eq_nil_of_length_eq_zero hln.symm
    exact ⟨.nil, heq⟩
  | cons a rest ih =>
    cases l' with
    | nil => cases hln
    | cons b rest' =>
      rw [forall_mem_cons] at hl hl'
      simp only [flatMap_cons, append_assoc] at heq
      obtain ⟨ha, heq⟩ := h hl.1 hl'.1 heq
      obtain ⟨hr, heq⟩ := ih hl.2 hl'.2 (Nat.succ.inj hln) heq
      exact ⟨.cons ha hr, heq⟩

theorem counted {count : Nat → List β} {bound : Nat} (hc : Readable count (· < bound) Eq) (h : Readable enc ok same) :
    Readable (fun l => count l.length ++ l.flatMap enc) (fun l => l.length < bound ∧ ∀ a ∈ l, ok a)
      (List.Forall₂ same) := by
  intro l l' s t hl hl' heq
  simp only [append_assoc] at heq
  obtain ⟨hln, heq⟩ := hc hl.1 hl'.1 heq
  exact h.flatMap hl.2 hl'.2 hln heq

/-- A value that may be missing: each case has a tag. -/
theorem option {none' some' : β} (hne : none' ≠ some') (h : Readable enc ok same) :
    Readable (fun o : Option α => o.elim [none'] fun a => some' :: enc a) (fun o => ∀ a ∈ o, ok a) (Option.Rel same) := by
  intro o o' s t ho ho' heq
  cases o with
  | none =>
    cases o' with
    | none => exact ⟨.none, (cons.inj heq).2⟩
    | some b => exact absurd (cons.inj heq).1 hne
  | some a =>
    cases o' with
    | none => exact absurd (cons.inj heq).1.symm hne
    | some b =>
      obtain ⟨ha, hr⟩ := h (ho a rfl) (ho' b rfl) (cons.inj heq).2
      exact ⟨.some ha, hr⟩

end Readable

/-- The last `w` bytes of the number, the highest first. -/
def bigEndian : Nat → Nat → List UInt8
  | 0, _ => []
  | w + 1, n => UInt8.ofNat (n / 256 ^ w) :: bigEndian w n

variable (w : Nat)

@[simp] theorem length_bigEndian (n : Nat) : (bigEndian w n).length = w := by
  induction w with
  | zero => rfl
  | succ w ih => rw [bigEndian, length_cons, ih]

theorem mod_eq_of_bigEndian {w m n : Nat} (h : bigEndian w m = bigEndian w n) : m % 256 ^ w = n % 256 ^ w := by
  induction w with
  | zero => simp [Nat.mod_one]
  | succ w ih =>
    obtain ⟨hh, hl⟩ := cons.inj h
    have hh : m / 256 ^ w % 256 = n / 256 ^ w % 256 := congrArg UInt8.toNat hh
    rw [pow_succ, Nat.mod_mul, Nat.mod_mul, ih hl, hh]

theorem readable_bigEndian : Readable (bigEndian w) (· < 256 ^ w) Eq := by
  refine .of_length w (length_bigEndian w) fun m n hm hn h => ?_
  rw [← Nat.mod_eq_of_lt hm, ← Nat.mod_eq_of_lt hn]
  exact mod_eq_of_bigEndian h

end Zeroship.Base

import Zeroship.Base.Lists

/-! Computations that may fail: what a success says about the steps before it. -/
namespace Zeroship.Base
open List

variable {ε α β : Type} {l : List α} {l' : List β} {b : β} {a : α} {b' : β}

theorem bind_ok {x : Except ε α} {f : α → Except ε β} : (x >>= f) = .ok b ↔ ∃ a, x = .ok a ∧ f a = .ok b := by
  cases x with
  | ok a => exact ⟨fun h => ⟨a, rfl, h⟩, fun ⟨_, ha, h⟩ => Except.ok.inj ha ▸ h⟩
  | error e => exact ⟨(fun h => by cases h), fun ⟨_, ha, _⟩ => by cases ha⟩

theorem seq_ok {x : Except ε Unit} {f : Unit → Except ε β} : (x >>= f) = .ok b ↔ x = .ok () ∧ f () = .ok b := by
  rw [bind_ok]
  exact ⟨fun ⟨_, hx, hf⟩ => ⟨hx, hf⟩, fun ⟨hx, hf⟩ => ⟨(), hx, hf⟩⟩

theorem pure_ok {b : α} : (pure a : Except ε α) = .ok b ↔ a = b :=
  ⟨Except.ok.inj, congrArg _⟩

/-- A check: the error if the condition fails. -/
def demand (p : Prop) [Decidable p] (e : ε) : Except ε Unit := if p then .ok () else .error e

@[simp] theorem demand_ok {p : Prop} [Decidable p] {e : ε} {u : Unit} : demand p e = .ok u ↔ p := by
  unfold demand
  split <;> simp_all

theorem forM_ok {f : α → Except ε Unit} : forM l f = .ok () ↔ ∀ a ∈ l, f a = .ok () := by
  induction l with
  | nil => exact ⟨fun _ => by simp, fun _ => rfl⟩
  | cons a rest ih =>
    rw [forM_cons, bind_ok, forall_mem_cons]
    exact ⟨fun ⟨_, ha, hr⟩ => ⟨ha, ih.mp hr⟩, fun ⟨ha, hr⟩ => ⟨_, ha, ih.mpr hr⟩⟩

/-- A check over a list fails as it does for one of the elements. -/
theorem forM_error {f : α → Except ε Unit} {e : ε} (h : forM l f = .error e) : ∃ a ∈ l, f a = .error e := by
  induction l with
  | nil => cases h
  | cons a rest ih =>
    rw [forM_cons] at h
    cases ha : f a with
    | error e' =>
      rw [ha] at h
      cases h
      exact ⟨a, mem_cons_self, ha⟩
    | ok _ =>
      rw [ha] at h
      obtain ⟨b, hb, hf⟩ := ih h
      exact ⟨b, mem_cons_of_mem _ hb, hf⟩

/-- Whatever error a call ends with has the property. -/
def Raises (P : ε → Prop) (x : Except ε α) : Prop := ∀ e, x = .error e → P e

theorem Raises.pure {P : ε → Prop} (a : α) : Raises P (Pure.pure a) := nofun

theorem Raises.throw {P : ε → Prop} {e : ε} (h : P e) : Raises P (MonadExcept.throw e : Except ε α) := by
  rintro _ ⟨⟩
  exact h

theorem Raises.bind {P : ε → Prop} {x : Except ε α} {f : α → Except ε β} (hx : Raises P x) (hf : ∀ a, Raises P (f a)) :
    Raises P (x >>= f) := by
  intro e h
  cases x with
  | error e' =>
    cases h
    exact hx _ rfl
  | ok a => exact hf a e h

theorem Raises.ite {P : ε → Prop} {x y : Except ε α} {c : Prop} [Decidable c] (hx : Raises P x) (hy : Raises P y) :
    Raises P (if c then x else y) := by
  split
  · exact hx
  · exact hy

/-- A check in a sequence. -/
theorem Raises.unless {P : ε → Prop} {c : Prop} [Decidable c] {e : ε} {f : Unit → Except ε α} (h : P e)
    (hf : ∀ u, Raises P (f u)) : Raises P (if c then MonadExcept.throw e >>= f else f ()) :=
  .ite (.bind (.throw h) hf) (hf ())

theorem Raises.forM {P : ε → Prop} {f : α → Except ε Unit} (h : ∀ a, Raises P (f a)) : Raises P (forM l f) := by
  intro e he
  obtain ⟨a, -, ha⟩ := forM_error he
  exact h a e ha

theorem Raises.foldlM {P : ε → Prop} {f : β → α → Except ε β} (h : ∀ b a, Raises P (f b a)) (b : β) :
    Raises P (l.foldlM f b) := by
  induction l generalizing b with
  | nil => exact .pure b
  | cons a rest ih => exact .bind (h b a) ih

theorem mapM_ok {f : α → Except ε β} : l.mapM f = .ok l' ↔ List.Forall₂ (fun a b => f a = .ok b) l l' := by
  induction l generalizing l' with
  | nil => rw [mapM_nil, pure_ok, forall₂_nil_left_iff, eq_comm]
  | cons a rest ih =>
    rw [mapM_cons, bind_ok, forall₂_cons_left_iff]
    refine exists_congr fun b => ?_
    simp only [bind_ok, pure_ok, ih]
    constructor
    · rintro ⟨hb, tail, ht, rfl⟩
      exact ⟨tail, hb, ht, rfl⟩
    · rintro ⟨tail, hb, ht, rfl⟩
      exact ⟨hb, tail, ht, rfl⟩

theorem mapM_some {f : α → Option β} : l.mapM f = some l' ↔ List.Forall₂ (fun a b => f a = some b) l l' := by
  induction l generalizing l' with
  | nil => simp [eq_comm]
  | cons a rest ih =>
    simp only [mapM_cons, Option.bind_eq_bind, Option.bind_eq_some_iff, forall₂_cons_left_iff]
    refine exists_congr fun b => ?_
    constructor
    · rintro ⟨hb, tail, ht, heq⟩
      exact ⟨tail, hb, ih.mp ht, (Option.some.inj heq).symm⟩
    · rintro ⟨tail, hb, ht, rfl⟩
      exact ⟨hb, tail, ih.mpr ht, rfl⟩

theorem mapM_eq_some_map {f : α → Option β} {g : α → β} (h : ∀ a ∈ l, f a = some (g a)) : l.mapM f = some (l.map g) := by
  rw [mapM_some]
  induction l with
  | nil => exact .nil
  | cons a rest ih =>
    rw [forall_mem_cons] at h
    exact .cons h.1 (ih h.2)

theorem mem_of_mapM {f : α → Except ε β} (h : l.mapM f = .ok l') (hb : b ∈ l') : ∃ a ∈ l, f a = .ok b :=
  left_of_forall₂ (mapM_ok.mp h) hb

theorem exists_of_mapM {f : α → Except ε β} (h : l.mapM f = .ok l') (ha : a ∈ l) : ∃ b ∈ l', f a = .ok b :=
  right_of_forall₂ (mapM_ok.mp h) ha

variable (I : β → Prop)

theorem foldlM_invariant {f : β → α → Except ε β} (h : l.foldlM f b = .ok b') (init : I b)
    (keep : ∀ {b b' : β} {a : α}, a ∈ l → I b → f b a = .ok b' → I b') : I b' := by
  induction l generalizing b with
  | nil =>
    rw [foldlM_nil, pure_ok] at h
    exact h ▸ init
  | cons a rest ih =>
    rw [foldlM_cons, bind_ok] at h
    obtain ⟨c, hc, hr⟩ := h
    exact ih hr (keep (.head _) init hc) fun ha => keep (.tail _ ha)

theorem foldlM_total {f : β → α → Except ε β} (h : ∀ a ∈ l, ∀ b, ∃ b', f b a = .ok b') (b : β) :
    ∃ b', l.foldlM f b = .ok b' := by
  induction l generalizing b with
  | nil => exact ⟨b, rfl⟩
  | cons a rest ih =>
    rw [forall_mem_cons] at h
    obtain ⟨c, hc⟩ := h.1 b
    obtain ⟨b', hb'⟩ := ih h.2 c
    exact ⟨b', by rw [foldlM_cons]; exact bind_ok.mpr ⟨c, hc, hb'⟩⟩

theorem mapM_total {f : α → Except ε β} (h : ∀ a ∈ l, ∃ b, f a = .ok b) : ∃ l', l.mapM f = .ok l' := by
  induction l with
  | nil => exact ⟨[], rfl⟩
  | cons a rest ih =>
    rw [forall_mem_cons] at h
    obtain ⟨b, hb⟩ := h.1
    obtain ⟨l', hl'⟩ := ih h.2
    exact ⟨b :: l', mapM_ok.mpr (.cons hb (mapM_ok.mp hl'))⟩

/-- A fold ends with what the step of one element establishes and every step keeps. -/
theorem foldlM_reaches {f : β → α → Except ε β} (h : l.foldlM f b = .ok b') (ha : a ∈ l)
    (establish : ∀ {b b' : β}, f b a = .ok b' → I b') (keep : ∀ {b b' : β} {a : α}, I b → f b a = .ok b' → I b') : I b' := by
  induction l generalizing b with
  | nil => simp at ha
  | cons x rest ih =>
    rw [foldlM_cons, bind_ok] at h
    obtain ⟨c, hc, hr⟩ := h
    rcases mem_cons.mp ha with rfl | ha
    · exact foldlM_invariant I hr (establish hc) fun _ => keep
    · exact ih hr ha

section
variable {σ : Type} {f : σ → α → σ × Option ε}

/-- Takes the elements one after the other and stops at the first that fails, with what was
done by then. -/
def untilError (f : σ → α → σ × Option ε) (s : σ) : List α → σ × Option ε
  | [] => (s, none)
  | a :: rest => match f s a with
    | (s', none) => untilError f s' rest
    | (s', some e) => (s', some e)

/-- What each element establishes over those before it holds of all of them at the end; what a
failing one leaves holds if they stop early. -/
theorem untilError_invariant (I : List α → σ → Prop) (J : σ → Prop) {l : List α} {s : σ} (init : I [] s)
    (step : ∀ {before : List α} {a : α} {after : List α} {s s' : σ}, l = before ++ a :: after → I before s →
      f s a = (s', none) → I (before ++ [a]) s')
    (fail : ∀ {before : List α} {a : α} {after : List α} {s s' : σ} {e : ε}, l = before ++ a :: after → I before s →
      f s a = (s', some e) → J s') {s' : σ} {failed : Option ε} (h : untilError f s l = (s', failed)) :
    (failed = none ∧ I l s') ∨ (failed.isSome ∧ J s') := by
  suffices ha : ∀ (rest before : List α) (s : σ), l = before ++ rest → I before s →
      untilError f s rest = (s', failed) → (failed = none ∧ I l s') ∨ (failed.isSome ∧ J s') from
    ha l [] s rfl init h
  intro rest
  induction rest with
  | nil =>
    intro before s hl hI hr
    cases hr
    rw [hl, append_nil]
    exact .inl ⟨rfl, hI⟩
  | cons a rest ih =>
    intro before s hl hI hr
    rw [untilError] at hr
    split at hr
    · next s₁ hs =>
      exact ih (before ++ [a]) s₁ (by rw [hl, append_assoc, singleton_append]) (step hl hI hs) hr
    · next s₁ e hs =>
      cases hr
      exact .inr ⟨rfl, fail hl hI hs⟩

/-- The error they stop with is that of an element. -/
theorem untilError_error {l : List α} (E : ε → Prop) (fail : ∀ {s s' : σ} {a : α} {e : ε}, f s a = (s', some e) → E e)
    {s s' : σ} {e : ε} (h : untilError f s l = (s', some e)) : E e := by
  induction l generalizing s with
  | nil => cases h
  | cons a rest ih =>
    rw [untilError] at h
    split at h
    · exact ih h
    · next hs =>
      cases h
      exact fail hs

/-- What every element keeps is kept, whether they stop early or not. -/
theorem untilError_keeps {l : List α} (I : σ → Prop) (keep : ∀ a ∈ l, ∀ s, I s → I (f s a).1) {s : σ} (h : I s) :
    I (untilError f s l).1 := by
  induction l generalizing s with
  | nil => exact h
  | cons a rest ih =>
    have hs := keep a mem_cons_self s h
    rw [untilError]
    split <;> rename_i heq <;> rw [heq] at hs
    · exact ih (fun b hb => keep b (mem_cons_of_mem _ hb)) hs
    · exact hs

end

end Zeroship.Base

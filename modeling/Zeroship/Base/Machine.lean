import Mathlib.Data.List.Basic

/-! Machines that answer, and their runs.

A machine takes an input in a state and either answers with outputs in a new
state or dies (`none`). A run is taken under an environment: a predicate on what
has happened so far, the state reached and the input offered next. The history of
a run keeps every step with the states around it, oldest first.

`Run.invariant` is the one induction; `Run.holds`, `Run.stable` and `Run.at_step`
are the shapes it is used in. -/
namespace Zeroship.Base
open List

structure Machine (σ ι ο : Type) where
  step : σ → ι → Option (σ × List ο)

/-- One step taken. -/
structure Step (σ ι ο : Type) where
  before : σ
  input : ι
  outputs : List ο
  after : σ

/-- The steps of a run, oldest first. -/
abbrev History (σ ι ο : Type) := List (Step σ ι ο)

namespace History
variable {σ ι ο : Type}

/-- Everything the machine answered, in order. -/
def outputs (h : History σ ι ο) : List ο := h.flatMap Step.outputs

@[simp] theorem outputs_nil : outputs ([] : History σ ι ο) = [] := rfl

@[simp] theorem outputs_append (a b : History σ ι ο) : outputs (a ++ b) = outputs a ++ outputs b :=
  flatMap_append

@[simp] theorem outputs_cons (t : Step σ ι ο) (h : History σ ι ο) : outputs (t :: h) = t.outputs ++ outputs h := rfl

theorem outputs_snoc (h : History σ ι ο) (t : Step σ ι ο) : outputs (h ++ [t]) = outputs h ++ t.outputs := by
  simp

theorem mem_outputs_snoc {h : History σ ι ο} {t : Step σ ι ο} {o : ο} :
    o ∈ outputs (h ++ [t]) ↔ o ∈ outputs h ∨ o ∈ t.outputs := by rw [outputs_snoc, mem_append]

theorem mem_outputs {h : History σ ι ο} {o : ο} : o ∈ h.outputs ↔ ∃ t ∈ h, o ∈ t.outputs :=
  mem_flatMap

end History

/-- What the surroundings of a machine may offer it. -/
abbrev Environment (σ ι ο : Type) := History σ ι ο → σ → ι → Prop

/-- The environment that may offer anything. -/
def Environment.anything {σ ι ο : Type} : Environment σ ι ο := fun _ _ _ => True

namespace Machine
variable {σ ι ο : Type} {M : Machine σ ι ο} {env env' : Environment σ ι ο} {s₀ s : σ}
  {h h₁ h₂ : History σ ι ο} {t : Step σ ι ο} {rest : History σ ι ο} {is : List ι}

/-- The runs from `s₀`: their history and the state they reach. -/
inductive Run (M : Machine σ ι ο) (env : Environment σ ι ο) (s₀ : σ) : History σ ι ο → σ → Prop
  | start : Run M env s₀ [] s₀
  | step {h : History σ ι ο} {s s' : σ} {i : ι} {os : List ο} (run : Run M env s₀ h s)
      (offered : env h s i) (taken : M.step s i = some (s', os)) :
      Run M env s₀ (h ++ [⟨s, i, os, s'⟩]) s'

/-- A property of history and state that one step keeps holds of every run. -/
theorem Run.invariant (I : History σ ι ο → σ → Prop) (init : I [] s₀)
    (keep : ∀ {h : History σ ι ο} {s s' : σ} {i : ι} {os : List ο}, Run M env s₀ h s → I h s →
      env h s i → M.step s i = some (s', os) → I (h ++ [⟨s, i, os, s'⟩]) s') (run : Run M env s₀ h s) : I h s := by
  induction run with
  | start => exact init
  | step run offered taken ih => exact keep run ih offered taken

/-- The same for a property of the state alone. -/
theorem Run.holds (I : σ → Prop) (init : I s₀)
    (keep : ∀ {s s' : σ} {i : ι} {os : List ο}, I s → M.step s i = some (s', os) → I s')
    (run : Run M env s₀ h s) : I s :=
  run.invariant (fun _ s => I s) init fun _ hi _ ht => keep hi ht

theorem Run.weaken (hw : ∀ h s i, env h s i → env' h s i) (run : Run M env s₀ h s) : Run M env' s₀ h s := by
  induction run with
  | start => exact .start
  | step _ offered taken ih => exact .step ih (hw _ _ _ offered) taken

/-- The part of a run that comes after one of its steps, step by step. -/
theorem Run.after {C : History σ ι ο → σ → Prop} (run : Run M env s₀ h s) (hh : h = h₁ ++ t :: h₂)
    (first : Run M env s₀ h₁ t.before → env h₁ t.before t.input →
      M.step t.before t.input = some (t.after, t.outputs) → C [] t.after)
    (keep : ∀ {h₃ : History σ ι ο} {s s' : σ} {i : ι} {os : List ο}, Run M env s₀ (h₁ ++ t :: h₃) s → C h₃ s →
      M.step s i = some (s', os) → C (h₃ ++ [⟨s, i, os, s'⟩]) s') : C h₂ s := by
  induction run generalizing h₂ with
  | start => simp at hh
  | @step h s s' i os run offered taken ih =>
    rcases eq_nil_or_concat h₂ with rfl | ⟨h₃, u, rfl⟩
    · obtain ⟨rfl, ht⟩ := append_inj' hh rfl
      simp only [cons.injEq, and_true] at ht
      subst ht
      exact first run offered taken
    · rw [concat_eq_append, ← cons_append, ← append_assoc] at hh
      obtain ⟨rfl, hu⟩ := append_inj' hh rfl
      simp only [cons.injEq, and_true] at hu
      subst hu
      rw [concat_eq_append]
      exact keep run (ih rfl) taken

/-- Every step of a run was offered in, and taken from, the state an earlier part
of the run reached. -/
theorem Run.at_step (run : Run M env s₀ h s) (hh : h = h₁ ++ t :: h₂) :
    Run M env s₀ h₁ t.before ∧ env h₁ t.before t.input ∧ M.step t.before t.input = some (t.after, t.outputs) :=
  run.after (C := fun _ _ => _) hh (fun run offered taken => ⟨run, offered, taken⟩) fun _ hs _ => hs

theorem Run.through (run : Run M env s₀ h s) (hh : h = h₁ ++ t :: h₂) : Run M env s₀ (h₁ ++ [t]) t.after := by
  obtain ⟨hr, ho, ht⟩ := run.at_step hh
  exact .step hr ho ht

/-- Once a property that every step keeps holds, every later step starts and ends
in it, and so does the run. -/
theorem Run.stable (Q : σ → Prop) (keep : ∀ {s s' : σ} {i : ι} {os : List ο}, Q s → M.step s i = some (s', os) → Q s')
    (run : Run M env s₀ h s) (hh : h = h₁ ++ t :: h₂) (hq : Q t.after) : Q s ∧ ∀ u ∈ h₂, Q u.before ∧ Q u.after := by
  refine run.after (C := fun h₂ s => Q s ∧ ∀ u ∈ h₂, Q u.before ∧ Q u.after) hh ?_ ?_
  · exact fun _ _ _ => ⟨hq, by simp⟩
  · intro h₃ s s' i os _ ⟨hs, hst⟩ taken
    refine ⟨keep hs taken, forall_mem_append.mpr ⟨hst, ?_⟩⟩
    exact forall_mem_singleton.mpr ⟨hs, keep hs taken⟩

/-- The steps a machine takes on a list of inputs, up to the one it dies on. -/
def trace (M : Machine σ ι ο) (s : σ) : List ι → History σ ι ο
  | [] => []
  | i :: rest => match M.step s i with
    | some (s', os) => ⟨s, i, os, s'⟩ :: M.trace s' rest
    | none => []

/-- The state they lead to. -/
def reach (M : Machine σ ι ο) (s : σ) : List ι → σ
  | [] => s
  | i :: rest => match M.step s i with
    | some (s', _) => M.reach s' rest
    | none => s

/-- Every one of these steps, coming after `h`, was offered by the environment. -/
def Offered (env : Environment σ ι ο) : History σ ι ο → History σ ι ο → Prop
  | _, [] => True
  | h, t :: rest => env h t.before t.input ∧ Offered env (h ++ [t]) rest

instance decidableOffered (env : Environment σ ι ο) [∀ h s i, Decidable (env h s i)] :
    ∀ h rest : History σ ι ο, Decidable (Offered env h rest)
  | _, [] => .isTrue trivial
  | h, t :: rest =>
    have := decidableOffered env (h ++ [t]) rest
    inferInstanceAs (Decidable (env h t.before t.input ∧ Offered env (h ++ [t]) rest))

theorem offered_anything (h rest : History σ ι ο) : Offered .anything h rest := by
  induction rest generalizing h with
  | nil => trivial
  | cons t rest ih => exact ⟨trivial, ih _⟩

theorem offered_and {P : ι → Prop} {h : History σ ι ο} (ho : Offered env h rest) (hp : ∀ t ∈ rest, P t.input) :
    Offered (fun h s i => env h s i ∧ P i) h rest := by
  induction rest generalizing h with
  | nil => trivial
  | cons t rest ih =>
    rw [forall_mem_cons] at hp
    exact ⟨⟨ho.1, hp.1⟩, ih ho.2 hp.2⟩

theorem offered_snoc {h : History σ ι ο} :
    Offered env h (rest ++ [t]) ↔ Offered env h rest ∧ env (h ++ rest) t.before t.input := by
  induction rest generalizing h with
  | nil => simp [Offered]
  | cons u rest ih =>
    simp only [cons_append, Offered, ih, and_assoc, append_assoc, nil_append]

/-- A run whose steps an environment offers is a run under it. -/
theorem Run.restrict (run : Run M env' s₀ h s) (ho : Offered env [] h) : Run M env s₀ h s := by
  induction run with
  | start => exact .start
  | step _ _ taken ih =>
    obtain ⟨ho, hl⟩ := offered_snoc.mp ho
    exact .step (ih ho) hl taken

theorem input_of_trace {s : σ} (ht : t ∈ M.trace s is) : t.input ∈ is := by
  induction is generalizing s with
  | nil => cases ht
  | cons i rest ih =>
    cases hs : M.step s i with
    | none => simp [trace, hs] at ht
    | some out =>
      simp only [trace, hs, mem_cons] at ht
      rcases ht with rfl | ht
      · exact mem_cons_self
      · exact mem_cons_of_mem _ (ih ht)

/-- What a list of inputs does extends a run, when the environment may offer it. -/
theorem Run.extend (run : Run M env s₀ h s) (ho : Offered env h (M.trace s is)) :
    Run M env s₀ (h ++ M.trace s is) (M.reach s is) := by
  induction is generalizing h s with
  | nil => simpa [trace, reach] using run
  | cons i rest ih =>
    cases hs : M.step s i with
    | none => simpa [trace, reach, hs] using run
    | some out =>
      simp only [trace, hs, Offered] at ho
      have hn := ih (run.step ho.1 hs) ho.2
      simpa [trace, reach, hs] using hn

theorem Run.of_trace (ho : Offered env [] (M.trace s₀ is)) : Run M env s₀ (M.trace s₀ is) (M.reach s₀ is) :=
  Run.extend .start ho

end Machine

end Zeroship.Base

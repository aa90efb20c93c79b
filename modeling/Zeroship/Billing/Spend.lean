import Zeroship.Gateway.Throttle

/-! States of spend against a limit.

A state is entered at its threshold and left only when the share of the limit falls below that
threshold by more than the deadband: in a window as wide as the deadband the engine relaxes at
most once. -/
namespace Zeroship.Billing
open List
open Gateway (SpendState)

/-- Thresholds in percent of the limit, and the deadband of a recovery. -/
structure SpendThresholds where
  (warnPct degradePct blockPct deadbandPct : Nat)

def severity : SpendState → Nat
  | .allow => 0
  | .warn => 1
  | .degrade => 2
  | .block => 3

/-- The share of the limit in percent: an app without a limit is over it at any spend. -/
def spendPct (spendCents limitCents : Nat) : Nat :=
  if limitCents = 0 then 2 ^ 64 - 1 else min (spendCents * 100 / limitCents) (2 ^ 64 - 1)

namespace SpendThresholds
variable (t : SpendThresholds)

def entryThreshold : SpendState → Nat
  | .allow => 0
  | .warn => t.warnPct
  | .degrade => t.degradePct
  | .block => t.blockPct

/-- The state the thresholds give, whatever the state before. -/
def rawState (pct : Nat) : SpendState :=
  if t.blockPct ≤ pct then .block
  else if t.degradePct ≤ pct then .degrade
  else if t.warnPct ≤ pct then .warn
  else .allow

def deriveState (spendCents limitCents : Nat) (prev : SpendState) (limitChanged : Bool) : SpendState :=
  let pct := spendPct spendCents limitCents
  let raw := t.rawState pct
  if severity prev ≤ severity raw then raw
  else if limitChanged then raw
  else if pct < t.entryThreshold prev - t.deadbandPct then raw
  else prev

/-- The states of a sequence of evaluations against one limit. -/
def evaluate (limitCents : Nat) : SpendState → List Nat → List SpendState
  | _, [] => []
  | prev, spend :: spends =>
    let next := t.deriveState spend limitCents prev false
    next :: evaluate limitCents next spends

end SpendThresholds

/-- How often a sequence of states steps down, from the state before it. -/
def relaxations : SpendState → List SpendState → Nat
  | _, [] => 0
  | prev, next :: states => (if severity next < severity prev then 1 else 0) + relaxations next states

section
variable {t : SpendThresholds} {a spend limit : Nat} {s : SpendState}

theorem entryThreshold_rawState (t : SpendThresholds) (pct : Nat) : t.entryThreshold (t.rawState pct) ≤ pct := by
  unfold SpendThresholds.rawState
  split_ifs with hb hd hw
  · exact hb
  · exact hd
  · exact hw
  · exact Nat.zero_le pct

/-- One evaluation gives the state of the thresholds, or holds a more severe one. -/
theorem deriveState_cases (t : SpendThresholds) (spend limit : Nat) (s : SpendState) :
    t.deriveState spend limit s false = t.rawState (spendPct spend limit) ∧
        (severity s ≤ severity (t.rawState (spendPct spend limit)) ∨
          spendPct spend limit < t.entryThreshold s - t.deadbandPct) ∨ t.deriveState spend limit s false = s ∧
        severity (t.rawState (spendPct spend limit)) < severity s := by
  unfold SpendThresholds.deriveState
  by_cases hu : severity s ≤ severity (t.rawState (spendPct spend limit))
  · simp [hu]
  · by_cases hl : spendPct spend limit < t.entryThreshold s - t.deadbandPct
    · simp [hu, hl]
    · exact .inr ⟨by simp [hu, hl], not_le.mp hu⟩

theorem severity_rawState_le (t : SpendThresholds) (spend limit : Nat) (s : SpendState) :
    severity (t.rawState (spendPct spend limit)) ≤ severity (t.deriveState spend limit s false) := by
  obtain ⟨hr, -⟩ | ⟨ho, hlt⟩ := deriveState_cases t spend limit s
  · exact hr.symm ▸ le_rfl
  · exact ho.symm ▸ hlt.le

/-- The window `[a, a + deadband]` reaches the threshold the state is entered at. -/
def Settled (t : SpendThresholds) (a : Nat) (s : SpendState) : Prop :=
  t.entryThreshold s ≤ a + t.deadbandPct

def InWindow (t : SpendThresholds) (a limit spend : Nat) : Prop :=
  a ≤ spendPct spend limit ∧ spendPct spend limit ≤ a + t.deadbandPct

/-- An evaluation in the window enters a state of the window, or holds the one before. -/
theorem deriveState_settled (hw : InWindow t a limit spend) :
    Settled t a (t.deriveState spend limit s false) ∨ t.deriveState spend limit s false = s := by
  obtain ⟨hr, -⟩ | ⟨ho, -⟩ := deriveState_cases t spend limit s
  · left
    rw [hr]
    exact (entryThreshold_rawState t _).trans hw.2
  · exact .inr ho

theorem Settled.step (hs : Settled t a s) (hw : InWindow t a limit spend) :
    Settled t a (t.deriveState spend limit s false) ∧ severity s ≤ severity (t.deriveState spend limit s false) := by
  constructor
  · obtain hn | ho := deriveState_settled hw
    · exact hn
    · exact ho.symm ▸ hs
  · obtain ⟨hr, hu | hl⟩ | ⟨ho, -⟩ := deriveState_cases t spend limit s
    · exact hr.symm ▸ hu
    · -- a recovery needs a share below the window
      have ha := hw.1
      unfold Settled at hs
      omega
    · exact ho.symm ▸ le_rfl

/-- A settled state is never left downwards, and any state at most once: into a settled one. -/
theorem relaxations_evaluate {spends : List Nat} (hw : ∀ spend ∈ spends, InWindow t a limit spend) :
    (Settled t a s → relaxations s (t.evaluate limit s spends) = 0) ∧ relaxations s (t.evaluate limit s spends) ≤ 1 := by
  induction spends generalizing s with
  | nil => exact ⟨fun _ => rfl, Nat.zero_le 1⟩
  | cons spend spends ih =>
    have hf := hw spend mem_cons_self
    obtain ⟨hz, hon⟩ := ih (s := t.deriveState spend limit s false) fun spend h => hw spend (mem_cons_of_mem _ h)
    simp only [SpendThresholds.evaluate, relaxations]
    constructor
    · intro hs
      obtain ⟨hn, hu⟩ := hs.step hf
      rw [if_neg (Nat.not_lt.mpr hu), hz hn]
    · obtain hs | ho := deriveState_settled hf (s := s)
      · rw [hz hs]
        split_ifs <;> omega
      · simpa only [ho, lt_self_iff_false, if_false, Nat.zero_add] using hon

/-- Every state is at least as severe as the one the thresholds give for its evaluation. -/
theorem evaluate_severity (t : SpendThresholds) (limit : Nat) (s : SpendState) (spends : List Nat) :
    Forall₂ (fun spend next => severity (t.rawState (spendPct spend limit)) ≤ severity next)
      spends (t.evaluate limit s spends) := by
  induction spends generalizing s with
  | nil => exact .nil
  | cons spend spends ih => exact .cons (severity_rawState_le t spend limit s) (ih _)

end

/-- Evaluations whose shares stay in a window as wide as the deadband step down at most once,
from the state they found, and are never less severe than the thresholds ask. -/
theorem no_flapping (t : SpendThresholds) (limit a : Nat) (start : SpendState) (spends : List Nat)
    (hw : ∀ spend ∈ spends, InWindow t a limit spend) : relaxations start (t.evaluate limit start spends) ≤ 1 ∧
      Forall₂ (fun spend next => severity (t.rawState (spendPct spend limit)) ≤ severity next)
        spends (t.evaluate limit start spends) :=
  ⟨(relaxations_evaluate hw).2, evaluate_severity t limit start spends⟩

/-- A blocked app whose share hovers around the warning threshold recovers once. -/
theorem hovering_share_recovers_once :
    (SpendThresholds.mk 80 95 100 5).evaluate 1000 .block [780, 810, 790, 820, 770] =
        [.allow, .warn, .warn, .warn, .warn] ∧
      relaxations .block ((SpendThresholds.mk 80 95 100 5).evaluate 1000 .block [780, 810, 790, 820, 770]) ≤ 1 :=
  ⟨by decide, (no_flapping ⟨80, 95, 100, 5⟩ 1000 77 .block _ (by simp [InWindow, spendPct])).1⟩

section
variable {t : SpendThresholds} {spend spend' limit : Nat} {s : SpendState}

/-- The state is what the thresholds give, or a more severe one held in the deadband below where it
is entered. -/
def InBand (t : SpendThresholds) (limit spend : Nat) (s : SpendState) : Prop :=
  s = t.rawState (spendPct spend limit) ∨ severity (t.rawState (spendPct spend limit)) < severity s ∧
    t.entryThreshold s - t.deadbandPct ≤ spendPct spend limit ∧ spendPct spend limit < t.entryThreshold s

/-- A state above what the thresholds give is not yet entered. -/
theorem lt_entryThreshold {pct : Nat} (h : severity (t.rawState pct) < severity s) : pct < t.entryThreshold s := by
  unfold SpendThresholds.rawState at h
  cases s <;> simp only [SpendThresholds.entryThreshold] <;> split_ifs at h <;> simp_all [severity]

theorem deriveState_inBand (t : SpendThresholds) (limit spend : Nat) (s : SpendState) :
    InBand t limit spend (t.deriveState spend limit s false) := by
  obtain ⟨hr, -⟩ | ⟨ho, hlt⟩ := deriveState_cases t spend limit s
  · exact .inl hr
  rw [ho]
  refine .inr ⟨hlt, ?_, lt_entryThreshold hlt⟩
  by_contra hb
  have hr : t.deriveState spend limit s false = t.rawState (spendPct spend limit) := by
    rw [not_le] at hb
    simp [SpendThresholds.deriveState, hb]
  rw [ho] at hr
  exact hlt.ne (congrArg severity hr).symm

theorem severity_rawState_mono (t : SpendThresholds) {p p' : Nat} (h : p ≤ p') :
    severity (t.rawState p) ≤ severity (t.rawState p') := by
  unfold SpendThresholds.rawState
  split_ifs <;> simp only [severity] <;> omega

theorem spendPct_mono (h : spend ≤ spend') : spendPct spend limit ≤ spendPct spend' limit := by
  unfold spendPct
  split
  · exact le_rfl
  · exact min_le_min_right _ (Nat.div_le_div_right (Nat.mul_le_mul_right _ h))

/-- More spend never relaxes a state that is in its band. -/
theorem InBand.le_next (h : InBand t limit spend s) (hs : spend ≤ spend') :
    severity s ≤ severity (t.deriveState spend' limit s false) := by
  have hp : spendPct spend limit ≤ spendPct spend' limit := spendPct_mono hs
  obtain ⟨hr, hu | hl⟩ | ⟨ho, -⟩ := deriveState_cases t spend' limit s
  · exact hr.symm ▸ hu
  · rcases h with h | ⟨-, h, -⟩
    · rw [hr, h]
      exact severity_rawState_mono t hp
    · omega
  · exact ho.symm ▸ le_rfl

theorem InBand.ascending {spends : List Nat} (h : InBand t limit spend s) (hs : (spend :: spends).Pairwise (· ≤ ·)) :
    (s :: t.evaluate limit s spends).Pairwise (severity · ≤ severity ·) := by
  induction spends generalizing spend s with
  | nil => exact pairwise_singleton _ _
  | cons next rest ih =>
    obtain ⟨hle, hr⟩ := pairwise_cons.mp hs
    have hi := ih (deriveState_inBand t limit next s) hr
    have hn := h.le_next (hle next mem_cons_self)
    refine pairwise_cons.mpr ⟨forall_mem_cons.mpr ⟨hn, fun x hx => ?_⟩, hi⟩
    exact hn.trans ((pairwise_cons.mp hi).1 x hx)
end

/-- Against one limit, a state above what the thresholds give is held only in the deadband, and
while spend does not fall no state is relaxed. -/
theorem states_follow_spend (t : SpendThresholds) (limit : Nat) (start : SpendState) (spends : List Nat) :
    Forall₂ (InBand t limit) spends (t.evaluate limit start spends) ∧
      (spends.Pairwise (· ≤ ·) → (t.evaluate limit start spends).Pairwise (severity · ≤ severity ·)) := by
  constructor
  · induction spends generalizing start with
    | nil => exact .nil
    | cons spend spends ih => exact .cons (deriveState_inBand t limit spend start) (ih _)
  · intro hs
    cases spends with
    | nil => exact .nil
    | cons spend spends => exact (deriveState_inBand t limit spend start).ascending hs

end Zeroship.Billing

import Mathlib

/-! Proration of a period over the plans an app was on.

Each plan change opens a segment on its day, and a segment of no day is dropped, its usage going
to the segment before it. A change on the first day drops the segment that starts from nothing:
what was used before the change is then in no segment. The base fee of a segment is rounded on its
own, and the last segment of a plan takes what is left of the plan's share, if anything is. -/
namespace Zeroship.Billing.Proration
open List

/-- A billing period, with the days its calendar gives to the instants in it. -/
structure Period where
  (start finish : Int)
  dim : Nat
  day : Int → Nat
  dim_pos : 0 < dim
  day_mono : ∀ t t', start ≤ t → t ≤ t' → t' < finish → day t ≤ day t'

def Period.changeDayOfMonth (P : Period) (effectiveAt : Int) : Nat :=
  if effectiveAt < P.start then 1 else max 1 (min (P.day effectiveAt) P.dim)

variable {Plan Metric : Type}

structure PlanChange (Plan Metric : Type) where
  effectiveAt : Int
  toPlanId : Plan
  /-- Cumulative usage of the period; a metric that is absent reads 0. -/
  usageAtChange : Metric → Int

abbrev Changes (Plan Metric : Type) := List (PlanChange Plan Metric)

structure BoundaryRow (Plan Metric : Type) where
  planId : Plan
  startSnapshot : Metric → Int
  startDay : Nat

abbrev Rows (Plan Metric : Type) := List (BoundaryRow Plan Metric)

/-- The default, of a plan without a price, is free. -/
structure PlanPrice where
  baseFeeCents : UInt64 := 0
  includedUnits : UInt64 := 0
  fxPicoCentsPerUnit : Option UInt64 := none

structure BilledSegment (Plan Metric : Type) where
  planId : Plan
  usageDelta : Metric → Int
  (includedUnits baseFeeCents : Nat)
  fxPicoCentsPerUnit : Option UInt64
  (startDay endDay : Nat)

abbrev Segments (Plan Metric : Type) := List (BilledSegment Plan Metric)

def BilledSegment.days (s : BilledSegment Plan Metric) : Nat := s.endDay - s.startDay

def dayWeight (value num den : Nat) : Nat :=
  if den = 0 then 0 else min ((value * num + den / 2) / den) (2 ^ 64 - 1)

section
variable (P : Period) (totals : Metric → Int) (prices : Plan → PlanPrice)

/-- A segment ends with the next one's start, or with the period. -/
def endDay : Rows Plan Metric → Nat
  | [] => P.dim + 1
  | next :: _ => next.startDay

def endSnapshot : Rows Plan Metric → Metric → Int
  | [] => totals
  | next :: _ => next.startSnapshot

/-- The boundaries of the segments that have a day. -/
def keep : Rows Plan Metric → Rows Plan Metric
  | [] => []
  | b :: rest => if b.startDay < endDay P rest then b :: keep rest else keep rest

def billSegments : Rows Plan Metric → Segments Plan Metric
  | [] => []
  | b :: rest =>
    let price := prices b.planId
    let days := endDay P rest - b.startDay
    { planId := b.planId
      usageDelta := fun m => max 0 (endSnapshot totals rest m - b.startSnapshot m)
      includedUnits := dayWeight price.includedUnits.toNat days P.dim
      baseFeeCents := dayWeight price.baseFeeCents.toNat days P.dim
      fxPicoCentsPerUnit := price.fxPicoCentsPerUnit
      startDay := b.startDay
      endDay := endDay P rest } :: billSegments rest

variable [DecidableEq Plan]

/-- What the last segment of a plan takes: what the others leave of the plan's share of its fee. -/
def lastFee (segments : Segments Plan Metric) (p : Plan) : Nat :=
  let ofPlan := segments.filter (·.planId = p)
  let target := dayWeight (prices p).baseFeeCents.toNat (ofPlan.map (·.days)).sum P.dim
  -- the sum of a 64-bit accumulator
  let others := (ofPlan.dropLast.map (·.baseFeeCents)).sum % 2 ^ 64
  target - others

/-- The turn of a plan reads its own segments and sets the last of them, so that the turns of all
plans are one pass. A plan without a fee has no turn. -/
def settle (segments : Segments Plan Metric) : Segments Plan Metric → Segments Plan Metric
  | [] => []
  | s :: rest =>
    (if (prices s.planId).baseFeeCents.toNat = 0 ∨ s.planId ∈ rest.map (·.planId) then s
      else { s with baseFeeCents := lastFee P prices segments s.planId }) :: settle segments rest

def finalizeBoundaries (boundaries : Rows Plan Metric) : Segments Plan Metric :=
  let kept := keep P boundaries
  let segments := billSegments P totals prices (if kept = [] then boundaries.take 1 else kept)
  settle P prices segments segments

/-- One boundary per change; the last opens the plan the app is on. -/
def changeRows (currentPlanId : Plan) : Changes Plan Metric → Rows Plan Metric
  | [] => []
  | c :: rest =>
    { planId := if rest = [] then currentPlanId else c.toPlanId
      startSnapshot := c.usageAtChange
      startDay := P.changeDayOfMonth c.effectiveAt } :: changeRows currentPlanId rest

variable (priorPlanId : Plan) (changes : Changes Plan Metric) (currentPlanId : Plan)

/-- The first segment starts from no usage. -/
def boundaries : Rows Plan Metric :=
  ⟨if changes = [] then currentPlanId else priorPlanId, 0, 1⟩ :: changeRows P currentPlanId changes

def buildSegmentsWithPrior :
    Segments Plan Metric :=
  finalizeBoundaries P totals prices (boundaries P priorPlanId changes currentPlanId)

end

section
variable {P : Period} {b : BoundaryRow Plan Metric} {rows : Rows Plan Metric}

/-- Days are days of the period and do not go back. -/
def Ordered (P : Period) : Rows Plan Metric → Prop
  | [] => True
  | b :: rest => b.startDay ≤ P.dim ∧ b.startDay ≤ endDay P rest ∧ Ordered P rest

theorem endDay_keep (h : Ordered P rows) : endDay P (keep P rows) = endDay P rows := by
  induction rows with
  | nil => rfl
  | cons b rows ih =>
    rw [keep]
    split_ifs with hlt
    · rfl
    · rw [ih h.2.2]
      exact le_antisymm (not_lt.mp hlt) h.2.1

/-- Spans that follow each other from one day to another, none of them empty. -/
def Partition (finish : Nat) : Nat → List (Nat × Nat) → Prop
  | start, [] => start = finish
  | start, span :: spans => span.1 = start ∧ start < span.2 ∧ Partition finish span.2 spans

def BilledSegment.span (s : BilledSegment Plan Metric) : Nat × Nat := (s.startDay, s.endDay)

theorem billSegments_partition (totals : Metric → Int) (prices : Plan → PlanPrice) (h : Ordered P rows) :
    Partition (P.dim + 1) (endDay P rows) ((billSegments P totals prices (keep P rows)).map (·.span)) := by
  induction rows with
  | nil => rfl
  | cons b rows ih =>
    have hr := ih h.2.2
    rw [keep]
    split_ifs with hlt
    · rw [← endDay_keep h.2.2] at hlt hr
      exact ⟨rfl, hlt, hr⟩
    · rwa [le_antisymm (not_lt.mp hlt) h.2.1] at hr

theorem keep_ne_nil (h : Ordered P (b :: rows)) : keep P (b :: rows) ≠ [] := by
  intro hn
  have hp := billSegments_partition 0 (fun _ => {}) h
  rw [hn] at hp
  have hle := h.1
  have heq : b.startDay = P.dim + 1 := hp
  omega

theorem baseFee_billSegments (P : Period) (totals : Metric → Int) (prices : Plan → PlanPrice)
    (rows : Rows Plan Metric) : ∀ s ∈ billSegments P totals prices rows,
      s.baseFeeCents = dayWeight (prices s.planId).baseFeeCents.toNat s.days P.dim := by
  induction rows with
  | nil => exact fun _ h => absurd h not_mem_nil
  | cons b rows ih => exact forall_mem_cons.mpr ⟨rfl, ih⟩

/-- The usage of the segments is what the period added to the first snapshot. -/
theorem billSegments_usage (P : Period) {totals : Metric → Int} (prices : Plan → PlanPrice)
    (h : (rows.map (·.startSnapshot) ++ [totals]).Pairwise (· ≤ ·)) (m : Metric) :
    ((billSegments P totals prices rows).map (·.usageDelta m)).sum = totals m - endSnapshot totals rows m := by
  induction rows with
  | nil => exact (Int.sub_self _).symm
  | cons b rows ih =>
    have hle : b.startSnapshot m ≤ endSnapshot totals rows m := by
      cases rows with
      | nil | cons next rest => exact rel_of_pairwise_cons h mem_cons_self m
    simp only [billSegments, map_cons, sum_cons, ih h.of_cons, max_eq_right (Int.sub_nonneg.mpr hle)]
    exact sub_add_sub_cancel' ..

theorem keep_sublist (P : Period) (rows : Rows Plan Metric) : (keep P rows).Sublist rows := by
  induction rows with
  | nil => exact .slnil
  | cons b rows ih =>
    rw [keep]
    split_ifs
    · exact ih.cons_cons b
    · exact ih.cons b

end

section
variable {P : Period} {prices : Plan → PlanPrice} {all segments : Segments Plan Metric} [DecidableEq Plan] {p : Plan}
  {n d : Nat}

theorem settle_map {α : Type} {f : BilledSegment Plan Metric → α}
    (hf : ∀ s fee, f { s with baseFeeCents := fee } = f s) : (settle P prices all segments).map f = segments.map f := by
  induction segments with
  | nil => rfl
  | cons s rest ih =>
    rw [settle, map_cons, map_cons, ih]
    split_ifs
    · rfl
    · rw [hf]

theorem settle_days : ((settle P prices all segments).filter (·.planId = p)).map (·.days) =
    (segments.filter (·.planId = p)).map (·.days) := by
  have hp : ∀ l : Segments Plan Metric, (l.filter (·.planId = p)).map (·.days) =
      ((l.map fun s => (s.planId, s.days)).filter (·.1 = p)).map (·.2) := by
    intro l
    simp [filter_map, Function.comp_def]
  rw [hp, settle_map fun _ _ => rfl, ← hp]

theorem settle_fees : ((settle P prices all segments).filter (·.planId = p)).map (·.baseFeeCents) =
    if (prices p).baseFeeCents.toNat = 0 ∨ segments.filter (·.planId = p) = [] then
      (segments.filter (·.planId = p)).map (·.baseFeeCents)
    else (segments.filter (·.planId = p)).dropLast.map (·.baseFeeCents) ++ [lastFee P prices all p] := by
  induction segments with
  | nil => simp [settle]
  | cons s rest ih =>
    by_cases hs : s.planId = p
    · subst hs
      by_cases h0 : (prices s.planId).baseFeeCents.toNat = 0
      · simp [settle, h0] at ih ⊢
        exact ih
      · by_cases hl : rest.filter (·.planId = s.planId) = []
        · have hn : s.planId ∉ rest.map (·.planId) := by simpa using hl
          rw [if_pos (.inr hl), hl] at ih
          simp [settle, h0, hn, hl, ih]
        · have hm : s.planId ∈ rest.map (·.planId) := by simpa using hl
          rw [if_neg (by simp [h0, hl])] at ih
          simp [settle, h0, hm, hl, ih, dropLast_cons_of_ne_nil]
    · have hs' : ¬ (if (prices s.planId).baseFeeCents.toNat = 0 ∨ s.planId ∈ rest.map (·.planId) then s
          else { s with baseFeeCents := lastFee P prices all s.planId }).planId = p := by
        split_ifs <;> exact hs
      rw [settle, filter_cons_of_neg (by simpa using hs'), filter_cons_of_neg (by simpa using hs), ih]

/-- `n / d` rounded to the nearest, halves up. -/
def roundHalfUp (n d : Nat) : Nat := (2 * n + d) / (2 * d)

theorem roundHalfUp_le {v : Nat} (hd : 0 < d) (hn : n ≤ d) : roundHalfUp (v * n) d ≤ v := by
  refine Nat.le_of_lt_succ ((Nat.div_lt_iff_lt_mul (by omega)).mpr ?_)
  nlinarith [Nat.mul_le_mul_left v hn]

theorem roundHalfUp_zero (d : Nat) : roundHalfUp 0 d = 0 := by
  obtain rfl | hd := Nat.eq_zero_or_pos d
  · rfl
  · exact Nat.div_eq_of_lt (by omega)

theorem dayWeight_eq (v : UInt64) (hd : 0 < d) (hn : n ≤ d) :
    dayWeight v.toNat n d = roundHalfUp (v.toNat * n) d := by
  have hh : (v.toNat * n + d / 2) / d = roundHalfUp (v.toNat * n) d := by
    rw [roundHalfUp, ← Nat.div_div_eq_div_mul, show (2 * (v.toNat * n) + d) / 2 = v.toNat * n + d / 2 by omega]
  have hlt := v.toNat_lt
  have hle := roundHalfUp_le (v := v.toNat) hd hn
  rw [dayWeight, if_neg hd.ne', hh]
  omega

/-- The days of the segments of a plan. -/
def planDays (P : Period) (p : Plan) : Rows Plan Metric → List Nat
  | [] => []
  | b :: rest =>
    if b.planId = p ∧ b.startDay < endDay P rest then (endDay P rest - b.startDay) :: planDays P p rest
    else planDays P p rest

theorem days_billSegments {rows : Rows Plan Metric} (totals : Metric → Int) (prices : Plan → PlanPrice)
    (h : Ordered P rows) :
    ((billSegments P totals prices (keep P rows)).filter (·.planId = p)).map (·.days) = planDays P p rows := by
  induction rows with
  | nil => rfl
  | cons b rows ih =>
    rw [planDays, ← ih h.2.2, keep]
    by_cases hlt : b.startDay < endDay P rows
    · by_cases hp : b.planId = p
      · simp [hlt, hp, billSegments, BilledSegment.days, endDay_keep h.2.2]
      · simp [hlt, hp, billSegments]
    · simp [hlt]

theorem planDays_sum_le {rows : Rows Plan Metric} (h : Ordered P rows) :
    (planDays P p rows).sum + endDay P rows ≤ P.dim + 1 := by
  induction rows with
  | nil => simp [planDays, endDay]
  | cons b rows ih =>
    have hr := ih h.2.2
    have hle := h.2.1
    rw [planDays, endDay]
    split_ifs
    · rw [sum_cons]
      omega
    · omega

/-- Fees rounded segment by segment, the last one settled: their sum is the plan's share as long
as the others are within it. -/
theorem settled_sum_iff {days : List Nat} {v : UInt64} (hv : (prices p).baseFeeCents = v)
    (hd : (all.filter (·.planId = p)).map (·.days) = days) (hsm : days.sum ≤ P.dim)
    (hfe : ∀ s ∈ all, s.baseFeeCents = dayWeight (prices s.planId).baseFeeCents.toNat s.days P.dim) :
    (((settle P prices all all).filter (·.planId = p)).map (·.baseFeeCents)).sum =
        roundHalfUp (v.toNat * days.sum) P.dim ↔
      (days.dropLast.map fun n => roundHalfUp (v.toNat * n) P.dim).sum ≤ roundHalfUp (v.toNat * days.sum) P.dim := by
  have hf : (all.filter (·.planId = p)).map (·.baseFeeCents) = days.map fun n => roundHalfUp (v.toNat * n) P.dim := by
    rw [← hd, map_map]
    refine map_congr_left fun s hs => ?_
    obtain ⟨hm, rfl⟩ : s ∈ all ∧ s.planId = p := by simpa using hs
    rw [hfe s hm, hv]
    exact dayWeight_eq v P.dim_pos ((le_sum_of_mem (hd ▸ mem_map_of_mem hs)).trans hsm)
  rw [settle_fees, hv, map_dropLast, hf]
  split_ifs with h0
  · obtain h0 | hn := h0
    · simp [h0, roundHalfUp_zero]
    · obtain rfl : days = [] := by simpa [hn] using hd.symm
      simp [roundHalfUp_zero]
  · have ht : dayWeight v.toNat days.sum P.dim = roundHalfUp (v.toNat * days.sum) P.dim :=
      dayWeight_eq v P.dim_pos hsm
    have hlt := v.toNat_lt
    have hle := roundHalfUp_le (v := v.toNat) P.dim_pos hsm
    simp only [lastFee, hv, hd, ht, map_dropLast, hf, sum_append, sum_singleton]
    omega

end

/-! ### A period's changes -/

section
variable {P : Period} {changes : Changes Plan Metric} {plan : Plan}

theorem changeDayOfMonth_mono {t t' : Int} (h : t ≤ t') (hf : t' < P.finish) :
    P.changeDayOfMonth t ≤ P.changeDayOfMonth t' := by
  unfold Period.changeDayOfMonth
  have hd := P.day_mono t t'
  split_ifs <;> omega

theorem changeDayOfMonth_mem (P : Period) (t : Int) : 1 ≤ P.changeDayOfMonth t ∧ P.changeDayOfMonth t ≤ P.dim := by
  have hp := P.dim_pos
  unfold Period.changeDayOfMonth
  split_ifs <;> omega

/-- Changes come in order and before the end of their period. -/
structure InOrder (P : Period) (changes : Changes Plan Metric) : Prop where
  sorted : (changes.map (·.effectiveAt)).Pairwise (· ≤ ·)
  in_period : ∀ c ∈ changes, c.effectiveAt < P.finish

theorem InOrder.ordered_changeRows (h : InOrder P changes) (plan : Plan) : Ordered P (changeRows P plan changes) := by
  induction changes with
  | nil => trivial
  | cons c rest ih =>
    have hr : InOrder P rest := ⟨h.sorted.of_cons, fun _ hc => h.in_period _ (mem_cons_of_mem _ hc)⟩
    refine ⟨(changeDayOfMonth_mem P _).2, ?_, ih hr⟩
    cases rest with
    | nil => exact (changeDayOfMonth_mem P _).2.trans (Nat.le_succ _)
    | cons c' rest =>
      exact changeDayOfMonth_mono (rel_of_pairwise_cons h.sorted mem_cons_self) (h.in_period c' (by simp))

theorem InOrder.ordered (h : InOrder P changes) (prior current : Plan) :
    Ordered P (boundaries P prior changes current) := by
  refine ⟨P.dim_pos, ?_, h.ordered_changeRows current⟩
  cases changes with
  | nil => exact Nat.le_add_left 1 _
  | cons c rest => exact (changeDayOfMonth_mem P _).1

theorem snapshots_changeRows (P : Period) (plan : Plan) (changes : Changes Plan Metric) :
    (changeRows P plan changes).map (·.startSnapshot) = changes.map (·.usageAtChange) := by
  induction changes with
  | nil => rfl
  | cons c rest ih => rw [changeRows, map_cons, map_cons, ih]

/-- Usage starts from nothing, does not fall from change to change and ends at the totals. -/
def Grows (totals : Metric → Int) (changes : Changes Plan Metric) : Prop :=
  (0 :: changes.map (·.usageAtChange) ++ [totals]).Pairwise (· ≤ ·)

/-- What was used at the last change of a day, or what is given. -/
def usageOn (P : Period) (day : Nat) : (Metric → Int) → Changes Plan Metric → Metric → Int
  | usage, [] => usage
  | usage, c :: rest => usageOn P day (if P.changeDayOfMonth c.effectiveAt = day then c.usageAtChange else usage) rest

theorem usageOn_of_lt {day : Nat} {usage : Metric → Int} (h : Ordered P (changeRows P plan changes))
    (hlt : day < endDay P (changeRows P plan changes)) : usageOn P day usage changes = usage := by
  induction changes with
  | nil => rfl
  | cons c rest ih =>
    have hlt : day < P.changeDayOfMonth c.effectiveAt := hlt
    rw [usageOn, if_neg hlt.ne', ih h.2.2 (hlt.trans_le h.2.1)]

/-- The first segment kept starts at the last boundary of the first day. -/
theorem endSnapshot_keep {b : BoundaryRow Plan Metric} (totals : Metric → Int)
    (h : Ordered P (b :: changeRows P plan changes)) :
    endSnapshot totals (keep P (b :: changeRows P plan changes)) = usageOn P b.startDay b.startSnapshot changes := by
  induction changes generalizing b with
  | nil => simp [changeRows, keep, endDay, Nat.lt_succ_of_le h.1, endSnapshot, usageOn]
  | cons c rest ih =>
    rw [keep]
    split_ifs with hlt
    · exact (usageOn_of_lt h.2.2 hlt).symm
    · have heq : P.changeDayOfMonth c.effectiveAt = b.startDay := le_antisymm (not_lt.mp hlt) h.2.1
      rw [usageOn, if_pos heq, ← heq]
      exact ih h.2.2

variable [DecidableEq Plan] (totals : Metric → Int) (prices : Plan → PlanPrice) (prior current : Plan)

theorem InOrder.build (h : InOrder P changes) : buildSegmentsWithPrior P totals prices prior changes current =
    settle P prices (billSegments P totals prices (keep P (boundaries P prior changes current)))
      (billSegments P totals prices (keep P (boundaries P prior changes current))) := by
  have hne : keep P (boundaries P prior changes current) ≠ [] := keep_ne_nil (h.ordered prior current)
  rw [buildSegmentsWithPrior, finalizeBoundaries, if_neg hne]

/-- The segments partition the period, and their usage is that of the period as long as nothing
was used at a change of the first day. -/
theorem usage_telescopes_iff (h : InOrder P changes) (hg : Grows totals changes) :
    Partition (P.dim + 1) 1 ((buildSegmentsWithPrior P totals prices prior changes current).map (·.span)) ∧
      ∀ m, ((buildSegmentsWithPrior P totals prices prior changes current).map (·.usageDelta m)).sum = totals m ↔
        usageOn P 1 0 changes m = 0 := by
  have ho := h.ordered prior current
  have hr : ((keep P (boundaries P prior changes current)).map (·.startSnapshot) ++ [totals]).Pairwise (· ≤ ·) := by
    refine Pairwise.sublist (((keep_sublist P _).map _).append_right _) ?_
    rwa [boundaries, map_cons, snapshots_changeRows]
  rw [h.build]
  constructor
  · rw [settle_map fun _ _ => rfl]
    exact billSegments_partition totals prices ho
  · intro m
    rw [settle_map fun _ _ => rfl, billSegments_usage P prices hr, boundaries, endSnapshot_keep totals ho]
    exact sub_eq_self

/-- The fees of a plan are its share of the base fee exactly when the rounded shares of its
segments but the last are within that share. -/
theorem fees_exact_iff (h : InOrder P changes) (p : Plan) (days : List Nat)
    (hd : planDays P p (boundaries P prior changes current) = days) :
    ((buildSegmentsWithPrior P totals prices prior changes current).filter (·.planId = p)).map (·.days) = days ∧
      ((((buildSegmentsWithPrior P totals prices prior changes current).filter (·.planId = p)).map
          (·.baseFeeCents)).sum = roundHalfUp ((prices p).baseFeeCents.toNat * days.sum) P.dim ↔
        (days.dropLast.map fun n => roundHalfUp ((prices p).baseFeeCents.toNat * n) P.dim).sum ≤
          roundHalfUp ((prices p).baseFeeCents.toNat * days.sum) P.dim) ∧
      roundHalfUp ((prices p).baseFeeCents.toNat * days.sum) P.dim ≤ (prices p).baseFeeCents.toNat := by
  have ho := h.ordered prior current
  have hb := days_billSegments totals prices ho (p := p)
  have hs : days.sum ≤ P.dim := by
    have hle := planDays_sum_le ho (p := p)
    rw [hd] at hle
    exact Nat.le_of_add_le_add_right hle
  rw [h.build, settle_days, settled_sum_iff rfl (hb.trans hd) hs (baseFee_billSegments P totals prices _)]
  exact ⟨hb.trans hd, Iff.rfl, roundHalfUp_le P.dim_pos hs⟩

end

def upgradeAt (t : Int) : PlanChange Bool Unit := ⟨t, true, fun _ => 50⟩

/-- A period of thirty days that starts at the epoch. -/
def thirtyDays : Period where
  start := 0
  finish := 30 * 86400
  dim := 30
  day t := (t / 86400).toNat + 1
  dim_pos := by decide
  day_mono _ _ _ h _ := Nat.succ_le_succ (Int.toNat_le_toNat (Int.ediv_le_ediv (by decide) h))

/-- An upgrade in the first hour: the 50 used before it are in no segment. -/
theorem first_day_usage_lost : InOrder thirtyDays [upgradeAt 3600] ∧ Grows (fun _ => 80) [upgradeAt 3600] ∧
      ((buildSegmentsWithPrior thirtyDays (fun _ => 80) (fun _ => {}) false [upgradeAt 3600] true).map
        (·.usageDelta ())).sum = 30 :=
  ⟨⟨by simp, by simp [thirtyDays, upgradeAt]⟩, by simp [Grows, Pi.le_def, upgradeAt], by decide⟩

theorem second_day_usage_kept :
    ((buildSegmentsWithPrior thirtyDays (fun _ => 80) (fun _ => {}) false [upgradeAt 90000] true).map
      (·.usageDelta ())).sum = 80 :=
  ((usage_telescopes_iff (fun _ => 80) (fun _ => {}) false true
    ⟨by simp, by simp [thirtyDays, upgradeAt]⟩ (by simp [Grows, Pi.le_def, upgradeAt])).2 ()).mpr (by decide)

/-- Changes back and forth at the end of each of the first seven days. -/
def alternating : Changes Bool Unit := (range 7).map fun i => ⟨86400 * (i + 1), i % 2 = 1, 0⟩

/-- Four days on a plan of 15 cents a month cost 3 cents, not 2. -/
theorem round_ups_exceed_share :
    InOrder thirtyDays alternating ∧ planDays thirtyDays true (boundaries thirtyDays true alternating false) = [1, 1, 1, 1] ∧
      (((buildSegmentsWithPrior thirtyDays 0 (fun _ => { baseFeeCents := 15 }) true alternating false).filter
        (·.planId = true)).map (·.baseFeeCents)).sum = 3 ∧ roundHalfUp (15 * 4) 30 = 2 :=
  ⟨⟨by decide, by decide⟩, by decide, by decide, by decide⟩

/-- Four days on a plan of 44 cents cost 6 cents: 1 for each but the last, which takes the rest. -/
theorem last_segment_takes_rest :
    (((buildSegmentsWithPrior thirtyDays 0 (fun _ => { baseFeeCents := 44 }) true alternating false).filter
      (·.planId = true)).map (·.baseFeeCents)).sum = 6 :=
  (fees_exact_iff 0 (fun _ => { baseFeeCents := 44 }) true false ⟨by decide, by decide⟩ true [1, 1, 1, 1]
    (by decide)).2.1.mpr (by decide)

end Zeroship.Billing.Proration

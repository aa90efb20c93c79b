import Zeroship.Metering.Meter

/-! Corrections of a billed period.

A safety-net pass compares the recomputed usage of a closed period, the witness, with what
was invoiced for it, and corrects a difference by a note. The note carries the difference
to the invoice itself, and the only memory is the list of quantities that were corrected to.
So the notes add up to the witness as long as the witness, once it has left the invoiced
quantity, stays where it is. -/
namespace Zeroship.Billing
open List
open Metering (AppId)

inductive InvoiceOwnership where
  | ownedInvoicer | selfInvoicing

/-- What a provider can correct with. -/
inductive CorrectionCapability where
  | backfill | invoiceCredit | none

structure CorrectionHistory where
  correctionSeq : Nat
  correctedQuantity : Int

inductive ReconcileFindingKind where
  | providerMeterDrift | latePeriodAdjustment | providerReject | correctionUnpriceable
deriving DecidableEq

def ReconcileFindingKind.asDbKind : ReconcileFindingKind → String
  | providerMeterDrift => "provider_meter_drift"
  | latePeriodAdjustment => "late_period_adjustment"
  | providerReject => "provider_reject"
  | correctionUnpriceable => "correction_unpriceable"

inductive CorrectionActionKind where
  | adjustmentNote | backfill

structure CorrectionAction where
  kind : CorrectionActionKind
  correctionSeq : Nat
  (correctedQuantity quantityDelta amountCents : Int)

structure ReconcileDecision where
  correction : Option CorrectionAction
  findings : List ReconcileFindingKind

structure ReconcileInputs where
  ownership : InvoiceOwnership
  correctionCapability : CorrectionCapability
  (witnessQuantity invoicedQuantity : Int)
  providerQuantity : Option Int
  tolerance : Int
  centsPerUnit : Option Int
  history : List CorrectionHistory

/-- `i64::saturating_mul`. -/
def saturatingMul (a b : Int) : Int := max (-2 ^ 63) (min (a * b) (2 ^ 63 - 1))

/-- `u32::saturating_add(1)`. -/
def saturatingSucc (n : Nat) : Nat := min (n + 1) (2 ^ 32 - 1)

def outsideTolerance (delta tolerance : Int) : Bool := tolerance.toNat < delta.natAbs

/-- A quantity that was corrected to before is not corrected to again. -/
def nextCorrectionSeq (history : List CorrectionHistory) (correctedQuantity : Int) : Option Nat :=
  if history.any (·.correctedQuantity = correctedQuantity) then none
  else some (saturatingSucc ((history.map (·.correctionSeq)).max?.getD 0))

variable (input : ReconcileInputs)

/-- What is compared with the witness. -/
def basisQuantity : Option Int :=
  match input.ownership with
  | .ownedInvoicer => some input.invoicedQuantity
  | .selfInvoicing => input.providerQuantity

def actionKind : CorrectionCapability → Option CorrectionActionKind
  | .invoiceCredit => some .adjustmentNote
  | .backfill => some .backfill
  | .none => none

/-- A note needs a price; a backfill is priced by the provider. -/
def correctionAmount (kind : CorrectionActionKind) (delta : Int) (centsPerUnit : Option Int) : Option Int :=
  match kind with
  | .adjustmentNote => centsPerUnit.map (saturatingMul delta)
  | .backfill => some (saturatingMul delta (centsPerUnit.getD 1))

def driftFindings : List ReconcileFindingKind :=
  match input.providerQuantity with
  | some provider =>
    if outsideTolerance (input.witnessQuantity - provider) (max input.tolerance 0) then [.providerMeterDrift] else []
  | none => []

def reconcileDecision : ReconcileDecision :=
  let findings := driftFindings input
  match basisQuantity input with
  | none => ⟨none, findings⟩
  | some basis =>
    let delta := input.witnessQuantity - basis
    if !outsideTolerance delta (max input.tolerance 0) then ⟨none, findings⟩
    else match actionKind input.correctionCapability with
      | none => ⟨none, if findings.contains .providerMeterDrift then findings else findings ++ [.providerMeterDrift]⟩
      | some kind => match correctionAmount kind delta input.centsPerUnit with
        | none => ⟨none, findings ++ [.correctionUnpriceable]⟩
        | some amount => match nextCorrectionSeq input.history input.witnessQuantity with
          | none => ⟨none, findings⟩
          | some seq => ⟨some ⟨kind, seq, input.witnessQuantity, delta, amount⟩, findings ++ [.latePeriodAdjustment]⟩

/-! ### A pass -/

structure BillingPeriod where
  (start stop : Int)

structure AdjustmentNote where
  period : BillingPeriod
  app : Option AppId
  meter : String
  quantityDelta : Int
  correctionSeq : Nat
  amountCents : Int
  (reason idempotencyKey : String)

/-- A usage line of a finalized invoice: the quantities of its snapshot and its amount. -/
structure InvoicedLine where
  usage : String → Option Int
  amountCents : Int

/-- The app, the meter and the closed period that a pass looks at, with what was invoiced. -/
structure Subject where
  ownership : InvoiceOwnership
  capability : CorrectionCapability
  tolerance : Int
  app : AppId
  meter : String
  period : BillingPeriod
  lines : List InvoicedLine
  /-- The digest of the values that a finding without a key of its own is keyed by. -/
  digest : ReconcileFindingKind → Int → Option Int → String

namespace Subject

variable (c : Subject)

def counted : List (Int × Int) :=
  c.lines.filterMap fun line => (line.usage c.meter).map (·, line.amountCents)

def invoicedQuantity : Int := (c.counted.map (·.1)).sum

def invoicedAmountCents : Int := (c.counted.map (·.2)).sum

def centsPerUnit : Option Int :=
  if c.invoicedQuantity ≤ 0 ∨ c.invoicedAmountCents ≤ 0 then none
  else some (max (c.invoicedAmountCents / c.invoicedQuantity) 1)

def correctionEntityId : String :=
  "billing-correction:" ++ c.app ++ ":" ++ c.meter ++ ":" ++ toString c.period.start

def correctionDedupKey (seq : Nat) : String :=
  "billing_correction:" ++ c.app ++ ":" ++ c.meter ++ ":" ++ toString c.period.start ++ ":" ++ toString seq

end Subject

/-- A row of the findings. Only a late adjustment names a sequence number and a quantity. -/
structure Finding where
  kind : ReconcileFindingKind
  entityId : String
  correctionSeq : Option Nat
  correctedQuantity : Option Int
  dedupKey : String

/-- What the passes leave: the findings, the notes and the totals that were backfilled. -/
structure SafetyNet where
  findings : List Finding
  notes : List AdjustmentNote
  backfilled : List Nat

def SafetyNet.empty : SafetyNet := ⟨[], [], []⟩

/-- `ON CONFLICT (dedup_key) DO NOTHING`. -/
def SafetyNet.record (s : SafetyNet) (f : Finding) : SafetyNet :=
  if s.findings.any (·.dedupKey = f.dedupKey) then s else {s with findings := s.findings ++ [f]}

/-- What a pass reads of the usage and of the provider, and what its call is answered. -/
structure Reading where
  witness : Nat
  provider : Option Int
  answer : Except String Unit

namespace Subject

variable (c : Subject) (s : SafetyNet)

def loadCorrectionHistory : List CorrectionHistory :=
  s.findings.filterMap fun f =>
    if f.kind = .latePeriodAdjustment ∧ f.entityId = c.correctionEntityId then
      match f.correctionSeq, f.correctedQuantity with
      | some seq, some quantity => if seq < 2 ^ 32 then some ⟨seq, quantity⟩ else none
      | _, _ => none
    else none

variable (action : CorrectionAction) (r : Reading)

def decision : ReconcileDecision :=
  reconcileDecision ⟨c.ownership, c.capability, r.witness, c.invoicedQuantity, r.provider, c.tolerance, c.centsPerUnit,
    c.loadCorrectionHistory s⟩

def note : AdjustmentNote :=
  ⟨c.period, some c.app, c.meter, action.quantityDelta, action.correctionSeq, action.amountCents,
    if 0 < action.quantityDelta then "late usage under-bill" else "late usage over-bill",
    c.correctionDedupKey action.correctionSeq⟩

def rejectFinding (reason : String) : Finding :=
  ⟨.providerReject, c.correctionEntityId, none, none,
    "provider_reject:" ++ c.app ++ ":" ++ toString c.period.start ++ ":" ++ c.meter ++ ":" ++ reason⟩

def lateFinding : Finding :=
  ⟨.latePeriodAdjustment, c.correctionEntityId, some action.correctionSeq, some action.correctedQuantity,
    c.correctionDedupKey action.correctionSeq⟩

/-- The provider's call comes first, and the finding that remembers it after. -/
def applyCorrection (answer : Except String Unit) (action : CorrectionAction) :
    SafetyNet :=
  match action.kind, answer with
  | .adjustmentNote, .ok () => ({s with notes := s.notes ++ [c.note action]}).record (c.lateFinding action)
  | .backfill, .ok () =>
    if 0 ≤ action.correctedQuantity then
      ({s with backfilled := s.backfilled ++ [action.correctedQuantity.toNat]}).record (c.lateFinding action)
    else s.record (c.rejectFinding
      ("negative corrected quantity " ++ toString action.correctedQuantity ++ " cannot be backfilled"))
  | _, .error e => s.record (c.rejectFinding e)

variable (kind : ReconcileFindingKind)

/-- A finding without a key of its own. -/
def plainFinding : Finding :=
  ⟨kind, c.correctionEntityId, none, none,
    kind.asDbKind ++ ":" ++ c.correctionEntityId ++ ":" ++ c.digest kind r.witness r.provider⟩

def pass : SafetyNet :=
  let d := c.decision s r
  let corrected := match d.correction with
    | some action => c.applyCorrection s r.answer action
    | none => s
  let rest := d.findings.filter fun kind => !(kind = .latePeriodAdjustment && d.correction.isSome)
  rest.foldl (fun s kind => s.record (c.plainFinding r kind)) corrected

def run (readings : List Reading) : SafetyNet := readings.foldl c.pass .empty

/-- What the notes so far have moved. -/
def moved : Int := (s.notes.map (·.quantityDelta)).sum

/-! ### What a pass does -/

/-- A stack that owns its invoices and corrects by notes, without tolerance, and lines that
have a price. -/
structure Corrects (c : Subject) (unit : Int) : Prop where
  owned : c.ownership = .ownedInvoicer
  credit : c.capability = .invoiceCredit
  exact : c.tolerance = 0
  priced : c.centsPerUnit = some unit

variable {c : Subject} {unit : Int} {s : SafetyNet} {r : Reading} {readings : List Reading} {f : Finding}
  {witness : Int}

/-- The correction of a reading under a sequence number. -/
def correctionTo (c : Subject) (unit : Int) (witness : Int) (seq : Nat) : CorrectionAction :=
  ⟨.adjustmentNote, seq, witness, witness - c.invoicedQuantity, saturatingMul (witness - c.invoicedQuantity) unit⟩

/-- Any difference to the invoice is corrected, once for each quantity. -/
theorem decision_correction (h : Corrects c unit) : (c.decision s r).correction =
      if (r.witness : Int) = c.invoicedQuantity then none
      else (nextCorrectionSeq (c.loadCorrectionHistory s) r.witness).map (correctionTo c unit r.witness) := by
  have ho : outsideTolerance ((r.witness : Int) - c.invoicedQuantity) (max c.tolerance 0) =
      decide ((r.witness : Int) ≠ c.invoicedQuantity) := by
    rw [h.exact, outsideTolerance]
    apply decide_eq_decide.mpr
    omega
  simp only [decision, reconcileDecision, basisQuantity, h.owned, h.credit, h.priced, actionKind, correctionAmount,
    ho, Option.map_some]
  by_cases hw : (r.witness : Int) = c.invoicedQuantity
  · simp [hw]
  · simp only [hw, ne_eq, not_false_eq_true, decide_true, Bool.not_true, Bool.false_eq_true, if_false]
    cases nextCorrectionSeq (c.loadCorrectionHistory s) r.witness <;> rfl

@[simp] theorem notes_record (f : Finding) : (s.record f).notes = s.notes := by
  unfold SafetyNet.record
  split <;> rfl

theorem mem_record {g : Finding} (h : g ∈ (s.record f).findings) : g ∈ s.findings ∨ g = f := by
  unfold SafetyNet.record at h
  split at h
  · exact .inl h
  · simpa using h

theorem history_record (h : f.correctionSeq = none) :
    c.loadCorrectionHistory (s.record f) = c.loadCorrectionHistory s := by
  unfold SafetyNet.record
  split
  · rfl
  · simp [loadCorrectionHistory, h]

theorem head_append {a : String} {x : Char} (h : a.toList.head? = some x) (b : String) :
    (a ++ b).toList.head? = some x := by
  rw [String.toList_append, head?_append, h]
  rfl

theorem plainFinding_key (seq : Nat) :
    (c.plainFinding r kind).dedupKey ≠ c.correctionDedupKey seq := by
  intro h
  have hk : (c.correctionDedupKey seq).toList.head? = some 'b' :=
    head_append (head_append (head_append (head_append (head_append (head_append (head_append (by decide) _) _) _) _) _) _) _
  have hkn : kind.asDbKind.toList.head? ≠ some 'b' := by
    cases kind <;> decide
  obtain ⟨x, hx⟩ : ∃ x, kind.asDbKind.toList.head? = some x := by
    cases kind <;> exact ⟨_, rfl⟩
  have hp : (c.plainFinding r kind).dedupKey.toList.head? = some x :=
    head_append (head_append (head_append (head_append hx _) _) _) _
  rw [h, hk] at hp
  exact hkn (hx.trans hp.symm)

/-- What the last part of a pass records beside the correction. -/
structure RecordsPlainly (c : Subject) (s s' : SafetyNet) : Prop where
  notes : s'.notes = s.notes
  history : c.loadCorrectionHistory s' = c.loadCorrectionHistory s
  keys : ∀ f ∈ s'.findings, f ∈ s.findings ∨ ∀ seq, f.dedupKey ≠ c.correctionDedupKey seq

theorem recordsPlainly_foldl (kinds : List ReconcileFindingKind) (s : SafetyNet) :
    RecordsPlainly c s (kinds.foldl (fun s kind => s.record (c.plainFinding r kind)) s) := by
  induction kinds generalizing s with
  | nil => exact ⟨rfl, rfl, fun _ => .inl⟩
  | cons kind rest ih =>
    obtain ⟨hn, hh, hk⟩ := ih (s.record (c.plainFinding r kind))
    refine ⟨hn.trans (notes_record _), hh.trans (history_record rfl), fun f hf => ?_⟩
    rcases hk f hf with ho | hp
    · rcases mem_record ho with ho | rfl
      · exact .inl ho
      · exact .inr (plainFinding_key kind)
    · exact .inr hp

theorem pass_none (h : (c.decision s r).correction = none) : RecordsPlainly c s (c.pass s r) := by
  unfold pass
  simp only [h]
  exact recordsPlainly_foldl _ _

theorem pass_some {action : CorrectionAction} (h : (c.decision s r).correction = some action) :
    RecordsPlainly c (c.applyCorrection s r.answer action) (c.pass s r) := by
  unfold pass
  simp only [h]
  exact recordsPlainly_foldl _ _

/-- Nothing was corrected yet. -/
structure Quiet (c : Subject) (s : SafetyNet) : Prop where
  notes : s.notes = []
  history : c.loadCorrectionHistory s = []
  keys : ∀ f ∈ s.findings, ∀ seq, f.dedupKey ≠ c.correctionDedupKey seq

/-- One quantity was corrected to. -/
structure CorrectedTo (c : Subject) (witness : Int) (s : SafetyNet) : Prop where
  deltas : s.notes.map (·.quantityDelta) = [witness - c.invoicedQuantity]
  history : c.loadCorrectionHistory s = [⟨1, witness⟩]

theorem quiet_empty : Quiet c .empty := ⟨rfl, rfl, by simp [SafetyNet.empty]⟩

theorem Quiet.pass_same (hs : Quiet c s) (h : Corrects c unit) (hw : (r.witness : Int) = c.invoicedQuantity) :
    Quiet c (c.pass s r) := by
  have hp := pass_none (by rw [decision_correction (s := s) h, if_pos hw])
  refine ⟨hp.notes.trans hs.notes, hp.history.trans hs.history, fun f hf => ?_⟩
  rcases hp.keys f hf with ho | hk
  · exact hs.keys f ho
  · exact hk

theorem Quiet.pass_changed (hs : Quiet c s) (h : Corrects c unit) (hw : (r.witness : Int) ≠ c.invoicedQuantity)
    (ha : r.answer = .ok ()) : CorrectedTo c r.witness (c.pass s r) := by
  have hp := pass_some (by rw [decision_correction (s := s) h, if_neg hw, hs.history]; rfl)
  have hr : c.applyCorrection s r.answer (correctionTo c unit r.witness 1) =
      {s with
        notes := s.notes ++ [c.note (correctionTo c unit r.witness 1)]
        findings := s.findings ++ [c.lateFinding (correctionTo c unit r.witness 1)]} := by
    have hn : ∀ f ∈ s.findings, f.dedupKey ≠ c.correctionDedupKey 1 := fun f hf => hs.keys f hf 1
    simp [applyCorrection, correctionTo, ha, SafetyNet.record, lateFinding]
    exact fun f hf => decide_eq_false (hn f hf)
  rw [show ((saturatingSucc ((([] : List CorrectionHistory).map (·.correctionSeq)).max?.getD 0)) : Nat) = 1 from rfl,
    hr] at hp
  refine ⟨?_, ?_⟩
  · rw [hp.notes]
    simp [hs.notes, note, correctionTo]
  have hh := hs.history
  rw [hp.history]
  simp only [loadCorrectionHistory] at hh ⊢
  rw [filterMap_append, hh]
  simp [lateFinding, correctionTo]

/-- The quantity that was corrected to is left alone; any other changes what the notes add up to. -/
theorem CorrectedTo.pass_same (hs : CorrectedTo c witness s) (h : Corrects c unit)
    (hw : (r.witness : Int) = witness) : CorrectedTo c witness (c.pass s r) ∧ (c.pass s r).notes = s.notes := by
  have hn : (c.decision s r).correction = none := by
    rw [decision_correction h, hs.history]
    split
    · rfl
    · simp [nextCorrectionSeq, hw]
  have hp := pass_none hn
  exact ⟨⟨by rw [hp.notes, hs.deltas], hp.history.trans hs.history⟩, hp.notes⟩

theorem CorrectedTo.pass_changed (hs : CorrectedTo c witness s) (h : Corrects c unit)
    (hc : witness ≠ c.invoicedQuantity) (hw : (r.witness : Int) ≠ witness) (ha : r.answer = .ok ()) :
    c.invoicedQuantity + moved (c.pass s r) ≠ r.witness := by
  by_cases hb : (r.witness : Int) = c.invoicedQuantity
  · -- Back at the invoiced quantity there is nothing to correct, and the first note stands.
    have hp := pass_none (by rw [decision_correction (s := s) h, if_pos hb])
    rw [moved, hp.notes, hs.deltas, sum_singleton]
    omega
  · -- The second note starts from the invoice again.
    have hsq : nextCorrectionSeq (c.loadCorrectionHistory s) r.witness = some 2 := by
      rw [hs.history]
      simp only [nextCorrectionSeq, any_cons, any_nil, Bool.or_false, decide_eq_true_eq]
      rw [if_neg (Ne.symm hw)]
      rfl
    have hp := pass_some (by rw [decision_correction (s := s) h, if_neg hb, hsq]; rfl)
    rw [moved, hp.notes]
    simp only [applyCorrection, ha, correctionTo, notes_record, map_append, hs.deltas, map_cons,
      map_nil, note, singleton_append, sum_cons, sum_nil]
    omega

/-! ### Whole sequences -/

/-- After every pass the notes make up the difference to the witness, and a witness that is
read twice in a row is not corrected twice. -/
def Converges (c : Subject) (readings : List Reading) : Prop :=
  ∀ before r after, readings = before ++ r :: after →
    c.invoicedQuantity + moved (c.run (before ++ [r])) = r.witness ∧
      ∀ last, before.getLast? = some last → last.witness = r.witness → (c.run (before ++ [r])).notes = (c.run before).notes

/-- Once away from the invoiced quantity, the witness does not change again. -/
def Settles (c : Subject) (readings : List Reading) : Prop :=
  readings.Pairwise fun a b => (a.witness : Int) ≠ c.invoicedQuantity → b.witness = a.witness

theorem run_concat (readings : List Reading) (r : Reading) : c.run (readings ++ [r]) = c.pass (c.run readings) r :=
  foldl_concat ..

theorem converges_concat : Converges c (readings ++ [r]) ↔ Converges c readings ∧
      c.invoicedQuantity + moved (c.run (readings ++ [r])) = r.witness ∧
      ∀ last, readings.getLast? = some last → last.witness = r.witness →
        (c.run (readings ++ [r])).notes = (c.run readings).notes := by
  constructor
  · intro h
    refine ⟨fun before x after heq => h before x (after ++ [r]) ?_, h readings r [] rfl⟩
    rw [heq, append_assoc, cons_append]
  rintro ⟨hb, hl⟩ before x after heq
  rcases eq_nil_or_concat after with rfl | ⟨rest, y, rfl⟩
  · obtain ⟨rfl, hx⟩ := append_inj' heq rfl
    obtain rfl := singleton_inj.mp hx
    exact hl
  · rw [concat_eq_append, ← cons_append, ← append_assoc] at heq
    exact hb before x rest (append_inj' heq rfl).1

theorem settles_concat : Settles c (readings ++ [r]) ↔ Settles c readings ∧
      ∀ a ∈ readings, (a.witness : Int) ≠ c.invoicedQuantity → r.witness = a.witness := by
  simp [Settles, pairwise_append]

/-- Where the passes over readings that settle have come to. -/
theorem run_of_settles (h : Corrects c unit) (hans : ∀ r ∈ readings, r.answer = .ok ()) (hs : Settles c readings) :
    ((∀ a ∈ readings, (a.witness : Int) = c.invoicedQuantity) ∧ Quiet c (c.run readings)) ∨
      ∃ last, readings.getLast? = some last ∧ (last.witness : Int) ≠ c.invoicedQuantity ∧
        (∀ a ∈ readings, (a.witness : Int) ≠ c.invoicedQuantity → a.witness = last.witness) ∧
        CorrectedTo c last.witness (c.run readings) := by
  induction readings using reverseRecOn with
  | nil => exact .inl ⟨by simp, quiet_empty⟩
  | append_singleton readings r ih =>
    obtain ⟨hb, haf⟩ := settles_concat.mp hs
    have han := hans r (by simp)
    rw [run_concat, getLast?_concat]
    rcases ih (fun x hx => hans x (mem_append_left _ hx)) hb with
      ⟨hal, hq⟩ | ⟨last, hl, hne, ho, hc⟩
    · by_cases hw : (r.witness : Int) = c.invoicedQuantity
      · refine .inl ⟨fun a ha => ?_, hq.pass_same h hw⟩
        rcases mem_append.mp ha with ha | ha
        · exact hal a ha
        · rw [mem_singleton.mp ha, hw]
      · refine .inr ⟨r, rfl, hw, fun a ha hne => ?_, hq.pass_changed h hw han⟩
        rcases mem_append.mp ha with ha | ha
        · exact absurd (hal a ha) hne
        · rw [mem_singleton.mp ha]
    · have hsm : r.witness = last.witness := haf last (mem_of_getLast? hl) hne
      refine .inr ⟨r, rfl, by rwa [hsm], fun a ha hne => ?_, ?_⟩
      · rcases mem_append.mp ha with ha | ha
        · rw [hsm, ho a ha hne]
        · rw [mem_singleton.mp ha]
      · rw [hsm]
        exact (hc.pass_same h (by rw [hsm])).1

/-- The notes add up to the witness after every pass if and only if the witness, once away
from the invoiced quantity, never changes again. -/
theorem corrections_converge_iff (c : Subject) (unit : Int) (h : Corrects c unit) (readings : List Reading)
    (hanswers : ∀ r ∈ readings, r.answer = .ok ()) : Converges c readings ↔ Settles c readings := by
  induction readings using reverseRecOn with
  | nil => exact ⟨fun _ => .nil, fun _ before x after heq => by simp at heq⟩
  | append_singleton readings r ih =>
    have han := hanswers r (by simp)
    have ha' : ∀ x ∈ readings, x.answer = .ok () := fun x hx => hanswers x (mem_append_left _ hx)
    rw [converges_concat, settles_concat, ih ha']
    refine and_congr_right fun hs => ?_
    rw [run_concat]
    rcases run_of_settles h ha' hs with ⟨hal, hq⟩ | ⟨last, hl, hne, ho, hc⟩
    · -- Before the first correction the next reading may be anything.
      refine iff_of_true ?_ fun a ha hne => absurd (hal a ha) hne
      by_cases hw : (r.witness : Int) = c.invoicedQuantity
      · have hq' := hq.pass_same h hw
        exact ⟨by simp [moved, hq'.notes, hw], fun _ _ _ => by rw [hq'.notes, hq.notes]⟩
      · refine ⟨?_, fun last hl hsm => absurd (hal last (mem_of_getLast? hl)) (by rwa [hsm])⟩
        rw [moved, (hq.pass_changed h hw han).deltas, sum_singleton]
        omega
    · by_cases hw : r.witness = last.witness
      · obtain ⟨hc', hn⟩ := hc.pass_same h (by rw [hw])
        refine iff_of_true ⟨?_, fun _ _ _ => hn⟩ fun a ha hn' => by rw [hw, ho a ha hn']
        rw [moved, hc'.deltas, sum_singleton, hw]
        omega
      · refine iff_of_false (fun hcn => ?_) fun hsm => hw (hsm last (mem_of_getLast? hl) hne)
        exact hc.pass_changed h hne (by exact_mod_cast hw) han hcn.1

/-- 100 requests for 200 cents. -/
def sample : Subject where
  ownership := .ownedInvoicer
  capability := .invoiceCredit
  tolerance := 0
  app := "app_1"
  meter := "requests"
  period := ⟨0, 2592000⟩
  lines := [⟨fun meter => if meter = "requests" then some 100 else none, 200⟩]
  digest _ _ _ := ""

def readingOf (witness : Nat) : Reading := ⟨witness, none, .ok ()⟩

theorem sample_corrects : Corrects sample 2 := ⟨rfl, rfl, rfl, by decide +kernel⟩

/-- The witness rises from 100 to 110 and on to 120: the notes are 10 and 20. -/
theorem second_correction_diverges : Corrects sample 2 ∧ (∀ r ∈ [readingOf 110, readingOf 120], r.answer = .ok ()) ∧
      (sample.run [readingOf 110, readingOf 120]).notes.map (·.quantityDelta) = [10, 20] ∧
      ¬ Converges sample [readingOf 110, readingOf 120] := by
  refine ⟨sample_corrects, by simp [readingOf], by decide +kernel, fun h => ?_⟩
  have hs := (h [readingOf 110] (readingOf 120) [] rfl).1
  revert hs
  decide +kernel

/-- It rises once, before or after passes that find nothing. -/
theorem first_correction_converges : Converges sample [readingOf 100, readingOf 110, readingOf 110] :=
  (corrections_converge_iff sample 2 sample_corrects _ (by simp [readingOf])).mpr (by
    have hq : sample.invoicedQuantity = 100 := by decide +kernel
    simp [Settles, readingOf, hq])

end Subject

end Zeroship.Billing

import Zeroship.Billing.Bureau

/-! Corrections and the bills they never reach.

A correction is a line on the draft of the next period, under a key of its own. A drive prices
usage only: it takes a line that its pricing does not have for a leftover and deletes it, and it
finalizes at the total of its usage. So whatever lines the invoice still has, its subtotal has no
correction in it, in any order of corrections, drives, crashes and voids. -/
namespace Zeroship.Billing
open Base List Bureau

variable (note : String → NoteCall) (b : Books) (a : Accepted)

/-- The line of a correction, and no other line of its invoice has its key. -/
def OnInvoice : Prop :=
  ∃ k, (b.lines a.invoice).lookup k = some (NoteRun.line a.call) ∧
    ∀ {k' l}, (b.lines a.invoice).lookup k' = some l → l.correctionDedupKey = some a.call.idempotencyKey → k' = k

/-- What the corrections on an invoice sum to. -/
def corrections (i : InvoiceId) : Int :=
  (((b.lines i).entries.filter (·.2.correctionDedupKey.isSome)).map (·.2.amountCents)).sum

/-- A bill with its corrections: the line is on the invoice, and the subtotal is the usage it was
finalized at with all corrections on it. -/
def Billed (usage : Int) (inv : Invoice) : Prop :=
  OnInvoice b a ∧ inv.subtotalCents = usage + corrections b a.invoice

/-- Corrections, drives and crashes in any order, at any number of desks. A key names one correction. -/
def Mixed : Environment Bureau (Nat × OfficeInput) Accepted := fun _ _ input => match input.2 with
  | .note call => note call.idempotencyKey = call
  | .void _ => False
  | _ => True

instance decidableMixed (note : String → NoteCall) (h : History Bureau (Nat × OfficeInput) Accepted) (w : Bureau) :
    ∀ input, Decidable (Mixed note h w input)
  | (_, .note call) => inferInstanceAs (Decidable (note call.idempotencyKey = call))
  | (_, .void _) => .isFalse not_false
  | (_, .bill _ _ _) | (_, .advance _) | (_, .crash) | (_, .expireItem _) | (_, .expireInvoice _) => .isTrue trivial

/-- A step in which the drive at a desk finalizes its invoice. -/
structure Finalizes (t : Step Bureau (Nat × OfficeInput) Accepted) (d : Drive) (i : InvoiceId) (inv : Invoice) : Prop where
  drive : t.before.desks.lookup t.input.1 = some (.drive d)
  here : d.stage.invoice = some i
  row : t.after.books.invoices.lookup i = some inv

section
variable {h : History Bureau (Nat × OfficeInput) Accepted} {w w' : Bureau} {i : InvoiceId} {inv : Invoice}
  {env : Environment Bureau (Nat × OfficeInput) Accepted} {input : Nat × OfficeInput} {outputs : List Accepted}

theorem NoteStep.row_finalized {b b' : Books} {n : NoteRun} {ending : NoteEnd} (hs : NoteStep b n b' ending)
    (hi : b'.invoices.lookup i = some inv) (hf : inv.status = .finalized) : b.invoices.lookup i = some inv := by
  cases hs with
  | read | refused | known | written => exact hi
  | claimed =>
    rw [Books.claim] at hi
    split at hi
    · exact hi
    rcases insert_cases hi with ⟨-, rfl⟩ | ⟨-, ho⟩
    · cases hf
    · exact ho

/-- Only a step of a drive finalizes an invoice, and it does so at the usage of that drive. -/
theorem finalized_by_drive (ht : bureau.step w input = some (w', outputs)) (hi : w'.books.invoices.lookup i = some inv)
    (hf : inv.status = .finalized) : w.books.invoices.lookup i = some inv ∨
      ∃ d, Finalizes ⟨w, input, outputs, w'⟩ d i inv ∧ inv.subtotalCents = d.pricing.total := by
  obtain ⟨desk, input⟩ := input
  obtain ⟨left, hs, -⟩ := bureau_step ht
  generalize hb : w'.books = books at hs hi
  cases hs with
  | billed | asked | crashed | forgotItem | forgotInvoice => exact .inl hi
  | @drove d s hd =>
    rcases (d.step_advanced w.books s).wrote.row_finalized hi hf with ho | ⟨hh, hu⟩
    · exact .inl ho
    · exact .inr ⟨d, ⟨hd, hh, hb ▸ hi⟩, hu⟩
  | @noted n s o accepted hd hs =>
    obtain ⟨hbk, -⟩ := Office.advanceNote_books hs
    rw [hbk] at hi
    exact .inl ((n.step_cases w.books).row_finalized hi hf)
  | voided hv =>
    obtain ⟨row, hr, hv⟩ := Option.bind_eq_some_iff.mp hv
    obtain ⟨_, -, hv⟩ := Option.bind_eq_some_iff.mp hv
    cases hv
    rcases insert_cases hi with ⟨-, rfl⟩ | ⟨-, ho⟩
    · cases hf
    · exact .inl ho

/-- In every run a finalized invoice has the usage of the drive that finalized it for its subtotal. -/
theorem subtotal_is_usage (run : bureau.Run env (.start .empty) h w) (hi : w.books.invoices.lookup i = some inv)
    (hf : inv.status = .finalized) : ∃ t ∈ h, ∃ d, Finalizes t d i inv ∧ inv.subtotalCents = d.pricing.total := by
  refine run.invariant (fun h w => ∀ i inv, w.books.invoices.lookup i = some inv → inv.status = .finalized →
    ∃ t ∈ h, ∃ d, Finalizes t d i inv ∧ inv.subtotalCents = d.pricing.total) (fun _ _ hi => by cases hi) ?_ i inv hi hf
  intro h w w' input outputs _ ih _ ht i inv hi hf
  rcases finalized_by_drive ht hi hf with ho | ⟨d, hd⟩
  · obtain ⟨t, hm, hd⟩ := ih i inv ho hf
    exact ⟨t, mem_append_left _ hm, hd⟩
  · exact ⟨_, mem_append_right _ mem_cons_self, d, hd⟩

end

/-- In every run, when the invoice of an accepted correction is finalized its subtotal is the usage
of the drive that did it: the correction is not billed, unless the corrections cancel out. -/
theorem correction_never_billed (note : String → NoteCall) {h : History Bureau (Nat × OfficeInput) Accepted} {w : Bureau}
    (run : bureau.Run (Mixed note) (.start .empty) h w) : ∀ a ∈ h.outputs, ∀ inv,
      w.books.invoices.lookup a.invoice = some inv → inv.status = .finalized → ∃ t ∈ h, ∃ d,
        Finalizes t d a.invoice inv ∧ inv.subtotalCents = d.pricing.total ∧
          (Billed w.books a d.pricing.total inv ↔ OnInvoice w.books a ∧ corrections w.books a.invoice = 0) := by
  intro a _ inv hi hf
  obtain ⟨t, ht, d, hd, hu⟩ := subtotal_is_usage run hi hf
  refine ⟨t, ht, d, hd, hu, and_congr_right fun _ => ?_⟩
  rw [hu]
  omega

def sampleNote : NoteCall := ⟨1, some "app", 25, "correction", true⟩

/-- A correction for period 1 is accepted, and the period is billed. -/
def notedThenBilled : List (Nat × OfficeInput) :=
  [(0, .note sampleNote)] ++ List.replicate 7 (0, .advance ⟨0, 0⟩) ++
    [(0, .bill 1 true sampleUsage)] ++ List.replicate 13 (0, .advance ⟨0, 0⟩)

/-- A correction that is written after the drive of period 1 has looked for leftovers. -/
def notedMeanwhile : List (Nat × OfficeInput) :=
  [(0, .bill 1 true sampleUsage)] ++ List.replicate 4 (0, .advance ⟨0, 0⟩) ++
    [(1, .note sampleNote)] ++ List.replicate 5 (1, .advance ⟨0, 0⟩) ++ List.replicate 8 (0, .advance ⟨0, 0⟩)

/-- The drive of period 1 deletes the line of the correction and finalizes its usage only. -/
theorem correction_dropped : ∃ h w inv, bureau.Run (Mixed fun _ => sampleNote) (.start .empty) h w ∧
    ⟨0, sampleNote⟩ ∈ h.outputs ∧ w.books.invoices.lookup 0 = some inv ∧ inv.status = .finalized ∧
    inv.subtotalCents = 100 ∧ (w.books.lines 0).entries.map (fun e => (e.2.kind, e.2.amountCents)) = [(.usage, 100)] ∧
    ∀ usage, ¬ Billed w.books ⟨0, sampleNote⟩ usage inv := by
  have ho : Machine.Offered (Mixed fun _ => sampleNote) [] (bureau.trace (.start .empty) notedThenBilled) := by
    decide +kernel
  have hr : (bureau.reach (.start .empty) notedThenBilled).books.invoices.lookup 0 =
      some ⟨1, .finalized, 100, 0, 0, 100⟩ := by decide +kernel
  refine ⟨_, _, _, Machine.Run.of_trace ho, by decide +kernel, hr, rfl, rfl, by decide +kernel, fun _ hb => ?_⟩
  obtain ⟨⟨k, hk, -⟩, -⟩ := hb
  have hn : ∀ e ∈ ((bureau.reach (.start .empty) notedThenBilled).books.lines 0).entries,
      e.2.correctionDedupKey = none := by decide +kernel
  have hky := hn _ (AList.mem_lookup_iff.mp hk)
  cases hky

/-- A correction that keeps its line is not in the subtotal either. -/
theorem correction_not_in_subtotal : ∃ (w : Bureau) (inv : Invoice), w.books.invoices.lookup 0 = some inv ∧ inv.status = .finalized ∧
    corrections w.books 0 = 25 ∧ ∃ d : Drive, inv.subtotalCents = d.pricing.total ∧
      ¬ Billed w.books ⟨0, sampleNote⟩ d.pricing.total inv := by
  have ho : Machine.Offered (Mixed fun _ => sampleNote) [] (bureau.trace (.start .empty) notedMeanwhile) := by
    decide +kernel
  have hr : (bureau.reach (.start .empty) notedMeanwhile).books.invoices.lookup 0 =
      some ⟨1, .finalized, 100, 0, 0, 100⟩ := by decide +kernel
  have hc : corrections (bureau.reach (.start .empty) notedMeanwhile).books 0 = 25 := by decide +kernel
  obtain ⟨_, _, d, -, hu, hb⟩ := correction_never_billed _ (Machine.Run.of_trace ho) ⟨0, sampleNote⟩ (by decide +kernel) _ hr rfl
  refine ⟨_, _, hr, rfl, hc, d, hu, fun h => ?_⟩
  exact absurd (hc.symm.trans (hb.mp h).2) (by decide)

end Zeroship.Billing

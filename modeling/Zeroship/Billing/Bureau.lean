import Zeroship.Base.Tables
import Zeroship.Billing.Drive

/-! Many operations at a time.

Nothing makes drives and corrections wait for each other. Each has a desk of its own here, and
a step of the bureau is a step of one desk. What a statement of a drive can do to the rows of the
invoices is said once, in `Wrote`. -/
namespace Zeroship.Billing
open Base Books NoteRun

structure Bureau where
  books : Books
  desks : AList fun _ : Nat => Process

namespace Bureau

def put (desks : AList fun _ : Nat => Process) (desk : Nat) : Option Process → AList fun _ : Nat => Process
  | some process => desks.insert desk process
  | none => desks.erase desk

def start (b : Books) : Bureau := ⟨b, ∅⟩

theorem lookup_put {desks : AList fun _ : Nat => Process} {desk desk' : Nat} {left : Option Process} {process : Process}
    (h : (put desks desk left).lookup desk' = some process) :
    (desk' = desk ∧ left = some process) ∨ (desk' ≠ desk ∧ desks.lookup desk' = some process) := by
  cases left with
  | none => exact .inr (erase_cases h)
  | some new =>
    rcases insert_cases h with ⟨hd, rfl⟩ | ho
    · exact .inl ⟨hd, rfl⟩
    · exact .inr ho

end Bureau

def bureau : Machine Bureau (Nat × OfficeInput) Accepted where
  step w input :=
    (office.step ⟨w.books, w.desks.lookup input.1⟩ input.2).map fun out =>
      (⟨out.1.books, Bureau.put w.desks input.1 out.1.running⟩, out.2)

/-- What can happen at a desk: the books after it, what it leaves there and what was accepted. -/
inductive DeskStep (w : Bureau) (desk : Nat) : OfficeInput → Books → Option Process → List Accepted → Prop
  | billed {period : Int} {customer : Bool} {pricing : Pricing} (free : w.desks.lookup desk = none) :
      DeskStep w desk (.bill period customer pricing) w.books
        ((Drive.start w.books period customer pricing).map .drive) []
  | asked {call : NoteCall} (free : w.desks.lookup desk = none) :
      DeskStep w desk (.note call) w.books ((NoteRun.start call).map .note) []
  | drove {d : Drive} {s : Settlement} (here : w.desks.lookup desk = some (.drive d)) :
      DeskStep w desk (.advance s) (d.step w.books s).1 ((d.step w.books s).2.map .drive) []
  | noted {n : NoteRun} {s : Settlement} {o : Office} {accepted : List Accepted}
      (here : w.desks.lookup desk = some (.note n))
      (step : Office.advanceNote ⟨w.books, some (.note n)⟩ n = (o, accepted)) :
      DeskStep w desk (.advance s) o.books o.running accepted
  | crashed : DeskStep w desk .crash w.books none []
  | voided {i : InvoiceId} {b : Books} (void : w.books.void i = some b) : DeskStep w desk (.void i) b none []
  | forgotItem {key : ItemKey} :
      DeskStep w desk (.expireItem key) {w.books with itemReplays := Function.update w.books.itemReplays key none}
        (w.desks.lookup desk) []
  | forgotInvoice {period : Int} :
      DeskStep w desk (.expireInvoice period) {w.books with invoiceReplays := Function.update w.books.invoiceReplays period none}
        (w.desks.lookup desk) []

theorem bureau_step {w w' : Bureau} {desk : Nat} {input : OfficeInput} {outputs : List Accepted}
    (h : bureau.step w (desk, input) = some (w', outputs)) :
    ∃ left, DeskStep w desk input w'.books left outputs ∧ w' = ⟨w'.books, Bureau.put w.desks desk left⟩ := by
  obtain ⟨⟨⟨books, running⟩, outs⟩, hs, heq⟩ := Option.map_eq_some_iff.mp h
  cases heq
  refine ⟨running, ?_, rfl⟩
  cases hd : w.desks.lookup desk with
  | none =>
    rw [hd] at hs
    cases input with
    | bill period customer pricing =>
      cases hs
      exact .billed hd
    | note call =>
      cases hs
      exact .asked hd
    | advance s => cases hs
    | crash =>
      cases hs
      exact .crashed
    | void i =>
      obtain ⟨b, hv, heq⟩ := Option.map_eq_some_iff.mp hs
      cases heq
      exact .voided hv
    | expireItem key =>
      cases hs
      exact hd ▸ .forgotItem
    | expireInvoice period =>
      cases hs
      exact hd ▸ .forgotInvoice
  | some process =>
    rw [hd] at hs
    cases input with
    | bill period customer pricing | note call | void i => cases hs
    | advance s =>
      cases process with
      | drive d =>
        cases hs
        exact .drove hd
      | note n => exact .noted hd (Option.some.inj hs)
    | crash =>
      cases hs
      exact .crashed
    | expireItem key =>
      cases hs
      exact hd ▸ .forgotItem
    | expireInvoice period =>
      cases hs
      exact hd ▸ .forgotInvoice

/-- The invoice that a drive works on, once it has read which. -/
def Stage.invoice : Stage → Option InvoiceId
  | .claim | .reread => none
  | .readPosted i | .readLines i _ => some i
  | .findOrphan snap _ _ | .dropItem snap _ _ _ | .dropRef snap _ _ | .dropLine snap _ _ => some snap.invoice
  | .writeLine snap _ _ | .findItem snap _ _ | .postItem snap _ _ | .confirm snap _ _ _ => some snap.invoice
  | .readDraft snap | .createInvoice snap | .keepDraft snap _ | .finalize snap _ | .settle snap _ => some snap.invoice

/-- What a statement of a drive does to the rows: nothing, a claim for its period, or its own row is
finalized at its usage. -/
inductive Wrote (d : Drive) (b b' : Books) : Prop
  | nothing (invoices : b'.invoices = b.invoices) (next : b'.nextInvoice = b.nextInvoice)
  | claimed (h : b' = b.claim d.period)
  | finalized {i : InvoiceId} (here : d.stage.invoice = some i) {inv : Invoice} (inv' : Invoice)
      (row : b.invoices.lookup i = some inv) (period : inv'.period = inv.period) (status : inv'.status = .finalized)
      (usage : inv'.subtotalCents = d.pricing.total) (invoices : b'.invoices = b.invoices.insert i inv')
      (next : b'.nextInvoice = b.nextInvoice)

/-- The row of an invoice that is not void. -/
def RowOf (b : Books) (period : Int) (i : InvoiceId) : Prop :=
  ∃ inv, b.invoices.lookup i = some inv ∧ inv.period = period ∧ inv.status ≠ .void

section
variable {b b' : Books} {i : InvoiceId} {d : Drive} {id : StripeId} {key : LineKey} {inv : Invoice}

theorem Wrote.same (b : Books) : Wrote d b b := .nothing rfl rfl

theorem Wrote.deleteItem (h : b.deleteItem id = some b') : Wrote d b b' := by
  obtain ⟨rfl, -⟩ | ⟨item, -, rfl⟩ := deleteItem_some h
  · exact .same _
  · exact .nothing rfl rfl

theorem Wrote.deleteLine (h : b.deleteLine i key = some b') : Wrote d b b' := by
  unfold Books.deleteLine at h
  split at h
  · cases h
  · cases h
    exact .nothing rfl rfl

theorem Wrote.upsertLine {amount : Int} (h : b.upsertLine i key amount = some b') : Wrote d b b' := by
  unfold Books.upsertLine at h
  dsimp only at h
  split at h
  · cases h
  · cases h
    exact .nothing rfl rfl

theorem Wrote.insertLineRef (h : b.insertLineRef i key id = some b') : Wrote d b b' := by
  obtain ⟨-, rfl⟩ | ⟨refs, -, -, rfl⟩ := insertLineRef_some h
  · exact .same _
  · exact .nothing rfl rfl

theorem Wrote.createItem (b : Books) (key : ItemKey) (amount : Nat) : Wrote d b (b.createItem i key amount).1 := by
  unfold Books.createItem
  split
  · exact .same b
  · exact .nothing rfl rfl

theorem Wrote.createInvoice (b : Books) (p : Int) : Wrote d b (b.createInvoice i p).1 := by
  unfold Books.createInvoice
  split
  · exact .same b
  · exact .nothing rfl rfl

theorem Wrote.insertRef (b : Books) (kind : RefKind) (id : StripeId) : Wrote d b (b.insertRef i kind id) := by
  unfold Books.insertRef
  split
  · exact .same b
  · exact .nothing rfl rfl

theorem Wrote.finalize {credit tax : Int} {kind : RefKind} (here : d.stage.invoice = some i)
    (h : b.finalize i d.pricing.total credit tax = some b') : Wrote d b (b'.insertRef i kind id) := by
  obtain ⟨inv, hi, rfl⟩ := finalize_some h
  unfold Books.insertRef
  split <;>
    exact .finalized here ⟨inv.period, .finalized, d.pricing.total, credit, tax, d.pricing.total - credit + tax⟩ hi rfl rfl rfl rfl rfl

theorem RowOf.of_active {p : Int} (h : b.active p = some (i, inv)) : RowOf b p i := ⟨inv, active_some h⟩

/-- A row that is finalized was so before, or its drive did it. -/
theorem Wrote.row_finalized (hw : Wrote d b b') (hi : b'.invoices.lookup i = some inv) (hs : inv.status = .finalized) :
    b.invoices.lookup i = some inv ∨ (d.stage.invoice = some i ∧ inv.subtotalCents = d.pricing.total) := by
  cases hw with
  | nothing hin => exact .inl (hin ▸ hi)
  | claimed heq =>
    subst heq
    rw [claim] at hi
    split at hi
    · exact .inl hi
    rcases insert_cases hi with ⟨-, rfl⟩ | ⟨-, ho⟩
    · cases hs
    · exact .inl ho
  | finalized here inv' _ _ _ hu hin =>
    rw [hin] at hi
    rcases insert_cases hi with ⟨rfl, rfl⟩ | ⟨-, ho⟩
    · exact .inr ⟨here, hu⟩
    · exact .inl ho

end

variable (snap : Snapshot) (lines : List BilledLine)

@[simp] theorem invoice_nextLine :
    (nextLine snap lines).invoice = some snap.invoice := by
  induction lines with
  | nil => rfl
  | cons l rest ih =>
    rw [nextLine]
    split
    · exact ih
    · rfl

@[simp] theorem invoice_nextOrphan (orphans : List LineKey) :
    (nextOrphan snap lines orphans).invoice = some snap.invoice := by
  cases orphans with
  | nil => exact invoice_nextLine snap lines
  | cons orphan rest => rfl

section
variable {b b' : Books} {d : Drive} {stage : Stage}

/-- A drive keeps its period. The invoice it works on is the one it has, or the one of its
period that it reads. -/
structure Advanced (b : Books) (d : Drive) (after : Books × Option Drive) : Prop where
  wrote : Wrote d b after.1
  next : ∀ d', after.2 = some d' → d'.period = d.period ∧ d'.pricing = d.pricing ∧
    ∀ i, d'.stage.invoice = some i → d.stage.invoice = some i ∨ RowOf b d.period i

theorem Advanced.ends (hw : Wrote d b b') : Advanced b d (b', none) :=
  ⟨hw, fun _ heq => by cases heq⟩

theorem Advanced.reads (hw : Wrote d b b')
    (hn : ∀ i, stage.invoice = some i → d.stage.invoice = some i ∨ RowOf b d.period i) :
    Advanced b d (b', some {d with stage := stage}) :=
  ⟨hw, fun _ heq => Option.some.inj heq ▸ ⟨rfl, rfl, hn⟩⟩

theorem Advanced.stays (hw : Wrote d b b') (hs : stage.invoice = d.stage.invoice) :
    Advanced b d (b', some {d with stage := stage}) :=
  .reads hw fun _ hi => .inl (hs ▸ hi)

theorem Advanced.onward {after : Option Books} (h : ∀ b', after = some b' → Wrote d b b')
    (hs : stage.invoice = d.stage.invoice) : Advanced b d (d.onward b after stage) := by
  cases after with
  | none => exact .ends (.same b)
  | some b' => exact .stays (h b' rfl) hs

theorem Drive.step_advanced (b : Books) (d : Drive) (s : Settlement) : Advanced b d (d.step b s) := by
  obtain ⟨period, pricing, stage⟩ := d
  cases stage with
  | claim => exact .reads (.claimed rfl) fun i hi => by cases hi
  | reread =>
    simp only [Drive.step]
    split
    · next j _ ha =>
      refine .reads (.same b) fun i hi => .inr ?_
      cases hi
      exact .of_active ha
    · exact .ends (.same b)
  | readPosted i => exact .stays (.same b) rfl
  | readLines i posted => exact .stays (.same b) (invoice_nextOrphan ..)
  | findOrphan snap orphan rest =>
    dsimp only [Drive.step]
    split <;> exact .stays (.same b) rfl
  | dropItem snap id orphan rest => exact .onward (fun _ => .deleteItem) rfl
  | dropRef snap orphan rest | finalize snap draft => exact .stays (.nothing rfl rfl) rfl
  | dropLine snap orphan rest => exact .onward (fun _ => .deleteLine) (invoice_nextOrphan ..)
  | writeLine snap line rest =>
    refine .onward (fun _ => .upsertLine) ?_
    split <;> rfl
  | findItem snap line rest | readDraft snap =>
    simp only [Drive.step]
    split <;> exact .stays (.same b) rfl
  | postItem snap line rest => exact .stays (.createItem b _ _) rfl
  | confirm snap line rest id => exact .onward (fun _ => .insertLineRef) (invoice_nextLine ..)
  | createInvoice snap => exact .stays (.createInvoice b _) rfl
  | keepDraft snap draft => exact .stays (.insertRef b _ _) rfl
  | settle snap draft =>
    simp only [Drive.step]
    split
    · next hf => exact .ends (.finalize rfl hf)
    · exact .ends (.same b)

theorem Drive.start_some {period : Int} {customer : Bool} {pricing : Pricing}
    (h : Drive.start b period customer pricing = some d) :
    d.period = period ∧ d.pricing = pricing ∧ ∀ i, d.stage.invoice = some i → RowOf b period i := by
  unfold Drive.start at h
  split at h
  · next j _ ha =>
    split at h
    · cases h
    cases h
    refine ⟨rfl, rfl, fun i hi => ?_⟩
    cases hi
    exact .of_active ha
  · split at h
    · cases h
    · cases h
      exact ⟨rfl, rfl, fun i hi => by cases hi⟩

end

/-- What a statement of a correction can do. -/
inductive NoteStep (b : Books) (n : NoteRun) : Books → NoteEnd → Prop
  | read {stage : NoteStage} : NoteStep b n b (.onward stage)
  | claimed : NoteStep b n (b.claim n.call.period) (.onward .reread)
  | refused : NoteStep b n b .refused
  | known {i : InvoiceId} : NoteStep b n b (.accepted i)
  | written {i : InvoiceId} {k : LineKey} :
      NoteStep b n {b with lines := Function.update b.lines i ((b.lines i).insert k (NoteRun.line n.call))} (.accepted i)

theorem NoteRun.step_cases (b : Books) (n : NoteRun) : NoteStep b n (n.step b).1 (n.step b).2 := by
  obtain ⟨call, app, stage⟩ := n
  cases stage with
  | find =>
    simp only [step]
    split <;> exact .read
  | claim => exact .claimed
  | reread =>
    simp only [step]
    split
    · exact .read
    · exact .refused
  | readStatus i | readFloor i =>
    simp only [step]
    split
    · exact .refused
    · exact .read
  | readKey i =>
    simp only [step]
    split
    · exact .known
    · exact .read
  | insert i segment =>
    simp only [step, insertLine]
    split
    · exact .refused
    split
    · exact .known
    split
    · exact .refused
    · exact .written

theorem Office.advanceNote_books {o o' : Office} {n : NoteRun} {accepted : List Accepted} (h : o.advanceNote n = (o', accepted)) :
    o'.books = (n.step o.books).1 ∧ ∀ d, o'.running ≠ some (.drive d) := by
  unfold Office.advanceNote at h
  split at h
  · next heq =>
    cases h
    rw [heq]
    exact ⟨rfl, fun d hd => by cases hd⟩
  · next heq =>
    cases h
    rw [heq]
    exact ⟨rfl, fun d hd => by cases hd⟩
  · next heq =>
    cases h
    rw [heq]
    exact ⟨rfl, fun d hd => by cases hd⟩

end Zeroship.Billing

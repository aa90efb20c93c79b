import Zeroship.Base.Machine
import Zeroship.Billing.Invoices

/-! Drives: how an invoice is made, one statement or call at a time.

`bill_organization_with_parts` claims the invoice of a period, removes the lines that its
pricing does not have, writes and posts the others, and finalizes. Each statement and each
call to Stripe is a step here; a drive may end between any two, and the next one finds what it
has left. A correction is written by `adjustment_note_invoice` in the same way. -/
namespace Zeroship.Billing
open Base
open Metering (AppId)

/-! ### Billing a period -/

/-- What a drive has read of its invoice: the lines with an item, and all lines. -/
structure Snapshot where
  invoice : InvoiceId
  (posted lineExists : List LineKey)

/-- Where a drive is: the statement or call it makes next. -/
inductive Stage where
  | claim | reread
  | readPosted (invoice : InvoiceId)
  | readLines (invoice : InvoiceId) (posted : List LineKey)
  | findOrphan (snap : Snapshot) (orphan : LineKey) (rest : List LineKey)
  | dropItem (snap : Snapshot) (item : StripeId) (orphan : LineKey) (rest : List LineKey)
  | dropRef (snap : Snapshot) (orphan : LineKey) (rest : List LineKey)
  | dropLine (snap : Snapshot) (orphan : LineKey) (rest : List LineKey)
  | writeLine (snap : Snapshot) (line : BilledLine) (rest : List BilledLine)
  | findItem (snap : Snapshot) (line : BilledLine) (rest : List BilledLine)
  | postItem (snap : Snapshot) (line : BilledLine) (rest : List BilledLine)
  | confirm (snap : Snapshot) (line : BilledLine) (rest : List BilledLine) (item : StripeId)
  | readDraft (snap : Snapshot)
  | createInvoice (snap : Snapshot)
  | keepDraft (snap : Snapshot) (draft : StripeId)
  | finalize (snap : Snapshot) (draft : StripeId)
  | settle (snap : Snapshot) (draft : StripeId)

structure Drive where
  period : Int
  pricing : Pricing
  stage : Stage

/-- The credit that the ledger gives for the invoice, and its tax. -/
structure Settlement where
  (creditCents taxCents : Int)

def nextLine (snap : Snapshot) : List BilledLine → Stage
  | [] => .readDraft snap
  | line :: rest => if line.key ∈ snap.posted then nextLine snap rest else .writeLine snap line rest

variable (snap : Snapshot) (lines : List BilledLine)

def nextOrphan : List LineKey → Stage
  | [] => nextLine snap lines
  | orphan :: rest => .findOrphan snap orphan rest

/-- `line_exists.union(&posted)` without the keys of the fresh lines. -/
def orphansOf : List LineKey :=
  (snap.lineExists ++ snap.posted.filter (· ∉ snap.lineExists)).filter (· ∉ lines.map (·.key))

namespace Drive

variable (b : Books)

/-- A drive begins with the invoice of the period and the pricing. It ends at once if the
period is billed, costs nothing, has no customer or costs too much. -/
def start (period : Int) (customer : Bool) (pricing : Pricing) : Option Drive :=
  match b.active period with
  | some (i, invoice) =>
    if invoice.status = .finalized ∨ pricing.total = 0 ∨ !customer ∨ 2 ^ 63 ≤ pricing.total then none
    else some ⟨period, pricing, .readPosted i⟩
  | none =>
    if pricing.total = 0 ∨ !customer ∨ 2 ^ 63 ≤ pricing.total then none
    else some ⟨period, pricing, .claim⟩

/-- On with the next stage, after a statement that was accepted. -/
def onward (d : Drive) (b : Books) (after : Option Books) (stage : Stage) : Books × Option Drive :=
  match after with
  | some b' => (b', some {d with stage := stage})
  | none => (b, none)

def step (d : Drive) (s : Settlement) : Books × Option Drive :=
  let lines := d.pricing.lines
  match d.stage with
  | .claim => (b.claim d.period, some {d with stage := .reread})
  | .reread => match b.active d.period with
    | some (i, _) => (b, some {d with stage := .readPosted i})
    | none => (b, none)
  | .readPosted i => (b, some {d with stage := .readLines i (b.lineRefs i).keys})
  | .readLines i posted =>
    let snap : Snapshot := ⟨i, posted, (b.lines i).keys⟩
    (b, some {d with stage := nextOrphan snap lines (orphansOf snap lines)})
  | .findOrphan snap orphan rest =>
    let item := if orphan ∈ snap.posted then (b.lineRefs snap.invoice).lookup orphan else b.findItem ⟨d.period, orphan⟩
    match item with
    | some id => (b, some {d with stage := .dropItem snap id orphan rest})
    | none => (b, some {d with stage := .dropRef snap orphan rest})
  | .dropItem snap item orphan rest => d.onward b (b.deleteItem item) (.dropRef snap orphan rest)
  | .dropRef snap orphan rest => (b.deleteLineRef snap.invoice orphan, some {d with stage := .dropLine snap orphan rest})
  | .dropLine snap orphan rest => d.onward b (b.deleteLine snap.invoice orphan) (nextOrphan snap lines rest)
  | .writeLine snap line rest =>
    d.onward b (b.upsertLine snap.invoice line.key line.amount)
      (if line.key ∈ snap.lineExists then .findItem snap line rest else .postItem snap line rest)
  | .findItem snap line rest => match b.findItem ⟨d.period, line.key⟩ with
    | some id => (b, some {d with stage := .confirm snap line rest id})
    | none => (b, some {d with stage := .postItem snap line rest})
  | .postItem snap line rest =>
    let made := b.createItem snap.invoice ⟨d.period, line.key⟩ line.amount
    (made.1, some {d with stage := .confirm snap line rest made.2})
  | .confirm snap line rest item => d.onward b (b.insertLineRef snap.invoice line.key item) (nextLine snap rest)
  | .readDraft snap => match b.refs snap.invoice .draftInvoice with
    | some id => (b, some {d with stage := .finalize snap id})
    | none => (b, some {d with stage := .createInvoice snap})
  | .createInvoice snap =>
    let made := b.createInvoice snap.invoice d.period
    (made.1, some {d with stage := .keepDraft snap made.2})
  | .keepDraft snap draft => (b.insertRef snap.invoice .draftInvoice draft, some {d with stage := .finalize snap draft})
  | .finalize snap draft => (b.finalizeStripe draft, some {d with stage := .settle snap draft})
  | .settle snap draft => match b.finalize snap.invoice d.pricing.total s.creditCents s.taxCents with
    | some b' => (b'.insertRef snap.invoice .invoice draft, none)
    | none => (b, none)

end Drive

/-- A note for the invoice of the period after the one it corrects. -/
structure NoteCall where
  period : Int
  app : Option AppId
  amountCents : Int
  idempotencyKey : String
  /-- The app has a plan. -/
  planned : Bool
deriving DecidableEq

inductive NoteStage where
  | find | claim | reread
  | readStatus (invoice : InvoiceId)
  | readKey (invoice : InvoiceId)
  | readFloor (invoice : InvoiceId)
  | insert (invoice : InvoiceId) (segment : Int)

structure NoteRun where
  call : NoteCall
  app : AppId
  stage : NoteStage

/-- How a statement of a note ends it, or that it goes on. -/
inductive NoteEnd where
  | onward (stage : NoteStage)
  | refused
  | accepted (invoice : InvoiceId)

namespace NoteRun

variable (b : Books) (n : NoteRun) (i : InvoiceId) (call : NoteCall)

def start : Option NoteRun := call.app.map fun app => ⟨call, app, .find⟩

/-- The lowest segment among the notes of an app, which lie above all usage. -/
def floor (app : AppId) : Int :=
  (((b.lines i).entries.filter fun e => e.1.app = app ∧ e.2.kind ≠ .usage).map (·.1.segment)).min?.getD 32767

def line : InvoiceLine :=
  ⟨if 0 < call.amountCents then .debitNote else .creditNote, call.amountCents, some call.idempotencyKey⟩

/-- The insert of the line. A key that is there already makes it none. -/
def insertLine (segment : Int) : Books × NoteEnd :=
  let key : LineKey := ⟨n.app, segment⟩
  if b.frozen i ∨ segment < 0 then (b, .refused)
  else if b.hasDedupKey n.call.idempotencyKey then (b, .accepted i)
  else if key ∈ b.lines i then (b, .refused)
  else ({b with lines := Function.update b.lines i ((b.lines i).insert key (line n.call))}, .accepted i)

def step : Books × NoteEnd :=
  match n.stage with
  | .find => match b.active n.call.period with
    | some (i, _) => (b, .onward (.readStatus i))
    | none => (b, .onward .claim)
  | .claim => (b.claim n.call.period, .onward .reread)
  | .reread => match b.active n.call.period with
    | some (i, _) => (b, .onward (.readStatus i))
    | none => (b, .refused)
  | .readStatus i => if b.frozen i ∨ !n.call.planned then (b, .refused) else (b, .onward (.readKey i))
  | .readKey i => if b.hasDedupKey n.call.idempotencyKey then (b, .accepted i) else (b, .onward (.readFloor i))
  | .readFloor i => if n.call.amountCents = 0 then (b, .refused) else (b, .onward (.insert i (floor b i n.app - 1)))
  | .insert i segment => insertLine b n i segment

end NoteRun

inductive Process where
  | drive (d : Drive)
  | note (n : NoteRun)

structure Office where
  books : Books
  running : Option Process

inductive OfficeInput where
  | bill (period : Int) (customer : Bool) (pricing : Pricing)
  | note (call : NoteCall)
  | advance (s : Settlement)
  | crash
  | void (i : InvoiceId)
  /-- Stripe forgets a key. -/
  | expireItem (key : ItemKey)
  | expireInvoice (period : Int)

/-- A correction was accepted for an invoice. -/
structure Accepted where
  invoice : InvoiceId
  call : NoteCall
deriving DecidableEq

namespace Office

def advanceNote (o : Office) (n : NoteRun) : Office × List Accepted :=
  match n.step o.books with
  | (b, .onward stage) => (⟨b, some (.note {n with stage := stage})⟩, [])
  | (b, .refused) => (⟨b, none⟩, [])
  | (b, .accepted i) => (⟨b, none⟩, [⟨i, n.call⟩])

def advanceDrive (o : Office) (d : Drive) (s : Settlement) : Office :=
  let after := d.step o.books s
  ⟨after.1, after.2.map .drive⟩

end Office

/-- Operations one after the other, each of which may crash on the way. -/
def office : Machine Office OfficeInput Accepted where
  step o
    | .bill period customer pricing => match o.running with
      | none => some ({o with running := (Drive.start o.books period customer pricing).map .drive}, [])
      | some _ => none
    | .note call => match o.running with
      | none => some ({o with running := (NoteRun.start call).map .note}, [])
      | some _ => none
    | .advance s => match o.running with
      | some (.drive d) => some (o.advanceDrive d s, [])
      | some (.note n) => some (o.advanceNote n)
      | none => none
    | .crash => some ({o with running := none}, [])
    | .void i => match o.running with
      | none => (o.books.void i).map fun b => (⟨b, none⟩, [])
      | some _ => none
    | .expireItem key =>
      some ({o with books := {o.books with itemReplays := Function.update o.books.itemReplays key none}}, [])
    | .expireInvoice period =>
      some ({o with books := {o.books with invoiceReplays := Function.update o.books.invoiceReplays period none}}, [])

def Office.start (b : Books) : Office := ⟨b, none⟩

end Zeroship.Billing

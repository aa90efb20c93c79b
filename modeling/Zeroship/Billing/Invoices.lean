import Zeroship.Metering.Meter

/-! Invoices: the tables and the provider.

One organization. Its invoices, their lines and the references to the provider's objects
are tables with the keys, checks and triggers of the schema; a statement that one of them
refuses is `none`. The provider, Stripe, keeps items and invoices, and for a while answers a
create under a key that it knows with the object made under that key. -/
namespace Zeroship.Billing
open List AList Function
open Metering (AppId)

/-- A line of an invoice: the app, and the stretch of the period that one plan covers. -/
structure LineKey where
  app : AppId
  segment : Int
deriving DecidableEq

structure BilledLine where
  key : LineKey
  amount : Nat
deriving DecidableEq

/-- What the segments of each app come to, in the order of their days. -/
structure Pricing where
  apps : List (AppId × List Nat)
  nodup : (apps.map (·.1)).Nodup

def sampleUsage : Pricing := ⟨[("app", [100])], List.nodup_singleton _⟩

namespace Pricing

variable (app : AppId) (charges : List Nat)

/-- The segments of one app that cost something. -/
def linesOf : List BilledLine :=
  (charges.zipIdx.filter (·.1 ≠ 0)).map fun c => ⟨⟨app, c.2⟩, c.1⟩

variable (p : Pricing)

def lines : List BilledLine := p.apps.flatMap fun a => linesOf a.1 a.2

/-- `u64::saturating_add`. -/
def saturatingAdd (a b : Nat) : Nat := min (a + b) (2 ^ 64 - 1)

def total : Nat := (p.lines.map (·.amount)).foldl saturatingAdd 0

theorem linesOf_nodup : ((linesOf app charges).map (·.key)).Nodup := by
  have hi : (charges.zipIdx.map (·.2)).Nodup := by
    rw [zipIdx_map_snd]
    exact nodup_range'
  have hk : ((charges.zipIdx.map (·.2)).map fun i : Nat => (⟨app, (i : Int)⟩ : LineKey)).Nodup :=
    hi.map fun i j hij => by simpa using hij
  refine Sublist.nodup ?_ hk
  rw [linesOf, map_map, map_map]
  exact Sublist.map _ filter_sublist

theorem nodup_lines : (p.lines.map (·.key)).Nodup := by
  rw [lines, map_flatMap, nodup_flatMap]
  refine ⟨fun a _ => linesOf_nodup a.1 a.2, ?_⟩
  refine (pairwise_map.mp p.nodup).imp fun {a b} hne => ?_
  intro key hk hk'
  obtain ⟨l, hl, rfl⟩ := mem_map.mp hk
  obtain ⟨l', hl', heq⟩ := mem_map.mp hk'
  obtain ⟨c, _, rfl⟩ := mem_map.mp hl
  obtain ⟨c', _, rfl⟩ := mem_map.mp hl'
  exact hne (congrArg LineKey.app heq).symm

theorem total_eq (h : p.total < 2 ^ 63) : p.total = (p.lines.map (·.amount)).sum := by
  have hs : ∀ (l : List Nat) (a : Nat), l.foldl saturatingAdd a < 2 ^ 63 → l.foldl saturatingAdd a = a + l.sum := by
    intro l
    induction l with
    | nil => intro a _; simp
    | cons x rest ih =>
      intro a hlt
      rw [foldl_cons] at hlt ⊢
      have hr := ih _ hlt
      rw [sum_cons, saturatingAdd] at *
      omega
  rw [total, hs _ 0 h, Nat.zero_add]

end Pricing

/-! ### The tables -/

abbrev InvoiceId := Nat

abbrev StripeId := Nat

inductive InvoiceStatus where
  | draft | finalized | void
deriving DecidableEq

structure Invoice where
  period : Int
  status : InvoiceStatus
  (subtotalCents creditCents taxCents totalCents : Int)
deriving DecidableEq

inductive LineKind where
  | usage | debitNote | creditNote
deriving DecidableEq

structure InvoiceLine where
  kind : LineKind
  amountCents : Int
  correctionDedupKey : Option String

/-- `invoice_lines_amount_cents_check`. -/
def InvoiceLine.allowed (l : InvoiceLine) : Bool :=
  match l.kind with
  | .usage => 0 ≤ l.amountCents && l.correctionDedupKey.isNone
  | .debitNote => 0 < l.amountCents && l.correctionDedupKey.isSome
  | .creditNote => l.amountCents < 0 && l.correctionDedupKey.isSome

inductive RefKind where
  | draftInvoice | invoice
deriving DecidableEq

/-- `invoice_item_idempotency_key`, without the organization. -/
structure ItemKey where
  period : Int
  line : LineKey
deriving DecidableEq

/-- An item at Stripe. It is pending until an invoice takes it up. -/
structure StripeItem where
  key : ItemKey
  amount : Nat
  attached : Option StripeId
  deleted : Bool
  /-- The invoice whose drive made it. Stripe does not know. -/
  madeFor : InvoiceId

structure StripeInvoice where
  finalized : Bool
  madeFor : InvoiceId

structure Books where
  invoices : AList fun _ : InvoiceId => Invoice
  lines : InvoiceId → AList fun _ : LineKey => InvoiceLine
  lineRefs : InvoiceId → AList fun _ : LineKey => StripeId
  refs : InvoiceId → RefKind → Option StripeId
  nextInvoice : InvoiceId
  items : AList fun _ : StripeId => StripeItem
  stripeInvoices : AList fun _ : StripeId => StripeInvoice
  itemReplays : ItemKey → Option StripeId
  invoiceReplays : Int → Option StripeId
  nextStripe : StripeId

namespace Books

def empty : Books := ⟨∅, fun _ => ∅, fun _ => ∅, fun _ _ => none, 0, ∅, ∅, fun _ => none, fun _ => none, 0⟩

variable (b : Books) (i : InvoiceId) (key : LineKey) (id : StripeId) (period : Int)

/-- The invoice of a period that is not void. -/
def active : Option (InvoiceId × Invoice) :=
  (b.invoices.entries.find? fun e => e.2.period = period ∧ e.2.status ≠ .void).map fun e => (e.1, e.2)

/-- `INSERT ... 'draft' ON CONFLICT (organization_id, period) WHERE status <> 'void' DO NOTHING`. -/
def claim : Books :=
  if (b.active period).isSome then b
  else {b with
    invoices := b.invoices.insert b.nextInvoice ⟨period, .draft, 0, 0, 0, 0⟩
    nextInvoice := b.nextInvoice + 1}

/-- `invoice_lines_immutable`: the lines of a finalized invoice are frozen. -/
def frozen : Bool := ((b.invoices.lookup i).map (·.status)) = some .finalized

/-- `ON CONFLICT DO UPDATE`: a line that is there keeps its kind and its key. -/
def upserted (old : Option InvoiceLine) (amount : Int) : InvoiceLine :=
  match old with
  | some line => {line with amountCents := amount}
  | none => ⟨.usage, amount, none⟩

def upsertLine (amount : Int) : Option Books :=
  let line := upserted ((b.lines i).lookup key) amount
  if b.frozen i ∨ !line.allowed ∨ key.segment < 0 then none
  else some {b with lines := Function.update b.lines i ((b.lines i).insert key line)}

def deleteLineRef : Books :=
  {b with lineRefs := Function.update b.lineRefs i ((b.lineRefs i).erase key)}

/-- The references of a line go with it. -/
def deleteLine : Option Books :=
  if b.frozen i ∧ key ∈ b.lines i then none
  else some {b.deleteLineRef i key with lines := Function.update b.lines i ((b.lines i).erase key)}

/-- A reference needs its line, and the first one stays. -/
def insertLineRef (item : StripeId) : Option Books :=
  if key ∈ b.lineRefs i then some b
  else if key ∈ b.lines i then some {b with lineRefs := Function.update b.lineRefs i ((b.lineRefs i).insert key item)}
  else none

def insertRef (kind : RefKind) (external : StripeId) : Books :=
  if (b.refs i kind).isSome then b
  else {b with refs := Function.update b.refs i (Function.update (b.refs i) kind (some external))}

/-- `invoices_immutable` and the checks of the row, with the one active invoice of a period. -/
def finalize (subtotal credit tax : Int) : Option Books := do
  let invoice ← b.invoices.lookup i
  guard (invoice.status ≠ .finalized ∧ 0 ≤ subtotal ∧ 0 ≤ credit ∧ 0 ≤ tax ∧ 0 ≤ subtotal - credit + tax)
  guard (invoice.status = .void → b.active invoice.period = none)
  some {b with
    invoices := b.invoices.insert i ⟨invoice.period, .finalized, subtotal, credit, tax, subtotal - credit + tax⟩}

/-- The only change of a finalized invoice. -/
def void (b : Books) (i : InvoiceId) : Option Books := do
  let invoice ← b.invoices.lookup i
  guard (invoice.status = .finalized)
  some {b with invoices := b.invoices.insert i {invoice with status := .void}}

/-- A line, under any invoice, with this key of a correction. -/
def hasDedupKey (key : String) : Bool :=
  b.invoices.keys.any fun i => (b.lines i).entries.any fun e => e.2.correctionDedupKey = some key

/-- `find_invoice_item_by_key`: among the pending items. -/
def findItem (key : ItemKey) : Option StripeId :=
  (b.items.entries.find? fun e => e.2.key = key ∧ e.2.attached = none ∧ e.2.deleted = false).map (·.1)

def createItem (key : ItemKey) (amount : Nat) : Books × StripeId :=
  match b.itemReplays key with
  | some id => (b, id)
  | none =>
    ({b with
      items := b.items.insert b.nextStripe ⟨key, amount, none, false, i⟩
      itemReplays := Function.update b.itemReplays key (some b.nextStripe)
      nextStripe := b.nextStripe + 1}, b.nextStripe)

/-- An item of a finalized invoice cannot be deleted; one that is gone may be again. -/
def deleteItem : Option Books :=
  match b.items.lookup id with
  | none => some b
  | some item =>
    if item.deleted then some b
    else if (item.attached.bind b.stripeInvoices.lookup).any (·.finalized) then none
    else some {b with items := b.items.insert id {item with deleted := true}}

/-- The pending items go onto the new invoice. -/
def sweep (items : AList fun _ : StripeId => StripeItem) (invoice : StripeId) : AList fun _ : StripeId => StripeItem :=
  ⟨items.entries.map fun e => ⟨e.1, if e.2.attached = none ∧ e.2.deleted = false then {e.2 with attached := some invoice} else e.2⟩, by
    have hkeys : (items.entries.map fun e : (_ : StripeId) × StripeItem =>
        (⟨e.1, if e.2.attached = none ∧ e.2.deleted = false then {e.2 with attached := some invoice} else e.2⟩ :
          (_ : StripeId) × StripeItem)).keys = items.entries.keys := by
      simp [List.keys, Function.comp_def]
    rw [List.NodupKeys, hkeys]
    exact items.nodupKeys⟩

def createInvoice : Books × StripeId :=
  match b.invoiceReplays period with
  | some id => (b, id)
  | none =>
    ({b with
      stripeInvoices := b.stripeInvoices.insert b.nextStripe ⟨false, i⟩
      items := sweep b.items b.nextStripe
      invoiceReplays := Function.update b.invoiceReplays period (some b.nextStripe)
      nextStripe := b.nextStripe + 1}, b.nextStripe)

/-- Finalizing a second time answers `invoice_already_finalized`, which counts as done. -/
def finalizeStripe : Books :=
  {b with stripeInvoices := match b.stripeInvoices.lookup id with
    | some invoice => b.stripeInvoices.insert id {invoice with finalized := true}
    | none => b.stripeInvoices}

end Books

namespace Books
variable {b b' : Books} {p : Int} {i : InvoiceId} {inv : Invoice} {k : LineKey} {id : StripeId} {item : StripeItem}
  {key : ItemKey} {items : AList fun _ : StripeId => StripeItem}

theorem active_some (h : b.active p = some (i, inv)) :
    b.invoices.lookup i = some inv ∧ inv.period = p ∧ inv.status ≠ .void := by
  obtain ⟨e, he, heq⟩ := Option.map_eq_some_iff.mp h
  have hm := mem_of_find?_eq_some he
  have hc := find?_some he
  simp only [ne_eq, decide_eq_true_eq] at hc
  cases heq
  exact ⟨mem_lookup_iff.mpr hm, hc⟩

theorem active_none (h : b.active p = none) {j : InvoiceId} (hj : b.invoices.lookup j = some inv) (hp : inv.period = p) :
    inv.status = .void := by
  have hn := find?_eq_none.mp (Option.map_eq_none_iff.mp h) ⟨j, inv⟩ (mem_lookup_iff.mp hj)
  simpa [hp] using hn

theorem active_insert {row : Invoice} (hp : row.period = p) (hs : row.status ≠ .void) (j : InvoiceId) :
    ({b with invoices := b.invoices.insert j row} : Books).active p = some (j, row) := by
  simp [active, entries_insert, hp, hs]

theorem findItem_some (h : b.findItem key = some id) :
    ∃ item, b.items.lookup id = some item ∧ item.key = key ∧ item.attached = none ∧ item.deleted = false := by
  obtain ⟨e, he, rfl⟩ := Option.map_eq_some_iff.mp h
  have hc := find?_some he
  simp only [decide_eq_true_eq] at hc
  exact ⟨e.2, mem_lookup_iff.mpr (mem_of_find?_eq_some he), hc⟩

theorem findItem_none (h : b.findItem key = none)
    (hi : b.items.lookup id = some item) (hk : item.key = key) (hp : item.attached = none) : item.deleted := by
  have hn := find?_eq_none.mp (Option.map_eq_none_iff.mp h) ⟨id, item⟩ (mem_lookup_iff.mp hi)
  simpa [hk, hp] using hn

theorem lookup_sweep_of (v : StripeId)
    (h : items.lookup id = some item) : ∃ new, (sweep items v).lookup id = some new ∧ new.key = item.key ∧
      new.amount = item.amount ∧ new.deleted = item.deleted ∧ new.madeFor = item.madeFor := by
  refine ⟨if item.attached = none ∧ item.deleted = false then {item with attached := some v} else item,
    mem_lookup_iff.mpr (mem_map.mpr ⟨⟨id, item⟩, mem_lookup_iff.mp h, rfl⟩), ?_⟩
  split <;> exact ⟨rfl, rfl, rfl, rfl⟩

theorem lookup_sweep {v : StripeId}
    (h : (sweep items v).lookup id = some item) : ∃ old, items.lookup id = some old ∧ item.key = old.key ∧
      item.amount = old.amount ∧ item.deleted = old.deleted ∧ item.madeFor = old.madeFor := by
  obtain ⟨e, he, heq⟩ := mem_map.mp (mem_lookup_iff.mp h)
  cases heq
  have ho : items.lookup e.1 = some e.2 := mem_lookup_iff.mpr he
  obtain ⟨new, hn, hs⟩ := lookup_sweep_of v ho
  rw [h] at hn
  cases hn
  exact ⟨e.2, ho, hs⟩

@[simp] theorem lineRefs_deleteLineRef : (b.deleteLineRef i k).lineRefs i = (b.lineRefs i).erase k :=
  update_self ..

theorem deleteLine_some (h : b.deleteLine i k = some b') :
    b'.lines i = (b.lines i).erase k ∧ b'.lineRefs i = (b.lineRefs i).erase k ∧ b'.items = b.items ∧
      b'.itemReplays = b.itemReplays ∧ b'.nextStripe = b.nextStripe ∧ b'.invoices = b.invoices := by
  unfold deleteLine at h
  split at h
  · cases h
  cases h
  exact ⟨update_self .., update_self .., rfl, rfl, rfl, rfl⟩

theorem upsertLine_some {amount : Int} (h : b.upsertLine i k amount = some b') :
    b'.lines i = (b.lines i).insert k (upserted ((b.lines i).lookup k) amount) ∧ b'.lineRefs = b.lineRefs ∧
      b'.items = b.items ∧ b'.itemReplays = b.itemReplays ∧ b'.nextStripe = b.nextStripe ∧ b'.invoices = b.invoices := by
  unfold upsertLine at h
  dsimp only at h
  split at h
  · cases h
  cases h
  exact ⟨update_self .., rfl, rfl, rfl, rfl, rfl⟩

theorem insertLineRef_some (h : b.insertLineRef i k id = some b') :
    (k ∈ b.lineRefs i ∧ b' = b) ∨ ∃ refs, refs i = (b.lineRefs i).insert k id ∧ (∀ j, j ≠ i → refs j = b.lineRefs j) ∧
      b' = {b with lineRefs := refs} := by
  unfold insertLineRef at h
  split at h
  · next ho =>
    cases h
    exact .inl ⟨ho, rfl⟩
  split at h
  · cases h
    exact .inr ⟨_, update_self .., fun j hj => update_of_ne hj .., rfl⟩
  · cases h

theorem deleteItem_some (h : b.deleteItem id = some b') :
    (b' = b ∧ ∀ item, b.items.lookup id = some item → item.deleted) ∨ ∃ item, b.items.lookup id = some item ∧
      b' = {b with items := b.items.insert id {item with deleted := true}} := by
  unfold deleteItem at h
  split at h
  · next hn =>
    cases h
    exact .inl ⟨rfl, fun item hi => by rw [hn] at hi; cases hi⟩
  next item hi =>
  split at h
  · next hd =>
    cases h
    exact .inl ⟨rfl, fun item' hi' => Option.mem_unique hi hi' ▸ hd⟩
  split at h
  · cases h
  · cases h
    exact .inr ⟨item, hi, rfl⟩

theorem refs_insertRef (j : InvoiceId) (kind kind' : RefKind) : (b.insertRef i kind id).refs j kind' =
    if j = i ∧ kind' = kind then (b.refs i kind).or (some id) else b.refs j kind' := by
  unfold insertRef
  split
  · next hs =>
    split
    · next heq => rw [heq.1, heq.2, Option.or_of_isSome hs]
    · rfl
  · next hn =>
    rw [Option.not_isSome_iff_eq_none.mp hn]
    by_cases hj : j = i
    · subst hj
      by_cases hk : kind' = kind <;> simp [hk]
    · simp [hj]

theorem amount_upserted (old : Option InvoiceLine) (amount : Int) : (upserted old amount).amountCents = amount := by
  cases old <;> rfl

theorem insertRef_tables (b : Books) (i : InvoiceId) (kind : RefKind) (id : StripeId) :
    (b.insertRef i kind id).lines = b.lines ∧ (b.insertRef i kind id).lineRefs = b.lineRefs ∧
      (b.insertRef i kind id).items = b.items ∧ (b.insertRef i kind id).itemReplays = b.itemReplays ∧
      (b.insertRef i kind id).nextStripe = b.nextStripe ∧ (b.insertRef i kind id).invoices = b.invoices := by
  unfold insertRef
  split <;> exact ⟨rfl, rfl, rfl, rfl, rfl, rfl⟩

theorem finalize_some {subtotal credit tax : Int} (h : b.finalize i subtotal credit tax = some b') :
    ∃ inv, b.invoices.lookup i = some inv ∧ b' = {b with
      invoices := b.invoices.insert i ⟨inv.period, .finalized, subtotal, credit, tax, subtotal - credit + tax⟩} := by
  obtain ⟨inv, hi, h⟩ := Option.bind_eq_some_iff.mp h
  obtain ⟨_, -, h⟩ := Option.bind_eq_some_iff.mp h
  obtain ⟨_, -, h⟩ := Option.bind_eq_some_iff.mp h
  exact ⟨inv, hi, (Option.some.inj h).symm⟩

end Books

end Zeroship.Billing

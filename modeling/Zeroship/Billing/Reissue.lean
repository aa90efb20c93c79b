import Zeroship.Billing.Answers

/-! Reissued invoices and the objects behind them.

A voided period is billed again under a new row, while the keys that Stripe knows its objects
by are made of period, app and segment alone. A period that is billed again when nothing of its
voided row is left at Stripe gets objects of its own; while Stripe replays, a reissue gets the
objects of the row that was voided. -/
namespace Zeroship.Billing
open Base Books Option Drive

variable (b : Books) (id : StripeId) (i : InvoiceId)

def ItemFor : Prop := (b.items.lookup id).map (·.madeFor) = some i

def InvoiceFor : Prop := (b.stripeInvoices.lookup id).map (·.madeFor) = some i

/-- What is linked to a row was made for it, and a finalized row has its invoice. -/
structure Owned (b : Books) : Prop where
  items : ∀ {id item}, b.items.lookup id = some item → id < b.nextStripe
  stripeInvoices : ∀ {id v}, b.stripeInvoices.lookup id = some v → id < b.nextStripe
  refs : ∀ {i kind id}, b.refs i kind = some id → InvoiceFor b id i
  lineRefs : ∀ {i k id}, (b.lineRefs i).lookup k = some id → ItemFor b id i
  backed : ∀ {i inv}, b.invoices.lookup i = some inv → inv.status = .finalized → (b.refs i .invoice).isSome

/-- Stripe keeps who an object was made for. -/
structure Remembers (b b' : Books) : Prop where
  items : ∀ {id i}, ItemFor b id i → ItemFor b' id i
  invoices : ∀ {id i}, InvoiceFor b id i → InvoiceFor b' id i

theorem Remembers.refl (b : Books) : Remembers b b := ⟨fun h => h, fun h => h⟩

/-- Two rows share no object at Stripe. -/
def NoAlias : Prop :=
  (∀ {i j kind kind' id}, b.refs i kind = some id → b.refs j kind' = some id → i = j) ∧
    ∀ {i j k k' id}, (b.lineRefs i).lookup k = some id → (b.lineRefs j).lookup k' = some id → i = j

theorem Owned.noAlias {b : Books} (h : Owned b) : NoAlias b := by
  constructor
  · intro i j kind kind' id hi hj
    exact some.inj ((h.refs hi).symm.trans (h.refs hj))
  · intro i j k k' id hi hj
    exact some.inj ((h.lineRefs hi).symm.trans (h.lineRefs hj))

/-! ### What each statement does to the links -/

section
variable {b b' : Books} {i : InvoiceId} {k : LineKey} {id : StripeId}

section
variable (h : Owned b)
include h

theorem Owned.unlinked (hi : b'.items = b.items) (hin : b'.stripeInvoices = b.stripeInvoices)
    (hn : b'.nextStripe = b.nextStripe) (hrf : b'.refs = b.refs)
    (hl : ∀ {i k id}, (b'.lineRefs i).lookup k = some id → (b.lineRefs i).lookup k = some id)
    (hfn : ∀ {i inv}, b'.invoices.lookup i = some inv → inv.status = .finalized →
      ∃ old, b.invoices.lookup i = some old ∧ old.status = .finalized) : Owned b' ∧ Remembers b b' := by
  have hm : Remembers b b' := by
    constructor
    · intro id i hf
      rw [ItemFor, hi]
      exact hf
    · intro id i hf
      rw [InvoiceFor, hin]
      exact hf
  refine ⟨⟨?_, ?_, ?_, fun hr => hm.items (h.lineRefs (hl hr)), ?_⟩, hm⟩
  · rw [hi, hn]
    exact h.items
  · rw [hin, hn]
    exact h.stripeInvoices
  · rw [hrf]
    exact fun hr => hm.invoices (h.refs hr)
  · intro i inv hinv hs
    obtain ⟨old, ho, hol⟩ := hfn hinv hs
    rw [hrf]
    exact h.backed ho hol

theorem Owned.claim (period : Int) : Owned (b.claim period) ∧ Remembers b (b.claim period) := by
  rw [Books.claim]
  split
  · exact ⟨h, .refl b⟩
  refine h.unlinked rfl rfl rfl rfl (fun hr => hr) fun {i inv} hi hs => ?_
  rcases insert_cases hi with ⟨-, rfl⟩ | ⟨-, ho⟩
  · cases hs
  · exact ⟨inv, ho, hs⟩

theorem Owned.deleteLineRef (i : InvoiceId) (k : LineKey) :
    Owned (b.deleteLineRef i k) ∧ Remembers b (b.deleteLineRef i k) := by
  refine h.unlinked rfl rfl rfl rfl (fun {j k' id} hr => ?_) fun hi hs => ⟨_, hi, hs⟩
  by_cases heq : j = i
  · subst heq
    rw [lineRefs_deleteLineRef] at hr
    exact (erase_cases hr).2
  · rw [Books.deleteLineRef] at hr
    simp only [Function.update_of_ne heq] at hr
    exact hr

theorem Owned.deleteLine (hd : b.deleteLine i k = some b') : Owned b' ∧ Remembers b b' := by
  unfold Books.deleteLine at hd
  split at hd
  · cases hd
  cases hd
  obtain ⟨ho, hm⟩ := h.deleteLineRef i k
  exact ⟨⟨ho.items, ho.stripeInvoices, ho.refs, ho.lineRefs, ho.backed⟩,
    ⟨hm.items, hm.invoices⟩⟩

theorem Owned.upsertLine {amount : Int} (hw : b.upsertLine i k amount = some b') : Owned b' ∧ Remembers b b' := by
  unfold Books.upsertLine at hw
  dsimp only at hw
  split at hw
  · cases hw
  cases hw
  exact ⟨⟨h.items, h.stripeInvoices, h.refs, h.lineRefs, h.backed⟩, ⟨fun ho => ho, fun ho => ho⟩⟩

theorem Owned.deleteItem (hd : b.deleteItem id = some b') : Owned b' ∧ Remembers b b' := by
  obtain ⟨rfl, -⟩ | ⟨item, hi, rfl⟩ := deleteItem_some hd
  · exact ⟨h, .refl _⟩
  have hf : ∀ {id' j}, ItemFor b id' j → ((b.items.insert id {item with deleted := true}).lookup id').map (·.madeFor) = some j := by
    refine fun ho => map_lookup_insert ho fun heq => ?_
    rw [ItemFor, heq, hi] at ho
    exact some.inj ho
  refine ⟨⟨fun {id' item'} hl => ?_, h.stripeInvoices, h.refs, fun hr => hf (h.lineRefs hr), h.backed⟩,
    ⟨hf, fun ho => ho⟩⟩
  rcases insert_cases hl with ⟨rfl, -⟩ | ⟨-, ho⟩
  · exact h.items hi
  · exact h.items ho

theorem Owned.createItem {key : ItemKey} {amount : Nat} (hrp : ∀ id, b.itemReplays key = some id → ItemFor b id i) :
    Owned (b.createItem i key amount).1 ∧ Remembers b (b.createItem i key amount).1 ∧
      ItemFor (b.createItem i key amount).1 (b.createItem i key amount).2 i := by
  unfold Books.createItem
  split
  · next id hid => exact ⟨h, .refl b, hrp id hid⟩
  have hf : ∀ {id' j}, ItemFor b id' j →
      ((b.items.insert b.nextStripe ⟨key, amount, none, false, i⟩).lookup id').map (·.madeFor) = some j := by
    refine fun ho => map_lookup_insert ho fun heq => ?_
    obtain ⟨item, hi, -⟩ := map_eq_some_iff.mp ho
    exact absurd heq (h.items hi).ne
  refine ⟨⟨fun {id' item'} hl => ?_, fun hv => Nat.lt_succ_of_lt (h.stripeInvoices hv), h.refs,
    fun hr => hf (h.lineRefs hr), h.backed⟩, ⟨hf, fun ho => ho⟩, ?_⟩
  · rcases insert_cases hl with ⟨rfl, -⟩ | ⟨-, ho⟩
    · exact Nat.lt_succ_self _
    · exact Nat.lt_succ_of_lt (h.items ho)
  · simp [ItemFor]

theorem Owned.insertLineRef (hf : ItemFor b id i) (hi : b.insertLineRef i k id = some b') :
    Owned b' ∧ Remembers b b' := by
  obtain ⟨-, rfl⟩ | ⟨refs, hh, hot, rfl⟩ := insertLineRef_some hi
  · exact ⟨h, .refl _⟩
  refine ⟨⟨h.items, h.stripeInvoices, h.refs, fun {j k' id'} hr => ?_, h.backed⟩, ⟨fun ho => ho, fun ho => ho⟩⟩
  by_cases heq : j = i
  · simp only [heq, hh] at hr
    rcases insert_cases hr with ⟨-, rfl⟩ | ⟨-, ho⟩
    · exact heq ▸ hf
    · exact heq ▸ h.lineRefs ho
  · simp only [hot j heq] at hr
    exact h.lineRefs hr

theorem Owned.createInvoice {period : Int} (hrp : ∀ id, b.invoiceReplays period = some id → InvoiceFor b id i) :
    Owned (b.createInvoice i period).1 ∧ Remembers b (b.createInvoice i period).1 ∧
      InvoiceFor (b.createInvoice i period).1 (b.createInvoice i period).2 i := by
  unfold Books.createInvoice
  split
  · next id hid => exact ⟨h, .refl b, hrp id hid⟩
  have hitf : ∀ {id' j}, ItemFor b id' j →
      ((sweep b.items b.nextStripe).lookup id').map (·.madeFor) = some j := by
    intro id' j ho
    obtain ⟨item, hitem, hm⟩ := map_eq_some_iff.mp ho
    obtain ⟨new, hn, -, -, -, hs⟩ := lookup_sweep_of b.nextStripe hitem
    rw [hn, map_some, hs, hm]
  have hi : ∀ {id' j}, InvoiceFor b id' j →
      ((b.stripeInvoices.insert b.nextStripe ⟨false, i⟩).lookup id').map (·.madeFor) = some j := by
    refine fun ho => map_lookup_insert ho fun heq => ?_
    obtain ⟨v, hv, -⟩ := map_eq_some_iff.mp ho
    exact absurd heq (h.stripeInvoices hv).ne
  refine ⟨⟨fun {id' item'} hl => ?_, fun {id' v} hl => ?_, fun hr => hi (h.refs hr),
    fun hr => hitf (h.lineRefs hr), h.backed⟩, ⟨hitf, hi⟩, ?_⟩
  · obtain ⟨old, ho, -⟩ := lookup_sweep hl
    exact Nat.lt_succ_of_lt (h.items ho)
  · rcases insert_cases hl with ⟨rfl, -⟩ | ⟨-, ho⟩
    · exact Nat.lt_succ_self _
    · exact Nat.lt_succ_of_lt (h.stripeInvoices ho)
  · simp [InvoiceFor]

theorem Owned.finalizeStripe (id : StripeId) : Owned (b.finalizeStripe id) ∧ Remembers b (b.finalizeStripe id) := by
  have hf : ∀ {id' j}, InvoiceFor b id' j → InvoiceFor (b.finalizeStripe id) id' j := by
    intro id' j ho
    rw [InvoiceFor, Books.finalizeStripe]
    split
    · next v hv =>
      refine map_lookup_insert ho fun heq => ?_
      rw [InvoiceFor, heq, hv] at ho
      exact some.inj ho
    · exact ho
  refine ⟨⟨h.items, fun {id' v} hl => ?_, fun hr => hf (h.refs hr), h.lineRefs, h.backed⟩,
    ⟨fun ho => ho, hf⟩⟩
  simp only [Books.finalizeStripe] at hl
  split at hl
  · next v' hv =>
    rcases insert_cases hl with ⟨rfl, -⟩ | ⟨-, ho⟩
    · exact h.stripeInvoices hv
    · exact h.stripeInvoices ho
  · exact h.stripeInvoices hl

end

theorem Owned.insertRef (h : Owned b) (hf : InvoiceFor b id i) (kind : RefKind) {rows : AList fun _ : InvoiceId => Invoice}
    (hrw : ∀ {j inv}, rows.lookup j = some inv → inv.status = .finalized →
      (b.refs j .invoice).isSome ∨ (j = i ∧ kind = .invoice)) :
    Owned (({b with invoices := rows} : Books).insertRef i kind id) ∧
      Remembers b (({b with invoices := rows} : Books).insertRef i kind id) := by
  obtain ⟨-, hl, hitm, -, hn, hin⟩ := insertRef_tables {b with invoices := rows} i kind id
  have hs : (({b with invoices := rows} : Books).insertRef i kind id).stripeInvoices = b.stripeInvoices := by
    unfold Books.insertRef
    split <;> rfl
  have hm : Remembers b (({b with invoices := rows} : Books).insertRef i kind id) := by
    constructor
    · intro id' j ho
      rw [ItemFor, hitm]
      exact ho
    · intro id' j ho
      rw [InvoiceFor, hs]
      exact ho
  refine ⟨⟨?_, ?_, fun {j kind' id'} hr => ?_, ?_, fun {j inv} hi hst => ?_⟩, hm⟩
  · rw [hitm, hn]
    exact h.items
  · rw [hs, hn]
    exact h.stripeInvoices
  · rw [refs_insertRef] at hr
    split at hr
    · next heq =>
      rcases or_eq_some_iff.mp hr with ho | ⟨-, hnw⟩
      · exact hm.invoices (heq.1 ▸ h.refs ho)
      · exact hm.invoices (heq.1 ▸ some.inj hnw ▸ hf)
    · exact hm.invoices (h.refs hr)
  · rw [hl]
    exact fun hr => hm.items (h.lineRefs hr)
  · rw [hin] at hi
    rw [refs_insertRef]
    split
    · simp
    · next hne => exact (hrw hi hst).resolve_right fun heq => hne ⟨heq.1, heq.2.symm⟩

end

/-! ### Drives that are answered with their own objects -/

/-- What Stripe would answer a drive with, or find for it, was made for the drive's row. -/
def Drive.answeredOwn (b : Books) (d : Drive) : Prop :=
  match d.stage with
  | .findItem snap line _ => ∀ id ∈ b.findItem ⟨d.period, line.key⟩, ItemFor b id snap.invoice
  | .postItem snap line _ => ∀ id ∈ b.itemReplays ⟨d.period, line.key⟩, ItemFor b id snap.invoice
  | .createInvoice snap => ∀ id ∈ b.invoiceReplays d.period, InvoiceFor b id snap.invoice
  | _ => True

/-- The object that a drive is about to link. -/
def Drive.holdsOwn (b : Books) (d : Drive) : Prop :=
  match d.stage with
  | .confirm snap _ _ id => ItemFor b id snap.invoice
  | .keepDraft snap id | .finalize snap id | .settle snap id => InvoiceFor b id snap.invoice
  | _ => True

theorem Remembers.holdsOwn {b b' : Books} (h : Remembers b b') {d : Drive} (hd : d.holdsOwn b) : d.holdsOwn b' := by
  obtain ⟨period, pricing, stage⟩ := d
  cases stage with
  | confirm snap l rest id => exact h.items hd
  | keepDraft snap id | finalize snap id | settle snap id => exact h.invoices hd
  | _ => trivial

section
variable {b : Books} {d d' : Drive} {s : Settlement} {stage : Stage} {b' : Books}

theorem holdsOwn_nextLine (b : Books) (d : Drive) (snap : Snapshot) (lines : List BilledLine) :
    holdsOwn b {d with stage := nextLine snap lines} := by
  induction lines with
  | nil => trivial
  | cons l rest ih =>
    rw [nextLine]
    split
    · exact ih
    · trivial

theorem holdsOwn_nextOrphan (b : Books) (d : Drive) (snap : Snapshot) (lines : List BilledLine) (orphans : List LineKey) :
    holdsOwn b {d with stage := nextOrphan snap lines orphans} := by
  cases orphans with
  | nil => exact holdsOwn_nextLine b d snap lines
  | cons orphan rest => trivial

theorem holdsOwn_start {period : Int} {customer : Bool} {pricing : Pricing}
    (h : start b period customer pricing = some d) : d.holdsOwn b := by
  unfold start at h
  split at h
  · split at h
    · cases h
    · cases h
      trivial
  · split at h
    · cases h
    · cases h
      trivial

/-- What a step of a drive has to show. -/
def StaysOwned (b : Books) (after : Books × Option Drive) : Prop :=
  Owned after.1 ∧ Remembers b after.1 ∧ ∀ d', after.2 = some d' → d'.holdsOwn after.1

theorem StaysOwned.same (h : Owned b) {left : Option Drive} (hd : ∀ d', left = some d' → d'.holdsOwn b) :
    StaysOwned b (b, left) :=
  ⟨h, .refl b, hd⟩

theorem StaysOwned.goesOn (h : Owned b' ∧ Remembers b b') (hd : d'.holdsOwn b') : StaysOwned b (b', some d') :=
  ⟨h.1, h.2, fun _ heq => some.inj heq ▸ hd⟩

theorem StaysOwned.onward (h : Owned b) {after : Option Books}
    (ha : ∀ b', after = some b' → (Owned b' ∧ Remembers b b') ∧ holdsOwn b' {d with stage := stage}) :
    StaysOwned b (d.onward b after stage) := by
  cases after with
  | none => exact .same h fun _ heq => by cases heq
  | some b' => exact .goesOn (ha b' rfl).1 (ha b' rfl).2

theorem Drive.step_owned (h : Owned b) (hh : d.holdsOwn b) (ha : d.answeredOwn b) (s : Settlement) :
    StaysOwned b (d.step b s) := by
  obtain ⟨period, pricing, stage⟩ := d
  cases stage with
  | claim => exact .goesOn (h.claim period) trivial
  | reread =>
    simp only [step]
    split
    · exact .goesOn ⟨h, .refl b⟩ trivial
    · exact .same h fun _ heq => by cases heq
  | readPosted i => exact .goesOn ⟨h, .refl b⟩ trivial
  | readLines i posted => exact .goesOn ⟨h, .refl b⟩ (holdsOwn_nextOrphan ..)
  | findOrphan snap orphan rest =>
    dsimp only [step]
    split <;> exact .goesOn ⟨h, .refl b⟩ trivial
  | dropItem snap id orphan rest => exact .onward h fun _ hd => ⟨h.deleteItem hd, trivial⟩
  | dropRef snap orphan rest => exact .goesOn (h.deleteLineRef snap.invoice orphan) trivial
  | dropLine snap orphan rest => exact .onward h fun _ hd => ⟨h.deleteLine hd, holdsOwn_nextOrphan ..⟩
  | writeLine snap line rest =>
    refine .onward h fun _ hw => ⟨h.upsertLine hw, ?_⟩
    split <;> trivial
  | findItem snap line rest =>
    simp only [step]
    split
    · next id hfnd => exact .goesOn ⟨h, .refl b⟩ (ha id hfnd)
    · exact .goesOn ⟨h, .refl b⟩ trivial
  | postItem snap line rest =>
    obtain ⟨ho, hm, hf⟩ := h.createItem ha
    exact .goesOn ⟨ho, hm⟩ hf
  | confirm snap line rest id =>
    exact .onward h fun _ hin => ⟨h.insertLineRef hh hin, holdsOwn_nextLine ..⟩
  | readDraft snap =>
    simp only [step]
    split
    · next id hid => exact .goesOn ⟨h, .refl b⟩ (h.refs hid)
    · exact .goesOn ⟨h, .refl b⟩ trivial
  | createInvoice snap =>
    obtain ⟨ho, hm, hf⟩ := h.createInvoice ha
    exact .goesOn ⟨ho, hm⟩ hf
  | keepDraft snap id =>
    have hk := h.insertRef hh .draftInvoice fun hi hs => .inl (h.backed hi hs)
    exact .goesOn hk (hk.2.invoices hh)
  | finalize snap id =>
    have hfn := h.finalizeStripe id
    exact .goesOn hfn (hfn.2.invoices hh)
  | settle snap id =>
    simp only [step]
    split
    · next b' hfnl =>
      obtain ⟨inv, hi, rfl⟩ := finalize_some hfnl
      have hrw : ∀ {j row}, (b.invoices.insert snap.invoice ⟨inv.period, .finalized, pricing.total, s.creditCents,
          s.taxCents, pricing.total - s.creditCents + s.taxCents⟩).lookup j = some row → row.status = .finalized →
          (b.refs j .invoice).isSome ∨ (j = snap.invoice ∧ RefKind.invoice = .invoice) := by
        intro j row hr hs
        rcases insert_cases hr with ⟨rfl, -⟩ | ⟨-, hol⟩
        · exact .inr ⟨rfl, rfl⟩
        · exact .inl (h.backed hol hs)
      have hst := h.insertRef hh .invoice hrw
      exact ⟨hst.1, hst.2, fun _ heq => by cases heq⟩
    · exact .same h fun _ heq => by cases heq

theorem NoteStep.owned {n : NoteRun} {ending : NoteEnd} (hs : NoteStep b n b' ending) (h : Owned b) :
    Owned b' ∧ Remembers b b' := by
  cases hs with
  | read | refused | known => exact ⟨h, .refl b⟩
  | claimed => exact h.claim _
  | written => exact ⟨⟨h.items, h.stripeInvoices, h.refs, h.lineRefs, h.backed⟩, ⟨fun ho => ho, fun ho => ho⟩⟩

theorem Owned.void (h : Owned b) {i : InvoiceId} (hv : b.void i = some b') : Owned b' ∧ Remembers b b' := by
  obtain ⟨inv, hi, hv⟩ := bind_eq_some_iff.mp hv
  obtain ⟨_, -, hv⟩ := bind_eq_some_iff.mp hv
  cases hv
  refine h.unlinked rfl rfl rfl rfl (fun hr => hr) fun {j row} hrw hs => ?_
  rcases insert_cases hrw with ⟨-, rfl⟩ | ⟨-, ho⟩
  · cases hs
  · exact ⟨row, ho, hs⟩

end

/-- A drive whose period has nothing of a voided row left is answered with objects of its own. -/
theorem Issued.answeredOwn {w : Bureau} (h : Issued w) {desk : Nat} {d : Drive}
    (hd : w.desks.lookup desk = some (.drive d)) : d.answeredOwn w.books := by
  obtain ⟨ha, hr⟩ := h.drives hd
  have ho {i j : InvoiceId} (hi : d.stage.invoice = some i) (hj : j ∈ w.books.answers d.period) : some j = some i :=
    congrArg some (h.rows.one (ha j hj) (hr i hi))
  obtain ⟨period, pricing, stage⟩ := d
  cases stage with
  | findItem snap line rest =>
    intro id hid
    obtain ⟨item, hi, hk, hp⟩ := findItem_some hid
    rw [ItemFor, hi]
    exact ho rfl (mem_answers.mpr (.inl ⟨id, item, hi, by rw [hk], rfl, .inr hp⟩))
  | postItem snap line rest =>
    intro id hid
    obtain ⟨-, item, hi, hk⟩ := h.remembered.item hid
    rw [ItemFor, hi]
    exact ho rfl (mem_answers.mpr (.inl ⟨id, item, hi, by rw [hk], rfl, .inl (hk ▸ hid)⟩))
  | createInvoice snap =>
    intro id hid
    obtain ⟨-, v, hv⟩ := h.remembered.invoice hid
    rw [InvoiceFor, hv]
    exact ho rfl (mem_answers.mpr (.inr ⟨id, v, hid, hv, rfl⟩))
  | _ => trivial

structure Linked (w : Bureau) : Prop where
  owned : Owned w.books
  desks : ∀ {desk d}, w.desks.lookup desk = some (.drive d) → d.holdsOwn w.books

theorem Linked.step {w : Bureau} (h : Linked w) {b' : Books} (hb : Owned b' ∧ Remembers w.books b') (desk : Nat)
    {left : Option Process} (hl : ∀ d, left = some (.drive d) → d.holdsOwn b') :
    Linked ⟨b', Bureau.put w.desks desk left⟩ := by
  refine ⟨hb.1, fun {desk' d} hd => ?_⟩
  rcases Bureau.lookup_put hd with ⟨-, heq⟩ | ⟨-, ho⟩
  · exact hl d heq
  · exact hb.2.holdsOwn (h.desks ho)

theorem linked_empty : Linked (.start .empty) :=
  ⟨⟨(by cases ·), (by cases ·), (by cases ·), (by cases ·), (by cases ·)⟩, (by cases ·)⟩

theorem issued_empty : Issued (.start .empty) where
  rows := ⟨(by cases ·), fun ⟨_, hi, _⟩ => by cases hi⟩
  remembered := ⟨(by cases ·), (by cases ·)⟩
  own hi := by cases hi
  drives hd := by cases hd

/-- In every run in which a period is billed again only once nothing of its voided row is left at
Stripe, and no row is voided under a drive of its period: no two rows share an object, and every
finalized row has an invoice that was made for it. -/
theorem reissue_noAlias {h : History Bureau (Nat × OfficeInput) Accepted} {w : Bureau}
    (run : bureau.Run Renewed (.start .empty) h w) : NoAlias w.books ∧ Owned w.books := by
  suffices hl : Linked w ∧ Issued w from ⟨hl.1.owned.noAlias, hl.1.owned⟩
  refine run.invariant (fun _ w => Linked w ∧ Issued w) ⟨linked_empty, issued_empty⟩ ?_
  intro h w w' input outputs _ ⟨hl, hi⟩ henv ht
  obtain ⟨desk, input⟩ := input
  refine ⟨?_, hi.next henv ht⟩
  obtain ⟨left, hst, hw'⟩ := bureau_step ht
  rw [hw']
  generalize w'.books = books at hst
  have hsm : Owned w.books ∧ Remembers w.books w.books := ⟨hl.owned, .refl _⟩
  cases hst with
  | billed =>
    refine hl.step hsm desk fun d heq => ?_
    obtain ⟨d', hstr, heq⟩ := map_eq_some_iff.mp heq
    cases heq
    exact holdsOwn_start hstr
  | asked =>
    refine hl.step hsm desk fun d heq => ?_
    obtain ⟨n, _, heq⟩ := map_eq_some_iff.mp heq
    cases heq
  | @drove d s hds =>
    obtain ⟨ho, hm, hlf⟩ := step_owned hl.owned (hl.desks hds) (hi.answeredOwn hds) s
    refine hl.step ⟨ho, hm⟩ desk fun d' heq => ?_
    obtain ⟨d'', hd, heq⟩ := map_eq_some_iff.mp heq
    cases heq
    exact hlf _ hd
  | @noted n s o accepted hds hst =>
    obtain ⟨hb, hlf⟩ := Office.advanceNote_books hst
    rw [hb]
    exact hl.step ((n.step_cases w.books).owned hl.owned) desk fun d heq => absurd heq (hlf d)
  | crashed => exact hl.step hsm desk fun _ heq => by cases heq
  | voided hv => exact hl.step (hl.owned.void hv) desk fun _ heq => by cases heq
  | forgotItem | forgotInvoice =>
    refine hl.step ?_ desk fun d heq => hl.desks heq
    exact hl.owned.unlinked rfl rfl rfl rfl (fun hr => hr) fun hi hs => ⟨_, hi, hs⟩

/-- A period is billed, voided and billed again. -/
def reissued (between : List OfficeInput) : List (Nat × OfficeInput) :=
  let drive : List OfficeInput := .bill 0 true sampleUsage :: List.replicate 12 (.advance ⟨0, 0⟩)
  (drive ++ [OfficeInput.void 0] ++ between ++ drive).map fun input => (0, input)

/-- Row 1 is finalized on the item and the invoice that were made for the voided row 0. -/
theorem reissue_aliases : ∃ h w, bureau.Run .anything (.start .empty) h w ∧
    w.books.invoices.lookup 0 = some ⟨0, .void, 100, 0, 0, 100⟩ ∧
    w.books.invoices.lookup 1 = some ⟨0, .finalized, 100, 0, 0, 100⟩ ∧
    w.books.refs 0 .invoice = some 1 ∧ w.books.refs 1 .invoice = some 1 ∧
    (w.books.lineRefs 0).lookup ⟨"app", 0⟩ = some 0 ∧ (w.books.lineRefs 1).lookup ⟨"app", 0⟩ = some 0 ∧
    ¬ NoAlias w.books := by
  have hr := Machine.Run.of_trace (Machine.offered_anything [] (bureau.trace (.start .empty) (reissued [])))
  have hv : (bureau.reach (.start .empty) (reissued [])).books.refs 0 .invoice = some 1 := by decide +kernel
  have ha : (bureau.reach (.start .empty) (reissued [])).books.refs 1 .invoice = some 1 := by decide +kernel
  refine ⟨_, _, hr, by decide +kernel, by decide +kernel, hv, ha, by decide +kernel, by decide +kernel,
    fun hn => ?_⟩
  have hs := hn.1 hv ha
  cases hs

/-- Once Stripe has forgotten the keys, the reissue gets objects of its own. -/
theorem reissue_apart : ∃ h w, bureau.Run Renewed (.start .empty) h w ∧
    w.books.refs 0 .invoice = some 1 ∧ w.books.refs 1 .invoice = some 3 ∧ NoAlias w.books ∧ Owned w.books := by
  have ho : Machine.Offered Renewed []
      (bureau.trace (.start .empty) (reissued [.expireItem ⟨0, ⟨"app", 0⟩⟩, .expireInvoice 0])) := by decide +kernel
  have hr := Machine.Run.of_trace ho
  exact ⟨_, _, hr, by decide +kernel, by decide +kernel, reissue_noAlias hr⟩

end Zeroship.Billing

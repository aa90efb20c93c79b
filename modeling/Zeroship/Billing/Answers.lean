import Zeroship.Billing.Bureau

/-! What Stripe would answer the keys of a period with.

A key is made of period, app and segment, so an object that was made for one row of a period may
be the answer to a drive of another row of it: while Stripe remembers the key, or while an item
waits for its invoice. A period has one row at a time that is not void. If nothing of a voided
row is left to answer with when a period is billed, and none is voided under a drive of its
period, then a drive is only ever answered with objects of its own row. -/
namespace Zeroship.Billing
open Base Books List

variable (b : Books) (period : Int) (i : InvoiceId)

/-- The rows that Stripe has objects of to answer a key of the period with. -/
def Books.answers : List InvoiceId :=
  (b.items.entries.filter fun e => e.2.key.period = period ∧
    (b.itemReplays e.2.key = some e.1 ∨ (e.2.attached = none ∧ e.2.deleted = false))).map (·.2.madeFor) ++
  ((b.invoiceReplays period).bind b.stripeInvoices.lookup).toList.map (·.madeFor)

/-- Nothing of a voided row is left to answer with. -/
def Books.Forgot : Prop := ∀ i ∈ b.answers period, (b.invoices.lookup i).map (·.status) ≠ some .void

instance : Decidable (b.Forgot period) := inferInstanceAs (Decidable (∀ i ∈ b.answers period, _))

/-- A key that is remembered has its object. -/
structure Remembered : Prop where
  item : ∀ {key id}, b.itemReplays key = some id →
    id < b.nextStripe ∧ ∃ item, b.items.lookup id = some item ∧ item.key = key
  invoice : ∀ {p id}, b.invoiceReplays p = some id → id < b.nextStripe ∧ ∃ v, b.stripeInvoices.lookup id = some v

/-- Ids are new, and a period has one row that is not void. -/
structure OneRow : Prop where
  known : ∀ {i inv}, b.invoices.lookup i = some inv → i < b.nextInvoice
  one : ∀ {p i j}, RowOf b p i → RowOf b p j → i = j

section
variable {b b' : Books} {period p : Int} {i j : InvoiceId} {id : StripeId} {d : Drive} {inv : Invoice}

theorem mem_answers : i ∈ b.answers p ↔
    (∃ id item, b.items.lookup id = some item ∧ item.key.period = p ∧ item.madeFor = i ∧
      (b.itemReplays item.key = some id ∨ (item.attached = none ∧ item.deleted = false))) ∨
    ∃ id v, b.invoiceReplays p = some id ∧ b.stripeInvoices.lookup id = some v ∧ v.madeFor = i := by
  unfold answers
  rw [mem_append, mem_map, mem_map]
  refine or_congr ⟨?_, ?_⟩ ⟨?_, ?_⟩
  · rintro ⟨e, he, hm⟩
    obtain ⟨he, hc⟩ := mem_filter.mp he
    obtain ⟨hp, hr⟩ := of_decide_eq_true hc
    exact ⟨e.1, e.2, AList.mem_lookup_iff.mpr he, hp, hm, hr⟩
  · rintro ⟨id, item, hi, hp, hm, hr⟩
    exact ⟨⟨id, item⟩, mem_filter.mpr ⟨AList.mem_lookup_iff.mp hi, decide_eq_true ⟨hp, hr⟩⟩, hm⟩
  · rintro ⟨v, hv, hm⟩
    obtain ⟨id, hr, hl⟩ := Option.bind_eq_some_iff.mp (Option.mem_toList.mp hv)
    exact ⟨id, v, hr, hl, hm⟩
  · rintro ⟨id, v, hr, hl, hm⟩
    exact ⟨v, Option.mem_toList.mpr (Option.bind_eq_some_iff.mpr ⟨id, hr, hl⟩), hm⟩

/-! ### What the calls to Stripe add -/

/-- What a statement does to the answers: it adds at most the row it works on, for its period. -/
structure Adds (at? : Option InvoiceId) (period : Int) (b b' : Books) : Prop where
  remembered : Remembered b → Remembered b'
  answers : Remembered b → ∀ {p j}, j ∈ b'.answers p → j ∈ b.answers p ∨ (p = period ∧ at? = some j)

/-- A statement that Stripe does not see. -/
theorem Adds.unseen {at? : Option InvoiceId} (hi : b'.items = b.items) (hr : b'.itemReplays = b.itemReplays)
    (hv : b'.stripeInvoices = b.stripeInvoices) (hir : b'.invoiceReplays = b.invoiceReplays)
    (hn : b'.nextStripe = b.nextStripe) : Adds at? period b b' := by
  refine ⟨fun h => ⟨?_, ?_⟩, fun h {p j} hj => .inl ?_⟩
  · rw [hr, hi, hn]
    exact h.item
  · rw [hir, hv, hn]
    exact h.invoice
  · rwa [Books.answers, hi, hr, hv, hir] at hj

theorem Adds.same {at? : Option InvoiceId} (b : Books) : Adds at? period b b := .unseen rfl rfl rfl rfl rfl

theorem Adds.deleteItem {at? : Option InvoiceId} (hd : b.deleteItem id = some b') : Adds at? period b b' := by
  obtain ⟨rfl, -⟩ | ⟨item, hi, rfl⟩ := deleteItem_some hd
  · exact .same _
  refine ⟨fun h => ⟨fun {key id'} hr => ?_, h.invoice⟩, fun h {p j} hj => .inl ?_⟩
  · obtain ⟨hlt, old, ho, hk⟩ := h.item hr
    refine ⟨hlt, ?_⟩
    by_cases heq : id' = id
    · subst heq
      cases Option.mem_unique hi ho
      exact ⟨_, AList.lookup_insert _, hk⟩
    · exact ⟨old, (AList.lookup_insert_ne heq).trans ho, hk⟩
  · refine mem_answers.mpr ((mem_answers.mp hj).imp_left ?_)
    rintro ⟨id', item', hl, hp, hm, hr⟩
    rcases insert_cases hl with ⟨rfl, rfl⟩ | ⟨-, ho⟩
    · exact ⟨id', item, hi, hp, hm, hr.imp_right fun hd => by cases hd.2⟩
    · exact ⟨id', item', ho, hp, hm, hr⟩

theorem sweep_pending {items : AList fun _ : StripeId => StripeItem} {v : StripeId} {item : StripeItem}
    (h : (sweep items v).lookup id = some item) : ¬ (item.attached = none ∧ item.deleted = false) := by
  obtain ⟨e, -, heq⟩ := mem_map.mp (AList.mem_lookup_iff.mp h)
  cases heq
  split
  · simp
  · assumption

theorem Adds.createItem (b : Books) (k : LineKey) (amount : Nat) :
    Adds (some i) period b (b.createItem i ⟨period, k⟩ amount).1 := by
  unfold Books.createItem
  split
  · exact .same b
  refine ⟨fun h => ⟨fun {key id'} hr => ?_, fun hr => (h.invoice hr).imp_left Nat.lt_succ_of_lt⟩, fun h {p j} hj => ?_⟩
  · dsimp only at hr ⊢
    by_cases heq : key = ⟨period, k⟩
    · rw [heq, Function.update_self] at hr
      cases hr
      exact ⟨Nat.lt_succ_self _, _, AList.lookup_insert _, heq.symm⟩
    · rw [Function.update_of_ne heq] at hr
      obtain ⟨hlt, old, ho, hk⟩ := h.item hr
      exact ⟨Nat.lt_succ_of_lt hlt, old, (AList.lookup_insert_ne hlt.ne).trans ho, hk⟩
  · rcases mem_answers.mp hj with ⟨id', item', hl, hp, hm, hr⟩ | hv
    · rcases insert_cases hl with ⟨rfl, rfl⟩ | ⟨hne, ho⟩
      · exact .inr ⟨hp.symm, congrArg some hm⟩
      refine .inl (mem_answers.mpr (.inl ⟨id', item', ho, hp, hm, hr.imp_left fun hr => ?_⟩))
      by_cases heq : item'.key = ⟨period, k⟩
      · simp only [heq, Function.update_self, Option.some.injEq] at hr
        exact absurd hr.symm hne
      · simpa only [Function.update_of_ne heq] using hr
    · exact .inl (mem_answers.mpr (.inr hv))

theorem Adds.createInvoice (b : Books) (i : InvoiceId) (period : Int) :
    Adds (some i) period b (b.createInvoice i period).1 := by
  unfold Books.createInvoice
  split
  · exact .same b
  refine ⟨fun h => ⟨fun {key id'} hr => ?_, fun {p id'} hr => ?_⟩, fun h {p j} hj => ?_⟩
  · obtain ⟨hlt, old, ho, hk⟩ := h.item hr
    obtain ⟨new, hn, hnk, -⟩ := lookup_sweep_of b.nextStripe ho
    exact ⟨Nat.lt_succ_of_lt hlt, new, hn, hnk.trans hk⟩
  · dsimp only at hr ⊢
    by_cases hp : p = period
    · rw [hp, Function.update_self] at hr
      cases hr
      exact ⟨Nat.lt_succ_self _, _, AList.lookup_insert _⟩
    · rw [Function.update_of_ne hp] at hr
      obtain ⟨hlt, v, hv⟩ := h.invoice hr
      exact ⟨Nat.lt_succ_of_lt hlt, v, (AList.lookup_insert_ne hlt.ne).trans hv⟩
  · rcases mem_answers.mp hj with ⟨id', item', hl, hp, hm, hr⟩ | ⟨id', v, hr, hl, hm⟩
    · obtain ⟨old, ho, hk, -, -, hmf⟩ := lookup_sweep hl
      have hr := hr.resolve_right (sweep_pending hl)
      rw [hk] at hp hr
      exact .inl (mem_answers.mpr (.inl ⟨id', old, ho, hp, hmf.symm.trans hm, .inl hr⟩))
    · dsimp only at hr hl
      by_cases heq : p = period
      · rw [heq, Function.update_self] at hr
        cases hr
        rw [AList.lookup_insert] at hl
        cases hl
        exact .inr ⟨heq, congrArg some hm⟩
      · rw [Function.update_of_ne heq] at hr
        rcases insert_cases hl with ⟨rfl, -⟩ | ⟨-, ho⟩
        · exact absurd rfl (h.invoice hr).1.ne
        · exact .inl (mem_answers.mpr (.inr ⟨id', v, hr, ho, hm⟩))

theorem Adds.finalizeStripe {at? : Option InvoiceId} (b : Books) (id : StripeId) :
    Adds at? period b (b.finalizeStripe id) := by
  unfold Books.finalizeStripe
  split
  swap
  · exact .same b
  next v hv =>
  refine ⟨fun h => ⟨h.item, fun {p id'} hr => ?_⟩, fun h {p j} hj => .inl ?_⟩
  · obtain ⟨hlt, old, ho⟩ := h.invoice hr
    refine ⟨hlt, ?_⟩
    by_cases heq : id' = id
    · exact ⟨_, by rw [heq]; exact AList.lookup_insert _⟩
    · exact ⟨old, (AList.lookup_insert_ne heq).trans ho⟩
  · refine mem_answers.mpr ((mem_answers.mp hj).imp_right ?_)
    rintro ⟨id', v', hr, hl, hm⟩
    rcases insert_cases hl with ⟨rfl, rfl⟩ | ⟨-, ho⟩
    · exact ⟨id', v, hr, hv, hm⟩
    · exact ⟨id', v', hr, ho, hm⟩

theorem eq_of_update_none {κ : Type} [DecidableEq κ] {f : κ → Option StripeId} {k k' : κ}
    (h : Function.update f k none k' = some id) : f k' = some id := by
  by_cases heq : k' = k
  · rw [heq, Function.update_self] at h
    cases h
  · rwa [Function.update_of_ne heq] at h

/-- Forgetting keys adds nothing. -/
theorem Adds.forgot {at? : Option InvoiceId} {items : ItemKey → Option StripeId} {invoices : Int → Option StripeId}
    (hi : ∀ {key id}, items key = some id → b.itemReplays key = some id)
    (hv : ∀ {p id}, invoices p = some id → b.invoiceReplays p = some id) :
    Adds at? period b {b with itemReplays := items, invoiceReplays := invoices} := by
  refine ⟨fun h => ⟨fun hr => h.item (hi hr), fun hr => h.invoice (hv hr)⟩, fun h {p j} hj => .inl ?_⟩
  refine mem_answers.mpr ((mem_answers.mp hj).imp ?_ ?_)
  · rintro ⟨id', item', hl, hp, hm, hr⟩
    exact ⟨id', item', hl, hp, hm, hr.imp_left hi⟩
  · rintro ⟨id', v, hr, hl, hm⟩
    exact ⟨id', v, hv hr, hl, hm⟩

/-- A step of a drive adds its own row only. -/
theorem Drive.step_adds (b : Books) (d : Drive) (s : Settlement) : Adds d.stage.invoice d.period b (d.step b s).1 := by
  have ho {after : Option Books} {stage : Stage} (h : ∀ b', after = some b' → Adds d.stage.invoice d.period b b') :
      Adds d.stage.invoice d.period b (d.onward b after stage).1 := by
    cases after with
    | none => exact .same b
    | some b' => exact h b' rfl
  obtain ⟨period, pricing, stage⟩ := d
  cases stage with
  | claim =>
    simp only [step, Books.claim]
    split <;> exact .unseen rfl rfl rfl rfl rfl
  | reread | findOrphan snap orphan rest | findItem snap line rest | readDraft snap =>
    simp only [step]
    split <;> exact .same b
  | readPosted i | readLines i posted => exact .same b
  | dropItem snap id orphan rest => exact ho fun _ => .deleteItem
  | dropRef snap orphan rest => exact .unseen rfl rfl rfl rfl rfl
  | dropLine snap orphan rest =>
    refine ho fun b' h => ?_
    unfold Books.deleteLine at h
    split at h
    · cases h
    · cases h
      exact .unseen rfl rfl rfl rfl rfl
  | writeLine snap line rest =>
    refine ho fun b' h => ?_
    unfold Books.upsertLine at h
    dsimp only at h
    split at h
    · cases h
    · cases h
      exact .unseen rfl rfl rfl rfl rfl
  | postItem snap line rest => exact .createItem b _ _
  | confirm snap line rest id =>
    refine ho fun b' h => ?_
    obtain ⟨-, rfl⟩ | ⟨refs, -, -, rfl⟩ := insertLineRef_some h
    · exact .same _
    · exact .unseen rfl rfl rfl rfl rfl
  | createInvoice snap => exact .createInvoice b _ _
  | keepDraft snap id =>
    simp only [step, Books.insertRef]
    split <;> exact .unseen rfl rfl rfl rfl rfl
  | finalize snap id => exact .finalizeStripe b id
  | settle snap id =>
    simp only [step]
    split
    · next b' hf =>
      obtain ⟨inv, -, rfl⟩ := finalize_some hf
      unfold Books.insertRef
      split <;> exact .unseen rfl rfl rfl rfl rfl
    · exact .same b

/-! ### Rows -/

def PeriodOf (b : Books) (p : Int) (i : InvoiceId) : Prop := (b.invoices.lookup i).map (·.period) = some p

/-- A statement that voids nothing. -/
structure KeepsRows (b b' : Books) : Prop where
  oneRow : OneRow b'
  live : ∀ {p i}, RowOf b p i → RowOf b' p i
  period : ∀ {p i}, PeriodOf b p i → PeriodOf b' p i

theorem PeriodOf.rowOf (h : PeriodOf b p i) (hv : (b.invoices.lookup i).map (·.status) ≠ some .void) : RowOf b p i := by
  obtain ⟨inv, hi, hp⟩ := Option.map_eq_some_iff.mp h
  exact ⟨inv, hi, hp, fun hs => hv (by rw [hi, Option.map_some, hs])⟩

theorem KeepsRows.same (h : OneRow b) (hi : b'.invoices = b.invoices) (hn : b'.nextInvoice = b.nextInvoice) : KeepsRows b b' := by
  have hr : ∀ {p i}, RowOf b' p i ↔ RowOf b p i := by simp [RowOf, hi]
  refine ⟨⟨?_, fun h₁ h₂ => h.one (hr.mp h₁) (hr.mp h₂)⟩, hr.mpr, fun hp => ?_⟩
  · rw [hi, hn]
    exact h.known
  · rwa [PeriodOf, hi]

/-- A row is claimed only where the period has none but voided ones. -/
theorem KeepsRows.claim (h : OneRow b) (period : Int) : KeepsRows b (b.claim period) := by
  unfold Books.claim
  split
  · exact .same h rfl rfl
  next hn =>
  have hv {j : InvoiceId} (hj : RowOf b period j) : False := by
    obtain ⟨inv, hj, hp, hs⟩ := hj
    exact hs (active_none (Option.not_isSome_iff_eq_none.mp hn) hj hp)
  have ho {p : Int} {j : InvoiceId} (hj : RowOf ({b with
      invoices := b.invoices.insert b.nextInvoice ⟨period, .draft, 0, 0, 0, 0⟩
      nextInvoice := b.nextInvoice + 1}) p j) : RowOf b p j ∨ (p = period ∧ j = b.nextInvoice) := by
    obtain ⟨inv, hj, hp, hs⟩ := hj
    rcases insert_cases hj with ⟨rfl, rfl⟩ | ⟨-, hj⟩
    · exact .inr ⟨hp.symm, rfl⟩
    · exact .inl ⟨inv, hj, hp, hs⟩
  refine ⟨⟨fun hj => ?_, fun hi hj => ?_⟩, ?_, fun hp => map_lookup_insert hp fun heq => ?_⟩
  · rcases insert_cases hj with ⟨rfl, -⟩ | ⟨-, hj⟩
    · exact Nat.lt_succ_self _
    · exact Nat.lt_succ_of_lt (h.known hj)
  · rcases ho hi with hi | ⟨rfl, rfl⟩ <;> rcases ho hj with hj | ⟨hp, rfl⟩
    · exact h.one hi hj
    · exact (hv (hp ▸ hi)).elim
    · exact (hv hj).elim
    · rfl
  · rintro p j ⟨inv, hj, hr⟩
    exact ⟨inv, (AList.lookup_insert_ne (h.known hj).ne).trans hj, hr⟩
  · obtain ⟨inv, hi, -⟩ := Option.map_eq_some_iff.mp hp
    exact absurd heq (h.known hi).ne

theorem Wrote.keepsRows (hw : Wrote d b b') (h : OneRow b) (hl : ∀ i, d.stage.invoice = some i → RowOf b d.period i) :
    KeepsRows b b' := by
  cases hw with
  | nothing hi hn => exact .same h hi hn
  | claimed heq => exact heq ▸ .claim h d.period
  | @finalized i here inv inv' hr hp hs _ hi hn =>
    obtain ⟨row, hrow, -, hv⟩ := hl i here
    cases Option.mem_unique hr hrow
    have ho {p : Int} {j : InvoiceId} : RowOf b' p j ↔ RowOf b p j := by
      unfold RowOf
      rw [hi]
      by_cases heq : j = i
      · subst heq
        simp [AList.lookup_insert, hr, hp, hs, hv]
      · rw [AList.lookup_insert_ne heq]
    refine ⟨⟨fun hj => ?_, fun h₁ h₂ => h.one (ho.mp h₁) (ho.mp h₂)⟩, ho.mpr, fun hpr => ?_⟩
    · rw [hn]
      rw [hi] at hj
      rcases insert_cases hj with ⟨rfl, -⟩ | ⟨-, hj⟩
      · exact h.known hr
      · exact h.known hj
    · rw [PeriodOf, hi]
      refine map_lookup_insert hpr fun heq => ?_
      rw [PeriodOf, heq, hr] at hpr
      exact hp.trans (Option.some.inj hpr)

end

/-! ### Drives are answered with their own -/

def Process.drives (period : Int) : Process → Bool
  | .drive d => d.period = period
  | .note _ => false

/-- A period is billed when nothing of a voided row of it is left at Stripe, and a row is voided
when no drive of its period is on its way. -/
def Renewed : Environment Bureau (Nat × OfficeInput) Accepted := fun _ w input => match input.2 with
  | .bill period _ _ => w.books.Forgot period
  | .void i => ∀ e ∈ w.desks.entries, ∀ inv ∈ w.books.invoices.lookup i, e.2.drives inv.period = false
  | _ => True

instance decidableRenewed (h : History Bureau (Nat × OfficeInput) Accepted) (w : Bureau) :
    ∀ input, Decidable (Renewed h w input)
  | (_, .bill period _ _) => inferInstanceAs (Decidable (w.books.Forgot period))
  | (_, .void i) => inferInstanceAs (Decidable
      (∀ e ∈ w.desks.entries, ∀ inv ∈ w.books.invoices.lookup i, e.2.drives inv.period = false))
  | (_, .note _) | (_, .advance _) | (_, .crash) | (_, .expireItem _) | (_, .expireInvoice _) => .isTrue trivial

/-- What Stripe would answer a drive with is of a row that is not void, and so is its own. -/
structure Live (b : Books) (d : Drive) : Prop where
  answers : ∀ i ∈ b.answers d.period, RowOf b d.period i
  row : ∀ i, d.stage.invoice = some i → RowOf b d.period i

structure Issued (w : Bureau) : Prop where
  rows : OneRow w.books
  remembered : Remembered w.books
  own : ∀ {p i}, i ∈ w.books.answers p → PeriodOf w.books p i
  drives : ∀ {desk d}, w.desks.lookup desk = some (.drive d) → Live w.books d

section
variable {w w' : Bureau} {b' : Books} {d : Drive} {at? : Option InvoiceId} {period : Int} {desk : Nat}
  {left : Option Process} {input : OfficeInput} {outputs : List Accepted}
  {h : History Bureau (Nat × OfficeInput) Accepted}

theorem Live.step {b b' : Books} (h : Live b d) (hr : Remembered b) (ha : Adds at? period b b') (hk : KeepsRows b b')
    (hat : ∀ i, at? = some i → RowOf b period i) : Live b' d := by
  refine ⟨fun i hi => ?_, fun i hi => hk.live (h.row i hi)⟩
  rcases ha.answers hr hi with ho | ⟨heq, hi⟩
  · exact hk.live (h.answers i ho)
  · exact heq ▸ hk.live (hat i hi)

theorem Issued.step (h : Issued w) (ha : Adds at? period w.books b') (hk : KeepsRows w.books b')
    (hat : ∀ i, at? = some i → RowOf w.books period i) (hl : ∀ d, left = some (.drive d) → Live b' d) :
    Issued ⟨b', Bureau.put w.desks desk left⟩ := by
  refine ⟨hk.oneRow, ha.remembered h.remembered, fun hi => ?_, fun hd => ?_⟩
  · rcases ha.answers h.remembered hi with ho | ⟨rfl, hi⟩
    · exact hk.period (h.own ho)
    · obtain ⟨inv, hi, hp, -⟩ := hat _ hi
      exact hk.period (by rw [PeriodOf, hi, Option.map_some, hp])
  · rcases Bureau.lookup_put hd with ⟨-, heq⟩ | ⟨-, ho⟩
    · exact hl _ heq
    · exact (h.drives ho).step h.remembered ha hk hat

/-- A step that leaves the books as they are. -/
theorem Issued.unmoved (h : Issued w) (hl : ∀ d, left = some (.drive d) → Live w.books d) :
    Issued ⟨w.books, Bureau.put w.desks desk left⟩ := by
  have ha : Adds none 0 w.books w.books := .same _
  exact h.step ha (.same h.rows rfl rfl) (fun _ hi => by cases hi) hl

theorem Issued.void (h : Issued w) {i : InvoiceId} (hv : w.books.void i = some b')
    (hn : ∀ e ∈ w.desks.entries, ∀ inv ∈ w.books.invoices.lookup i, e.2.drives inv.period = false) :
    Issued ⟨b', Bureau.put w.desks desk none⟩ := by
  obtain ⟨inv, hi, hv⟩ := Option.bind_eq_some_iff.mp hv
  obtain ⟨_, -, hv⟩ := Option.bind_eq_some_iff.mp hv
  cases hv
  have hr {p : Int} {j : InvoiceId} (hj : RowOf {w.books with invoices := w.books.invoices.insert i {inv with status := .void}} p j) :
      RowOf w.books p j := by
    obtain ⟨row, hj, hp, hs⟩ := hj
    rcases insert_cases hj with ⟨-, rfl⟩ | ⟨-, hj⟩
    · exact absurd rfl hs
    · exact ⟨row, hj, hp, hs⟩
  refine ⟨⟨fun hj => ?_, fun h₁ h₂ => h.rows.one (hr h₁) (hr h₂)⟩, ⟨h.remembered.item, h.remembered.invoice⟩,
    fun hj => ?_, fun {desk' d} hd => ?_⟩
  · rcases insert_cases hj with ⟨rfl, -⟩ | ⟨-, hj⟩
    · exact h.rows.known hi
    · exact h.rows.known hj
  · have hp := h.own hj
    refine map_lookup_insert hp fun heq => ?_
    rw [PeriodOf, heq, hi] at hp
    exact Option.some.inj hp
  rcases Bureau.lookup_put hd with ⟨-, heq⟩ | ⟨-, hd⟩
  · cases heq
  -- The row that is voided is not one of a period with a drive.
  have hne : inv.period ≠ d.period := fun heq => by
    have hn := hn ⟨desk', .drive d⟩ (AList.mem_lookup_iff.mp hd) inv hi
    simp [Process.drives, heq] at hn
  have hk {j : InvoiceId} (hj : RowOf w.books d.period j) :
      RowOf {w.books with invoices := w.books.invoices.insert i {inv with status := .void}} d.period j := by
    obtain ⟨row, hj, hp, hs⟩ := hj
    refine ⟨row, (AList.lookup_insert_ne fun heq => ?_).trans hj, hp, hs⟩
    subst heq
    cases Option.mem_unique hi hj
    exact hne hp
  exact ⟨fun j hj => hk ((h.drives hd).answers j hj), fun j hj => hk ((h.drives hd).row j hj)⟩

/-- Every step that is offered so keeps it. -/
theorem Issued.next (hw : Issued w) (henv : Renewed h w (desk, input))
    (ht : bureau.step w (desk, input) = some (w', outputs)) : Issued w' := by
  obtain ⟨left, hs, heq⟩ := bureau_step ht
  rw [heq]
  generalize w'.books = books at hs
  have hn : ∀ i, (none : Option InvoiceId) = some i → RowOf w.books 0 i := fun _ hi => by cases hi
  cases hs with
  | @billed period customer pricing =>
    refine hw.unmoved fun d hd => ?_
    obtain ⟨d', hd, heq⟩ := Option.map_eq_some_iff.mp hd
    cases heq
    obtain ⟨rfl, -, hr⟩ := Drive.start_some hd
    exact ⟨fun i hi => (hw.own hi).rowOf (henv i hi), hr⟩
  | asked =>
    refine hw.unmoved fun d hd => ?_
    obtain ⟨n, -, heq⟩ := Option.map_eq_some_iff.mp hd
    cases heq
  | @drove d s hd =>
    have hl := hw.drives hd
    obtain ⟨hwr, hnx⟩ := d.step_advanced w.books s
    have hk := hwr.keepsRows hw.rows hl.row
    have ha := d.step_adds w.books s
    refine hw.step ha hk hl.row fun d' hd' => ?_
    obtain ⟨d'', hd', heq⟩ := Option.map_eq_some_iff.mp hd'
    cases heq
    obtain ⟨hp, -, hi⟩ := hnx d' hd'
    obtain ⟨han, -⟩ := hl.step hw.remembered ha hk hl.row
    refine ⟨hp ▸ han, fun i hdi => ?_⟩
    rw [hp]
    exact hk.live ((hi i hdi).elim (hl.row i) id)
  | @noted n s o accepted hd hst =>
    obtain ⟨hb, hlf⟩ := Office.advanceNote_books hst
    rw [hb]
    have hc := n.step_cases w.books
    generalize (n.step w.books).1 = after, (n.step w.books).2 = ending at hc
    cases hc with
    | read | refused | known => exact hw.unmoved fun d hd => absurd hd (hlf d)
    | claimed =>
      have ha : Adds none 0 w.books (w.books.claim n.call.period) := by
        unfold Books.claim
        split <;> exact .unseen rfl rfl rfl rfl rfl
      exact hw.step ha (.claim hw.rows _) hn fun d hd => absurd hd (hlf d)
    | @written i k =>
      have ha : Adds none 0 w.books {w.books with
          lines := Function.update w.books.lines i ((w.books.lines i).insert k (NoteRun.line n.call))} :=
        .unseen rfl rfl rfl rfl rfl
      exact hw.step ha (.same hw.rows rfl rfl) hn fun d hd => absurd hd (hlf d)
  | crashed => exact hw.unmoved fun d hd => by cases hd
  | voided hv => exact hw.void hv henv
  | @forgotItem key =>
    have ha : Adds none 0 w.books {w.books with itemReplays := Function.update w.books.itemReplays key none} :=
      .forgot (fun hr => eq_of_update_none hr) fun hr => hr
    exact hw.step ha (.same hw.rows rfl rfl) hn fun d hd =>
      (hw.drives hd).step hw.remembered ha (.same hw.rows rfl rfl) hn
  | @forgotInvoice p =>
    have ha : Adds none 0 w.books {w.books with invoiceReplays := Function.update w.books.invoiceReplays p none} :=
      .forgot (fun hr => hr) fun hr => eq_of_update_none hr
    exact hw.step ha (.same hw.rows rfl rfl) hn fun d hd =>
      (hw.drives hd).step hw.remembered ha (.same hw.rows rfl rfl) hn

end

end Zeroship.Billing

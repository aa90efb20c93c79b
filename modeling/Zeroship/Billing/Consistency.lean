import Zeroship.Base.Tables
import Zeroship.Billing.Drive

/-! A finalized invoice against its lines and its items.

Drives of one period follow each other, each cut short anywhere. What they keep tied is:
a live item has its line, a reference leads to the item of its line, and of a line with a
live item the amounts agree. A drive whose prices agree with the items that are there
finalizes the sum of all lines; one with other prices leaves the posted lines as they are
and finalizes its own sum. -/
namespace Zeroship.Billing
open Base List Books AList Drive Function
open Metering (AppId)

/-! ### What drives keep tied -/

/-- Nothing was done for a period yet. -/
structure Untouched (b : Books) (p : Int) : Prop where
  inactive : b.active p = none
  lines : ∀ i, b.nextInvoice ≤ i → b.lines i = ∅
  lineRefs : ∀ i, b.nextInvoice ≤ i → b.lineRefs i = ∅
  items : ∀ {id item}, b.items.lookup id = some item →
    id < b.nextStripe ∧ item.key.period ≠ p ∧ item.madeFor < b.nextInvoice
  replays : ∀ key, key.period = p → b.itemReplays key = none

/-- The lines of an invoice, their references and the items under the keys of its period. -/
structure Tied (b : Books) (p : Int) (i : InvoiceId) : Prop where
  usage : ∀ {k l}, (b.lines i).lookup k = some l → l.kind = .usage
  known : ∀ {id item}, b.items.lookup id = some item → id < b.nextStripe ∧ (item.madeFor = i → item.key.period = p)
  replayed : ∀ {id item}, b.items.lookup id = some item → item.key.period = p → b.itemReplays item.key = some id
  kept : ∀ {key id}, b.itemReplays key = some id → key.period = p →
    ∃ item, b.items.lookup id = some item ∧ item.key = key
  live : ∀ {id item}, b.items.lookup id = some item → item.key.period = p → item.deleted = false →
    item.key.line ∈ b.lines i ∧ (item.attached ≠ none → item.key.line ∈ b.lineRefs i)
  refs : ∀ {k id}, (b.lineRefs i).lookup k = some id → ∃ item l, b.items.lookup id = some item ∧ item.key = ⟨p, k⟩ ∧
    (b.lines i).lookup k = some l ∧ (item.deleted = false → l.amountCents = item.amount)

variable (b : Books) (p : Int)

/-- The invoice of the period, not finalized yet. -/
def Held (i : InvoiceId) : Prop := ∃ inv, b.active p = some (i, inv) ∧ inv.status = .draft

/-- No item of a line is left. -/
def NoLive (k : LineKey) : Prop :=
  ∀ {id item}, b.items.lookup id = some item → item.key = ⟨p, k⟩ → item.deleted

/-- Whatever was made under the key of a line is live and costs what the line does. -/
def Agrees (lines : List BilledLine) : Prop :=
  ∀ l ∈ lines, ∀ id item, b.items.lookup id = some item → item.key = ⟨p, l.key⟩ →
    item.deleted = false ∧ item.amount = l.amount

section
variable {b b' : Books} {p : Int} {i : InvoiceId} {k : LineKey} {id : StripeId} {lines : List BilledLine} {item : StripeItem}

theorem Tied.unique (h : Tied b p i) {id id' : StripeId} {item' : StripeItem} (hid : b.items.lookup id = some item)
    (hi' : b.items.lookup id' = some item') (hp : item.key.period = p) (hk : item'.key = item.key) : id' = id := by
  have hr := h.replayed hid hp
  have hr' := h.replayed hi' (by rw [hk, hp])
  rw [hk, hr] at hr'
  exact (Option.some.inj hr').symm

theorem Untouched.claim (h : Untouched b p) : Held (b.claim p) p b.nextInvoice ∧ Tied (b.claim p) p b.nextInvoice := by
  have hc : b.claim p = {b with
      invoices := b.invoices.insert b.nextInvoice ⟨p, .draft, 0, 0, 0, 0⟩
      nextInvoice := b.nextInvoice + 1} := by simp [Books.claim, h.inactive]
  rw [hc]
  refine ⟨⟨⟨p, .draft, 0, 0, 0, 0⟩, active_insert rfl (by simp) _, rfl⟩, ?_⟩
  have hln : b.lines b.nextInvoice = ∅ := h.lines _ le_rfl
  have hrf : b.lineRefs b.nextInvoice = ∅ := h.lineRefs _ le_rfl
  constructor
  · intro k l hl
    rw [hln] at hl
    cases hl
  · intro id item hi
    obtain ⟨hid, _, hm⟩ := h.items hi
    exact ⟨hid, fun heq => absurd heq hm.ne⟩
  · exact fun hi hp => absurd hp (h.items hi).2.1
  · intro key id hr hp
    rw [h.replays key hp] at hr
    cases hr
  · exact fun hi hp => absurd hp (h.items hi).2.1
  · intro k id hid
    rw [hrf] at hid
    cases hid

theorem Tied.deleteItem (h : Tied b p i) (hi : b.items.lookup id = some item)
    (hky : item.key = ⟨p, k⟩) (hdl : b.deleteItem id = some b') (hk : k ∉ lines.map (·.key)) (ha : Agrees b p lines) :
    Tied b' p i ∧ NoLive b' p k ∧ Agrees b' p lines ∧ b'.lines = b.lines ∧ b'.lineRefs = b.lineRefs ∧
      b'.invoices = b.invoices := by
  obtain ⟨rfl, hd⟩ | ⟨found, hf, rfl⟩ := deleteItem_some hdl
  · refine ⟨h, fun hot hk' => ?_, ha, rfl, rfl, rfl⟩
    obtain rfl := h.unique hi hot (by rw [hky]) (by rw [hky, hk'])
    exact hd _ hot
  obtain rfl : item = found := Option.mem_unique hi hf
  refine ⟨⟨h.usage, ?_, ?_, ?_, ?_, ?_⟩, ?_, ?_, rfl, rfl, rfl⟩
  · intro id' item' hlk
    rcases insert_cases hlk with ⟨rfl, rfl⟩ | ⟨_, ho⟩
    · exact ⟨(h.known hi).1, (h.known hi).2⟩
    · exact h.known ho
  · intro id' item' hlk hp
    rcases insert_cases hlk with ⟨rfl, rfl⟩ | ⟨_, ho⟩
    · have ho : b.itemReplays item.key = some id' := h.replayed hi hp
      exact ho
    · exact h.replayed ho hp
  · intro key id' hrp hp
    obtain ⟨item', hi', hk'⟩ := h.kept hrp hp
    by_cases heq : id' = id
    · subst heq
      obtain rfl : item = item' := Option.mem_unique hi hi'
      exact ⟨_, lookup_insert _, hk'⟩
    · exact ⟨item', (lookup_insert_ne heq).trans hi', hk'⟩
  · intro id' item' hlk hp hd
    rcases insert_cases hlk with ⟨rfl, rfl⟩ | ⟨_, ho⟩
    · cases hd
    · exact h.live ho hp hd
  · intro k' id' hr
    obtain ⟨item', l, hi', hk', hl, ham⟩ := h.refs hr
    by_cases heq : id' = id
    · subst heq
      obtain rfl : item = item' := Option.mem_unique hi hi'
      exact ⟨_, l, lookup_insert _, hk', hl, fun hlv => by cases hlv⟩
    · exact ⟨item', l, (lookup_insert_ne heq).trans hi', hk', hl, ham⟩
  · intro id' item' hlk hk'
    rcases insert_cases hlk with ⟨rfl, rfl⟩ | ⟨hne, ho⟩
    · rfl
    · exact absurd (h.unique hi ho (by rw [hky]) (by rw [hky, hk'])) hne
  · intro l hl id' item' hlk hk'
    rcases insert_cases hlk with ⟨rfl, rfl⟩ | ⟨_, ho⟩
    · have hkl : k = l.key := congrArg ItemKey.line (hky.symm.trans hk')
      exact absurd (mem_map.mpr ⟨l, hl, hkl.symm⟩) hk
    · exact ha l hl id' item' ho hk'

theorem NoLive.line_ne (h : NoLive b p k) (hi : b.items.lookup id = some item)
    (hp : item.key.period = p) (hl : item.deleted = false) : item.key.line ≠ k := by
  intro heq
  have hd := h hi (by rw [← heq, ← hp])
  rw [hl] at hd
  cases hd

section
variable (h : Tied b p i) {made : Books × StripeId} {j : InvoiceId}
include h

theorem Tied.deleteLineRef (hk : NoLive b p k) : Tied (b.deleteLineRef i k) p i := by
  refine ⟨h.usage, h.known, h.replayed, h.kept, ?_, ?_⟩
  · intro id item hi hp hl
    obtain ⟨hln, ha⟩ := h.live hi hp hl
    refine ⟨hln, fun hne => ?_⟩
    rw [lineRefs_deleteLineRef, mem_erase]
    exact ⟨hk.line_ne hi hp hl, ha hne⟩
  · intro k' id hr
    rw [lineRefs_deleteLineRef] at hr
    exact h.refs (erase_cases hr).2

theorem Tied.deleteLine (hk : NoLive b p k) (hd : b.deleteLine i k = some b') : Tied b' p i := by
  obtain ⟨hli, hrf, hitm, hrp, hn, -⟩ := deleteLine_some hd
  constructor
  · intro k' l hl
    rw [hli] at hl
    exact h.usage (erase_cases hl).2
  · rw [hitm, hn]
    exact h.known
  · rw [hitm, hrp]
    exact h.replayed
  · rw [hitm, hrp]
    exact h.kept
  · intro id item hi hp hlv
    rw [hitm] at hi
    obtain ⟨hln, hatt⟩ := h.live hi hp hlv
    have hne := hk.line_ne hi hp hlv
    rw [hli, hrf, mem_erase, mem_erase]
    exact ⟨⟨hne, hln⟩, fun hs => ⟨hne, hatt hs⟩⟩
  · intro k' id hr
    rw [hrf] at hr
    obtain ⟨hne, hr⟩ := erase_cases hr
    obtain ⟨item, l, hi, hky, hl, ha⟩ := h.refs hr
    rw [hitm, hli]
    exact ⟨item, l, hi, hky, (lookup_erase_ne hne).trans hl, ha⟩

theorem Tied.upsertLine {amount : Int} (hk : k ∉ b.lineRefs i)
    (hw : b.upsertLine i k amount = some b') : Tied b' p i := by
  obtain ⟨hln, hrf, hi, hrp, hn, -⟩ := upsertLine_some hw
  constructor
  · intro k' l hl
    rw [hln] at hl
    rcases insert_cases hl with ⟨rfl, rfl⟩ | ⟨_, ho⟩
    · cases ho : (b.lines i).lookup k' with
      | none => rfl
      | some old =>
        have hkn : old.kind = .usage := h.usage ho
        exact hkn
    · exact h.usage ho
  · rw [hi, hn]
    exact h.known
  · rw [hi, hrp]
    exact h.replayed
  · rw [hi, hrp]
    exact h.kept
  · intro id item hitem hp hlv
    rw [hi] at hitem
    obtain ⟨ho, ha⟩ := h.live hitem hp hlv
    rw [hln, hrf, mem_insert]
    exact ⟨.inr ho, ha⟩
  · intro k' id hr
    rw [hrf] at hr
    obtain ⟨item, l, hitem, hky, hl, heq⟩ := h.refs hr
    have hne : k' ≠ k := fun heq => hk (heq ▸ mem_of_lookup_eq hr)
    rw [hi, hln]
    exact ⟨item, l, hitem, hky, (lookup_insert_ne hne).trans hl, heq⟩

theorem Tied.createItem {l : BilledLine} (hln : l.key ∈ b.lines i) (hl : l ∈ lines)
    (hnd : (lines.map (·.key)).Nodup) (ha : Agrees b p lines) (hm : b.createItem j ⟨p, l.key⟩ l.amount = made) :
    Tied made.1 p i ∧ Agrees made.1 p lines ∧ (∃ item, made.1.items.lookup made.2 = some item ∧ item.key = ⟨p, l.key⟩) ∧
      made.1.lines = b.lines ∧ made.1.lineRefs = b.lineRefs ∧ made.1.invoices = b.invoices := by
  unfold Books.createItem at hm
  split at hm
  · next id hr =>
    subst hm
    exact ⟨h, ha, h.kept hr rfl, rfl, rfl, rfl⟩
  next hn =>
  subst hm
  have hne : ∀ {id' item'}, b.items.lookup id' = some item' → id' ≠ b.nextStripe :=
    fun hlk => ((h.known hlk).1).ne
  -- No item under this key was known, so no other item has it.
  have hot : ∀ {id' item'}, b.items.lookup id' = some item' → item'.key ≠ ⟨p, l.key⟩ := by
    intro id' item' hlk hk
    have hr := h.replayed hlk (by rw [hk])
    rw [hk, hn] at hr
    cases hr
  refine ⟨⟨h.usage, ?_, ?_, ?_, ?_, ?_⟩, ?_, ⟨_, lookup_insert _, rfl⟩, rfl, rfl, rfl⟩
  · intro id' item' hlk
    rcases insert_cases hlk with ⟨rfl, rfl⟩ | ⟨-, ho⟩
    · exact ⟨Nat.lt_succ_self _, fun _ => rfl⟩
    · exact ⟨Nat.lt_succ_of_lt (h.known ho).1, (h.known ho).2⟩
  · intro id' item' hlk hp
    rcases insert_cases hlk with ⟨rfl, rfl⟩ | ⟨-, ho⟩
    · exact update_self ..
    · exact (update_of_ne (hot ho) ..).trans (h.replayed ho hp)
  · intro key id' hr hp
    by_cases hk : key = ⟨p, l.key⟩
    · subst hk
      change update b.itemReplays ⟨p, l.key⟩ (some b.nextStripe) ⟨p, l.key⟩ = some id' at hr
      rw [update_self] at hr
      cases hr
      exact ⟨_, lookup_insert _, rfl⟩
    · change update b.itemReplays ⟨p, l.key⟩ (some b.nextStripe) key = some id' at hr
      rw [update_of_ne hk] at hr
      obtain ⟨item', hi', hk'⟩ := h.kept hr hp
      exact ⟨item', (lookup_insert_ne (hne hi')).trans hi', hk'⟩
  · intro id' item' hlk hp hlv
    rcases insert_cases hlk with ⟨rfl, rfl⟩ | ⟨-, ho⟩
    · exact ⟨hln, fun hatt => absurd rfl hatt⟩
    · exact h.live ho hp hlv
  · intro k' id' hrf
    obtain ⟨item', l', hi', hk', hl', ham⟩ := h.refs hrf
    exact ⟨item', l', (lookup_insert_ne (hne hi')).trans hi', hk', hl', ham⟩
  · intro l' hl' id' item' hlk hk'
    rcases insert_cases hlk with ⟨rfl, rfl⟩ | ⟨-, ho⟩
    · have hs : l = l' := inj_on_of_nodup_map hnd hl hl' (congrArg ItemKey.line hk')
      exact ⟨rfl, by rw [hs]⟩
    · exact ha l' hl' id' item' ho hk'

theorem Tied.insertLineRef (hitem : b.items.lookup id = some item)
    (hk : item.key = ⟨p, k⟩) {l : InvoiceLine} (hl : (b.lines i).lookup k = some l) (ha : l.amountCents = item.amount)
    (hi : b.insertLineRef i k id = some b') :
    Tied b' p i ∧ k ∈ b'.lineRefs i ∧ (∀ k', k' ≠ k → (k' ∈ b'.lineRefs i ↔ k' ∈ b.lineRefs i)) ∧
      b'.lines = b.lines ∧ b'.items = b.items ∧ b'.invoices = b.invoices := by
  obtain ⟨ho, rfl⟩ | ⟨refs, hr, -, rfl⟩ := insertLineRef_some hi
  · exact ⟨h, ho, fun _ _ => Iff.rfl, rfl, rfl, rfl⟩
  refine ⟨⟨h.usage, h.known, h.replayed, h.kept, ?_, ?_⟩, ?_, fun k' hne => ?_, rfl, rfl, rfl⟩
  · intro id' item' hi' hp hlv
    obtain ⟨hln, hatt⟩ := h.live hi' hp hlv
    simp only [hr, mem_insert]
    exact ⟨hln, fun hne => .inr (hatt hne)⟩
  · intro k' id' hrf
    simp only [hr] at hrf
    rcases insert_cases hrf with ⟨rfl, rfl⟩ | ⟨-, ho⟩
    · exact ⟨item, l, hitem, hk, hl, fun _ => ha⟩
    · exact h.refs ho
  · simp only [hr, mem_insert, true_or]
  · simp only [hr, mem_insert, hne, false_or]

theorem Tied.createInvoice (hal : ∀ k ∈ b.lines i, k ∈ b.lineRefs i) (hag : Agrees b p lines)
    {period : Int} (hm : b.createInvoice j period = made) :
    Tied made.1 p i ∧ Agrees made.1 p lines ∧ made.1.lines = b.lines ∧ made.1.lineRefs = b.lineRefs ∧
      made.1.invoices = b.invoices := by
  unfold Books.createInvoice at hm
  split at hm
  · subst hm
    exact ⟨h, hag, rfl, rfl, rfl⟩
  subst hm
  refine ⟨⟨h.usage, ?_, ?_, ?_, ?_, ?_⟩, ?_, rfl, rfl, rfl⟩
  · intro id item hlk
    obtain ⟨old, ho, hk, -, -, hm⟩ := lookup_sweep hlk
    obtain ⟨hid, how⟩ := h.known ho
    rw [hk, hm]
    exact ⟨Nat.lt_succ_of_lt hid, how⟩
  · intro id item hlk hp
    obtain ⟨old, ho, hk, -⟩ := lookup_sweep hlk
    rw [hk] at hp ⊢
    exact h.replayed ho hp
  · intro key id hrp hp
    obtain ⟨item, hi, rfl⟩ := h.kept hrp hp
    obtain ⟨new, hn, hk, -⟩ := lookup_sweep_of b.nextStripe hi
    exact ⟨new, hn, hk⟩
  · intro id item hlk hp hlv
    obtain ⟨old, ho, hk, -, hd, -⟩ := lookup_sweep hlk
    rw [hk] at hp ⊢
    have hln := (h.live ho hp (hd ▸ hlv)).1
    exact ⟨hln, fun _ => hal _ hln⟩
  · intro k id hr
    obtain ⟨item, l, hi, hk, hl, ha⟩ := h.refs hr
    obtain ⟨new, hn, hk', ha', hd, -⟩ := lookup_sweep_of b.nextStripe hi
    exact ⟨new, l, hn, hk'.trans hk, hl, fun hlv => by rw [ha', ha (hd ▸ hlv)]⟩
  · intro l hl id item hlk hk
    obtain ⟨old, ho, hk', ha, hd, -⟩ := lookup_sweep hlk
    rw [ha, hd]
    exact hag l hl id old ho (hk'.symm.trans hk)

theorem Tied.congr (hl : b'.lines i = b.lines i) (hr : b'.lineRefs i = b.lineRefs i)
    (hi : b'.items = b.items) (hrp : b'.itemReplays = b.itemReplays) (hn : b'.nextStripe = b.nextStripe) :
    Tied b' p i := by
  constructor
  · rw [hl]
    exact h.usage
  · rw [hi, hn]
    exact h.known
  · rw [hi, hrp]
    exact h.replayed
  · rw [hi, hrp]
    exact h.kept
  · rw [hi, hl, hr]
    exact h.live
  · rw [hi, hl, hr]
    exact h.refs

end

theorem Held.congr (h : Held b p i) (hin : b'.invoices = b.invoices) : Held b' p i := by
  obtain ⟨inv, ha, hd⟩ := h
  exact ⟨inv, by rw [active, hin]; exact ha, hd⟩

end

/-! ### What a drive knows at each of its stages -/

/-- Between any two steps of a drive. -/
structure Driving (b : Books) (p : Int) (i : InvoiceId) (lines : List BilledLine) : Prop where
  held : Held b p i
  tied : Tied b p i
  agrees : Agrees b p lines
  nodup : (lines.map (·.key)).Nodup

/-- While it removes the orphans `rest`. -/
structure Orphaning (b : Books) (i : InvoiceId) (lines : List BilledLine) (snap : Snapshot) (rest : List LineKey) :
    Prop where
  invoice : snap.invoice = i
  nodup : rest.Nodup
  foreign : ∀ k ∈ rest, k ∉ lines.map (·.key)
  posted : ∀ k, k ∈ lines.map (·.key) ∨ k ∈ rest → (k ∈ snap.posted ↔ k ∈ b.lineRefs i)

/-- Every line is one of the pricing or an orphan still to go. -/
def Covered (b : Books) (i : InvoiceId) (lines : List BilledLine) (rest : List LineKey) : Prop :=
  ∀ k ∈ b.lines i, k ∈ lines.map (·.key) ∨ k ∈ rest

/-- The line is there with its price. -/
def Written (b : Books) (i : InvoiceId) (l : BilledLine) : Prop :=
  ∃ row, (b.lines i).lookup l.key = some row ∧ row.amountCents = l.amount

/-- While it posts the lines `rest`. -/
structure Posting (b : Books) (i : InvoiceId) (lines : List BilledLine) (snap : Snapshot) (rest : List BilledLine) :
    Prop where
  invoice : snap.invoice = i
  nodup : (rest.map (·.key)).Nodup
  priced : ∀ l ∈ rest, l ∈ lines
  covered : Covered b i lines []
  done : ∀ l ∈ lines, l ∈ rest ∨ (Written b i l ∧ l.key ∈ b.lineRefs i)
  posted : ∀ l ∈ rest, l.key ∈ snap.posted ↔ l.key ∈ b.lineRefs i

def Tracks (b : Books) (p : Int) (i : InvoiceId) (lines : List BilledLine) : Stage → Prop
  | .claim => False
  | .reread => True
  | .readPosted j => j = i
  | .readLines j posted => j = i ∧ posted = (b.lineRefs i).keys
  | .findOrphan snap orphan rest => Orphaning b i lines snap (orphan :: rest) ∧ Covered b i lines (orphan :: rest)
  | .dropItem snap id orphan rest => Orphaning b i lines snap (orphan :: rest) ∧ Covered b i lines (orphan :: rest) ∧
    ∃ item, b.items.lookup id = some item ∧ item.key = ⟨p, orphan⟩
  | .dropRef snap orphan rest => Orphaning b i lines snap (orphan :: rest) ∧ Covered b i lines (orphan :: rest) ∧
    NoLive b p orphan
  | .dropLine snap orphan rest => Orphaning b i lines snap rest ∧ Covered b i lines (orphan :: rest) ∧
    NoLive b p orphan ∧ orphan ∉ lines.map (·.key) ∧ orphan ∉ rest
  | .writeLine snap l rest => Posting b i lines snap (l :: rest) ∧ l.key ∉ b.lineRefs i
  | .findItem snap l rest => Posting b i lines snap (l :: rest) ∧ Written b i l
  | .postItem snap l rest => Posting b i lines snap (l :: rest) ∧ Written b i l
  | .confirm snap l rest id => Posting b i lines snap (l :: rest) ∧ Written b i l ∧
    ∃ item, b.items.lookup id = some item ∧ item.key = ⟨p, l.key⟩
  | .readDraft snap => Posting b i lines snap []
  | .createInvoice snap => Posting b i lines snap []
  | .keepDraft snap _ => Posting b i lines snap []
  | .finalize snap _ => Posting b i lines snap []
  | .settle snap _ => Posting b i lines snap []

section
variable {b b' : Books} {p : Int} {i : InvoiceId} {k : LineKey} {l : BilledLine} {lines rest : List BilledLine}
  {orphans : List LineKey} {snap : Snapshot}

theorem Posting.congr (h : Posting b i lines snap rest) (hl : b'.lines i = b.lines i)
    (hr : b'.lineRefs i = b.lineRefs i) : Posting b' i lines snap rest := by
  refine ⟨h.invoice, h.nodup, h.priced, ?_, ?_, ?_⟩
  · rw [Covered, hl]
    exact h.covered
  · simp only [Written, hl, hr]
    exact h.done
  · rw [hr]
    exact h.posted

theorem Written.congr (h : Written b i l) (hl : b'.lines i = b.lines i) : Written b' i l := by
  rw [Written, hl]
  exact h

section
variable (h : Driving b p i lines)
include h

/-- A line that has its reference is settled: its item is the one under its key, and that has
the price of now. -/
theorem Driving.written_of_posted (hl : l ∈ lines) (hr : l.key ∈ b.lineRefs i) : Written b i l := by
  obtain ⟨id, hid⟩ := exists_of_mem hr
  obtain ⟨item, row, hi, hk, hrw, ha⟩ := h.tied.refs hid
  obtain ⟨hlv, hp⟩ := h.agrees l hl id item hi hk
  exact ⟨row, hrw, by rw [ha hlv, hp]⟩

theorem Driving.nextLine (hp : Posting b i lines snap rest) : Tracks b p i lines (nextLine snap rest) := by
  induction rest with
  | nil => exact hp
  | cons l rest ih =>
    rw [Billing.nextLine]
    split
    · next hps =>
      have hr := (hp.posted l mem_cons_self).mp hps
      have hw := h.written_of_posted (hp.priced l mem_cons_self) hr
      refine ih ⟨hp.invoice, (nodup_cons.mp hp.nodup).2,
        fun l' hl' => hp.priced l' (mem_cons_of_mem _ hl'), hp.covered, ?_,
        fun l' hl' => hp.posted l' (mem_cons_of_mem _ hl')⟩
      intro l' hl'
      rcases hp.done l' hl' with hrs | hd
      · rcases mem_cons.mp hrs with rfl | hrs
        · exact .inr ⟨hw, hr⟩
        · exact .inl hrs
      · exact .inr hd
    · next hps => exact ⟨hp, fun hr => hps ((hp.posted l mem_cons_self).mpr hr)⟩

theorem Driving.nextOrphan (ho : Orphaning b i lines snap orphans)
    (hc : Covered b i lines orphans) : Tracks b p i lines (nextOrphan snap lines orphans) := by
  cases orphans with
  | cons orphan rest => exact ⟨ho, hc⟩
  | nil =>
    refine h.nextLine ⟨ho.invoice, h.nodup, fun _ hl => hl, hc, fun _ hl => .inl hl, fun l hl => ?_⟩
    exact ho.posted l.key (.inl (mem_map.mpr ⟨l, hl, rfl⟩))

/-- The orphans are the lines and references that the pricing does not have. -/
theorem Driving.readLines : Tracks b p i lines (Billing.nextOrphan ⟨i, (b.lineRefs i).keys, (b.lines i).keys⟩ lines
      (orphansOf ⟨i, (b.lineRefs i).keys, (b.lines i).keys⟩ lines)) := by
  refine h.nextOrphan ⟨rfl, ?_, ?_, fun k _ => mem_keys.symm⟩ ?_
  · refine Nodup.filter _ (Nodup.append (b.lines i).keys_nodup ((b.lineRefs i).keys_nodup.filter _) ?_)
    simp [disjoint_right]
  · intro k hk
    simpa using (mem_filter.mp hk).2
  · intro k hk
    by_cases hf : k ∈ lines.map (·.key)
    · exact .inl hf
    · refine .inr (mem_filter.mpr ⟨mem_append_left _ (mem_keys.mp hk), ?_⟩)
      simpa using hf

theorem Driving.noLive_of_unposted (hr : k ∉ b.lineRefs i) (hf : b.findItem ⟨p, k⟩ = none) : NoLive b p k := by
  intro id item hi hk
  by_contra hd
  rw [Bool.not_eq_true] at hd
  have ha : item.attached ≠ none := by
    intro hp
    have := findItem_none hf hi hk hp
    rw [hd] at this
    cases this
  have hl := (h.tied.live hi (by rw [hk]) hd).2 ha
  rw [hk] at hl
  exact hr hl

end

theorem Orphaning.congr (h : Orphaning b i lines snap orphans) (hr : b'.lineRefs i = b.lineRefs i) :
    Orphaning b' i lines snap orphans := by
  refine ⟨h.invoice, h.nodup, h.foreign, ?_⟩
  rw [hr]
  exact h.posted

theorem Orphaning.tail (h : Orphaning b i lines snap (k :: orphans)) : Orphaning b i lines snap orphans :=
  ⟨h.invoice, (nodup_cons.mp h.nodup).2, fun k' hk' => h.foreign k' (mem_cons_of_mem _ hk'),
    fun k' hk' => h.posted k' (hk'.imp_right (mem_cons_of_mem _))⟩

/-- The reference of a key that is neither priced nor an orphan still to go does not matter. -/
theorem Orphaning.erase (h : Orphaning b i lines snap orphans) (hf : k ∉ lines.map (·.key)) (hrs : k ∉ orphans)
    (hr : b'.lineRefs i = (b.lineRefs i).erase k) : Orphaning b' i lines snap orphans := by
  refine ⟨h.invoice, h.nodup, h.foreign, fun k' hk' => ?_⟩
  have hne : k' ≠ k := by
    rintro rfl
    exact hk'.elim hf hrs
  rw [h.posted k' hk', hr, mem_erase]
  exact ⟨fun hm => ⟨hne, hm⟩, (·.2)⟩

theorem Driving.dropRef (h : Driving b p i lines) (ho : Orphaning b i lines snap (k :: orphans))
    (hc : Covered b i lines (k :: orphans)) (hn : NoLive b p k) :
    Driving (b.deleteLineRef i k) p i lines ∧ Tracks (b.deleteLineRef i k) p i lines (.dropLine snap k orphans) := by
  have hf := ho.foreign k mem_cons_self
  have hr := (nodup_cons.mp ho.nodup).1
  exact ⟨⟨h.held.congr rfl, h.tied.deleteLineRef hn, h.agrees, h.nodup⟩,
    ho.tail.erase hf hr lineRefs_deleteLineRef, hc, hn, hf, hr⟩

theorem Driving.dropLine (h : Driving b p i lines) (ht : Tracks b p i lines (.dropLine snap k orphans))
    (hd : b.deleteLine i k = some b') :
    Driving b' p i lines ∧ Tracks b' p i lines (Billing.nextOrphan snap lines orphans) := by
  obtain ⟨ho, hc, hn, hf, hrs⟩ := ht
  obtain ⟨hl, hr, hi, -, -, hin⟩ := deleteLine_some hd
  have hdr : Driving b' p i lines :=
    ⟨h.held.congr hin, h.tied.deleteLine hn hd, by rw [Agrees, hi]; exact h.agrees, h.nodup⟩
  refine ⟨hdr, hdr.nextOrphan (ho.erase hf hrs hr) fun k' hk' => ?_⟩
  rw [hl, mem_erase] at hk'
  exact (hc k' hk'.2).imp_right fun hm => (mem_cons.mp hm).resolve_left hk'.1

theorem Driving.writeLine (h : Driving b p i lines) (ht : Tracks b p i lines (.writeLine snap l rest))
    (hw : b.upsertLine i l.key l.amount = some b') :
    Driving b' p i lines ∧ Posting b' i lines snap (l :: rest) ∧ Written b' i l := by
  obtain ⟨hp, hrf⟩ := ht
  obtain ⟨hln, hr, hi, -, -, hin⟩ := upsertLine_some hw
  have hl := hp.priced l mem_cons_self
  refine ⟨⟨h.held.congr hin, h.tied.upsertLine hrf hw, by rw [Agrees, hi]; exact h.agrees, h.nodup⟩,
    ⟨hp.invoice, hp.nodup, hp.priced, ?_, ?_, by rw [hr]; exact hp.posted⟩, ?_⟩
  · intro k hk
    rw [hln, mem_insert] at hk
    rcases hk with rfl | hk
    · exact .inl (mem_map.mpr ⟨l, hl, rfl⟩)
    · exact hp.covered k hk
  · intro l' hl'
    by_cases heq : l' = l
    · exact .inl (heq ▸ mem_cons_self)
    refine (hp.done l' hl').imp_right fun ⟨⟨row, hrw, ha⟩, hr'⟩ => ?_
    have hne : l'.key ≠ l.key := fun hky => heq (inj_on_of_nodup_map h.nodup hl' hl hky)
    rw [Written, hln, hr]
    exact ⟨⟨row, (lookup_insert_ne hne).trans hrw, ha⟩, hr'⟩
  · rw [Written, hln]
    exact ⟨_, lookup_insert _, amount_upserted _ _⟩

theorem Driving.confirm (h : Driving b p i lines) {id : StripeId} (htr : Tracks b p i lines (.confirm snap l rest id))
    (hins : b.insertLineRef i l.key id = some b') :
    Driving b' p i lines ∧ Tracks b' p i lines (Billing.nextLine snap rest) := by
  obtain ⟨hp, ⟨row, hrw, ha⟩, item, hi, hk⟩ := htr
  have hl := hp.priced l mem_cons_self
  have hpr : row.amountCents = item.amount := by rw [ha, (h.agrees l hl id item hi hk).2]
  obtain ⟨ht, hr, ho, hln, hitm, hin⟩ := h.tied.insertLineRef hi hk hrw hpr hins
  have hd : Driving b' p i lines :=
    ⟨h.held.congr hin, ht, by rw [Agrees, hitm]; exact h.agrees, h.nodup⟩
  obtain ⟨hf, hn⟩ := nodup_cons.mp hp.nodup
  refine ⟨hd, hd.nextLine ⟨hp.invoice, hn, fun l' hl' => hp.priced l' (mem_cons_of_mem _ hl'),
    by rw [Covered, hln]; exact hp.covered, fun l' hl' => ?_, fun l' hl' => ?_⟩⟩
  · rw [Written, hln]
    rcases hp.done l' hl' with hm | ⟨hw, hr'⟩
    · rcases mem_cons.mp hm with rfl | hm
      · exact .inr ⟨⟨row, hrw, ha⟩, hr⟩
      · exact .inl hm
    refine .inr ⟨hw, ?_⟩
    by_cases heq : l'.key = l.key
    · exact heq ▸ hr
    · exact (ho _ heq).mpr hr'
  · have hne : l'.key ≠ l.key := fun heq => hf (mem_map.mpr ⟨l', hl', heq⟩)
    rw [ho _ hne]
    exact hp.posted l' (mem_cons_of_mem _ hl')

theorem Posting.all_posted (h : Posting b i lines snap []) (hk : k ∈ b.lines i) :
    ∃ l ∈ lines, l.key = k ∧ Written b i l ∧ k ∈ b.lineRefs i := by
  obtain ⟨l, hl, rfl⟩ := mem_map.mp ((h.covered k hk).resolve_right (by simp))
  obtain ⟨hw, hr⟩ := (h.done l hl).resolve_left (by simp)
  exact ⟨l, hl, rfl, hw, hr⟩

end

/-- The records of an invoice agree with each other: the row, its usage lines and the items
that were posted for it. -/
structure Consistent (b : Books) (p : Int) (i : InvoiceId) (inv : Invoice) : Prop where
  subtotal : inv.subtotalCents =
    (((b.lines i).entries.filter fun e => e.2.kind = .usage).map fun e => e.2.amountCents).sum
  backed : ∀ {k l}, (b.lines i).lookup k = some l → l.kind = .usage →
    ∃ id item, (b.lineRefs i).lookup k = some id ∧ b.items.lookup id = some item ∧ item.key = ⟨p, k⟩ ∧
      item.deleted = false ∧ (item.amount : Int) = l.amountCents ∧
      ∀ id' item', b.items.lookup id' = some item' → item'.key = ⟨p, k⟩ → item'.deleted = false → id' = id
  noOther : ∀ {id item}, b.items.lookup id = some item → item.madeFor = i ∨ item.key.period = p → item.deleted = false →
    ∃ k ∈ b.lines i, (b.lineRefs i).lookup k = some id
  total : inv.totalCents = inv.subtotalCents - inv.creditCents + inv.taxCents

/-- The invoice of the period is finalized, and its records agree. -/
def Finished (b : Books) (p : Int) : Prop :=
  ∃ i inv, b.active p = some (i, inv) ∧ inv.status = .finalized ∧ Consistent b p i inv

section
variable {b b' : Books} {p : Int} {i : InvoiceId} {snap : Snapshot}

theorem Driving.ref_of_live {lines : List BilledLine} (h : Driving b p i lines) {id : StripeId} {item : StripeItem}
    (hi : b.items.lookup id = some item) (hp : item.key.period = p) (hr : item.key.line ∈ b.lineRefs i) :
    (b.lineRefs i).lookup item.key.line = some id := by
  obtain ⟨id', hi'⟩ := exists_of_mem hr
  obtain ⟨item', _, hit', hk', -⟩ := h.tied.refs hi'
  have hs : item'.key = item.key := by rw [hk', ← hp]
  rw [hi', h.tied.unique hi hit' hp hs]

theorem Driving.consistent {pricing : Pricing} (h : Driving b p i pricing.lines)
    (hps : Posting b i pricing.lines snap []) (ht : pricing.total < 2 ^ 63) (credit tax : Int) :
    Consistent b p i ⟨p, .finalized, pricing.total, credit, tax, pricing.total - credit + tax⟩ := by
  refine ⟨?_, ?_, ?_, rfl⟩
  · have hu : (b.lines i).entries.filter (fun e => e.2.kind = .usage) = (b.lines i).entries := by
      rw [filter_eq_self]
      exact fun e he => decide_eq_true (h.tied.usage (mem_lookup_iff.mpr he))
    have hky : ∀ k, k ∈ b.lines i ↔ k ∈ pricing.lines.map (·.key) := by
      refine fun k => ⟨fun hk => (hps.covered k hk).resolve_right (by simp), fun hk => ?_⟩
      obtain ⟨l, hl, rfl⟩ := mem_map.mp hk
      obtain ⟨⟨row, hr, -⟩, -⟩ := (hps.done l hl).resolve_left (by simp)
      exact mem_of_lookup_eq hr
    have hs := sum_rows (g := fun l : BilledLine => (l.amount : Int)) (f := InvoiceLine.amountCents) h.nodup hky
      fun l hl row hr => by
        obtain ⟨⟨row', hr', ha⟩, -⟩ := (hps.done l hl).resolve_left (by simp)
        rw [Option.mem_unique hr hr', ha]
    show (pricing.total : Int) = _
    rw [hu, hs, pricing.total_eq ht, Nat.cast_list_sum, map_map]
    rfl
  · intro k l hl _
    obtain ⟨priced, hpri, rfl, ⟨row, hr, ha⟩, hrf⟩ := hps.all_posted (mem_of_lookup_eq hl)
    obtain ⟨id, hid⟩ := exists_of_mem hrf
    obtain ⟨item, _, hi, hke, -⟩ := h.tied.refs hid
    obtain ⟨hlv, hpr⟩ := h.agrees priced hpri id item hi hke
    refine ⟨id, item, hid, hi, hke, hlv, ?_, fun id' item' hi' hk' _ => ?_⟩
    · rw [hpr, ← ha, Option.mem_unique hr hl]
    · exact h.tied.unique hi hi' (by rw [hke]) (by rw [hke, hk'])
  · intro id item hi hm hlv
    have hp : item.key.period = p := hm.elim (h.tied.known hi).2 fun hp => hp
    have hln := (h.tied.live hi hp hlv).1
    obtain ⟨_, _, _, _, hrf⟩ := hps.all_posted hln
    exact ⟨item.key.line, hln, h.ref_of_live hi hp hrf⟩

theorem Consistent.congr {inv : Invoice} (h : Consistent b p i inv) (hl : b'.lines = b.lines)
    (hr : b'.lineRefs = b.lineRefs) (hi : b'.items = b.items) : Consistent b' p i inv := by
  refine ⟨?_, ?_, ?_, h.total⟩
  · rw [hl]
    exact h.subtotal
  · rw [hl, hr, hi]
    exact h.backed
  · rw [hl, hr, hi]
    exact h.noOther

end

/-! ### Whole runs -/

/-- What a step of a drive leaves: the drive goes on, it ends with the invoice open, or the
invoice is finished. -/
def Continues (b : Books) (i : InvoiceId) (d : Drive) : Option Drive → Prop
  | some d' => d'.period = d.period ∧ d'.pricing = d.pricing ∧ Driving b d.period i d.pricing.lines ∧
    Tracks b d.period i d.pricing.lines d'.stage
  | none => (Held b d.period i ∧ Tied b d.period i) ∨ Finished b d.period

section
variable {b : Books} {i : InvoiceId} {d : Drive} {stage : Stage}

theorem Driving.continues (h : Driving b d.period i d.pricing.lines) (ht : Tracks b d.period i d.pricing.lines stage) :
    Continues b i d (some {d with stage := stage}) :=
  ⟨rfl, rfl, h, ht⟩

theorem Driving.onward (h : Driving b d.period i d.pricing.lines) {after : Option Books}
    (ha : ∀ b', after = some b' → Driving b' d.period i d.pricing.lines ∧ Tracks b' d.period i d.pricing.lines stage) :
    Continues (d.onward b after stage).1 i d (d.onward b after stage).2 := by
  cases after with
  | none => exact .inl ⟨h.held, h.tied⟩
  | some b' => exact (ha b' rfl).1.continues (ha b' rfl).2

theorem Driving.step (h : Driving b d.period i d.pricing.lines) (ht : Tracks b d.period i d.pricing.lines d.stage)
    (htt : d.pricing.total < 2 ^ 63) (s : Settlement) : Continues (d.step b s).1 i d (d.step b s).2 := by
  obtain ⟨p, pricing, stage⟩ := d
  cases stage with
  | claim => exact ht.elim
  | reread =>
    obtain ⟨inv, hac, -⟩ := h.held
    simp only [step, hac]
    exact h.continues rfl
  | readPosted j =>
    obtain rfl : j = i := ht
    exact h.continues ⟨rfl, rfl⟩
  | readLines j posted =>
    obtain ⟨rfl, rfl⟩ := ht
    exact h.continues h.readLines
  | findOrphan snap orphan rest =>
    obtain ⟨ho, hc⟩ := ht
    have hps := ho.posted orphan (.inr mem_cons_self)
    simp only [step]
    split
    · next id hf =>
      refine h.continues ⟨ho, hc, ?_⟩
      split at hf
      · rw [ho.invoice] at hf
        obtain ⟨item, _, hi, hky, -⟩ := h.tied.refs hf
        exact ⟨item, hi, hky⟩
      · obtain ⟨item, hi, hky, -⟩ := findItem_some hf
        exact ⟨item, hi, hky⟩
    · next hf =>
      refine h.continues ⟨ho, hc, ?_⟩
      split at hf
      · next hm =>
        obtain ⟨id, hid⟩ := exists_of_mem (hps.mp hm)
        rw [ho.invoice, hid] at hf
        cases hf
      · next hm => exact h.noLive_of_unposted (fun hrf => hm (hps.mpr hrf)) hf
  | dropItem snap id orphan rest =>
    obtain ⟨ho, hc, item, hi, hky⟩ := ht
    refine h.onward fun b' hdl => ?_
    obtain ⟨htd, hnn, ha, hl, hr, hin⟩ :=
      h.tied.deleteItem hi hky hdl (ho.foreign orphan mem_cons_self) h.agrees
    exact ⟨⟨h.held.congr hin, htd, ha, h.nodup⟩, ho.congr (by rw [hr]),
      by rw [Covered, hl]; exact hc, hnn⟩
  | dropRef snap orphan rest =>
    obtain ⟨ho, hc, hnn⟩ := ht
    obtain ⟨hd, hn⟩ := h.dropRef ho hc hnn
    rw [← ho.invoice] at hd hn ⊢
    exact hd.continues hn
  | dropLine snap orphan rest =>
    have hinv : snap.invoice = i := ht.1.invoice
    refine h.onward fun b' hdl => ?_
    rw [hinv] at hdl
    exact h.dropLine ht hdl
  | writeLine snap l rest =>
    have hinv : snap.invoice = i := ht.1.invoice
    refine h.onward fun b' hwr => ?_
    rw [hinv] at hwr
    obtain ⟨hd, hp, hw⟩ := h.writeLine ht hwr
    refine ⟨hd, ?_⟩
    split <;> exact ⟨hp, hw⟩
  | findItem snap l rest =>
    obtain ⟨hp, hw⟩ := ht
    simp only [step]
    split
    · next id hf =>
      obtain ⟨item, hi, hky, -⟩ := findItem_some hf
      exact h.continues ⟨hp, hw, item, hi, hky⟩
    · exact h.continues ⟨hp, hw⟩
  | postItem snap l rest =>
    obtain ⟨hp, hw⟩ := ht
    have hln : l.key ∈ b.lines i := mem_of_lookup_eq hw.choose_spec.1
    obtain ⟨htd, ha, hmd, hl, hr, hin⟩ :=
      h.tied.createItem hln (hp.priced l mem_cons_self) h.nodup h.agrees rfl
    have hd := Driving.mk (h.held.congr hin) htd ha h.nodup
    exact hd.continues
      ⟨hp.congr (congrFun hl i) (congrFun hr i), hw.congr (congrFun hl i), hmd⟩
  | confirm snap l rest id =>
    have hinv : snap.invoice = i := ht.1.invoice
    refine h.onward fun b' hins => ?_
    rw [hinv] at hins
    exact h.confirm ht hins
  | readDraft snap =>
    simp only [step]
    split <;> exact h.continues ht
  | createInvoice snap =>
    have hp : Posting b i pricing.lines snap [] := ht
    obtain ⟨htd, ha, hl, hr, hin⟩ :=
      h.tied.createInvoice (fun k hk => (hp.all_posted hk).choose_spec.2.2.2) h.agrees rfl
    have hd := Driving.mk (h.held.congr hin) htd ha h.nodup
    exact hd.continues (hp.congr (congrFun hl i) (congrFun hr i))
  | keepDraft snap draft =>
    have hp : Posting b i pricing.lines snap [] := ht
    obtain ⟨hl, hr, hitm, hrp, hn, hin⟩ :=
      insertRef_tables b snap.invoice .draftInvoice draft
    have hd := Driving.mk (h.held.congr hin)
      (h.tied.congr (congrFun hl i) (congrFun hr i) hitm hrp hn) (by rw [Agrees, hitm]; exact h.agrees)
      h.nodup
    exact hd.continues (hp.congr (congrFun hl i) (congrFun hr i))
  | finalize snap draft =>
    have hp : Posting b i pricing.lines snap [] := ht
    have hd : Driving (b.finalizeStripe draft) p i pricing.lines :=
      ⟨h.held.congr rfl, h.tied.congr rfl rfl rfl rfl rfl, h.agrees, h.nodup⟩
    exact hd.continues (hp.congr rfl rfl)
  | settle snap draft =>
    have hp : Posting b i pricing.lines snap [] := ht
    simp only [step, hp.invoice]
    split
    · next b' hfn =>
      obtain ⟨inv, hac, -⟩ := h.held
      obtain ⟨hinv, hpr, -⟩ := active_some hac
      obtain ⟨inv', hi', rfl⟩ := finalize_some hfn
      obtain rfl : inv = inv' := Option.mem_unique hinv hi'
      obtain ⟨hl, hr, hitm, -, -, hin⟩ := insertRef_tables {b with
        invoices := b.invoices.insert i ⟨inv.period, .finalized, pricing.total, s.creditCents, s.taxCents,
          pricing.total - s.creditCents + s.taxCents⟩} i .invoice draft
      have hcn := h.consistent hp htt s.creditCents s.taxCents
      refine .inr ⟨i, _, ?_, rfl, hcn.congr hl hr hitm⟩
      rw [active, hin, hpr]
      exact active_insert rfl (by simp) i
    · exact .inl ⟨h.held, h.tied⟩

end

/-- Drives of one period, cut short anywhere. -/
def DrivesOf (p : Int) : Environment Office OfficeInput Accepted := fun _ _ input => match input with
  | .bill period _ _ => period = p
  | .advance _ => True
  | .crash => True
  | _ => False

/-- What a drive starts with: its prices agree with every item that was made. -/
def PricesAgree (p : Int) : Environment Office OfficeInput Accepted := fun _ o input => match input with
  | .bill _ _ pricing => Agrees o.books p pricing.lines
  | _ => True

instance decidableDrivesOf (p : Int) (h : History Office OfficeInput Accepted) (o : Office) :
    ∀ input, Decidable (DrivesOf p h o input)
  | .bill period _ _ => inferInstanceAs (Decidable (period = p))
  | .advance _ | .crash => .isTrue trivial
  | .note _ | .void _ | .expireItem _ | .expireInvoice _ => .isFalse not_false

instance decidableAgrees (b : Books) (p : Int) (lines : List BilledLine) : Decidable (Agrees b p lines) :=
  decidable_of_iff (∀ l ∈ lines, ∀ e ∈ b.items.entries, e.2.key = ⟨p, l.key⟩ → e.2.deleted = false ∧ e.2.amount = l.amount)
    ⟨fun h l hl id item hitem hkey => h l hl ⟨id, item⟩ (AList.mem_lookup_iff.mp hitem) hkey,
      fun h l hl e he hkey => h l hl e.1 e.2 (AList.mem_lookup_iff.mpr he) hkey⟩

instance decidablePricesAgree (p : Int) (h : History Office OfficeInput Accepted) (o : Office) :
    ∀ input, Decidable (PricesAgree p h o input)
  | .bill _ _ pricing => inferInstanceAs (Decidable (Agrees o.books p pricing.lines))
  | .note _ | .advance _ | .crash | .void _ | .expireItem _ | .expireInvoice _ => .isTrue trivial

/-- Where drives of a period can be. -/
inductive Kept (p : Int) : Office → Prop
  | untouched {b : Books} (h : Untouched b p) : Kept p ⟨b, none⟩
  | claiming {b : Books} {pricing : Pricing} (h : Untouched b p) (total : pricing.total < 2 ^ 63) :
      Kept p ⟨b, some (.drive ⟨p, pricing, .claim⟩)⟩
  | held {b : Books} {i : InvoiceId} (held : Held b p i) (tied : Tied b p i) : Kept p ⟨b, none⟩
  | driving {b : Books} {i : InvoiceId} {pricing : Pricing} {stage : Stage} (h : Driving b p i pricing.lines)
      (tracks : Tracks b p i pricing.lines stage) (total : pricing.total < 2 ^ 63) :
      Kept p ⟨b, some (.drive ⟨p, pricing, stage⟩)⟩
  | finished {b : Books} (h : Finished b p) : Kept p ⟨b, none⟩

section
variable {p : Int} {b : Books} {o : Office}

theorem Kept.crash (h : Kept p o) : Kept p {o with running := none} := by
  cases h with
  | untouched h | claiming h => exact .untouched h
  | held held tied => exact .held held tied
  | driving h => exact .held h.held h.tied
  | finished h => exact .finished h

theorem Kept.bill (h : Kept p ⟨b, none⟩) (customer : Bool) {pricing : Pricing} (hag : Agrees b p pricing.lines) :
    Kept p ⟨b, (start b p customer pricing).map .drive⟩ := by
  cases h with
  | untouched h =>
    simp only [start, h.inactive]
    split
    · exact .untouched h
    · next hs => exact .claiming h (by omega)
  | @held _ i held tied =>
    obtain ⟨inv, ha, hd⟩ := held
    simp only [start, ha]
    split
    · exact .held ⟨inv, ha, hd⟩ tied
    · next hs => exact .driving ⟨⟨inv, ha, hd⟩, tied, hag, pricing.nodup_lines⟩ rfl (by omega)
  | finished h =>
    obtain ⟨i, inv, ha, hf, hc⟩ := h
    simp only [start, ha, hf, true_or, if_true]
    exact .finished ⟨i, inv, ha, hf, hc⟩

theorem Kept.advance {d : Drive} (h : Kept p ⟨b, some (.drive d)⟩) (s : Settlement) :
    Kept p (Office.advanceDrive ⟨b, some (.drive d)⟩ d s) := by
  cases h with
  | claiming h total =>
    obtain ⟨hh, ht⟩ := h.claim
    -- Nothing was made for the period, so any prices agree with it.
    have hag : ∀ {lines : List BilledLine}, Agrees (b.claim p) p lines := by
      intro lines l _ id item hi hk
      have hitm : (b.claim p).items = b.items := by
        rw [claim]
        split <;> rfl
      rw [hitm] at hi
      exact absurd (by rw [hk]) (h.items hi).2.1
    exact .driving ⟨hh, ht, hag, Pricing.nodup_lines _⟩ trivial total
  | @driving _ i pricing stage h tracks total =>
    have hs := Driving.step (d := ⟨p, pricing, stage⟩) h tracks total s
    rw [Office.advanceDrive]
    cases ha : (step b ⟨p, pricing, stage⟩ s).2 with
    | none =>
      rw [ha] at hs
      rcases hs with ⟨held, tied⟩ | hf
      · exact .held held tied
      · exact .finished hf
    | some d' =>
      rw [ha] at hs
      obtain ⟨rfl, rfl, hd, htr⟩ := hs
      exact .driving hd htr total

theorem Kept.consistent (h : Kept p o) {i : InvoiceId} {inv : Invoice} (ha : o.books.active p = some (i, inv))
    (hf : inv.status = .finalized) : Consistent o.books p i inv := by
  have ho : ∀ {j : InvoiceId}, ¬ Held o.books p j := by
    rintro j ⟨inv', ha', hd⟩
    rw [ha] at ha'
    cases ha'
    rw [hf] at hd
    cases hd
  cases h with
  | untouched h | claiming h =>
    rw [h.inactive] at ha
    cases ha
  | held held => exact absurd held ho
  | driving h => exact absurd h.held ho
  | finished h =>
    obtain ⟨_, _, ha', _, hc⟩ := h
    rw [ha'] at ha
    cases ha
    exact hc

end

/-- Drives whose prices agree with what was posted leave a finalized invoice consistent. -/
theorem finalized_consistent {p : Int} {b : Books} (hb : Untouched b p) {h : History Office OfficeInput Accepted} {o : Office}
    (run : office.Run (fun h o input => DrivesOf p h o input ∧ PricesAgree p h o input) (.start b) h o) {i : InvoiceId}
    {inv : Invoice} (hactive : o.books.active p = some (i, inv)) (hfinal : inv.status = .finalized) :
    Consistent o.books p i inv := by
  have hk : Kept p o := by
    refine run.invariant (fun _ o => Kept p o) (.untouched hb) ?_
    intro h o o' input outputs _ hk ⟨hd, ha⟩ ht
    obtain ⟨books, running⟩ := o
    cases input with
    | bill period customer pricing =>
      obtain rfl : period = p := hd
      cases running with
      | some _ => cases ht
      | none =>
        cases ht
        exact hk.bill customer ha
    | advance s =>
      cases running with
      | none => cases ht
      | some process =>
        cases process with
        | drive d =>
          cases ht
          exact hk.advance s
        | note n => cases hk
    | crash =>
      cases ht
      exact hk.crash
    | note | void | expireItem | expireInvoice => exact hd.elim
  exact hk.consistent hactive hfinal

def pricedAt (cents : Nat) : Pricing := ⟨[("app", [cents])], by simp⟩

/-- A drive that crashes once its only line is posted, and one that is left alone. -/
def twoDrives (first second : Nat) : List OfficeInput :=
  [.bill 0 true (pricedAt first)] ++ List.replicate 7 (.advance ⟨0, 0⟩) ++ [.crash] ++
    [.bill 0 true (pricedAt second)] ++ List.replicate 7 (.advance ⟨0, 0⟩)

theorem untouched_empty (p : Int) : Untouched .empty p where
  inactive := rfl
  lines _ _ := rfl
  lineRefs _ _ := rfl
  items h := by cases h
  replays _ _ := rfl

/-- A line is posted at 100 cents; the next drive has it at 110, leaves line and item as they
are and finalizes 110. -/
theorem repriced_inconsistent : Untouched .empty 0 ∧ ∃ h o i inv,
    office.Run (DrivesOf 0) (.start .empty) h o ∧ o.books.active 0 = some (i, inv) ∧ inv.status = .finalized ∧
      inv.subtotalCents = 110 ∧ (o.books.lines i).entries.map (fun e => (e.2.kind, e.2.amountCents)) = [(.usage, 100)] ∧
      o.books.items.entries.map (fun e => (e.2.deleted, e.2.amount)) = [(false, 100)] ∧
      ¬ Consistent o.books 0 i inv := by
  have ho : Machine.Offered (DrivesOf 0) [] (office.trace (.start .empty) (twoDrives 100 110)) := by
    decide +kernel
  refine ⟨untouched_empty 0, _, _, 0, ⟨0, .finalized, 110, 0, 0, 110⟩, Machine.Run.of_trace ho,
    by decide +kernel, rfl, rfl, by decide +kernel, by decide +kernel, fun h => ?_⟩
  have hs := h.subtotal
  revert hs
  decide +kernel

/-- At one price the second drive finishes what the first has left. -/
theorem redriven_consistent : Untouched .empty 0 ∧ ∃ h o inv,
    office.Run (fun h o input => DrivesOf 0 h o input ∧ PricesAgree 0 h o input) (.start .empty) h o ∧
      o.books.active 0 = some (0, inv) ∧ inv.status = .finalized ∧ Consistent o.books 0 0 inv := by
  have ho : Machine.Offered (fun h o input => DrivesOf 0 h o input ∧ PricesAgree 0 h o input) []
      (office.trace (.start .empty) (twoDrives 100 100)) := by decide +kernel
  have hr := Machine.Run.of_trace ho
  have ha : (office.reach (.start .empty) (twoDrives 100 100)).books.active 0 =
      some (0, ⟨0, .finalized, 100, 0, 0, 100⟩) := by decide +kernel
  exact ⟨untouched_empty 0, _, _, _, hr, ha, rfl, finalized_consistent (untouched_empty 0) hr ha rfl⟩

end Zeroship.Billing

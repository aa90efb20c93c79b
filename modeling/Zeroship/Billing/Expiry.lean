import Mathlib

/-! Expiry of credit that a void gives back.

A consumption draws from grants that have not expired. A void gives each draw of its invoice back
as an entry that names the grant and has no expiry: it is drawn from even when the grant has
expired. As long as no such entry stems from an expired grant, every draw traces back to a grant
that was good at its time. -/
namespace Zeroship.Billing.Expiry
open List

inductive Kind
  | grant | consumed | voidReversal
deriving DecidableEq

/-- A row of the ledger, named by its place in it. -/
structure Entry where
  organizationId : String
  kind : Kind
  amountCents : Int
  currency : String
  expiresAt : Option Int := none
  appliedInvoiceId : Option Nat := none
  consumedFromGrantId : Option Nat := none
  createdAt : Int

abbrev Ledger := List Entry

def Entry.good (e : Entry) (now : Int) : Bool := e.expiresAt.all (now < ·)

variable (rank : Nat → Nat) (L : Ledger) (org : String)

/-- The rows that draw from one. -/
def drawn (g : Nat) : Int :=
  ((L.filter fun e => e.kind = .consumed ∧ e.consumedFromGrantId = some g).map (·.amountCents)).sum

structure AvailableGrant where
  id : Nat
  remaining : Int

/-- Oldest first; `rank` is the order of the ids. -/
def availableGrants (currency : String) (now : Int) : List AvailableGrant :=
  let rows := L.zipIdx.filter fun (e, _) =>
    e.organizationId = org ∧ e.kind ≠ .consumed ∧ 0 < e.amountCents ∧ e.currency = currency ∧ e.good now
  let sorted := rows.insertionSort fun a b => toLex (a.1.createdAt, rank a.2) ≤ toLex (b.1.createdAt, rank b.2)
  (sorted.map fun (e, i) => ⟨i, e.amountCents + drawn L i⟩).filter (0 < ·.remaining)

/-- The draws, oldest grant first. -/
def drawdown : List AvailableGrant → Int → List (Nat × Int)
  | [], _ => []
  | g :: rest, toDraw =>
    if toDraw ≤ 0 then []
    else
      let draw := min g.remaining toDraw
      if draw ≤ 0 then drawdown rest toDraw else (g.id, draw) :: drawdown rest (toDraw - draw)

variable (invoice : Nat)

def applied (kind : Kind) : Ledger :=
  L.filter fun e => e.appliedInvoiceId = some invoice ∧ e.kind = kind

/-- What a consumption appends, unless the invoice has consumed before. -/
def consumeAtFinalize (subtotal : Int) (currency : String)
    (now : Int) : Ledger :=
  let already := ((applied L invoice .consumed).map (·.amountCents)).sum
  if already < 0 ∨ subtotal ≤ 0 then []
  else
    let grants := availableGrants rank L org currency now
    (drawdown grants (min (grants.map (·.remaining)).sum subtotal)).map fun (id, draw) =>
      { organizationId := org, kind := .consumed, amountCents := -draw, currency := currency
        appliedInvoiceId := some invoice, consumedFromGrantId := some id, createdAt := now }

/-- What a void appends, unless it did so before. -/
def voidReversals (now : Int) : Ledger :=
  if applied L invoice .voidReversal ≠ [] then []
  else (applied L invoice .consumed).map fun c =>
    { organizationId := org, kind := .voidReversal, amountCents := -c.amountCents, currency := c.currency
      appliedInvoiceId := some invoice, consumedFromGrantId := c.consumedFromGrantId, createdAt := now }

inductive Op
  | grant (org : String) (amount : Int) (currency : String) (expiresAt : Option Int)
  | consume (org : String) (invoice : Nat) (subtotal : Int) (currency : String)
  | void (org : String) (invoice : Nat)

/-- The rows an operation appends at a time. -/
def Op.rows (now : Int) : Op → Ledger
  | .grant org amount currency expiresAt =>
    [{ organizationId := org, kind := .grant, amountCents := amount, currency, expiresAt, createdAt := now }]
  | .consume org invoice subtotal currency => consumeAtFinalize rank L org invoice subtotal currency now
  | .void org invoice => voidReversals L org invoice now

/-- The grant that the credit of a row comes from. -/
inductive Origin (L : Ledger) : Nat → Entry → Prop
  | grant {i : Nat} {e : Entry} (he : L[i]? = some e) (hk : e.kind = .grant) : Origin L i e
  | through {i j : Nat} {e r : Entry} (he : L[i]? = some e) (hk : e.kind ≠ .grant)
      (hj : e.consumedFromGrantId = some j) (hr : Origin L j r) : Origin L i r

/-- Nothing given back to the organization of a consumption comes from a grant that has expired. -/
def Op.Timely (now : Int) : Op → Prop
  | .consume org .. => ∀ i e r, L[i]? = some e → e.organizationId = org → e.kind = .voidReversal → Origin L i r →
      r.good now
  | _ => True

/-- The ledgers of operations at any times, timely ones. -/
inductive Reachable (rank : Nat → Nat) : Ledger → Prop
  | empty : Reachable rank []
  | step {L : Ledger} (now : Int) (op : Op) (hL : Reachable rank L) (hop : op.Timely L now) :
      Reachable rank (L ++ op.rows rank L now)

/-- Every row has an origin, which was good when the row drew from it. -/
def Sound : Prop :=
  ∀ i e, L[i]? = some e → ∃ r, Origin L i r ∧ (e.kind = .consumed → r.good e.createdAt)

section
variable {L M : Ledger} {org currency : String} {now : Int} {rank : Nat → Nat}

theorem Origin.append {i : Nat} {r : Entry} (h : Origin L i r) : Origin (L ++ M) i r := by
  have hg : ∀ {i : Nat} {e : Entry}, L[i]? = some e → (L ++ M)[i]? = some e := fun he => by
    rw [getElem?_append_left (List.getElem?_eq_some_iff.mp he).1, he]
  induction h with
  | grant he hk => exact .grant (hg he) hk
  | through he hk hj _ ih => exact .through (hg he) hk hj ih

theorem Sound.append (h : Sound L) (hM : ∀ e ∈ M, e.kind = .grant ∨ e.kind ≠ .grant ∧ ∃ j r,
    e.consumedFromGrantId = some j ∧ Origin L j r ∧ (e.kind = .consumed → r.good e.createdAt)) : Sound (L ++ M) := by
  intro i e he
  by_cases hi : i < L.length
  · obtain ⟨r, hr, hg⟩ := h i e (by rwa [getElem?_append_left hi] at he)
    exact ⟨r, hr.append, hg⟩
  · have hm : e ∈ M := mem_of_getElem? (by rwa [getElem?_append_right (not_lt.mp hi)] at he)
    obtain hk | ⟨hk, j, r, hj, hr, hg⟩ := hM e hm
    · exact ⟨e, .grant he hk, fun hc => by simp [hk] at hc⟩
    · exact ⟨r, .through he hk hj hr.append, hg⟩

theorem mem_availableGrants {g : AvailableGrant} (hg : g ∈ availableGrants rank L org currency now) :
    ∃ e, L[g.id]? = some e ∧ e.organizationId = org ∧ e.kind ≠ .consumed ∧ e.good now := by
  simp only [availableGrants, mem_filter, mem_map, mem_insertionSort, Prod.exists, decide_eq_true_eq] at hg
  obtain ⟨⟨e, i, ⟨hi, ho, hk, -, -, hgd⟩, rfl⟩, -⟩ := hg
  exact ⟨e, mk_mem_zipIdx_iff_getElem?.mp hi, ho, hk, hgd⟩

theorem mem_drawdown {grants : List AvailableGrant} {toDraw : Int} {d : Nat × Int} (hd : d ∈ drawdown grants toDraw) :
    ∃ g ∈ grants, g.id = d.1 := by
  induction grants generalizing toDraw with
  | nil => exact absurd hd not_mem_nil
  | cons g rest ih =>
    rw [drawdown] at hd
    have hr : ∀ {n : Int}, d ∈ drawdown rest n → ∃ g' ∈ g :: rest, g'.id = d.1 := fun h =>
      (ih h).imp fun _ hg => ⟨mem_cons_of_mem _ hg.1, hg.2⟩
    dsimp only at hd
    split_ifs at hd
    · exact absurd hd not_mem_nil
    · exact hr hd
    · obtain rfl | hd := mem_cons.mp hd
      · exact ⟨g, mem_cons_self, rfl⟩
      · exact hr hd

theorem Sound.step {op : Op} (h : Sound L) (hop : op.Timely L now) : Sound (L ++ op.rows rank L now) := by
  refine h.append fun e he => ?_
  cases op with
  | grant => exact .inl (by simp [Op.rows] at he; simp [he])
  | consume org invoice subtotal currency =>
    simp only [Op.rows, consumeAtFinalize] at he
    split_ifs at he
    · exact absurd he not_mem_nil
    · obtain ⟨d, hd, rfl⟩ := mem_map.mp he
      obtain ⟨g, hg, hid⟩ := mem_drawdown hd
      obtain ⟨e, hi, ho, hk, hgd⟩ := mem_availableGrants hg
      -- a grant that was available has not expired, and what was given back is timely
      cases hkn : e.kind with
      | grant => exact .inr ⟨nofun, g.id, e, congrArg some hid.symm, .grant hi hkn, fun _ => hgd⟩
      | consumed => exact absurd hkn hk
      | voidReversal =>
        obtain ⟨r, hr, -⟩ := h g.id e hi
        exact .inr ⟨nofun, g.id, r, congrArg some hid.symm, hr, fun _ => hop g.id e r hi ho hkn hr⟩
  | void org invoice =>
    simp only [Op.rows, voidReversals] at he
    split_ifs at he
    · exact absurd he not_mem_nil
    · obtain ⟨c, hc, rfl⟩ := mem_map.mp he
      obtain ⟨hm, hk⟩ := mem_filter.mp hc
      obtain ⟨i, hi⟩ := mem_iff_getElem?.mp hm
      obtain ⟨r, hr, -⟩ := h i c hi
      cases hr with
      | grant hi' hg => simp_all
      | through hi' _ hj hr =>
        cases hi.symm.trans hi'
        exact .inr ⟨nofun, _, r, hj, hr, nofun⟩

theorem Reachable.sound (h : Reachable rank L) : Sound L := by
  induction h with
  | empty => exact fun i e he => by simp at he
  | step now op _ ho ih => exact ih.step ho

/-- In every ledger of timely consumptions, what was drawn comes from a grant that was good at the
time of the draw. -/
theorem drawn_from_good (h : Reachable rank L) (i : Nat) (e : Entry) (he : L[i]? = some e) (hk : e.kind = .consumed) :
    ∃ r, Origin L i r ∧ r.good e.createdAt := by
  obtain ⟨r, hr, hg⟩ := h.sound i e he
  exact ⟨r, hr, hg hk⟩

end

/-- Operations from an empty ledger. -/
def run (ops : List (Int × Op)) : Ledger := ops.foldl (fun L o => L ++ o.2.rows id L o.1) []

/-- A draw on a grant that is good until 10 is given back at 20 and drawn again at 30. -/
def prolonged : Ledger := run [(0, .grant "org" 500 "usd" (some 10)), (5, .consume "org" 1 500 "usd"),
  (20, .void "org" 1), (30, .consume "org" 2 500 "usd")]

theorem void_prolongs_credit : ∃ e, prolonged[3]? = some e ∧ e.kind = .consumed ∧ e.createdAt = 30 ∧
    ∀ r, Origin prolonged 3 r → ¬ r.good 30 := by
  refine ⟨_, rfl, rfl, rfl, fun r hr => ?_⟩
  cases hr with
  | grant he hk => cases he; cases hk
  | through he _ hj hr =>
    cases he; cases hj
    cases hr with
    | grant he hk => cases he; cases hk
    | through he _ hj hr =>
      cases he; cases hj
      cases hr with
      | grant he _ => cases he; decide
      | through he hk _ _ => cases he; exact absurd rfl hk

/-- A draw that is given back and drawn again before the grant expires. -/
def redrawn : List (Int × Op) := [(0, .grant "org" 500 "usd" (some 10)), (5, .consume "org" 1 500 "usd"),
  (6, .void "org" 1), (7, .consume "org" 2 500 "usd")]

theorem redrawn_before_expiry : (run redrawn)[3]?.map (·.kind) = some .consumed ∧
    ∃ r, Origin (run redrawn) 3 r ∧ r.good 7 := by
  have hfirst : Op.Timely (run (redrawn.take 1)) 5 (.consume "org" 1 500 "usd") := by
    rintro (_ | i) e r hi _ hk
    · cases hi
      cases hk
    · cases hi
  have hagain : Op.Timely (run (redrawn.take 3)) 7 (.consume "org" 2 500 "usd") := by
    rintro (_ | _ | _ | i) e r hi _ hk hr
    · cases hi
      cases hk
    · cases hi
      cases hk
    · -- what was given back comes from the grant, which is good until 10
      cases hr with
      | grant he hk => cases he; cases hk
      | through he _ hj hr =>
        cases he; cases hj
        cases hr with
        | grant he _ => cases he; decide
        | through he hk _ _ => cases he; exact absurd rfl hk
    · cases hi
  exact ⟨rfl, drawn_from_good (.step 7 _ (.step 6 (.void "org" 1)
    (.step 5 _ (.step 0 (.grant "org" 500 "usd" (some 10)) .empty trivial) hfirst) trivial) hagain) 3 _ rfl rfl⟩

end Zeroship.Billing.Expiry

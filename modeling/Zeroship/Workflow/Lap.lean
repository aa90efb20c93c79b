import Zeroship.Base.Lists
import Zeroship.Base.Machine

/-! A batch claim goes round the apps of its zone.

A lap reads the candidate apps page by page, from just after its cursor to the end of the zone
and then from the start of the zone back to the cursor. One without a cursor begins at an app
of its first page that a hash of the worker picks. -/
namespace Zeroship.Workflow

open Base List

variable {α : Type} [LinearOrder α]

/-- The candidate apps of a zone in the order of their ids, and the limit of a page. -/
structure Zone (α : Type) [LinearOrder α] where
  candidates : List α
  ascending : candidates.Pairwise (· < ·)
  batchLimit : Nat
  positive : 0 < batchLimit

variable (z : Zone α) (after : Option α)

/-- The candidates after an app. -/
def Zone.following : List α := z.candidates.filter fun app => after.all (· < app)

/-- `claimable_apps_in_zone` -/
def Zone.page : List α := (z.following after).take z.batchLimit

/-- Where a lap stops after it wraps. -/
inductive Bound (α : Type)
  | through (last : α)
  | before (first : α)

def Bound.admits : Bound α → α → Bool
  | .through last, app => app ≤ last
  | .before first, app => app < first

structure Lap (α : Type) where
  bound : Option (Bound α)
  after : Option α
  page : List α
  (drained wrapped : Bool)

namespace Lap

def new (cursor : Option α) : Lap α :=
  { bound := cursor.map .through, after := cursor, page := [], drained := false, wrapped := false }

/-- One turn of the loop of `next`; `none` goes on to another one. -/
def turn (z : Zone α) (hash : Nat) (lap : Lap α) : Lap α × Option (Option α) :=
  match lap.page with
  | app :: rest =>
    if lap.wrapped && !lap.bound.any (·.admits app) then ({ lap with page := [] }, some none)
    else ({ lap with page := rest }, some (some app))
  | [] =>
    if lap.drained then
      if lap.wrapped || lap.bound.isNone then (lap, some none)
      else ({ lap with wrapped := true, drained := false, after := none }, none)
    else
      let page := z.page lap.after
      let lap := { lap with drained := page.length < z.batchLimit, after := page.getLast?.or lap.after }
      if lap.bound.isSome then ({ lap with page }, none)
      else match page[hash % page.length]? with
        -- The page is empty.
        | none => (lap, some none)
        | some first =>
          ({ lap with bound := some (.before first), page := page.drop (hash % page.length) }, none)

/-- The loop of `next`, for at most so many turns. -/
def loop (z : Zone α) (hash : Nat) : Nat → Lap α → Option (Lap α × Option α)
  | 0, _ => none
  | turns + 1, lap => match lap.turn z hash with
    | (lap, none) => loop z hash turns lap
    | (lap, some app) => some (lap, app)

/-- The lap's next app, or none once it has gone all the way round. Four turns are enough. -/
def next (z : Zone α) (hash : Nat) (lap : Lap α) : Option (Lap α × Option α) := loop z hash 4 lap

/-- What the calls of `next` give until one gives none, for at most so many calls. -/
def visits (z : Zone α) (hash : Nat) : Nat → Lap α → Option (List α)
  | 0, _ => none
  | calls + 1, lap => do
    match ← lap.next z hash with
    | (_, none) => some []
    | (lap, some app) => (app :: ·) <$> visits z hash calls lap

end Lap

theorem Zone.following_eq :
    z.following after = z.candidates.dropWhile fun app => !after.all (· < app) := by
  have hk : z.candidates.Pairwise fun a b => after.all (· < a) → after.all (· < b) :=
    z.ascending.imp fun hab h => by
      cases after with
      | none => rfl
      | some a => exact decide_eq_true ((of_decide_eq_true h).trans hab)
  unfold Zone.following
  generalize z.candidates = l at hk ⊢
  induction l with
  | nil => rfl
  | cons a rest ih =>
    obtain ⟨ha, hr⟩ := pairwise_cons.mp hk
    cases hp : after.all (· < a)
    · rw [filter_cons_of_neg (by simp [hp]), dropWhile_cons_of_pos (by simp [hp]), ih hr]
    · rw [dropWhile_cons_of_neg (by simp [hp]), filter_eq_self]
      exact forall_mem_cons.mpr ⟨hp, fun b hb => ha b hb hp⟩

/-- The candidates from just after the cursor to the end and then from the start to the cursor,
or from one of the first page and round to it. -/
def Zone.order (hash : Nat) : Option α → List α
  | some cursor => z.following (some cursor) ++ z.candidates.takeWhile (· ≤ cursor)
  | none =>
    let start := hash % min z.batchLimit z.candidates.length
    z.candidates.drop start ++ z.candidates.take start

theorem Zone.order_perm (hash : Nat) (cursor : Option α) : (z.order hash cursor).Perm z.candidates := by
  cases cursor with
  | none => exact perm_append_comm.trans (by rw [take_append_drop])
  | some cursor =>
    rw [Zone.order, z.following_eq]
    simp only [Option.all_some, ← decide_not, not_lt]
    exact perm_append_comm.trans (by rw [takeWhile_append_dropWhile])

/-- A page and what is read after it. -/
theorem Zone.following_page : z.following after = z.page after ++
    if (z.page after).length < z.batchLimit then [] else z.following ((z.page after).getLast?.or after) := by
  split_ifs with hsh
  · rw [Zone.page, length_take, min_lt_iff, or_iff_right (lt_irrefl _)] at hsh
    rw [append_nil, Zone.page, take_of_length_le hsh.le]
  have hf : z.page after ≠ [] := fun hn => hsh (hn ▸ z.positive)
  obtain ⟨front, last, hp⟩ := eq_nil_or_concat _ |>.resolve_left hf
  rw [concat_eq_append] at hp
  have hs := take_append_drop z.batchLimit (z.following after)
  generalize (z.following after).drop z.batchLimit = rest at hs
  rw [← Zone.page, hp] at hs
  -- The candidates are what comes before the page, the page and the rest.
  obtain ⟨earlier, hal⟩ : z.following after <:+ z.candidates := z.following_eq after ▸ dropWhile_suffix _
  rw [← hs, append_assoc, singleton_append, ← append_assoc] at hal
  have hr : z.following (some last) = rest := by
    obtain ⟨-, hl, hb⟩ := pairwise_append.mp (hal ▸ z.ascending)
    rw [Zone.following, ← hal, filter_append, filter_eq_nil_iff.mpr, filter_cons_of_neg (by simp), nil_append,
      filter_eq_self]
    · exact fun a ha => decide_eq_true (rel_of_pairwise_cons hl ha)
    · exact fun a ha => by simpa using (hb a ha last mem_cons_self).le
  rw [hp, getLast?_concat, Option.some_or, hr, hs]

/-! ### What is ahead -/

/-- What a lap that knows its bound has yet to visit. -/
def Lap.ahead (lap : Lap α) (bound : Bound α) : List α :=
  let unread := lap.page ++ if lap.drained then [] else z.following lap.after
  if lap.wrapped then unread.takeWhile bound.admits else unread ++ z.candidates.takeWhile bound.admits

inductive Lap.Ahead (z : Zone α) (hash : Nat) : Lap α → List α → Prop
  | unread : Ahead z hash (.new none) (z.order hash none)
  | bounded {lap : Lap α} {bound : Bound α} (h : lap.bound = some bound) : Ahead z hash lap (lap.ahead z bound)

namespace Lap
variable {z : Zone α} {hash : Nat} {lap : Lap α} {l : List α} {first : α}

theorem ahead_new (z : Zone α) (hash : Nat) (cursor : Option α) : Ahead z hash (new cursor) (z.order hash cursor) := by
  cases cursor with
  | none => exact .unread
  | some cursor =>
    have ha : (new (some cursor)).ahead z (.through cursor) = z.order hash (some cursor) := by
      simp [ahead, new, Zone.order]
      rfl
    exact ha ▸ .bounded rfl

/-- How many turns may pass before the next app is found. -/
def patience (lap : Lap α) : Nat := match lap.page, lap.drained, lap.wrapped with
  | _ :: _, _, _ | [], true, true => 0
  | [], false, true => 1
  | [], true, false => 2
  | [], false, false => 3

theorem patience_page (z : Zone α) (after last : Option α) (b b' : Option (Bound α)) (wrapped : Bool) :
    patience ⟨b, last, z.page after, (z.page after).length < z.batchLimit, wrapped⟩ <
      patience ⟨b', after, [], false, wrapped⟩ := by
  cases hp : z.page after <;> cases wrapped <;> simp [patience, z.positive]

theorem takeWhile_before {i : Nat} (hsr : l.Pairwise (· < ·)) (h : l[i]? = some first) :
    l.takeWhile (Bound.before first).admits = l.take i := by
  obtain ⟨hlt, hf⟩ := List.getElem?_eq_some_iff.mp h
  have hs : l = l.take i ++ first :: l.drop (i + 1) := hf ▸ split_get l ⟨i, hlt⟩
  generalize l.take i = front, l.drop (i + 1) = rest at hs ⊢
  subst hs
  obtain ⟨-, -, hfr⟩ := pairwise_append.mp hsr
  have had : ∀ a ∈ front, (Bound.before first).admits a := fun a ha =>
    decide_eq_true (hfr a ha first mem_cons_self)
  rw [takeWhile_append_of_pos had, takeWhile_cons_of_neg (by simp [Bound.admits]), append_nil]

/-- A lap from no cursor picks where to begin. -/
theorem ahead_begun (h : (z.page none)[hash % (z.page none).length]? = some first) :
    ahead z ⟨some (.before first), (z.page none).getLast?.or none, (z.page none).drop (hash % (z.page none).length),
      (z.page none).length < z.batchLimit, false⟩ (.before first) = z.order hash none := by
  have ha : z.following none = z.candidates := by simp [Zone.following]
  have hl : (z.page none).length = min z.batchLimit z.candidates.length := by rw [Zone.page, length_take, ha]
  have hlt := (List.getElem?_eq_some_iff.mp h).1
  have hf : z.candidates[hash % (z.page none).length]? = some first := by
    rw [← h, ← ha]
    exact (getElem?_take_of_lt (by omega)).symm
  have hu := congrArg (drop (hash % (z.page none).length)) (z.following_page none)
  rw [ha, drop_append_of_le_length hlt.le] at hu
  simp only [ahead, takeWhile_before z.ascending hf, Zone.order, ← hl, hu, decide_eq_true_eq,
    Bool.false_eq_true, if_false]

/-- A turn gives the first app that is ahead, or keeps what is ahead and comes closer to it, or
nothing is ahead. -/
theorem Ahead.turn (h : Ahead z hash lap l) : match lap.turn z hash with
    | (lap', none) => Ahead z hash lap' l ∧ lap'.patience < lap.patience
    | (_, some none) => l = []
    | (lap', some (some app)) => ∃ rest, l = app :: rest ∧ Ahead z hash lap' rest := by
  cases h with
  | unread =>
    simp only [Lap.turn, new, Option.map_none, Option.isSome_none, Bool.false_eq_true, if_false]
    cases hf : (z.page none)[hash % (z.page none).length]? with
    | none =>
      have he : z.candidates = [] := by
        by_contra hs
        have hp : 0 < (z.page none).length := by
          simpa [Zone.page, Zone.following, z.positive, length_pos_iff] using hs
        exact absurd (Nat.mod_lt hash hp) (by simpa using hf)
      simp [Zone.order, he]
    | some first =>
      refine ⟨ahead_begun hf ▸ .bounded rfl, ?_⟩
      rw [drop_eq_getElem_cons (List.getElem?_eq_some_iff.mp hf).1]
      exact Nat.zero_lt_succ 2
  | @bounded _ bound hb =>
    obtain ⟨_, after, page, drained, wrapped⟩ := lap
    cases hb
    cases page with
    | cons app rest =>
      cases wrapped with
      | false => exact ⟨_, rfl, .bounded rfl⟩
      | true =>
        by_cases ha : bound.admits app
        · simp only [Lap.turn, Option.any_some, ha]
          exact ⟨_, takeWhile_cons_of_pos ha, .bounded rfl⟩
        · simp only [Lap.turn, Option.any_some, ha]
          exact takeWhile_cons_of_neg ha
    | nil =>
      cases drained with
      | true => cases wrapped with
        | true => rfl
        | false =>
          refine ⟨?_, by simp [patience]⟩
          have hw : ahead z ⟨some bound, none, [], false, true⟩ bound =
              ahead z ⟨some bound, after, [], true, false⟩ bound := by simp [ahead, Zone.following]
          exact hw ▸ .bounded rfl
      | false =>
        have hr : ahead z ⟨some bound, (z.page after).getLast?.or after, z.page after,
            (z.page after).length < z.batchLimit, wrapped⟩ bound = ahead z ⟨some bound, after, [], false, wrapped⟩ bound := by
          simp only [ahead, decide_eq_true_eq, ← z.following_page after]
          rfl
        exact ⟨hr ▸ .bounded rfl, patience_page z after _ _ _ wrapped⟩

theorem Ahead.loop {turns : Nat} (h : Ahead z hash lap l) (htr : lap.patience < turns) :
    ∃ lap', lap.loop z hash turns = some (lap', l.head?) ∧ (l ≠ [] → Ahead z hash lap' l.tail) := by
  induction turns generalizing lap with
  | zero => omega
  | succ turns ih =>
    have ht := h.turn
    rw [Lap.loop]
    match hr : lap.turn z hash with
    | (lap', none) =>
      rw [hr] at ht
      exact ih ht.1 (by omega)
    | (lap', some none) =>
      rw [hr] at ht
      subst ht
      exact ⟨lap', rfl, fun h => absurd rfl h⟩
    | (lap', some (some app)) =>
      rw [hr] at ht
      obtain ⟨rest, rfl, hrs⟩ := ht
      exact ⟨lap', rfl, fun _ => hrs⟩

/-- `next` gives the first app that is ahead and leaves the others. -/
theorem Ahead.next (h : Ahead z hash lap l) :
    ∃ lap', lap.next z hash = some (lap', l.head?) ∧ (l ≠ [] → Ahead z hash lap' l.tail) := by
  refine h.loop ?_
  unfold patience
  split <;> omega

theorem Ahead.visits (h : Ahead z hash lap l) : lap.visits z hash (l.length + 1) = some l := by
  induction l generalizing lap with
  | nil =>
    obtain ⟨lap', hn, -⟩ := h.next
    simp [Lap.visits, hn]
  | cons app rest ih =>
    obtain ⟨lap', hn, hr⟩ := h.next
    rw [length_cons, Lap.visits, hn]
    exact congrArg (Option.map (app :: ·)) (ih (hr (cons_ne_nil _ _)))

end Lap

/-! ### Batch claims -/

/-- What the surroundings of a batch claim answer in one round of its loop: the deadline has
passed or the page cannot be read, or how the visit of the app went. -/
inductive Round
  | stopped | granted | refused
  | skipped (full : Bool)

/-- A batch claim under way, with `lapComplete` once a round has ended its loop. -/
structure Claim (α : Type) where
  lap : Lap α
  after : Option α
  grants : List α := []
  lapComplete : Option Bool := none
  deliveredInLap : Bool := false
  laps : Nat := 0

variable (zones : Nat → Zone α)

/-- The loop of `claim_in_zone`. It puts out the apps that it visits and whether they delivered.
The candidates may change from lap to lap. -/
def claimInZone (hash wanted : Nat) : Machine (Claim α) Round (α × Bool) where
  step s round :=
    if s.lapComplete.isSome ∨ wanted ≤ s.grants.length then none
    else match round, s.lap.next (zones s.laps) hash with
      | .stopped, _ => some ({ s with lapComplete := some false }, [])
      | _, none => none
      | _, some (lap, none) =>
        if s.deliveredInLap then
          some ({ s with lap := .new s.after, laps := s.laps + 1, deliveredInLap := false }, [])
        else some ({ s with lap, lapComplete := some true }, [])
      | .granted, some (lap, some app) =>
        some ({ s with lap, after := app, grants := s.grants ++ [app], deliveredInLap := true }, [(app, true)])
      | .refused, some (lap, some app) => some ({ s with lap, lapComplete := some false }, [(app, false)])
      | .skipped false, some (lap, some app) => some ({ s with lap, after := app }, [(app, false)])
      | .skipped true, some (lap, some app) => some ({ s with lap, lapComplete := some false }, [(app, false)])

/-- The claim visited this in its last lap and has that ahead of it. -/
def Claim.Underway (hash : Nat) (visited : List (α × Bool)) (s : Claim α) : Prop :=
  ∃ earlier lap ahead, visited = earlier ++ lap ∧ (lap.map Prod.fst ++ ahead).Perm (zones s.laps).candidates ∧
    (s.deliveredInLap = false → ∀ v ∈ lap, v.2 = false) ∧ match s.lapComplete with
      | none => s.lap.Ahead (zones s.laps) hash ahead
      | some complete => complete → ahead = [] ∧ s.deliveredInLap = false

theorem Claim.Underway.step {zones : Nat → Zone α} {hash wanted : Nat} {s s' : Claim α} {round : Round}
    {visited visits : List (α × Bool)} (h : s.Underway zones hash visited)
    (hst : (claimInZone zones hash wanted).step s round = some (s', visits)) :
    s'.Underway zones hash (visited ++ visits) := by
  obtain ⟨earlier, lap, ahead, rfl, hp, hd, ha⟩ := h
  obtain ⟨_, after, grants, _ | complete, delivered, laps⟩ := s
  · simp only [claimInZone] at hst
    split at hst
    · cases hst
    obtain ⟨lap', hn, hr⟩ := ha.next
    rw [hn] at hst
    cases ahead with
    | nil =>
      cases round with
      | stopped =>
        cases hst
        exact ⟨earlier, lap, [], by simp, hp, hd, nofun⟩
      | _ =>
        simp only [head?_nil] at hst
        split at hst
        · cases hst
          exact ⟨earlier ++ lap, [], _, rfl, Zone.order_perm .., fun _ _ => nofun, Lap.ahead_new ..⟩
        · next hnn =>
          cases hst
          exact ⟨earlier, lap, [], by simp, hp, hd, fun _ => ⟨rfl, eq_false_of_ne_true hnn⟩⟩
    | cons app rest =>
      have hv (d : Bool) : ((lap ++ [(app, d)]).map Prod.fst ++ rest).Perm (zones laps).candidates := by
        simpa using hp
      have hs (h : delivered = false) : ∀ v ∈ lap ++ [(app, false)], v.2 = false :=
        forall_mem_append.mpr ⟨hd h, by simp⟩
      rcases round with _ | _ | _ | _ | _ <;> cases hst
      · exact ⟨earlier, lap, _, by simp, hp, hd, nofun⟩
      · exact ⟨earlier, _, rest, by simp, hv true, nofun, hr (cons_ne_nil _ _)⟩
      · exact ⟨earlier, _, rest, by simp, hv false, hs, nofun⟩
      · exact ⟨earlier, _, rest, by simp, hv false, hs, hr (cons_ne_nil _ _)⟩
      · exact ⟨earlier, _, rest, by simp, hv false, hs, nofun⟩
  · cases hst

/-- **A lap visits every candidate once**, from just after its cursor or from an app of its first
page, and wraps once. A claim that reports a complete lap visited all of them since its last delivery. -/
theorem lap_once (z : Zone α) (hash : Nat) (cursor : Option α) :
    (Lap.new cursor).visits z hash (z.candidates.length + 1) = some (z.order hash cursor) ∧
    (z.order hash cursor).Perm z.candidates ∧ (z.order hash cursor).Nodup ∧
    ∀ zones wanted env h s, (claimInZone zones hash wanted).Run env { lap := .new cursor, after := cursor } h s →
      s.lapComplete = some true → zones s.laps = z →
      ∃ earlier lap, h.outputs = earlier ++ lap ∧ (lap.map Prod.fst).Perm z.candidates ∧ ∀ v ∈ lap, v.2 = false := by
  have hp := z.order_perm hash cursor
  refine ⟨hp.length_eq ▸ (Lap.ahead_new z hash cursor).visits, hp, ?_, ?_⟩
  · exact hp.nodup_iff.mpr (z.ascending.imp ne_of_lt)
  · intro zones wanted env h s run hc hz
    have hu : s.Underway zones hash h.outputs := by
      refine run.invariant (fun h s => s.Underway zones hash h.outputs) ?_ ?_
      · exact ⟨[], [], _, rfl, Zone.order_perm .., fun _ _ => nofun, Lap.ahead_new ..⟩
      · intro h s s' i os _ hs _ hst
        rw [History.outputs_snoc]
        exact hs.step hst
    obtain ⟨earlier, lap, ahead, hsp, hv, hn, he⟩ := hu
    rw [hc] at he
    obtain ⟨rfl, hd⟩ := he rfl
    rw [append_nil, hz] at hv
    exact ⟨earlier, lap, hsp, hv, hn hd⟩

def threeApps : Zone Nat := ⟨[1, 2, 3], by decide, 2, by decide⟩

example : (Lap.new (some 2)).visits threeApps 0 4 = some [3, 1, 2] := by decide

/-- A claim that skips every app reports a complete lap. -/
theorem skipped_apps_visited : ∃ earlier lap,
    ((claimInZone (fun _ => threeApps) 0 8).trace { lap := .new (some 2), after := some 2 }
      (replicate 4 (.skipped false))).outputs = earlier ++ lap ∧
    (lap.map Prod.fst).Perm [1, 2, 3] ∧ ∀ v ∈ lap, v.2 = false :=
  (lap_once threeApps 0 (some 2)).2.2.2 (fun _ => threeApps) 8 .anything _ _
    (.of_trace (Machine.offered_anything [] _)) (by decide +kernel) rfl

end Zeroship.Workflow

import Mathlib

/-! Throttling against the spend state of the route table.

An update marks an app in both registries only when its state differs from that in the table
before. An app that leaves the table while it is degraded keeps its marks: when it comes back
in another state, nothing differs and it stays throttled. -/
namespace Zeroship.Gateway
open List

inductive SpendState
  | allow | warn | degrade | block
deriving DecidableEq

structure RouteEntry (Manifest : Type) where
  manifest : Manifest
  spendState : SpendState

def RouteEntry.degraded {Manifest : Type} (entry : RouteEntry Manifest) : Bool := entry.spendState = .degrade

/-- A snapshot has each app once, and is read in any order. -/
structure RouteMap (AppId Manifest : Type) where
  entries : List (AppId × RouteEntry Manifest)
  nodup : (entries.map Prod.fst).Nodup

/-- The route table, and the apps that either registry has marked. -/
structure Gate (AppId Manifest : Type) where
  routes : AppId → Option (RouteEntry Manifest)
  (rate concurrency : AppId → Bool)

def degradeFactor : Nat := 8

/-- The tokens that a request of the app costs. -/
def requestCost (degraded : Bool) : Nat := if degraded then degradeFactor else 1

def effectiveLimit (limit : Nat) (degraded : Bool) : Nat := if degraded then max (limit / degradeFactor) 1 else limit

section
variable {AppId Manifest : Type} [DecidableEq AppId] (validate : Manifest → Bool)

/-- What either registry does: the app is put in or taken out. -/
def setDegraded (degraded : AppId → Bool) (app : AppId) (on : Bool) : AppId → Bool := Function.update degraded app on

/-- An entry goes to the table if its manifest validates. -/
def addRoute (routes : AppId → Option (RouteEntry Manifest)) (e : AppId × RouteEntry Manifest) :
    AppId → Option (RouteEntry Manifest) :=
  if validate e.2.manifest then Function.update routes e.1 (some e.2) else routes

/-- Its app is marked, or the mark cleared, if that differs from the table before. -/
def flip (prev degraded : AppId → Bool) (e : AppId × RouteEntry Manifest) : AppId → Bool :=
  if validate e.2.manifest ∧ prev e.1 ≠ e.2.degraded then setDegraded degraded e.1 e.2.degraded else degraded

variable (g : Gate AppId Manifest)

def Gate.prevDegraded (app : AppId) : Bool := (g.routes app).any RouteEntry.degraded

variable (newRoutes : RouteMap AppId Manifest)

def Gate.update : Gate AppId Manifest :=
  newRoutes.entries.foldl
    (fun gate e => ⟨addRoute validate gate.routes e, flip validate g.prevDegraded gate.rate e,
      flip validate g.prevDegraded gate.concurrency e⟩)
    {g with routes := fun _ => none}

def Gate.run (snapshots : List (RouteMap AppId Manifest)) : Gate AppId Manifest :=
  snapshots.foldl (update validate) ⟨fun _ => none, fun _ => false, fun _ => false⟩

/-- Both registries mark an app of the table exactly when it is degraded. -/
def Gate.Mirrors : Prop := ∀ app entry, g.routes app = some entry →
  g.rate app = entry.degraded ∧ g.concurrency app = entry.degraded

/-- No app comes into the table with a mark but not degraded. -/
def Gate.NoStaleReturn : Prop :=
  ∀ e ∈ newRoutes.entries, validate e.2.manifest → g.routes e.1 = none → e.2.degraded = false →
    g.rate e.1 = false ∧ g.concurrency e.1 = false

/-! ### One update -/

section
variable {E β : Type} {entries : List (AppId × E)} {app : AppId} {entry : E} (c : AppId × E → Prop) [DecidablePred c]
  (v : AppId × E → β)

theorem foldl_of_not_mem (h : app ∉ entries.map Prod.fst) (s : AppId → β) :
    entries.foldl (fun s e => if c e then Function.update s e.1 (v e) else s) s app = s app := by
  induction entries generalizing s with
  | nil => rfl
  | cons e rest ih =>
    rw [map_cons, mem_cons, not_or] at h
    rw [foldl_cons, ih h.2]
    split
    · exact Function.update_of_ne h.1 ..
    · rfl

theorem foldl_update_of_mem (hn : (entries.map Prod.fst).Nodup) (hm : (app, entry) ∈ entries) (s : AppId → β) :
    entries.foldl (fun s e => if c e then Function.update s e.1 (v e) else s) s app =
      if c (app, entry) then v (app, entry) else s app := by
  induction entries generalizing s with
  | nil => cases hm
  | cons e rest ih =>
    rw [map_cons, nodup_cons] at hn
    rw [foldl_cons]
    rcases mem_cons.mp hm with rfl | hr
    · rw [foldl_of_not_mem c v hn.1]
      split <;> simp
    have hne : app ≠ e.1 := fun heq => hn.1 (heq ▸ mem_map_of_mem hr)
    rw [ih hn.2 hr]
    congr 1
    split
    · exact Function.update_of_ne hne ..
    · rfl

end

variable {validate} {g : Gate AppId Manifest} {newRoutes : RouteMap AppId Manifest} {app : AppId}
  {entry : RouteEntry Manifest} {degraded : AppId → Bool}

theorem update_routes : (g.update validate newRoutes).routes app = some entry ↔
    (app, entry) ∈ newRoutes.entries ∧ validate entry.manifest := by
  have hr : (g.update validate newRoutes).routes = newRoutes.entries.foldl (addRoute validate) fun _ => none :=
    (foldl_hom Gate.routes fun _ _ => rfl).symm
  have hm {entry : RouteEntry Manifest} (h : (app, entry) ∈ newRoutes.entries) :
      (g.update validate newRoutes).routes app = if validate entry.manifest then some entry else none := by
    rw [hr]
    exact foldl_update_of_mem _ _ newRoutes.nodup h _
  refine ⟨fun h => ?_, fun ⟨h, hv⟩ => by rw [hm h, if_pos hv]⟩
  by_cases hin : app ∈ newRoutes.entries.map Prod.fst
  · obtain ⟨⟨app, entry'⟩, he, rfl⟩ := mem_map.mp hin
    rw [hm he] at h
    split at h
    · next hv => exact Option.some.inj h ▸ ⟨he, hv⟩
    · cases h
  · rw [hr] at h
    exact absurd ((foldl_of_not_mem _ _ hin _).symm.trans h) (by simp)

/-- The mark of an app of the snapshot in a registry that mirrored the table before. -/
theorem flip_eq_iff (hm : (app, entry) ∈ newRoutes.entries) (hv : validate entry.manifest)
    (hmr : ∀ old, g.routes app = some old → degraded app = old.degraded) :
    newRoutes.entries.foldl (flip validate g.prevDegraded) degraded app = entry.degraded ↔
      (g.routes app = none → entry.degraded = false → degraded app = false) := by
  refine (Eq.congr_left (foldl_update_of_mem _ _ newRoutes.nodup hm _)).trans ?_
  simp only [hv, true_and, Gate.prevDegraded]
  cases ho : g.routes app with
  | none => cases entry.degraded <;> simp
  | some old =>
    rw [hmr old ho]
    by_cases h : old.degraded = entry.degraded <;> simp [h]

/-- A table that was mirrored is so after an update unless a mark is stale. -/
theorem mirrors_update_iff (hg : g.Mirrors) : (g.update validate newRoutes).Mirrors ↔ g.NoStaleReturn validate newRoutes := by
  have hr : (g.update validate newRoutes).rate = newRoutes.entries.foldl (flip validate g.prevDegraded) g.rate :=
    (foldl_hom Gate.rate fun _ _ => rfl).symm
  have hc : (g.update validate newRoutes).concurrency =
      newRoutes.entries.foldl (flip validate g.prevDegraded) g.concurrency :=
    (foldl_hom Gate.concurrency fun _ _ => rfl).symm
  have hmr {app : AppId} {entry : RouteEntry Manifest} (hm : (app, entry) ∈ newRoutes.entries)
      (hv : validate entry.manifest) :
      ((g.update validate newRoutes).rate app = entry.degraded ∧
        (g.update validate newRoutes).concurrency app = entry.degraded) ↔
      (g.routes app = none → entry.degraded = false → g.rate app = false ∧ g.concurrency app = false) := by
    rw [hr, hc, flip_eq_iff hm hv fun old ho => (hg app old ho).1,
      flip_eq_iff hm hv fun old ho => (hg app old ho).2]
    tauto
  constructor
  · rintro h ⟨app, entry⟩ hm hv
    exact (hmr hm hv).mp (h app entry (update_routes.mpr ⟨hm, hv⟩))
  · intro h app entry he
    obtain ⟨hm, hv⟩ := update_routes.mp he
    exact (hmr hm hv).mpr (h (app, entry) hm hv)

/-- Throttling mirrors the spend states after every snapshot exactly when no snapshot brings back
an app with a stale mark. -/
theorem mirrors_iff_noStaleReturn (snapshots : List (RouteMap AppId Manifest)) :
    (∀ past, past <+: snapshots → (Gate.run validate past).Mirrors) ↔
      ∀ past next, past ++ [next] <+: snapshots → (Gate.run validate past).NoStaleReturn validate next := by
  have hr (past : List (RouteMap AppId Manifest)) (next : RouteMap AppId Manifest) :
      Gate.run validate (past ++ [next]) = (Gate.run validate past).update validate next := by
    simp [Gate.run]
  constructor
  · intro h past next hp
    have ha := h _ hp
    rw [hr] at ha
    exact (mirrors_update_iff (h past ((prefix_append ..).trans hp))).mp ha
  · intro h past hp
    induction past using reverseRecOn with
    | nil => exact fun app entry he => by cases he
    | append_singleton past next ih =>
      rw [hr]
      exact (mirrors_update_iff (ih ((prefix_append ..).trans hp))).mpr (h past next hp)

end

/-- A snapshot of one app. -/
def oneApp (state : SpendState) : RouteMap Unit Unit := ⟨[((), ⟨(), state⟩)], List.nodup_singleton ()⟩

/-- The app is degraded, gone and back: it stays throttled, at an eighth of its rate. -/
theorem returned_app_throttled : let g := Gate.run (fun _ => true) [oneApp .degrade, ⟨[], .nil⟩, oneApp .allow]
    (g.routes ()).map (·.spendState) = some .allow ∧ ¬ g.Mirrors ∧ requestCost (g.rate ()) = 8 ∧
      effectiveLimit 16 (g.concurrency ()) = 2 := by
  refine ⟨rfl, fun h => ?_, rfl, rfl⟩
  exact absurd (h () ⟨(), .allow⟩ rfl).1 (by decide)

end Zeroship.Gateway

import Zeroship.Base.Tally
import Zeroship.Cdc.ReadSet

/-! The usage meter: counters for each app and metric, and the drain that turns them into events.

Five metrics have atomics of their own, every other name has an entry in a map. Counting is
atomic for each counter, and a drain excludes all counting, so both are single steps here. -/
namespace Zeroship.Metering
open Base List AList

abbrev AppId := String

/-- The metrics that have an atomic of their own. -/
inductive Fixed where
  | requests | cpuUs | wallUs | egressBytes | ingressBytes
deriving DecidableEq

namespace Fixed

def name : Fixed → String
  | requests => "requests"
  | cpuUs => "cpu_us"
  | wallUs => "wall_us"
  | egressBytes => "egress_bytes"
  | ingressBytes => "ingress_bytes"

/-- In the order in which they are drained. -/
def all : List Fixed := [requests, cpuUs, wallUs, egressBytes, ingressBytes]

def named (metric : String) : Option Fixed := all.find? (·.name = metric)

variable (f : Fixed)

theorem mem_all : f ∈ all := by
  cases f <;> decide

theorem nodup_names : (all.map name).Nodup := by decide

theorem named_name : named f.name = some f := by
  cases f <;> rfl

theorem name_of_named {metric : String} {f : Fixed} (h : named metric = some f) : f.name = metric :=
  of_decide_eq_true (find?_some h :)

end Fixed

/-- What a 64-bit counter holds after an addition. -/
def fetchAdd (value n : Nat) : Nat := (value + n) % 2 ^ 64

structure AppCounters where
  fixed : Fixed → Nat
  custom : AList (fun _ : String => Nat)
  /-- The map has no entry for a metric with an atomic. -/
  unnamed : ∀ metric ∈ custom, Fixed.named metric = none

namespace AppCounters

def zero : AppCounters := ⟨fun _ => 0, ∅, fun _ h => absurd h (AList.notMem_empty _)⟩

variable (c : AppCounters) (metric : String)

def value : Nat :=
  match Fixed.named metric with
  | some f => c.fixed f
  | none => (c.custom.lookup metric).getD 0

def add (n : Nat) : AppCounters :=
  match h : Fixed.named metric with
  | some f => { c with fixed := Function.update c.fixed f (fetchAdd (c.fixed f) n) }
  | none =>
    { c with
      custom := c.custom.insert metric (fetchAdd ((c.custom.lookup metric).getD 0) n)
      unnamed := fun other hother => (AList.mem_insert _).mp hother |>.elim (· ▸ h) (c.unnamed other) }

/-- The counters that are not zero, the fixed ones first and then the others by name. -/
def drainMetrics : List (String × Nat) :=
  (Fixed.all.map (fun f => (f.name, c.fixed f)) ++
    (c.custom.entries.map fun e => (e.1, e.2)).insertionSort (·.1 ≤ ·.1)).filter (0 < ·.2)

variable {c : AppCounters}

theorem value_of_named {metric : String} {f : Fixed} (h : Fixed.named metric = some f) :
    c.value metric = c.fixed f := by simp [value, h]

theorem value_of_unnamed {metric : String} (h : Fixed.named metric = none) :
    c.value metric = (c.custom.lookup metric).getD 0 := by simp [value, h]

theorem value_zero : zero.value metric = 0 := by
  unfold value
  split <;> rfl

theorem value_add (c : AppCounters) (metric other : String) (n : Nat) :
    (c.add metric n).value other = if other = metric then fetchAdd (c.value metric) n else c.value other := by
  unfold add
  split
  · next f hf =>
    cases hg : Fixed.named other with
    | none =>
      rw [if_neg (by rintro rfl; simp [hf] at hg), value_of_unnamed hg, value_of_unnamed hg]
    | some g =>
      rw [value_of_named hg, value_of_named hg, value_of_named hf]
      show Function.update c.fixed f _ g = _
      by_cases ho : other = metric
      · obtain rfl : g = f := Option.some.inj (by rw [← hg, ho, hf])
        rw [if_pos ho, Function.update_self]
      · rw [if_neg ho, Function.update_of_ne]
        rintro rfl
        exact ho ((Fixed.name_of_named hg).symm.trans (Fixed.name_of_named hf))
  · next hn =>
    cases hg : Fixed.named other with
    | some g =>
      rw [if_neg (by rintro rfl; simp [hn] at hg), value_of_named hg, value_of_named hg]
    | none =>
      rw [value_of_unnamed hg, value_of_unnamed hg, value_of_unnamed hn]
      show (lookup other (c.custom.insert metric _)).getD 0 = _
      by_cases ho : other = metric
      · rw [if_pos ho, ho, lookup_insert, Option.getD_some]
      · rw [if_neg ho, lookup_insert_ne ho]

theorem tally_fixed (c : AppCounters) (metric : String) :
    tally metric (Fixed.all.map fun f => (f.name, c.fixed f)) = ((Fixed.named metric).map c.fixed).getD 0 := by
  have hn : ((Fixed.all.map fun f => (f.name, c.fixed f)).map (·.1)).Nodup := by
    exact Fixed.nodup_names
  cases h : Fixed.named metric with
  | some f =>
    obtain rfl := Fixed.name_of_named h
    exact tally_of_nodup hn (mem_map.mpr ⟨f, Fixed.mem_all f, rfl⟩)
  | none =>
    refine tally_of_not_mem fun hm => ?_
    obtain ⟨f, _, rfl⟩ : ∃ f ∈ Fixed.all, f.name = metric := by simpa using hm
    simp [Fixed.named_name] at h

theorem tally_custom (c : AppCounters) (metric : String) :
    tally metric (c.custom.entries.map fun e => (e.1, e.2)) = (c.custom.lookup metric).getD 0 := by
  have hn : ((c.custom.entries.map fun e => (e.1, e.2)).map (·.1)).Nodup := by
    rw [map_map]
    exact c.custom.nodupKeys
  cases h : c.custom.lookup metric with
  | some n => exact tally_of_nodup hn (mem_map.mpr ⟨⟨metric, n⟩, mem_lookup_iff.mp h, rfl⟩)
  | none =>
    refine tally_of_not_mem fun hm => lookup_eq_none.mp h ?_
    rw [map_map] at hm
    exact hm

theorem tally_drainMetrics (c : AppCounters) (metric : String) : tally metric c.drainMetrics = c.value metric := by
  rw [drainMetrics, tally_positive, tally_append, tally_perm (perm_insertionSort _ _), tally_fixed, tally_custom]
  cases h : Fixed.named metric with
  | some f =>
    have ha : c.custom.lookup metric = none := by
      refine lookup_eq_none.mpr fun hm => ?_
      simp [c.unnamed metric hm] at h
    rw [value_of_named h, ha]
    rfl
  | none =>
    rw [value_of_unnamed h, Option.map_none, Option.getD_none, Nat.zero_add]

end AppCounters

structure Meter where
  source : String
  apps : AList (fun _ : AppId => AppCounters)

namespace Meter

def defaultSource : String := "zeroship-worker"

variable (source : String)

def withSource : Meter where
  source := if source.toList.all Cdc.isWhitespace then defaultSource else source
  apps := ∅

variable (m : Meter) (app : AppId)

def counters : AppCounters := (m.apps.lookup app).getD .zero

def value (m : Meter) (app : AppId) (metric : String) : Nat := (m.counters app).value metric

/-- An app's counters are made when it is first counted for. -/
def increment (metric : String) (n : Nat) : Meter :=
  { m with apps := m.apps.insert app ((m.counters app).add metric n) }

/-- What a drain finds: app, metric and value. -/
def drained : List ((AppId × String) × Nat) :=
  m.apps.entries.flatMap fun e => e.2.drainMetrics.map fun d => ((e.1, d.1), d.2)

/-- What a drain leaves: the apps it found something for, at zero. -/
def reset : Meter where
  source := m.source
  apps :=
    { entries := (m.apps.entries.filter fun e => e.2.drainMetrics ≠ []).map fun e => ⟨e.1, .zero⟩
      nodupKeys := by
        have hkeys := m.apps.nodupKeys.sublist (List.filter_sublist (p := fun e => e.2.drainMetrics ≠ []))
        rw [List.NodupKeys, List.keys, List.map_map]
        exact hkeys }

variable (m : Meter) (app other : AppId) (metric name : String) (n : Nat)

theorem value_withSource : (withSource source).value app metric = 0 :=
  AppCounters.value_zero metric

theorem value_increment : (m.increment app metric n).value other name =
    if other = app ∧ name = metric then fetchAdd (m.value app metric) n else m.value other name := by
  unfold value counters increment
  by_cases ha : other = app
  · subst ha
    rw [lookup_insert, Option.getD_some, AppCounters.value_add]
    simp [counters]
  · rw [lookup_insert_ne ha, if_neg (ha ·.1)]

theorem tally_drained : tally (app, metric) m.drained = m.value app metric := by
  rw [drained, tally_entries (fun e => e.2.drainMetrics) m.apps.nodupKeys]
  unfold value counters AList.lookup
  cases m.apps.entries.dlookup app with
  | some c => exact c.tally_drainMetrics metric
  | none => exact (AppCounters.value_zero metric).symm

theorem value_reset : m.reset.value app metric = 0 := by
  have hz : ∀ c ∈ m.reset.apps.lookup app, c = .zero := by
    intro c hc
    obtain ⟨e, _, he⟩ := mem_map.mp (mem_lookup_iff.mp hc)
    cases he
    rfl
  unfold value counters
  cases h : m.reset.apps.lookup app with
  | none => exact AppCounters.value_zero metric
  | some c =>
    rw [hz c h]
    exact AppCounters.value_zero metric

end Meter

end Zeroship.Metering

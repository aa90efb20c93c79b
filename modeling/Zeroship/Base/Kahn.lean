import Zeroship.Base.Lists

/-! Kahn's algorithm: a topological order of a finite graph, the least free node first.

A node is free when the edges into it come from nodes that are in the order already. The
algorithm counts the other edges into each node and takes the least free node as long as there
is one. What it leaves out lies on a cycle or behind one. -/
namespace Zeroship.Base.Kahn
open List

variable {ι : Type} [LinearOrder ι] {edges : List (ι × ι)}

structure State (ι : Type) where
  indegree : ι → Nat
  (ready ordered : List ι)

def targets (edges : List (ι × ι)) (v : ι) : List ι := (edges.filter (·.1 = v)).map (·.2)

def indegree (edges : List (ι × ι)) (v : ι) : Nat := edges.countP (·.2 = v)

/-- One edge into `v` less; `v` is free if it was the last. -/
def release (p : (ι → Nat) × List ι) (v : ι) : (ι → Nat) × List ι :=
  (fun a => if a = v then p.1 v - 1 else p.1 a, if p.1 v - 1 = 0 ∧ v ∉ p.2 then v :: p.2 else p.2)

/-- Takes a free node. -/
def take (edges : List (ι × ι)) (st : State ι) (v : ι) : State ι :=
  let released := (targets edges v).foldl release (st.indegree, st.ready.filter (· ≠ v))
  ⟨released.1, released.2, st.ordered ++ [v]⟩

def run (edges : List (ι × ι)) : Nat → State ι → State ι
  | 0, st => st
  | fuel + 1, st => match st.ready.min? with
    | none => st
    | some v => run edges fuel (take edges st v)

variable (nodes : List ι)

def start (edges : List (ι × ι)) : State ι :=
  ⟨indegree edges, nodes.dedup.filter (indegree edges · = 0), []⟩

/-- Every round takes a node, so there are no more rounds than nodes. -/
def finish (edges : List (ι × ι)) : State ι := run edges nodes.length (start nodes edges)

def order (edges : List (ι × ι)) : List ι := (finish nodes edges).ordered

/-- Some node stands before the source of an edge into it. -/
def Early (edges : List (ι × ι)) (l : List ι) : Prop :=
  ExistsSplit (fun before v => ∃ d, (d, v) ∈ edges ∧ d ∉ before) l

structure Inv (nodes : List ι) (edges : List (ι × ι)) (st : State ι) : Prop where
  nodup : (st.ordered ++ st.ready).Nodup
  sub : ∀ v ∈ st.ordered ++ st.ready, v ∈ nodes
  count : ∀ v ∉ st.ordered, st.indegree v = edges.countP (fun e => e.2 = v ∧ e.1 ∉ st.ordered)
  free : ∀ v ∈ st.ready, st.indegree v = 0
  ready : ∀ v ∈ nodes, v ∉ st.ordered → st.indegree v = 0 → v ∈ st.ready
  sources : ¬ Early edges st.ordered

theorem mem_release {p : (ι → Nat) × List ι} {v w : ι} : v ∈ (release p w).2 ↔ v ∈ p.2 ∨ v = w ∧ p.1 v ≤ 1 := by
  simp only [release]
  split
  · next hf =>
    rw [mem_cons]
    constructor
    · rintro (rfl | hv)
      · exact .inr ⟨rfl, by omega⟩
      · exact .inl hv
    · rintro (hv | ⟨rfl, _⟩)
      · exact .inr hv
      · exact .inl rfl
  · next hk =>
    refine ⟨.inl, ?_⟩
    rintro (hv | ⟨rfl, hle⟩)
    · exact hv
    · by_contra hv
      exact hk ⟨by omega, hv⟩

theorem foldl_release (l : List ι) (p : (ι → Nat) × List ι) : (∀ v, (l.foldl release p).1 v = p.1 v - l.count v) ∧
    (∀ v, v ∈ (l.foldl release p).2 ↔ v ∈ p.2 ∨ v ∈ l ∧ p.1 v ≤ l.count v) ∧
    (p.2.Nodup → (l.foldl release p).2.Nodup) := by
  induction l generalizing p with
  | nil => exact ⟨fun _ => by simp, fun _ => by simp, id⟩
  | cons w rest ih =>
    obtain ⟨hc, hrd, hn⟩ := ih (release p w)
    have hr : ∀ v, (release p w).1 v = if v = w then p.1 v - 1 else p.1 v := by
      intro v
      by_cases hv : v = w <;> simp [release, hv]
    refine ⟨fun v => ?_, fun v => ?_, fun hp => hn ?_⟩
    · rw [foldl_cons, hc, hr, count_cons]
      by_cases hv : v = w
      · simp [hv]
        omega
      · simp [hv, Ne.symm hv]
    · rw [foldl_cons, hrd, mem_release, hr, mem_cons, count_cons]
      by_cases hv : v = w
      · have hco : v ∈ rest ∨ rest.count v = 0 := by
          by_cases hm : v ∈ rest
          · exact .inl hm
          · exact .inr (count_eq_zero.mpr hm)
        clear hc hrd hn ih hr
        grind
      · simp [hv, Ne.symm hv]
    · simp only [release]
      split
      · next hf => exact nodup_cons.mpr ⟨hf.2, hp⟩
      · exact hp

theorem count_targets (edges : List (ι × ι)) (v w : ι) :
    (targets edges v).count w = edges.countP (fun e => e.2 = w ∧ e.1 = v) := by
  rw [targets, count, countP_map, countP_filter]
  refine countP_congr fun e _ => ?_
  simp

/-- The edges into a node whose sources are not in the order, counted with `v` or after it. -/
theorem countP_split {ordered : List ι} {v : ι} (hv : v ∉ ordered) (w : ι) :
    edges.countP (fun e => e.2 = w ∧ e.1 ∉ ordered) =
      edges.countP (fun e => e.2 = w ∧ e.1 = v) + edges.countP (fun e => e.2 = w ∧ e.1 ∉ ordered ++ [v]) := by
  induction edges with
  | nil => rfl
  | cons e rest ih =>
    by_cases hw : e.2 = w <;> by_cases hs : e.1 = v <;> by_cases hm : e.1 ∈ ordered <;>
      simp_all <;> omega

section
variable {nodes : List ι} {edges : List (ι × ι)} {st : State ι} {v : ι}

theorem Inv.source_mem (hi : Inv nodes edges st) (hv : v ∈ st.ready) {d : ι} (hd : (d, v) ∈ edges) :
    d ∈ st.ordered := by
  have ho : v ∉ st.ordered := fun hm => disjoint_of_nodup_append hi.nodup hm hv
  have hz := (hi.count v ho).symm.trans (hi.free v hv)
  by_contra hd'
  have := countP_eq_zero.mp hz (d, v) hd
  simp [hd'] at this

theorem Inv.ordered_source_mem (hi : Inv nodes edges st) (hv : v ∈ st.ordered) {d : ι} (hd : (d, v) ∈ edges) :
    d ∈ st.ordered := by
  obtain ⟨before, after, heq⟩ := append_of_mem hv
  by_contra ho
  exact hi.sources ⟨before, v, after, heq, d, hd, fun hm => ho (heq ▸ mem_append_left _ hm)⟩

theorem inv_start (nodes : List ι) (edges : List (ι × ι)) : Inv nodes edges (start nodes edges) where
  nodup := (List.nodup_dedup nodes).filter _
  sub v hv := List.mem_dedup.mp (List.mem_of_mem_filter hv)
  count v _ := by simp [start, indegree]
  free v hv := by simpa [start] using (mem_filter.mp hv).2
  ready v hv _ hz := mem_filter.mpr ⟨mem_dedup.mpr hv, by simpa [start] using hz⟩
  sources := fun ⟨before, a, after, heq, _⟩ => by simp [start] at heq

theorem inv_take (hno : ∀ e ∈ edges, e.2 ∈ nodes) (hi : Inv nodes edges st) (hv : v ∈ st.ready) :
    Inv nodes edges (take edges st v) := by
  obtain ⟨hc, hr, hn⟩ := foldl_release (targets edges v) (st.indegree, st.ready.filter (· ≠ v))
  obtain ⟨hor, hrn, hds⟩ := nodup_append.mp hi.nodup
  have ho : v ∉ st.ordered := fun hm => hds v hm v hv rfl
  -- what is free after the round was free before it, or is the target of an edge that was its last
  have hf : ∀ w ∈ (take edges st v).ready,
      w ∉ st.ordered ∧ w ≠ v ∧ w ∈ nodes ∧ st.indegree w ≤ (targets edges v).count w := by
    intro w hw
    obtain hw | ⟨hw, hle⟩ := (hr w).mp hw
    · obtain ⟨hw, hne⟩ := mem_filter.mp hw
      refine ⟨fun hm => hds w hm w hw rfl, by simpa using hne, hi.sub w (mem_append_right _ hw), ?_⟩
      rw [hi.free w hw]
      exact Nat.zero_le _
    · have hed : (v, w) ∈ edges := by
        obtain ⟨e, he, rfl⟩ := mem_map.mp hw
        obtain ⟨he, hs⟩ := mem_filter.mp he
        rwa [← of_decide_eq_true hs]
      refine ⟨fun hm => ho (hi.ordered_source_mem hm hed), ?_, hno _ hed, hle⟩
      rintro rfl
      exact ho (hi.source_mem hv hed)
  have hin : ∀ w, (take edges st v).indegree w = st.indegree w - (targets edges v).count w := hc
  refine ⟨?_, ?_, ?_, ?_, ?_, ?_⟩
  · refine nodup_append.mpr ⟨?_, hn (hrn.filter _), ?_⟩
    · exact nodup_append.mpr ⟨hor, nodup_singleton v, fun a ha b hb heq =>
        ho (by rwa [← mem_singleton.mp hb, ← heq])⟩
    rintro a ha b hb rfl
    obtain ⟨hnt, hne, _⟩ := hf a hb
    obtain ha | ha := mem_append.mp ha
    · exact hnt ha
    · exact hne (mem_singleton.mp ha)
  · intro w hw
    obtain hw | hw := mem_append.mp hw
    · obtain hw | hw := mem_append.mp hw
      · exact hi.sub w (mem_append_left _ hw)
      · rw [mem_singleton.mp hw]
        exact hi.sub v (mem_append_right _ hv)
    · exact (hf w hw).2.2.1
  · intro w hw
    have hw' : w ∉ st.ordered := fun hm => hw (mem_append_left _ hm)
    rw [hin, count_targets, hi.count w hw', countP_split ho, Nat.add_sub_cancel_left]
    rfl
  · intro w hw
    rw [hin]
    exact Nat.sub_eq_zero_of_le (hf w hw).2.2.2
  · intro w hnd hw hz
    rw [hin] at hz
    refine (hr w).mpr ?_
    by_cases ht : w ∈ targets edges v
    · exact .inr ⟨ht, Nat.sub_eq_zero_iff_le.mp hz⟩
    · rw [count_eq_zero.mpr ht] at hz
      have hw' : w ∉ st.ordered ∧ w ≠ v := by simpa [take] using hw
      exact .inl (mem_filter.mpr ⟨hi.ready w hnd hw'.1 hz, by simpa using hw'.2⟩)
  · intro hea
    obtain hea | ⟨d, hd, hm⟩ := existsSplit_concat.mp hea
    · exact hi.sources hea
    · exact hm (hi.source_mem hv hd)

theorem inv_run (hn : ∀ e ∈ edges, e.2 ∈ nodes) (fuel : Nat) (hi : Inv nodes edges st) :
    Inv nodes edges (run edges fuel st) := by
  induction fuel generalizing st with
  | zero => exact hi
  | succ fuel ih =>
    rw [run]
    split
    · exact hi
    · next v hm => exact ih (inv_take hn hi (min?_mem hm))

/-- With enough rounds the algorithm ends for want of free nodes. -/
theorem run_ended (hn : ∀ e ∈ edges, e.2 ∈ nodes) (fuel : Nat) (hi : Inv nodes edges st)
    (hf : nodes.length ≤ st.ordered.length + fuel) : (run edges fuel st).ready = [] := by
  induction fuel generalizing st with
  | zero =>
    have hle : (st.ordered ++ st.ready).length ≤ nodes.length := (hi.nodup.subperm hi.sub).length_le
    rw [length_append] at hle
    show st.ready = []
    exact eq_nil_of_length_eq_zero (by omega)
  | succ fuel ih =>
    rw [run]
    split
    · next hm => exact min?_eq_none_iff.mp hm
    next v hm =>
    refine ih (inv_take hn hi (min?_mem hm)) ?_
    simp only [take, length_append, length_singleton]
    omega

end

/-- An order of some of the nodes in which every edge leads forward. -/
structure Topological (nodes : List ι) (edges : List (ι × ι)) (l : List ι) : Prop where
  nodup : l.Nodup
  sub : l ⊆ nodes
  sources : ¬ Early edges l
  /-- What is left out waits for something that is left out. -/
  rest : ∀ v ∈ nodes, v ∉ l → ∃ d, (d, v) ∈ edges ∧ d ∉ l

/-- **The order has no node twice, no other nodes, every edge leads forward in it, and it ends
only where each of the other nodes waits for one of them.** -/
theorem order_topological {nodes : List ι} (hn : ∀ e ∈ edges, e.2 ∈ nodes) :
    Topological nodes edges (order nodes edges) := by
  have hi : Inv nodes edges (finish nodes edges) := inv_run hn nodes.length (inv_start nodes edges)
  have hen : (finish nodes edges).ready = [] := run_ended hn _ (inv_start nodes edges) (Nat.le_add_left _ _)
  refine ⟨(nodup_append.mp hi.nodup).1, fun v hv => hi.sub v (mem_append_left _ hv), hi.sources, ?_⟩
  intro v hv ho
  have hp : (finish nodes edges).indegree v ≠ 0 := fun hz => by
    have hr := hi.ready v hv ho hz
    rw [hen] at hr
    exact not_mem_nil hr
  rw [hi.count v ho] at hp
  obtain ⟨e, he, hs⟩ := countP_pos_iff.mp (Nat.pos_of_ne_zero hp)
  obtain ⟨rfl, ho'⟩ := of_decide_eq_true hs
  exact ⟨e.1, he, ho'⟩

omit [LinearOrder ι] in
/-- An order as long as the list of nodes has every one of them, and the list has none twice. -/
theorem Topological.perm {nodes : List ι} {l : List ι} (ht : Topological nodes edges l)
    (hl : l.length = nodes.length) : l.Perm nodes :=
  (ht.nodup.subperm ht.sub).perm_of_length_le hl.ge

section
variable {nodes nodes' : List ι} {edges edges' : List (ι × ι)} {st st' : State ι}

/-- The free nodes may be listed in another order. -/
structure Alike (st st' : State ι) : Prop where
  indegree : st.indegree = st'.indegree
  ready : st.ready.Perm st'.ready
  nodup : st.ready.Nodup
  ordered : st.ordered = st'.ordered

theorem alike_start (hn : nodes.Perm nodes') (he : edges.Perm edges') : Alike (start nodes edges) (start nodes' edges') := by
  have hi : indegree edges = indegree edges' := funext fun v => he.countP_eq _
  refine ⟨hi, ?_, (nodup_dedup nodes).filter _, rfl⟩
  simp only [start, hi]
  exact hn.dedup.filter _

theorem Alike.take (h : Alike st st') (he : edges.Perm edges') (v : ι) : Alike (take edges st v) (take edges' st' v) := by
  have ht : (targets edges v).Perm (targets edges' v) := (he.filter _).map _
  have hf := foldl_release (targets edges v) (st.indegree, st.ready.filter (· ≠ v))
  have hf' := foldl_release (targets edges' v) (st'.indegree, st'.ready.filter (· ≠ v))
  refine ⟨funext fun w => ?_, ?_, hf.2.2 (h.nodup.filter _), congrArg (· ++ [v]) h.ordered⟩
  · exact (hf.1 w).trans ((hf'.1 w).trans (by rw [h.indegree, ht.count_eq])).symm
  · refine (perm_ext_iff_of_nodup (hf.2.2 (h.nodup.filter _)) (hf'.2.2 ((h.ready.nodup h.nodup).filter _))).mpr fun w => ?_
    rw [hf.2.1, hf'.2.1, h.indegree, ht.count_eq, ht.mem_iff, (h.ready.filter _).mem_iff]

theorem Alike.run (h : Alike st st') (he : edges.Perm edges') (fuel : Nat) :
    Alike (run edges fuel st) (run edges' fuel st') := by
  induction fuel generalizing st st' with
  | zero => exact h
  | succ fuel ih =>
    have hm : st.ready.min? = st'.ready.min? := by
      ext v
      simp only [min?_eq_some_iff, h.ready.mem_iff]
    unfold Kahn.run
    rw [hm]
    split
    · exact h
    · exact ih (h.take he _)

/-- The order does not depend on how the nodes and the edges are listed. -/
theorem order_perm (hn : nodes.Perm nodes') (he : edges.Perm edges') : order nodes edges = order nodes' edges' := by
  unfold order finish
  rw [hn.length_eq]
  exact ((alike_start hn he).run he _).ordered

end

end Zeroship.Base.Kahn

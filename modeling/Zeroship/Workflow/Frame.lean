import Zeroship.Base.Fallible
import Zeroship.Workflow.Manager

/-! What the parts of a transaction change.

Recovery never touches the jobs or the tickets. A publication and a claim take one ticket of
their app. Every other part changes one row. -/
namespace Zeroship.Workflow

open Base List

variable {e : Error}

variable {α : Type}

@[simp] theorem orElse_ok {o : Option α} {a : α} : orElse e o = .ok a ↔ o = some a := by
  cases o <;> simp [orElse]

theorem checkedAdd_some {a b c : Int} (h : checkedAdd a b = some c) : c = a + b := by
  unfold checkedAdd at h
  split at h
  · exact (Option.some.inj h).symm
  · cases h

@[simp] theorem discard_ok {x : Except Error α} {u : PUnit} : discard x = .ok u ↔ ∃ a, x = .ok a := by
  cases x <;> simp [discard, Functor.discard, Functor.mapConst, Except.map]

namespace Store

variable (s : Store)

def cursor (app : AppId) : Option Int := (s.scopes.find? (·.id = app)).map (·.dispatchCursor)

/-- One ticket of an app was taken. -/
structure Ticket (s s' : Store) (app : AppId) (c : Int) : Prop where
  before : s.cursor app = some c
  after : s'.cursor app = some (c + 1)
  others : ∀ b, b ≠ app → s'.cursor b = s.cursor b

/-- No ticket was taken. -/
def SameCursors (s' : Store) : Prop := ∀ app c, s.cursor app = some c → s'.cursor app = some c

variable {s s' : Store} {app : AppId} {jobs : List Job} {row j job : Job} {q : Queue} {guards : Guards}
  {spec : JobSpec}

theorem sameCursors (h : s'.scopes = s.scopes) : SameCursors s s' := by
  intro app c hc
  rw [cursor, h]
  exact hc

theorem cursor_congr (h : s'.scopes = s.scopes) (app : AppId) : s'.cursor app = s.cursor app := by
  rw [cursor, cursor, h]

theorem dispatchCursor_ok {c : Int} (h : s.dispatchCursor app = .ok c) : s.cursor app = some c ∧ 0 ≤ c := by
  simp only [dispatchCursor, bind_ok, orElse_ok, demand_ok, pure_ok] at h
  obtain ⟨scope, hs, _, hp, rfl⟩ := h
  exact ⟨by rw [cursor, hs]; rfl, hp⟩

theorem nextDispatchOrder_ok {previous : Option Int} {order : Int} (h : s.nextDispatchOrder app previous = .ok (order, s')) :
    ∃ c, order = c + 1 ∧ Ticket s s' app c ∧ (∀ o ∈ previous, 0 < o ∧ o ≤ c) ∧
      s'.jobs = s.jobs ∧ s'.responsibilities = s.responsibilities ∧ s'.duties = s.duties := by
  simp only [nextDispatchOrder, bind_ok, orElse_ok, demand_ok, pure_ok, Prod.mk.injEq] at h
  obtain ⟨c, hc, _, hp, next, hn, _, _, rfl, rfl⟩ := h
  obtain ⟨hcr, -⟩ := dispatchCursor_ok hc
  have hn := checkedAdd_some hn
  obtain ⟨scope, hs, hsc⟩ : ∃ scope, s.scopes.find? (·.id = app) = some scope ∧ scope.dispatchCursor = c := by
    simpa [cursor] using hcr
  have hid : scope.id = app := by simpa using find?_some hs
  let bump (scope : Scope) : Scope :=
    if scope.id = app ∧ scope.dispatchCursor = c then {scope with dispatchCursor := next} else scope
  have hbm (scope : Scope) : (bump scope).id = scope.id := by
    show (if _ then _ else _ : Scope).id = _
    split <;> rfl
  have hf (b : AppId) := find?_map_key Scope.id bump hbm b s.scopes
  refine ⟨c, hn, ⟨hcr, ?_, ?_⟩, ?_, rfl, rfl, rfl⟩
  · rw [cursor, hf, hs]
    simp [bump, hid, hsc, hn]
  · intro b hb
    rw [cursor, hf, cursor]
    cases hfn : s.scopes.find? (·.id = b) with
    | none => rfl
    | some other =>
      have ho : other.id = b := by simpa using find?_some hfn
      simp [bump, ho, hb]
  · rintro o rfl
    simpa using hp

def Keyed (s : Store) : Prop := (s.jobs.map Job.id).Nodup

theorem Keyed.eq (hk : s.Keyed) {a b : Job} (ha : a ∈ s.jobs) (hb : b ∈ s.jobs) (h : a.id = b.id) : a = b :=
  inj_on_of_nodup_map hk ha hb h

/-- The row with its identity replaced by this one. -/
def put (row : Job) (jobs : List Job) : List Job := jobs.map fun j => if j.id = row.id then row else j

theorem mem_put (h : j ∈ put row jobs) : j = row ∨ (j ∈ jobs ∧ j.id ≠ row.id) := by
  obtain ⟨i, hi, rfl⟩ := mem_map.mp h
  by_cases heq : i.id = row.id
  · exact .inl (if_pos heq)
  · simp only [if_neg heq]
    exact .inr ⟨hi, heq⟩

theorem row_mem_put (hj : j ∈ jobs) (h : j.id = row.id) : row ∈ put row jobs :=
  mem_map.mpr ⟨j, hj, if_pos h⟩

theorem mem_put_of_ne (hj : j ∈ jobs) (h : j.id ≠ row.id) : j ∈ put row jobs :=
  mem_map.mpr ⟨j, hj, if_neg h⟩

theorem ids_put (row : Job) (jobs : List Job) : (put row jobs).map Job.id = jobs.map Job.id := by
  rw [put, map_map]
  apply map_congr_left
  intro j _
  show (if j.id = row.id then row else j).id = j.id
  split
  · rename_i h
    exact h.symm
  · rfl

theorem mem_of_load {id : JobId} (h : s.load app id = some job) : job ∈ s.jobs ∧ job.id = id ∧ job.appId = app := by
  have hf := find?_some h
  simp only [Bool.and_eq_true, decide_eq_true_eq] at hf
  exact ⟨mem_of_find?_eq_some h, hf⟩

theorem load_eq (hk : s.Keyed) (hj : job ∈ s.jobs) : s.load job.appId job.id = some job := by
  cases h : s.load job.appId job.id with
  | none =>
    have := find?_eq_none.mp h job hj
    simp at this
  | some other =>
    obtain ⟨hm, hid, -⟩ := mem_of_load h
    rw [hk.eq hm hj hid]

theorem update_ok {filter : Job → Bool} {patch : Job → Job} (hk : s.Keyed) (hj : job ∈ s.jobs)
    (hf : filter job) (hid : ∀ j, filter j → j.id = job.id) (hp : (patch job).id = job.id)
    (h : s.update filter patch = .ok s') : s' = {s with jobs := put (patch job) s.jobs} := by
  unfold update at h
  split at h
  · rw [← Except.ok.inj h]
    congr 1
    apply map_congr_left
    intro j hjm
    rw [hp]
    by_cases heq : j.id = job.id
    · rw [if_pos heq, hk.eq hjm hj heq, if_pos hf]
    · rw [if_neg heq, if_neg (mt (hid j) heq)]
  · cases h
  · cases h

theorem existing_ok (h : s.existing q guards spec = .ok true) : ∃ job ∈ s.jobs, job.spec = spec := by
  simp only [existing, bind_ok] at h
  obtain ⟨_, _, h⟩ := h
  split at h
  · cases h
  rename_i job hl
  simp only [bind_ok, demand_ok] at h
  obtain ⟨_, hsp, _⟩ := h
  exact ⟨job, (mem_of_load hl).1, hsp⟩

theorem insert_ok {now : Int} (h : s.insert q guards spec now = .ok s') : (s' = s ∧ ∃ job ∈ s.jobs, job.spec = spec) ∨
    ∃ c, Ticket s s' spec.appId c ∧ (∀ j ∈ s.jobs, j.id ≠ spec.id) ∧
      s'.jobs = s.jobs ++ [Job.published spec (c + 1) now] ∧
      s'.responsibilities = s.responsibilities ∧ s'.duties = s.duties := by
  simp only [insert, bind_ok] at h
  obtain ⟨there, hth, h⟩ := h
  split at h
  · rename_i ht
    rw [ht] at hth
    exact .inl ⟨(pure_ok.mp h).symm, existing_ok hth⟩
  simp only [bind_ok, demand_ok, pure_ok] at h
  obtain ⟨_, _, ⟨order, t⟩, hn, _, hf, rfl⟩ := h
  obtain ⟨c, rfl, htc, -, hjb, hr, hd⟩ := nextDispatchOrder_ok hn
  refine .inr ⟨c, ⟨htc.before, htc.after, htc.others⟩, ?_, ?_, hr, hd⟩
  · intro j hj heq
    rw [hjb] at hf
    exact hf (any_eq_true.mpr ⟨j, hj, by simpa using heq⟩)
  · simp [hjb]

end Store

end Zeroship.Workflow

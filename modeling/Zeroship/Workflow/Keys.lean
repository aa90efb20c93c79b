import Zeroship.Base.Fallible
import Zeroship.Base.Machine
import Zeroship.Base.Tables

/-! The business keys of the workflow runs of one app.

A key is a column of its run's row: an insertion sets it, a replacing start and a terminal
transition clear it, a continuation hands it on and a restart leaves it as it is. `Run.names` is
what the column stands for: the two agree until a run that ended is restarted without its key. -/
namespace Zeroship.Workflow.Keys
open Base List

inductive RunState
  | queued | running | sleeping | waiting | paused | stalled
  | compensating | completed | failed | cancelled | continuedAsNew

def RunState.isTerminal : RunState → Bool
  | .completed | .failed | .cancelled | .stalled | .continuedAsNew => true
  | _ => false

inductive ConflictPolicy
  | join | reject | replace

/-- `WorkflowServiceError`. -/
inductive ServiceError
  | conflict (text : String) | resourceExhausted (text : String) | other (text : String)

abbrev Answer := Except ServiceError

/-- A row of the table of runs. `names` is not a column: the key the run was started under, or
the run it continues was, unless it has been replaced since. -/
structure Run where
  workflow : String
  key : Option String
  state : RunState
  names : Option String

/-- A run to insert; `input` is the answer of the checks on its input. -/
structure NewRun where
  id : Nat
  workflow : String
  key : Option String
  input : Answer Unit

/-- The table of runs, by id. -/
abbrev Runs := AList fun _ : Nat => Run

variable (s : Runs)

def keyedRun (workflow key : String) : Option (Σ _ : Nat, Run) :=
  s.entries.find? fun e => e.2.workflow = workflow ∧ e.2.key = some key

def liveRuns : Nat := s.entries.countP (!·.2.state.isTerminal)

def checkLive (maxLiveRuns : Nat) : Answer Unit :=
  demand (liveRuns s < maxLiveRuns) (.resourceExhausted "workflow live-run limit reached")

def insertRun (new : NewRun) (names : Option String) : Answer Runs := do
  new.input
  demand (new.id ∉ s) (.other "duplicate primary key")
  pure (s.insert new.id ⟨new.workflow, new.key, .queued, names⟩)

/-- A start or a child call that joins no run. -/
def insertRootRun (maxLiveRuns : Nat) (new : NewRun) : Answer Runs := do
  checkLive s maxLiveRuns
  insertRun s new new.key

/-- A replaced run, whose cancellation is left to later steps. -/
def release (r : Run) : Run := { r with key := none, names := none }

/-- A start that has no receipt yet; `checks` is the answer of the checks on policy and deployment. -/
structure Start where
  run : NewRun
  onConflict : ConflictPolicy
  checks : Answer Unit
  maxLiveRuns : Nat

def start (q : Start) : Answer (Runs × Nat × RunState) := do
  q.checks
  match q.run.key.bind (keyedRun s q.run.workflow), q.onConflict with
  | some e, .join => pure (s, e.1, e.2.state)
  | some _, .reject => throw (.conflict "workflow run already exists for key")
  | some e, .replace => do
    pure (← insertRootRun (s.insert e.1 (release e.2)) q.maxLiveRuns q.run, q.run.id, .queued)
  | none, _ => do pure (← insertRootRun s q.maxLiveRuns q.run, q.run.id, .queued)

/-- `dependency` is `validate_child_dependency`, and `depth` the answer of the check of the depth. -/
structure Call where
  run : NewRun
  checks : Answer Unit
  dependency : Nat → Answer Unit
  depth : Answer Unit
  maxLiveRuns : Nat

def child (c : Call) : Answer (Runs × Nat) := do
  c.checks
  match c.run.key.bind (keyedRun s c.run.workflow) with
  | some e => do
    c.dependency e.1
    pure (s, e.1)
  | none => do
    c.depth
    pure (← insertRootRun s c.maxLiveRuns c.run, c.run.id)

/-- The run of an id that may take the step. -/
def lockRun (id : Nat) (may : Run → Bool) : Answer Run :=
  match (s.lookup id).filter may with
  | some run => pure run
  | none => throw (.other "workflow run")

def finishRun (state : RunState) (r : Run) : Run := { r with state, key := none }

/-- `move` is any transaction that keeps its run live: a dispatch, a suspension, a request to pause or cancel. -/
inductive Event
  | start (q : Start)
  | child (c : Call)
  | move (id : Nat) (state : RunState)
  | finish (id : Nat) (state : RunState)
  | continueAsNew (id next : Nat) (checks input : Answer Unit)
  | restart (id maxLiveRuns : Nat) (checks : Answer Unit)

def transaction : Event → Answer Runs
  | .start q => do pure (← start s q).1
  | .child c => do pure (← child s c).1
  | .move id state => do
    let run ← lockRun s id fun r => !r.state.isTerminal && !state.isTerminal
    pure (s.insert id { run with state })
  | .finish id state => do
    let run ← lockRun s id fun r => !r.state.isTerminal && state.isTerminal
    pure (s.insert id (finishRun state run))
  | .continueAsNew id next checks input => do
    let run ← lockRun s id (!·.state.isTerminal)
    checks
    insertRun (s.insert id (finishRun .continuedAsNew run)) ⟨next, run.workflow, run.key, input⟩ run.names
  | .restart id maxLiveRuns checks => do
    let run ← lockRun s id fun _ => true
    (if run.state.isTerminal then checkLive s maxLiveRuns else pure ())
    checks
    pure (s.insert id { run with state := .queued })

/-- A transaction that fails changes nothing. -/
def runs : Machine Runs Event Unit where
  step s e := some (match transaction s e with | .ok s' => s' | .error _ => s, [])

/-- The column of a live run is the key it goes by, and that of a run that ended is empty. -/
def Column (r : Run) : Prop := r.key = if r.state.isTerminal then none else r.names

structure Held : Prop where
  column : ∀ {i r}, s.lookup i = some r → Column r
  single : ∀ {i j a b k}, s.lookup i = some a → s.lookup j = some b → a.workflow = b.workflow → a.key = some k →
    b.key = some k → i = j

/-- What a key promises: one live run goes by it, join starts and child calls are answered with
that run, and a start that rejects is refused. -/
structure Promised (k : String) : Prop where
  unique : ∀ {i j a b}, s.lookup i = some a → s.lookup j = some b → !a.state.isTerminal → !b.state.isTerminal →
    a.workflow = b.workflow → a.names = some k → b.names = some k → i = j
  answers : ∀ {i r}, s.lookup i = some r → !r.state.isTerminal → r.names = some k →
    (∀ q : Start, q.run.workflow = r.workflow → q.run.key = some k →
      (q.onConflict = .join → q.checks = .ok () → start s q = .ok (s, i, r.state)) ∧
      (q.onConflict = .reject → ∃ e, start s q = .error e)) ∧
    ∀ c : Call, c.run.workflow = r.workflow → c.run.key = some k → c.checks = .ok () →
      c.dependency i = .ok () → child s c = .ok (s, i)

variable {s} {s' : Runs} {i : Nat} {r r' : Run} {k : String} {new : NewRun} {names : Option String}

theorem insertRun_ok (hi : insertRun s new names = .ok s') :
    s' = s.insert new.id ⟨new.workflow, new.key, .queued, names⟩ := by
  simp only [insertRun, seq_ok, pure_ok] at hi
  exact hi.2.2.symm

theorem keyedRun_some {e : Σ _ : Nat, Run} {w : String} (h : keyedRun s w k = some e) :
    s.lookup e.1 = some e.2 ∧ e.2.workflow = w ∧ e.2.key = some k :=
  ⟨AList.mem_lookup_iff.mpr (mem_of_find?_eq_some h), by simpa using find?_some h⟩

namespace Held
variable (hs : Held s)
include hs

theorem keyedRun_eq (hr : s.lookup i = some r) (hk : r.key = some k) : keyedRun s r.workflow k = some ⟨i, r⟩ := by
  cases hf : keyedRun s r.workflow k with
  | none => simpa [hk] using find?_eq_none.mp hf _ (AList.mem_lookup_iff.mp hr)
  | some e =>
    obtain ⟨he, hw, hke⟩ := keyedRun_some hf
    obtain rfl := hs.single hr he hw.symm hk hke
    rw [hr] at he
    cases he
    rfl

theorem insert (hc : Column r)
    (hk : ∀ {j b k}, s.lookup j = some b → j ≠ i → b.workflow = r.workflow → b.key = some k → r.key ≠ some k) :
    Held (s.insert i r) where
  column h := by
    rcases insert_cases h with ⟨_, rfl⟩ | ⟨_, h⟩
    · exact hc
    · exact hs.column h
  single ha hb hw hka hkb := by
    rcases insert_cases ha with ⟨rfl, rfl⟩ | ⟨hi, ha'⟩ <;> rcases insert_cases hb with ⟨rfl, rfl⟩ | ⟨hj, hb'⟩
    · rfl
    · exact absurd hka (hk hb' hj hw.symm hkb)
    · exact absurd hkb (hk ha' hi hw hka)
    · exact hs.single ha' hb' hw hka hkb

theorem rewrite (hr : s.lookup i = some r) (hc : Column r')
    (hw : r'.workflow = r.workflow) (hk : r'.key = r.key ∨ r'.key = none) : Held (s.insert i r') := by
  refine hs.insert hc fun hb hj hwb hkb hkr => hj ?_
  rcases hk with hk | hk
  · exact hs.single hb hr (hwb.trans hw) hkb (hk ▸ hkr)
  · simp [hk] at hkr

/-- An insertion under the key of a run that gives it up. -/
theorem handOver (hr : s.lookup i = some r) (hi : insertRun (s.insert i r') new names = .ok s') (hc : Column r')
    (hw : r'.workflow = r.workflow) (hk : r'.key = none) (hnw : new.workflow = r.workflow) (hnk : new.key = r.key)
    (hn : new.key = names) : Held s' := by
  obtain rfl := insertRun_ok hi
  refine (hs.rewrite hr hc hw (.inr hk)).insert hn fun hb _ hwb hkb hkn => ?_
  rcases insert_cases hb with ⟨rfl, rfl⟩ | ⟨hj, hb⟩
  · simp [hk] at hkb
  · exact hj (hs.single hb hr (hwb.trans hnw) hkb (hnk ▸ hkn))

/-- An insertion that found no run to join. -/
theorem insertRootRun {limit : Nat} (hf : new.key.bind (keyedRun s new.workflow) = none)
    (hi : insertRootRun s limit new = .ok s') : Held s' := by
  obtain rfl := insertRun_ok (seq_ok.mp hi).2
  refine hs.insert rfl fun hb _ hw hkb hkn => ?_
  simp only at hw hkn
  rw [hkn, Option.bind_some, ← hw, hs.keyedRun_eq hb hkb] at hf
  cases hf

theorem start {q : Start} {out : Nat × RunState} (h : start s q = .ok (s', out)) : Held s' := by
  obtain ⟨_, h⟩ := seq_ok.mp h
  split at h
  · cases h
    exact hs
  · cases h
  · rename_i hf _
    obtain ⟨k, hk, hf⟩ := Option.bind_eq_some_iff.mp hf
    obtain ⟨he, hw, hke⟩ := keyedRun_some hf
    obtain ⟨_, hi, h⟩ := bind_ok.mp h
    cases h
    refine hs.handOver he (seq_ok.mp hi).2 ?_ rfl rfl hw.symm (hk.trans hke.symm) rfl
    unfold Column
    split <;> rfl
  · rename_i hf
    obtain ⟨_, hi, h⟩ := bind_ok.mp h
    cases h
    exact hs.insertRootRun hf hi

theorem child {c : Call} {out : Nat} (h : child s c = .ok (s', out)) : Held s' := by
  obtain ⟨_, h⟩ := seq_ok.mp h
  split at h
  · obtain ⟨_, h⟩ := seq_ok.mp h
    cases h
    exact hs
  · rename_i hf
    obtain ⟨_, hi, h⟩ := bind_ok.mp (seq_ok.mp h).2
    cases h
    exact hs.insertRootRun hf hi

theorem promised : Promised s k := by
  have hk : ∀ {i r}, s.lookup i = some r → !r.state.isTerminal → r.names = some k → r.key = some k := by
    intro i r hr hl hn
    simpa [show r.state.isTerminal = false by simpa using hl, hn, Column] using hs.column hr
  refine ⟨fun ha hb hla hlb hw hna hnb => hs.single ha hb hw (hk ha hla hna) (hk hb hlb hnb), ?_⟩
  intro i r hr hl hn
  have hf := hs.keyedRun_eq hr (hk hr hl hn)
  constructor
  · intro q hw hqk
    unfold Keys.start
    rw [hqk, hw, Option.bind_some, hf]
    refine ⟨fun hj hc => by rw [hj, hc]; rfl, fun hj => ?_⟩
    rw [hj]
    cases q.checks <;> exact ⟨_, rfl⟩
  · intro c hw hck hc hd
    unfold Keys.child
    rw [hc, hck, hw, Option.bind_some, hf]
    exact seq_ok.mpr ⟨rfl, seq_ok.mpr ⟨hd, rfl⟩⟩

end Held

theorem lockRun_ok {may : Run → Bool} (hl : lockRun s i may = .ok r) : s.lookup i = some r ∧ may r := by
  unfold lockRun at hl
  split at hl
  next hf =>
    cases hl
    exact Option.filter_eq_some_iff.mp hf
  next => cases hl

/-- No restart brings back an ended run that went by a key. -/
def Unnamed : Environment Runs Event Unit
  | _, s, .restart id .. => ∀ r, s.lookup id = some r → r.state.isTerminal → r.names = none
  | _, _, _ => True

variable {h : History Runs Event Unit}

theorem transaction_held {e : Event} (hs : Held s) (he : Unnamed h s e) (ht : transaction s e = .ok s') : Held s' := by
  cases e with
  | start q =>
    obtain ⟨_, ha, ht⟩ := bind_ok.mp ht
    cases ht
    exact hs.start ha
  | child c =>
    obtain ⟨_, ha, ht⟩ := bind_ok.mp ht
    cases ht
    exact hs.child ha
  | move id state | finish id state =>
    obtain ⟨r, hl, ht⟩ := bind_ok.mp ht
    obtain ⟨hr, hm⟩ := lockRun_ok hl
    have hc := hs.column hr
    cases ht
    exact hs.rewrite hr (by simp_all [Column, finishRun]) rfl (by simp [finishRun])
  | continueAsNew id next checks input =>
    obtain ⟨r, hl, ht⟩ := bind_ok.mp ht
    obtain ⟨hr, hm⟩ := lockRun_ok hl
    have hc := hs.column hr
    exact hs.handOver hr (seq_ok.mp ht).2 rfl rfl rfl rfl rfl (by simp_all [Column])
  | restart id limit checks =>
    obtain ⟨r, hl, ht⟩ := bind_ok.mp ht
    obtain ⟨hr, _⟩ := lockRun_ok hl
    obtain ⟨_, ht⟩ := seq_ok.mp (seq_ok.mp ht).2
    cases ht
    have hc := hs.column hr
    have hn := he r hr
    refine hs.rewrite hr ?_ rfl (.inl rfl)
    -- An ended run has no key, and by the condition goes by none.
    cases hr : r.state.isTerminal <;> simp_all [Column, RunState.isTerminal]

/-- While no restart brings back such a run, every key names at most one live run, and starts and
calls under the key are answered by it. -/
theorem key_names_one_live_run (run : runs.Run Unnamed ∅ h s) : Promised s k := by
  refine (run.invariant (fun _ s => Held s) ⟨by simp, by simp⟩ ?_).promised
  intro h s s' e os _ hs he ht
  cases ht
  cases hx : transaction s e with
  | ok _ => exact transaction_held hs he hx
  | error _ => exact hs

/-- A join start of one workflow under one key. -/
def order (id : Nat) : Event := .start ⟨⟨id, "Checkout", some "order", .ok ()⟩, .join, .ok (), 9⟩

/-- A start without a key. -/
def unkeyed (id : Nat) : Event := .start ⟨⟨id, "Checkout", none, .ok ()⟩, .join, .ok (), 9⟩

theorem key_names_one_live_run_order :
    let s := runs.reach ∅ [unkeyed 0, .finish 0 .completed, .restart 0 9 (.ok ()), order 1, order 2]
    (s.lookup 0).map (·.state.isTerminal) = some false ∧ Promised s "order" := by
  refine ⟨rfl, key_names_one_live_run (.of_trace ⟨trivial, trivial, fun r hr _ => ?_, trivial, trivial, trivial⟩)⟩
  cases hr
  rfl

/-- A restart revives a run whose key was given up, and a start under the key makes a second one. -/
theorem restarted_run_loses_key : ∃ h s, runs.Run .anything ∅ h s ∧ ¬ Promised s "order" := by
  let events : List Event := [order 1, .finish 1 .completed, .restart 1 9 (.ok ()), order 2]
  refine ⟨_, runs.reach ∅ events, .of_trace (Machine.offered_anything _ _), fun h => ?_⟩
  exact absurd (h.unique (i := 1) (j := 2) rfl rfl rfl rfl rfl rfl rfl) (by decide)

end Zeroship.Workflow.Keys

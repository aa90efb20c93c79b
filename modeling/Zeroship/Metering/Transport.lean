import Mathlib

/-! The stream as the forwarder reads it, and its two adapters.

A consumer group keeps a committed position for each partition; its one consumer keeps the
position up to which records were handed out. A `Transport` is what the forwarder may rely on:
a poll hands out every record between the old and the new position, a commit moves a committed
position only behind a record it names, and a consumer that starts anew reads from there. The
broker in memory and the client of the Kafka protocol are both of this kind. -/
namespace Zeroship.Metering
open List Function

structure StreamRecord (P : Type) where
  (partition offset : Int)
  (key payload : P)
deriving DecidableEq

structure StreamOffset where
  (partition offset : Int)

def StreamOffset.of {P : Type} (r : StreamRecord P) : StreamOffset := ⟨r.partition, r.offset⟩

inductive StreamError where
  | config (text : String)
  | pollExceeded
  | kafka (text : String)

/-- What one call of the client's own poll yields: the next record of a partition, an error,
or nothing for now. -/
inductive Yield where
  | record (partition : Int)
  | error (e : StreamError)
  | nothing

/-- How a commit ends at the broker. One that reports a failure may have been stored for some
partitions. -/
inductive CommitEnding where
  | committed
  | failed (e : StreamError) (stored : List Int)

/-- `i64::checked_add(1)`. -/
def checkedNext (offset : Int) : Option Int := if offset + 1 < 2 ^ 63 then some (offset + 1) else none

theorem checkedNext_some {offset next : Int} (h : checkedNext offset = some next) : next = offset + 1 := by
  unfold checkedNext at h
  split at h
  · exact (Option.some.inj h).symm
  · cases h

/-- `i64::saturating_add(1)`. -/
def saturatingNext (offset : Int) : Int := if offset + 1 < 2 ^ 63 then offset + 1 else 2 ^ 63 - 1

/-- `entry(p).and_modify(max).or_insert(next)`. -/
def raise (stored : Int → Option Int) (p next : Int) : Int → Option Int :=
  Function.update stored p (some ((stored p).elim next (Max.max · next)))

theorem raise_self (stored : Int → Option Int) (p next : Int) :
    raise stored p next p = some next ∨ ∃ old, stored p = some old ∧ next ≤ old ∧ raise stored p next p = some old := by
  unfold raise
  rw [update_self]
  cases stored p with
  | none => exact .inl rfl
  | some old =>
    rcases le_total old next with hle | hle
    · exact .inl (congrArg some (max_eq_right hle))
    · exact .inr ⟨old, rfl, hle, congrArg some (max_eq_left hle)⟩

theorem raise_of_ne {stored : Int → Option Int} {p q next : Int} (h : q ≠ p) : raise stored p next q = stored q :=
  update_of_ne h _ _

section
variable {P : Type}

/-- A batch holds what lies between the positions before and after it was handed out. -/
structure Handed (log : Int → List (StreamRecord P)) (before after : Int → Int) (batch : List (StreamRecord P)) : Prop where
  whole : ∀ {p r}, r ∈ log p → before p ≤ r.offset → r.offset < after p → r ∈ batch
  logged : ∀ {r}, r ∈ batch → r ∈ log r.partition
  behind : ∀ {r}, r ∈ batch → r.offset < after r.partition
  reached : ∀ p, after p = before p ∨ ∃ r ∈ batch, r.partition = p ∧ after p = r.offset + 1

/-- The committed positions a commit of some offsets may leave. -/
def Commits (before after : Int → Int) (offsets : List StreamOffset) : Prop :=
  ∀ p, after p = before p ∨ ∃ o ∈ offsets, o.partition = p ∧ after p = o.offset + 1

theorem Handed.refl (log : Int → List (StreamRecord P)) (position : Int → Int) : Handed log position position [] where
  whole _ hle hlt := absurd hlt (not_lt.mpr hle)
  logged h := nomatch h
  behind h := nomatch h
  reached _ := .inl rfl

/-- One more record: the first one of its partition at or after the position. -/
theorem Handed.concat {log : Int → List (StreamRecord P)} {before after : Int → Int} {batch : List (StreamRecord P)}
    {r : StreamRecord P} (h : Handed log before after batch) (hl : r ∈ log r.partition)
    (ha : after r.partition ≤ r.offset)
    (hf : ∀ x ∈ log r.partition, after r.partition ≤ x.offset → x.offset ≤ r.offset → x = r) :
    Handed log before (update after r.partition (r.offset + 1)) (batch ++ [r]) where
  whole := by
    intro p x hx hle hlt
    rw [mem_append, mem_singleton]
    by_cases hp : p = r.partition
    · subst hp
      rw [update_self] at hlt
      rcases lt_or_ge x.offset (after r.partition) with ho | hn
      · exact .inl (h.whole hx hle ho)
      · exact .inr (hf x hx hn (by omega))
    · rw [update_of_ne hp] at hlt
      exact .inl (h.whole hx hle hlt)
  logged hx := by
    rcases mem_append.mp hx with hx | hx
    · exact h.logged hx
    · exact mem_singleton.mp hx ▸ hl
  behind := by
    intro x hx
    rcases mem_append.mp hx with hx | hx
    · by_cases hp : x.partition = r.partition
      · rw [hp, update_self]
        have := h.behind hx
        rw [hp] at this
        omega
      · rw [update_of_ne hp]
        exact h.behind hx
    · rw [mem_singleton.mp hx, update_self]
      omega
  reached := by
    intro p
    by_cases hp : p = r.partition
    · subst hp
      exact .inr ⟨r, by simp, rfl, update_self ..⟩
    rw [update_of_ne hp]
    rcases h.reached p with hs | ⟨x, hx, hxp, heq⟩
    · exact .inl hs
    · exact .inr ⟨x, mem_append_left _ hx, hxp, heq⟩

end

/-- A stream transport, as its one consumer sees it. -/
structure Transport (P : Type) where
  State : Type
  log : State → Int → List (StreamRecord P)
  (committed position : State → Int → Int)
  /-- A record is appended by a producer, if its offset can be the next. -/
  publish : State → StreamRecord P → Option State
  poll : State → Nat → List Yield → State × Except StreamError (List (StreamRecord P))
  commit : State → List StreamOffset → CommitEnding → State × Except StreamError Unit
  /-- The consumer is made anew, or joins its group again. -/
  restart : State → State
  own : ∀ {s p r}, r ∈ log s p → r.partition = p
  offset_nonneg : ∀ {s p r}, r ∈ log s p → 0 ≤ r.offset
  log_publish : ∀ {s s' r}, publish s r = some s' →
    log s' = Function.update (log s) r.partition (log s r.partition ++ [r]) ∧
      (∀ x ∈ log s r.partition, x.offset < r.offset) ∧ committed s' = committed s ∧ position s' = position s
  poll_ok : ∀ {s s' max yields batch}, poll s max yields = (s', .ok batch) →
    log s' = log s ∧ committed s' = committed s ∧ Handed (log s) (position s) (position s') batch
  poll_error : ∀ {s s' max yields e}, poll s max yields = (s', .error e) → s' = s
  committed_commit : ∀ {s s' offsets ending result}, commit s offsets ending = (s', result) →
    log s' = log s ∧ Commits (committed s) (committed s') offsets
  position_commit : ∀ {s s' offsets ending result}, commit s offsets ending = (s', result) →
    (∀ o ∈ offsets, o.offset < position s o.partition) → ∀ p, position s' p ≤ position s p
  restarted : ∀ s, log (restart s) = log s ∧ committed (restart s) = committed s ∧ position (restart s) = committed s

/-! ### The broker in memory -/

structure StoredRecord (P : Type) where
  (key payload : P)
  offset : Int

/-- The broker in memory, as far as one topic, one group and its consumer go. -/
structure MemoryBroker (P : Type) where
  partitions : List (List (StoredRecord P))
  (committedNext cursorNext : Int → Option Int)
  indexed : ∀ log ∈ partitions, log.map (·.offset) = (List.range log.length).map Int.ofNat
  /-- No vector is longer. -/
  bounded : ∀ log ∈ partitions, (log.length : Int) < 2 ^ 63

namespace MemoryBroker
variable {P : Type} (b : MemoryBroker P) (p : Int)

def partition : List (StoredRecord P) :=
  if 0 ≤ p then b.partitions.getD p.toNat [] else []

def toRecord (r : StoredRecord P) : StreamRecord P := ⟨p, r.offset, r.key, r.payload⟩

def log : List (StreamRecord P) := (b.partition p).map (toRecord p)

/-- The next offset a consumer reads: its own position, or the group's. -/
def positionOf (cursor committed : Int → Option Int) (p : Int) : Int := ((cursor p).or (committed p)).getD 0

theorem positionOf_update (cursor committed : Int → Option Int) (p next : Int) :
    positionOf (update cursor p (some next)) committed = update (positionOf cursor committed) p next := by
  funext q
  by_cases hq : q = p
  · subst hq
    simp [positionOf]
  · simp [positionOf, hq]

def committed : Int := (b.committedNext p).getD 0

/-- `log.push` of a record with the next offset. -/
def append (log : List (StoredRecord P)) (r : StreamRecord P) : List (StoredRecord P) :=
  log ++ [⟨r.key, r.payload, r.offset⟩]

def publish (r : StreamRecord P) : Option (MemoryBroker P) :=
  if h : 0 ≤ r.partition ∧ r.partition.toNat < b.partitions.length ∧
      r.offset = (b.partition r.partition).length ∧ r.offset + 1 < 2 ^ 63 then
    some {
      partitions := b.partitions.set r.partition.toNat (append (b.partition r.partition) r)
      committedNext := b.committedNext
      cursorNext := b.cursorNext
      indexed := by
        intro log hlog
        rcases List.mem_or_eq_of_mem_set hlog with hold | rfl
        · exact b.indexed log hold
        obtain ⟨hp, hlt, hoffset, _⟩ := h
        have hmem : b.partition r.partition ∈ b.partitions := by
          rw [partition, if_pos hp, List.getD_eq_getElem _ _ hlt]
          exact List.getElem_mem hlt
        simp only [append, List.map_append, b.indexed _ hmem, List.length_append, List.length_cons, List.length_nil,
          zero_add, List.range_succ, List.map_cons, List.map_nil, hoffset]
        rfl
      bounded := by
        intro log hlog
        rcases List.mem_or_eq_of_mem_set hlog with hold | rfl
        · exact b.bounded log hold
        · obtain ⟨_, _, hoffset, hbound⟩ := h
          simp only [append, List.length_append, List.length_cons, List.length_nil]
          omega }
  else none

/-- The records of one partition, from the position on. -/
def handOut (max : Nat) (p : Int) :
    List (StoredRecord P) → (Int → Option Int) → List (StreamRecord P) → (Int → Option Int) × List (StreamRecord P)
  | [], cursor, out => (cursor, out)
  | r :: rest, cursor, out =>
    let cursor := Function.update cursor p (some (saturatingNext r.offset))
    let out := out ++ [toRecord p r]
    if out.length = max then (cursor, out) else handOut max p rest cursor out

/-- One partition after the other, until the batch is full. -/
def pollPartitions (max : Nat) (committed : Int → Option Int) :
    List (List (StoredRecord P) × Nat) → (Int → Option Int) → List (StreamRecord P) →
      (Int → Option Int) × List (StreamRecord P)
  | [], cursor, out => (cursor, out)
  | (log, p) :: rest, cursor, out =>
    let next := positionOf cursor committed p
    let handed := handOut max p (log.drop (Max.max next 0).toNat) cursor out
    if handed.2.length = max then handed else pollPartitions max committed rest handed.1 handed.2

def poll (max : Nat) (_ : List Yield) : MemoryBroker P × Except StreamError (List (StreamRecord P)) :=
  if max = 0 then (b, .ok []) else
    let (cursor, out) := pollPartitions max b.committedNext b.partitions.zipIdx b.cursorNext []
    ({b with cursorNext := cursor}, .ok out)

def commit (b : MemoryBroker P) : List StreamOffset → CommitEnding → MemoryBroker P × Except StreamError Unit
  | [], _ => (b, .ok ())
  | o :: rest, ending => match checkedNext o.offset with
    | none => (b, .error (.config ("memory commit offset overflow for partition " ++ toString o.partition)))
    | some next =>
      commit {b with
        committedNext := raise b.committedNext o.partition next
        cursorNext := raise b.cursorNext o.partition next} rest ending

/-- A new consumer has no position of its own. -/
def restart : MemoryBroker P := {b with cursorNext := fun _ => none}

variable {b b' : MemoryBroker P} {p : Int} {i : Nat} {r : StreamRecord P} {offsets : List StreamOffset}
  {ending : CommitEnding} {result : Except StreamError Unit}

theorem partition_mem (h : b.partition p ≠ []) : b.partition p ∈ b.partitions := by
  unfold partition at h ⊢
  split at h
  · rename_i hp
    rw [if_pos hp]
    rcases Nat.lt_or_ge p.toNat b.partitions.length with hlt | hge
    · rw [getD_eq_getElem _ _ hlt]
      exact getElem_mem hlt
    · rw [getD_eq_default _ _ hge] at h
      exact absurd rfl h
  · exact absurd rfl h

theorem offset_getElem {log : List (StoredRecord P)} (h : log ∈ b.partitions) (hi : i < log.length) : log[i].offset = i := by
  have hm := congrArg (·[i]?) (b.indexed log h)
  simpa [hi] using hm

theorem mem_log : r ∈ b.log p ↔ ∃ (i : Nat) (hi : i < (b.partition p).length), toRecord p (b.partition p)[i] = r := by
  rw [log, mem_map]
  constructor
  · rintro ⟨x, hx, rfl⟩
    obtain ⟨i, hi, rfl⟩ := mem_iff_getElem.mp hx
    exact ⟨i, hi, rfl⟩
  · rintro ⟨i, hi, rfl⟩
    exact ⟨_, getElem_mem hi, rfl⟩

theorem offset_of_mem_log (hi : i < (b.partition p).length) : (toRecord p (b.partition p)[i]).offset = i :=
  offset_getElem (partition_mem fun hn => by simp [hn] at hi) hi

theorem log_publish (h : b.publish r = some b') : b'.log = update b.log r.partition (b.log r.partition ++ [r]) ∧
      ∀ x ∈ b.log r.partition, x.offset < r.offset := by
  unfold publish at h
  split at h
  case isFalse => cases h
  case isTrue hn =>
    obtain ⟨hp, hlt, ho, _⟩ := hn
    cases h
    constructor
    · funext q
      by_cases hq : q = r.partition
      · subst hq
        simp [log, partition, hp, hlt, append, toRecord]
      have hne : 0 ≤ q → r.partition.toNat ≠ q.toNat := by omega
      rw [update_of_ne hq]
      unfold log partition
      split
      · next hq0 => simp [hne hq0]
      · rfl
    · intro x hx
      obtain ⟨i, hi, rfl⟩ := mem_log.mp hx
      rw [offset_of_mem_log hi, ho]
      exact_mod_cast hi

/-- The loop over the records of one partition hands out the next ones. -/
theorem handOut_handed {max : Nat} {p : Int} {before : Int → Int} {committed : Int → Option Int} (n : Nat)
    {cursor : Int → Option Int} {out : List (StreamRecord P)}
    (h : Handed b.log before (positionOf cursor committed) out) (hn : Max.max (positionOf cursor committed p) 0 = n) :
    Handed b.log before (positionOf (handOut max p ((b.partition p).drop n) cursor out).1 committed)
      (handOut max p ((b.partition p).drop n) cursor out).2 := by
  -- By recursion on what is left of the partition; the position is the index of its head.
  induction hr : (b.partition p).drop n generalizing n cursor out with
  | nil => exact h
  | cons r rest ih =>
    have hlt : n < (b.partition p).length := by
      by_contra hge
      rw [drop_eq_nil_of_le (not_lt.mp hge)] at hr
      cases hr
    rw [drop_eq_getElem_cons hlt] at hr
    cases hr
    have hm : b.partition p ∈ b.partitions := partition_mem fun hnl => by simp [hnl] at hlt
    have hof : (b.partition p)[n].offset = n := offset_getElem hm hlt
    have hnx : saturatingNext (b.partition p)[n].offset = (b.partition p)[n].offset + 1 := by
      have := b.bounded _ hm
      rw [saturatingNext, if_pos (by omega)]
    have ho : Handed b.log before
        (positionOf (update cursor p (some (saturatingNext (b.partition p)[n].offset))) committed)
        (out ++ [toRecord p (b.partition p)[n]]) := by
      rw [positionOf_update, hnx]
      refine h.concat (r := toRecord p (b.partition p)[n]) (mem_log.mpr ⟨n, hlt, rfl⟩) ?_ ?_
      · rw [offset_of_mem_log hlt, ← hn]
        exact le_max_left _ _
      intro x hx hle hge
      obtain ⟨i, hi, rfl⟩ := mem_log.mp hx
      rw [offset_of_mem_log hi] at hle hge
      rw [offset_of_mem_log hlt] at hge
      have hin : i = n := by
        have hl' : positionOf cursor committed p ≤ i := hle
        omega
      subst hin
      rfl
    rw [handOut]
    split
    · exact ho
    · refine ih (n + 1) ho ?_ rfl
      rw [positionOf_update, update_self, hnx, hof]
      omega

theorem pollPartitions_handed {max : Nat} {before : Int → Int} {committed : Int → Option Int}
    {parts : List (List (StoredRecord P) × Nat)} (hp : ∀ x ∈ parts, x.1 = b.partition x.2)
    {cursor : Int → Option Int} {out : List (StreamRecord P)}
    (h : Handed b.log before (positionOf cursor committed) out) :
    Handed b.log before (positionOf (pollPartitions max committed parts cursor out).1 committed)
      (pollPartitions max committed parts cursor out).2 := by
  induction parts generalizing cursor out with
  | nil => exact h
  | cons part rest ih =>
    obtain ⟨log, i⟩ := part
    rw [forall_mem_cons] at hp
    obtain ⟨hl, hr⟩ := hp
    have hn : Max.max (positionOf cursor committed i) 0 = ((Max.max (positionOf cursor committed i) 0).toNat : Int) := by
      omega
    obtain rfl : log = b.partition i := hl
    have ho := @handOut_handed P b max i before committed _ cursor out h hn
    rw [pollPartitions]
    split
    · exact ho
    · exact ih hr ho

theorem poll_handed {max : Nat} {yields : List Yield} {batch : List (StreamRecord P)}
    (h : b.poll max yields = (b', .ok batch)) : b'.log = b.log ∧ b'.committedNext = b.committedNext ∧
      Handed b.log (positionOf b.cursorNext b.committedNext) (positionOf b'.cursorNext b'.committedNext) batch := by
  unfold poll at h
  split at h
  · cases h
    exact ⟨rfl, rfl, .refl _ _⟩
  cases h
  refine ⟨rfl, rfl, pollPartitions_handed ?_ (.refl _ _)⟩
  rintro ⟨log, i⟩ hx
  have hg := mem_zipIdx_iff_getElem?.mp hx
  simp only [partition, Int.natCast_nonneg, if_true, Int.toNat_natCast, getD_eq_getElem?_getD, hg, Option.getD_some]

theorem commit_commits (h : b.commit offsets ending = (b', result)) :
    b'.log = b.log ∧ Commits b.committed b'.committed offsets := by
  induction offsets generalizing b with
  | nil =>
    cases h
    exact ⟨rfl, fun _ => .inl rfl⟩
  | cons o rest ih =>
    rw [commit] at h
    split at h
    · cases h
      exact ⟨rfl, fun _ => .inl rfl⟩
    next next hn =>
    obtain ⟨hl, hr⟩ := ih h
    refine ⟨hl, fun p => ?_⟩
    rcases hr p with hs | ⟨x, hx, hxp, heq⟩
    · simp only [committed] at hs ⊢
      by_cases hp : p = o.partition
      · subst hp
        rcases raise_self b.committedNext o.partition next with hrs | ⟨old, ho, -, hk⟩
        · refine .inr ⟨o, mem_cons_self, rfl, ?_⟩
          rw [hs, hrs, ← checkedNext_some hn]
          rfl
        · exact .inl (by rw [hs, hk, ho])
      · exact .inl (by rw [hs, raise_of_ne hp])
    · exact .inr ⟨x, mem_cons_of_mem _ hx, hxp, heq⟩

theorem commit_position (h : b.commit offsets ending = (b', result)) {bound : Int → Int}
    (hb : ∀ p, positionOf b.cursorNext b.committedNext p ≤ bound p)
    (ho : ∀ o ∈ offsets, o.offset < bound o.partition) (p : Int) :
    positionOf b'.cursorNext b'.committedNext p ≤ bound p := by
  induction offsets generalizing b with
  | nil =>
    cases h
    exact hb p
  | cons o rest ih =>
    rw [forall_mem_cons] at ho
    rw [commit] at h
    split at h
    · cases h
      exact hb p
    next next hn =>
    refine ih h (fun q => ?_) ho.2
    have hq := hb q
    by_cases hqp : q = o.partition
    · subst hqp
      rcases raise_self b.cursorNext o.partition next with hr | ⟨old, hol, -, hk⟩
      · have := checkedNext_some hn
        simp only [positionOf, hr, Option.some_or, Option.getD_some]
        omega
      · simp only [positionOf, hk, Option.some_or, Option.getD_some]
        simpa only [positionOf, hol, Option.some_or, Option.getD_some] using hq
    · simpa only [positionOf, raise_of_ne hqp] using hq

def transport (P : Type) : Transport P where
  State := MemoryBroker P
  log := log
  committed := committed
  position b := positionOf b.cursorNext b.committedNext
  publish := publish
  poll := poll
  commit := commit
  restart := restart
  own h := by
    obtain ⟨_, _, rfl⟩ := mem_log.mp h
    rfl
  offset_nonneg h := by
    obtain ⟨i, hi, rfl⟩ := mem_log.mp h
    rw [offset_of_mem_log hi]
    exact Int.natCast_nonneg i
  log_publish {b b' r} h := by
    refine ⟨(log_publish h).1, (log_publish h).2, ?_⟩
    unfold publish at h
    split at h
    · cases h
      exact ⟨rfl, rfl⟩
    · cases h
  poll_ok h := by
    obtain ⟨hlog, hcommitted, hhanded⟩ := poll_handed h
    exact ⟨hlog, funext fun p => congrArg (·.getD 0) (congrFun hcommitted p), hhanded⟩
  poll_error h := by
    unfold poll at h
    split at h <;> cases h
  committed_commit := commit_commits
  position_commit h hoffsets := commit_position h (fun _ => le_rfl) hoffsets
  restarted _ := ⟨rfl, rfl, rfl⟩

end MemoryBroker

/-! ### The Kafka protocol -/

/-- A topic at the broker with the group's committed positions, and the client's own. -/
structure KafkaGroup (P : Type) where
  records : Int → List (StreamRecord P)
  (stored fetched : Int → Option Int)
  own : ∀ {p r}, r ∈ records p → r.partition = p
  ordered : ∀ p, (records p).Pairwise (·.offset < ·.offset)
  nonneg : ∀ {p r}, r ∈ records p → 0 ≤ r.offset

namespace KafkaGroup
variable {P : Type} (g : KafkaGroup P)

/-- `auto.offset.reset` is `earliest`. -/
def committed (p : Int) : Int := (g.stored p).getD 0

def position (p : Int) : Int := (g.fetched p).getD (g.committed p)

def publish (r : StreamRecord P) : Option (KafkaGroup P) :=
  if h : 0 ≤ r.offset ∧ ∀ x ∈ g.records r.partition, x.offset < r.offset then
    some {
      records := Function.update g.records r.partition (g.records r.partition ++ [r])
      stored := g.stored
      fetched := g.fetched
      own := by
        intro p x hx
        by_cases hp : p = r.partition
        · subst hp
          rw [Function.update_self, List.mem_append, List.mem_singleton] at hx
          rcases hx with hx | rfl
          · exact g.own hx
          · rfl
        · rw [Function.update_of_ne hp] at hx
          exact g.own hx
      ordered := by
        intro p
        by_cases hp : p = r.partition
        · subst hp
          rw [Function.update_self, List.pairwise_append]
          refine ⟨g.ordered _, List.pairwise_singleton _ _, fun x hx y hy => ?_⟩
          rw [List.mem_singleton.mp hy]
          exact h.2 x hx
        · rw [Function.update_of_ne hp]
          exact g.ordered p
      nonneg := by
        intro p x hx
        by_cases hp : p = r.partition
        · subst hp
          rw [Function.update_self, List.mem_append, List.mem_singleton] at hx
          rcases hx with hx | rfl
          · exact g.nonneg hx
          · exact h.1
        · rw [Function.update_of_ne hp] at hx
          exact g.nonneg hx }
  else none

def next (p : Int) : Option (StreamRecord P) := (g.records p).find? (g.position p ≤ ·.offset)

/-- The client hands a record out and is past it. -/
def past (r : StreamRecord P) : KafkaGroup P :=
  {g with fetched := Function.update g.fetched r.partition (some (r.offset + 1))}

/-- Up to `max` records. An error counts only before the first of them. -/
def drainBatch (max : Nat) : KafkaGroup P → List (StreamRecord P) → List Yield →
    KafkaGroup P × Except StreamError (List (StreamRecord P))
  | g, records, [] => (g, .ok records)
  | g, records, poll :: polls =>
    if records.length < max then
      match poll with
      | .record p => match g.next p with
        | some r => drainBatch max (g.past r) (records ++ [r]) polls
        | none => (g, .ok records)
      | .error e => if records.isEmpty then (g, .error e) else (g, .ok records)
      | .nothing => (g, .ok records)
    else (g, .ok records)

def poll (max : Nat) (yields : List Yield) : KafkaGroup P × Except StreamError (List (StreamRecord P)) :=
  if max = 0 then (g, .ok []) else drainBatch max g [] yields

/-- `latest_by_partition`: the greatest offset of each partition. -/
def latestByPartition (offsets : List StreamOffset) : Int → Option Int :=
  offsets.foldl (fun latest o => raise latest o.partition o.offset) fun _ => none

/-- The first partition with an offset that no other can follow. -/
def overflow (offsets : List StreamOffset) : Option Int :=
  ((offsets.filter fun o => (checkedNext o.offset).isNone).map (·.partition)).min?

/-- The client stores what comes after the latest offset of each partition. -/
def store (offsets : List StreamOffset) (chosen : Int → Bool) : KafkaGroup P :=
  {g with stored := fun p => if chosen p then ((latestByPartition offsets p).bind checkedNext).or (g.stored p) else g.stored p}

def commit (g : KafkaGroup P) (offsets : List StreamOffset) (ending : CommitEnding) : KafkaGroup P × Except StreamError Unit :=
  if offsets.isEmpty then (g, .ok ()) else
    match overflow offsets with
    | some p => (g, .error (.config ("redpanda commit offset overflow for partition " ++ toString p)))
    | none => match ending with
      | .committed => (g.store offsets fun _ => true, .ok ())
      | .failed e stored => (g.store offsets fun p => stored.contains p, .error e)

/-- The client has no position until the broker assigns it one. -/
def restart : KafkaGroup P := {g with fetched := fun _ => none}

variable {g g' : KafkaGroup P}

theorem next_first {p : Int} {r : StreamRecord P} (h : g.next p = some r) :
    r ∈ g.records p ∧ g.position p ≤ r.offset ∧
      ∀ x ∈ g.records p, g.position p ≤ x.offset → x.offset ≤ r.offset → x = r := by
  obtain ⟨hle, before, after, hs, hb⟩ := find?_eq_some_iff_append.mp h
  refine ⟨mem_of_find?_eq_some h, of_decide_eq_true hle, fun x hx hxl hxr => ?_⟩
  have ho := g.ordered p
  rw [hs, pairwise_append, pairwise_cons] at ho
  rw [hs, mem_append, mem_cons] at hx
  rcases hx with hx | rfl | hx
  · have hn := hb x hx
    simp [hxl] at hn
  · rfl
  · have := ho.2.1.1 x hx
    omega

theorem position_past (r : StreamRecord P) : (g.past r).position = update g.position r.partition (r.offset + 1) := by
  funext q
  by_cases hq : q = r.partition
  · subst hq
    simp [position, past]
  · simp [position, past, hq, committed]

/-- A drain hands out the next records, one after the other; an error leaves everything. -/
theorem drainBatch_spec {max : Nat} {start : KafkaGroup P} {records : List (StreamRecord P)} {polls : List Yield}
    {result : Except StreamError (List (StreamRecord P))} (h : drainBatch max g records polls = (g', result))
    (hr : g.records = start.records) (hs : g.stored = start.stored)
    (hh : Handed start.records start.position g.position records) (he : records = [] → g = start) :
    (∃ batch, result = .ok batch ∧ g'.records = start.records ∧ g'.stored = start.stored ∧
        Handed start.records start.position g'.position batch) ∨ ((∃ e, result = .error e) ∧ g' = start) := by
  induction polls generalizing g records with
  | nil =>
    cases h
    exact .inl ⟨_, rfl, hr, hs, hh⟩
  | cons poll polls ih =>
    have hen : (g, Except.ok records) = (g', result) → ∃ batch, result = .ok batch ∧
        g'.records = start.records ∧ g'.stored = start.stored ∧
        Handed start.records start.position g'.position batch := fun hend => by
      cases hend
      exact ⟨_, rfl, hr, hs, hh⟩
    unfold drainBatch at h
    split at h
    case isFalse => exact .inl (hen h)
    case isTrue =>
      cases poll with
      | nothing => exact .inl (hen h)
      | error e =>
        dsimp only at h
        split at h
        · next hnl =>
          cases h
          exact .inr ⟨⟨e, rfl⟩, he (isEmpty_iff.mp hnl)⟩
        · exact .inl (hen h)
      | record p =>
        dsimp only at h
        split at h
        · next r hn =>
          obtain ⟨hm, hle, hf⟩ := next_first hn
          obtain rfl : r.partition = p := g.own hm
          refine ih h hr hs ?_ (by simp)
          rw [position_past]
          rw [hr] at hm hf
          exact hh.concat hm hle hf
        · exact .inl (hen h)

theorem latestByPartition_mem {offsets : List StreamOffset} {p latest : Int}
    (h : latestByPartition offsets p = some latest) : ∃ o ∈ offsets, o.partition = p ∧ o.offset = latest := by
  induction offsets using reverseRecOn generalizing latest with
  | nil => cases h
  | append_singleton rest o ih =>
    have hr : latestByPartition (rest ++ [o]) = raise (latestByPartition rest) o.partition o.offset :=
      foldl_concat ..
    rw [hr] at h
    have ho : ∀ {latest}, latestByPartition rest p = some latest →
        ∃ x ∈ rest ++ [o], x.partition = p ∧ x.offset = latest := fun hl => by
      obtain ⟨x, hx, hxp⟩ := ih hl
      exact ⟨x, mem_append_left _ hx, hxp⟩
    by_cases hp : p = o.partition
    · subst hp
      rcases raise_self (latestByPartition rest) o.partition o.offset with hn | ⟨old, hm, -, hk⟩
      · rw [hn] at h
        exact ⟨o, by simp, rfl, Option.some.inj h⟩
      · rw [hk] at h
        exact ho (hm.trans h)
    · rw [raise_of_ne hp] at h
      exact ho h

theorem store_commits (g : KafkaGroup P) (offsets : List StreamOffset) (chosen : Int → Bool) :
    Commits g.committed (g.store offsets chosen).committed offsets := by
  intro p
  unfold committed store
  dsimp only
  split
  · cases hl : (latestByPartition offsets p).bind checkedNext with
    | none => exact .inl rfl
    | some next =>
      obtain ⟨latest, hl, hn⟩ := Option.bind_eq_some_iff.mp hl
      obtain ⟨o, ho, hop, rfl⟩ := latestByPartition_mem hl
      exact .inr ⟨o, ho, hop, checkedNext_some hn⟩
  · exact .inl rfl

theorem commit_cases {offsets : List StreamOffset} {ending : CommitEnding} {result : Except StreamError Unit}
    (h : g.commit offsets ending = (g', result)) : g' = g ∨ ∃ chosen, g' = g.store offsets chosen := by
  unfold commit at h
  split at h
  · cases h
    exact .inl rfl
  split at h
  · cases h
    exact .inl rfl
  cases ending with
  | committed | failed =>
    cases h
    exact .inr ⟨_, rfl⟩

theorem store_position {offsets : List StreamOffset} {chosen : Int → Bool}
    (hof : ∀ o ∈ offsets, o.offset < g.position o.partition) (p : Int) :
    (g.store offsets chosen).position p ≤ g.position p := by
  cases hf : g.fetched p with
  | some next => simp [position, store, hf]
  | none =>
    have hp : g.position p = g.committed p := by simp [position, hf]
    have hs : (g.store offsets chosen).position p = (g.store offsets chosen).committed p := by
      simp [position, store, hf]
    rw [hs]
    rcases store_commits g offsets chosen p with hsm | ⟨o, ho, rfl, heq⟩
    · rw [hsm, hp]
    · have := hof o ho
      omega

def transport (P : Type) : Transport P where
  State := KafkaGroup P
  log := records
  committed := committed
  position := position
  publish := publish
  poll := poll
  commit := commit
  restart := restart
  own := fun {g} => g.own
  offset_nonneg := fun {g} => g.nonneg
  log_publish h := by
    unfold publish at h
    split at h
    · next hnext =>
      cases h
      exact ⟨rfl, hnext.2, rfl, rfl⟩
    · cases h
  poll_ok {g g' max yields batch} h := by
    unfold poll at h
    split at h
    · cases h
      exact ⟨rfl, rfl, .refl _ _⟩
    obtain ⟨_, hok, hrecords, hstored, hhanded⟩ | ⟨⟨_, herror⟩, _⟩ :=
      drainBatch_spec h rfl rfl (.refl _ _) fun _ => rfl
    · cases hok
      exact ⟨hrecords, funext fun p => congrArg (·.getD 0) (congrFun hstored p), hhanded⟩
    · cases herror
  poll_error h := by
    unfold poll at h
    split at h
    · cases h
    · obtain ⟨_, hok, _⟩ | ⟨_, hsame⟩ := drainBatch_spec h rfl rfl (.refl _ _) fun _ => rfl
      · cases hok
      · exact hsame
  committed_commit h := by
    obtain rfl | ⟨chosen, rfl⟩ := commit_cases h
    · exact ⟨rfl, fun _ => .inl rfl⟩
    · exact ⟨rfl, store_commits _ _ _⟩
  position_commit h hoffsets p := by
    obtain rfl | ⟨chosen, rfl⟩ := commit_cases h
    · exact le_rfl
    · exact store_position hoffsets p
  restarted _ := ⟨rfl, rfl, rfl⟩

end KafkaGroup

end Zeroship.Metering

import Zeroship.Metering.Outbox

/-! Where an event is: in the log, among the retained events, or in the batch of a call.

A step of a call moves events between these and gives one up only where the stream has
acknowledged it or the buffer is full. A row of the log is removed by its sequence number some
time after it was read: numbers are never used again, so it is the row that was read. -/
namespace Zeroship.Metering
open Base List

variable {P : Type} {codec : Codec P}

/-! ### The log -/

namespace UsageWal
variable {w w' : UsageWal P} {x : UsageEvent} {events : List UsageEvent} {fate : Fate} {seq : Nat}

def Stores (codec : Codec P) (w : UsageWal P) (x : UsageEvent) : Prop := ∃ r ∈ w.rows, codec.decode r.2 = some x

instance (codec : Codec P) (w : UsageWal P) (x : UsageEvent) : Decidable (w.Stores codec x) :=
  inferInstanceAs (Decidable (∃ r ∈ w.rows, codec.decode r.2 = some x))

/-- The second log is a later state of the first: what it has under an old number, the first has too. -/
structure Precedes (w w' : UsageWal P) : Prop where
  nextSeq : w.nextSeq ≤ w'.nextSeq
  rows : ∀ r ∈ w'.rows, r.1 < w.nextSeq → r ∈ w.rows

theorem Precedes.refl (w : UsageWal P) : w.Precedes w := ⟨le_rfl, fun _ hr _ => hr⟩

theorem Precedes.insert (w : UsageWal P) (payloads : List P) : w.Precedes (w.insert payloads) where
  nextSeq := Nat.le_add_right _ _
  rows := by
    intro r hr ho
    obtain hr | hr := mem_append.mp hr
    · exact hr
    · obtain ⟨y, hy, rfl⟩ := mem_map.mp hr
      have hn : w.nextSeq ≤ y.2 := le_snd_of_mem_zipIdx hy
      exact absurd ho (Nat.not_lt.mpr hn)

theorem Precedes.trim (w : UsageWal P) (seq : Nat) : w.Precedes (w.trim seq) :=
  ⟨le_rfl, fun _ hr _ => mem_of_mem_filter hr⟩

theorem append_cases (codec : Codec P) (w : UsageWal P) (events : List UsageEvent) (fate : Fate) :
    (w.append codec events fate).1 = w ∨ ∃ encoded, (w.append codec events fate).1 = w.insert encoded := by
  unfold append
  split_ifs
  · exact .inl rfl
  split
  · exact .inl rfl
  split
  · split_ifs
    · exact .inr ⟨_, rfl⟩
    · exact .inl rfl
  · split_ifs
    · exact .inr ⟨_, rfl⟩
    · exact .inl rfl

theorem remove_cases (w : UsageWal P) (seq : Nat) (fate : Fate) :
    (w.remove seq fate).1 = w ∨ (w.remove seq fate).1 = w.trim seq := by
  cases fate with
  | committed => exact .inr rfl
  | failed error stored => cases stored <;> simp [remove]

theorem precedes_append (codec : Codec P) (w : UsageWal P) (events : List UsageEvent) (fate : Fate) :
    w.Precedes (w.append codec events fate).1 := by
  obtain h | ⟨encoded, h⟩ := append_cases codec w events fate
  · rw [h]
    exact .refl w
  · rw [h]
    exact .insert w encoded

theorem precedes_remove (w : UsageWal P) (seq : Nat) (fate : Fate) : w.Precedes (w.remove seq fate).1 := by
  obtain h | h := remove_cases w seq fate
  · rw [h]
    exact .refl w
  · rw [h]
    exact .trim w seq

theorem Stores.append (h : w.Stores codec x) (events : List UsageEvent) (fate : Fate) :
    (w.append codec events fate).1.Stores codec x := by
  obtain heq | ⟨encoded, heq⟩ := append_cases codec w events fate
  · rwa [heq]
  · obtain ⟨r, hr, hd⟩ := h
    rw [heq]
    exact ⟨r, mem_append_left _ hr, hd⟩

theorem stores_of_append (h : w.append codec events fate = (w', .ok ())) (hx : x ∈ events) : w'.Stores codec x := by
  unfold append at h
  rw [if_neg (ne_nil_of_mem hx)] at h
  split at h
  · cases h
  next encoded he =>
  split at h
  · split_ifs at h
    · cases h
      obtain ⟨p, hp, hsr⟩ := exists_of_mapM he hx
      have hsr : codec.serialize x = .ok p := by
        cases hs : codec.serialize x <;> simp [hs, Except.mapError] at hsr ⊢
        exact hsr
      rw [← zipIdx_map_fst w.nextSeq encoded] at hp
      obtain ⟨r, hr, rfl⟩ := mem_map.mp hp
      exact ⟨r.swap, mem_append_right _ (mem_map_of_mem hr), codec.roundTrip hsr⟩
    · cases h
  · cases h

theorem Stores.remove (h : w.Stores codec x) (seq : Nat) (fate : Fate) :
    (w.remove seq fate).1.Stores codec x ∨ ∃ p, (seq, p) ∈ w.rows ∧ codec.decode p = some x := by
  obtain heq | heq := remove_cases w seq fate
  · rw [heq]
    exact .inl h
  obtain ⟨r, hr, hd⟩ := h
  by_cases hs : r.1 = seq
  · exact .inr ⟨r.2, hs ▸ hr, hd⟩
  · rw [heq]
    exact .inl ⟨r, mem_filter.mpr ⟨hr, by simpa using hs⟩, hd⟩

theorem row_unique (w : UsageWal P) {p p' : P} (h : (seq, p) ∈ w.rows) (h' : (seq, p') ∈ w.rows) : p = p' := by
  have hn : (w.rows.map (·.1)).Nodup := w.ordered.imp fun hlt => Nat.ne_of_lt hlt
  exact congrArg Prod.snd (inj_on_of_nodup_map hn h h' rfl)

/-- What a row had when it was read: if it is still there, it has it now. -/
def Reads (codec : Codec P) (w : UsageWal P) (seq : Nat) (found : Option UsageEvent) : Prop :=
  seq < w.nextSeq ∧ ∀ p, (seq, p) ∈ w.rows → codec.decode p = found

theorem Reads.later {found : Option UsageEvent} (h : w.Reads codec seq found) (hl : w.Precedes w') :
    w'.Reads codec seq found :=
  ⟨h.1.trans_le hl.nextSeq, fun p hp => h.2 p (hl.rows _ hp h.1)⟩

theorem reads_of_mem {r : Nat × P} (hr : r ∈ w.rows) : w.Reads codec r.1 (codec.decode r.2) :=
  ⟨w.below r hr, fun _ hp => congrArg codec.decode (w.row_unique hp hr)⟩

theorem reads_pending {x : PendingWalEvent} (hx : x ∈ (w.loadPending codec).pending) :
    w.Reads codec x.seq (some x.event) := by
  obtain ⟨r, hr, hf⟩ := mem_filterMap.mp hx
  obtain ⟨event, he, rfl⟩ := Option.map_eq_some_iff.mp hf
  exact he ▸ reads_of_mem hr

theorem reads_poison (hs : seq ∈ (w.loadPending codec).poison) : w.Reads codec seq none := by
  obtain ⟨r, hr, rfl⟩ := mem_map.mp hs
  obtain ⟨hr, hn⟩ := mem_filter.mp hr
  exact Option.isNone_iff_eq_none.mp hn ▸ reads_of_mem hr

end UsageWal

/-! ### One step of a call -/

def Stage.batch : Stage → Option (List UsageEvent)
  | .taken _ batch => some batch
  | .refused _ batch _ => some batch
  | _ => none

def Effect.batch (e : Effect P) : Option (List UsageEvent) := e.stage.bind Stage.batch

variable (signs : List Sign)

def droppedOf : List UsageEvent := signs.filterMap fun
  | .dropped x => some x
  | _ => none

def acknowledgedOf : List UsageEvent := signs.filterMap fun
  | .acknowledged x => some x
  | _ => none

/-- What a call knows of the log it has read. -/
def Stage.Tied (codec : Codec P) (acknowledged : List UsageEvent) (w : UsageWal P) : Stage → Prop
  | .purging poison pending =>
    (∀ seq ∈ poison, w.Reads codec seq none) ∧ ∀ x ∈ pending, w.Reads codec x.seq (some x.event)
  | .publishing pending _ => ∀ x ∈ pending, w.Reads codec x.seq (some x.event)
  | .trimming current pending _ =>
    current.event ∈ acknowledged ∧ ∀ x ∈ current :: pending, w.Reads codec x.seq (some x.event)
  | _ => True

theorem Stage.Tied.later {acknowledged acknowledged' : List UsageEvent} {w w' : UsageWal P} {stage : Stage}
    (h : stage.Tied codec acknowledged w) (hl : w.Precedes w') (hsb : acknowledged ⊆ acknowledged') :
    stage.Tied codec acknowledged' w' := by
  cases stage with
  | taken | refused | appended => trivial
  | purging => exact ⟨fun seq hs => (h.1 seq hs).later hl, fun x hx => (h.2 x hx).later hl⟩
  | publishing => exact fun x hx => (h x hx).later hl
  | trimming => exact ⟨hsb h.1, fun x hx => (h.2 x hx).later hl⟩

/-- What a step does with the events that are not in the log. -/
inductive Moved (codec : Codec P) (retained : List UsageEvent) (stage : Stage) (e : Effect P) : Prop
  /-- They stay where they are. -/
  | stays (same : e.retained = retained) (batch : e.batch = stage.batch) (dropped : droppedOf e.signs = [])
  /-- The call's batch is in the log. -/
  | stored (events : List UsageEvent) (taken : stage.batch = some events) (batch : e.batch = none)
      (same : e.retained = retained) (dropped : droppedOf e.signs = [])
      (all : ∀ x ∈ events, e.wal.Stores codec x)
  /-- The batch goes behind the retained events, and the buffer loses its front if it is too long. -/
  | kept (maxRetained : Nat) (events : List UsageEvent) (error : OutboxWalError)
      (refused : stage = .refused maxRetained events error) (batch : e.batch = none)
      (buffer : retained ++ events = droppedOf e.signs ++ e.retained)
      (full : droppedOf e.signs = [] ∨ e.retained.length = maxRetained)

/-- What a step does, when the log holds what the call has read there. -/
structure Stepped (codec : Codec P) (acknowledged : List UsageEvent) (w : UsageWal P) (retained : List UsageEvent)
    (stage : Stage) (e : Effect P) : Prop where
  precedes : w.Precedes e.wal
  keeps : ∀ {x : UsageEvent}, w.Stores codec x → e.wal.Stores codec x ∨ x ∈ acknowledged
  moved : Moved codec retained stage e
  tied : ∀ next ∈ e.stage, next.Tied codec (acknowledged ++ acknowledgedOf e.signs) e.wal

section
variable {acknowledged : List UsageEvent} {w : UsageWal P} {retained : List UsageEvent} {stage : Stage} {fate : Fate}
  {batch : List UsageEvent} {maxRetained : Nat} {current : PendingWalEvent} {pending : List PendingWalEvent}
  {result : OutboxPublishResult}

theorem Stepped.idle {next : Option Stage} {signs : List Sign} (hb : stage.batch = none)
    (hn : next.bind Stage.batch = none) (hs : droppedOf signs = [])
    (ht : ∀ n ∈ next, n.Tied codec (acknowledged ++ acknowledgedOf signs) w) :
    Stepped codec acknowledged w retained stage ⟨w, retained, next, signs⟩ where
  precedes := .refl w
  keeps := .inl
  moved := .stays rfl (hn.trans hb.symm) hs
  tied := ht

theorem Stepped.ends {signs : List Sign} (hb : stage.batch = none) (hs : droppedOf signs = []) :
    Stepped codec acknowledged w retained stage ⟨w, retained, none, signs⟩ := .idle hb rfl hs (by simp)

theorem Stepped.goes {next : Stage} {signs : List Sign} (hb : stage.batch = none) (hn : next.batch = none)
    (hs : droppedOf signs = []) (ht : next.Tied codec (acknowledged ++ acknowledgedOf signs) w) :
    Stepped codec acknowledged w retained stage ⟨w, retained, some next, signs⟩ := .idle hb hn hs (by simpa using ht)

theorem Stepped.removes {next : Stage} {seq : Nat} {found : Option UsageEvent}
    (hr : w.Reads codec seq found) (hf : ∀ x ∈ found, x ∈ acknowledged) (hb : stage.batch = none)
    (hn : next.batch = none) (ht : next.Tied codec acknowledged w) :
    Stepped codec acknowledged w retained stage ⟨(w.remove seq fate).1, retained, some next, []⟩ where
  precedes := w.precedes_remove seq fate
  keeps := by
    intro x hx
    obtain hx | ⟨p, hp, hd⟩ := hx.remove seq fate
    · exact .inl hx
    · exact .inr (hf x ((hr.2 p hp).symm.trans hd))
  moved := .stays rfl (hn.trans hb.symm) rfl
  tied := by
    rintro _ ⟨⟩
    exact ht.later (w.precedes_remove seq fate) (subset_append_left _ _)

theorem appendBatch_stepped : Stepped codec acknowledged w retained (.taken maxRetained batch)
      (appendBatch codec w retained maxRetained batch fate) := by
  have hp := UsageWal.precedes_append codec w batch fate
  have hk := fun (x : UsageEvent) (hx : w.Stores codec x) => hx.append batch fate
  unfold appendBatch
  split
  · next w' ha =>
    rw [ha] at hp hk
    refine ⟨hp, fun hx => .inl (hk _ hx), ?_, ?_⟩
    · exact .stored batch rfl rfl rfl rfl fun x hx => UsageWal.stores_of_append ha hx
    · rintro _ ⟨⟩
      trivial
  · next w' error ha =>
    rw [ha] at hp hk
    refine ⟨hp, fun hx => .inl (hk _ hx), .stays rfl rfl rfl, ?_⟩
    rintro _ ⟨⟩
    trivial

theorem droppedOf_append (signs signs' : List Sign) : droppedOf (signs ++ signs') = droppedOf signs ++ droppedOf signs' :=
  filterMap_append

theorem droppedOf_map (events : List UsageEvent) : droppedOf (events.map .dropped) = events := by
  rw [droppedOf, filterMap_map]
  exact filterMap_some

theorem retainForRetry_stepped {error : OutboxWalError} :
    Stepped codec acknowledged w retained (.refused maxRetained batch error)
      (retainForRetry w retained maxRetained batch error) where
  precedes := .refl w
  keeps := .inl
  moved := by
    have hd : droppedOf (retainForRetry w retained maxRetained batch error).signs =
        (retained ++ batch).take ((retained ++ batch).length - maxRetained) := by
      rw [retainForRetry, droppedOf_append, droppedOf_map]
      exact append_nil _
    refine .kept maxRetained batch error rfl rfl ?_ ?_
    · rw [hd]
      exact (take_append_drop _ _).symm
    by_cases hr : (retained ++ batch).length ≤ maxRetained
    · rw [hd, Nat.sub_eq_zero_of_le hr, take_zero]
      exact .inl rfl
    right
    show (drop _ _).length = _
    rw [length_drop]
    omega
  tied := by rintro _ ⟨⟩

theorem loadBatch_stepped {failure : Option String} :
    Stepped codec acknowledged w retained (.appended batch) (loadBatch codec w retained batch failure) := by
  cases failure with
  | some error =>
    exact .ends rfl rfl
  | none =>
    exact .goes rfl rfl rfl ⟨fun _ => UsageWal.reads_poison, fun _ => UsageWal.reads_pending⟩

theorem publishNext_stepped {attempt : Attempt}
    (ht : (Stage.publishing (current :: pending) result).Tied codec acknowledged w) :
    Stepped codec acknowledged w retained (.publishing (current :: pending) result)
      (publishNext codec w retained current pending result attempt) := by
  have hr : ∀ (result : OutboxPublishResult) (signs : List Sign),
      (Stage.publishing pending result).Tied codec (acknowledged ++ acknowledgedOf signs) w := by
    intro _ _ x hx
    exact ht x (mem_cons_of_mem _ hx)
  cases attempt with
  | stalled =>
    exact .ends rfl rfl
  | tried outcome =>
    simp only [publishNext]
    split
    · exact .goes rfl rfl rfl (hr _ _)
    · exact .goes rfl rfl rfl (hr _ _)
    · exact .goes rfl rfl rfl (hr _ _)
    · exact .goes rfl rfl rfl ⟨mem_append_right _ mem_cons_self, ht⟩

theorem trimCurrent_stepped (ht : (Stage.trimming current pending result).Tied codec acknowledged w) :
    Stepped codec acknowledged w retained (.trimming current pending result)
      (trimCurrent w retained current pending result fate) := by
  have hs : ∃ r, trimCurrent w retained current pending result fate =
      ⟨(w.remove current.seq fate).1, retained, some (.publishing pending r), []⟩ := by
    unfold trimCurrent
    split
    · next hrm => exact ⟨_, by rw [hrm]⟩
    · next hrm => exact ⟨_, by rw [hrm]⟩
  obtain ⟨r, hr⟩ := hs
  rw [hr]
  refine Stepped.removes (ht.2 _ mem_cons_self) ?_ rfl rfl fun x hx => ht.2 x (mem_cons_of_mem _ hx)
  rintro _ ⟨⟩
  exact ht.1

theorem Stage.step_stepped {turn : Turn} {e : Effect P} (ht : stage.Tied codec acknowledged w)
    (h : stage.step codec w retained turn = some e) : Stepped codec acknowledged w retained stage e := by
  unfold Stage.step at h
  split at h
  · cases h
    exact appendBatch_stepped
  · cases h
    exact retainForRetry_stepped
  · cases h
    exact loadBatch_stepped
  · next seq poison pending fate =>
    cases h
    rw [Stage.Tied, forall_mem_cons] at ht
    refine Stepped.removes ht.1.1 ?_ rfl rfl ⟨ht.1.2, ht.2⟩
    rintro _ ⟨⟩
  · cases h
    exact .goes rfl rfl rfl ht.2
  · cases h
    exact publishNext_stepped ht
  · cases h
    exact .ends rfl rfl
  · cases h
    exact .ends rfl rfl
  · cases h
    exact trimCurrent_stepped ht
  · cases h

end

end Zeroship.Metering

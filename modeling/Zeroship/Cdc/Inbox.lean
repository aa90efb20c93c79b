import Zeroship.Cdc.Subscription

/-! What a subscriber gets out of its queue.

The messages taken out, followed by those still waiting, are the stream of a subscription.
A step adds to its end, replaces what waits by a resync, or moves the first message that waits
to those taken out. So a change that was pushed stays in the stream until a resync takes its
place, and one or the other was taken out once the queue is empty. -/
namespace Zeroship.Cdc
open List Inbox SubscriptionMessage

/-- What happens to a subscription. -/
inductive InboxOp (α : Type)
  | change (event : α)
  | resync | pop | close

namespace Inbox
variable {α : Type}

/-- The state after one operation. -/
def step (s : Inbox α) : InboxOp α → Inbox α
  | .change event => s.push (.change event)
  | .resync => s.push .resync
  | .pop => s.pop.2
  | .close => s.close

def taken (s : Inbox α) : InboxOp α → List (SubscriptionMessage α)
  | .pop => s.pop.1.toList
  | _ => []

def run (s : Inbox α) : List (InboxOp α) → Inbox α
  | [] => s
  | op :: rest => (s.step op).run rest

/-- What a run takes out, in order. -/
def popped (s : Inbox α) : List (InboxOp α) → List (SubscriptionMessage α)
  | [] => []
  | op :: rest => s.taken op ++ (s.step op).popped rest

end Inbox

/-- The events among the messages. -/
def SubscriptionMessage.event? {α : Type} : SubscriptionMessage α → Option α
  | .change event => some event
  | _ => none

/-- The event an operation pushes. -/
def InboxOp.event? {α : Type} : InboxOp α → Option α
  | .change event => some event
  | _ => none

namespace Inbox
variable {α : Type} {s : Inbox α} {op : InboxOp α} {ops : List (InboxOp α)} {msg : SubscriptionMessage α}

theorem run_append (s : Inbox α) (ops ops' : List (InboxOp α)) : s.run (ops ++ ops') = (s.run ops).run ops' := by
  induction ops generalizing s with
  | nil => rfl
  | cons op rest ih => exact ih _

/-! ### One step -/

/-- A push is refused, appended, dropped behind a pending resync, or replaces the queue. -/
theorem push_cases (s : Inbox α) (msg : SubscriptionMessage α) : (s.closed ∧ s.push msg = s) ∨
    (s.closed = false ∧ s.queue.length < s.maxQueue ∧ s.push msg = {s with queue := s.queue ++ [msg]}) ∨
    (s.closed = false ∧ s.maxQueue ≤ s.queue.length ∧ s.resyncPending ∧ s.push msg = s) ∨
    (s.closed = false ∧ s.maxQueue ≤ s.queue.length ∧ s.push msg = {s with queue := [.resync], resyncPending := true}) := by
  unfold push
  by_cases hc : s.closed
  · exact .inl ⟨hc, if_pos hc⟩
  rw [if_neg hc]
  rw [Bool.not_eq_true] at hc
  by_cases hf : s.maxQueue ≤ s.queue.length
  · rw [if_pos hf]
    by_cases hp : s.resyncPending
    · exact .inr (.inr (.inl ⟨hc, hf, hp, if_pos hp⟩))
    · exact .inr (.inr (.inr ⟨hc, hf, if_neg hp⟩))
  · rw [if_neg hf]
    exact .inr (.inl ⟨hc, Nat.lt_of_not_le hf, rfl⟩)

theorem pop_cases (s : Inbox α) : (s.queue = [] ∧ s.pop = (none, s)) ∨
    ∃ msg rest pending, s.queue = msg :: rest ∧ s.pop = (some msg, {s with queue := rest, resyncPending := pending}) ∧
      (pending → s.resyncPending ∧ msg ≠ .resync) := by
  obtain ⟨queue, maxQueue, closed, pending⟩ := s
  match queue with
  | [] => exact .inl ⟨rfl, rfl⟩
  | .resync :: rest => exact .inr ⟨.resync, rest, false, rfl, rfl, by simp⟩
  | .change event :: rest => exact .inr ⟨.change event, rest, pending, rfl, rfl, by simp⟩
  | .closed :: rest => exact .inr ⟨.closed, rest, pending, rfl, rfl, by simp⟩

theorem close_cases (s : Inbox α) : (s.closed ∧ s.close = s) ∨
    (s.closed = false ∧ s.close = {s with closed := true, queue := s.queue ++ [.closed]}) := by
  by_cases hc : s.closed
  · exact .inl ⟨hc, if_pos hc⟩
  · exact .inr ⟨by simpa using hc, if_neg hc⟩

/-- What an operation does to the stream: nothing, or it adds the message that was pushed,
replaces what waits by a resync, or ends it. -/
inductive Moved (s : Inbox α) (op : InboxOp α) (s' : Inbox α) (taken : List (SubscriptionMessage α)) : Prop
  | same (stream : taken ++ s'.queue = s.queue) (flag : s'.closed = s.closed) (late : op = .close → s.closed)
  | pushed (wasOpen : s.closed = false) (isOpen : s'.closed = false) (early : op ≠ .close) {msg : SubscriptionMessage α}
      (kind : msg ≠ .closed) (event : msg.event? = op.event?) (stream : taken ++ s'.queue = s.queue ++ [msg])
  | overflowed (wasOpen : s.closed = false) (isOpen : s'.closed = false) (early : op ≠ .close)
      (stream : taken ++ s'.queue = [.resync])
  | ended (wasOpen : s.closed = false) (isClosed : s'.closed) (now : op = .close)
      (stream : taken ++ s'.queue = s.queue ++ [.closed])

theorem moved_push (hk : msg ≠ .closed) (he : msg.event? = op.event?) (hop : op ≠ .close) :
    Moved s op (s.push msg) [] := by
  rcases s.push_cases msg with ⟨-, heq⟩ | ⟨ho, -, heq⟩ | ⟨-, -, -, heq⟩ | ⟨ho, -, heq⟩ <;> rw [heq]
  · exact .same rfl rfl fun h => absurd h hop
  · exact .pushed ho ho hop hk he rfl
  · exact .same rfl rfl fun h => absurd h hop
  · exact .overflowed ho ho hop rfl

theorem step_moved (s : Inbox α) (op : InboxOp α) : Moved s op (s.step op) (s.taken op) := by
  cases op with
  | change event | resync => exact moved_push (by simp) rfl (by simp)
  | pop =>
    show Moved s .pop s.pop.2 s.pop.1.toList
    rcases s.pop_cases with ⟨-, heq⟩ | ⟨msg, rest, pending, hq, heq, -⟩ <;> rw [heq]
    · exact .same rfl rfl (by simp)
    · exact .same hq.symm rfl (by simp)
  | close =>
    show Moved s .close s.close []
    rcases s.close_cases with ⟨hc, heq⟩ | ⟨ho, heq⟩ <;> rw [heq]
    · exact .same rfl rfl fun _ => hc
    · exact .ended ho rfl rfl rfl

/-- An operation keeps what each of the changes that it can make keeps. -/
theorem step_keeps {I : Inbox α → Prop} (same : I s)
    (pushed : ∀ msg, s.closed = false → s.queue.length < s.maxQueue → I {s with queue := s.queue ++ [msg]})
    (overflowed : I {s with queue := [.resync], resyncPending := true})
    (popped : ∀ msg rest (pending : Bool), s.queue = msg :: rest → (pending → s.resyncPending ∧ msg ≠ .resync) →
      I {s with queue := rest, resyncPending := pending})
    (ended : s.closed = false → I {s with closed := true, queue := s.queue ++ [.closed]}) (op : InboxOp α) :
    I (s.step op) := by
  have hp (msg : SubscriptionMessage α) : I (s.push msg) := by
    rcases s.push_cases msg with ⟨-, heq⟩ | ⟨ho, hr, heq⟩ | ⟨-, -, -, heq⟩ | ⟨-, -, heq⟩ <;> rw [heq]
    · exact same
    · exact pushed msg ho hr
    · exact same
    · exact overflowed
  cases op with
  | change event | resync => exact hp _
  | pop =>
    show I s.pop.2
    rcases s.pop_cases with ⟨-, heq⟩ | ⟨msg, rest, pending, hq, heq, hpn⟩ <;> rw [heq]
    · exact same
    · exact popped msg rest pending hq hpn
  | close =>
    show I s.close
    rcases s.close_cases with ⟨-, heq⟩ | ⟨ho, heq⟩ <;> rw [heq]
    · exact same
    · exact ended ho

/-- A pending resync waits in the queue. -/
def Sound (s : Inbox α) : Prop := s.resyncPending → .resync ∈ s.queue

theorem Sound.step (h : s.Sound) (op : InboxOp α) : (s.step op).Sound := by
  refine step_keeps h ?_ (fun _ => mem_singleton_self _) ?_ ?_ op
  · exact fun msg _ _ hpn => mem_append_left _ (h hpn)
  · -- the message taken out is not the one that is pending
    intro msg rest pending hq hpn hp
    obtain ⟨hf, hne⟩ := hpn hp
    have hm := h hf
    rw [hq] at hm
    exact (mem_cons.mp hm).resolve_left fun heq => hne heq.symm
  · exact fun _ hpn => mem_append_left _ (h hpn)

/-- Room for the queue, and for the end of it. -/
def Bounded (s : Inbox α) : Prop := s.queue.length ≤ max s.maxQueue 1 + s.closed.toNat

theorem Bounded.step (h : s.Bounded) (op : InboxOp α) : (s.step op).Bounded := by
  refine step_keeps h ?_ ?_ ?_ ?_ op <;> unfold Bounded at h ⊢
  · intro msg _ hr
    simp only [length_append, length_singleton]
    omega
  · simp only [length_singleton]
    omega
  · intro msg rest pending hq _
    rw [hq, length_cons] at h
    simp only
    omega
  · intro ho
    simp only [ho, Bool.toNat_false, length_append, length_singleton, Bool.toNat_true] at h ⊢
    omega

theorem step_maxQueue (s : Inbox α) (op : InboxOp α) : (s.step op).maxQueue = s.maxQueue :=
  step_keeps (I := fun s' => s'.maxQueue = s.maxQueue) rfl (fun _ _ _ => rfl) rfl (fun _ _ _ _ _ => rfl) (fun _ => rfl) op

/-! ### Whole runs -/

theorem run_holds (I : Inbox α → Prop) (keep : ∀ s op, I s → I (s.step op)) (h : I s) (ops : List (InboxOp α)) :
    I (s.run ops) := by
  induction ops generalizing s with
  | nil => exact h
  | cons op rest ih => exact ih (keep s op h)

variable (maxQueue : Nat)

theorem sound_run (ops : List (InboxOp α)) : ((new maxQueue : Inbox α).run ops).Sound :=
  run_holds Sound (fun _ op h => h.step op) (by simp [Sound, new]) ops

theorem length_queue_run (ops : List (InboxOp α)) :
    ((new maxQueue : Inbox α).run ops).queue.length ≤ max maxQueue 1 + 1 := by
  have hb : ((new maxQueue : Inbox α).run ops).Bounded :=
    run_holds Bounded (fun _ op h => h.step op) (by simp [Bounded, new]) ops
  have hm : ((new maxQueue : Inbox α).run ops).maxQueue = maxQueue :=
    run_holds (fun s => s.maxQueue = maxQueue) (fun s op h => (step_maxQueue s op).trans h) rfl ops
  unfold Bounded at hb
  have hf := Bool.toNat_le ((new maxQueue : Inbox α).run ops).closed
  omega

theorem exists_stream {Q : SubscriptionMessage α → Prop} (hQ : Q .resync) (h : ∃ m ∈ s.queue, Q m)
    (ops : List (InboxOp α)) : ∃ m ∈ s.popped ops ++ (s.run ops).queue, Q m := by
  induction ops generalizing s with
  | nil => simpa [popped, run] using h
  | cons op rest ih =>
    obtain ⟨m, hm, hQm⟩ : ∃ m ∈ s.taken op ++ (s.step op).queue, Q m := by
      obtain ⟨m, hm, hQm⟩ := h
      cases s.step_moved op with
      | same stream => exact ⟨m, stream ▸ hm, hQm⟩
      | pushed _ _ _ _ _ stream | ended _ _ _ stream => exact ⟨m, stream ▸ mem_append_left _ hm, hQm⟩
      | overflowed _ _ _ stream => exact ⟨.resync, stream ▸ mem_singleton_self _, hQ⟩
    rw [popped, run, append_assoc]
    rcases mem_append.mp hm with hm | hm
    · exact ⟨m, mem_append_left _ hm, hQm⟩
    · obtain ⟨m', hm', hQm'⟩ := ih ⟨m, hm, hQm⟩
      exact ⟨m', mem_append_right _ hm', hQm'⟩

theorem exists_pushed (hs : s.Sound) (ho : s.closed = false) (event : α) :
    ∃ m ∈ (s.step (.change event)).queue, m = .change event ∨ m = .resync := by
  show ∃ m ∈ (s.push (.change event)).queue, _
  rcases s.push_cases (.change event) with ⟨hc, -⟩ | ⟨-, -, heq⟩ | ⟨-, -, hp, heq⟩ | ⟨-, -, heq⟩
  · simp [ho] at hc
  · exact ⟨.change event, by simp [heq], .inl rfl⟩
  · exact ⟨.resync, by rw [heq]; exact hs hp, .inr rfl⟩
  · exact ⟨.resync, by simp [heq], .inr rfl⟩

/-- The events of the stream were pushed, in that order. -/
theorem events_stream (s : Inbox α) (ops : List (InboxOp α)) :
    ((s.popped ops ++ (s.run ops).queue).filterMap event?).Sublist
      (s.queue.filterMap event? ++ ops.filterMap InboxOp.event?) := by
  induction ops generalizing s with
  | nil => simp [popped, run]
  | cons op rest ih =>
    have hs : ((s.taken op ++ (s.step op).queue).filterMap event?).Sublist
        (s.queue.filterMap event? ++ [op].filterMap InboxOp.event?) := by
      cases s.step_moved op with
      | same stream => simp [stream]
      | pushed _ _ _ _ event stream => simp [stream, filterMap_append, filterMap_cons, event]
      | overflowed _ _ _ stream =>
        rw [stream]
        exact nil_sublist _
      | ended _ _ _ stream => simp [stream, filterMap_append, event?]
    have ho : (op :: rest).filterMap InboxOp.event? = [op].filterMap InboxOp.event? ++ rest.filterMap InboxOp.event? :=
      filterMap_append (l := [op])
    rw [filterMap_append] at hs
    rw [popped, run, append_assoc, filterMap_append, ho]
    refine ((ih (s.step op)).append_left _).trans ?_
    rw [← append_assoc, ← append_assoc]
    exact hs.append_right _

theorem stream_of_closed (h : s.closed) (ops : List (InboxOp α)) : s.popped ops ++ (s.run ops).queue = s.queue := by
  induction ops generalizing s with
  | nil => rfl
  | cons op rest ih =>
    rw [popped, run, append_assoc]
    cases s.step_moved op with
    | same stream flag => rw [ih (flag.trans h), stream]
    | pushed wasOpen | overflowed wasOpen | ended wasOpen => simp [h] at wasOpen

/-- The end of a stream is its last message, and there as soon as it was closed. -/
def EndsWith (ops : List (InboxOp α)) (stream : List (SubscriptionMessage α)) : Prop :=
  (.close ∉ ops ∧ .closed ∉ stream) ∨ (.close ∈ ops ∧ ∃ l, .closed ∉ l ∧ stream = l ++ [.closed])

theorem EndsWith.cons {stream taken : List (SubscriptionMessage α)} (h : EndsWith ops stream) (ho : op ≠ .close)
    (ht : .closed ∉ taken) : EndsWith (op :: ops) (taken ++ stream) := by
  rcases h with ⟨hc, hn⟩ | ⟨hc, l, hl, rfl⟩
  · exact .inl ⟨by simpa using ⟨ho.symm, hc⟩, by simpa using ⟨ht, hn⟩⟩
  · exact .inr ⟨.tail _ hc, taken ++ l, by simpa using ⟨ht, hl⟩, by rw [append_assoc]⟩

theorem stream_of_open (h : s.closed = false) (hq : .closed ∉ s.queue) (ops : List (InboxOp α)) :
    EndsWith ops (s.popped ops ++ (s.run ops).queue) := by
  induction ops generalizing s with
  | nil => exact .inl ⟨by simp, by simpa [popped, run] using hq⟩
  | cons op rest ih =>
    rw [popped, run, append_assoc]
    -- an operation that does not close leaves no end in the stream
    have hst (hop : op ≠ .close) (ho : (s.step op).closed = false)
        (hs : .closed ∉ s.taken op ++ (s.step op).queue) : EndsWith (op :: rest)
          (s.taken op ++ ((s.step op).popped rest ++ ((s.step op).run rest).queue)) := by
      rw [mem_append, not_or] at hs
      exact (ih ho hs.2).cons hop hs.1
    cases s.step_moved op with
    | same stream flag late =>
      refine hst (fun hop => ?_) (flag.trans h) (stream ▸ hq)
      exact absurd (late hop) (by simp [h])
    | pushed _ isOpen early kind _ stream =>
      refine hst early isOpen ?_
      rw [stream]
      simpa using ⟨hq, kind.symm⟩
    | overflowed _ isOpen early stream => exact hst early isOpen (by simp [stream])
    | ended _ isClosed now stream =>
      refine .inr ⟨now ▸ .head _, s.queue, hq, ?_⟩
      rw [stream_of_closed isClosed, stream]

theorem open_run (h : s.closed = false) (ho : .close ∉ ops) : (s.run ops).closed = false := by
  induction ops generalizing s with
  | nil => exact h
  | cons op rest ih =>
    rw [mem_cons, not_or] at ho
    refine ih ?_ ho.2
    cases s.step_moved op with
    | same _ flag => exact flag.trans h
    | pushed _ isOpen | overflowed _ isOpen => exact isOpen
    | ended _ _ now => exact absurd now.symm ho.1

end Inbox

/-- A queue of any depth and any operations on it. A change that was pushed before the
subscription was closed, or a resync, is taken out after it was pushed, at the latest when
the queue is empty. The changes taken out are some of those pushed, in their order. The
queue has its depth, at least one, and one more place for the end of the stream, which is
taken out once and last. -/
theorem inbox_delivers {α : Type} (maxQueue : Nat) (ops : List (InboxOp α)) :
    (∀ before event after, ops = before ++ .change event :: after → .close ∉ before →
      ((Inbox.new maxQueue).run ops).queue = [] →
      ∃ m ∈ ((Inbox.new maxQueue).run (before ++ [.change event])).popped after, m = .change event ∨ m = .resync) ∧
    (((Inbox.new maxQueue).popped ops).filterMap SubscriptionMessage.event?).Sublist (ops.filterMap InboxOp.event?) ∧
    ((Inbox.new maxQueue : Inbox α).run ops).queue.length ≤ max maxQueue 1 + 1 ∧
    (∃ l, .closed ∉ l ∧ ((Inbox.new maxQueue).popped ops = l ∨ (Inbox.new maxQueue).popped ops = l ++ [.closed])) ∧
    (.close ∈ ops → ((Inbox.new maxQueue).run ops).queue = [] →
      ∃ l, .closed ∉ l ∧ (Inbox.new maxQueue).popped ops = l ++ [.closed]) := by
  have hen := stream_of_open (s := new maxQueue) rfl (by simp [new]) ops
  refine ⟨?_, ?_, length_queue_run maxQueue ops, ?_, ?_⟩
  · rintro before event after rfl hb hd
    have hr : (new maxQueue).run (before ++ [.change event]) =
        ((new maxQueue).run before).step (.change event) := run_append _ _ _
    have hp := exists_pushed (sound_run maxQueue before) (open_run rfl hb) event
    rw [← hr] at hp
    have hs := exists_stream (.inr rfl) hp after
    rwa [← run_append, append_assoc, singleton_append, hd, append_nil] at hs
  · have he := events_stream (new maxQueue) ops
    rw [filterMap_append] at he
    exact (sublist_append_left _ _).trans he
  · rcases hen with ⟨-, hn⟩ | ⟨-, l, hl, heq⟩
    · exact ⟨_, fun h => hn (mem_append_left _ h), .inl rfl⟩
    rcases eq_nil_or_concat ((new maxQueue).run ops).queue with hq | ⟨q, m, hq⟩
    · rw [hq, append_nil] at heq
      exact ⟨l, hl, .inr heq⟩
    -- the end still waits
    rw [hq, concat_eq_append, ← append_assoc] at heq
    obtain ⟨rfl, -⟩ := append_inj' heq rfl
    exact ⟨_, fun h => hl (mem_append_left _ h), .inl rfl⟩
  · intro hc hd
    rcases hen with ⟨hnt, -⟩ | ⟨-, l, hl, heq⟩
    · exact absurd hc hnt
    · rw [hd, append_nil] at heq
      exact ⟨l, hl, heq⟩

/-- With no room at all, a change becomes a resync. -/
example : (Inbox.new 0).popped [.change 1, .change 2, .pop, .close, .pop] = [.resync, .closed] := by decide

end Zeroship.Cdc

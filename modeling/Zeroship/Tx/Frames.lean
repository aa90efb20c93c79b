import Mathlib

/-! The strict-LIFO frame stack, its monotonic savepoint names and the per-frame
effect buffers.

The stack is kept innermost frame first. What its private fields promise travels
with it: `Minted` says that every frame came from the sequence, newer frames above
older ones, and that a savepoint name is the name of its frame's own id. -/
namespace Zeroship.Tx
open List

structure FrameId where
  get : Nat
deriving DecidableEq

inductive FrameStatus
  | opening
  | «open»
  | rolledBack
deriving DecidableEq

/-- A change event queued by a write. -/
structure Effect where
  (collection payload : String)
deriving DecidableEq

structure Frame where
  id : FrameId
  /-- `none` for the root. -/
  savepoint : Option String
  status : FrameStatus
  effects : List Effect

def Frame.isRoot (f : Frame) : Bool := f.savepoint.isNone

inductive FrameError
  | savepointNotCurrent | savepointDepthExceeded | savepointRootCannotClose | noOpenFrame
deriving DecidableEq

/-- How a frame closed, which decides the fate of its effects. -/
inductive FrameClose
  | released | rolledBackTo
deriving DecidableEq

/-- The savepoint name of a frame: its id, never its depth. -/
def savepointName (id : FrameId) : String := "zs_sp_" ++ toString id.get

theorem savepoint_injective {a b : FrameId} (h : savepointName a = savepointName b) : a = b := by
  have hg : a.get = b.get := Nat.repr_injective ((String.append_right_inj _).mp h)
  cases a
  cases b
  exact congrArg FrameId.mk hg

/-- Frames that all came from one sequence: newer above older, each named by its own id. -/
structure Minted (frames : List Frame) (sequence : Nat) : Prop where
  descending : frames.Pairwise fun above below => below.id.get < above.id.get
  bounded : ∀ f ∈ frames, f.id.get ≤ sequence
  named : ∀ f ∈ frames, ∀ name, f.savepoint = some name → name = savepointName f.id

namespace Minted
variable {frames rest : List Frame} {top top' : Frame} {n : Nat}

theorem empty (n : Nat) : Minted [] n := ⟨.nil, by simp, by simp⟩

theorem pop (h : Minted (top :: rest) n) : Minted rest n :=
  ⟨h.descending.tail, fun f hf => h.bounded f (.tail _ hf), fun f hf => h.named f (.tail _ hf)⟩

theorem push (h : Minted frames n) (savepoint : Option String) (status : FrameStatus)
    (effects : List Effect) (hs : ∀ name, savepoint = some name → name = savepointName ⟨n + 1⟩) :
    Minted (⟨⟨n + 1⟩, savepoint, status, effects⟩ :: frames) (n + 1) := by
  refine ⟨h.descending.cons fun f hf => Nat.lt_succ_of_le (h.bounded f hf), ?_, ?_⟩
  · intro f hf
    rcases mem_cons.mp hf with rfl | hf
    · exact le_rfl
    · exact Nat.le_succ_of_le (h.bounded f hf)
  · intro f hf
    rcases mem_cons.mp hf with rfl | hf
    · exact hs
    · exact h.named f hf

/-- The top frame may change its status and its buffer. -/
theorem retop (h : Minted (top :: rest) n) (hid : top'.id = top.id)
    (hsp : top'.savepoint = top.savepoint) : Minted (top' :: rest) n := by
  refine ⟨?_, ?_, ?_⟩
  · refine h.descending.tail.cons fun f hf => ?_
    rw [hid]
    exact rel_of_pairwise_cons h.descending hf
  · intro f hf
    rcases mem_cons.mp hf with rfl | hf
    · rw [hid]
      exact h.bounded top (.head _)
    · exact h.bounded f (.tail _ hf)
  · intro f hf
    rcases mem_cons.mp hf with rfl | hf
    · rw [hid, hsp]
      exact h.named top (.head _)
    · exact h.named f (.tail _ hf)

theorem clear (h : Minted frames n) : Minted (frames.map fun f => {f with effects := []}) n := by
  refine ⟨pairwise_map.mpr h.descending, ?_, ?_⟩
  · intro g hg
    obtain ⟨f, hf, rfl⟩ := mem_map.mp hg
    exact h.bounded f hf
  · intro g hg
    obtain ⟨f, hf, rfl⟩ := mem_map.mp hg
    exact h.named f hf

end Minted

/-- The frame stack, innermost frame first. -/
structure FrameStack where
  frames : List Frame
  /-- Monotonic, never reset. -/
  nextSequence : Nat
  mintedNames : List String
  maxDepth : Nat
  minted : Minted frames nextSequence

namespace FrameStack

def new (maxDepth : Nat) : FrameStack := ⟨[], 0, [], maxDepth, .empty 0⟩

variable (s : FrameStack) (id : FrameId)

def depth : Nat := s.frames.length

/-- The innermost frame, the only one that may act. -/
def top : Option Frame := s.frames.head?

/-- The stack with other frames of the same sequence. -/
def withFrames (frames : List Frame) (h : Minted frames s.nextSequence) : FrameStack :=
  {s with frames, minted := h}

@[simp] theorem withFrames_frames (s : FrameStack) {frames : List Frame}
    (h : Minted frames s.nextSequence) : (s.withFrames frames h).frames = frames := rfl

/-- Create the root frame, on a confirmed `BEGIN`. -/
def openRoot : FrameStack × FrameId :=
  ({s with
      frames := ⟨⟨s.nextSequence + 1⟩, none, .open, []⟩ :: s.frames
      nextSequence := s.nextSequence + 1
      minted := s.minted.push none .open [] (by simp)},
    ⟨s.nextSequence + 1⟩)

/-- Insert a child as `opening` and mint its savepoint name. -/
def openChild : Except FrameError (FrameStack × FrameId × String) :=
  match s.frames with
  | [] => .error .noOpenFrame
  | top :: _ =>
    if top.status ≠ .open then .error .savepointNotCurrent
    else if s.frames.length > s.maxDepth then .error .savepointDepthExceeded
    else
      let id : FrameId := ⟨s.nextSequence + 1⟩
      let name := savepointName id
      .ok ({s with
          frames := ⟨id, some name, .opening, []⟩ :: s.frames
          nextSequence := s.nextSequence + 1
          mintedNames := s.mintedNames.insert name
          minted := s.minted.push (some name) .opening [] (by simp [name, id])}, id, name)

/-- Promote the top frame to `open` on a successful `SAVEPOINT`. -/
def confirmChildOpen : Except FrameError FrameStack :=
  match hs : s.frames with
  | [] => .error .noOpenFrame
  | top :: rest =>
    if top.id ≠ id then .error .savepointNotCurrent
    else .ok (s.withFrames ({top with status := .open} :: rest) ((hs ▸ s.minted).retop rfl rfl))

/-- Drop a child whose `SAVEPOINT` failed. -/
def abandonOpeningChild : Except FrameError FrameStack :=
  match hs : s.frames with
  | [] => .error .noOpenFrame
  | top :: rest =>
    if top.id ≠ id ∨ top.isRoot then .error .savepointNotCurrent
    else .ok (s.withFrames rest (hs ▸ s.minted).pop)

/-- Mark the top frame rolled back, without popping it. -/
def markRolledBack : Except FrameError FrameStack :=
  match hs : s.frames with
  | [] => .error .noOpenFrame
  | top :: rest =>
    if top.id ≠ id then .error .savepointNotCurrent
    else if top.isRoot then .error .savepointRootCannotClose
    else .ok (s.withFrames ({top with effects := [], status := .rolledBack} :: rest)
      ((hs ▸ s.minted).retop rfl rfl))

def queueEffect (effect : Effect) : Except FrameError FrameStack :=
  match hs : s.frames with
  | [] => .error .noOpenFrame
  | top :: rest =>
    if top.status ≠ .open then .error .savepointNotCurrent
    else .ok (s.withFrames ({top with effects := top.effects ++ [effect]} :: rest)
      ((hs ▸ s.minted).retop rfl rfl))

/-- Close the top frame, applying the fate of `close` to its effects. `none` is the
panic of a released child without a parent. -/
def closeTop (close : FrameClose) :
    Option (Except FrameError (FrameStack × FrameId)) :=
  match hs : s.frames with
  | [] => some (.error .noOpenFrame)
  | top :: rest =>
    if top.id ≠ id then some (.error .savepointNotCurrent)
    else if top.isRoot then some (.error .savepointRootCannotClose)
    else match close with
      | .released =>
        match rest with
        | [] => none
        | parent :: below =>
          some (.ok (s.withFrames ({parent with effects := parent.effects ++ top.effects} :: below)
            ((hs ▸ s.minted).pop.retop rfl rfl), top.id))
      | .rolledBackTo => some (.ok (s.withFrames rest (hs ▸ s.minted).pop, top.id))

def retainedEffects : List Effect := s.frames.reverse.flatMap Frame.effects

def discardAllEffects : FrameStack :=
  s.withFrames (s.frames.map fun f => {f with effects := []}) s.minted.clear

/-- Detach every retained effect for publication, outermost frame first. -/
def takeEffectsForConfirmedCommit : FrameStack × List Effect :=
  (s.withFrames (s.frames.map fun f => {f with effects := []}) s.minted.clear, s.retainedEffects)

@[simp] theorem retained_discardAll (s : FrameStack) : s.discardAllEffects.retainedEffects = [] := by
  simp [retainedEffects, discardAllEffects]

/-! ### When an operation succeeds, and with what -/

section
variable {s s' : FrameStack} {id : FrameId}

theorem openChild_ok {name : String} (h : s.openChild = .ok (s', id, name)) :
    (∃ top rest, s.frames = top :: rest ∧ top.status = .open) ∧ s.frames.length ≤ s.maxDepth ∧
      id = ⟨s.nextSequence + 1⟩ ∧ name = savepointName id ∧ s'.frames = ⟨id, some name, .opening, []⟩ :: s.frames ∧
      s'.nextSequence = s.nextSequence + 1 ∧ s'.maxDepth = s.maxDepth := by
  unfold openChild at h
  split at h
  · simp at h
  rename_i top rest hs
  split at h
  · simp at h
  rename_i ho
  split at h
  · simp at h
  rename_i hd
  simp only [Except.ok.injEq, Prod.mk.injEq] at h
  obtain ⟨rfl, rfl, rfl⟩ := h
  exact ⟨⟨top, rest, hs, not_not.mp ho⟩, not_lt.mp hd, rfl, rfl, rfl, rfl, rfl⟩

/-- `s'` is `s` with these frames. -/
def Becomes (s s' : FrameStack) (frames : List Frame) : Prop := ∃ h, s' = s.withFrames frames h

theorem withFrames_eq {frames : List Frame} {h : Minted frames s.nextSequence} :
    s.withFrames frames h = s' ↔ s.Becomes s' frames :=
  ⟨fun e => ⟨h, e.symm⟩, fun ⟨_, e⟩ => e.symm⟩

theorem Becomes.frames {frames : List Frame} (h : s.Becomes s' frames) : s'.frames = frames := by
  obtain ⟨_, rfl⟩ := h
  rfl

theorem Becomes.nextSequence {frames : List Frame} (h : s.Becomes s' frames) : s'.nextSequence = s.nextSequence := by
  obtain ⟨_, rfl⟩ := h
  rfl

theorem Becomes.maxDepth {frames : List Frame} (h : s.Becomes s' frames) : s'.maxDepth = s.maxDepth := by
  obtain ⟨_, rfl⟩ := h
  rfl

theorem confirmChildOpen_ok : s.confirmChildOpen id = .ok s' ↔ ∃ top rest,
    s.frames = top :: rest ∧ top.id = id ∧ s.Becomes s' ({top with status := .open} :: rest) := by
  unfold confirmChildOpen
  split
  · simp_all
  · split <;> simp_all [withFrames_eq]

theorem abandonOpeningChild_ok : s.abandonOpeningChild id = .ok s' ↔ ∃ top rest,
    s.frames = top :: rest ∧ top.id = id ∧ top.isRoot = false ∧ s.Becomes s' rest := by
  unfold abandonOpeningChild
  split
  · simp_all
  split
  · rename_i hs hr
    rcases hr with h | h <;> simp_all
  · simp_all [withFrames_eq]

theorem markRolledBack_ok : s.markRolledBack id = .ok s' ↔ ∃ top rest,
    s.frames = top :: rest ∧ top.id = id ∧ top.isRoot = false ∧
      s.Becomes s' ({top with effects := [], status := .rolledBack} :: rest) := by
  unfold markRolledBack
  split
  · simp_all
  · split
    · simp_all
    · split <;> simp_all [withFrames_eq]

theorem queueEffect_ok {effect : Effect} : s.queueEffect effect = .ok s' ↔ ∃ top rest,
    s.frames = top :: rest ∧ top.status = .open ∧
      s.Becomes s' ({top with effects := top.effects ++ [effect]} :: rest) := by
  unfold queueEffect
  split
  · simp_all
  · split <;> simp_all [withFrames_eq]

theorem closeTop_released {closed : FrameId} : s.closeTop id .released = some (.ok (s', closed)) ↔
    ∃ top parent below, s.frames = top :: parent :: below ∧ top.id = id ∧ top.isRoot = false ∧ id = closed ∧
      s.Becomes s' ({parent with effects := parent.effects ++ top.effects} :: below) := by
  unfold closeTop
  split
  · simp_all
  split
  · simp_all
  split
  · simp_all
  · rename_i top rest hs _ _
    cases rest <;> simp_all [withFrames_eq, and_comm]

theorem closeTop_rolledBackTo {closed : FrameId} : s.closeTop id .rolledBackTo = some (.ok (s', closed)) ↔
    ∃ top rest, s.frames = top :: rest ∧ top.id = id ∧ top.isRoot = false ∧ id = closed ∧ s.Becomes s' rest := by
  unfold closeTop
  split
  · simp_all
  split
  · simp_all
  · split
    · simp_all
    · simp_all [withFrames_eq, and_comm]

section
variable {top : Frame} {rest : List Frame}

/-- The three operations whose refusal is dropped, on the frame that is on top. -/
theorem confirmChildOpen_top (hf : s.frames = top :: rest) (hid : top.id = id) :
    ((s.confirmChildOpen id).toOption.getD s).frames = {top with status := .open} :: rest := by
  rw [confirmChildOpen_ok.mpr ⟨top, rest, hf, hid, (hf ▸ s.minted : Minted (top :: rest) _).retop rfl rfl, rfl⟩]
  rfl

theorem abandon_top (hf : s.frames = top :: rest) (hid : top.id = id) (hr : top.isRoot = false) :
    ((s.abandonOpeningChild id).toOption.getD s).frames = rest := by
  rw [abandonOpeningChild_ok.mpr ⟨top, rest, hf, hid, hr, (hf ▸ s.minted : Minted (top :: rest) _).pop, rfl⟩]
  rfl

theorem markRolledBack_top (hf : s.frames = top :: rest) (hid : top.id = id) (hr : top.isRoot = false) :
    ((s.markRolledBack id).toOption.getD s).frames = {top with effects := [], status := .rolledBack} :: rest := by
  rw [markRolledBack_ok.mpr
    ⟨top, rest, hf, hid, hr, (hf ▸ s.minted : Minted (top :: rest) _).retop rfl rfl, rfl⟩]
  rfl

end

/-- An operation whose refusal is dropped leaves the stack it was given, or a new one. -/
theorem getD_cases (P : FrameStack → Prop) {x : Except FrameError FrameStack} (hs : P s)
    (hx : ∀ s', x = .ok s' → P s') : P (x.toOption.getD s) := by
  cases x with
  | ok s' => exact hx s' rfl
  | error _ => exact hs

end

end FrameStack

/-- A stack of children over the one root frame. -/
def Rooted : List Frame → Prop
  | [] => False
  | [root] => root.savepoint = none
  | child :: parent :: rest => child.savepoint ≠ none ∧ Rooted (parent :: rest)

namespace Rooted
variable {frames rest : List Frame} {top top' : Frame}

theorem push (h : Rooted frames) (ht : top.savepoint ≠ none) : Rooted (top :: frames) := by
  cases frames with
  | nil => exact h.elim
  | cons parent rest => exact ⟨ht, h⟩

theorem pop (h : Rooted (top :: rest)) (ht : top.isRoot = false) : Rooted rest := by
  cases rest with
  | nil => simp_all [Rooted, Frame.isRoot]
  | cons parent rest => exact h.2

theorem retop (h : Rooted (top :: rest)) (ht : top'.savepoint = top.savepoint) : Rooted (top' :: rest) := by
  cases rest with
  | nil => exact ht.trans h
  | cons parent rest => exact ⟨ht ▸ h.1, h.2⟩

theorem clear (h : Rooted frames) : Rooted (frames.map fun f => {f with effects := []}) := by
  induction frames with
  | nil => exact h
  | cons top rest ih =>
    cases rest with
    | nil => exact h
    | cons parent rest => exact ⟨h.1, ih h.2⟩

theorem top_eq_some {s : FrameStack} (h : Rooted s.frames) : ∃ top, s.top = some top := by
  unfold FrameStack.top
  cases hs : s.frames with
  | nil => exact (hs ▸ h : Rooted []).elim
  | cons top rest => exact ⟨top, rfl⟩

end Rooted

namespace FrameStack
variable {s s' : FrameStack} {id closed : FrameId}

theorem rooted_openRoot (h : s.frames = []) : Rooted s.openRoot.1.frames := by
  simp [openRoot, h, Rooted]

section
variable (h : Rooted s.frames)
include h

theorem rooted_openChild {name : String} (ho : s.openChild = .ok (s', id, name)) : Rooted s'.frames := by
  obtain ⟨-, -, -, -, hf, -, -⟩ := openChild_ok ho
  rw [hf]
  exact h.push (by simp)

theorem rooted_confirmChildOpen : Rooted ((s.confirmChildOpen id).toOption.getD s).frames :=
  getD_cases (fun s => Rooted s.frames) h fun s' hs => by
    obtain ⟨top, rest, hf, -, hb⟩ := confirmChildOpen_ok.mp hs
    rw [hf] at h
    rw [hb.frames]
    exact h.retop rfl

theorem rooted_abandon : Rooted ((s.abandonOpeningChild id).toOption.getD s).frames :=
  getD_cases (fun s => Rooted s.frames) h fun s' hs => by
    obtain ⟨top, rest, hf, -, hr, hb⟩ := abandonOpeningChild_ok.mp hs
    rw [hf] at h
    rw [hb.frames]
    exact h.pop hr

theorem rooted_markRolledBack : Rooted ((s.markRolledBack id).toOption.getD s).frames :=
  getD_cases (fun s => Rooted s.frames) h fun s' hs => by
    obtain ⟨top, rest, hf, -, -, hb⟩ := markRolledBack_ok.mp hs
    rw [hf] at h
    rw [hb.frames]
    exact h.retop rfl

theorem rooted_queueEffect {effect : Effect} (hq : s.queueEffect effect = .ok s') : Rooted s'.frames := by
  obtain ⟨top, rest, hf, -, hb⟩ := queueEffect_ok.mp hq
  rw [hf] at h
  rw [hb.frames]
  exact h.retop rfl

theorem rooted_closeTop {close : FrameClose}
    (hc : s.closeTop id close = some (.ok (s', closed))) : Rooted s'.frames := by
  cases close with
  | released =>
    obtain ⟨top, parent, below, hf, -, hr, -, hb⟩ := closeTop_released.mp hc
    rw [hf] at h
    rw [hb.frames]
    exact (h.pop hr).retop rfl
  | rolledBackTo =>
    obtain ⟨top, rest, hf, -, hr, -, hb⟩ := closeTop_rolledBackTo.mp hc
    rw [hf] at h
    rw [hb.frames]
    exact h.pop hr

end

end FrameStack

end Zeroship.Tx

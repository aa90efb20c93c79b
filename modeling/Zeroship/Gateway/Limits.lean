import Mathlib

/-! Rate limits of resources.

A bucket starts full and is refilled by the second. Of the threads that loaded a word one swaps
it, and its word does not come back. A limit by the minute is served by the second, rounded up,
and only if none by the second is declared; and a bucket keeps the limit it was made with. -/
namespace Zeroship.Gateway
open List Function

structure RateLimit where
  (rps rpm : Option Nat)

/-- The rate and the burst. -/
def resolveRate (rl : RateLimit) : Option (Nat × Nat) :=
  match rl.rps, rl.rpm with
  | some rps, _ => if rps = 0 then none else some (rps, rps)
  | none, some rpm => if rpm = 0 then none else some ((rpm + 59) / 60, (rpm + 59) / 60)
  | none, none => none

/-- The first two are one word, with 32 bits for each. -/
structure TokenBucket where
  (tokens last capacity refillRate : Nat)
deriving DecidableEq

namespace TokenBucket

def new (rate burst now : Nat) : TokenBucket := ⟨burst * 1000 % 2 ^ 32, now, burst * 1000, rate * 1000⟩

def refilled (b : TokenBucket) (now : Nat) : Nat :=
  min ((b.tokens + (now - b.last) * b.refillRate) % 2 ^ 64) b.capacity

/-- What a request swaps in, if there are tokens enough. -/
def tryAcquireN (b : TokenBucket) (n now : Nat) : Option TokenBucket :=
  let cost := min (max n 1 * 1000) b.capacity
  if b.refilled now < cost then none else some {b with tokens := (b.refilled now - cost) % 2 ^ 32, last := now}

end TokenBucket

/-- The buckets, what a thread has loaded and the time it read, and when requests were admitted. -/
structure Buckets (Key Thread : Type) where
  buckets : Key → Option TokenBucket
  held : Thread → Option (Key × TokenBucket × Nat)
  clock : Nat
  admitted : Key → List Nat

/-- A turn of the loop loads the word and reads the clock, and then swaps. -/
inductive Access (Key Thread : Type)
  | tick (seconds : Nat)
  | load (thread : Thread) (key : Key) (rl : RateLimit)
  | swap (thread : Thread)

namespace Buckets
variable {Key Thread : Type} [DecidableEq Key] [DecidableEq Thread] (g : Buckets Key Thread)

def accept (key : Key) : Buckets Key Thread := {g with admitted := update g.admitted key (g.clock :: g.admitted key)}

def put (key : Key) (b : TokenBucket) : Buckets Key Thread := {g with buckets := update g.buckets key (some b)}

def getOrCreate (key : Key) (rate burst : Nat) : TokenBucket := (g.buckets key).getD (.new rate burst g.clock)

def step : Access Key Thread → Buckets Key Thread
  | .tick seconds => {g with clock := g.clock + seconds}
  | .load thread key rl =>
    match resolveRate rl with
    | none => g.accept key
    | some (rate, burst) =>
      let b := g.getOrCreate key rate burst
      {g.put key b with held := update g.held thread (some (key, b, g.clock))}
  | .swap thread =>
    match g.held thread with
    | none => g
    | some (key, b, now) =>
      let g := {g with held := update g.held thread none}
      match b.tryAcquireN 1 now with
      | none => g
      | some b' => if g.buckets key = some b then (g.put key b').accept key else g

def run (clock : Nat) (accesses : List (Access Key Thread)) : Buckets Key Thread :=
  accesses.foldl step ⟨fun _ => none, fun _ => none, clock, fun _ => []⟩

/-- How many requests are admitted in the `d` seconds from `t` on. -/
def count (key : Key) (t d : Nat) : Nat := (g.admitted key).countP fun a => t ≤ a ∧ a ≤ t + d

end Buckets

/-- Both limits, with the one by the minute times 60. -/
def RateLimit.Allows (rl : RateLimit) (d n : Nat) : Prop :=
  (∀ r, rl.rps = some r → 0 < r → n ≤ r * (d + 2)) ∧ ∀ m, rl.rpm = some m → 0 < m → 60 * n ≤ m * (d + 120)

/-- A limit by the minute is whole by the second, or no less than the one by the second. -/
def RateLimit.Whole (rl : RateLimit) : Prop := ∀ m, rl.rpm = some m → 0 < m →
  match rl.rps with
  | none => 60 ∣ m
  | some r => 0 < r ∧ 60 * r ≤ m

section
variable {Key Thread : Type} {g g' : Buckets Key Thread} {key : Key} {b b' : TokenBucket} {r t d n : Nat}

/-- What a swap leaves is later, or has fewer tokens: no word comes back. -/
def TokenBucket.Before (b c : TokenBucket) : Prop := b.last < c.last ∨ b.last = c.last ∧ c.tokens < b.tokens

def TokenBucket.Serves (r : Nat) (b : TokenBucket) : Prop := b.capacity = r * 1000 ∧ b.refillRate = r * 1000

theorem TokenBucket.Serves.acquired (hb : b.Serves r) (hr : 0 < r) (h : b.tryAcquireN 1 n = some b') :
    b'.Serves r ∧ b'.last = n ∧ b'.tokens + 1000 ≤ r * 1000 ∧
      b'.tokens + 1000 ≤ b.tokens + (n - b.last) * (r * 1000) := by
  obtain ⟨hc, hf⟩ := hb
  simp only [tryAcquireN] at h
  split at h
  · cases h
  · next hn =>
    cases h
    have hm := Nat.mod_le (b.refilled n - min (max 1 1 * 1000) b.capacity) (2 ^ 32)
    have hw := Nat.mod_le (b.tokens + (n - b.last) * b.refillRate) (2 ^ 64)
    refine ⟨⟨hc, hf⟩, rfl, ?_⟩
    unfold refilled at hn hm ⊢
    rw [hc, hf] at *
    dsimp only
    omega

/-- What `t` to `t + d` admits has been taken from a full bucket and what came in since `t`,
but for one request that had read the clock before `t`: the others read it after a swap. -/
structure Buckets.Kept (r t d : Nat) (key : Key) (g : Buckets Key Thread) : Prop where
  bucket : ∀ c, g.buckets key = some c → c.Serves r ∧ c.last ≤ g.clock
  past : ∀ a ∈ g.admitted key, a ≤ g.clock
  held : ∀ thread b now, g.held thread = some (key, b, now) → b.last ≤ now ∧ now ≤ g.clock ∧
    ∃ c, g.buckets key = some c ∧ (b.Before c ∨ b = c ∧ ∀ a ∈ g.admitted key, a ≤ now)
  spent : g.count key t d ≤ 1 ∨ ∃ c, g.buckets key = some c ∧ t ≤ c.last ∧
    1000 * g.count key t d + c.tokens ≤ (c.last - t + 1) * (r * 1000) + 1000
  bound : g.count key t d ≤ (d + 1) * r + 1

namespace Buckets.Kept

theorem frame (h : g.Kept r t d key) (hb : g'.buckets key = g.buckets key) (ha : g'.admitted key = g.admitted key)
    (hc : g.clock ≤ g'.clock)
    (hh : ∀ thread b now, g'.held thread = some (key, b, now) → g.held thread = some (key, b, now)) :
    g'.Kept r t d key := by
  have hn : g'.count key t d = g.count key t d := by rw [count, count, ha]
  refine ⟨fun c hk => ?_, fun a hm => (h.past a (ha ▸ hm)).trans hc, fun thread b now hg => ?_, ?_, hn ▸ h.bound⟩
  · obtain ⟨hs, hl⟩ := h.bucket c (hb ▸ hk)
    exact ⟨hs, hl.trans hc⟩
  · obtain ⟨hl, hle, hs⟩ := h.held thread b now (hh thread b now hg)
    rw [hb, ha]
    exact ⟨hl, hle.trans hc, hs⟩
  · rw [hn, hb]
    exact h.spent

variable [DecidableEq Key] [DecidableEq Thread] {thread : Thread}

theorem of_load (h : g.Kept r t d key) : {g.put key (g.getOrCreate key r r) with
      held := update g.held thread (some (key, g.getOrCreate key r r, g.clock))}.Kept r t d key := by
  have hp (c) (hg : g.buckets key = some c) : update g.buckets key (some (g.getOrCreate key r r)) key = some c := by
    simp [getOrCreate, hg]
  have hb : (g.getOrCreate key r r).Serves r ∧ (g.getOrCreate key r r).last ≤ g.clock := by
    unfold getOrCreate
    cases hg : g.buckets key with
    | none => exact ⟨⟨rfl, rfl⟩, le_rfl⟩
    | some c => exact h.bucket c hg
  refine ⟨by simpa [put] using hb, h.past, fun u b now hu => ?_, ?_, h.bound⟩
  · by_cases hut : u = thread
    · simp only [hut, update_self, Option.some.injEq, Prod.mk.injEq] at hu
      obtain ⟨-, rfl, rfl⟩ := hu
      exact ⟨hb.2, le_rfl, _, update_self .., .inr ⟨rfl, h.past⟩⟩
    · obtain ⟨hl, hle, c, hg, hs⟩ := h.held u b now (by simpa [hut] using hu)
      exact ⟨hl, hle, c, hp c hg, hs⟩
  · exact h.spent.imp_right fun ⟨c, hg, hs⟩ => ⟨c, hp c hg, hs⟩

theorem of_swap (h : g.Kept r t d key) (hr : 0 < r) (hg : g.held thread = some (key, b, n))
    (hk : g.buckets key = some b) (hq : b.tryAcquireN 1 n = some b') :
    (({g with held := update g.held thread none}.put key b').accept key).Kept r t d key := by
  obtain ⟨hl, hle, c, hc, hbc⟩ := h.held thread b n hg
  cases hk.symm.trans hc
  have ha : ∀ a ∈ g.admitted key, a ≤ n := (hbc.resolve_left (by unfold TokenBucket.Before; omega)).2
  obtain ⟨hs, rfl, hcap, hf⟩ := (h.bucket b hk).1.acquired hr hq
  have hlt : b.Before b' := by
    rcases hl.eq_or_lt with heq | hlt
    · rw [heq, Nat.sub_self] at hf
      exact .inr ⟨heq, by omega⟩
    · exact .inl hlt
  have hct : (({g with held := update g.held thread none}.put key b').accept key).count key t d =
      g.count key t d + if t ≤ g.clock ∧ g.clock ≤ t + d then 1 else 0 := by
    simp [accept, put, count, countP_cons]
  have hsp : g.count key t d = 0 ∨ t ≤ b'.last ∧
      1000 * (g.count key t d + 1) + b'.tokens ≤ (b'.last - t + 1) * (r * 1000) + 1000 := by
    refine or_iff_not_imp_left.mpr fun h0 => ?_
    obtain ⟨a, hm, ht⟩ := countP_pos_iff.mp (Nat.pos_of_ne_zero h0)
    have ht : t ≤ b'.last := (of_decide_eq_true ht).1.trans (ha a hm)
    refine ⟨ht, ?_⟩
    rcases h.spent with h1 | ⟨c, hg, htc, hsp⟩
    · have : r * 1000 ≤ (b'.last - t + 1) * (r * 1000) := Nat.le_mul_of_pos_left _ (Nat.succ_pos _)
      omega
    · cases hk.symm.trans hg
      rw [show b'.last - t + 1 = b.last - t + 1 + (b'.last - b.last) by omega, Nat.add_mul]
      omega
  refine ⟨by simpa [accept, put] using ⟨hs, hle⟩, by simpa [accept, put] using h.past, fun u x now hu => ?_, ?_, ?_⟩
  · have hne : u ≠ thread := by
      rintro rfl
      simp [accept, put] at hu
    obtain ⟨hl, hle, c, hc, hx⟩ := h.held u x now (by simpa [accept, put, hne] using hu)
    cases hk.symm.trans hc
    refine ⟨hl, hle, b', update_self .., .inl ?_⟩
    rcases hx with hx | ⟨rfl, -⟩
    · unfold TokenBucket.Before at *
      omega
    · exact hlt
  · rw [hct]
    rcases hsp with h0 | ⟨ht, hsp⟩
    · left
      split_ifs <;> omega
    · refine .inr ⟨b', update_self .., ht, ?_⟩
      split_ifs <;> omega
  · rw [hct]
    split_ifs with hin
    · rcases hsp with h0 | ⟨ht, hsp⟩
      · omega
      · have := Nat.mul_le_mul_right (r * 1000) (show b'.last - t + 1 ≤ d + 1 by omega)
        rw [← Nat.mul_assoc (d + 1)] at this
        omega
    · exact h.bound

/-- A step keeps what holds of the key, if the limit it declares there is `r`. -/
theorem of_step (h : g.Kept r t d key) (hr : 0 < r) {e : Access Key Thread}
    (hd : ∀ thread rl, e = .load thread key rl → resolveRate rl = some (r, r)) : (g.step e).Kept r t d key := by
  have hu {k : Key} {β : Type} (f : Key → β) (v : β) (hk : k ≠ key) : update f k v key = f key :=
    update_of_ne hk.symm ..
  cases e with
  | tick seconds => exact h.frame rfl rfl (Nat.le_add_right ..) fun _ _ _ => id
  | load thread k rl =>
    by_cases hk : k = key
    · subst hk
      simp only [step, hd thread rl rfl]
      exact h.of_load
    · simp only [step]
      split
      · exact h.frame rfl (hu _ _ hk) le_rfl fun _ _ _ => id
      · refine h.frame (hu _ _ hk) rfl le_rfl fun u b now hg => ?_
        by_cases hut : u = thread
        · simp [hut, hk] at hg
        · simpa [hut] using hg
  | swap thread =>
    have hdr : ∀ u b now, update g.held thread none u = some (key, b, now) → g.held u = some (key, b, now) := by
      intro u b now hg
      by_cases hut : u = thread
      · simp [hut] at hg
      · simpa [hut] using hg
    simp only [step]
    split
    · exact h
    · next k b now hg =>
      split
      · exact h.frame rfl rfl le_rfl hdr
      · next hq =>
        split_ifs with hc
        · by_cases hk : k = key
          · subst hk
            exact h.of_swap hr hg hc hq
          · exact h.frame (hu _ _ hk) (hu _ _ hk) le_rfl hdr
        · exact h.frame rfl rfl le_rfl hdr

end Buckets.Kept

/-- With a limit that is whole, and that every call of the bucket declared, no interval admits
more than is declared. -/
theorem limits_enforced [DecidableEq Key] [DecidableEq Thread] (clock : Nat) (accesses : List (Access Key Thread))
    (key : Key) (rl : RateLimit) (hw : rl.Whole) (hd : ∀ thread other, .load thread key other ∈ accesses → other = rl)
    (t d : Nat) : rl.Allows d ((Buckets.run clock accesses).count key t d) := by
  have hb {r : Nat} (hr : 0 < r) (h : resolveRate rl = some (r, r)) :
      (Buckets.run clock accesses).count key t d ≤ (d + 1) * r + 1 := by
    have hk : (Buckets.run clock accesses).Kept r t d key :=
      foldlRecOn _ _ ⟨by simp, by simp, by simp, by simp [Buckets.count], by simp [Buckets.count]⟩
        fun g hg e he => hg.of_step hr fun thread other heq => hd thread other (heq ▸ he) ▸ h
    exact hk.bound
  constructor
  · intro r hs hr
    have := hb hr (by simp [resolveRate, hs, hr.ne'])
    nlinarith
  · intro m hm h0
    obtain ⟨r, hr, hle, h⟩ : ∃ r, 0 < r ∧ 60 * r ≤ m ∧ resolveRate rl = some (r, r) := by
      have hw := hw m hm h0
      cases hs : rl.rps with
      | none =>
        rw [hs] at hw
        obtain ⟨r, rfl⟩ := hw
        refine ⟨r, by omega, le_rfl, ?_⟩
        simp [resolveRate, hs, hm]
        omega
      | some r =>
        rw [hs] at hw
        exact ⟨r, hw.1, hw.2, by simp [resolveRate, hs, hw.1.ne']⟩
    have := hb hr h
    nlinarith [Nat.mul_le_mul_left (d + 1) hle]

end

def request (rl : RateLimit) : List (Access Unit Unit) := [.load () () rl, .swap ()]

/-- Two threads that load the same word, one of which has to try again, and three more seconds. -/
def contended : List (Access Unit Bool) :=
  let load (thread : Bool) : Access Unit Bool := .load thread () ⟨some 2, some 120⟩
  [load false, load true, .swap false, .swap true, load true, .swap true, load false, .swap false, .tick 2] ++
    [load true, load false, .swap false, .swap true, load true, .swap true, .tick 1, load true, .swap true]

theorem contended_within_limits : (Buckets.run 0 contended).count () 0 3 = 5 ∧ RateLimit.Allows ⟨some 2, some 120⟩ 3 5 :=
  ⟨rfl, limits_enforced 0 contended () ⟨some 2, some 120⟩ (by simp [RateLimit.Whole]) (by simp [contended]) 0 3⟩

/-- One request a minute is served as one a second; and after a deploy, one a second as three. -/
theorem declared_limits_exceeded :
    (Buckets.run 0 (request ⟨none, some 1⟩ ++ .tick 1 :: request ⟨none, some 1⟩ ++ .tick 1 ::
      request ⟨none, some 1⟩)).count () 0 2 = 3 ∧ ¬ RateLimit.Allows ⟨none, some 1⟩ 2 3 ∧
    (Buckets.run 0 (request ⟨some 3, none⟩ ++ .tick 1 :: (replicate 3 (request ⟨some 1, none⟩)).flatten)).count
      () 1 0 = 3 ∧ ¬ RateLimit.Allows ⟨some 1, none⟩ 0 3 := by
  refine ⟨rfl, ?_, rfl, ?_⟩ <;> simp [RateLimit.Allows]

end Zeroship.Gateway

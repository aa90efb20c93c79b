import Zeroship.Bundle.Paths

/-! Which resource a request path belongs to.

A path is brought into its canonical form first. A literal key is found by its spelling, so one
that is not canonical is never found. The patterns are tried in an order: more literal segments
first, then the longer key, then by text. The length of a key says nothing about what it matches:
a catch-all with a long name comes before a capture with a short one. -/
namespace Zeroship.Bundle
open List

inductive GlobSegment where
  | literal (text : Text)
  | singleCapture | catchAll | star

/-- A catch-all before the end becomes a literal. -/
def compileSegments : List Text → List GlobSegment
  | [] => []
  | seg :: rest =>
    (if isCatchAll seg then if rest = [] then .catchAll else .literal seg
      else if seg.head? = some '[' ∧ seg.getLast? = some ']' then .singleCapture
      else if seg = ['*'] then .star
      else .literal seg) :: compileSegments rest

variable (keys : List Text) (key : Text)

def compileGlob : List GlobSegment := compileSegments (segments key)

def matchGlobSimple : List GlobSegment → List Text → Bool
  | [], segs => segs = []
  | .catchAll :: _, _ => true
  | _ :: _, [] => false
  | .literal text :: glob, x :: segs => text = x && matchGlobSimple glob segs
  | _ :: glob, x :: segs => x ≠ [] && matchGlobSimple glob segs

def isLiteralSegment (s : Text) : Bool := s ≠ [] && '[' ∉ s && '*' ∉ s

def countLiteralSegments : Nat := (segments key).countP isLiteralSegment

def isGlobPath : Bool := '[' ∈ key || '*' ∈ key

/-- A URL key and a path that it covers. -/
def covers (path : Text) : Bool :=
  if isGlobPath key then matchGlobSimple (compileGlob key) (segments path) else key = path

/-- The order in which patterns are tried. -/
def rank : ℕᵒᵈ ×ₗ ℕᵒᵈ ×ₗ Text :=
  toLex (.toDual (countLiteralSegments key), toLex (.toDual (key.map Char.utf8Size).sum, key))

instance : DecidableRel fun a b : Text => rank a ≤ rank b := fun a b => inferInstanceAs (Decidable (rank a ≤ rank b))

def literalKeys : List Text := keys.filter fun k => k.head? = some '/' && !isGlobPath k

def globKeys : List Text := keys.filter fun k => k.head? = some '/' && isGlobPath k

def findRef (path : Text) : Option Text :=
  if path ∈ literalKeys keys then some path
  else ((globKeys keys).insertionSort fun a b => rank a ≤ rank b).find? (covers · path)

/-- The RPC id of a path. -/
def rpcPath? (path : Text) : Option Text := ("/__zeroship/v1/".toList).isPrefixOf? path

def lookupCanonicalResourceKey (canonical : Text) : Option Text :=
  match rpcPath? canonical with
  | some rest => keys.find? (· = "rpc:".toList ++ rest)
  | none => findRef keys canonical

def lookupResourceKey (path : Text) : Option Text :=
  lookupCanonicalResourceKey keys (canonicalizePath path)

/-- The canonical paths that a key covers. -/
def reach : Set Text := {path | canonicalizePath path = path ∧ covers key path = true}

/-- Segment by segment, does the second pattern leave open what the first does? -/
def within : List GlobSegment → List GlobSegment → Bool
  | _, .catchAll :: _ => true
  | [], [] => true
  | .literal s :: a, .literal t :: b => s = t && within a b
  | .literal s :: a, _ :: b => s ≠ [] && within a b
  | .singleCapture :: a, .singleCapture :: b | .singleCapture :: a, .star :: b
  | .star :: a, .singleCapture :: b | .star :: a, .star :: b => within a b
  | _, _ => false

/-- A pattern that asks for more than another somewhere and nowhere for less. -/
def narrower (other key : Text) : Bool :=
  within (compileGlob other) (compileGlob key) && !within (compileGlob key) (compileGlob other)

/-! ### What patterns reach -/

section
variable {a b : List GlobSegment} {segs : List Text} {key other path : Text}

theorem within_sound (h : within a b) (hm : matchGlobSimple a segs) : matchGlobSimple b segs := by
  fun_induction within a b generalizing segs <;> cases segs <;> simp_all [matchGlobSimple]

/-- A segment other than a given one. -/
def fresh (t : Text) : Text := if t = ['x'] then ['y'] else ['x']

theorem fresh_ne (t : Text) : t ≠ fresh t ∧ Clean (fresh t) ∧ fresh t ≠ [] := by
  have hc : ∀ c ∈ ['x', 'y'], Clean [c] := by
    intro c hc
    rcases mem_pair.mp hc with rfl | rfl <;> exact ⟨by simp, by decide +kernel, by decide +kernel⟩
  unfold fresh
  split
  · next h => exact ⟨by simp [h], hc 'y' (by simp), by simp⟩
  · next h => exact ⟨h, hc 'x' (by simp), by simp⟩

/-- Segments that one pattern matches and the other does not, as those of a canonical path. -/
structure Apart (a b : List GlobSegment) (segs : List Text) : Prop where
  clean : ∀ s ∈ segs, Clean s ∧ s ≠ []
  matched : matchGlobSimple a segs
  unmatched : matchGlobSimple b segs = false
  /-- The root has one segment, an empty one. -/
  root : segs = [] → matchGlobSimple a [[]] ∧ matchGlobSimple b [[]] = false

theorem Apart.cons {x y : GlobSegment} {s : Text} (h : Apart a b segs) (hs : Clean s ∧ s ≠ [])
    (ha : matchGlobSimple (x :: a) (s :: segs) = matchGlobSimple a segs)
    (hb : matchGlobSimple (y :: b) (s :: segs) = matchGlobSimple b segs) : Apart (x :: a) (y :: b) (s :: segs) :=
  ⟨forall_mem_cons.mpr ⟨hs, h.clean⟩, ha ▸ h.matched, hb ▸ h.unmatched, nofun⟩

/-- Of two patterns that match some segments, one that is not within the other is told apart from
it: by another segment where the other asks for a literal one, or by one more or none where the
other has no rest. -/
theorem exists_apart (h : within a b = false) (ha : matchGlobSimple a segs) (hb : matchGlobSimple b segs)
    (hclean : ∀ s ∈ segs, Clean s ∧ s ≠ []) : ∃ segs', Apart a b segs' := by
  fun_induction within a b generalizing segs
  case case1 | case2 => cases h
  case case9 a b hrest _ hll hlo _ _ _ _ =>
    obtain ⟨-, hx⟩ := fresh_ne []
    cases a with
    | nil => cases b <;> cases segs <;> simp_all [matchGlobSimple]
    | cons x a =>
      cases b with
      | nil =>
        obtain rfl : segs = [] := by simpa [matchGlobSimple] using hb
        cases x <;> simp [matchGlobSimple] at ha
        exact ⟨[fresh []], by simpa using hx, rfl, rfl, nofun⟩
      | cons y b =>
        cases y with
        | catchAll => exact absurd rfl (hrest b)
        | literal t =>
          obtain ⟨hne, ht⟩ := fresh_ne t
          cases x with
          | literal => exact (hll _ _ _ _ rfl rfl).elim
          | catchAll => exact ⟨[fresh t], by simpa using ht, rfl, by simp [matchGlobSimple, hne], nofun⟩
          | singleCapture | star =>
            cases segs with
            | nil => simp [matchGlobSimple] at ha
            | cons s segs =>
              refine ⟨fresh t :: segs, forall_mem_cons.mpr ⟨ht, (forall_mem_cons.mp hclean).2⟩, ?_, ?_, nofun⟩
              · simp_all [matchGlobSimple]
              · simp [matchGlobSimple, hne]
        | singleCapture | star =>
          cases x with
          | catchAll => exact ⟨[], by simp, rfl, rfl, fun _ => ⟨rfl, rfl⟩⟩
          | literal => exact (hlo _ _ _ _ rfl rfl).elim
          | singleCapture | star => simp_all
  case case4 head b hc hl ih =>
    cases segs with
    | nil => simp [matchGlobSimple] at ha
    | cons x segs =>
      obtain ⟨hx, hclean⟩ := forall_mem_cons.mp hclean
      have hy : ∀ segs, matchGlobSimple (head :: b) (x :: segs) = matchGlobSimple b segs := by
        cases head <;> simp_all [matchGlobSimple]
      obtain ⟨segs', hs⟩ := @ih segs (by simp_all [matchGlobSimple]) (by simp_all [matchGlobSimple])
        (hy segs ▸ hb) hclean
      exact ⟨x :: segs', hs.cons hx (by simp_all [matchGlobSimple]) (hy segs')⟩
  all_goals
    rename_i ih
    cases segs with
    | nil => simp [matchGlobSimple] at ha
    | cons x segs =>
      obtain ⟨hx, hclean⟩ := forall_mem_cons.mp hclean
      obtain ⟨segs', hs⟩ := @ih segs (by simp_all [matchGlobSimple]) (by simp_all [matchGlobSimple])
        (by simp_all [matchGlobSimple]) hclean
      exact ⟨x :: segs', hs.cons hx (by simp_all [matchGlobSimple]) (by simp_all [matchGlobSimple])⟩

theorem covers_render (hk : isGlobPath key) (h : ∀ s ∈ segs, Clean s ∧ s ≠ []) :
    covers key (render segs) = matchGlobSimple (compileGlob key) (if segs = [] then [[]] else segs) := by
  rw [covers, if_pos hk]
  split
  · next hs => rw [hs]; rfl
  · next hs => rw [segments_render hs h]

/-- The only pattern that covers the root is a catch-all. -/
theorem compileGlob_root (hk : isGlobPath key) (h : matchGlobSimple (compileGlob key) [[]]) :
    ∃ rest, compileGlob key = .catchAll :: rest := by
  unfold compileGlob segments at h ⊢
  cases hd : key.dropWhile (· = '/') with
  | nil =>
    have hs := dropWhile_eq_nil_iff.mp hd
    simp only [isGlobPath, Bool.or_eq_true, decide_eq_true_eq] at hk
    rcases hk with hk | hk <;> exact absurd (hs _ hk) (by decide)
  | cons c cs =>
    have hc : (c == '/') = false := by
      have := head_dropWhile_not (fun c : Char => decide (c = '/')) (by simp [hd] : key.dropWhile (· = '/') ≠ [])
      simpa [hd] using this
    obtain ⟨first, rest, hsp⟩ := exists_cons_of_ne_nil (splitOnP_ne_nil (· == '/') cs)
    rw [hd, splitOn, splitOnP_cons_eq_if_modifyHead, hc, hsp] at h
    rw [splitOn, splitOnP_cons_eq_if_modifyHead, hc, hsp]
    simp only [Bool.false_eq_true, if_false, modifyHead_cons, compileSegments] at h ⊢
    split_ifs at h ⊢ <;> simp [matchGlobSimple] at h ⊢

/-- For patterns that cover one path the inclusion of what they reach is read off their segments. -/
theorem reach_subset_iff (ho : isGlobPath other) (hk : isGlobPath key) (hco : covers other (canonicalizePath path))
    (hck : covers key (canonicalizePath path)) :
    reach other ⊆ reach key ↔ within (compileGlob other) (compileGlob key) := by
  have hcl : ∀ s ∈ kept ((pathSegments path).filter (· ≠ [])), Clean s ∧ s ≠ [] := fun s hs =>
    ⟨(mem_canonical hs).1, (mem_canonical hs).2.1⟩
  rw [canonicalizePath_eq, covers_render ho hcl] at hco
  rw [canonicalizePath_eq, covers_render hk hcl] at hck
  constructor
  · intro hsub
    by_contra hw
    split_ifs at hco hck with hroot
    · obtain ⟨rest, hr⟩ := compileGlob_root hk hck
      rw [hr] at hw
      exact hw (by rw [within])
    obtain ⟨segs, ha⟩ := exists_apart (Bool.eq_false_iff.mpr hw) hco hck hcl
    have hcn : canonicalizePath (render segs) = render segs := by
      rw [canonical_render fun s hs => (ha.clean s hs).1, filter_eq_self.mpr]
      exact fun s hs => decide_eq_true (ha.clean s hs).2
    have hm : covers other (render segs) ∧ covers key (render segs) = false := by
      rw [covers_render ho ha.clean, covers_render hk ha.clean]
      split
      · next hs => exact ha.root hs
      · exact ⟨ha.matched, ha.unmatched⟩
    have := (hsub ⟨hcn, hm.1⟩).2
    rw [hm.2] at this
    cases this
  · rintro hw p ⟨hcn, hcv⟩
    rw [covers, if_pos ho] at hcv
    exact ⟨hcn, by rw [covers, if_pos hk]; exact within_sound hw hcv⟩

theorem reach_ssubset_iff (ho : isGlobPath other) (hk : isGlobPath key) (hco : covers other (canonicalizePath path))
    (hck : covers key (canonicalizePath path)) : reach other ⊂ reach key ↔ narrower other key := by
  rw [Set.ssubset_def, reach_subset_iff ho hk hco hck, reach_subset_iff hk ho hck hco, narrower]
  simp

/-- A segment is kept as it is, or does not count as a literal one. -/
theorem compileSegments_cons (s : Text) (rest : List Text) : ∃ g, compileSegments (s :: rest) = g :: compileSegments rest ∧
    (g = .literal s ∨ isLiteralSegment s = false ∧ (g = .catchAll ∧ rest = [] ∨ g = .singleCapture ∨ g = .star)) := by
  have hb : ∀ {s : Text}, s.head? = some '[' → isLiteralSegment s = false := fun hs => by
    have := mem_of_mem_head? hs
    simp [isLiteralSegment, this]
  refine ⟨_, rfl, ?_⟩
  split_ifs with hc hr hs hst
  · refine .inr ⟨hb ?_, .inl ⟨rfl, hr⟩⟩
    obtain ⟨t, rfl⟩ := isPrefixOf_iff_prefix.mp (Bool.and_eq_true_iff.mp hc).1
    rfl
  · exact .inl rfl
  · exact .inr ⟨hb hs.1, .inr (.inl rfl)⟩
  · exact .inr ⟨by simp [isLiteralSegment, hst], .inr (.inr rfl)⟩
  · exact .inl rfl

/-- A pattern within another has no fewer literal segments. -/
theorem countLiteral_le {segs segs' : List Text} (h : within (compileSegments segs) (compileSegments segs')) :
    segs'.countP isLiteralSegment ≤ segs.countP isLiteralSegment := by
  induction segs' generalizing segs with
  | nil => simp
  | cons s' rest' ih =>
    obtain ⟨g', hg', hs'⟩ := compileSegments_cons s' rest'
    rw [hg'] at h
    cases segs with
    | nil =>
      rcases hs' with rfl | ⟨hn, ⟨rfl, rfl⟩ | rfl | rfl⟩ <;> simp_all [compileSegments, within]
    | cons s rest =>
      obtain ⟨g, hg, hs⟩ := compileSegments_cons s rest
      rw [hg] at h
      rcases hs' with rfl | ⟨hn', ⟨rfl, rfl⟩ | rfl | rfl⟩
      · -- the same literal segment on both sides
        rcases hs with rfl | ⟨-, ⟨rfl, -⟩ | rfl | rfl⟩ <;> simp [within] at h
        obtain ⟨rfl, h⟩ := h
        simpa [countP_cons] using ih h
      · simp [hn']
      all_goals
        have hw : within (compileSegments rest) (compileSegments rest') := by
          rcases hs with rfl | ⟨-, ⟨rfl, -⟩ | rfl | rfl⟩ <;> simp_all [within]
        have := ih hw
        rw [countP_cons, countP_cons, hn']
        simp only [Bool.false_eq_true, if_false]
        omega

end

/-! ### The most specific key -/

section
variable {keys : List Text} {path : Text} {key : Text} {other : Text}

/-- Of the patterns that cover a path the first in the order is found. -/
theorem findRef_glob (hl : path ∉ literalKeys keys) (h : findRef keys path = some key) :
    key ∈ globKeys keys ∧ covers key path ∧ ∀ other ∈ globKeys keys, covers other path → rank key ≤ rank other := by
  rw [findRef, if_neg hl] at h
  obtain ⟨hcv, before, after, hs, hb⟩ := find?_eq_some_iff_append.mp h
  have hp := pairwise_insertionSort (fun a b : Text => rank a ≤ rank b) (globKeys keys)
  have hm {k : Text} : k ∈ globKeys keys ↔ k ∈ before ++ key :: after := by
    rw [← hs, mem_insertionSort]
  rw [hs] at hp
  refine ⟨hm.mpr (by simp), hcv, fun other ho hc => ?_⟩
  rcases mem_append.mp (hm.mp ho) with he | hlt
  · have hn := hb other he
    rw [hc] at hn
    cases hn
  · rcases mem_cons.mp hlt with rfl | hlt
    · exact le_rfl
    · exact (pairwise_cons.mp (pairwise_append.mp hp).2.1).1 other hlt

theorem exists_findRef (ho : other ∈ globKeys keys) (hc : covers other path) :
    ∃ key, findRef keys path = some key := by
  unfold findRef
  split
  · exact ⟨path, rfl⟩
  · refine Option.isSome_iff_exists.mp (find?_isSome.mpr ⟨other, ?_, hc⟩)
    exact (mem_insertionSort _).mpr ho

theorem rank_injective : Function.Injective rank := fun _ _ h =>
  congrArg (fun r => (ofLex (ofLex r).2).2) h

/-- A path spelled as a literal key is that resource; any other path that a pattern covers goes to
a URL key that covers it, and no pattern that covers it reaches strictly less. -/
def Routed (keys : List Text) (path : Text) : Prop :=
  if path ∈ literalKeys keys then lookupResourceKey keys path = some path
  else (∃ other ∈ globKeys keys, covers other (canonicalizePath path)) →
    ∃ key, key.head? = some '/' ∧ lookupResourceKey keys path = some key ∧ covers key (canonicalizePath path) ∧
      ∀ other ∈ globKeys keys, covers other (canonicalizePath path) → ¬ reach other ⊂ reach key

/-- A literal key, or the canonical form of any other path that a pattern covers, is canonical and
not one of an RPC. And unless that form is a literal key, a narrower pattern that comes later with
as many literal segments comes after a pattern that is tried before both. -/
def Straight (keys : List Text) (path : Text) : Prop :=
  if path ∈ literalKeys keys then canonicalizePath path = path ∧ rpcPath? path = none
  else (∃ other ∈ globKeys keys, covers other (canonicalizePath path)) →
    rpcPath? (canonicalizePath path) = none ∧ (canonicalizePath path ∉ literalKeys keys →
      ∀ key ∈ globKeys keys, ∀ other ∈ globKeys keys, covers key (canonicalizePath path) →
        covers other (canonicalizePath path) → narrower other key →
        countLiteralSegments other = countLiteralSegments key → rank key < rank other →
        ∃ first ∈ globKeys keys, covers first (canonicalizePath path) ∧ rank first < rank key)

theorem isGlobPath_of_mem (h : key ∈ globKeys keys) : key.head? = some '/' ∧ isGlobPath key := by
  simpa [globKeys] using (mem_filter.mp h).2

theorem countLiteral_of_rank_le (h : rank key ≤ rank other) : countLiteralSegments other ≤ countLiteralSegments key := by
  rcases Prod.Lex.toLex_le_toLex.mp h with h | ⟨h, -⟩
  · exact (OrderDual.toDual_lt_toDual.mp h).le
  · exact (OrderDual.toDual_inj.mp h).ge

theorem head_of_literal (h : path ∈ literalKeys keys) : path.head? = some '/' ∧ isGlobPath path = false := by
  simpa [literalKeys] using (mem_filter.mp h).2

theorem lookup_rpc {canonical rest : Text} (hr : rpcPath? canonical = some rest)
    (h : lookupCanonicalResourceKey keys canonical = some key) : key.head? = some 'r' := by
  unfold lookupCanonicalResourceKey at h
  rw [hr] at h
  have hk := find?_some h
  rw [of_decide_eq_true hk]
  rfl

theorem not_ssubset_literal (hl : isGlobPath path = false) (hc : canonicalizePath path = path)
    (hcv : covers other path) : ¬ reach other ⊂ reach path := by
  refine fun h => h.2 fun path' hp' => ?_
  obtain rfl : path = path' := by simpa [covers, hl] using hp'.2
  exact ⟨hc, hcv⟩

/-- The most specific resource is found exactly for the paths that are straight. -/
theorem routed_iff_straight (keys : List Text) (path : Text) : Routed keys path ↔ Straight keys path := by
  unfold Routed Straight
  split
  · next hl =>
    obtain ⟨hs, hp⟩ := head_of_literal hl
    refine ⟨fun h => ?_, fun ⟨hc, hr⟩ => ?_⟩
    · cases hr : rpcPath? (canonicalizePath path) with
      | some rest => exact absurd (hs.symm.trans (lookup_rpc hr h)) (by simp)
      | none =>
        unfold lookupResourceKey lookupCanonicalResourceKey at h
        rw [hr] at h
        by_cases hf : canonicalizePath path ∈ literalKeys keys
        · dsimp only at h
          rw [findRef, if_pos hf] at h
          obtain heq : canonicalizePath path = path := Option.some.inj h
          exact ⟨heq, heq ▸ hr⟩
        · obtain ⟨hg, -⟩ := findRef_glob hf h
          simp [globKeys, hp] at hg
    · unfold lookupResourceKey lookupCanonicalResourceKey
      rw [hc, hr]
      exact if_pos hl
  · refine imp_congr_right fun ⟨other, ho, hcv⟩ => ?_
    cases hr : rpcPath? (canonicalizePath path) with
    | some rest =>
      refine ⟨fun ⟨key, hs, hlk, _⟩ => ?_, fun h => by cases h.1⟩
      exact absurd (hs.symm.trans (lookup_rpc hr hlk)) (by simp)
    | none =>
      have hlk : lookupResourceKey keys path = findRef keys (canonicalizePath path) := by
        unfold lookupResourceKey lookupCanonicalResourceKey
        rw [hr]
      obtain ⟨found, hf⟩ := exists_findRef ho hcv
      rw [hlk]
      by_cases hl : canonicalizePath path ∈ literalKeys keys
      · obtain ⟨hs, hp⟩ := head_of_literal hl
        refine ⟨fun _ => ⟨rfl, fun hn => absurd hl hn⟩, fun _ => ⟨_, hs, if_pos hl, ?_, ?_⟩⟩
        · simp [covers, hp]
        · exact fun other _ ho => not_ssubset_literal hp (canonicalizePath_idem path) ho
      · obtain ⟨hfm, hfc, hmin⟩ := findRef_glob hl hf
        obtain ⟨hs, hfg⟩ := isGlobPath_of_mem hfm
        refine ⟨fun ⟨key, _, hk, _, hls⟩ => ⟨rfl, fun _ key' hkm other ho hkc hoc hn _ _ => ?_⟩,
          fun ⟨_, h⟩ => ⟨found, hs, hf, hfc, fun other ho hoc hss => ?_⟩⟩
        · obtain rfl : found = key := Option.mem_unique hf hk
          have hne : found ≠ key' := by
            rintro rfl
            exact hls other ho hoc ((reach_ssubset_iff (isGlobPath_of_mem ho).2 hfg hoc hfc).mpr hn)
          exact ⟨found, hfm, hfc, lt_of_le_of_ne (hmin key' hkm hkc) (rank_injective.ne hne)⟩
        · have hn := (reach_ssubset_iff (isGlobPath_of_mem ho).2 hfg hoc hfc).mp hss
          have hle := hmin other ho hoc
          have hlt : rank found < rank other := lt_of_le_of_ne hle fun heq => hss.ne (congrArg reach (rank_injective heq).symm)
          have hcount := le_antisymm (countLiteral_of_rank_le hle) (countLiteral_le (Bool.and_eq_true_iff.mp hn).1)
          obtain ⟨first, hm, hc, hf⟩ := h hl found hfm other ho hfc hoc hn hcount hlt
          exact absurd (hmin first hm hc) (not_le.mpr hf)

end

def idKey : Text := "/a/[id]".toList

def restKey : Text := "/a/[...rest]".toList

def captureBesideCatchAll : Manifest := ⟨[(idKey, {}), (restKey, {})], [], []⟩

theorem reach_capture_ssubset : reach idKey ⊂ reach restKey := by
  have hid : covers idKey (canonicalizePath "/a/5".toList) := by decide +kernel
  have hr : covers restKey (canonicalizePath "/a/5".toList) := by decide +kernel
  exact (reach_ssubset_iff (by decide) (by decide) hid hr).mpr (by decide +kernel)

/-- The catch-all is found where the capture covers the path too; and a literal key with a slash at
its end is never found. -/
theorem capture_passed_over : captureBesideCatchAll.validateResources ∧
      lookupResourceKey captureBesideCatchAll.keys "/a/5".toList = some restKey ∧
      covers idKey "/a/5".toList ∧ reach idKey ⊂ reach restKey ∧ ¬ Routed captureBesideCatchAll.keys "/a/5".toList ∧
      Manifest.validateResources ⟨[("/docs/".toList, {})], [], []⟩ ∧ ¬ Routed ["/docs/".toList] "/docs/".toList := by
  have hl : lookupResourceKey captureBesideCatchAll.keys "/a/5".toList = some restKey := by decide +kernel
  have hc : covers idKey (canonicalizePath "/a/5".toList) := by decide +kernel
  have hid : idKey ∈ globKeys captureBesideCatchAll.keys := by decide +kernel
  refine ⟨by decide +kernel, hl, by decide +kernel, reach_capture_ssubset, fun h => ?_, by decide +kernel, fun h => ?_⟩
  · rw [Routed, if_neg (by decide +kernel)] at h
    obtain ⟨key, -, hk, -, hls⟩ := h ⟨idKey, hid, hc⟩
    obtain rfl : restKey = key := Option.mem_unique hl hk
    exact hls idKey hid hc reach_capture_ssubset
  · rw [Routed, if_pos (by decide +kernel)] at h
    revert h
    decide +kernel

/-! ### The two readings of a path -/

/-- A star for each segment. -/
def starKey (n : Nat) : Text := render (replicate n ['*'])

section
variable {path path' : Text} {segs : List Text} {n : Nat}

theorem rpcPath?_eq_some {rest : Text} : rpcPath? path = some rest ↔ "/__zeroship/v1/".toList ++ rest = path :=
  isPrefixOf?_eq_some_iff_append_eq

/-- The key of an RPC is found under its own path only. -/
theorem lookup_rpcKey {rest : Text} (hr : rpcPath? path = some rest) :
    lookupCanonicalResourceKey ["rpc:".toList ++ rest] path' = some ("rpc:".toList ++ rest) ↔ path' = path := by
  unfold lookupCanonicalResourceKey
  cases hr' : rpcPath? path' with
  | none => exact ⟨fun h => by simp [findRef, literalKeys, globKeys] at h, fun h => by simp [h, hr] at hr'⟩
  | some rest' =>
    rw [← rpcPath?_eq_some.mp hr, ← rpcPath?_eq_some.mp hr', append_cancel_left_eq]
    simp [eq_comm]

theorem compileSegments_stars (n : Nat) : compileSegments (replicate n ['*']) = replicate n .star := by
  induction n with
  | zero => rfl
  | succ n ih => simp [replicate_succ, compileSegments, ih, isCatchAll]

theorem match_stars : matchGlobSimple (replicate n .star) segs ↔ segs.length = n ∧ ∀ s ∈ segs, s ≠ [] := by
  induction n generalizing segs with
  | zero => simp +contextual [matchGlobSimple]
  | succ n ih => cases segs <;> simp [replicate_succ, matchGlobSimple, ih, and_left_comm]

/-- The key of stars covers the paths of as many segments. -/
theorem lookup_starKey (hn : n ≠ 0) (h : ∀ s ∈ segs, Clean s ∧ s ≠ []) :
    findRef [starKey n] (render segs) = some (starKey n) ↔ segs.length = n := by
  have hst : ∀ s ∈ replicate n ['*'], Clean s ∧ s ≠ [] := fun s hs => by
    rw [eq_of_mem_replicate hs]
    exact ⟨⟨by simp, by decide +kernel, by decide +kernel⟩, by decide⟩
  obtain ⟨m, rfl⟩ := Nat.exists_eq_succ_of_ne_zero hn
  have hg : isGlobPath (starKey (m + 1)) := by simp [isGlobPath, starKey, render, replicate_succ]
  have hh : (starKey (m + 1)).head? = some '/' := by simp [starKey, render, replicate_succ]
  have hc : compileGlob (starKey (m + 1)) = replicate (m + 1) .star := by
    rw [compileGlob, starKey, segments_render (by simp) hst, compileSegments_stars]
  have hf : findRef [starKey (m + 1)] (render segs) = some (starKey (m + 1)) ↔
      matchGlobSimple (replicate (m + 1) .star) (segments (render segs)) := by
    simp [findRef, literalKeys, globKeys, hg, hh, covers, hc]
  rw [hf, match_stars]
  by_cases hs : segs = []
  · subst hs
    exact iff_of_false (fun hs => hs.2 [] (by decide) rfl) (by simp)
  · rw [segments_render hs h]
    exact and_iff_left fun s hm => (h s hm).2

/-- Canonical paths with different numbers of segments are told apart by some manifest. -/
theorem exists_lookup_ne {long : List Text} (h : ∀ s ∈ segs, Clean s ∧ s ≠ []) (hl : ∀ s ∈ long, Clean s ∧ s ≠ [])
    (hlt : segs.length < long.length) :
    ∃ keys, lookupCanonicalResourceKey keys (render segs) ≠ lookupCanonicalResourceKey keys (render long) := by
  have hstar : ∀ {segs : List Text}, (∀ s ∈ segs, Clean s ∧ s ≠ []) →
      (findRef [starKey long.length] (render segs) = some (starKey long.length) ↔ segs.length = long.length) :=
    lookup_starKey (by omega)
  cases hr : rpcPath? (render long) with
  | some rest =>
    refine ⟨["rpc:".toList ++ rest], fun heq => ?_⟩
    have hs := (lookup_rpcKey hr).mp (heq.trans ((lookup_rpcKey hr).mpr rfl))
    have hlen := ((hstar h).mp (hs ▸ (hstar hl).mpr rfl))
    omega
  | none =>
    refine ⟨[starKey long.length], fun heq => ?_⟩
    unfold lookupCanonicalResourceKey at heq
    rw [hr, (hstar hl).mpr rfl] at heq
    cases hr' : rpcPath? (render segs) with
    | none =>
      rw [hr'] at heq
      have := (hstar h).mp heq
      omega
    | some rest =>
      rw [hr'] at heq
      have hk := find?_some heq
      have hn : (starKey long.length).head? = some 'r' := by
        rw [of_decide_eq_true hk]
        rfl
      unfold starKey render at hn
      split at hn
      · cases hn
      · rw [show long.length = long.length - 1 + 1 by omega, replicate_succ] at hn
        cases hn

end

/-- The lookup of a path without tabs and line ends is that of what the URL parser makes of it
exactly if no double dot removes an empty segment where it would have removed one that stays. What
is dispatched is looked up as it is forwarded. -/
theorem lookup_agrees_iff_settled (path : Text) :
    (path.any isStripped = false → ((∀ keys, lookupResourceKey keys path = lookupResourceKey keys (whatwgPath path)) ↔
      Settled (pathSegments path))) ∧
    ∀ forwarded, canonicalizeDispatchPath path = some forwarded → whatwgPath forwarded = forwarded ∧
      ∀ keys, lookupResourceKey keys (whatwgPath forwarded) = lookupCanonicalResourceKey keys forwarded := by
  refine ⟨fun hp => ?_, fun forwarded hfr => ?_⟩
  · obtain ⟨hg, hw⟩ := canonical_forms hp
    obtain ⟨hsub, hiff⟩ := kept_filter (pathSegments path)
    simp only [lookupResourceKey, hg, hw, ← hiff]
    refine ⟨fun h => ?_, fun h keys => by rw [h]⟩
    by_contra hne
    have hlt := hsub.length_le.lt_of_ne fun hl => hne (hsub.eq_of_length hl)
    have hw : ∀ s ∈ (kept (pathSegments path)).filter (· ≠ []), Clean s ∧ s ≠ [] := fun s hs =>
      ⟨clean_kept (fun _ hs c hc => (Base.of_mem_splitOnP hs c hc).2) s (mem_of_mem_filter hs),
        of_decide_eq_true (mem_filter.mp hs).2⟩
    obtain ⟨keys, hk⟩ := exists_lookup_ne (fun s hs => hw s (hsub.subset hs)) hw hlt
    exact hk (h keys)
  · obtain ⟨rfl, hf⟩ := whatwgPath_dispatched hfr
    refine ⟨hf, fun keys => ?_⟩
    rw [hf, lookupResourceKey, canonicalizePath_idem]

/-- A double dot that takes a whole segment along, and a slash at the end that is not forwarded. -/
theorem dotted_path_agrees :
    (∀ keys, lookupResourceKey keys "/a/./b//c/../d/".toList = lookupResourceKey keys "/a/b//d/".toList) ∧
      (∀ keys, lookupResourceKey keys "/a/b".toList = lookupCanonicalResourceKey keys "/a/b".toList) := by
  have hd := ((lookup_agrees_iff_settled "/a/./b//c/../d/".toList).1 (by decide +kernel)).mpr (by decide +kernel)
  obtain ⟨hfx, hl⟩ := (lookup_agrees_iff_settled "/a/b/".toList).2 "/a/b".toList (by decide +kernel)
  have hr : whatwgPath "/a/./b//c/../d/".toList = "/a/b//d/".toList := by decide +kernel
  rw [hr] at hd
  exact ⟨hd, hl⟩

/-- A double dot after an empty segment: the gateway looks up `/b`, and the worker `/a/b`. -/
theorem emptySegment_disagrees : whatwgPath "/a//../b".toList = "/a/b".toList ∧
      lookupResourceKey ["/b".toList, "/a/b".toList] "/a//../b".toList = some "/b".toList ∧
      lookupResourceKey ["/b".toList, "/a/b".toList] (whatwgPath "/a//../b".toList) = some "/a/b".toList := by
  decide +kernel

end Zeroship.Bundle

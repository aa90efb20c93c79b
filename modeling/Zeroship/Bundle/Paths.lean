import Zeroship.Base.Lists
import Zeroship.Bundle.Manifest

/-! Request paths and their canonical form.

The gateway and the worker must read a path alike. A URL parser takes tabs and line ends out,
folds backslashes, drops single-dot segments and lets a double-dot segment take the segment
before it along, an empty one like any other. The gateway's canonical form drops empty segments
first, so a double dot after one takes another segment there. What is dispatched has neither. -/
namespace Zeroship.Bundle
open List

variable (segs out : List Text) (seg : Text)

def isSingleDotSegment : Bool := seg.map Char.toLower ∈ [".".toList, "%2e".toList]

def isDoubleDotSegment : Bool :=
  seg.map Char.toLower ∈ ["..".toList, ".%2e".toList, "%2e.".toList, "%2e%2e".toList]

/-- `strip_prefix('/')`. -/
def stripSlash : Text → Text
  | '/' :: rest => rest
  | path => path

/-- The stack, its top first, after a segment. -/
def resolveSegment : List Text :=
  if seg = [] ∨ isSingleDotSegment seg then out
  else if isDoubleDotSegment seg then out.tail
  else seg :: out

/-- A slash before every segment. -/
def render : Text := if segs = [] then ['/'] else segs.flatMap ('/' :: ·)

def pathSegments (path : Text) : List Text := (stripSlash path).splitOnP fun c => c = '/' || c = '\\'

def canonicalizePath (path : Text) : Text := render ((pathSegments path).foldl resolveSegment []).reverse

def isDotSegment : Bool := isSingleDotSegment seg || isDoubleDotSegment seg

/-- `WHATWG_PATH_REWRITE_BYTES`. -/
def rewriteBytes : List Char := ['\\', '\t', '\n', '\r']

def pathHasTraversalOrEmptySegment (path : Text) : Bool :=
  let segs := (stripSlash path).splitOn '/'
  path.any (· ∈ rewriteBytes) || segs.any isDotSegment || segs.dropLast.any (· = [])

/-- `canonicalize_dispatch_path`; a path that is rejected gives nothing. -/
def canonicalizeDispatchPath (path : Text) : Option Text :=
  if pathHasTraversalOrEmptySegment path then none else some (canonicalizePath path)

/-- The stack after a segment, of which an empty one is kept. -/
def keepSegment : List Text :=
  if isSingleDotSegment seg then out else if isDoubleDotSegment seg then out.tail else seg :: out

def kept : List Text := (segs.foldl keepSegment []).reverse

def isStripped (c : Char) : Bool := c = '\t' || c = '\n' || c = '\r'

/-- The segments of a path without tabs and line ends. -/
def parsedSegments (path : Text) : List Text := pathSegments (path.filter (!isStripped ·))

def whatwgPath (path : Text) : Text := render (kept (parsedSegments path))

/-! ### Segments that stay -/

/-- A segment that stays as it is. -/
structure Clean (seg : Text) : Prop where
  whole : ∀ c ∈ seg, (c = '/' || c = '\\') = false
  notSingle : isSingleDotSegment seg = false
  notDouble : isDoubleDotSegment seg = false

section
variable {path : Text} {segs out : List Text} {s : Text} {c : Char}

theorem clean_foldl (ho : ∀ s ∈ out, Clean s) (hsg : ∀ s ∈ segs, ∀ c ∈ s, (c = '/' || c = '\\') = false) :
    ∀ s ∈ segs.foldl keepSegment out, Clean s := by
  induction segs generalizing out with
  | nil => exact ho
  | cons seg segs ih =>
    obtain ⟨hse, hsg⟩ := forall_mem_cons.mp hsg
    refine ih ?_ hsg
    unfold keepSegment
    split
    · exact ho
    split
    · exact fun s hs => ho s (mem_of_mem_tail hs)
    · next hsn hd =>
      exact forall_mem_cons.mpr ⟨⟨hse, Bool.eq_false_iff.mpr hsn, Bool.eq_false_iff.mpr hd⟩, ho⟩

theorem clean_kept (hsg : ∀ s ∈ segs, ∀ c ∈ s, (c = '/' || c = '\\') = false) : ∀ s ∈ kept segs, Clean s :=
  fun s hs => clean_foldl (by simp) hsg s (mem_reverse.mp hs)

theorem foldl_clean (h : ∀ s ∈ segs, Clean s) : segs.foldl keepSegment out = segs.reverse ++ out := by
  induction segs generalizing out with
  | nil => rfl
  | cons seg segs ih =>
    obtain ⟨hs, hsg⟩ := forall_mem_cons.mp h
    rw [foldl_cons, ih hsg]
    simp [keepSegment, hs.notSingle, hs.notDouble]

theorem kept_clean (h : ∀ s ∈ segs, Clean s) : kept segs = segs := by
  rw [kept, foldl_clean h, append_nil, reverse_reverse]

/-- The gateway drops the empty segments first. -/
theorem foldl_resolveSegment : segs.foldl resolveSegment out = (segs.filter (· ≠ [])).foldl keepSegment out := by
  induction segs generalizing out with
  | nil => rfl
  | cons seg segs ih =>
    by_cases hs : seg = []
    · simpa [resolveSegment, hs] using ih
    · simpa [resolveSegment, keepSegment, hs] using ih

theorem canonicalizePath_eq (path : Text) : canonicalizePath path = render (kept ((pathSegments path).filter (· ≠ []))) := by
  rw [canonicalizePath, foldl_resolveSegment, kept]

theorem pathSegments_render (hne : segs ≠ []) (h : ∀ s ∈ segs, Clean s) : pathSegments (render segs) = segs := by
  obtain ⟨seg, rest, rfl⟩ := exists_cons_of_ne_nil hne
  exact Base.splitOnP_flatMap rfl fun s hs => (h s hs).whole

theorem canonical_render (h : ∀ s ∈ segs, Clean s) : canonicalizePath (render segs) = render (segs.filter (· ≠ [])) := by
  by_cases hne : segs = []
  · subst hne
    rfl
  · rw [canonicalizePath_eq, pathSegments_render hne h, kept_clean fun s hs => h s (mem_of_mem_filter hs)]

theorem clean_parsed (path : Text) : ∀ s ∈ kept (parsedSegments path), Clean s :=
  clean_kept fun _ hs c hc => (Base.of_mem_splitOnP hs c hc).2

theorem mem_of_mem_foldl (h : s ∈ segs.foldl keepSegment out) : s ∈ out ∨ s ∈ segs := by
  induction segs generalizing out with
  | nil => exact .inl h
  | cons seg segs ih =>
    rcases ih h with h | h
    · unfold keepSegment at h
      split at h
      · exact .inl h
      split at h
      · exact .inl (mem_of_mem_tail h)
      · rcases mem_cons.mp h with rfl | h
        · exact .inr mem_cons_self
        · exact .inl h
    · exact .inr (mem_cons_of_mem _ h)

theorem mem_canonical (h : s ∈ kept ((pathSegments path).filter (· ≠ []))) :
    Clean s ∧ s ≠ [] ∧ ∀ c ∈ s, c ∈ path := by
  have hcl : Clean s := clean_kept
    (fun _ hs c hc => (Base.of_mem_splitOnP (mem_of_mem_filter hs) c hc).2) s h
  obtain ⟨hm, hne⟩ := mem_filter.mp ((mem_of_mem_foldl (mem_reverse.mp h)).resolve_left not_mem_nil)
  refine ⟨hcl, of_decide_eq_true hne, fun c hc => ?_⟩
  have hst := (Base.of_mem_splitOnP hm c hc).1
  unfold stripSlash at hst
  split at hst
  · exact mem_cons_of_mem _ hst
  · exact hst

theorem canonicalizePath_idem (path : Text) : canonicalizePath (canonicalizePath path) = canonicalizePath path := by
  rw [canonicalizePath_eq path, canonical_render fun s hs => (mem_canonical hs).1, filter_eq_self.mpr]
  exact fun s hs => decide_eq_true (mem_canonical hs).2.1

theorem mem_render (h : c ∈ render segs) : c = '/' ∨ ∃ s ∈ segs, c ∈ s := by
  unfold render at h
  split at h
  · exact .inl (mem_singleton.mp h)
  · obtain ⟨s, hs, hc⟩ := mem_flatMap.mp h
    exact (mem_cons.mp hc).imp_right fun hc => ⟨s, hs, hc⟩

theorem mem_canonicalizePath (h : c ∈ canonicalizePath path) : c = '/' ∨ c ∈ path := by
  rw [canonicalizePath_eq] at h
  exact (mem_render h).imp_right fun ⟨_, hs, hc⟩ => (mem_canonical hs).2.2 c hc

/-! ### Which segments stay -/

/-- The double dots among these segments that remove a segment before them. -/
def excess : List Text → Nat
  | [] => 0
  | seg :: rest =>
    if isSingleDotSegment seg then excess rest
    else if isDoubleDotSegment seg then excess rest + 1
    else excess rest - 1

/-- A named segment that no double dot removes is not removed either when the double dots do not
count the empty segments. -/
def Settled : List Text → Prop
  | [] => True
  | seg :: rest => (seg ≠ [] → isDotSegment seg = false → excess rest = 0 → excess (rest.filter (· ≠ [])) = 0) ∧
    Settled rest

instance : ∀ segs, Decidable (Settled segs)
  | [] => .isTrue trivial
  | _ :: rest => @instDecidableAnd _ _ inferInstance (instDecidableSettled rest)

theorem foldl_keepSegment (segs out : List Text) :
    segs.foldl keepSegment out = segs.foldl keepSegment [] ++ out.drop (excess segs) := by
  induction segs generalizing out with
  | nil => rfl
  | cons seg rest ih =>
    rw [foldl_cons, foldl_cons, ih, ih (keepSegment [] seg), append_assoc]
    congr 1
    simp only [keepSegment, excess]
    split_ifs
    · simp
    · simp
    · cases excess rest <;> simp

theorem kept_cons (seg : Text) (rest : List Text) :
    kept (seg :: rest) = if isDotSegment seg = false ∧ excess rest = 0 then seg :: kept rest else kept rest := by
  have hk : keepSegment [] seg = if isDotSegment seg = false then [seg] else [] := by
    unfold keepSegment isDotSegment
    split_ifs <;> simp_all
  rw [kept, foldl_cons, foldl_keepSegment, hk, reverse_append]
  cases isDotSegment seg
  · cases excess rest <;> simp [kept]
  · simp [kept]

theorem excess_le_filter (segs : List Text) : excess segs ≤ excess (segs.filter (· ≠ [])) := by
  induction segs with
  | nil => exact le_rfl
  | cons seg rest ih =>
    by_cases hs : seg = []
    · subst hs
      rw [filter_cons_of_neg (by simp)]
      exact (Nat.sub_le _ 1).trans ih
    · rw [filter_cons_of_pos (by simpa using hs)]
      simp only [excess]
      split_ifs <;> omega

/-- The segments that stay at the gateway are among those that the parser keeps, and are all of
them exactly in a path that is settled. -/
theorem kept_filter (segs : List Text) :
    kept (segs.filter (· ≠ [])) <+ (kept segs).filter (· ≠ []) ∧
      (kept (segs.filter (· ≠ [])) = (kept segs).filter (· ≠ []) ↔ Settled segs) := by
  induction segs with
  | nil => exact ⟨.slnil, by simp [Settled, kept]⟩
  | cons seg rest ih =>
    obtain ⟨hsub, hiff⟩ := ih
    have hle := excess_le_filter rest
    by_cases hs : seg = []
    · subst hs
      have he : (kept ([] :: rest)).filter (· ≠ []) = (kept rest).filter (· ≠ []) := by
        rw [kept_cons]
        split <;> simp
      rw [filter_cons_of_neg (by simp), he]
      refine ⟨hsub, hiff.trans ?_⟩
      simp [Settled]
    have he (c : Prop) [Decidable c] : (if c then seg :: kept rest else kept rest).filter (· ≠ []) =
        if c then seg :: (kept rest).filter (· ≠ []) else (kept rest).filter (· ≠ []) := by
      split <;> simp [hs]
    rw [filter_cons_of_pos (by simpa using hs), kept_cons, kept_cons, he, Settled, ← hiff]
    generalize kept (rest.filter (· ≠ [])) = gateway at hsub ⊢
    generalize (kept rest).filter (· ≠ []) = worker at hsub ⊢
    generalize excess (rest.filter (· ≠ [])) = e at hle ⊢
    cases hd : isDotSegment seg with
    | true => simpa using hsub
    | false =>
      by_cases h0 : e = 0
      · have hz : excess rest = 0 := by omega
        simpa [h0, hz, hs] using hsub
      · by_cases hz : excess rest = 0
        · have hne : gateway ≠ seg :: worker := fun heq => by
            have := hsub.length_le
            rw [heq, length_cons] at this
            omega
          simpa [h0, hz, hs, hne] using hsub.cons seg
        · simpa [h0, hz] using hsub

/-- The segments of the two canonical forms of a path without tabs and line ends. -/
theorem canonical_forms (hp : path.any isStripped = false) :
    canonicalizePath path = render (kept ((pathSegments path).filter (· ≠ []))) ∧
      canonicalizePath (whatwgPath path) = render ((kept (pathSegments path)).filter (· ≠ [])) := by
  have hs : parsedSegments path = pathSegments path := by
    rw [parsedSegments, filter_eq_self.mpr]
    simpa using hp
  exact ⟨canonicalizePath_eq path, by rw [whatwgPath, canonical_render (clean_parsed path), hs]⟩

theorem segments_render (hne : segs ≠ []) (h : ∀ s ∈ segs, Clean s ∧ s ≠ []) : segments (render segs) = segs := by
  have hw : ∀ {s}, s ∈ segs → ∀ c ∈ s, (c == '/') = false := fun hs c hc => by
    have := ((h _ hs).1.whole c hc)
    simp_all
  obtain ⟨seg, rest, rfl⟩ := exists_cons_of_ne_nil hne
  obtain ⟨c, cs, rfl⟩ := exists_cons_of_ne_nil (h seg mem_cons_self).2
  have hc := hw mem_cons_self c mem_cons_self
  have hd : (render ((c :: cs) :: rest)).dropWhile (· = '/') = (c :: cs) ++ rest.flatMap ('/' :: ·) := by
    have hn : c ≠ '/' := by simpa using hc
    simp [render, hn]
  rw [segments, hd]
  exact Base.splitOnP_flatMap (by rfl) fun s hs => hw hs

/-- What is forwarded stays as it is. -/
theorem whatwgPath_dispatched {c : Text} (h : canonicalizeDispatchPath path = some c) : c = canonicalizePath path ∧ whatwgPath c = c := by
  unfold canonicalizeDispatchPath at h
  split at h
  · cases h
  next hg =>
  cases h
  refine ⟨rfl, ?_⟩
  have hp : (canonicalizePath path).filter (!isStripped ·) = canonicalizePath path := by
    refine filter_eq_self.mpr fun c hc => ?_
    rcases mem_canonicalizePath hc with rfl | hc
    · rfl
    · simp [pathHasTraversalOrEmptySegment, rewriteBytes] at hg
      simp [isStripped, hg.1.1 c hc]
  rw [whatwgPath, parsedSegments, hp, canonicalizePath_eq]
  by_cases hne : kept ((pathSegments path).filter (· ≠ [])) = []
  · rw [hne]
    rfl
  · rw [pathSegments_render hne fun s hs => (mem_canonical hs).1, kept_clean fun s hs => (mem_canonical hs).1]

end

end Zeroship.Bundle

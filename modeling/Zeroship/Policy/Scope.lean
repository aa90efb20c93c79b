import Zeroship.Policy.Pattern

/-! The scope lattice.

A scope is nothing, everything, or the names of some patterns without those of others.
Each operation errs in one direction only: `normalize` and `meet` are exact, `join` and
`difference` may only widen, and `subset` may only refuse. -/
namespace Zeroship.Policy
open List

inductive Scope
  | nothing | all
  /-- Exclusion wins over inclusion. -/
  | of (includes excludes : List Pattern)
deriving DecidableEq

/-- A difference, or that it has no form as a scope. -/
inductive Difference
  | scope (s : Scope)
  | notRepresentable
deriving DecidableEq

/-- Keep the first of equal patterns. -/
def dedup (patterns : List Pattern) : List Pattern := patterns.eraseDups

@[simp] theorem mem_dedup {patterns : List Pattern} {p : Pattern} : p ∈ dedup patterns ↔ p ∈ patterns :=
  mem_eraseDups

/-- Is the region of `d`, without what `de` carves out, under one pattern of `ci` and clear
of `ce`? -/
def regionCoveredAndClear (d : Pattern) (de ci ce : List Pattern) : Bool :=
  if de.any fun e => patternCovers e d then true
  else if !ci.any fun c => patternCovers c d then false
  else ce.all fun e => (intersectPattern d e).all fun o => de.any fun e' => patternCovers e' o

namespace Scope

def objectsMembership : Scope → ObjectName → Bool
  | nothing, _ => false
  | all, _ => true
  | of includes excludes, n =>
    includes.any (fun p => p.matches n) && !excludes.any fun p => p.matches n

/-- Drop the includes that one exclude covers, and the excludes that meet no include. -/
def normalize : Scope → Scope
  | nothing => nothing
  | all => all
  | of includes excludes =>
    let live := includes.filter fun i => !excludes.any fun e => patternCovers e i
    if live = [] then nothing
    else of (dedup live) ((dedup excludes).filter fun e =>
      (dedup live).any fun i => intersectPattern i e ≠ [])

/-- Is the scope every name, in the one way that is recognised? -/
def denotesUniverse : Scope → Bool
  | all => true
  | nothing => false
  | of includes excludes =>
    includes.any (fun p => patternCovers p .universePattern && patternCovers .universePattern p) && excludes.isEmpty

def subset : Scope → Scope → Bool
  | nothing, _ => true
  | _, all => true
  | all, other => other.denotesUniverse
  | of _ _, nothing => false
  | of di de, of ci ce => di.all fun d => regionCoveredAndClear d de ci ce

def meet : Scope → Scope → Scope
  | nothing, _ => nothing
  | _, nothing => nothing
  | all, s => s
  | s, all => s
  | of ai ae, of bi be =>
    normalize (of (dedup (ai.flatMap fun a => bi.flatMap fun b => intersectPattern a b)) (dedup (ae ++ be)))

/-- An exclude survives if both sides have it and no include of either needs it. -/
def join : Scope → Scope → Scope
  | all, _ => all
  | _, all => all
  | nothing, s => s
  | s, nothing => s
  | of ai ae, of bi be =>
    let includes := dedup (ai ++ bi)
    let excludes := dedup (ae.flatMap fun a => be.flatMap fun b => intersectPattern a b)
    normalize (of includes (excludes.filter fun e => !includes.any fun i => intersectPattern i e ≠ []))

/-- The names of `A` that `B` does not cover: `A` without the includes of `B`, joined with
the holes that `B` carves out of itself. -/
def difference : Scope → Scope → Difference
  | _, all => .scope nothing
  | a, nothing => .scope a
  | nothing, _ => .scope nothing
  | all, _ => .notRepresentable
  | of ai ae, of bi be =>
    let kept := normalize (of ai (dedup (ae ++ bi)))
    let holes := if be = [] then nothing else (of ai ae).meet (normalize (of be []))
    .scope (kept.join holes)

end Scope

/-! ### Exactness -/

section
variable {a b d s : Scope} {n : ObjectName} {includes excludes : List Pattern}

@[simp] theorem mem_nothing : Scope.nothing.objectsMembership n = false := rfl

@[simp] theorem mem_all : Scope.all.objectsMembership n := rfl

@[simp] theorem mem_of : (Scope.of includes excludes).objectsMembership n ↔
    (∃ p ∈ includes, p.matches n) ∧ ∀ p ∈ excludes, ¬ p.matches n := by
  simp [Scope.objectsMembership]

@[simp] theorem mem_normalize : s.normalize.objectsMembership n = s.objectsMembership n := by
  cases s with
  | nothing | all => rfl
  | of includes excludes =>
    have hl {p : Pattern} : p ∈ includes.filter (fun i => !excludes.any fun e => patternCovers e i) ↔
        p ∈ includes ∧ ∀ e ∈ excludes, ¬ patternCovers e p := by simp
    rw [Bool.eq_iff_iff]
    simp only [Scope.normalize]
    split
    · -- every include is covered by an exclude
      rename_i hnl
      simp only [mem_nothing, Bool.false_eq_true, false_iff, mem_of]
      rintro ⟨⟨p, hp, hn⟩, ho⟩
      have hm := hl.mpr ⟨hp, fun e he hc => ho e he (matches_covers hc hn)⟩
      simp [hnl] at hm
    · simp only [mem_of, mem_dedup, hl, mem_filter, any_eq_true, decide_eq_true_eq]
      constructor
      · rintro ⟨⟨p, ⟨hp, hc⟩, hn⟩, ho⟩
        refine ⟨⟨p, hp, hn⟩, fun e he hen => ?_⟩
        -- an exclude that matches the name meets the include that does
        refine ho e ⟨he, p, ⟨hp, hc⟩, fun hnl => ?_⟩ hen
        exact intersect_eq_nil.mp hnl n ⟨hn, hen⟩
      · rintro ⟨⟨p, hp, hn⟩, ho⟩
        exact ⟨⟨p, ⟨hp, fun e he hc => ho e he (matches_covers hc hn)⟩, hn⟩,
          fun e he => ho e he.1⟩

@[simp] theorem mem_meet : (a.meet b).objectsMembership n = (a.objectsMembership n && b.objectsMembership n) := by
  cases a <;> cases b <;> simp only [Scope.meet, mem_nothing, mem_all, Bool.false_and, Bool.and_false,
    Bool.true_and, Bool.and_true, mem_normalize]
  rename_i ai ae bi be
  rw [Bool.eq_iff_iff, Bool.and_eq_true]
  simp only [mem_of, mem_dedup, mem_flatMap, mem_append]
  constructor
  · rintro ⟨⟨p, ⟨x, hx, y, hy, hp⟩, hn⟩, ho⟩
    obtain ⟨hxn, hyn⟩ := matches_intersect.mp ⟨p, hp, hn⟩
    exact ⟨⟨⟨x, hx, hxn⟩, fun e he => ho e (.inl he)⟩, ⟨y, hy, hyn⟩, fun e he => ho e (.inr he)⟩
  · rintro ⟨⟨⟨x, hx, hxn⟩, ho⟩, ⟨y, hy, hyn⟩, ho'⟩
    obtain ⟨p, hp, hn⟩ := matches_intersect.mpr ⟨hxn, hyn⟩
    exact ⟨⟨p, ⟨x, hx, y, hy, hp⟩, hn⟩, fun e he => he.elim (ho e) (ho' e)⟩

theorem mem_join (h : a.objectsMembership n ∨ b.objectsMembership n) : (a.join b).objectsMembership n := by
  cases a <;> cases b <;> simp only [Scope.join, mem_nothing, mem_all, Bool.false_eq_true, false_or, or_false,
    mem_normalize] at h ⊢
  all_goals try exact h
  rename_i ai ae bi be
  simp only [mem_of, mem_dedup, mem_append, mem_filter] at h ⊢
  have hin : ∃ p, (p ∈ ai ∨ p ∈ bi) ∧ p.matches n := by
    rcases h with ⟨⟨p, hp, hn⟩, -⟩ | ⟨⟨p, hp, hn⟩, -⟩
    · exact ⟨p, .inl hp, hn⟩
    · exact ⟨p, .inr hp, hn⟩
  refine ⟨hin, fun e he hen => ?_⟩
  -- an exclude that survives meets no include
  obtain ⟨p, hp, hn⟩ := hin
  have hc := he.2
  simp only [Bool.not_eq_true', any_eq_false, decide_eq_true_eq, not_not] at hc
  exact intersect_eq_nil.mp (hc p (by simpa using hp)) n ⟨hn, hen⟩

theorem mem_difference (hd : a.difference b = .scope d) (ha : a.objectsMembership n)
    (hb : ¬ b.objectsMembership n) : d.objectsMembership n := by
  cases b with
  | all => exact absurd rfl hb
  | nothing =>
    cases a <;>
    · simp only [Scope.difference, Difference.scope.injEq] at hd
      exact hd ▸ ha
  | of bi be =>
    cases a with
    | nothing => simp at ha
    | all => simp [Scope.difference] at hd
    | of ai ae =>
      simp only [Scope.difference, Difference.scope.injEq] at hd
      subst hd
      refine mem_join ?_
      rw [mem_normalize]
      simp only [mem_of, mem_dedup, mem_append] at ha hb ⊢
      by_cases hin : ∃ p ∈ bi, p.matches n
      · -- matched by an include of `B`, so in one of its ho
        obtain ⟨e, he, hen⟩ : ∃ e ∈ be, e.matches n := by
          by_contra hno
          exact hb ⟨hin, fun e he hen => hno ⟨e, he, hen⟩⟩
        refine .inr ?_
        rw [if_neg (ne_nil_of_mem he), mem_meet, mem_normalize, Bool.and_eq_true, mem_of, mem_of]
        exact ⟨ha, ⟨e, he, hen⟩, by simp⟩
      · refine .inl ⟨ha.1, fun p hp hn => ?_⟩
        rcases hp with hp | hp
        · exact ha.2 p hp hn
        · exact hin ⟨p, hp, hn⟩

theorem universePattern_matches : Pattern.universePattern.matches n := by
  rw [matches_iff]
  cases h : n.table <;> simp [Pattern.universePattern, SegGlob.star]

theorem mem_of_subset (h : a.subset b) (ha : a.objectsMembership n) : b.objectsMembership n := by
  cases a with
  | nothing => simp at ha
  | all =>
    cases b with
    | all => rfl
    | nothing => simp [Scope.subset, Scope.denotesUniverse] at h
    | of ci ce =>
      simp only [Scope.subset, Scope.denotesUniverse, Bool.and_eq_true, List.any_eq_true, List.isEmpty_iff] at h
      obtain ⟨⟨p, hp, hcv, -⟩, rfl⟩ := h
      rw [mem_of]
      exact ⟨⟨p, hp, matches_covers hcv universePattern_matches⟩, by simp⟩
  | of di de =>
    cases b with
    | all => rfl
    | nothing => simp [Scope.subset] at h
    | of ci ce =>
      simp only [Scope.subset, List.all_eq_true] at h
      rw [mem_of] at ha ⊢
      obtain ⟨⟨p, hp, hn⟩, hot⟩ := ha
      have hr := h p hp
      unfold regionCoveredAndClear at hr
      split at hr
      · rename_i hcr
        obtain ⟨e, he, hcv⟩ := List.any_eq_true.mp hcr
        exact absurd (matches_covers hcv hn) (hot e he)
      split at hr
      · cases hr
      rename_i hcvr
      obtain ⟨c, hc, hcv⟩ : ∃ c ∈ ci, patternCovers c p := by simpa using hcvr
      refine ⟨⟨c, hc, matches_covers hcv hn⟩, fun e he hen => ?_⟩
      -- an exclude of `B` meets the region only where `A` excludes too
      obtain ⟨o, ho, hon⟩ := matches_intersect.mpr ⟨hn, hen⟩
      obtain ⟨e', he', hc'⟩ := List.any_eq_true.mp (List.all_eq_true.mp (List.all_eq_true.mp hr e he) o ho)
      exact hot e' he' (matches_covers hc' hon)

end

/-- Some glob of the intersection matches what both match, the meet has the names of both,
and without a common name it is not `all`. -/
theorem meet_is_exact (x y : SegGlob) (w : Bytes) (a b : Scope) (n : ObjectName) :
    ((∃ g ∈ intersectSeg x y, g.matches w) ↔ x.matches w ∧ y.matches w) ∧
    ((a.meet b).objectsMembership n ↔ a.objectsMembership n ∧ b.objectsMembership n) ∧
    ((∀ m, ¬ (a.objectsMembership m ∧ b.objectsMembership m)) → a.meet b ≠ .all) := by
  refine ⟨matches_seg, by simp, fun hd ha => hd n ?_⟩
  have hn : (a.meet b).objectsMembership n := by simp [ha]
  simpa using hn

/-- Two schemas with different names share none. -/
theorem meet_of_schemas_not_all :
    (Scope.of [.ofSchema (.literal [97])] []).meet (.of [.ofSchema (.literal [98])] []) ≠ .all := by
  refine (meet_is_exact .star .star [] _ _ ⟨[97], none⟩).2.2 fun m => ?_
  simp only [mem_of, mem_singleton, exists_eq_left, matches_iff, Pattern.ofSchema, matches_literal]
  rintro ⟨⟨⟨ha, -⟩, -⟩, ⟨hb, -⟩, -⟩
  exact absurd (ha.symm.trans hb) (by decide)

/-- The join and the difference lose no name, and a subset that is reported is one. -/
theorem join_difference_subset_safe (a b d : Scope) (n : ObjectName) :
    (a.objectsMembership n ∨ b.objectsMembership n → (a.join b).objectsMembership n) ∧
    (a.difference b = .scope d → a.objectsMembership n → ¬ b.objectsMembership n → d.objectsMembership n) ∧
    (a.subset b → a.objectsMembership n → b.objectsMembership n) :=
  ⟨mem_join, mem_difference, mem_of_subset⟩

/-- A table of a schema is in the schema, and stays there without another table. -/
theorem table_stays_in_schema :
    let schema := Scope.of [.ofSchema (.literal [97])] []
    let table : Scope := .of [⟨.literal [97], .literal [99]⟩] []
    let other : Scope := .of [⟨.literal [97], .literal [98]⟩] []
    let left : Scope := .of [.ofSchema (.literal [97])] [⟨.literal [97], .literal [98]⟩]
    schema.difference other = .scope left ∧ left.objectsMembership ⟨[97], some [99]⟩ ∧
    (table.join other).objectsMembership ⟨[97], some [99]⟩ ∧ schema.objectsMembership ⟨[97], some [99]⟩ := by
  intro schema table other left
  refine ⟨by decide, ?_, ?_, ?_⟩
  · exact (join_difference_subset_safe schema other left _).2.1 (by decide) (by decide) (by decide)
  · exact (join_difference_subset_safe table other left _).1 (.inl (by decide))
  · exact (join_difference_subset_safe table schema left _).2.2 (by decide) (by decide)

end Zeroship.Policy

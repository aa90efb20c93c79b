import Zeroship.Policy.Scope

/-! What a join of scopes keeps and forgets.

The join of several scopes has the includes of all of them. It has excludes only if all
but one of the scopes are empty: two proper scopes lose theirs. `Unites` says so of any
scope that was joined from a list, and `LeavesSome` says in terms of the patterns when
one union taken from another leaves anything. -/
namespace Zeroship.Policy
open List Scope

/-- A scope by patterns has an include. -/
def Scope.Proper : Scope → Prop
  | of includes _ => includes ≠ []
  | _ => True

def Scope.includes : Scope → List Pattern
  | of includes _ => includes
  | _ => []

variable (scopes : List Scope)

/-- The includes of all the scopes. -/
def includesOf : List Pattern := scopes.flatMap Scope.includes

/-- The excludes that are kept: those of a lone scope. -/
def keptExcludes : List Pattern :=
  match scopes.filter (· ≠ .nothing) with
  | [.of _ excludes] => excludes
  | _ => []

/-- The scope was joined from the scopes. -/
def Unites : Scope → Prop
  | .nothing => ∀ s ∈ scopes, s = .nothing
  | .all => .all ∈ scopes
  | .of includes excludes => .all ∉ scopes ∧ (∃ s ∈ scopes, s ≠ .nothing) ∧
    (∀ p, p ∈ includes ↔ p ∈ includesOf scopes) ∧ ∀ p, p ∈ excludes ↔ p ∈ keptExcludes scopes

/-- Two or more proper scopes stand together, and an include of one matches the name. -/
def Swallows (o : ObjectName) : Prop :=
  2 ≤ (scopes.filter (· ≠ .nothing)).length ∧ ∃ p ∈ includesOf scopes, p.matches o

/-- Something of one union is left without the other: everything, or all of it, or an
include that no single pattern covers, or a hole of the other that no single exclude covers. -/
def LeavesSome (above : List Scope) : Prop :=
  (∃ s ∈ scopes, s ≠ .nothing) ∧ .all ∉ above ∧
    (.all ∈ scopes ∨ (∀ s ∈ above, s = .nothing) ∨ ∃ p ∈ includesOf scopes,
      (∀ q ∈ keptExcludes scopes ++ includesOf above, ¬ patternCovers q p) ∨
        ∃ h ∈ keptExcludes above, ∃ q ∈ intersectPattern p h, ∀ e ∈ keptExcludes scopes, ¬ patternCovers e q)

/-- What shows of a scope under a mask. A difference without a form shows all of it. -/
def Scope.visible (granted mask : Scope) : Scope :=
  match granted.difference mask with
  | .scope s => s
  | .notRepresentable => granted

section
variable {a b : Scope} {includes excludes ai ae bi be : List Pattern}

theorem proper_normalize {s : Scope} : s.normalize.Proper := by
  cases s with
  | nothing | all => trivial
  | of includes excludes =>
    simp only [Scope.normalize]
    split
    · trivial
    · rename_i hne
      obtain ⟨p, hp⟩ := exists_mem_of_ne_nil _ hne
      exact ne_nil_of_mem (mem_dedup.mpr hp)

theorem proper_meet (ha : a.Proper) (hb : b.Proper) : (a.meet b).Proper := by
  cases a <;> cases b <;> simp only [meet]
  case of.of => exact proper_normalize
  all_goals trivial

theorem proper_join (ha : a.Proper) (hb : b.Proper) : (a.join b).Proper := by
  cases a <;> cases b <;> simp only [join]
  case of.of => exact proper_normalize
  all_goals trivial

theorem normalize_eq_nothing :
    (of includes excludes).normalize = .nothing ↔ ∀ p ∈ includes, ∃ e ∈ excludes, patternCovers e p := by
  simp only [Scope.normalize]
  split
  · rename_i hn
    simpa using hn
  · rename_i hne
    simpa using hne

theorem normalize_of_clear (hne : includes ≠ []) (hc : ∀ e ∈ excludes, ∀ p ∈ includes, intersectPattern p e = []) :
    (of includes excludes).normalize = .of (dedup includes) [] := by
  have hl : (includes.filter fun p => !excludes.any fun e => patternCovers e p) = includes := by
    refine filter_eq_self.mpr fun p hp => ?_
    simp only [Bool.not_eq_true', any_eq_false]
    exact fun e he hcv => intersect_ne_nil hcv (hc e he p hp)
  simp only [Scope.normalize, hl, if_neg hne, Scope.of.injEq, true_and, filter_eq_nil_iff, mem_dedup]
  intro e he
  simpa using hc e he

theorem join_of_of (hne : ai ≠ []) : (of ai ae).join (.of bi be) = .of (dedup (dedup (ai ++ bi))) [] := by
  obtain ⟨p, hp⟩ := exists_mem_of_ne_nil _ hne
  refine normalize_of_clear (ne_nil_of_mem (mem_dedup.mpr (mem_append_left bi hp))) fun e he => ?_
  simpa using (mem_filter.mp he).2

theorem join_eq_nothing (ha : a.Proper) : a.join b = .nothing ↔ a = .nothing ∧ b = .nothing := by
  cases a with
  | nothing => cases b <;> simp [join]
  | all => simp [join]
  | of ai ae =>
    cases b with
    | nothing | all => simp [join]
    | of bi be => simp [join_of_of ha]

theorem join_eq_all (ha : a.Proper) : a.join b = .all ↔ a = .all ∨ b = .all := by
  cases a with
  | nothing => cases b <;> simp [join]
  | all => simp [join]
  | of ai ae =>
    cases b with
    | nothing | all => simp [join]
    | of bi be => simp [join_of_of ha]

theorem normalize_of_ne_all : (of includes excludes).normalize ≠ .all := by
  simp only [Scope.normalize]
  split <;> simp

theorem difference_of_ne_all : (of ai ae).difference b ≠ .scope .all := by
  cases b with
  | nothing | all => simp [difference]
  | of bi be =>
    simp only [difference, ne_eq, Difference.scope.injEq]
    rw [join_eq_all proper_normalize, not_or]
    refine ⟨normalize_of_ne_all, ?_⟩
    split
    · simp
    · rename_i hne
      rw [normalize_of_clear hne (by simp), meet]
      exact normalize_of_ne_all

/-- The difference is empty if each include is covered by one pattern of the other side and
every hole of the other side by one exclude. -/
theorem difference_eq_nothing : (of ai ae).difference (.of bi be) = .scope .nothing ↔
    ∀ p ∈ ai, (∃ q ∈ ae ++ bi, patternCovers q p) ∧
      ∀ h ∈ be, ∀ q ∈ intersectPattern p h, ∃ e ∈ ae, patternCovers e q := by
  have hh : (if be = [] then .nothing else (of ai ae).meet (of be []).normalize) = .nothing ↔
      ∀ p ∈ ai, ∀ h ∈ be, ∀ q ∈ intersectPattern p h, ∃ e ∈ ae, patternCovers e q := by
    split
    · rename_i hn
      simp [hn]
    rename_i hne
    rw [normalize_of_clear hne (by simp), meet, normalize_eq_nothing]
    simp only [mem_dedup, mem_flatMap, append_nil]
    constructor
    · intro h p hp x hx q hq
      exact h q ⟨p, hp, x, hx, hq⟩
    · rintro h q ⟨p, hp, x, hx, hq⟩
      exact h p hp x hx q hq
  simp only [difference, Difference.scope.injEq]
  rw [join_eq_nothing proper_normalize, hh, normalize_eq_nothing]
  simp only [mem_dedup]
  exact ⟨fun h p hp => ⟨h.1 p hp, h.2 p hp⟩, fun h => ⟨fun p hp => (h p hp).1, fun p hp => (h p hp).2⟩⟩

end

/-! ### Unions -/

section
variable {s t granted mask : Scope} {scopes others raising above : List Scope} {o : ObjectName}

theorem unites_nil : Unites [] .nothing := by simp [Unites]

theorem unites_singleton (hs : s.Proper) : Unites [s] s := by
  cases s with
  | nothing | all => simp [Unites]
  | of includes excludes => simp [Unites, includesOf, Scope.includes, keptExcludes]

theorem Unites.proper (h : Unites scopes s) (hpr : ∀ t ∈ scopes, t.Proper) : s.Proper := by
  cases s with
  | nothing | all => trivial
  | of includes excludes =>
    obtain ⟨ha, ⟨t, ht, hne⟩, hi, -⟩ := h
    cases t with
    | nothing => exact absurd rfl hne
    | all => exact absurd ht ha
    | of ti te =>
      obtain ⟨p, hp⟩ := exists_mem_of_ne_nil _ (hpr _ ht)
      exact ne_nil_of_mem ((hi p).mpr (mem_flatMap.mpr ⟨_, ht, hp⟩))

theorem filter_ne_nothing_eq_nil (h : ∀ s ∈ scopes, s = .nothing) : scopes.filter (· ≠ .nothing) = [] :=
  filter_eq_nil_iff.mpr fun s hs => by simp [h s hs]

theorem unites_append_nothing (hs : Unites scopes s) (ho : ∀ t ∈ others, t = .nothing) :
    Unites (scopes ++ others) s ∧ Unites (others ++ scopes) s := by
  have hi : includesOf others = [] := by
    refine flatMap_eq_nil_iff.mpr fun t ht => ?_
    rw [ho t ht]
    rfl
  have ha : .all ∉ others := fun h => by simpa using ho _ h
  cases s with
  | nothing => exact ⟨by simpa [Unites, or_imp, forall_and] using ⟨hs, ho⟩,
      by simpa [Unites, or_imp, forall_and] using ⟨ho, hs⟩⟩
  | all => exact ⟨mem_append_left _ hs, mem_append_right _ hs⟩
  | of includes excludes =>
    obtain ⟨hn, ⟨t, ht, hne⟩, hin, hex⟩ := hs
    have he := filter_ne_nothing_eq_nil ho
    constructor
    · refine ⟨by simp [hn, ha], ⟨t, mem_append_left _ ht, hne⟩, fun p => ?_, fun p => ?_⟩
      · rw [hin, includesOf, includesOf, flatMap_append, ← includesOf, ← includesOf, hi, append_nil]
      · rw [hex, keptExcludes, keptExcludes, filter_append, he, append_nil]
    · refine ⟨by simp [hn, ha], ⟨t, mem_append_right _ ht, hne⟩, fun p => ?_, fun p => ?_⟩
      · rw [hin, includesOf, includesOf, flatMap_append, ← includesOf, ← includesOf, hi, nil_append]
      · rw [hex, keptExcludes, keptExcludes, filter_append, he, nil_append]

theorem keptExcludes_append (hs : ∃ s ∈ scopes, s ≠ .nothing) (ht : ∃ t ∈ others, t ≠ .nothing) :
    keptExcludes (scopes ++ others) = [] := by
  have hl {l : List Scope} (h : ∃ s ∈ l, s ≠ .nothing) : l.filter (· ≠ .nothing) ≠ [] := by
    obtain ⟨s, hs, hne⟩ := h
    exact ne_nil_of_mem (mem_filter.mpr ⟨hs, by simpa using hne⟩)
  obtain ⟨s, rest, hs⟩ := exists_cons_of_ne_nil (hl hs)
  obtain ⟨t, rest', ht⟩ := exists_cons_of_ne_nil (hl ht)
  rw [keptExcludes, filter_append, hs, ht]
  split
  · rename_i heq
    simp at heq
  · rfl

theorem Unites.join (hs : Unites scopes s) (ht : Unites others t) (hp : ∀ s ∈ scopes, s.Proper) :
    Unites (scopes ++ others) (s.join t) := by
  cases s with
  | all =>
    rw [join]
    exact mem_append_left _ hs
  | nothing =>
    have hj : nothing.join t = t := by cases t <;> rfl
    rw [hj]
    exact (unites_append_nothing ht hs).2
  | of si se =>
    cases t with
    | all => exact mem_append_right _ ht
    | nothing => exact (unites_append_nothing hs ht).1
    | of ti te =>
      have hne : si ≠ [] := hs.proper hp
      obtain ⟨hn, hsm, hin, -⟩ := hs
      obtain ⟨hn', hs', hi', -⟩ := ht
      rw [join_of_of hne]
      refine ⟨by simp [hn, hn'], ?_, fun p => ?_, fun p => ?_⟩
      · obtain ⟨x, hx, hxn⟩ := hsm
        exact ⟨x, mem_append_left _ hx, hxn⟩
      · rw [mem_dedup, mem_dedup, mem_append, hin, hi', includesOf, includesOf, includesOf, flatMap_append,
          mem_append]
      · rw [keptExcludes_append hsm hs']

theorem Unites.mem (h : Unites scopes s) (ht : t ∈ scopes) (hto : t.objectsMembership o) : s.objectsMembership o := by
  cases s with
  | nothing => simp [h t ht] at hto
  | all => rfl
  | of includes excludes =>
    obtain ⟨hn, -, hin, hex⟩ := h
    cases t with
    | nothing => simp at hto
    | all => exact absurd ht hn
    | of ti te =>
      obtain ⟨⟨p, hp, hpo⟩, ho⟩ := mem_of.mp hto
      refine mem_of.mpr ⟨⟨p, (hin p).mpr (mem_flatMap.mpr ⟨_, ht, hp⟩), hpo⟩, fun e he => ?_⟩
      rw [hex, keptExcludes] at he
      split at he
      · -- the only proper scope is the one with the name
        rename_i i x hl
        have hm : of ti te ∈ scopes.filter (· ≠ .nothing) := mem_filter.mpr ⟨ht, rfl⟩
        rw [hl, mem_singleton, of.injEq] at hm
        exact ho e (hm.2 ▸ he)
      · simp at he

theorem Unites.swallows (h : Unites scopes s) (hs : s.objectsMembership o)
    (hn : ∀ t ∈ scopes, ¬ t.objectsMembership o) : Swallows scopes o := by
  cases s with
  | nothing => simp at hs
  | all => exact absurd rfl (hn _ h)
  | of includes excludes =>
    obtain ⟨hnt, ⟨x, hx, hxn⟩, hin, hex⟩ := h
    obtain ⟨⟨p, hp, hpo⟩, ho⟩ := mem_of.mp hs
    rw [hin] at hp
    refine ⟨?_, p, hp, hpo⟩
    by_contra hl
    -- a lone proper scope keeps its excludes, so it has the name
    have hf : x ∈ scopes.filter (· ≠ .nothing) := mem_filter.mpr ⟨hx, by simpa using hxn⟩
    obtain ⟨y, hy⟩ : ∃ y, scopes.filter (· ≠ .nothing) = [y] := by
      rw [← length_eq_one_iff]
      have := length_pos_of_mem hf
      omega
    obtain ⟨t, ht, hpt⟩ := mem_flatMap.mp hp
    cases t with
    | nothing | all => simp [Scope.includes] at hpt
    | of ti te =>
      have hm : of ti te ∈ scopes.filter (· ≠ .nothing) := mem_filter.mpr ⟨ht, rfl⟩
      rw [hy, mem_singleton] at hm
      refine hn _ ht (mem_of.mpr ⟨⟨p, hpt, hpo⟩, fun e he => ho e ?_⟩)
      rw [hex, keptExcludes, hy, ← hm]
      exact he

/-- Nothing shows exactly if nothing is left of the patterns. -/
theorem visible_eq_nothing (hg : Unites raising granted) (hm : Unites above mask) :
    granted.visible mask = .nothing ↔ ¬ LeavesSome raising above := by
  cases granted with
  | nothing =>
    have hnn : ¬ LeavesSome raising above := fun ⟨⟨s, hs, hne⟩, _⟩ => hne (hg s hs)
    cases mask <;> simp [visible, difference, hnn]
  | all =>
    have hl (hn : .all ∉ above) : LeavesSome raising above := ⟨⟨.all, hg, by simp⟩, hn, .inl hg⟩
    cases mask with
    | all => exact iff_of_true rfl fun h => h.2.1 hm
    | nothing => simpa [visible, difference] using hl fun h => by simpa using hm _ h
    | of mi me => simpa [visible, difference] using hl hm.1
  | of gi ge =>
    obtain ⟨hn, hsm, hin, he⟩ := hg
    cases mask with
    | all => exact iff_of_true rfl fun h => h.2.1 hm
    | nothing =>
      have hl : LeavesSome raising above := ⟨hsm, fun h => by simpa using hm _ h, .inr (.inl hm)⟩
      simpa [visible, difference] using hl
    | of mi me =>
      obtain ⟨hn', ⟨x, hx, hxn⟩, hi', he'⟩ := hm
      have hv : (of gi ge).visible (.of mi me) = .nothing ↔
          (of gi ge).difference (.of mi me) = .scope .nothing := by simp [visible, difference]
      rw [hv, difference_eq_nothing, LeavesSome]
      have hp : ¬ ∀ s ∈ above, s = .nothing := fun h => hxn (h x hx)
      simp only [hsm, hn, hn', hp, not_false_eq_true, true_and, false_or, hin, he, hi', he',
        mem_append]
      push Not
      rfl

end

end Zeroship.Policy

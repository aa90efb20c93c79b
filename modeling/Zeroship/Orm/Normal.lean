import Zeroship.Orm.Documents

/-! The canonical form of an update.

A patch names its operators in two ways, by document and by field, and the operands of `$set`
may look like either. Its canonical form gathers what is set under one `$set` and spells the
rest by field; it is read back as the same assignments, and is its own canonical form. -/
namespace Zeroship.Orm.Normal
open List Base

variable {α : Type}

/-- A value: an object, or one that is no object. -/
inductive Operand (α : Type)
  | plain (a : α)
  | object (fields : List (String × Operand α))

structure Assignment (α : Type) where
  field : String
  operator : Operator
  operand : Operand α

def name : Operator → String
  | .set => "$set"
  | .increment => "$inc"
  | .decrement => "$dec"
  | .multiply => "$mul"
  | .push => "$push"
  | .pull => "$pull"
  | .addToSet => "$addToSet"

def hasOperator (fields : List (String × Operand α)) : Bool := fields.any (isOperatorName ·.1)

def fieldOperator : Operand α → Except DbError Operator
  | .plain _ => .ok .set
  | .object fields =>
    match fields.find? (isOperatorName ·.1) with
    | none => .ok .set
    | some f =>
      if fields.length ≠ 1 then .error (.invalidUpdate "a field update must contain exactly one operator")
      else Operator.parse f.1

/-- The operand of a field under its operator. -/
def operandOf (operator : Operator) : Operand α → Operand α
  | .plain a => .plain a
  | .object fields => if hasOperator fields then (fields.lookup (name operator)).getD (.object fields) else .object fields

/-- What an entry of a patch adds, in order, up to an error. -/
def entries (field : String) (value : Operand α) : List (Except DbError (Assignment α)) :=
  if isOperatorName field then
    match Operator.parse field, value with
    | .error e, _ => [.error e]
    | .ok _, .plain _ => [.error (.invalidUpdate (field ++ " requires an object"))]
    | .ok operator, .object fields => fields.map fun f =>
      if isOperatorName f.1 then .error (.invalidUpdate "update field names cannot begin with '$'")
      else .ok ⟨f.1, operator, f.2⟩
  else [(fieldOperator value).map fun operator => ⟨field, operator, operandOf operator value⟩]

section
variable (numeric : α → Bool)

def numericOperand : Operand α → Bool
  | .plain a => numeric a
  | .object _ => false

def add (result : List (Assignment α)) (entry : Except DbError (Assignment α)) : Except DbError (List (Assignment α)) := do
  let a ← entry
  demand (a.field ∉ result.map (·.field)) (.invalidUpdate "a field may be assigned only once per update")
  demand (a.operator.arithmetic?.isSome → numericOperand numeric a.operand) (.invalidArithmeticOperand a.field)
  pure (result ++ [a])

def assignments : Operand α → Except DbError (List (Assignment α))
  | .plain _ => .error (.invalidUpdate "update must be an object")
  | .object fields => do
    let result ← (fields.flatMap fun f => entries f.1 f.2).foldlM (add numeric) []
    demand (result ≠ []) (.invalidUpdate "update fields cannot be empty")
    pure result

variable (patch : Operand α) (field : String)

/-- An operator object gives its last entry. -/
def popped (fields : List (String × Operand α)) : List (Assignment α) :=
  match fields.getLast? with
  | none => []
  | some f => (Operator.parse f.1).toOption.toList.map fun operator => ⟨field, operator, f.2⟩

/-- An entry of a patch that was accepted, taken apart. -/
def moved : Operand α → List (Assignment α)
  | .plain a => if isOperatorName field then [] else [⟨field, .set, .plain a⟩]
  | .object fields =>
    if isOperatorName field then
      (Operator.parse field).toOption.toList.flatMap fun operator => fields.map fun f => ⟨f.1, operator, f.2⟩
    else if hasOperator fields then popped field fields
    else [⟨field, .set, .object fields⟩]

def canonical (xs : List (Assignment α)) : List (String × Operand α) :=
  let sets := (xs.filter (·.operator = .set)).map fun a => (a.field, a.operand)
  (xs.filter (·.operator ≠ .set)).map (fun a => (a.field, .object [(name a.operator, a.operand)])) ++
    if sets = [] then [] else [("$set", .object sets)]

/-- The outcome, and the patch after it. -/
def normalize : Except DbError Unit × Operand α :=
  match assignments numeric patch, patch with
  | .error e, _ => (.error e, patch)
  | .ok _, .plain _ => (.ok (), patch)
  | .ok _, .object fields => (.ok (), .object (canonical (fields.flatMap fun f => moved f.1 f.2)))

/-- An entry of a canonical patch, taken apart. -/
def owned : Operand α → List (Assignment α)
  | .plain _ => []
  | .object fields => if field = "$set" then fields.map fun f => ⟨f.1, .set, f.2⟩ else popped field fields

def intoAssignments : Except DbError (List (Assignment α)) :=
  match normalize numeric patch with
  | (.error e, _) => .error e
  | (.ok _, .plain _) => .ok []
  | (.ok _, .object fields) => .ok (fields.flatMap fun f => owned f.1 f.2)

end

section
variable {numeric : α → Bool} {field : String} {value : Operand α} {fields : List (String × Operand α)}
  {xs : List (Assignment α)} {acc r : List (Assignment α)}

theorem name_of_parse {s : String} {operator : Operator} (h : Operator.parse s = .ok operator) : name operator = s := by
  unfold Operator.parse at h
  split at h <;> cases h <;> rfl

variable (operator : Operator)

@[simp] theorem parse_name : Operator.parse (name operator) = .ok operator := by
  cases operator <;> rfl

@[simp] theorem isOperatorName_name : isOperatorName (name operator) := by
  cases operator <;> decide

/-- Arithmetic is on numbers. -/
def Assignment.Fits (numeric : α → Bool) (a : Assignment α) : Prop :=
  a.operator.arithmetic?.isSome → numericOperand numeric a.operand

theorem add_ok {e : Except DbError (Assignment α)} : add numeric acc e = .ok r ↔
    ∃ a, e = .ok a ∧ a.field ∉ acc.map (·.field) ∧ a.Fits numeric ∧ acc ++ [a] = r :=
  bind_ok.trans (exists_congr fun _ => and_congr_right' (seq_ok.trans
    (and_congr demand_ok (seq_ok.trans (and_congr demand_ok pure_ok)))))

theorem foldlM_add {es : List (Except DbError (Assignment α))} :
    es.foldlM (add numeric) acc = .ok r ↔ ∃ as, es = as.map .ok ∧ acc ++ as = r ∧ (as.map (·.field)).Nodup ∧
      ∀ a ∈ as, a.field ∉ acc.map (·.field) ∧ a.Fits numeric := by
  induction es generalizing acc with
  | nil => simp [pure_ok]
  | cons e es ih =>
    simp only [foldlM_cons, bind_ok, add_ok, ih]
    constructor
    · rintro ⟨_, ⟨a, rfl, hn, hf, rfl⟩, as, rfl, rfl, hnd, ha⟩
      refine ⟨a :: as, rfl, by simp, ?_, forall_mem_cons.mpr ⟨⟨hn, hf⟩, fun b hb => ?_⟩⟩ <;> grind
    · rintro ⟨as, hes, rfl, hnd, ha⟩
      obtain ⟨a, as, rfl, rfl, rfl⟩ := map_eq_cons_iff.mp hes.symm
      refine ⟨_, ⟨a, rfl, (ha a mem_cons_self).1, (ha a mem_cons_self).2, rfl⟩, as, rfl, by simp, ?_⟩
      grind

theorem assignments_ok : assignments numeric (.object fields) = .ok xs ↔
    (fields.flatMap fun f => entries f.1 f.2) = xs.map .ok ∧ (xs.map (·.field)).Nodup ∧
      (∀ a ∈ xs, a.Fits numeric) ∧ xs ≠ [] := by
  rw [assignments, bind_ok]
  constructor
  · rintro ⟨r, hr, h⟩
    obtain ⟨as, hes, rfl, hnd, has⟩ := foldlM_add.mp hr
    rw [seq_ok, demand_ok, pure_ok] at h
    obtain ⟨hne, rfl⟩ := h
    exact ⟨hes, hnd, fun a ha => (has a ha).2, hne⟩
  · rintro ⟨hes, hnd, has, hne⟩
    refine ⟨xs, foldlM_add.mpr ⟨xs, hes, rfl, hnd, fun a ha => ⟨not_mem_nil, has a ha⟩⟩, ?_⟩
    rw [seq_ok, demand_ok, pure_ok]
    exact ⟨hne, rfl⟩

/-- What is accepted is taken apart as it was read. -/
theorem entries_eq_moved (h : ∀ e ∈ entries field value, ∃ a, e = .ok a) :
    entries field value = (moved field value).map .ok ∧ ∀ a ∈ moved field value, ¬ isOperatorName a.field := by
  unfold entries at h ⊢
  by_cases hf : isOperatorName field
  · cases hp : Operator.parse field with
    | error e => simp [hf, hp] at h
    | ok operator =>
      cases value with
      | plain a => simp [hf, hp] at h
      | object fields =>
        simp only [hf, hp, if_true, forall_mem_map] at h ⊢
        have hal : ∀ f ∈ fields, ¬ isOperatorName f.1 := fun f hm ho => by simpa [ho] using h f hm
        have hmv : moved field (.object fields) = fields.map fun f => ⟨f.1, operator, f.2⟩ := by
          simp [moved, hf, hp, Except.toOption]
        rw [hmv, map_map]
        exact ⟨map_congr_left fun f hm => if_neg (hal f hm), forall_mem_map.mpr hal⟩
  · rw [if_neg hf] at h ⊢
    obtain ⟨a, ha⟩ := h _ mem_cons_self
    cases value with
    | plain a => simp [fieldOperator, moved, hf, operandOf, Except.map]
    | object fields =>
      cases hfn : fields.find? (isOperatorName ·.1) with
      | none =>
        have hn : hasOperator fields = false := by simpa [hasOperator] using hfn
        simp [fieldOperator, hfn, moved, hf, operandOf, hn, Except.map]
      | some f =>
        simp only [fieldOperator, hfn] at ha ⊢
        split_ifs at ha ⊢ with hl
        · cases ha
        · obtain ⟨g, rfl⟩ := length_eq_one_iff.mp (not_not.mp hl)
          obtain rfl : f = g := by simpa using mem_of_find?_eq_some hfn
          have ho : isOperatorName f.1 := by simpa using hfn
          cases hp : Operator.parse f.1 with
          | error e => simp [hp, Except.map] at ha
          | ok operator =>
            obtain ⟨spelled, operand⟩ := f
            obtain rfl : name operator = spelled := name_of_parse hp
            simp [moved, hf, operandOf, hasOperator, popped, Except.map, Except.toOption]

/-- The assignments as the canonical patch has them. -/
def arranged (xs : List (Assignment α)) : List (Assignment α) :=
  xs.filter (·.operator ≠ .set) ++ xs.filter (·.operator = .set)

theorem set_eta {a : Assignment α} (h : a.operator = .set) : ⟨a.field, .set, a.operand⟩ = a := by
  rw [← h]

theorem arranged_perm (xs : List (Assignment α)) : (arranged xs).Perm xs := by
  have h := filter_append_perm (fun a : Assignment α => decide (a.operator = .set)) xs
  simpa [arranged] using perm_append_comm.trans h

theorem canonical_arranged (xs : List (Assignment α)) : canonical (arranged xs) = canonical xs := by
  simp [canonical, arranged, filter_append, filter_filter]

theorem flatMap_canonical {β : Type} {f : String → Operand α → List β} {g : Assignment α → β}
    (ho : ∀ a ∈ xs, a.operator ≠ .set → f a.field (.object [(name a.operator, a.operand)]) = [g a])
    (hs : f "$set" (.object ((xs.filter (·.operator = .set)).map fun a => (a.field, a.operand))) =
      (xs.filter (·.operator = .set)).map g) :
    ((canonical xs).flatMap fun e => f e.1 e.2) = (arranged xs).map g := by
  rw [canonical, arranged, flatMap_append, map_append, flatMap_map]
  congr 1
  · rw [map_eq_flatMap]
    exact flatMap_congr fun a ha => ho a (mem_of_mem_filter ha) (by simpa using (mem_filter.mp ha).2)
  · split_ifs with hn
    · rw [map_eq_nil_iff.mp hn]
      rfl
    · rw [← hs, flatMap_singleton]

theorem moved_of_assignments (h : assignments numeric (.object fields) = .ok xs) :
    (fields.flatMap fun f => moved f.1 f.2) = xs ∧ ∀ a ∈ xs, ¬ isOperatorName a.field := by
  obtain ⟨hes, -⟩ := assignments_ok.mp h
  have ho : ∀ f ∈ fields, ∀ e ∈ entries f.1 f.2, ∃ a, e = .ok a := by
    intro f hf e he
    have hmm : e ∈ xs.map .ok := hes ▸ mem_flatMap.mpr ⟨f, hf, he⟩
    obtain ⟨a, -, rfl⟩ := mem_map.mp hmm
    exact ⟨a, rfl⟩
  have hm : (fields.flatMap fun f => moved f.1 f.2) = xs := by
    refine map_injective_iff.mpr (fun _ _ => Except.ok.inj) (Eq.trans ?_ hes)
    rw [map_flatMap]
    exact flatMap_congr fun f hf => (entries_eq_moved (ho f hf)).1.symm
  refine ⟨hm, fun a ha => ?_⟩
  rw [← hm] at ha
  obtain ⟨f, hf, ha⟩ := mem_flatMap.mp ha
  exact (entries_eq_moved (ho f hf)).2 a ha

theorem normalize_of_ok (h : assignments numeric (.object fields) = .ok xs) :
    normalize numeric (.object fields) = (.ok (), .object (canonical xs)) := by
  simp only [normalize, h, (moved_of_assignments h).1]

theorem assignments_canonical (h : assignments numeric (.object fields) = .ok xs) :
    assignments numeric (.object (canonical xs)) = .ok (arranged xs) := by
  obtain ⟨-, hnd, hf, hne⟩ := assignments_ok.mp h
  have hpl := (moved_of_assignments h).2
  have hp := arranged_perm xs
  refine assignments_ok.mpr ⟨flatMap_canonical (fun a ha _ => ?_) ?_, (hp.map _).nodup_iff.mpr hnd,
    fun a ha => hf a (hp.mem_iff.mp ha), fun hn => hne (perm_nil.mp (hn ▸ hp).symm)⟩
  · simp [entries, hpl a ha, fieldOperator, operandOf, hasOperator, Except.map]
  · change map _ (map _ _) = _
    rw [map_map]
    refine map_congr_left fun a ha => ?_
    obtain ⟨hm, hs⟩ := mem_filter.mp ha
    exact (if_neg (hpl a hm)).trans (congrArg _ (set_eta (of_decide_eq_true hs)))

end

/-- An update that is accepted has the same assignments in its canonical form, which stays as it is
when it is normalized again; one that is refused stays as it is. -/
theorem normalize_preserves (numeric : α → Bool) (patch : Operand α) :
    match assignments numeric patch with
    | .error e => normalize numeric patch = (.error e, patch)
    | .ok xs => ∃ patch' ys, normalize numeric patch = (.ok (), patch') ∧
        assignments numeric patch' = .ok ys ∧ ys.Perm xs ∧ normalize numeric patch' = (.ok (), patch') ∧
        intoAssignments numeric patch = .ok ys ∧ (ys.map (·.field)).Nodup := by
  cases h : assignments numeric patch with
  | error e => simp only [normalize, h]
  | ok xs =>
    cases patch with
    | plain a => cases h
    | object fields =>
      have hc := assignments_canonical h
      refine ⟨_, _, normalize_of_ok h, hc, arranged_perm xs, ?_, ?_, (assignments_ok.mp hc).2.1⟩
      · rw [normalize_of_ok hc, canonical_arranged]
      · simp only [intoAssignments, normalize_of_ok h]
        rw [flatMap_canonical (g := id) (fun a ha _ => ?_) ?_, map_id]
        · change map _ (map _ _) = _
          rw [map_map]
          exact map_congr_left fun a ha => set_eta (of_decide_eq_true (mem_filter.mp ha).2)
        · have hne : a.field ≠ "$set" := fun heq => (moved_of_assignments h).2 a ha (heq ▸ rfl)
          simp [owned, hne, popped, Except.toOption]

/-! ### The assignments of an accepted patch -/

/-- An operand of a patch, as it is spelled. -/
def spelled : PatchValue → Operand Value
  | .value v => .plain v
  | .object _ fields => .object (fields.map fun f => (f.1, .plain f.2))

section
variable (whole : List (String × Operand Value) → Value)

/-- The value of an object is the one its fields give. -/
def Whole : PatchValue → Prop
  | .value _ => True
  | .object v fields => whole (fields.map fun f => (f.1, .plain f.2)) = v

/-- The assignments read the same; only what is set may be an object. -/
inductive Reads : Assignment Value → PatchAssignment → Prop
  | plain (field : String) (operator : Operator) (v : Value) : Reads ⟨field, operator, .plain v⟩ ⟨field, operator, v⟩
  | object (field : String) (fields : List (String × Operand Value)) :
      Reads ⟨field, .set, .object fields⟩ ⟨field, .set, whole fields⟩

variable {whole} {B : Backend} {field : String} {value : PatchValue} {given : List PatchAssignment}
  {patch : List (String × PatchValue)} {xs : List (Assignment Value)}

theorem entries_spelled (hw : Whole whole value) (h : entryAssignments field value = .ok given) :
    ∃ xs : List (Assignment Value), entries field (spelled value) = xs.map .ok ∧ xs.Forall₂ (Reads whole) given := by
  unfold entryAssignments at h
  unfold entries
  split at h
  next hf =>
    rw [if_pos hf]
    obtain ⟨operator, hp, h⟩ := bind_ok.mp h
    cases value with
    | value v => cases h
    | object v fields =>
      simp only [bind_ok, demand_ok, pure_ok] at h
      obtain ⟨_, ha, rfl⟩ := h
      refine ⟨fields.map fun f => ⟨f.1, operator, .plain f.2⟩, ?_, ?_⟩
      · simp only [hp, spelled, map_map]
        exact map_congr_left fun f hm => if_neg (ha f hm)
      · rw [forall₂_map_left_iff, forall₂_map_right_iff]
        exact forall₂_same.mpr fun f _ => .plain ..
  next hf =>
    rw [if_neg hf]
    cases value with
    | value v =>
      cases h
      exact ⟨[_], rfl, .cons (.plain ..) .nil⟩
    | object v fields =>
      have hfind : (fields.map fun f => (f.1, Operand.plain f.2)).find? (isOperatorName ·.1) =
          (fields.find? (isOperatorName ·.1)).map fun f => (f.1, .plain f.2) := find?_map
      dsimp only [spelled, fieldOperator] at h ⊢
      rw [hfind]
      cases hfn : fields.find? (isOperatorName ·.1) with
      | none =>
        have hn : hasOperator (fields.map fun f => (f.1, Operand.plain f.2)) = false := by
          simpa [hasOperator] using hfn
        rw [hfn] at h
        cases h
        refine ⟨[_], by simp [operandOf, hn, Except.map]; rfl, .cons ?_ .nil⟩
        exact hw ▸ .object ..
      | some f =>
        simp only [hfn, bind_ok, demand_ok, pure_ok] at h
        obtain ⟨_, hl, operator, hp, rfl⟩ := h
        obtain ⟨g, rfl⟩ := length_eq_one_iff.mp hl
        obtain rfl : f = g := by simpa using mem_of_find?_eq_some hfn
        obtain ⟨_, v⟩ := f
        obtain rfl := name_of_parse hp
        refine ⟨[_], ?_, .cons (.plain ..) .nil⟩
        simp [operandOf, hasOperator, Except.map]

/-- **What an accepted patch assigns is read off its spelling**, so that its canonical form keeps it. -/
theorem assignments_spelled (hw : ∀ e ∈ patch, Whole whole e.2) (h : patchAssignments B patch = .ok given) :
    ∃ xs, assignments (Orm.numericOperand B) (.object (patch.map fun e => (e.1, spelled e.2))) = .ok xs ∧
      xs.Forall₂ (Reads whole) given := by
  simp only [patchAssignments, bind_ok, pure_ok, demand_ok] at h
  obtain ⟨parts, hps, _, hn, _, hf, _, hne, rfl⟩ := h
  obtain ⟨xs, hxs, hr⟩ : ∃ xs : List (Assignment Value),
      (patch.flatMap fun e => entries e.1 (spelled e.2)) = xs.map .ok ∧ xs.Forall₂ (Reads whole) parts.flatten := by
    clear hn hf hne
    rw [mapM_ok] at hps
    induction hps with
    | nil => exact ⟨[], rfl, .nil⟩
    | cons hp _ ih =>
      obtain ⟨he, hr⟩ := forall_mem_cons.mp hw
      obtain ⟨xs, hx, hrx⟩ := entries_spelled he hp
      obtain ⟨ys, hy, hry⟩ := ih hr
      exact ⟨xs ++ ys, by rw [flatMap_cons, hx, hy, map_append], rel_append hrx hry⟩
  have hfields : xs.map (·.field) = parts.flatten.map (·.field) := by
    refine forall₂_eq_eq_eq ▸ forall₂_map_left_iff.mpr (forall₂_map_right_iff.mpr (hr.imp fun _ _ hap => ?_))
    cases hap <;> rfl
  refine ⟨xs, assignments_ok.mpr ⟨by rwa [flatMap_map], hfields ▸ hn, fun a ha ho => ?_, ?_⟩, hr⟩
  · obtain ⟨p, hp, hap⟩ := right_of_forall₂ hr ha
    have hd := demand_ok.mp (forM_ok.mp hf p hp)
    cases hap with
    | plain => exact hd ho
    | object => cases ho
  · rintro rfl
    exact hne (forall₂_nil_left_iff.mp hr)

end

end Zeroship.Orm.Normal

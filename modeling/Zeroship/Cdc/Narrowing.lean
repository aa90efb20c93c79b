import Zeroship.Base.Fallible
import Zeroship.Cdc.Subscription

/-! Which rows a narrowed subscription is woken for.

`Satisfies` is what the database does with a filter over integer and text columns. The predicate
of the filter compares the texts of the row. It takes every row that satisfies an equality, and
every row in a range of integers as long as doubles tell the bound from its neighbour. It reads
a range of text as one of numbers, and drops the rows it cannot read. -/
namespace Zeroship.Cdc
open List Option
open Base (Binary64 parseDouble parseDouble_toString)

/-- A value that is not null. -/
inductive Cell
  | int (n : Int)
  | text (s : String)

/-- The text a change carries for the value. -/
def Cell.image : Cell → String
  | .int n => toString n
  | .text s => s

abbrev Row := List (String × Cell)

def Row.image (row : Row) : Tuple := row.map fun c => (c.1, c.2.image)

/-- The operator as a relation. -/
def PredicateOp.Relates {α : Type} [LT α] [LE α] (op : PredicateOp) (a b : α) : Prop :=
  match op with
  | .eq => a = b
  | .gt => b < a
  | .gte => b ≤ a
  | .lt => a < b
  | .lte => a ≤ b

def textBytes (s : String) : List UInt8 := s.toUTF8.data.toList

/-- The comparison with an operand of the column's own type. -/
def Cell.Compares (cell : Cell) (op : PredicateOp) (operand : Scalar) : Prop :=
  match cell, operand with
  | .int a, .number (.int b) => op.Relates a b
  | .text a, .string b => op.Relates (textBytes a) (textBytes b)
  | _, _ => False

/-- The operators of a field: a bare value means equality. -/
def Value.operators : Value → List (String × Value)
  | .object ops => ops
  | value => [("$eq", value)]

variable (row : Row) (filter : Value)

/-- One operator of a column. -/
def SatisfiesOperator (column : String) (entry : String × Value) : Prop :=
  ∃ op operand cell, predicateOp entry.1 = some op ∧ entry.2.toScalar = some operand ∧
    row.lookup column = some cell ∧ cell.Compares op operand

/-- All operators of all columns. -/
def Satisfies : Prop :=
  match filter with
  | .object fields => ∀ field ∈ fields, ∀ entry ∈ field.2.operators, SatisfiesOperator row field.1 entry
  | _ => False

/-- A comparison that holds is not lost on the way through doubles: it is an equality, or a range of
integers that are different doubles if its bound is excluded, or a range of texts that are numbers
in that order. -/
def Kept (cell : Cell) (op : PredicateOp) (operand : Scalar) : Prop :=
  match op, cell, operand with
  | .eq, _, _ => True
  | .gte, .int _, _ => True
  | .lte, .int _, _ => True
  | _, .int a, .number (.int b) => Binary64.ofInt a ≠ .ofInt b
  | op, .text a, .string b => ∃ x ∈ parseDouble a, ∃ y ∈ parseDouble b, op.holds x y
  | _, _, _ => False

/-- Every comparison of the filter is kept. -/
def KeptFilter : Prop :=
  match filter with
  | .object fields => ∀ field ∈ fields, ∀ entry ∈ field.2.operators, ∀ op operand cell, predicateOp entry.1 = some op →
    entry.2.toScalar = some operand → row.lookup field.1 = some cell → Kept cell op operand
  | _ => True

section
variable {row : Row} {cell : Cell} {a b : Int}

/-- A range of integers survives the doubles exactly if it is kept. -/
theorem holds_iff_kept {op : PredicateOp} (ho : op ≠ .eq) (h : op.Relates a b) :
    op.holds (.ofInt a) (.ofInt b) ↔ Kept (.int a) op (.number (.int b)) := by
  cases op with
  | eq => exact absurd rfl ho
  | gt => exact Binary64.lt_iff_ne (Binary64.ofInt_mono (Int.le_of_lt h))
  | gte | lte => exact iff_of_true (Binary64.ofInt_mono h) trivial
  | lt => exact (Binary64.lt_iff_ne (Binary64.ofInt_mono (Int.le_of_lt h))).trans ne_comm

/-- Every bound below `2 ^ 53` is kept. -/
theorem kept_of_small {op : PredicateOp} (hb : |b| < 2 ^ 53) (h : op.Relates a b) :
    Kept (.int a) op (.number (.int b)) := by
  have hb' := abs_lt.mp hb
  cases op with
  | eq | gte | lte => trivial
  | gt =>
    refine (holds_iff_kept (by decide) h).mp (Binary64.lt_of_lt_of_le ?_ (Binary64.ofInt_mono h))
    exact Binary64.ofInt_lt hb.le (abs_le.mpr ⟨by omega, by omega⟩) (by omega)
  | lt =>
    refine (holds_iff_kept (by decide) h).mp (Binary64.lt_of_le_of_lt (Binary64.ofInt_mono (Int.le_sub_one_of_lt h)) ?_)
    exact Binary64.ofInt_lt (abs_le.mpr ⟨by omega, by omega⟩) hb.le (by omega)

theorem lookup_image (row : Row) (column : String) : row.image.lookup column = (row.lookup column).map Cell.image := by
  induction row with
  | nil => rfl
  | cons c rest ih =>
    obtain ⟨name, value⟩ := c
    simp only [Row.image, map_cons, lookup_cons] at ih ⊢
    split
    · rfl
    · exact ih

/-- A comparison that holds in the database holds of the text exactly if it is kept. -/
theorem matchesText_iff {c : Conjunct} (hc : row.lookup c.column = some cell) (h : cell.Compares c.op c.value) :
    c.matchesText row.image ↔ Kept cell c.op c.value := by
  obtain ⟨column, op, operand⟩ := c
  simp only [Conjunct.matchesText, lookup_image, hc, map_some]
  by_cases ho : op = .eq
  · subst ho
    refine iff_of_true ?_ trivial
    cases cell <;> cases operand <;> try exact absurd h id
    case int.number a n =>
      cases n with
      | int b => simpa [Cell.image, valueToText] using congrArg toString h.symm
      | float => exact h.elim
    case text.string a b =>
      have heq : a = b := String.toByteArray_inj.mp (ByteArray.ext (Array.toList_inj.mp h))
      simp [Cell.image, valueToText, heq]
  · cases cell <;> cases operand <;> try exact absurd h id
    case int.number a n =>
      cases n with
      | int b =>
        have hh := holds_iff_kept ho h
        simp only [Cell.image, parseDouble_toString, valueToF64]
        cases op <;> first | exact absurd rfl ho | exact hh
      | float => exact h.elim
    case text.string a b =>
      simp only [Cell.image, valueToF64]
      cases op <;> first | exact absurd rfl ho | skip
      all_goals cases ha : parseDouble a <;> cases hb : parseDouble b <;> simp [Kept, ha, hb]

end

/-! ### What the predicate takes -/

section
variable {schema : FieldMap} {row : Row} {field : String × Value} {c : Conjunct} {p : Predicate}

theorem normaliseField_eq (hk : field.1.toList.head? ≠ some '$')
    (ht : ¬ isTimestampColumn schema field.1) : normaliseField schema field =
      field.2.operators.mapM (normaliseOperator field.1 (maskKindForColumn schema field.1)) := by
  obtain ⟨column, value⟩ := field
  rw [normaliseField, if_neg hk, if_neg ht]
  cases value <;> simp [Value.operators, normaliseOperator, predicateOp, Value.toScalar]

theorem normaliseField_some {cs : List Conjunct} (h : normaliseField schema field = some cs) :
    field.2.operators.mapM (normaliseOperator field.1 (maskKindForColumn schema field.1)) = some cs := by
  by_cases hk : field.1.toList.head? = some '$'
  · rw [normaliseField, if_pos hk] at h
    cases h
  by_cases ht : isTimestampColumn schema field.1
  · rw [normaliseField, if_neg hk, if_pos ht] at h
    cases h
  exact (normaliseField_eq hk ht).symm.trans h

theorem matchesText_of_operator {column : String} {entry : String × Value}
    (h : normaliseOperator column none entry = some c) (hs : SatisfiesOperator row column entry) :
    c.matchesText row.image ↔ ∀ op operand cell, predicateOp entry.1 = some op → entry.2.toScalar = some operand →
      row.lookup column = some cell → Kept cell op operand := by
  obtain ⟨op, operand, cell, hop, ho, hcl, hc⟩ := hs
  simp only [normaliseOperator, hop, ho, bind_eq_bind, bind_some, isSome_none,
    Bool.false_and, Bool.false_eq_true, if_false, lowerOperand, some.injEq] at h
  subst h
  rw [matchesText_iff hcl hc]
  simp [hop, ho, hcl]

/-- The conjuncts are those of the operators. -/
theorem mem_all_iff {fields : List (String × Value)} (hp : normaliseFilter (.object fields) schema = some p) :
    (∀ c ∈ p.all, ∃ field ∈ fields, ∃ entry ∈ field.2.operators,
      normaliseOperator field.1 (maskKindForColumn schema field.1) entry = some c) ∧
    ∀ field ∈ fields, ∀ entry ∈ field.2.operators, ∃ c ∈ p.all,
      normaliseOperator field.1 (maskKindForColumn schema field.1) entry = some c := by
  simp only [normaliseFilter, bind_eq_bind, bind_eq_some_iff, some.injEq] at hp
  obtain ⟨css, hcss, rfl⟩ := hp
  refine ⟨fun c hc => ?_, fun field hf entry he => ?_⟩
  · obtain ⟨cs, hcs, hc⟩ := mem_flatten.mp hc
    obtain ⟨field, hf, hn⟩ := Base.left_of_forall₂ (Base.mapM_some.mp hcss) hcs
    obtain ⟨entry, he, ho⟩ := Base.left_of_forall₂ (Base.mapM_some.mp (normaliseField_some hn)) hc
    exact ⟨field, hf, entry, he, ho⟩
  · obtain ⟨cs, hcs, hn⟩ := Base.right_of_forall₂ (Base.mapM_some.mp hcss) hf
    obtain ⟨c, hc, ho⟩ := Base.right_of_forall₂ (Base.mapM_some.mp (normaliseField_some hn)) he
    exact ⟨c, mem_flatten.mpr ⟨cs, hcs, hc⟩, ho⟩

theorem matches_iff_kept {filter : Value} (hp : normaliseFilter filter schema = some p)
    (hm : ∀ c ∈ row, maskKindForColumn schema c.1 = none) (hs : Satisfies row filter) :
    p.matches row.image ↔ KeptFilter row filter := by
  cases filter <;> try exact hs.elim
  case object fields =>
    obtain ⟨hsource, htarget⟩ := mem_all_iff hp
    -- the column is one of the row's, so it has no mask
    have ho : ∀ field ∈ fields, ∀ entry ∈ field.2.operators, maskKindForColumn schema field.1 = none := by
      intro field hf entry he
      obtain ⟨_, _, cell, -, -, hcl, -⟩ := hs field hf entry he
      obtain ⟨above, below, hr, -⟩ := lookup_eq_some_iff.mp hcl
      exact hm (field.1, cell) (by simp [hr])
    refine all_eq_true.trans ⟨fun h field hf entry he => ?_, fun h c hc => ?_⟩
    · obtain ⟨c, hc, hn⟩ := htarget field hf entry he
      rw [ho field hf entry he] at hn
      exact (matchesText_of_operator hn (hs field hf entry he)).mp (h c hc)
    · obtain ⟨field, hf, entry, he, hn⟩ := hsource c hc
      rw [ho field hf entry he] at hn
      exact (matchesText_of_operator hn (hs field hf entry he)).mpr (h field hf entry he)

theorem accepts_of_matches {s : Subscription} {entries : List ReadSetEntry} {entry : ReadSetEntry} {event : ChangeEvent}
    {image : Tuple} (hr : s.readSet = some entries) (he : entry ∈ entries)
    (hc : entry.collection = event.collection) (hm : entry.matches image)
    (hi : event.newTuple = image ∨ event.oldTuple = some image) : s.accepts event := by
  rw [Subscription.accepts, hr]
  refine any_eq_true.mpr ⟨entry, he, ?_⟩
  rw [Subscription.takes, hc]
  rcases hi with hi | hi
  · simp [hi, hm]
  · simp [hi, hm]

/-- The change that inserts the row. -/
def inserted (row : Row) : ChangeEvent := ⟨⟨"app", none⟩, "people", .insert, none, row.map Prod.fst, row.image, none⟩

/-- Subscriptions narrowed by a filter take every change of a row that satisfies it, before the
change or after, exactly if its comparisons are kept for the row. -/
theorem narrowing_keeps_changes {filter : Value} {p : Predicate} (hp : normaliseFilter filter schema = some p)
    (hmask : ∀ c ∈ row, maskKindForColumn schema c.1 = none) (hsat : Satisfies row filter) :
    (∀ (s : Subscription) (entries : List ReadSetEntry) (event : ChangeEvent), s.readSet = some entries →
      readSetEntry event.collection filter schema ∈ entries →
      (event.newTuple = row.image ∨ event.oldTuple = some row.image) → s.accepts event) ↔ KeptFilter row filter := by
  have hm : ∀ collection, (readSetEntry collection filter schema).matches row.image ↔ KeptFilter row filter := by
    intro collection
    rw [← matches_iff_kept hp hmask hsat]
    simp only [ReadSetEntry.matches, readSetEntry, hp]
  constructor
  · intro h
    have ha := h ((Subscription.new 1 ⟨"app", none⟩ "people" 1024).setReadSet [readSetEntry "people" filter schema])
      [readSetEntry "people" filter schema] { inserted row with oldTuple := some row.image } rfl (.head _) (.inl rfl)
    simp only [Subscription.accepts, Subscription.setReadSet, Subscription.takes, inserted, any_cons, any_nil,
      Option.any_some, Option.isNone_some, Bool.and_false, Bool.false_or, Bool.or_false, Bool.or_self, Bool.and_eq_true] at ha
    exact (hm "people").mp ha.2
  · exact fun hk s entries event hr he hi => accepts_of_matches hr he rfl ((hm event.collection).mpr hk) hi

end

def peopleSchema : FieldMap := [("name", ⟨.text, none⟩), ("age", ⟨.integer, none⟩)]

/-- A subscription to the people that the filter selects. -/
def peopleWhere : Subscription :=
  (Subscription.new 1 ⟨"app", none⟩ "people" 1024).setReadSet [readSetEntry "people" filter peopleSchema]

/-- `zoe` comes after `m`, and `2 ^ 53 + 1` after `2 ^ 53`: neither row wakes the subscription
to what comes after. -/
theorem ranges_drop_rows :
    (∃ p, normaliseFilter (.object [("name", .object [("$gt", .string "m")])]) peopleSchema = some p ∧
      Satisfies [("name", .text "zoe")] (.object [("name", .object [("$gt", .string "m")])]) ∧
      p.matches (Row.image [("name", .text "zoe")]) = false ∧
      (peopleWhere (.object [("name", .object [("$gt", .string "m")])])).accepts (inserted [("name", .text "zoe")]) =
        false) ∧
    ∃ p, normaliseFilter (.object [("age", .object [("$gt", .number (.int (2 ^ 53)))])]) peopleSchema = some p ∧
      Satisfies [("age", .int (2 ^ 53 + 1))] (.object [("age", .object [("$gt", .number (.int (2 ^ 53)))])]) ∧
      p.matches (Row.image [("age", .int (2 ^ 53 + 1))]) = false ∧
      (peopleWhere (.object [("age", .object [("$gt", .number (.int (2 ^ 53)))])])).accepts
        (inserted [("age", .int (2 ^ 53 + 1))]) = false := by
  refine ⟨⟨_, rfl, ?_, by decide +kernel, by decide +kernel⟩, _, rfl, ?_, by decide +kernel, by decide +kernel⟩
  · refine forall_mem_singleton.mpr (forall_mem_singleton.mpr ?_)
    refine ⟨.gt, .string "m", .text "zoe", rfl, rfl, rfl, ?_⟩
    show textBytes "m" < textBytes "zoe"
    decide
  · refine forall_mem_singleton.mpr (forall_mem_singleton.mpr ?_)
    refine ⟨.gt, .number (.int (2 ^ 53)), .int (2 ^ 53 + 1), rfl, rfl, rfl, ?_⟩
    show (2 ^ 53 : Int) < 2 ^ 53 + 1
    decide

/-- The adults named `zoe`. -/
def adultsNamedZoe : Value := .object [("age", .object [("$gt", .number (.int 17))]), ("name", .string "zoe")]

/-- A row in a range and with the name is taken. -/
theorem adult_wakes : (peopleWhere adultsNamedZoe).accepts (inserted [("age", .int 18), ("name", .text "zoe")]) := by
  have hs : Satisfies [("age", .int 18), ("name", .text "zoe")] adultsNamedZoe := by
    refine forall_mem_cons.mpr ⟨forall_mem_singleton.mpr ?_, forall_mem_singleton.mpr
      (forall_mem_singleton.mpr ?_)⟩
    · exact ⟨.gt, .number (.int 17), .int 18, rfl, rfl, rfl, (by decide : (17 : Int) < 18)⟩
    · exact ⟨.eq, .string "zoe", .text "zoe", rfl, rfl, rfl, rfl⟩
  have hk : KeptFilter [("age", .int 18), ("name", .text "zoe")] adultsNamedZoe := by
    refine forall_mem_cons.mpr ⟨forall_mem_singleton.mpr ?_, forall_mem_singleton.mpr
      (forall_mem_singleton.mpr ?_)⟩
    · rintro op operand cell hop ho hcl
      cases hop
      cases ho
      cases hcl
      exact kept_of_small (by norm_num) (by decide : (17 : Int) < 18)
    · rintro op operand cell hop - -
      cases hop
      trivial
  have hm : ∀ c ∈ ([("age", .int 18), ("name", .text "zoe")] : Row), maskKindForColumn peopleSchema c.1 = none := by
    simp only [forall_mem_cons]
    exact ⟨rfl, rfl, by simp⟩
  exact (narrowing_keeps_changes rfl hm hs).mpr hk _ _ _ rfl (.head _) (.inl rfl)

end Zeroship.Cdc

import Zeroship.Orm.Binding

/-! The row that an update of one row is about.

A patch with nothing to encrypt is one statement, which picks the matching row with the least
identity and writes to it. A patch with something to encrypt first asks for a matching row, in
no order, and writes later, to the row of that identity, without looking at the filter again. -/
namespace Zeroship.Orm
open Base List

section
variable (B : Backend) (A : Aead) (S : CollectionSchema) (database : Option DatabaseId)

/-- An update of one row, from what the table held when a row was looked for to what it holds
when the statement is run. -/
def runUpdateOne (chance : Chance) (probed : List Row) (now : Int) (table : Table B (keyColumn S)) (query : Query)
    (input : UpdateInput) (actor : Option String) : Except DbError (Option (Table B (keyColumn S) × Nat)) := do
  let patch ← inspectUpdate B S query input
  match ← updateOneStatements B A S database chance probed query patch actor with
  | [] => pure (some (table, 0))
  | statement :: _ => pure (run B now (fun _ _ => .null) table statement)

/-- One row was modified: a row that matched, of the identity that was least among those
matching when it was chosen. -/
def ModifiedTarget (predicate : Filter) (chosenFrom before after : List Row) : Prop :=
  ∃ pre row row' post, before = pre ++ row :: post ∧ after = pre ++ row' :: post ∧ predicate row ∧
    ∃ target ∈ chosenFrom, predicate target ∧ B.same (keyColumn S) (row (keyColumn S)) (target (keyColumn S)) ∧
      ∀ r ∈ chosenFrom, predicate r → B.precedes (target (keyColumn S)) (r (keyColumn S))

/-- The identity that was found is the least of those that matched then, and a row that has it when
the statement is run matches still. -/
structure Aimed (predicate : Filter) (probed before : List Row) (id : Value) : Prop where
  least : ∃ target ∈ probed, predicate target ∧ B.same (keyColumn S) id (target (keyColumn S)) ∧
    ∀ r ∈ probed, predicate r → B.precedes (target (keyColumn S)) (r (keyColumn S))
  still : ∀ row ∈ before, B.same (keyColumn S) (row (keyColumn S)) id → predicate row

variable {B A S database} {key : String} {table table' : Table B key} {predicate : Filter} {set : SetList} {now : Int}
  {defaults : Nat → Row} {n : Nat}

theorem inScope_unique (hk : Keyed B key table.rows) {r r' : Row} (hr : r ∈ table.rows) (hr' : r' ∈ table.rows)
    (h : inScope B key table.rows .first predicate r) (h' : inScope B key table.rows .first predicate r') :
    r = r' := by
  simp only [inScope] at h h'
  cases ht : target B key table.rows predicate with
  | none => simp [ht] at h
  | some id =>
    rw [ht] at h h'
    exact hk.eq hr hr' (B.same_trans _ _ _ _ h (B.same_symm _ _ _ h'))

theorem inScope_least (hk : Keyed B key table.rows) {row : Row} (hrw : row ∈ table.rows)
    (h : inScope B key table.rows .first predicate row) :
    predicate row ∧ ∀ r ∈ table.rows, predicate r → B.precedes (row key) (r key) := by
  have hm := matches_of_inScope hk hrw h
  simp only [inScope] at h
  cases ht : target B key table.rows predicate with
  | none => simp [ht] at h
  | some id =>
    rw [ht] at h
    obtain ⟨⟨r, hr, _, rfl⟩, hl⟩ := target_some ht
    obtain rfl := hk.eq hrw hr h
    exact ⟨hm, hl⟩

/-- A statement for one row leaves the table as it is, or changes one row: the least that
matches. -/
theorem run_first (h : run B now defaults table (.update .first predicate set) = some (table', n)) :
    table'.rows = table.rows ∨ ∃ pre row post, table.rows = pre ++ row :: post ∧
      table'.rows = pre ++ assign B now row row set :: post ∧ predicate row ∧
      ∀ r ∈ table.rows, predicate r → B.precedes (row key) (r key) := by
  simp only [run] at h
  split_ifs at h with hk'
  cases h
  have hkp : ∀ l : List Row, (∀ r ∈ l, inScope B key table.rows .first predicate r = false) →
      l.map (fun r => if inScope B key table.rows .first predicate r then assign B now r r set else r) = l := by
    intro l hl
    refine (map_congr_left fun r hr => ?_).trans (map_id l)
    rw [hl r hr]
    rfl
  show table.rows.map (fun r => if inScope B key table.rows .first predicate r then assign B now r r set else r) = _ ∨ _
  by_cases ha : ∃ row ∈ table.rows, inScope B key table.rows .first predicate row
  · obtain ⟨row, hrw, hs⟩ := ha
    obtain ⟨hm, hls⟩ := inScope_least table.keyed hrw hs
    obtain ⟨pre, post, hsp⟩ := append_of_mem hrw
    -- Any other row is out of scope: the keys of two rows differ.
    have hk := table.keyed
    rw [hsp, Keyed, pairwise_append, pairwise_cons] at hk
    have ho : ∀ r ∈ table.rows, B.same key (r key) (row key) = false ∨ B.same key (row key) (r key) = false →
        inScope B key table.rows .first predicate r = false := by
      intro r hr hne
      by_contra hin
      obtain rfl := inScope_unique table.keyed hr hrw (by simpa using hin) hs
      simp [B.same_refl] at hne
    have hpr : ∀ r ∈ pre, inScope B key table.rows .first predicate r = false := fun r hr =>
      ho r (by rw [hsp]; exact mem_append_left _ hr) (.inl (hk.2.2 r hr row mem_cons_self))
    have hp : ∀ r ∈ post, inScope B key table.rows .first predicate r = false := fun r hr =>
      ho r (by rw [hsp]; exact mem_append_right _ (mem_cons_of_mem _ hr)) (.inr (hk.2.1.1 r hr))
    refine .inr ⟨pre, row, post, hsp, ?_, hm, hls⟩
    show table.rows.map (fun r => if inScope B key table.rows .first predicate r then assign B now r r set else r) = _
    conv_lhs => rw [show table.rows.map _ = (pre ++ row :: post).map _ from congrArg _ hsp]
    rw [map_append, map_cons, hkp pre hpr, hkp post hp, if_pos hs]
  · exact .inl (hkp _ fun r hr => Bool.eq_false_iff.mpr fun hs => ha ⟨r, hr, hs⟩)

variable {chance : Chance} {probed : List Row} {query : Query} {input : UpdateInput} {patch : Patch}
  {actor : Option String} {statements : List Statement} {statement : Statement}

theorem patchStatement_ok {draw : Draw} {rowPk : String} {scope : MutationScope}
    (h : patchStatement B A S database draw rowPk actor scope predicate patch = .ok statement) :
    ∃ set, statement = .update scope predicate set := by
  simp only [patchStatement, bind_ok] at h
  obtain ⟨_, _, _, _, set, _, h⟩ := h
  exact ⟨set, (updateStatement_ok h).1⟩

/-- The statement of an update of one row goes by the filter, or by an identity that was found. -/
theorem updateOneStatements_ok (h : updateOneStatements B A S database chance probed query patch actor = .ok statements)
    (hs : statement ∈ statements) :
    (updateTouchesEncryptedField S patch = false ∧ ∃ set, statement = .update .first query.predicate set) ∨
      (updateTouchesEncryptedField S patch ∧ ∃ id, resolveTargetRowId S chance.pick probed query.predicate = some id ∧
        ∃ set, statement = .update .first (rowFilter B S id query.guard) set) := by
  unfold updateOneStatements at h
  split_ifs at h with ht
  · right
    split at h
    · simp only [missing, seq_ok, pure_ok] at h
      obtain ⟨_, rfl⟩ := h
      cases hs
    next id hid =>
    simp only [bind_ok, pure_ok] at h
    obtain ⟨only, ho, rfl⟩ := h
    rw [mem_singleton.mp hs]
    exact ⟨ht, id, hid, patchStatement_ok ho⟩
  · left
    simp only [bind_ok, pure_ok] at h
    obtain ⟨only, ho, rfl⟩ := h
    rw [mem_singleton.mp hs]
    exact ⟨by simpa using ht, patchStatement_ok ho⟩

/-- Two lists that differ in one place differ nowhere else. -/
theorem changed_once {before after pre pre' post post' : List Row} {row row' x x' : Row} (hb : before = pre ++ row :: post)
    (ha : after = pre ++ row' :: post) (hb' : before = pre' ++ x :: post') (ha' : after = pre' ++ x' :: post')
    (hne : after ≠ before) : row = x := by
  have hi : before[pre.length]? = some row := by simp [hb]
  have hi' : after[pre.length]? = some row' := by simp [ha]
  rcases lt_trichotomy pre.length pre'.length with hlt | heq | hlt
  · rw [hb', getElem?_append_left hlt] at hi
    rw [ha', getElem?_append_left hlt, hi, Option.some.injEq] at hi'
    exact absurd (by rw [ha, hb, hi']) hne
  · rw [hb', heq] at hi
    simpa using hi.symm
  · obtain ⟨n, hn⟩ := Nat.exists_eq_add_of_lt hlt
    have hs : pre.length - pre'.length = n + 1 := by omega
    rw [hb', getElem?_append_right hlt.le, hs, getElem?_cons_succ] at hi
    rw [ha', getElem?_append_right hlt.le, hs, getElem?_cons_succ, hi, Option.some.injEq] at hi'
    exact absurd (by rw [ha, hb, hi']) hne

/-- An update of one row that changes the table modifies the matching row of the least identity:
always if there is nothing to encrypt, and otherwise exactly if that identity was found and the row
matches still. -/
theorem updateOne_modifies_target {table table' : Table B (keyColumn S)}
    (h : runUpdateOne B A S database chance probed now table query input actor = .ok (some (table', n)))
    (hpatch : inspectUpdate B S query input = .ok patch) (hchanged : table'.rows ≠ table.rows) :
    ModifiedTarget B S query.predicate (if updateTouchesEncryptedField S patch then probed else table.rows)
        table.rows table'.rows ↔
      (updateTouchesEncryptedField S patch → ∀ id, resolveTargetRowId S chance.pick probed query.predicate = some id →
        Aimed B S query.predicate probed table.rows id) := by
  simp only [runUpdateOne, bind_ok] at h
  obtain ⟨patch', hp', statements, hstt, h⟩ := h
  obtain rfl : patch = patch' := Except.ok.inj (hpatch.symm.trans hp')
  cases statements with
  | nil =>
    cases h
    exact absurd rfl hchanged
  | cons statement rest =>
    have hrn := Except.ok.inj h
    rcases updateOneStatements_ok hstt mem_cons_self with ⟨hu, set, rfl⟩ | ⟨ht, id, hid, set, rfl⟩
    · obtain ⟨pre, row, post, hb, ha, hm, hl⟩ := (run_first hrn).resolve_left hchanged
      refine iff_of_true ⟨pre, row, _, post, hb, ha, hm, row, ?_, hm, B.same_refl _ _, ?_⟩ (by simp [hu])
      · rw [hu, hb]
        simp
      · rw [hu]
        exact hl
    · obtain ⟨pre, row, post, hb, ha, hm, _⟩ := (run_first hrn).resolve_left hchanged
      have hk : B.same (keyColumn S) (row (keyColumn S)) id = true := (Bool.and_eq_true_iff.mp hm).1
      have hrw : row ∈ table.rows := by simp [hb]
      rw [if_pos ht]
      constructor
      · rintro ⟨pre', row', _, post', hb', ha', hmt, target, htg, hmtg, hs, hl⟩ - id' hid'
        obtain rfl : id = id' := Option.some.inj (hid.symm.trans hid')
        obtain rfl : row' = row := changed_once hb' ha' hb ha hchanged
        refine ⟨⟨target, htg, hmtg, B.same_trans _ _ _ _ (B.same_symm _ _ _ hk) hs, hl⟩, fun other ho hso => ?_⟩
        rwa [table.keyed.eq ho hrw (B.same_trans _ _ _ _ hso (B.same_symm _ _ _ hk))]
      · intro haim
        obtain ⟨⟨target, htg, hmtg, hs, hl⟩, hst⟩ := haim ht id hid
        exact ⟨pre, row, _, post, hb, ha, hst row hrw hk, target, htg, hmtg, B.same_trans _ _ _ _ hk hs, hl⟩

end

def tickets : CollectionSchema where
  name := "tickets"
  fields := [⟨"id", .textIdentity⟩, ⟨"state", { ColumnSchema.new .text with required := false }⟩, ⟨"body", bodyColumn⟩].toAList
  named := by decide +kernel
  accepted := by decide +kernel

def ticket (id state : String) : Row := fun column =>
  if column = "id" then .string id else if column = "state" then .string state else .null

def ticketTable (a b : String) : Table (.sample id) (keyColumn tickets) where
  rows := [ticket "a" a, ticket "b" b]
  keyed := by
    refine .cons (fun r hr => ?_) (.cons (fun _ h => by cases h) .nil)
    rw [List.mem_singleton.mp hr]
    rfl

def openTickets : Query := ⟨fun row => row "state" = .string "open", none, false⟩

def writeBody : UpdateInput := ⟨[("body", .value (.string "x"))], ∅⟩

/-- The second ticket is found although the first matches too, and written to after it was
closed. -/
theorem closed_ticket_modified : ∃ table', runUpdateOne (.sample id) .sample tickets (some sampleDatabase)
      { Chance.sample with pick := 1 } (ticketTable "open" "open").rows 0 (ticketTable "open" "closed") openTickets writeBody
      none = .ok (some (table', 1)) ∧ table'.rows ≠ (ticketTable "open" "closed").rows ∧
      ¬ModifiedTarget (.sample id) tickets openTickets.predicate (ticketTable "open" "open").rows
        (ticketTable "open" "closed").rows table'.rows := by
  have hr : ∃ table', runUpdateOne (.sample id) .sample tickets (some sampleDatabase)
      { Chance.sample with pick := 1 } (ticketTable "open" "open").rows 0 (ticketTable "open" "closed") openTickets writeBody
      none = .ok (some (table', 1)) ∧ table'.rows.map (fun r => decide (r "body" = .null)) = [true, false] := by
    refine ⟨_, rfl, ?_⟩
    decide +kernel
  obtain ⟨table', hr, hb⟩ := hr
  refine ⟨table', hr, fun hs => ?_, ?_⟩
  · rw [hs] at hb
    simp [ticketTable, ticket] at hb
  rintro ⟨pre, row, row', post, hbf, ha, hm, _⟩
  rcases pre with _ | ⟨first, _ | ⟨second, rest⟩⟩
  · -- The second row would be as it was.
    obtain ⟨_, rfl⟩ := cons.inj hbf
    rw [ha] at hb
    simp [ticket] at hb
  · -- The second row is the one modified, and it is closed.
    obtain ⟨_, hrs⟩ := cons.inj hbf
    obtain ⟨rfl, _⟩ := cons.inj hrs
    simp [openTickets, ticket] at hm
  · have hl := congrArg length hbf
    simp [ticketTable] at hl

/-- Both tickets are open and the first is found: it is the one written to. -/
theorem open_ticket_modified : ∃ table', runUpdateOne (.sample id) .sample tickets (some sampleDatabase) .sample
      (ticketTable "open" "open").rows 0 (ticketTable "open" "open") openTickets writeBody none = .ok (some (table', 1)) ∧
      ModifiedTarget (.sample id) tickets openTickets.predicate (ticketTable "open" "open").rows
        (ticketTable "open" "open").rows table'.rows := by
  have hp : inspectUpdate (.sample id) tickets openTickets writeBody = .ok ⟨[⟨"body", .set, .string "x"⟩], []⟩ := rfl
  have hrn : ∃ table', runUpdateOne (.sample id) .sample tickets (some sampleDatabase) .sample
      (ticketTable "open" "open").rows 0 (ticketTable "open" "open") openTickets writeBody none =
      .ok (some (table', 1)) ∧ table'.rows.map (fun r => decide (r "body" = .null)) = [false, true] := by
    refine ⟨_, rfl, ?_⟩
    decide +kernel
  obtain ⟨table', hrn, hb⟩ := hrn
  have hne : table'.rows ≠ (ticketTable "open" "open").rows := fun hs => by
    rw [hs] at hb
    simp [ticketTable, ticket] at hb
  refine ⟨table', hrn, (updateOne_modifies_target hrn hp hne).mpr fun _ id hid => ?_⟩
  cases hid
  constructor
  · refine ⟨ticket "a" "open", by simp [ticketTable], rfl, rfl, fun r hr _ => ?_⟩
    rcases mem_pair.mp hr with rfl | rfl <;> rfl
  · intro row hrw _
    rcases mem_pair.mp hrw with rfl | rfl <;> rfl

end Zeroship.Orm

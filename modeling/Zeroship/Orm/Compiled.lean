import Zeroship.Orm.Writes

/-! What the statements of calls are, and what they keep true of rows.

`Compiled` lists the statements that a request can come to, each with the document or the
patch behind it. To show something of every row that is ever written, it is enough to look at
each kind of statement by itself: `rows_of_run` is the induction over calls and their steps. -/
namespace Zeroship.Orm
open Base List

section
variable (B : Backend) (A : Aead) (S : CollectionSchema) (database : Option DatabaseId) (defaultExpression : Bool)

/-- The documents of a request that inserts. -/
inductive Inserts : Request → Document → Option String → Prop
  | insert (doc : Document) (actor : Option String) : Inserts (.insert doc actor) doc actor
  | insertMany {docs : List Document} {doc : Document} (actor : Option String) (mem : doc ∈ docs) :
      Inserts (.insertMany docs actor) doc actor
  | insertOnConflict (doc : Document) (conflict : List String) (actor : Option String) :
      Inserts (.insertOnConflict doc conflict actor) doc actor
  | upsert (request : UpsertRequest) : Inserts (.upsert request) request.doc request.actor

/-- The patches of a request that updates. -/
inductive Patches : Request → Query → UpdateInput → Option String → Prop
  | updateOne (query : Query) (input : UpdateInput) (actor : Option String) :
      Patches (.updateOne query input actor) query input actor
  | updateMany (query : Query) (input : UpdateInput) (actor : Option String) :
      Patches (.updateMany query input actor) query input actor

/-- The statements that a request can come to, with the documents and patches behind them. -/
inductive Compiled (T : ResolvedTable S) (request : Request) : Statement → Prop
  | insert {rows : List SetList}
      (each : ∀ values ∈ rows, ∃ doc actor given placed draw mentioned, Inserts request doc actor ∧
        Ready B S actor doc given ∧ protectDoc B A S database draw given = .ok placed ∧
        valuesOf B T mentioned placed = .ok values) :
      Compiled T request (.insert rows)
  | patch {query : Query} {input : UpdateInput} {actor : Option String} {patch : Patch} {draw : Draw} {rowPk : String}
      {placed : Doc} {scope : MutationScope} {predicate : Filter} {set : SetList} (asked : Patches request query input actor)
      (inspected : inspectUpdate B S query input = .ok patch)
      (protects : applyToDoc B A S database draw.nonces rowPk patch.sets = .ok placed)
      (resolved : resolveAssignments B T patch placed (writeAssignments S actor false false) = .ok set)
      (settable : ∀ p ∈ set, p.2.settable B p.1)
      (bound : updateTouchesEncryptedField S patch →
        ∃ id, rowPk = rowPkFromValue (some id) ∧ predicate = rowFilter B S id query.guard) :
      Compiled T request (.update scope predicate set)
  | lifecycle {actor : Option String} {deleting restoring : Bool} {scope : MutationScope} {predicate : Filter}
      {set : SetList} (event : (deleting || restoring))
      (resolved : resolveGenerated B T (writeAssignments S actor deleting restoring) = .ok set)
      (settable : ∀ p ∈ set, p.2.settable B p.1) :
      Compiled T request (.update scope predicate set)
  | upsert {doc : Document} {conflict : List String} {actor : Option String} {given placed : Doc} {draw : Draw}
      {expectedId : Option Value} {insert update : SetList} {targets : List Column} {condition : Option Value}
      (asked : request = .upsert ⟨doc, conflict, actor⟩) (ready : Ready B S actor doc given)
      (protects : protectDoc B A S database draw given = .ok placed)
      (guarded : expectedIdentity S ⟨doc, conflict, actor⟩ placed = .ok expectedId)
      (targeted : ∀ field ∈ conflict, ∃ column, S.fields.lookup field = some column ∧ column.assignment = none ∧
        column.encrypted = false)
      (resolved : ResolvedUpsert (B := B) T placed conflict (writeAssignments S actor false false) expectedId false
        insert targets update condition) :
      Compiled T request (.upsert insert targets update condition false)
  | unlessConflict {doc : Document} {actor : Option String} {given placed : Doc} {draw : Draw} {insert : SetList}
      {targets : List Column} {condition : Option Value} (asked : Inserts request doc actor)
      (ready : Ready B S actor doc given) (protects : protectDoc B A S database draw given = .ok placed)
      (resolved : valuesOf B T (fun _ => false) placed = .ok insert) :
      Compiled T request (.upsert insert targets [] condition true)
  | delete {scope : MutationScope} {predicate : Filter} : Compiled T request (.delete scope predicate)

variable {B A S database} {actor : Option String} {doc : Document} {given placed : Doc} {draw : Draw}
  {T : ResolvedTable S} {chance : Chance} {rows : List Row} {request : Request} {predicate : Filter} {statement : Statement}
  {statements : List Statement} {scope : MutationScope} {input : UpdateInput} {patch : Patch} {query : Query}
  {name : String} {docs : List Doc} {pick : Nat} {conflict : List String}

theorem Ready.congr (h : Ready B S actor doc given) {other : Doc} (ho : ∀ name, name ≠ "id" → other name = given name) :
    Ready B S actor doc other := by
  refine ⟨fun name hn => ?_, fun {field column} hc hid hnn => ?_, fun {field column a} hc hid ha => ?_⟩
  · have hid : name ≠ "id" := by
      rintro rfl
      obtain ⟨column, hc, _⟩ := S.identity_column
      rw [hn] at hc
      cases hc
    rw [ho name hid]
    exact h.declared name hn
  · rw [ho field hid]
    exact h.plain hc hid hnn
  · rw [ho field hid]
    exact h.assigned hc hid ha

theorem withIdentity_other {allocate : Bool} (h : name ≠ "id") :
    withIdentity draw allocate given name = given name := by
  unfold withIdentity
  split_ifs
  · exact Function.update_of_ne h _ _
  · rfl

theorem insertedDoc_ready (h : insertedDoc B S draw actor doc = .ok given) : Ready B S actor doc given := by
  simp only [insertedDoc, bind_ok] at h
  obtain ⟨_, hk, _, hg, prepared, hp, hi⟩ := h
  rw [onInsert_ok hi]
  exact ready_of_injected hk hg hp

theorem applyInsert_ok {draws : Nat → Draw} {docs : List Document} {placedDocs : List Doc}
    (h : applyInsert B A S database draws actor docs = .ok placedDocs) (hpl : placed ∈ placedDocs) :
    ∃ doc ∈ docs, ∃ given draw, Ready B S actor doc given ∧ protectDoc B A S database draw given = .ok placed := by
  simp only [applyInsert, bind_ok] at h
  obtain ⟨inserted, hi, hpr⟩ := h
  obtain ⟨p, hp, hprt⟩ := mem_of_mapM hpr hpl
  obtain ⟨q, hq, hr⟩ := mem_of_mapM hi (fst_mem_of_mem_zipIdx hp)
  exact ⟨q.1, fst_mem_of_mem_zipIdx hq, _, _, (insertedDoc_ready hr).congr fun _ => withIdentity_other, hprt⟩

theorem rewrite_other {rewritten : Doc}
    (h : rewriteUpsertDocId B S pick rows given conflict = .ok rewritten) (hn : name ≠ "id") :
    rewritten name = given name := by
  unfold rewriteUpsertDocId at h
  split_ifs at h with ht
  · simp only [bind_ok] at h
    obtain ⟨T, _, parts, _, h⟩ := h
    split at h
    · obtain rfl := pure_ok.mp h
      split_ifs
      · rfl
      · exact Function.update_of_ne hn _ _
    · obtain rfl := pure_ok.mp h
      rfl
  · cases h
    rfl

theorem upsertDoc_ready {request : UpsertRequest} (h : upsertDoc B S chance rows request = .ok given) :
    Ready B S request.actor request.doc given := by
  simp only [upsertDoc, bind_ok, pure_ok] at h
  obtain ⟨_, hk, _, hg, _, _, prepared, hp, injected, hi, rewritten, hr, rfl⟩ := h
  have hrd : Ready B S request.actor request.doc injected := by
    rw [onInsert_ok hi]
    exact ready_of_injected hk hg hp
  refine hrd.congr fun name hn => ?_
  rw [withIdentity_other hn, rewrite_other hr hn]

theorem compiled_insert (h : insertStatement B T docs = .ok statement)
    (hd : ∀ placed ∈ docs, ∃ doc actor given draw, Inserts request doc actor ∧ Ready B S actor doc given ∧
      protectDoc B A S database draw given = .ok placed) : Compiled B A S database T request statement := by
  simp only [insertStatement, bind_ok, pure_ok] at h
  obtain ⟨values, hvl, _, _, rfl⟩ := h
  refine .insert fun v hv => ?_
  obtain ⟨placed, hp, hv⟩ := mem_of_mapM hvl hv
  obtain ⟨doc, actor, given, draw, hi, hr, hpr⟩ := hd placed hp
  exact ⟨doc, actor, given, placed, draw, _, hi, hr, hpr, hv⟩

theorem compiled_insertStatements (h : insertStatements B T defaultExpression docs = .ok statements)
    (hd : ∀ placed ∈ docs, ∃ doc actor given draw, Inserts request doc actor ∧ Ready B S actor doc given ∧
      protectDoc B A S database draw given = .ok placed) :
    ∀ statement ∈ statements, Compiled B A S database T request statement := by
  simp only [insertStatements, seq_ok, demand_ok] at h
  obtain ⟨_, _, h⟩ := h
  intro statement hs
  split_ifs at h
  · simp only [bind_ok, pure_ok] at h
    obtain ⟨only, ho, rfl⟩ := h
    rw [mem_singleton.mp hs]
    exact compiled_insert ho hd
  · obtain ⟨group, hg, hb⟩ := mem_of_mapM h hs
    refine compiled_insert hb fun placed hp => hd placed ?_
    rw [← flatten_splitBy (sameNames T) docs]
    exact mem_flatten.mpr ⟨group, hg, hp⟩

theorem updateStatement_ok {set : SetList} (h : updateStatement B S scope predicate set = .ok statement) :
    statement = .update scope predicate set ∧ ∀ p ∈ set, p.2.settable B p.1 := by
  simp only [updateStatement, seq_ok, pure_ok] at h
  obtain ⟨hv, rfl⟩ := h
  simp only [validateStatement, seq_ok, demand_ok] at hv
  exact ⟨rfl, hv.2.2.1⟩

theorem compiled_patch {rowPk : String} (ha : Patches request query input actor)
    (hi : inspectUpdate B S query input = .ok patch)
    (h : patchStatement B A S database draw rowPk actor scope predicate patch = .ok statement)
    (hb : updateTouchesEncryptedField S patch →
      ∃ id, rowPk = rowPkFromValue (some id) ∧ predicate = rowFilter B S id query.guard) :
    ∃ T, Compiled B A S database T request statement := by
  simp only [patchStatement, bind_ok] at h
  obtain ⟨placed, hp, T, _, set, hs, hst⟩ := h
  obtain ⟨rfl, hstt⟩ := updateStatement_ok hst
  exact ⟨T, .patch ha hi hp hs hstt hb⟩

theorem compiled_updateOne (hi : inspectUpdate B S query input = .ok patch)
    (h : updateOneStatements B A S database chance rows query patch actor = .ok statements) :
    ∀ statement ∈ statements, ∃ T, Compiled B A S database T (.updateOne query input actor) statement := by
  intro statement hs
  have ha := Patches.updateOne query input actor
  unfold updateOneStatements at h
  split_ifs at h with ht
  · split at h
    · simp only [missing, seq_ok, pure_ok] at h
      obtain ⟨_, rfl⟩ := h
      cases hs
    next id _ =>
    simp only [bind_ok, pure_ok] at h
    obtain ⟨only, ho, rfl⟩ := h
    rw [mem_singleton.mp hs]
    exact compiled_patch ha hi ho fun _ => ⟨id, rfl, rfl⟩
  · simp only [bind_ok, pure_ok] at h
    obtain ⟨only, ho, rfl⟩ := h
    rw [mem_singleton.mp hs]
    exact compiled_patch ha hi ho fun htr => absurd htr ht

theorem compiled_updateMany (hi : inspectUpdate B S query input = .ok patch)
    (h : updateManyStatements B A S database chance rows query patch actor = .ok statements) :
    ∀ statement ∈ statements, ∃ T, Compiled B A S database T (.updateMany query input actor) statement := by
  intro statement hs
  have ha := Patches.updateMany query input actor
  unfold updateManyStatements at h
  split_ifs at h with ht
  · split at h
    · simp only [missing, seq_ok, pure_ok] at h
      obtain ⟨_, rfl⟩ := h
      cases hs
    simp only [seq_ok] at h
    obtain ⟨_, h⟩ := h
    obtain ⟨p, _, hp⟩ := mem_of_mapM h hs
    exact compiled_patch ha hi hp fun _ => ⟨p.1, rfl, rfl⟩
  · simp only [bind_ok, pure_ok] at h
    obtain ⟨only, ho, rfl⟩ := h
    rw [mem_singleton.mp hs]
    exact compiled_patch ha hi ho fun htr => absurd (.inl htr) ht

theorem upsertDoc_targets {request : UpsertRequest} (h : upsertDoc B S chance rows request = .ok given) :
    ∀ field ∈ request.conflict, ∃ column, S.fields.lookup field = some column ∧ column.assignment = none ∧
      column.encrypted = false := by
  simp only [upsertDoc, bind_ok] at h
  obtain ⟨_, _, _, _, _, hcn, _⟩ := h
  simp only [validateUpsertConflictFields, seq_ok, forM_eq_forM] at hcn
  intro field hf
  have hc := forM_ok.mp hcn.2 field hf
  cases hcl : S.fields.lookup field with
  | none =>
    rw [hcl] at hc
    cases hc
  | some column =>
    rw [hcl] at hc
    simp only [seq_ok, demand_ok] at hc
    exact ⟨column, rfl, hc.1, by simpa using hc.2.1⟩

theorem compiled_upsert {request : UpsertRequest} (h : upsertStatement B A S database chance rows request = .ok statement) :
    ∃ T, Compiled B A S database T (.upsert request) statement := by
  simp only [upsertStatement, bind_ok] at h
  obtain ⟨given, hg, placed, hp, expected, he, T, _, hr⟩ := h
  obtain ⟨insert, targets, update, condition, rfl, hl⟩ := resolveUpsert_ok hr
  exact ⟨T, .upsert rfl (upsertDoc_ready hg) hp he (upsertDoc_targets hg) hl⟩

theorem compiled_insertOnConflict
    (h : insertOnConflictStatements B A S database chance doc conflict actor = .ok statements) :
    ∀ statement ∈ statements, ∃ T, Compiled B A S database T (.insertOnConflict doc conflict actor) statement := by
  intro statement hs
  simp only [insertOnConflictStatements, bind_ok] at h
  obtain ⟨docs, hd, T, _, hr⟩ := h
  obtain ⟨placed, hp, hr⟩ := mem_of_mapM hr hs
  obtain ⟨other, ho, given, draw, hrd, hpr⟩ := applyInsert_ok hd hp
  obtain rfl := mem_singleton.mp ho
  obtain ⟨insert, targets, update, condition, rfl, hl⟩ := resolveUpsert_ok hr
  obtain rfl : update = [] := hl.updates
  exact ⟨T, .unlessConflict (.insertOnConflict _ _ _) hrd hpr hl.inserts⟩

theorem compiled_lifecycle {marker : String} {matchDeleted : Bool}
    {deleting restoring : Bool} (he : (deleting || restoring))
    (h : lifecycle B T scope predicate marker matchDeleted (writeAssignments S actor deleting restoring) = .ok statement) :
    Compiled B A S database T request statement := by
  simp only [lifecycle, bind_ok] at h
  obtain ⟨_, _, set, hs, hst⟩ := h
  obtain ⟨rfl, hstt⟩ := updateStatement_ok hst
  exact .lifecycle he hs hstt

theorem compiled_purge
    (h : purgeStatement B S scope predicate = .ok statement) : ∃ T, Compiled B A S database T request statement := by
  simp only [purgeStatement, bind_ok, pure_ok] at h
  obtain ⟨T, _, _, _, rfl⟩ := h
  exact ⟨T, .delete⟩

variable (B A S database) in
/-- A call whose statements a request can come to. -/
def Call.From (request : Request) : Call → Prop
  | .executing rest => ∀ statement ∈ rest, ∃ T, Compiled B A S database T request statement
  | .upserting asked statement _ => request = .upsert asked ∧ ∃ T, Compiled B A S database T request statement
  | .reissuing asked => request = .upsert asked

theorem call_of_single (h : ∃ T, Compiled B A S database T request statement) :
    Call.From B A S database request (.executing [statement]) := by
  intro other ho
  rw [mem_singleton.mp ho]
  exact h

theorem prepare_from {call : Call} (h : prepare B A S database defaultExpression chance rows request = .ok call) :
    Call.From B A S database request call := by
  cases request <;> simp only [prepare, bind_ok, pure_ok] at h
  case insert doc actor =>
    obtain ⟨docs, hd, T, _, statement, hs, rfl⟩ := h
    refine call_of_single ⟨T, compiled_insert hs fun placed hpl => ?_⟩
    obtain ⟨other, ho, given, draw, hr, hpr⟩ := applyInsert_ok hd hpl
    obtain rfl := mem_singleton.mp ho
    exact ⟨_, actor, given, draw, .insert _ _, hr, hpr⟩
  case insertMany docs actor =>
    obtain ⟨placedDocs, hd, T, _, statements, hst, rfl⟩ := h
    intro statement hs
    refine ⟨T, compiled_insertStatements defaultExpression hst (fun placed hpl => ?_) statement hs⟩
    obtain ⟨doc, hdc, given, draw, hr, hpr⟩ := applyInsert_ok hd hpl
    exact ⟨doc, actor, given, draw, .insertMany actor hdc, hr, hpr⟩
  case updateOne query input actor =>
    obtain ⟨patch, hp, statements, hst, rfl⟩ := h
    exact compiled_updateOne hp hst
  case updateMany query input actor =>
    obtain ⟨patch, hp, statements, hst, rfl⟩ := h
    exact compiled_updateMany hp hst
  case upsert request =>
    obtain ⟨statement, hs, rfl⟩ := h
    exact ⟨rfl, compiled_upsert hs⟩
  case insertOnConflict doc conflict actor =>
    obtain ⟨statements, hst, rfl⟩ := h
    exact compiled_insertOnConflict hst
  case delete scope predicate actor =>
    obtain ⟨statement, hs, rfl⟩ := h
    unfold deleteStatement at hs
    split at hs
    · exact call_of_single (compiled_purge hs)
    · simp only [bind_ok] at hs
      obtain ⟨T, _, hs⟩ := hs
      exact call_of_single ⟨T, compiled_lifecycle rfl hs⟩
  case purge scope predicate =>
    obtain ⟨statement, hs, rfl⟩ := h
    exact call_of_single (compiled_purge hs)
  case restore scope predicate actor =>
    obtain ⟨statement, hs, rfl⟩ := h
    unfold restoreStatement at hs
    split at hs
    · cases hs
    · simp only [bind_ok] at hs
      obtain ⟨T, _, hs⟩ := hs
      exact call_of_single ⟨T, compiled_lifecycle rfl hs⟩

/-! ### Properties of rows along a run -/

section
variable (P : Row → Prop) (Q : Request → Prop) (D : (Nat → Row) → Prop)

/-- Only some requests come in, and the database has only some defaults. -/
def Admits : Event → Prop
  | .start request _ => Q request
  | .execute _ _ defaults => D defaults
  | .reissue _ _ => True

def Offers : Environment (Store B S) Event Reply := fun _ _ event => Admits Q D event

variable (B A S database) in
/-- What the statements of these requests keep true of rows. -/
def Keeps : Prop :=
  ∀ {request : Request} {T : ResolvedTable S} {statement : Statement} {now : Int} {defaults : Nat → Row}
    {rows : List Row} {row : Row}, Q request → Compiled B A S database T request statement → D defaults →
    (∀ r ∈ rows, P r) → Came (B := B) (keyColumn S) now defaults rows statement row → P row

variable {P Q D} {store store' : Store B S} {k : Nat} {replies : List Reply} {history : History (Store B S) Event Reply}

variable (A database P Q) in
/-- Every row has the property, and every call comes from one of the requests. -/
def Sound (store : Store B S) : Prop :=
  (∀ row ∈ store.table.rows, P row) ∧
    ∀ call ∈ store.calls, ∃ request, Q request ∧ Call.From B A S database request call

theorem calls_set {calls : List Call} {next : Call}
    (h : ∀ call ∈ calls, ∃ request, Q request ∧ Call.From B A S database request call)
    (hn : ∃ request, Q request ∧ Call.From B A S database request next) :
    ∀ call ∈ calls.set k next, ∃ request, Q request ∧ Call.From B A S database request call := by
  intro call hc
  rcases mem_or_eq_of_mem_set hc with hc | rfl
  · exact h call hc
  · exact hn

theorem afterUpsert_from {request : UpsertRequest} {retry : Bool} {n : Nat} :
    Call.From B A S database (.upsert request) (afterUpsert (S := S) request retry n).1 := by
  unfold afterUpsert
  split_ifs
  · rfl
  · exact fun _ h => by cases h
  · exact fun _ h => by cases h

theorem Sound.execute (keeps : Keeps B A S database P Q D) (hs : Sound A database P Q store) {call : Call}
    (hcl : call ∈ store.calls) {now : Int} {defaults : Nat → Row} (hd : D defaults)
    (h : Orm.execute now defaults store k call = some (store', replies)) : Sound A database P Q store' := by
  obtain ⟨request, hQ, hf⟩ := hs.2 call hcl
  have hdn : Call.From B A S database request (.executing []) := fun _ h => by cases h
  cases call with
  | reissuing asked => cases h
  | executing rest =>
    cases rest with
    | nil => cases h
    | cons statement rest =>
      obtain ⟨⟨T, hc⟩, hrs⟩ := forall_mem_cons.mp hf
      simp only [Orm.execute] at h
      cases hr : run B now defaults store.table statement with
      | none =>
        rw [hr] at h
        cases h
        exact ⟨hs.1, calls_set hs.2 ⟨request, hQ, hdn⟩⟩
      | some out =>
        rw [hr] at h
        cases h
        exact ⟨fun row hrw => keeps hQ hc hd hs.1 (mem_run hr hrw),
          calls_set hs.2 ⟨request, hQ, hrs⟩⟩
  | upserting asked statement retry =>
    obtain ⟨rfl, T, hc⟩ := hf
    simp only [Orm.execute] at h
    cases hr : run B now defaults store.table statement with
    | none =>
      rw [hr] at h
      cases h
      exact ⟨hs.1, calls_set hs.2 ⟨_, hQ, hdn⟩⟩
    | some out =>
      rw [hr] at h
      cases h
      exact ⟨fun row hrw => keeps hQ hc hd hs.1 (mem_run hr hrw),
        calls_set hs.2 ⟨_, hQ, afterUpsert_from⟩⟩

theorem Sound.step (keeps : Keeps B A S database P Q D) (hs : Sound A database P Q store) {event : Event}
    (hof : Offers Q D history store event)
    (h : Store.step A database defaultExpression store event = some (store', replies)) : Sound A database P Q store' := by
  cases event with
  | start request chance =>
    simp only [Store.step] at h
    cases hp : prepare B A S database defaultExpression chance store.table.rows request with
    | error e =>
      rw [hp] at h
      cases h
      exact hs
    | ok call =>
      rw [hp] at h
      cases h
      refine ⟨hs.1, fun other ho => ?_⟩
      rcases mem_append.mp ho with ho | ho
      · exact hs.2 other ho
      · rw [mem_singleton.mp ho]
        exact ⟨request, hof, prepare_from defaultExpression hp⟩
  | execute k now defaults =>
    obtain ⟨call, hc, h⟩ := Option.bind_eq_some_iff.mp h
    exact hs.execute keeps (mem_of_getElem? hc) hof h
  | reissue k chance =>
    simp only [Store.step] at h
    split at h
    · next request hc =>
      obtain ⟨asked, hQ, rfl⟩ := hs.2 _ (mem_of_getElem? hc)
      split at h
      · cases h
        exact ⟨hs.1, calls_set hs.2 ⟨_, hQ, fun _ h => by cases h⟩⟩
      · next statement hst =>
        cases h
        exact ⟨hs.1, calls_set hs.2 ⟨_, hQ, rfl, compiled_upsert hst⟩⟩
    · cases h

/-- What every statement keeps true of rows is true of every row that calls ever write,
however they are interleaved. -/
theorem rows_of_run (keeps : Keeps B A S database P Q D)
    {store : Store B S} (run : (machine B A S database defaultExpression).Run (Offers Q D) (.empty B S) history store) :
    ∀ row ∈ store.table.rows, P row := by
  have hs : Sound A database P Q store :=
    run.invariant (fun _ s => Sound A database P Q s)
      ⟨fun row hr => absurd hr not_mem_nil, fun call hc => absurd hc not_mem_nil⟩
      fun _ hs ho hst => hs.step defaultExpression keeps ho hst
  exact hs.1

theorem run_of_events {events : List Event} (h : ∀ event ∈ events, Admits Q D event) :
    (machine B A S database defaultExpression).Run (Offers Q D) (.empty B S)
      ((machine B A S database defaultExpression).trace (.empty B S) events)
      ((machine B A S database defaultExpression).reach (.empty B S) events) :=
  Machine.Run.weaken (fun _ _ _ offered => offered.2) <| .of_trace <|
    Machine.offered_and (Machine.offered_anything _ _) fun _ ht => h _ (Machine.input_of_trace ht)

end

end

end Zeroship.Orm

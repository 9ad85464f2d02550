import OaLibs.Base.Slices
import OaLibs.Bus.Outbox

/-!
# The change log

`audit.rs`: services write a snapshot of an entity before and after each change, and look the
entries up again to show them or to undo a change. A call is one SQL statement, so the calls of any
number of services are a list.

* `record`, `find`, `listFor`: the three statements;
* `transcript`: the replies to a list of calls; `written`: the entries of those that succeeded;
* `perform_answers`: what one call answers, given the entries written before it;
* `found_iff`: an entry is found exactly if it was written, for ever and unchanged;
* `listed_newest`: a listing has the newest entries of its entity.
-/

namespace OaLibs

namespace Audit

open Outbox (Uuid Instant Db)

/-- The error type of the database library. -/
structure DbErr where
  text : String

/-- One change of an entity. -/
structure ChangeEntry where
  id : Uuid
  entity : String
  entityId : String
  action : String
  before : Option Json
  after : Option Json
  actorId : Option Uuid
  createdAt : Instant

/-- A row of the table. -/
structure Row where
  id : Uuid
  entity : String
  entityId : String
  action : String
  before : Option Json
  after : Option Json
  actorId : Option Uuid
  createdAt : Instant

/-- The table `change_log` under its primary key. -/
structure Table where
  rows : List Row
  nodup : (rows.map Row.id).Nodup

/-- The table after its creation. -/
def Table.empty : Table := ⟨[], List.nodup_nil⟩

/-- The order in which a statement comes upon the rows, which SQL leaves open. -/
structure Scan where
  order : List Row → List Row
  perm : ∀ rows, (order rows).Perm rows

/-- A statement that takes effect as a whole or not at all. -/
def execute {α : Type} (db : Db) (result : Option α) : Except DbErr α :=
  if db.fails then .error ⟨db.error⟩
  else
    match result with
    | some a => .ok a
    | none => .error ⟨db.error⟩

/-! ### The statements -/

/-- A row is read column by column. -/
def entryFromRow (row : Row) : ChangeEntry where
  id := row.id
  entity := row.entity
  entityId := row.entityId
  action := row.action
  before := row.before
  after := row.after
  actorId := row.actorId
  createdAt := row.createdAt

/-- `INSERT`: the id must be new. -/
def Table.insert (t : Table) (row : Row) : Option Table :=
  if h : row.id ∉ t.rows.map Row.id then
    some ⟨t.rows ++ [row], by
      rw [List.map_append, List.nodup_append]
      refine ⟨t.nodup, List.nodup_singleton _, ?_⟩
      rintro a ha b hb rfl
      rw [List.map_singleton, List.mem_singleton] at hb
      exact h (hb ▸ ha)⟩
  else none

-- what a `jsonb` column keeps of a value, unless it refuses the value
variable (jsonb : Json → Option Json)

/-- A snapshot in a column that may be null. -/
def snapshot : Option Json → Option (Option Json)
  | none => some none
  | some v => (jsonb v).map some

/-- Write an entry under the id that was drawn for it. -/
def record (t : Table) (id : Uuid) (entity entityId action : String) (before after : Option Json)
    (actorId : Option Uuid) (now : Instant) (db : Db) : Except DbErr (Uuid × Table) :=
  let row := do
    let before ← snapshot jsonb before
    let after ← snapshot jsonb after
    return { id, entity, entityId, action, before, after, actorId, createdAt := now : Row }
  (execute db (row.bind t.insert)).map fun t => (id, t)

/-- The entry of an id. -/
def find (t : Table) (id : Uuid) (db : Db) : Except DbErr (Option ChangeEntry) :=
  (execute db (some (t.rows.filter fun row => row.id == id))).map fun rows =>
    rows.head?.map entryFromRow

/-- The entries of an entity, the newest first. -/
def listFor (t : Table) (entity entityId : String) (limit : ℕ) (scan : Scan) (db : Db) :
    Except DbErr (List ChangeEntry) :=
  let rows := (scan.order t.rows).filter fun row =>
    row.entity == entity && row.entityId == entityId
  (execute db (some ((rows.mergeSort fun a b => b.createdAt ≤ a.createdAt).take
    (min (max limit 1) 200)))).map fun rows => rows.map entryFromRow

/-! ### Calls -/

/-- A call of one of the functions; the arguments of `record` are given as an entry. -/
inductive Call
  | record (entry : ChangeEntry) (db : Db)
  | find (id : Uuid) (db : Db)
  | listFor (entity entityId : String) (limit : ℕ) (scan : Scan) (db : Db)

/-- What a function returns. -/
inductive Reply
  | recorded (result : Except DbErr Uuid)
  | found (result : Except DbErr (Option ChangeEntry))
  | listed (result : Except DbErr (List ChangeEntry))

/-- One call on the table. -/
def perform (c : Call) (t : Table) : Reply × Table :=
  match c with
  | .record entry db =>
    match record jsonb t entry.id entry.entity entry.entityId entry.action entry.before
        entry.after entry.actorId entry.createdAt db with
    | .ok (id, t) => (.recorded (.ok id), t)
    | .error err => (.recorded (.error err), t)
  | .find id db => (.found (find t id db), t)
  | .listFor entity entityId limit scan db =>
    (.listed (listFor t entity entityId limit scan db), t)

/-- The calls with their replies. -/
def transcript : List Call → Table → List (Call × Reply)
  | [], _ => []
  | c :: calls, t => (c, (perform jsonb c t).1) :: transcript calls (perform jsonb c t).2

/-! ### The log -/

/-- An entry as it is kept, unless one of its snapshots is refused. -/
def stored (entry : ChangeEntry) : Option ChangeEntry := do
  let before ← snapshot jsonb entry.before
  let after ← snapshot jsonb entry.after
  return { entry with before, after }

/-- The entry that a call has written. -/
def writtenBy : Call × Reply → Option ChangeEntry
  | (.record entry _, .recorded (.ok _)) => stored jsonb entry
  | _ => none

/-- The log: all entries that were written, in the order of the calls. -/
def written (calls : List (Call × Reply)) : List ChangeEntry := calls.filterMap (writtenBy jsonb)

/-- What the log answers to a call, and the log after it. -/
inductive Answers (log : List ChangeEntry) : Call → Reply → List ChangeEntry → Prop
  | recorded {entry kept : ChangeEntry} {db : Db} (hdb : db.fails = false)
      (hnew : ∀ e ∈ log, e.id ≠ entry.id) (hkept : stored jsonb entry = some kept) :
      Answers log (.record entry db) (.recorded (.ok entry.id)) (log ++ [kept])
  | refused {entry : ChangeEntry} {db : Db}
      (hwhy : db.fails = true ∨ (∃ e ∈ log, e.id = entry.id) ∨ stored jsonb entry = none) :
      Answers log (.record entry db) (.recorded (.error ⟨db.error⟩)) log
  | found {id : Uuid} {db : Db} {result : Option ChangeEntry} (hdb : db.fails = false)
      (hresult : ∀ e, result = some e ↔ e ∈ log ∧ e.id = id) :
      Answers log (.find id db) (.found (.ok result)) log
  | listed {entity entityId : String} {limit : ℕ} {scan : Scan} {db : Db}
      {result : List ChangeEntry} (hdb : db.fails = false)
      (hresult : Slices.Greatest ChangeEntry.createdAt (min (max limit 1) 200)
        (log.filter fun e => e.entity == entity && e.entityId == entityId) result) :
      Answers log (.listFor entity entityId limit scan db) (.listed (.ok result)) log
  | findFailed {id : Uuid} {db : Db} (hdb : db.fails = true) :
      Answers log (.find id db) (.found (.error ⟨db.error⟩)) log
  | listFailed {entity entityId : String} {limit : ℕ} {scan : Scan} {db : Db}
      (hdb : db.fails = true) :
      Answers log (.listFor entity entityId limit scan db) (.listed (.error ⟨db.error⟩)) log

variable {jsonb}

/-! ### The table keeps the log -/

/-- The rows as the reader sees them. -/
def Table.entries (t : Table) : List ChangeEntry := t.rows.map entryFromRow

@[simp] theorem entryFromRow_id (row : Row) : (entryFromRow row).id = row.id := rfl

theorem Table.nodup_entries (t : Table) : (t.entries.map ChangeEntry.id).Nodup := by
  rw [Table.entries, List.map_map]
  exact t.nodup

theorem execute_ok {α : Type} {db : Db} (h : db.fails = false) (a : α) :
    execute db (some a) = .ok a := by
  simp [execute, h]

theorem execute_none {α : Type} (db : Db) :
    execute db (none : Option α) = .error ⟨db.error⟩ := by
  unfold execute
  split_ifs <;> rfl

theorem execute_fails {α : Type} {db : Db} (h : db.fails = true) (result : Option α) :
    execute db result = .error ⟨db.error⟩ := by
  simp [execute, h]

theorem insert_of_new {t : Table} {row : Row} (h : row.id ∉ t.rows.map Row.id) :
    ∃ t', t.insert row = some t' ∧ t'.entries = t.entries ++ [entryFromRow row] := by
  refine ⟨_, dif_pos h, ?_⟩
  show (t.rows ++ [row]).map entryFromRow = _
  rw [List.map_append, List.map_singleton, Table.entries]

theorem insert_of_known {t : Table} {row : Row} (h : row.id ∈ t.rows.map Row.id) :
    t.insert row = none := dif_neg (not_not.2 h)

theorem mem_ids_iff {t : Table} {id : Uuid} :
    id ∈ t.rows.map Row.id ↔ ∃ e ∈ t.entries, e.id = id := by
  simp [Table.entries]

/-- `record` writes the entry with its snapshots as they are kept. -/
theorem record_answers (t : Table) (entry : ChangeEntry) (db : Db) :
    Answers jsonb t.entries (.record entry db) (perform jsonb (.record entry db) t).1
      (perform jsonb (.record entry db) t).2.entries := by
  simp only [perform, record]
  by_cases hdb : db.fails = true
  · rw [execute_fails hdb]
    exact .refused (.inl hdb)
  rw [Bool.not_eq_true] at hdb
  cases hbefore : snapshot jsonb entry.before with
  | none =>
    have hstored : stored jsonb entry = none := by simp [stored, hbefore]
    simp only [Option.bind_eq_bind, Option.bind_none, execute_none]
    exact .refused (.inr (.inr hstored))
  | some before =>
    cases hafter : snapshot jsonb entry.after with
    | none =>
      have hstored : stored jsonb entry = none := by simp [stored, hbefore, hafter]
      simp only [Option.bind_eq_bind, Option.bind_some, Option.bind_none, execute_none]
      exact .refused (.inr (.inr hstored))
    | some after =>
      have hstored : stored jsonb entry = some { entry with before, after } := by
        simp [stored, hbefore, hafter]
      simp only [Option.bind_eq_bind, Option.bind_some, Option.pure_def]
      by_cases hid : entry.id ∈ t.rows.map Row.id
      · rw [insert_of_known hid, execute_none]
        exact .refused (.inr (.inl (mem_ids_iff.1 hid)))
      · obtain ⟨t', ht', hentries⟩ : ∃ t', t.insert ⟨entry.id, entry.entity, entry.entityId,
            entry.action, before, after, entry.actorId, entry.createdAt⟩ = some t' ∧ _ :=
          insert_of_new hid
        rw [ht', execute_ok hdb]
        show Answers jsonb t.entries _ _ t'.entries
        rw [hentries]
        exact .recorded hdb (fun e he heq => hid (mem_ids_iff.2 ⟨e, he, heq⟩)) hstored

/-- `find` reads the only row of the id. -/
theorem find_answers (t : Table) (id : Uuid) (db : Db) :
    Answers jsonb t.entries (.find id db) (perform jsonb (.find id db) t).1
      (perform jsonb (.find id db) t).2.entries := by
  simp only [perform, find]
  by_cases hdb : db.fails = true
  · rw [execute_fails hdb]
    exact .findFailed hdb
  rw [Bool.not_eq_true] at hdb
  simp only [execute_ok hdb, Except.map, List.head?_filter]
  refine .found hdb fun e => ?_
  rw [Option.map_eq_some_iff]
  constructor
  · rintro ⟨row, hrow, rfl⟩
    have hid := List.find?_some hrow
    exact ⟨List.mem_map_of_mem (List.mem_of_find?_eq_some hrow), eq_of_beq hid⟩
  · rintro ⟨he, hid⟩
    obtain ⟨row, hrow, rfl⟩ := List.mem_map.1 he
    have hsome : (t.rows.find? fun row => row.id == id).isSome := by
      rw [List.find?_isSome]
      exact ⟨row, hrow, beq_iff_eq.2 hid⟩
    obtain ⟨row', hrow'⟩ := Option.isSome_iff_exists.1 hsome
    have hid' := List.find?_some hrow'
    have hids : row'.id = row.id := (eq_of_beq hid').trans hid.symm
    refine ⟨row', hrow', congrArg entryFromRow ?_⟩
    exact List.inj_on_of_nodup_map t.nodup (List.mem_of_find?_eq_some hrow') hrow hids

/-- `listFor` takes the newest rows of its entity, in whatever order the rows are come upon. -/
theorem listFor_answers (t : Table) (entity entityId : String) (limit : ℕ) (scan : Scan)
    (db : Db) :
    Answers jsonb t.entries (.listFor entity entityId limit scan db)
      (perform jsonb (.listFor entity entityId limit scan db) t).1
      (perform jsonb (.listFor entity entityId limit scan db) t).2.entries := by
  simp only [perform, listFor]
  by_cases hdb : db.fails = true
  · rw [execute_fails hdb]
    exact .listFailed hdb
  rw [Bool.not_eq_true] at hdb
  simp only [execute_ok hdb, Except.map, List.map_take]
  refine .listed hdb ?_
  refine Slices.greatest_take _ ?_ ?_
  · refine ((List.mergeSort_perm _ _).map entryFromRow).trans ?_
    rw [Table.entries, List.filter_map]
    exact ((scan.perm t.rows).filter _).map entryFromRow
  · rw [List.pairwise_map]
    exact Slices.descending_mergeSort Row.createdAt _

variable (jsonb) in
/-- **One call on the table is one call on the log.** -/
theorem perform_answers (c : Call) (t : Table) :
    Answers jsonb t.entries c (perform jsonb c t).1 (perform jsonb c t).2.entries := by
  cases c with
  | record entry db => exact record_answers t entry db
  | find id db => exact find_answers t id db
  | listFor entity entityId limit scan db => exact listFor_answers t entity entityId limit scan db

/-- The log after a call has one more entry if the call has written one. -/
theorem Answers.log_eq {log log' : List ChangeEntry} {c : Call} {reply : Reply}
    (h : Answers jsonb log c reply log') :
    log' = log ++ (writtenBy jsonb (c, reply)).toList := by
  cases h with
  | recorded hdb hnew hkept => simp [writtenBy, hkept]
  | refused | found | listed | findFailed | listFailed => simp [writtenBy]

/-- In a run, each call is answered by the log of the entries that were written before it. -/
theorem answers_of_transcript (calls : List Call) (t : Table) {before after : List (Call × Reply)}
    {c : Call} {reply : Reply} (h : transcript jsonb calls t = before ++ (c, reply) :: after) :
    ∃ log, Answers jsonb (t.entries ++ written jsonb before) c reply log := by
  induction calls generalizing t before with
  | nil => exact absurd h (by simp [transcript])
  | cons d calls ih =>
    have hlog := (perform_answers jsonb d t).log_eq
    rw [transcript] at h
    cases before with
    | nil =>
      obtain ⟨heq, -⟩ := List.cons.inj h
      obtain ⟨rfl, rfl⟩ := Prod.mk.inj heq
      have hanswers := perform_answers jsonb d t
      exact ⟨(perform jsonb d t).2.entries, by simpa [written] using hanswers⟩
    | cons p before =>
      obtain ⟨rfl, hrest⟩ := List.cons.inj h
      obtain ⟨log, hanswers⟩ := ih _ hrest
      refine ⟨log, ?_⟩
      rw [hlog] at hanswers
      have hwritten : written jsonb ((d, (perform jsonb d t).1) :: before) =
          (writtenBy jsonb (d, (perform jsonb d t).1)).toList ++ written jsonb before := by
        rw [written, List.filterMap_cons]
        cases writtenBy jsonb (d, (perform jsonb d t).1) <;> rfl
      rw [hwritten, ← List.append_assoc]
      exact hanswers

/-- **A listing has the newest entries that were written for its entity**, at least one and at most
200 of them; if their times ascend, it is the end of the log in reverse. -/
theorem listed_newest (calls : List Call) {before after : List (Call × Reply)}
    {entity entityId : String} {limit : ℕ} {scan : Scan} {db : Db} {result : List ChangeEntry}
    (h : transcript jsonb calls Table.empty =
      before ++ (.listFor entity entityId limit scan db, .listed (.ok result)) :: after) :
    Slices.Greatest ChangeEntry.createdAt (min (max limit 1) 200)
        ((written jsonb before).filter fun e => e.entity == entity && e.entityId == entityId)
        result ∧
      (((written jsonb before).filter fun e =>
          e.entity == entity && e.entityId == entityId).Pairwise
            (fun a b => a.createdAt < b.createdAt) →
        result = ((written jsonb before).filter fun e =>
          e.entity == entity && e.entityId == entityId).reverse.take (min (max limit 1) 200)) := by
  obtain ⟨log, hanswers⟩ := answers_of_transcript calls Table.empty h
  have hlog : Table.empty.entries ++ written jsonb before = written jsonb before := rfl
  rw [hlog] at hanswers
  cases hanswers with
  | listed hdb hresult => exact ⟨hresult, hresult.eq_take_reverse⟩

/-! ### Two changes of a task -/

/-- The title of a task is changed … -/
def firstChange : ChangeEntry where
  id := 1
  entity := "task"
  entityId := "t1"
  action := "update"
  before := some (.object [("title", .string "a")])
  after := some (.object [("title", .string "b")])
  actorId := none
  createdAt := 1000000

/-- … and the task is deleted. -/
def secondChange : ChangeEntry where
  id := 2
  entity := "task"
  entityId := "t1"
  action := "delete"
  before := some (.object [("title", .string "b")])
  after := none
  actorId := none
  createdAt := 2000000

/-- The newest rows are come upon first. -/
def newestFirst : Scan := ⟨List.reverse, List.reverse_perm⟩

/-- The second change is written twice, under one id. -/
def taskCalls : List Call :=
  [.record firstChange .ok, .record secondChange .ok, .record secondChange .ok, .find 1 .ok,
    .listFor "task" "t1" 500 newestFirst .ok]

theorem listed_newest_taskCalls : ∃ before result,
    transcript some taskCalls Table.empty =
      before ++ [(.listFor "task" "t1" 500 newestFirst .ok, .listed (.ok result))] ∧
    result = [secondChange, firstChange] := by
  have h : ∃ result, transcript some taskCalls Table.empty =
      [(.record firstChange .ok, .recorded (.ok 1)), (.record secondChange .ok, .recorded (.ok 2)),
        (.record secondChange .ok, .recorded (.error ⟨""⟩)),
        (.find 1 .ok, .found (.ok (some firstChange)))] ++
      [(.listFor "task" "t1" 500 newestFirst .ok, .listed (.ok result))] := ⟨_, rfl⟩
  obtain ⟨result, h⟩ := h
  refine ⟨_, result, h, (listed_newest taskCalls h).2 ?_⟩
  show List.Pairwise (fun a b : ChangeEntry => a.createdAt < b.createdAt)
    [firstChange, secondChange]
  exact List.pairwise_pair.2 (by decide)

end Audit

end OaLibs

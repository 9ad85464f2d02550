import OaLibs.Bus.Batch
import OaLibs.Bus.Drainers

/-!
# Backoff over whole runs of one drainer

Producers and one drainer take turns on the table, call after call.

* `Op`, `runOps`: the calls, and the state after a list of them;
* `failures`, `lastPublish`: the history of a row in the log;
* `Ready`, `WellSpaced`: when a publish respects what came before it;
* `Honoured`: what the columns and the log of a run should say;
* `InTime`: a refused row has a time to be put off to;
* `BackoffInv`: the columns of a row agree with its history;
* `honoured_iff`: in every run, the backoff is honoured all along exactly when all drains are in
  time.
-/

namespace OaLibs

namespace Outbox

/-- A call of a producer or of the drainer. -/
inductive Op
  | enqueue (e : NewEvent)
  | drain (limit : UInt64) (now : Instant) (answers : Answers)

/-- The updates of a drain take effect. -/
def Op.UpdatesSucceed : Op → Prop
  | .enqueue _ => True
  | .drain _ _ answers => ∀ id, (answers.update id).fails = false

section

variable (m : MachineInt.OverflowMode) (serde : SerdeJson) (jsonb : Json → Option Json)

/-- The state after one call. -/
def runOp (w : World) : Op → World
  | .enqueue e => w.enqueue jsonb e.id e.eventType e.payload e.now e.db
  | .drain limit now answers => (drainOnce m serde now answers limit w).2

/-- The state after a list of calls, one after the other. -/
def runOps (ops : List Op) : World := ops.foldl (runOp m serde jsonb) World.init

end

/-! ### The history of a row -/

/-- How many publishes of a row have failed. -/
def failures (log : List Publication) (id : Uuid) : ℕ :=
  log.countP fun p => p.row == id && !p.succeeded

/-- The last publish of a row. -/
def lastPublish (log : List Publication) (id : Uuid) : Option Publication :=
  (log.filter fun p => p.row == id).getLast?

/-- A publish of a row that has not succeeded before, late enough after its last failure. -/
def Ready (log : List Publication) (q : Publication) : Prop :=
  (∀ p ∈ log, p.row = q.row → p.succeeded = false) ∧
  ∀ p, lastPublish log q.row = some p → p.now + seconds (backoff (failures log q.row)) ≤ q.now

/-- Every publish was ready. -/
def WellSpaced (log : List Publication) : Prop :=
  ∀ l q l', log = l ++ q :: l' → Ready l q

variable {log : List Publication} {p q : Publication} {id : Uuid}

theorem failures_concat (log : List Publication) (p : Publication) (id : Uuid) :
    failures (log ++ [p]) id =
      failures log id + if p.row = id ∧ p.succeeded = false then 1 else 0 := by
  unfold failures
  rw [List.countP_append, List.countP_singleton]
  by_cases h : p.row = id ∧ p.succeeded = false
  · simp [h.1, h.2]
  · rw [if_neg h, if_neg]
    simpa using h

theorem failures_le_append (log new : List Publication) (id : Uuid) :
    failures log id ≤ failures (log ++ new) id := by
  rw [failures, failures, List.countP_append]
  exact Nat.le_add_right _ _

theorem lastPublish_concat (log : List Publication) (p : Publication) (id : Uuid) :
    lastPublish (log ++ [p]) id = if p.row = id then some p else lastPublish log id := by
  unfold lastPublish
  rw [List.filter_append, List.filter_singleton]
  by_cases h : p.row = id
  · simp [h]
  · have hne : (p.row == id) = false := by simpa using h
    rw [if_neg h, hne]
    simp

/-- The last publish of a row, with the others before and none of the row behind it. -/
theorem lastPublish_eq_some_iff :
    lastPublish log id = some p ↔
      ∃ l₁ l₂, log = l₁ ++ p :: l₂ ∧ p.row = id ∧ ∀ q ∈ l₂, q.row ≠ id := by
  induction log using List.reverseRecOn with
  | nil => simp [lastPublish]
  | append_singleton log q ih =>
    rw [lastPublish_concat]
    by_cases hq : q.row = id
    · rw [if_pos hq]
      constructor
      · intro h
        obtain rfl := Option.some.inj h
        exact ⟨log, [], rfl, hq, by simp⟩
      · rintro ⟨l₁, l₂, heq, -, hlater⟩
        rcases Runs.concat_eq_append_cons heq with ⟨-, -, rfl⟩ | ⟨l', rfl, -⟩
        · rfl
        · exact absurd hq (hlater q (by simp))
    · rw [if_neg hq, ih]
      constructor
      · rintro ⟨l₁, l₂, rfl, hid, hlater⟩
        refine ⟨l₁, l₂ ++ [q], by simp, hid, fun r hr => ?_⟩
        rcases List.mem_append.1 hr with hr | hr
        · exact hlater r hr
        · rw [List.mem_singleton.1 hr]
          exact hq
      · rintro ⟨l₁, l₂, heq, hid, hlater⟩
        rcases Runs.concat_eq_append_cons heq with ⟨-, -, rfl⟩ | ⟨l', rfl, rfl⟩
        · exact absurd hid hq
        · exact ⟨l₁, l', rfl, hid, fun r hr => hlater r (List.mem_append_left _ hr)⟩

theorem wellSpaced_nil : WellSpaced [] := by
  intro l q l' h
  simp at h

theorem WellSpaced.concat (h : WellSpaced log) (hq : Ready log q) : WellSpaced (log ++ [q]) := by
  intro l r l' heq
  rcases Runs.concat_eq_append_cons heq with ⟨-, rfl, rfl⟩ | ⟨l'', -, rfl⟩
  · exact hq
  · exact h l r l'' rfl

/-! ### What a run should do, and when it does -/

section

variable (m : MachineInt.OverflowMode) (serde : SerdeJson) (jsonb : Json → Option Json)

/-- After a run the attempts of a row are its failures, its publishes keep the backoff, no drain has
published a row twice, a row that was published successfully has not been published again, and a
pending row is due at its creation or at the backoff after its last failure. -/
structure Honoured (ops : List Op) : Prop where
  counted : ∀ row ∈ (runOps m serde jsonb ops).table.rows,
    row.attempts.toInt = failures (runOps m serde jsonb ops).log row.id
  spaced : ∀ (l₁ : List Publication) (p : Publication) (l₂ : List Publication) (q : Publication) l₃,
    (runOps m serde jsonb ops).log = l₁ ++ p :: l₂ ++ q :: l₃ → q.row = p.row →
    p.succeeded = false → (∀ x ∈ l₂, x.row ≠ p.row) →
    p.now + seconds (min 600 (5 * 2 ^ (failures (l₁ ++ [p]) p.row - 1))) ≤ q.now
  once : ∀ ops₁ op ops₂, ops = ops₁ ++ op :: ops₂ → ∃ new : List Publication,
    (runOps m serde jsonb (ops₁ ++ [op])).log = (runOps m serde jsonb ops₁).log ++ new ∧
      (new.map Publication.row).Nodup
  unsent : ∀ (l₁ : List Publication) (p : Publication) l₂,
    (runOps m serde jsonb ops).log = l₁ ++ p :: l₂ → p.succeeded = true →
    ∀ q ∈ l₂, q.row ≠ p.row
  due : ∀ row ∈ (runOps m serde jsonb ops).table.rows, row.status = "pending" →
    ∃ since : Instant, row.availableAt ≤ since + seconds 600 ∧
      ((row.attempts = 0 ∧ row.availableAt = since ∧
          ∃ e : NewEvent, Op.enqueue e ∈ ops ∧ e.id = row.id ∧ e.now = since) ∨
        (0 < row.attempts.toInt ∧
          row.availableAt =
            since + seconds (min 600 (5 * 2 ^ (row.attempts.toInt.toNat - 1))) ∧
          ∃ (l₁ : List Publication) (p : Publication) (l₂ : List Publication),
            (runOps m serde jsonb ops).log = l₁ ++ p :: l₂ ∧ p.row = row.id ∧
            p.succeeded = false ∧ p.now = since ∧ ∀ q ∈ l₂, q.row ≠ row.id))

/-- Each refused row of a batch has a time to be put off to. A build with overflow checks does not
come to the rows behind the one with which its count overflows. -/
def InTime (now : Instant) (answers : Answers) (rows : List Model) (sent : ℕ) : Prop :=
  ∀ before row later, rows = before ++ row :: later →
    (m = .checked →
      sent + before.countP (fun r => (publication serde now answers r).succeeded) < 2 ^ 32) →
    (publication serde now answers row).succeeded = false → nextTry row now ≤ maxUtc

/-- The batch of a drain is in time. -/
def Op.InTime (w : World) : Op → Prop
  | .enqueue _ => True
  | .drain limit now answers => limit.toNat < 2 ^ 63 → answers.fetch.fails = false →
      Outbox.InTime m serde now answers ((dueRows w.table now).take limit.toNat) 0

end

/-! ### The invariant -/

/-- The time from which a row may be published next. -/
def dueAt (log : List Publication) (row : Model) : Instant :=
  match lastPublish log row.id with
  | none => row.createdAt
  | some p => p.now + seconds (backoff row.attempts.toInt.toNat)

/-- The columns agree with the log. -/
structure BackoffInv (w : World) : Prop where
  known : ∀ p ∈ w.log, ∃ row, w.table.find p.row = some row
  counted : ∀ id row, w.table.find id = some row → row.attempts.toInt = failures w.log id
  unsent : ∀ id row, w.table.find id = some row → row.status = "pending" →
    ∀ p ∈ w.log, p.row = id → p.succeeded = false
  due : ∀ id row, w.table.find id = some row → row.status = "pending" →
    row.availableAt = dueAt w.log row
  spaced : WellSpaced w.log

variable {m : MachineInt.OverflowMode} {serde : SerdeJson} {jsonb : Json → Option Json}
  {w w' : World} {t : Table} {row : Model} {rows : List Model} {now : Instant} {answers : Answers}
  {sent : UInt32}

theorem backoffInv_init : BackoffInv World.init := by
  refine ⟨fun p h => ?_, fun id row h => ?_, fun id row h => ?_, fun id row h => ?_,
    wellSpaced_nil⟩
  · cases h
  · cases h
  · cases h
  · cases h

/-- A due row of the table is ready to be published. -/
theorem BackoffInv.ready (h : BackoffInv w) (hfind : w.table.find row.id = some row)
    (hdue : Due now row) (hid : p.row = row.id) (hnow : p.now = now) : Ready w.log p := by
  obtain ⟨hpending, hle⟩ := hdue
  unfold Ready
  rw [hid, hnow]
  refine ⟨h.unsent row.id row hfind hpending, fun q hq => ?_⟩
  -- The column that made the row due is the backoff after its last publish.
  have hdue := h.due row.id row hfind hpending
  rw [dueAt, hq, h.counted row.id row hfind, Int.toNat_natCast] at hdue
  calc q.now + seconds (backoff (failures w.log row.id)) = row.availableAt := hdue.symm
    _ ≤ now := hle

theorem BackoffInv.inserted (h : BackoffInv w) {e : NewEvent} {stored : Json}
    (hins : w.table.insert (newRow e.id e.eventType stored e.now) = some t) :
    BackoffInv { w with table := t } := by
  -- A new identifier has no past in the log.
  have hnone : w.table.find e.id = none := (insert_eq_some hins).2
  have hfresh : ∀ p ∈ w.log, p.row ≠ e.id := by
    intro p hp hid
    obtain ⟨row, hrow⟩ := h.known p hp
    rw [hid, hnone] at hrow
    cases hrow
  refine ⟨fun p hp => ?_, fun id row hrow => ?_, fun id row hrow hst => ?_,
    fun id row hrow hst => ?_, h.spaced⟩
  · obtain ⟨row, hrow⟩ := h.known p hp
    exact ⟨row, find_insert_of_find hins hrow⟩
  · rcases find_insert_cases hins hrow with ⟨rfl, rfl⟩ | ⟨-, hold⟩
    · have hzero : failures w.log e.id = 0 := by
        refine List.countP_eq_zero.2 fun p hp => ?_
        simp [hfresh p hp]
      show (0 : Int32).toInt = (failures w.log e.id : ℤ)
      rw [hzero]
      rfl
    · exact h.counted id row hold
  · rcases find_insert_cases hins hrow with ⟨rfl, rfl⟩ | ⟨-, hold⟩
    · intro p hp hid
      exact absurd hid (hfresh p hp)
    · exact h.unsent id row hold hst
  · rcases find_insert_cases hins hrow with ⟨rfl, rfl⟩ | ⟨-, hold⟩
    · have hnever : lastPublish w.log e.id = none := by
        refine Option.eq_none_iff_forall_ne_some.2 fun p hp => ?_
        obtain ⟨l₁, l₂, heq, hid, -⟩ := lastPublish_eq_some_iff.1 hp
        exact hfresh p (by rw [heq]; simp) hid
      show e.now = dueAt w.log _
      rw [dueAt, newRow_id, hnever]
      rfl
    · exact h.due id row hold hst

/-- A publish of a due row and the update that follows it keep the invariant if the updated row
agrees with the new log. -/
theorem BackoffInv.published (h : BackoffInv w) (hfind : w.table.find row.id = some row)
    (hdue : Due now row) (hid : p.row = row.id) (hnow : p.now = now) {active : ActiveModel}
    {u : Update} (hupd : w.table.update row.id active = some t)
    (hcounted : (active.apply row).attempts.toInt = failures (w.log ++ [p]) row.id)
    (hunsent : (active.apply row).status = "pending" → p.succeeded = false)
    (hnext : (active.apply row).status = "pending" → (active.apply row).availableAt =
      now + seconds (backoff (active.apply row).attempts.toInt.toNat)) :
    BackoffInv ((w.logged p).updated t u) := by
  refine ⟨fun q hq => ?_, fun j row' hrow' => ?_, fun j row' hrow' hst => ?_,
    fun j row' hrow' hst => ?_, h.spaced.concat (h.ready hfind hdue hid hnow)⟩
  · have hold : ∃ row', w.table.find q.row = some row' := by
      rcases List.mem_append.1 hq with hq | hq
      · exact h.known q hq
      · rw [List.mem_singleton.1 hq, hid]
        exact ⟨row, hfind⟩
    obtain ⟨row', hrow'⟩ := hold
    exact find_update_of_find hupd hrow'
  · show row'.attempts.toInt = failures (w.log ++ [p]) j
    rcases find_update_cases hupd hfind hrow' with ⟨rfl, rfl⟩ | ⟨hj, hold⟩
    · exact hcounted
    · rw [failures_concat, if_neg fun hand => hj (hand.1.symm.trans hid)]
      exact h.counted j row' hold
  · intro q hq hqid
    rcases find_update_cases hupd hfind hrow' with ⟨rfl, rfl⟩ | ⟨hj, hold⟩
    · rcases List.mem_append.1 hq with hq | hq
      · exact h.unsent _ row hfind hdue.1 q hq hqid
      · rw [List.mem_singleton.1 hq]
        exact hunsent hst
    · rcases List.mem_append.1 hq with hq | hq
      · exact h.unsent j row' hold hst q hq hqid
      · rw [List.mem_singleton.1 hq, hid] at hqid
        exact absurd hqid.symm hj
  · show row'.availableAt = dueAt (w.log ++ [p]) row'
    rw [dueAt, lastPublish_concat]
    rcases find_update_cases hupd hfind hrow' with ⟨rfl, rfl⟩ | ⟨hj, hold⟩
    · rw [apply_id, if_pos hid, hnext hst, ← hnow]
    · have hne : p.row ≠ row'.id := by
        rw [(find_eq_some_iff.1 hold).2, hid]
        exact Ne.symm hj
      rw [if_neg hne]
      exact h.due j row' hold hst

/-! ### One drain -/

/-- Handling one row appends one publish of it to the log. -/
theorem drainRow_log {result : Except Outcome UInt32}
    (h : drainRow m serde now answers row sent w = (result, w')) :
    ∃ p : Publication, p.row = row.id ∧ w'.log = w.log ++ [p] := by
  unfold drainRow at h
  cases hpub : Bus.publish serde row.eventType row.payload (answers.reply row.id) with
  | mk res entry =>
    refine ⟨⟨row.id, now, res, entry⟩, rfl, ?_⟩
    cases res with
    | ok rid =>
      simp only [World.publish, hpub] at h
      split at h
      · obtain rfl := (Prod.mk.inj h).2
        rfl
      · rename_i w₁ hw₁
        obtain ⟨-, t, -, rfl⟩ := markSent_eq_ok hw₁
        split at h
        · obtain rfl := (Prod.mk.inj h).2
          rfl
        · obtain rfl := (Prod.mk.inj h).2
          rfl
    | error err =>
      simp only [World.publish, hpub] at h
      split at h
      · obtain rfl := (Prod.mk.inj h).2
        rfl
      · split at h
        · obtain rfl := (Prod.mk.inj h).2
          rfl
        · rename_i w₁ hw₁
          obtain ⟨-, t, -, rfl⟩ := markRetry_eq_ok hw₁
          obtain rfl := (Prod.mk.inj h).2
          rfl

/-- A drain publishes rows of its batch in their order, each once. -/
theorem drainLoop_log {outcome : Outcome}
    (h : drainLoop m serde now answers rows sent w = (outcome, w')) :
    ∃ new : List Publication, w'.log = w.log ++ new ∧
      new.map Publication.row <+: rows.map Model.id := by
  induction rows generalizing sent w with
  | nil =>
    obtain rfl := (Prod.mk.inj h).2
    exact ⟨[], (List.append_nil _).symm, List.nil_prefix⟩
  | cons row rows ih =>
    rw [drainLoop] at h
    cases hrow : drainRow m serde now answers row sent w with
    | mk result w₁ =>
      obtain ⟨p, hp, hlog⟩ := drainRow_log hrow
      rw [hrow] at h
      cases result with
      | error outcome' =>
        obtain rfl := (Prod.mk.inj h).2
        refine ⟨[p], hlog, ?_⟩
        rw [List.map_singleton, hp, List.map_cons]
        exact List.prefix_append [row.id] _
      | ok sent' =>
        obtain ⟨new, hnew, hprefix⟩ := ih h
        refine ⟨p :: new, by rw [hnew, hlog, List.append_assoc]; rfl, ?_⟩
        rw [List.map_cons, hp, List.map_cons]
        exact List.cons_prefix_cons.2 ⟨rfl, hprefix⟩

theorem drainOnce_log (m : MachineInt.OverflowMode) (serde : SerdeJson) (now : Instant)
    (answers : Answers) (limit : UInt64) (w : World) :
    ∃ new : List Publication, (drainOnce m serde now answers limit w).2.log = w.log ++ new ∧
      (new.map Publication.row).Nodup := by
  unfold drainOnce
  cases hfetch : fetchDue w.table limit now answers.fetch with
  | none => exact ⟨[], (List.append_nil _).symm, List.nodup_nil⟩
  | some fetched =>
    cases fetched with
    | error err => exact ⟨[], (List.append_nil _).symm, List.nodup_nil⟩
    | ok rows =>
      obtain ⟨-, hnodup⟩ := fetchDue_spec hfetch
      obtain ⟨new, hnew, hprefix⟩ := drainLoop_log
        (show drainLoop m serde now answers rows 0 w = _ from rfl)
      exact ⟨new, hnew, hnodup.sublist hprefix.sublist⟩

/-- A count that a build with overflow checks gives is the exact one. -/
theorem counted_eq_ok {succeeded : Bool} {sent' : UInt32}
    (h : counted .checked succeeded sent = .ok sent') :
    sent'.toNat = sent.toNat + if succeeded then 1 else 0 := by
  by_cases hfit : sent.toNat + (if succeeded then 1 else 0) < 2 ^ 32
  · obtain ⟨sent₁, hcounted, hsent₁⟩ := counted_of_lt .checked hfit
    obtain rfl := Except.ok.inj (hcounted.symm.trans h)
    exact hsent₁
  · have hlt := sent.toNat_lt
    cases succeeded with
    | false => exact absurd hlt hfit
    | true =>
      rw [counted_checked hfit] at h
      cases h

theorem InTime.head (h : InTime m serde now answers (row :: rows) sent.toNat) :
    (publication serde now answers row).succeeded = false → nextTry row now ≤ maxUtc :=
  h [] row rows rfl fun _ => sent.toNat_lt

theorem InTime.tail (h : InTime m serde now answers (row :: rows) sent.toNat) {sent' : UInt32}
    (hcounted : counted m (publication serde now answers row).succeeded sent = .ok sent') :
    InTime m serde now answers rows sent'.toNat := by
  intro before r later heq hcount
  refine h (row :: before) r later (by rw [heq]; rfl) fun hm => ?_
  subst hm
  have hlt := hcount rfl
  rw [counted_eq_ok hcounted] at hlt
  rw [List.countP_cons]
  omega

/-- No update changes when a row was created, and no row appears. -/
def KeepsCreation (w w' : World) : Prop :=
  ∀ id row', w'.table.find id = some row' →
    ∃ row, w.table.find id = some row ∧ row'.createdAt = row.createdAt

theorem KeepsCreation.refl (w : World) : KeepsCreation w w := fun _ row hrow => ⟨row, hrow, rfl⟩

theorem KeepsCreation.trans {w'' : World} (h : KeepsCreation w w') (h' : KeepsCreation w' w'') :
    KeepsCreation w w'' := by
  intro id row'' hrow''
  obtain ⟨row', hrow', hcreated'⟩ := h' id row'' hrow''
  obtain ⟨row, hrow, hcreated⟩ := h id row' hrow'
  exact ⟨row, hrow, hcreated'.trans hcreated⟩

theorem keepsCreation_updated {u : Update} {active : ActiveModel}
    (hupd : w.table.update id active = some t) : KeepsCreation w ((w.logged p).updated t u) := by
  intro j row' hrow'
  obtain ⟨-, row, hrow⟩ := update_eq_some hupd
  rcases find_update_cases hupd hrow hrow' with ⟨rfl, rfl⟩ | ⟨-, hold⟩
  · exact ⟨row, hrow, rfl⟩
  · exact ⟨row', hold, rfl⟩

/-- Handling one row keeps the invariant, and leaves the other rows as they were fetched. -/
theorem BackoffInv.drainRow (hw : BackoffInv w) (hdb : (answers.update row.id).fails = false)
    (hfind : w.table.find row.id = some row) (hdue : Due now row)
    (hfew : failures w.log row.id < 2 ^ 31 - 1)
    (htime : (publication serde now answers row).succeeded = false → nextTry row now ≤ maxUtc) :
    ∃ w', drainRow m serde now answers row sent w =
        (Outbox.counted m (publication serde now answers row).succeeded sent, w') ∧
      BackoffInv w' ∧ KeepsCreation w w' ∧
      ∀ j, j ≠ row.id → w'.table.find j = w.table.find j := by
  have hcount := hw.counted row.id row hfind
  have hlt : row.attempts.toInt < 2 ^ 31 - 1 := by omega
  obtain ⟨active, u, t, hupd, hrow, hactive⟩ :=
    drainRow_update m serde now sent hfind (fun hsucc => ⟨hlt, htime hsucc⟩) hdb
  refine ⟨_, hrow, ?_, keepsCreation_updated hupd, fun j hj => ?_⟩
  · have hsent : ("sent" : String) ≠ "pending" := by decide
    cases hsucc : (publication serde now answers row).succeeded with
    | true =>
      obtain ⟨rid, entry, -, hp⟩ := publication_sent hsucc
      rw [hp] at hactive ⊢
      subst hactive
      refine hw.published hfind hdue rfl rfl hupd ?_ (fun hst => absurd hst hsent)
        (fun hst => absurd hst hsent)
      rw [failures_concat, if_neg fun hand => Bool.noConfusion hand.2]
      exact hcount
    | false =>
      obtain ⟨err, entry, -, hp⟩ := publication_refused hsucc
      rw [hp] at hactive ⊢
      subst hactive
      have hplus : (row.attempts + 1).toInt = row.attempts.toInt + 1 :=
        MachineInt.toInt_succ_of_lt hlt
      refine hw.published hfind hdue rfl rfl hupd ?_ (fun _ => rfl) (fun _ => ?_)
      · rw [failures_concat, if_pos ⟨rfl, rfl⟩]
        show (row.attempts + 1).toInt = _
        rw [hplus, hcount]
        rfl
      · show nextTry row now = now + seconds (backoff (row.attempts + 1).toInt.toNat)
        rw [hplus, nextTry]
  · rw [World.updated_table, find_update hupd, if_neg hj]

/-- The loop keeps the invariant, if no row fails too often and the rows are in time. -/
theorem BackoffInv.drainLoop {outcome : Outcome} (hw : BackoffInv w)
    (hdb : ∀ id, (answers.update id).fails = false)
    (hrows : ∀ row ∈ rows, w.table.find row.id = some row ∧ Due now row)
    (hnodup : (rows.map Model.id).Nodup) (htime : InTime m serde now answers rows sent.toNat)
    (h : drainLoop m serde now answers rows sent w = (outcome, w'))
    (hbound : ∀ id, failures w'.log id < 2 ^ 31 - 1) :
    BackoffInv w' ∧ KeepsCreation w w' := by
  induction rows generalizing sent w with
  | nil =>
    obtain rfl := (Prod.mk.inj h).2
    exact ⟨hw, KeepsCreation.refl w⟩
  | cons row rows ih =>
    obtain ⟨hfind, hdue⟩ := hrows row List.mem_cons_self
    obtain ⟨new, hnew, -⟩ := drainLoop_log h
    have hfew : failures w.log row.id < 2 ^ 31 - 1 := by
      refine lt_of_le_of_lt (failures_le_append w.log new row.id) ?_
      rw [← hnew]
      exact hbound row.id
    obtain ⟨w₁, hrow, hw₁, hkeep, hsame⟩ :=
      hw.drainRow (hdb row.id) hfind hdue hfew htime.head
    rw [Outbox.drainLoop, hrow] at h
    cases hcounted : Outbox.counted m (publication serde now answers row).succeeded sent with
    | error outcome' =>
      rw [hcounted] at h
      obtain rfl := (Prod.mk.inj h).2
      exact ⟨hw₁, hkeep⟩
    | ok sent' =>
      rw [hcounted] at h
      -- The rows that are left have other identifiers, so they still are as they were fetched.
      rw [List.map_cons, List.nodup_cons] at hnodup
      obtain ⟨hnot, hnodup⟩ := hnodup
      have hrows' : ∀ r ∈ rows, w₁.table.find r.id = some r ∧ Due now r := by
        intro r hr
        obtain ⟨hfind', hdue'⟩ := hrows r (List.mem_cons_of_mem _ hr)
        have hne : r.id ≠ row.id := fun heq => hnot (heq ▸ List.mem_map_of_mem hr)
        exact ⟨(hsame r.id hne).trans hfind', hdue'⟩
      obtain ⟨hw', hkeep'⟩ := ih hw₁ hrows' hnodup (htime.tail hcounted) h
      exact ⟨hw', hkeep.trans hkeep'⟩

theorem BackoffInv.drainOnce {limit : UInt64} (hw : BackoffInv w)
    (hdb : ∀ id, (answers.update id).fails = false)
    (htime : (Op.drain limit now answers).InTime m serde w)
    (hbound : ∀ id, failures (drainOnce m serde now answers limit w).2.log id < 2 ^ 31 - 1) :
    BackoffInv (drainOnce m serde now answers limit w).2 ∧
      KeepsCreation w (drainOnce m serde now answers limit w).2 := by
  unfold Outbox.drainOnce at hbound ⊢
  cases hfetch : fetchDue w.table limit now answers.fetch with
  | none => exact ⟨hw, KeepsCreation.refl w⟩
  | some fetched =>
    cases fetched with
    | error err => exact ⟨hw, KeepsCreation.refl w⟩
    | ok rows =>
      obtain ⟨hlimit, hanswered, rfl⟩ := fetchDue_eq_ok.1 hfetch
      obtain ⟨hrows, hnodup⟩ := fetchDue_spec hfetch
      rw [hfetch] at hbound
      exact hw.drainLoop hdb hrows hnodup (htime hlimit hanswered) rfl hbound

/-! ### A drain that is not in time -/

/-- A row that is late has a batch before it whose count fits. -/
theorem counted_of_not_inTime
    (htime : (publication serde now answers row).succeeded = false → nextTry row now ≤ maxUtc)
    (hlate : ¬ InTime m serde now answers (row :: rows) sent.toNat) :
    ∃ sent', counted m (publication serde now answers row).succeeded sent = .ok sent' ∧
      ¬ InTime m serde now answers rows sent'.toNat := by
  simp only [InTime, not_forall] at hlate
  obtain ⟨before, r, later, heq, hcount, hsucc, hover⟩ := hlate
  cases before with
  | nil =>
    obtain ⟨rfl, rfl⟩ := List.cons.inj heq
    exact absurd (htime hsucc) hover
  | cons r' before =>
    obtain ⟨rfl, rfl⟩ := List.cons.inj heq
    rw [List.countP_cons] at hcount
    cases m with
    | wrapping =>
      obtain ⟨sent', hcounted⟩ :=
        counted_wrapping (publication serde now answers row).succeeded sent
      exact ⟨sent', hcounted, fun h => hover (h before r later rfl (by rintro ⟨⟩) hsucc)⟩
    | checked =>
      have hfit := hcount rfl
      obtain ⟨sent', hcounted, hsent'⟩ := counted_of_lt .checked
        (show sent.toNat + (if (publication serde now answers row).succeeded then 1 else 0) < 2 ^ 32
          by omega)
      refine ⟨sent', hcounted, fun h => hover (h before r later rfl (fun _ => ?_) hsucc)⟩
      omega

/-- The loop ends in a panic at the first refused row that has no time to be put off to. The failure
is in the log, and the row does not count it. -/
theorem drainLoop_overflow (hrows : Fetched w rows)
    (hdb : ∀ id, (answers.update id).fails = false)
    (hattempts : ∀ row ∈ rows, row.attempts.toInt < 2 ^ 31 - 1)
    (hlate : ¬ InTime m serde now answers rows sent.toNat) :
    ∃ row ∈ rows, (drainLoop m serde now answers rows sent w).2.table.find row.id = some row ∧
      failures (drainLoop m serde now answers rows sent w).2.log row.id =
        failures w.log row.id + 1 := by
  induction rows generalizing sent w with
  | nil =>
    refine absurd (fun before row later heq => ?_) hlate
    simp at heq
  | cons row rows ih =>
    have hfind := hrows.find row List.mem_cons_self
    have hlt := hattempts row List.mem_cons_self
    by_cases htime : (publication serde now answers row).succeeded = false →
        nextTry row now ≤ maxUtc
    · -- The row itself is settled, so one behind it is late, and the count fits until there.
      obtain ⟨w₁, hrow, hdrained⟩ := drainRow_of_find m serde now sent hfind
        (fun hsucc => ⟨hlt, htime hsucc⟩) (hdb row.id)
      obtain ⟨sent₁, hcounted, hlate₁⟩ := counted_of_not_inTime htime hlate
      obtain ⟨r, hr, hfind', hfailures⟩ := ih (hrows.tail hdrained)
        (fun r hr => hattempts r (List.mem_cons_of_mem _ hr)) hlate₁
      have hne : row.id ≠ r.id := by
        have hnodup := hrows.nodup
        rw [List.map_cons, List.nodup_cons] at hnodup
        exact fun heq => hnodup.1 (heq ▸ List.mem_map_of_mem hr)
      rw [drainLoop, hrow, hcounted]
      refine ⟨r, List.mem_cons_of_mem _ hr, hfind', hfailures.trans ?_⟩
      rw [hdrained.published, List.map_singleton, failures_concat]
      have hid : (publication serde now answers row).row = row.id := rfl
      rw [if_neg fun hand => hne (hid.symm.trans hand.1)]
    · obtain ⟨hsucc, hnot⟩ := Classical.not_imp.1 htime
      rw [drainLoop, drainRow_of_overflow m serde w sent hlt hsucc hnot]
      refine ⟨row, List.mem_cons_self, hfind, ?_⟩
      rw [World.logged_log, failures_concat, if_pos ⟨rfl, hsucc⟩]

/-- After a drain that is not in time, a row has failed once more than it counts. -/
theorem uncounted_of_not_inTime {limit : UInt64} (hw : BackoffInv w)
    (hdb : ∀ id, (answers.update id).fails = false)
    (hbound : ∀ id, failures w.log id < 2 ^ 31 - 1)
    (hlate : ¬ (Op.drain limit now answers).InTime m serde w) :
    ∃ row ∈ (drainOnce m serde now answers limit w).2.table.rows,
      row.attempts.toInt ≠ failures (drainOnce m serde now answers limit w).2.log row.id := by
  simp only [Op.InTime, Classical.not_imp] at hlate
  obtain ⟨hlimit, hanswered, hlate⟩ := hlate
  have hfetch : fetchDue w.table limit now answers.fetch =
      some (.ok ((dueRows w.table now).take limit.toNat)) :=
    fetchDue_eq_ok.2 ⟨hlimit, hanswered, rfl⟩
  have hfetched := fetched_of_fetchDue hfetch
  have hattempts : ∀ row ∈ (dueRows w.table now).take limit.toNat,
      row.attempts.toInt < 2 ^ 31 - 1 := by
    intro row hrow
    have hcount := hw.counted row.id row (hfetched.find row hrow)
    have hfew := hbound row.id
    omega
  obtain ⟨row, hrow, hfind, hfailures⟩ := drainLoop_overflow hfetched hdb hattempts
    (show ¬ InTime m serde now answers _ (0 : UInt32).toNat from hlate)
  rw [drainOnce_of_fetchDue m serde hfetch]
  refine ⟨row, (find_eq_some_iff.1 hfind).1, ?_⟩
  rw [hfailures, hw.counted row.id row (hfetched.find row hrow)]
  omega

/-! ### Every run -/

variable {ops ops₁ ops₂ : List Op} {op : Op}

theorem runOps_concat (m : MachineInt.OverflowMode) (serde : SerdeJson)
    (jsonb : Json → Option Json) (ops : List Op) (op : Op) :
    runOps m serde jsonb (ops ++ [op]) = runOp m serde jsonb (runOps m serde jsonb ops) op := by
  rw [runOps, List.foldl_append]
  rfl

theorem runOp_log (m : MachineInt.OverflowMode) (serde : SerdeJson) (jsonb : Json → Option Json)
    (w : World) (op : Op) :
    ∃ new : List Publication, (runOp m serde jsonb w op).log = w.log ++ new ∧
      (new.map Publication.row).Nodup := by
  cases op with
  | enqueue e =>
    refine ⟨[], ?_, List.nodup_nil⟩
    rw [List.append_nil]
    rcases enqueue_cases m serde jsonb w e with he | ⟨stored, t, -, -, he⟩
    · rw [show runOp m serde jsonb w (.enqueue e) = _ from he]
    · rw [show runOp m serde jsonb w (.enqueue e) = _ from he]
  | drain limit now answers => exact drainOnce_log m serde now answers limit w

/-- The log only grows, so the bound at the end of a run bounds the failures all along. -/
theorem failures_runOps_append (ops₁ ops₂ : List Op) (id : Uuid) :
    failures (runOps m serde jsonb ops₁).log id ≤
      failures (runOps m serde jsonb (ops₁ ++ ops₂)).log id := by
  induction ops₂ using List.reverseRecOn with
  | nil => rw [List.append_nil]
  | append_singleton ops₂ op ih =>
    obtain ⟨new, hnew, -⟩ := runOp_log m serde jsonb (runOps m serde jsonb (ops₁ ++ ops₂)) op
    rw [← List.append_assoc, runOps_concat, hnew]
    exact ih.trans (failures_le_append _ new id)

/-- As long as the drains are in time, the columns agree with the log, and every row was created by
an `enqueue`. -/
theorem backoffInv_runOps (hdb : ∀ op ∈ ops, op.UpdatesSucceed)
    (hbound : ∀ id, failures (runOps m serde jsonb ops).log id < 2 ^ 31 - 1)
    (htime : ∀ ops₁ op ops₂, ops = ops₁ ++ op :: ops₂ →
      op.InTime m serde (runOps m serde jsonb ops₁)) :
    BackoffInv (runOps m serde jsonb ops) ∧
      ∀ id row, (runOps m serde jsonb ops).table.find id = some row →
        ∃ e, .enqueue e ∈ ops ∧ e.id = id ∧ e.now = row.createdAt := by
  induction ops using List.reverseRecOn with
  | nil =>
    refine ⟨backoffInv_init, fun id row hrow => ?_⟩
    cases hrow
  | append_singleton ops op ih =>
    obtain ⟨hw, hcreated⟩ := ih (fun op hop => hdb op (List.mem_append_left _ hop))
      (fun id => (failures_runOps_append ops [op] id).trans_lt (hbound id))
      (fun ops₁ op' ops₂ heq => htime ops₁ op' (ops₂ ++ [op]) (by rw [heq]; simp))
    have htime' := htime ops op [] rfl
    rw [runOps_concat] at hbound ⊢
    have hold : ∀ id row, (runOps m serde jsonb ops).table.find id = some row →
        ∃ e, .enqueue e ∈ ops ++ [op] ∧ e.id = id ∧ e.now = row.createdAt := by
      intro id row hrow
      obtain ⟨e, he, hid, hnow⟩ := hcreated id row hrow
      exact ⟨e, List.mem_append_left _ he, hid, hnow⟩
    cases op with
    | enqueue e =>
      rcases enqueue_cases m serde jsonb (runOps m serde jsonb ops) e with
        he | ⟨stored, t, -, hins, he⟩
      · rw [show runOp m serde jsonb (runOps m serde jsonb ops) (.enqueue e) = _ from he]
        exact ⟨hw, hold⟩
      · rw [show runOp m serde jsonb (runOps m serde jsonb ops) (.enqueue e) = _ from he]
        refine ⟨hw.inserted hins, fun id row hrow => ?_⟩
        rcases find_insert_cases hins hrow with ⟨rfl, rfl⟩ | ⟨-, hrow⟩
        · exact ⟨e, List.mem_append_right _ (List.mem_singleton_self _), rfl, rfl⟩
        · exact hold id row hrow
    | drain limit now answers =>
      have hupd := hdb _ (List.mem_append_right ops (List.mem_singleton_self _))
      obtain ⟨hw', hkeep⟩ := hw.drainOnce hupd htime' hbound
      refine ⟨hw', fun id row hrow => ?_⟩
      obtain ⟨row₀, hrow₀, heq⟩ := hkeep id row hrow
      rw [heq]
      exact hold id row₀ hrow₀

/-- Publishes of a row behind its last one change nothing in its history. -/
theorem failures_append_of_ne {l₂ : List Publication} (h : ∀ q ∈ l₂, q.row ≠ id)
    (l₁ : List Publication) : failures (l₁ ++ l₂) id = failures l₁ id := by
  rw [failures, List.countP_append]
  refine Nat.add_eq_left.2 (List.countP_eq_zero.2 fun q hq => ?_)
  simp [h q hq]

theorem failures_eq_zero (h : lastPublish log id = none) : failures log id = 0 := by
  have hnone := List.filter_eq_nil_iff.1 (List.getLast?_eq_none_iff.1 h)
  refine List.countP_eq_zero.2 fun p hp => ?_
  simpa using fun hrow => absurd hrow (by simpa using hnone p hp)

theorem failures_pos (hp : p ∈ log) (hfail : p.succeeded = false) : 0 < failures log p.row :=
  List.countP_pos_iff.2 ⟨p, hp, by simp [hfail]⟩

theorem le_add_seconds_backoff (since : Instant) (n : ℕ) :
    since + seconds (backoff n) ≤ since + seconds 600 :=
  Int.add_le_add_left (Int.mul_le_mul_of_nonneg_right (backoff_le n) (by decide)) since

/-- A pending row is due at its creation, or at the backoff after its last failure. -/
theorem BackoffInv.pending_due (hw : BackoffInv w) (hfind : w.table.find id = some row)
    (hpending : row.status = "pending") :
    (row.attempts = 0 ∧ row.availableAt = row.createdAt) ∨
      (0 < row.attempts.toInt ∧ ∃ l₁ p l₂, w.log = l₁ ++ p :: l₂ ∧ p.row = id ∧
        p.succeeded = false ∧ (∀ q ∈ l₂, q.row ≠ id) ∧
        row.availableAt = p.now + seconds (backoff row.attempts.toInt.toNat)) := by
  obtain ⟨-, rfl⟩ := find_eq_some_iff.1 hfind
  have hdue := hw.due row.id row hfind hpending
  have hcount := hw.counted row.id row hfind
  rw [dueAt] at hdue
  cases hlast : lastPublish w.log row.id with
  | none =>
    rw [hlast] at hdue
    rw [failures_eq_zero hlast] at hcount
    exact Or.inl ⟨Int32.toInt_inj.1 hcount, hdue⟩
  | some p =>
    rw [hlast] at hdue
    obtain ⟨l₁, l₂, hlog, hrow, hlater⟩ := lastPublish_eq_some_iff.1 hlast
    have hmem : p ∈ w.log := by
      rw [hlog]
      simp
    have hfail := hw.unsent row.id row hfind hpending p hmem hrow
    have hpos := failures_pos hmem hfail
    rw [hrow] at hpos
    exact Or.inr ⟨by omega, l₁, p, l₂, hlog, hrow, hfail, hlater, hdue⟩

/-- What the invariant says of a run. -/
theorem BackoffInv.honoured (hw : BackoffInv (runOps m serde jsonb ops))
    (hcreated : ∀ id row, (runOps m serde jsonb ops).table.find id = some row →
      ∃ e, .enqueue e ∈ ops ∧ e.id = id ∧ e.now = row.createdAt) :
    Honoured m serde jsonb ops := by
  refine ⟨?_, ?_, ?_, ?_, ?_⟩
  · intro row hrow
    exact hw.counted row.id row (find_eq_some_iff.2 ⟨hrow, rfl⟩)
  · intro l₁ p l₂ q l₃ hlog hrow _ hbetween
    -- With nothing in between, `p` is the last publish of the row before `q`.
    have hlast : lastPublish (l₁ ++ p :: l₂) q.row = some p :=
      lastPublish_eq_some_iff.2 ⟨l₁, l₂, rfl, hrow.symm, by rwa [hrow]⟩
    have hready := (hw.spaced _ q l₃ hlog).2 p hlast
    have hsplit : l₁ ++ p :: l₂ = (l₁ ++ [p]) ++ l₂ := by simp
    rw [hrow, hsplit, failures_append_of_ne hbetween] at hready
    exact hready
  · intro ops₁ op ops₂ _
    rw [runOps_concat]
    exact runOp_log m serde jsonb _ op
  · intro l₁ p l₂ hlog hsucc q hq hrow
    obtain ⟨l, l', rfl⟩ := List.append_of_mem hq
    have hready := (hw.spaced (l₁ ++ p :: l) q l' (by simpa using hlog)).1 p (by simp) hrow.symm
    rw [hsucc] at hready
    cases hready
  · intro row hrow hpending
    have hfind := find_eq_some_iff.2 ⟨hrow, rfl⟩
    rcases hw.pending_due hfind hpending with ⟨hzero, hat⟩ |
      ⟨hpos, l₁, p, l₂, hlog, hid, hfail, hlater, hat⟩
    · obtain ⟨e, he, hid, hnow⟩ := hcreated row.id row hfind
      refine ⟨row.createdAt, ?_, Or.inl ⟨hzero, hat, e, he, hid, hnow⟩⟩
      rw [hat]
      exact Int.le_add_of_nonneg_right (by decide)
    · refine ⟨p.now, ?_, Or.inr ⟨hpos, hat, l₁, p, l₂, hlog, hid, hfail, rfl, hlater⟩⟩
      rw [hat]
      exact le_add_seconds_backoff p.now _

/-- As long as the backoff is honoured, the drains are in time. -/
theorem inTime_of_honoured (hdb : ∀ op ∈ ops, op.UpdatesSucceed)
    (hbound : ∀ id, failures (runOps m serde jsonb ops).log id < 2 ^ 31 - 1)
    (h : ∀ ops₁ ops₂, ops = ops₁ ++ ops₂ → Honoured m serde jsonb ops₁) :
    ∀ ops₁ op ops₂, ops = ops₁ ++ op :: ops₂ →
      op.InTime m serde (runOps m serde jsonb ops₁) := by
  induction ops using List.reverseRecOn with
  | nil =>
    intro ops₁ op ops₂ heq
    simp at heq
  | append_singleton ops op ih =>
    have hbefore : ∀ id, failures (runOps m serde jsonb ops).log id < 2 ^ 31 - 1 :=
      fun id => (failures_runOps_append ops [op] id).trans_lt (hbound id)
    have hdb' : ∀ op ∈ ops, op.UpdatesSucceed := fun op hop => hdb op (List.mem_append_left _ hop)
    have hearlier := ih hdb' hbefore fun ops₁ ops₂ heq =>
      h ops₁ (ops₂ ++ [op]) (by rw [heq, List.append_assoc])
    intro ops₁ op' ops₂ heq
    rcases Runs.concat_eq_append_cons heq with ⟨-, rfl, rfl⟩ | ⟨l', rfl, rfl⟩
    · cases op with
      | enqueue e => trivial
      | drain limit now answers =>
        by_contra hlate
        have hw := (backoffInv_runOps hdb' hbefore hearlier).1
        have hupd := hdb _ (List.mem_append_right ops (List.mem_singleton_self _))
        obtain ⟨row, hrow, hne⟩ := uncounted_of_not_inTime hw hupd hbefore hlate
        have hcounted := (h _ [] (List.append_nil _).symm).counted
        rw [runOps_concat] at hcounted
        exact hne (hcounted row hrow)
    · exact hearlier ops₁ op' l' rfl

/-- **In every run of producers and one drainer, with any times, limits and publish outcomes, the
backoff is honoured in all states exactly when no drain refuses a row so late that the time of its
next attempt does not exist.** -/
theorem honoured_iff (m : MachineInt.OverflowMode) (serde : SerdeJson)
    (jsonb : Json → Option Json) (ops : List Op) (hdb : ∀ op ∈ ops, op.UpdatesSucceed)
    (hbound : ∀ id, failures (runOps m serde jsonb ops).log id < 2 ^ 31 - 1) :
    (∀ ops₁ op ops₂, ops = ops₁ ++ op :: ops₂ →
      op.InTime m serde (runOps m serde jsonb ops₁)) ↔
      ∀ ops₁ ops₂, ops = ops₁ ++ ops₂ → Honoured m serde jsonb ops₁ := by
  refine ⟨fun htime ops₁ ops₂ heq => ?_, inTime_of_honoured hdb hbound⟩
  subst heq
  obtain ⟨hw, hcreated⟩ := backoffInv_runOps
    (fun op hop => hdb op (List.mem_append_left _ hop))
    (fun id => (failures_runOps_append ops₁ ops₂ id).trans_lt (hbound id))
    (fun l op l' heq => htime l op (l' ++ ops₂) (by rw [heq]; simp))
  exact hw.honoured hcreated

/-- A drain that is called ten minutes before the end of time is in time. -/
theorem inTime_of_le {w : World} {limit : UInt64} (hnow : now + seconds 600 ≤ maxUtc) :
    (Op.drain limit now answers).InTime m serde w :=
  fun _ _ _ _ _ _ _ _ => (le_add_seconds_backoff now _).trans hnow

/-- Two drains that fail and one that is too early in between. -/
def sampleOps : List Op :=
  [.enqueue ⟨1, "task.assigned", Bus.sampleEvent, 0, .ok⟩, .drain 10 0 refusing,
    .drain 10 (seconds 4) refusing, .drain 10 (seconds 5) refusing]

/-- A drain that fails at the end of time. -/
def lateOps : List Op :=
  [.enqueue ⟨1, "task.assigned", Bus.sampleEvent, 0, .ok⟩, .drain 10 maxUtc refusing]

/-- The attempts and the failures of the rows, and the number of publishes, after a run. -/
def historyAfter (ops : List Op) : List (Int32 × ℕ) × ℕ :=
  let w := runOps .checked Bus.sampleSerde some ops
  (w.table.rows.map fun row => (row.attempts, failures w.log row.id), w.log.length)

theorem historyAfter_samples :
    (historyAfter sampleOps, historyAfter lateOps) = (([(2, 2)], 2), ([(0, 1)], 1)) := by
  decide +kernel

theorem honoured_iff_sampleOps :
    historyAfter sampleOps = ([(2, 2)], 2) ∧
      Honoured .checked Bus.sampleSerde some sampleOps := by
  have hhistory := (Prod.mk.inj historyAfter_samples).1
  refine ⟨hhistory, (honoured_iff .checked Bus.sampleSerde some sampleOps ?_ ?_).1 ?_ sampleOps []
    (List.append_nil _).symm⟩
  · intro op hop
    simp only [sampleOps, List.mem_cons, List.not_mem_nil, or_false] at hop
    rcases hop with rfl | rfl | rfl | rfl
    · trivial
    · exact fun _ => rfl
    · exact fun _ => rfl
    · exact fun _ => rfl
  · intro id
    have hlength := (Prod.mk.inj hhistory).2
    calc failures _ id ≤ (runOps .checked Bus.sampleSerde some sampleOps).log.length :=
          List.countP_le_length
      _ < 2 ^ 31 - 1 := by rw [hlength]; decide
  · intro ops₁ op ops₂ heq
    have hop : op ∈ sampleOps := by
      rw [heq]
      simp
    simp only [sampleOps, List.mem_cons, List.not_mem_nil, or_false] at hop
    rcases hop with rfl | rfl | rfl | rfl
    · trivial
    · exact inTime_of_le (by decide)
    · exact inTime_of_le (by decide)
    · exact inTime_of_le (by decide)

/-- The publish at the end of time fails, and the row does not count it. -/
theorem not_honoured : ¬ Honoured .checked Bus.sampleSerde some lateOps := by
  intro h
  have hrows := (Prod.mk.inj (Prod.mk.inj historyAfter_samples).2).1
  obtain ⟨row, hrow, heq⟩ := List.mem_map.1 (hrows ▸ List.mem_singleton_self _)
  obtain ⟨hattempts, hfailures⟩ := Prod.mk.inj heq
  have hcounted := h.counted row hrow
  rw [hattempts, hfailures] at hcounted
  cases hcounted

end Outbox

end OaLibs

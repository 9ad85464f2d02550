import OaLibs.Bus.Backlog
import OaLibs.Bus.Backoff
import OaLibs.Bus.Delivery

/-!
# Recovery

Drainers may overlap, fail and stop as they like for a while. Ten minutes after the last of their
steps every row that is still pending is due again, and one drainer with a bus and a database that
work delivers all of them.

* `By`, `Timely`: steps up to a time, and what they leave in the columns;
* `timely_of_run`: no row is put off by more than ten minutes, in any interleaving;
* `mem_dueRows_of_timely`: after that all pending rows are due;
* `recovers`: everything that was ever accepted is delivered, and nothing sent is published again.
-/

namespace OaLibs

namespace Outbox

/-- A step whose time, if it has one, is not after `latest`. -/
def By (latest : Instant) : Event → Prop
  | .env e => e.now ≤ latest
  | .start f => f.now ≤ latest
  | .act _ _ => True

/-- What steps up to `latest` leave: no row and no plan of a call is put off any further than ten
minutes after it. -/
structure Timely (latest : Instant) (s : State) : Prop where
  rows : ∀ id row, s.world.table.find id = some row → row.availableAt ≤ latest + seconds 600
  now : ∀ c ∈ s.procs, c.now ≤ latest
  plans : ∀ c ∈ s.procs, ∀ row attempts nextAt err, c.phase = .refused row attempts nextAt err →
    nextAt ≤ latest + seconds 600

variable {m : MachineInt.OverflowMode} {serde : SerdeJson} {jsonb : Json → Option Json}
  {latest now : Instant} {s s' : State} {w w' : World} {c c' : Call} {row : Model} {id : Uuid}

/-! ### How far a row is put off -/

theorem le_add_seconds {latest t s : ℤ} (h : t ≤ latest) (hs : s ≤ 600) :
    t + seconds s ≤ latest + seconds 600 := by
  unfold seconds
  omega

theorem le_add_tenMinutes {latest t : ℤ} (h : t ≤ latest) : t ≤ latest + seconds 600 := by
  unfold seconds
  omega

theorem retryPlan_le {attempts : Int32} {nextAt : Instant} (hnow : now ≤ latest)
    (h : retryPlan m row now = some (attempts, nextAt)) : nextAt ≤ latest + seconds 600 := by
  obtain ⟨-, s, hs, rfl⟩ := retryPlan_eq_some h
  obtain ⟨d, -, hd⟩ := Option.map_eq_some_iff.1 hs
  have hle : s ≤ 600 := by
    rw [← hd]
    exact min_le_right _ _
  exact le_add_seconds hnow hle

/-- A step of a call keeps its time, and makes only plans that are timely. -/
theorem CallStep.timely {a : CallAct} (h : CallStep m serde w c a w' c')
    (hnow : c.now ≤ latest) :
    c'.now ≤ latest ∧ ∀ row attempts nextAt err, c'.phase = .refused row attempts nextAt err →
      nextAt ≤ latest + seconds 600 := by
  cases h with
  | refused hphase hrest hpub hplan =>
    refine ⟨hnow, fun r a n e heq => ?_⟩
    obtain ⟨-, -, rfl, -⟩ := Phase.refused.inj heq
    exact retryPlan_le hnow hplan
  | published | overflowed | markSentFailed | markSentOverflowed | markSent | markRetryFailed
  | markRetry | finish | stop =>
    exact ⟨hnow, fun r a n e heq => by cases heq⟩

/-- A step of a call keeps the rows timely. -/
theorem CallStep.rows_timely {a : CallAct} (h : CallStep m serde w c a w' c')
    (hplans : ∀ row attempts nextAt err, c.phase = .refused row attempts nextAt err →
      nextAt ≤ latest + seconds 600)
    (hrows : ∀ id row, w.table.find id = some row → row.availableAt ≤ latest + seconds 600) :
    ∀ id row, w'.table.find id = some row → row.availableAt ≤ latest + seconds 600 := by
  intro id row hfind
  rcases h.world_cases with rfl | ⟨r, -, reply, result, entry, -, rfl⟩ |
    ⟨r, db, t, -, -, -, hupd, rfl⟩ | ⟨r, attempts, nextAt, err, db, t, -, -, hphase, hupd, rfl⟩
  · exact hrows id row hfind
  · exact hrows id row hfind
  · obtain ⟨-, r', hr'⟩ := update_eq_some hupd
    rcases find_update_cases hupd hr' hfind with ⟨-, rfl⟩ | ⟨-, hold⟩
    · exact hrows r.id r' hr'
    · exact hrows id row hold
  · obtain ⟨-, r', hr'⟩ := update_eq_some hupd
    rcases find_update_cases hupd hr' hfind with ⟨-, rfl⟩ | ⟨-, hold⟩
    · exact hplans r attempts nextAt err hphase
    · exact hrows id row hold

theorem Timely.step {ev : Event} (h : Timely latest s) (hby : By latest ev)
    (hstep : step m serde jsonb s ev = some s') : Timely latest s' := by
  cases ev with
  | env e =>
    obtain rfl := Option.some.inj hstep
    refine ⟨fun id row hfind => ?_, h.now, h.plans⟩
    rcases enqueue_cases m serde jsonb s.world e with hsame | ⟨stored, t, -, hins, hnew⟩
    · rw [show Interleaving.State.world _ = _ from hsame] at hfind
      exact h.rows id row hfind
    · rw [show Interleaving.State.world _ = _ from hnew] at hfind
      rcases find_insert_cases hins hfind with ⟨-, rfl⟩ | ⟨-, hold⟩
      · exact le_add_tenMinutes hby
      · exact h.rows id row hold
  | start f =>
    obtain rfl := Option.some.inj hstep
    obtain ⟨hnow, -⟩ := startCall_spec s.world f
    refine ⟨h.rows, fun c hc => ?_, fun c hc row attempts nextAt err heq => ?_⟩
    · rcases List.mem_append.1 hc with hc | hc
      · exact h.now c hc
      · rw [List.mem_singleton.1 hc]
        exact hnow.trans_le hby
    · rcases List.mem_append.1 hc with hc | hc
      · exact h.plans c hc row attempts nextAt err heq
      · rw [List.mem_singleton.1 hc] at heq
        exact absurd heq ((startCall_phase s.world f).2 row attempts nextAt err)
  | act i a =>
    obtain ⟨c, w', c', hc, ha, rfl⟩ := step_act_cases hstep
    have hmem := List.mem_of_getElem? hc
    obtain ⟨hnow, hplans⟩ := ha.timely (h.now c hmem)
    refine ⟨ha.rows_timely (h.plans c hmem) h.rows, fun d hd => ?_, fun d hd => ?_⟩
    · rcases List.mem_or_eq_of_mem_set hd with hd | rfl
      · exact h.now d hd
      · exact hnow
    · rcases List.mem_or_eq_of_mem_set hd with hd | rfl
      · exact h.plans d hd
      · exact hplans

/-- No row is put off by more than ten minutes, in any interleaving. -/
theorem timely_of_run {evs : List Event} (hrun : Runs.run (step m serde jsonb) initial evs = some s)
    (hby : ∀ ev ∈ evs, By latest ev) : Timely latest s := by
  have hinit : Timely latest initial := by
    refine ⟨fun id row h => ?_, fun c h => ?_, fun c h => ?_⟩
    · cases h
    · cases h
    · cases h
  refine Runs.run_induction
    (P := fun evs s => (∀ ev ∈ evs, By latest ev) → Timely latest s) (fun _ => hinit) ?_ hrun hby
  intro evs u ev v _ ih hstep hall
  exact (ih fun e he => hall e (List.mem_append_left _ he)).step
    (hall ev (List.mem_append_right _ (List.mem_singleton_self _))) hstep

/-! ### Ten minutes later -/

/-- Ten minutes later the due rows are the pending ones. -/
theorem mem_dueRows_of_timely (h : Timely latest s) (hnow : latest + seconds 600 ≤ now) :
    row ∈ dueRows s.world.table now ↔ row ∈ s.world.table.rows ∧ row.status = "pending" := by
  rw [mem_dueRows]
  refine and_congr_right fun hmem => ⟨And.left, fun hpending => ⟨hpending, ?_⟩⟩
  exact (h.rows row.id row (find_eq_some_iff.2 ⟨hmem, rfl⟩)).trans hnow

/-- A limit that the pending rows do not exceed is none for the due ones. -/
theorem take_dueRows {t : Table} {n : ℕ}
    (hn : (t.rows.countP fun row => row.status = "pending") ≤ n) :
    (dueRows t now).take n = dueRows t now := by
  refine List.take_of_length_le (le_trans ?_ hn)
  rw [length_dueRows]
  refine List.countP_mono_left fun row _ hdue => ?_
  exact decide_eq_true (of_decide_eq_true hdue).1

/-- Drains take nothing out of the log. -/
theorem mem_log_drains {calls : List (UInt64 × Answers)} {p : Publication} (h : p ∈ w.log) :
    p ∈ (drains m serde now calls w).log := by
  induction calls generalizing w with
  | nil => exact h
  | cons call calls ih =>
    refine ih ?_
    obtain ⟨new, hlog, -⟩ := drainOnce_log m serde now call.2 call.1 w
    rw [hlog]
    exact List.mem_append_left _ h

/-- Each due row that the drains reach is published by one of them. -/
theorem published_of_drains (m : MachineInt.OverflowMode) (calls : List (UInt64 × Answers))
    (w : World) (hcalls : Answered serde now w.table calls)
    (hrow : row ∈ (dueRows w.table now).take (totalLimit calls)) :
    ∃ call ∈ calls, publication serde now call.2 row ∈ (drains m serde now calls w).log := by
  induction calls generalizing w with
  | nil =>
    rw [totalLimit, List.map_nil, List.sum_nil, List.take_zero] at hrow
    cases hrow
  | cons call calls ih =>
    obtain ⟨hlog, hdue⟩ := hcalls.dueRows_drainOnce m
    rw [totalLimit, List.map_cons, List.sum_cons, List.take_add, List.mem_append, ← hdue] at hrow
    rcases hrow with hrow | hrow
    · have hmem : publication serde now call.2 row ∈
          (drainOnce m serde now call.2 call.1 w).2.log := by
        rw [hlog]
        exact List.mem_append_right _ (List.mem_map_of_mem hrow)
      have hlater : publication serde now call.2 row ∈
          (drains m serde now calls (drainOnce m serde now call.2 call.1 w).2).log :=
        mem_log_drains hmem
      exact ⟨call, List.mem_cons_self, hlater⟩
    · obtain ⟨call', hcall', hmem⟩ := ih _ (hcalls.tail m) hrow
      exact ⟨call', List.mem_cons_of_mem _ hcall', hmem⟩

/-- A publish that succeeds is a delivery of the event of its row. -/
theorem delivered_of_publication {answers : Answers}
    (hmem : publication serde now answers row ∈ w.log)
    (hsucc : (publication serde now answers row).succeeded = true) :
    Delivered serde w row.id (event row) := by
  refine ⟨_, hmem, rfl, hsucc, ?_⟩
  cases hpub : Bus.publish serde row.eventType row.payload (answers.reply row.id) with
  | mk result entry =>
    have hp : publication serde now answers row = ⟨row.id, now, result, entry⟩ := by
      rw [publication, hpub]
    rw [hp] at hsucc ⊢
    cases result with
    | error err => cases hsucc
    | ok rid => exact Bus.publish_ok hpub

/-- **Whatever the drainers did, ten minutes after their last step a bus and a database that work
again are all it takes: every event that was ever accepted is delivered and its row is sent, and
only the rows that were pending are published, each once.** -/
theorem recovers (m : MachineInt.OverflowMode) (serde : SerdeJson) (jsonb : Json → Option Json)
    {evs : List Event} {s : State}
    (hrun : Runs.run (step m serde jsonb) initial evs = some s) {latest now : Instant}
    (hby : ∀ ev ∈ evs, By latest ev) (hnow : latest + seconds 600 ≤ now)
    (calls : List (UInt64 × Answers))
    (hfetch : ∀ call ∈ calls, call.2.fetch.fails = false)
    (hupdate : ∀ call ∈ calls, ∀ id, (call.2.update id).fails = false)
    (hlimit : ∀ call ∈ calls, call.1.toNat < 2 ^ 32)
    (hpublish : ∀ call ∈ calls, ∀ row ∈ s.world.table.rows,
      (publication serde now call.2 row).succeeded = true)
    (hsum : (s.world.table.rows.countP fun row => row.status = "pending") ≤
      (calls.map fun call => call.1.toNat).sum) :
    (∀ es₁ e es₂ s₁ t, evs = es₁ ++ .env e :: es₂ →
      Runs.run (step m serde jsonb) initial es₁ = some s₁ →
      enqueue jsonb s₁.world.table e.id e.eventType e.payload e.now e.db = .ok t →
      ∃ row, (drains m serde now calls s.world).table.find e.id = some row ∧
        row.status = "sent" ∧ row.eventType = e.eventType ∧ jsonb e.payload = some row.payload ∧
        Delivered serde (drains m serde now calls s.world) e.id (e.eventType, row.payload)) ∧
    ∃ new : List Uuid, (drains m serde now calls s.world).log.map Publication.row =
        s.world.log.map Publication.row ++ new ∧ new.Pairwise (· < ·) ∧
      ∀ id, id ∈ new ↔ ∃ row, s.world.table.find id = some row ∧ row.status = "pending" := by
  have htimely := timely_of_run hrun hby
  have htake : (dueRows s.world.table now).take (totalLimit calls) =
      dueRows s.world.table now := take_dueRows hsum
  -- Every publish succeeds, so no row has to be put off.
  have hcalls : Answered serde now s.world.table calls := by
    refine ⟨hfetch, hupdate, hlimit, fun call hcall row hrow hrefused => ?_⟩
    rw [hpublish call hcall row (mem_dueRows.1 hrow).1] at hrefused
    cases hrefused
  constructor
  · intro es₁ e es₂ s₁ t hevs hrun₁ hok
    rw [hevs] at hrun
    obtain ⟨row, hfind, htype, hstored⟩ := enqueued_stays hrun hrun₁ hok
    obtain ⟨hmem, hid⟩ := find_eq_some_iff.1 hfind
    rw [← hid] at hfind ⊢
    obtain ⟨hin, hout⟩ := drains_sends m calls s.world hcalls
      (fun call hcall r hr => hpublish call hcall r (mem_dueRows.1 hr).1) hfind
    rw [htake, mem_dueRows_of_timely htimely hnow] at hin hout
    by_cases hpending : row.status = "pending"
    · have hdue : row ∈ (dueRows s.world.table now).take (totalLimit calls) := by
        rw [htake, mem_dueRows_of_timely htimely hnow]
        exact ⟨hmem, hpending⟩
      obtain ⟨call, hcall, hlog⟩ := published_of_drains m calls s.world hcalls hdue
      refine ⟨_, hin ⟨hmem, hpending⟩, rfl, htype, hstored, ?_⟩
      rw [← htype]
      exact delivered_of_publication hlog (hpublish call hcall row hmem)
    · -- a row that is not pending was sent, and so it was delivered
      have hsent : row.status = "sent" := by
        rcases (holds_of_run hrun).1.status row.id row hfind with ⟨hst, -⟩ | ⟨hst, -⟩
        · exact absurd hst hpending
        · exact hst
      obtain ⟨ev, hacc, p, hp, hdelivered⟩ :=
        (ledger_safe hrun).confirmed row.id ⟨row, hfind, hsent⟩
      rw [hfind, Option.map_some] at hacc
      obtain rfl := Option.some.inj hacc
      refine ⟨row, hout fun h => hpending h.2, hsent, htype, hstored, ?_⟩
      rw [← htype]
      exact ⟨p, mem_log_drains hp, hdelivered⟩
  · have hlog := rows_drains m calls s.world hcalls
    rw [htake] at hlog
    refine ⟨_, hlog, List.pairwise_map.2 (ascending_dueRows _ _), fun id => ?_⟩
    rw [List.mem_map]
    constructor
    · rintro ⟨row, hrow, rfl⟩
      obtain ⟨hmem, hpending⟩ := (mem_dueRows_of_timely htimely hnow).1 hrow
      exact ⟨row, find_eq_some_iff.2 ⟨hmem, rfl⟩, hpending⟩
    · rintro ⟨row, hfind, hpending⟩
      obtain ⟨hmem, hid⟩ := find_eq_some_iff.1 hfind
      exact ⟨row, (mem_dueRows_of_timely htimely hnow).2 ⟨hmem, hpending⟩, hid⟩

/-- An event whose first publish is refused; the call that puts it off is dropped afterwards. -/
def sampleOutage : List Event :=
  [.env ⟨1, "task.assigned", Bus.sampleEvent, 0, .ok⟩, .start ⟨10, 0, .ok⟩,
    .act 0 (.publish (.err "connection refused" false)), .act 0 (.markRetry .ok), .act 0 .stop]

/-- What the outage leaves is one pending row that a working bus can publish. -/
def recoverable (t : Table) : Bool :=
  (t.rows.all fun row => (publication Bus.sampleSerde (seconds 600) smooth row).succeeded) &&
    (t.rows.countP fun row => row.status = "pending") == 1

theorem recovers_sampleOutage :
    ∃ s, Runs.run (step .checked Bus.sampleSerde some) initial sampleOutage = some s ∧
      ∃ row, (drains .checked Bus.sampleSerde (seconds 600) [(1, smooth)] s.world).table.find 1 =
          some row ∧ row.status = "sent" ∧
        Delivered Bus.sampleSerde
          (drains .checked Bus.sampleSerde (seconds 600) [(1, smooth)] s.world) 1
          ("task.assigned", row.payload) := by
  have hrun : (Runs.run (step .checked Bus.sampleSerde some) initial sampleOutage).map
      (fun s => recoverable s.world.table) = some true := by decide +kernel
  obtain ⟨s, hs, hstate⟩ := Option.map_eq_some_iff.1 hrun
  obtain ⟨hrows, hpending⟩ := (Bool.and_eq_true_iff).1 hstate
  have hby : ∀ ev ∈ sampleOutage, By 0 ev := by
    simp [sampleOutage, By]
  obtain ⟨hdelivered, -⟩ := recovers .checked Bus.sampleSerde some hs hby (le_refl _)
    [(1, smooth)] (by simp [smooth, Db.ok]) (by simp [smooth, Db.ok]) (by simp)
    (by
      intro call hcall row hrow
      rw [List.mem_singleton.1 hcall]
      exact List.all_eq_true.1 hrows row hrow)
    (beq_iff_eq.1 hpending).le
  obtain ⟨row, hfind, hsent, -, -, hdeliveredRow⟩ := hdelivered [] _ _ initial _ rfl rfl rfl
  exact ⟨s, hs, row, hfind, hsent, hdeliveredRow⟩

end Outbox

end OaLibs

import OaLibs.Bus.Delivery

/-!
# When the retry bookkeeping is right

`mark_sent` and `mark_retry` update a row by its id, whatever the row looks like by then. Two
drainers that hold copies of one row can therefore count one failure for two, or touch a row that
the other has marked as sent.

* `Bookkept`: what the columns of a row should say after every step;
* `Current`: the update does not act on an outdated copy;
* `bookkept_iff`: in every run, the first holds of all steps exactly when the second does;
* `not_bookkept`: two runs in which it fails.
-/

namespace OaLibs

namespace Outbox

/-- The bookkeeping over one step: attempts do not decrease and count the retries, and a row that
has been marked as sent keeps all its columns and no error. -/
def Bookkept (s s' : State) : Prop :=
  (∀ id row, s.world.table.find id = some row →
    ∃ row', s'.world.table.find id = some row' ∧ row.attempts.toInt ≤ row'.attempts.toInt) ∧
  (∀ id row, s'.world.table.find id = some row →
    row.attempts.toInt = s'.world.updates.count (.retry id)) ∧
  (∀ id, .sent id ∈ s.world.updates → s'.world.table.find id = s.world.table.find id) ∧
  (∀ id row, s'.world.table.find id = some row → row.status = "sent" → row.lastError = none)

/-- An update by a call finds the row as it was copied: for a retry, still pending and with as many
attempts, fewer than `i32::MAX`; for a delivery, still pending, unless it was marked as sent at the
same time. -/
def Current (s : State) : Event → Prop
  | .act i (.markRetry db) =>
      ∀ c row attempts nextAt err row', db.fails = false → s.procs[i]? = some c →
        c.phase = .refused row attempts nextAt err → s.world.table.find row.id = some row' →
        row'.status = "pending" ∧ row'.attempts = row.attempts ∧ row.attempts.toInt < 2 ^ 31 - 1
  | .act i (.markSent db) =>
      ∀ c row row', db.fails = false → s.procs[i]? = some c → c.phase = .published row →
        s.world.table.find row.id = some row' →
        row'.status = "pending" ∨ row'.sentAt = some c.now
  | _ => True

/-! ### The invariant -/

/-- The row of an update. -/
def Update.row : Update → Uuid
  | .sent row => row
  | .retry row => row

/-- The columns agree with the updates so far. -/
structure Books (w : World) : Prop where
  counted : ∀ id row, w.table.find id = some row →
    row.attempts.toInt = w.updates.count (.retry id)
  closed : ∀ id row, w.table.find id = some row → (.sent id ∈ w.updates ↔ row.status = "sent")
  cleared : ∀ id row, w.table.find id = some row → row.status = "sent" → row.lastError = none
  known : ∀ u ∈ w.updates, ∃ row, w.table.find u.row = some row

/-- A call that is about to put a row off counts one more than its copy. -/
def Planned (c : Call) : Prop :=
  ∀ row attempts nextAt err, c.phase = .refused row attempts nextAt err →
    attempts = row.attempts + 1

variable {m : MachineInt.OverflowMode} {serde : SerdeJson} {jsonb : Json → Option Json}
  {w w' : World} {t : Table} {s s' : State}
  {ev : Event} {c c' : Call}

theorem CallStep.planned {a : CallAct} (h : CallStep m serde w c a w' c') : Planned c' := by
  intro row attempts nextAt err hphase
  cases h with
  | refused _ _ _ hplan =>
    obtain ⟨rfl, rfl, rfl, rfl⟩ := Phase.refused.inj hphase
    exact (retryPlan_eq_some hplan).1
  | _ => cases hphase

theorem planned_start (w : World) (f : Fetch) : Planned (startCall w f) := by
  intro row attempts nextAt err hphase
  exact absurd hphase ((startCall_phase w f).2 row attempts nextAt err)

theorem planned_proof :
    (drainers m serde jsonb).Proof (fun _ => True) (fun _ => Planned) (fun _ _ => True) where
  env_world _ _ _ := ⟨trivial, trivial⟩
  start_proc w f _ := planned_start w f
  act_world _ _ _ _ _ _ _ h := ⟨trivial, (callStep_sound h).planned, trivial⟩
  stable _ _ _ h _ := h

theorem Books.inserted (h : Books w) {e : NewEvent} {stored : Json}
    (hins : w.table.insert (newRow e.id e.eventType stored e.now) = some t) :
    Books { w with table := t } := by
  have hnone : w.table.find e.id = none := (insert_eq_some hins).2
  have hfresh : ∀ u ∈ w.updates, u.row ≠ e.id := by
    intro u hu hid
    obtain ⟨row, hrow⟩ := h.known u hu
    rw [hid, hnone] at hrow
    cases hrow
  refine ⟨fun id row hrow => ?_, fun id row hrow => ?_, fun id row hrow => ?_, fun u hu => ?_⟩
  · rcases find_insert_cases hins hrow with ⟨rfl, rfl⟩ | ⟨-, hold⟩
    · have hzero : w.updates.count (.retry e.id) = 0 :=
        List.count_eq_zero.2 fun hu => hfresh _ hu rfl
      show (0 : Int32).toInt = (w.updates.count (.retry e.id) : ℤ)
      rw [hzero]
      rfl
    · exact h.counted id row hold
  · rcases find_insert_cases hins hrow with ⟨rfl, rfl⟩ | ⟨-, hold⟩
    · refine iff_of_false (fun hu => hfresh _ hu rfl) ?_
      show "pending" ≠ "sent"
      decide
    · exact h.closed id row hold
  · rcases find_insert_cases hins hrow with ⟨rfl, rfl⟩ | ⟨-, hold⟩
    · intro _
      rfl
    · exact h.cleared id row hold
  · obtain ⟨row, hrow⟩ := h.known u hu
    exact ⟨row, find_insert_of_find hins hrow⟩

/-- Rows other than the updated one keep their books. -/
theorem Books.updated (h : Books w) {id : Uuid} {row : Model} {active : ActiveModel} {u : Update}
    (hfind : w.table.find id = some row) (hupd : w.table.update id active = some t)
    (hu : u.row = id)
    (hcounted : (active.apply row).attempts.toInt = (w.updates ++ [u]).count (.retry id))
    (hclosed : .sent id ∈ w.updates ++ [u] ↔ (active.apply row).status = "sent")
    (hcleared : (active.apply row).status = "sent" → (active.apply row).lastError = none) :
    Books (w.updated t u) := by
  refine ⟨fun j row' hrow' => ?_, fun j row' hrow' => ?_, fun j row' hrow' => ?_, fun v hv => ?_⟩
  · rcases find_update_cases hupd hfind hrow' with ⟨rfl, rfl⟩ | ⟨hj, hold⟩
    · exact hcounted
    -- The new record is about the updated row, so the count of another row does not see it.
    · rw [World.updated_updates, List.count_append, h.counted j row' hold]
      have hother : [u].count (.retry j) = 0 := by
        refine List.count_eq_zero.2 fun hmem => hj ?_
        rw [← hu, ← List.mem_singleton.1 hmem]
        rfl
      rw [hother, Nat.add_zero]
  · rcases find_update_cases hupd hfind hrow' with ⟨rfl, rfl⟩ | ⟨hj, hold⟩
    · exact hclosed
    · rw [World.updated_updates, List.mem_append, ← h.closed j row' hold]
      refine or_iff_left fun hmem => hj ?_
      rw [← hu, ← List.mem_singleton.1 hmem]
      rfl
  · rcases find_update_cases hupd hfind hrow' with ⟨rfl, rfl⟩ | ⟨hj, hold⟩
    · exact hcleared
    · exact h.cleared j row' hold
  · have hold : ∃ row', w.table.find v.row = some row' := by
      rcases List.mem_append.1 hv with hv | hv
      · exact h.known v hv
      · rw [List.mem_singleton.1 hv, hu]
        exact ⟨row, hfind⟩
    obtain ⟨row', hrow'⟩ := hold
    exact find_update_of_find hupd hrow'

theorem Books.congr (h : Books w) (ht : w'.table = w.table) (hu : w'.updates = w.updates) :
    Books w' := by
  constructor
  · rw [ht, hu]
    exact h.counted
  · rw [ht, hu]
    exact h.closed
  · rw [ht]
    exact h.cleared
  · rw [ht, hu]
    exact h.known

/-- A delivery keeps the books whatever the row looks like. -/
theorem Books.sent (h : Books w) {id : Uuid} {row : Model} {now : Instant}
    (hfind : w.table.find id = some row) (hupd : w.table.update id (sentColumns now) = some t) :
    Books (w.updated t (.sent id)) := by
  refine h.updated hfind hupd rfl ?_ ?_ fun _ => rfl
  · show row.attempts.toInt = _
    rw [h.counted id row hfind, List.count_append]
    rfl
  · exact iff_of_true (List.mem_append_right _ (List.mem_singleton_self _)) rfl

/-- A retry keeps the books if it counts one more than a row that is still pending. -/
theorem Books.retry (h : Books w) {id : Uuid} {row : Model} {attempts : Int32} {nextAt : Instant}
    {error : String} (hfind : w.table.find id = some row)
    (hupd : w.table.update id (retryColumns attempts nextAt error) = some t)
    (hpending : row.status = "pending") (hcount : attempts.toInt = row.attempts.toInt + 1) :
    Books (w.updated t (.retry id)) := by
  have hstatus : row.status ≠ "sent" := by
    rw [hpending]
    decide
  refine h.updated hfind hupd rfl ?_ ?_ fun hs => absurd hs hstatus
  · show attempts.toInt = _
    rw [hcount, h.counted id row hfind, List.count_append, List.count_singleton_self]
    rfl
  · refine iff_of_false (fun hmem => ?_) hstatus
    rcases List.mem_append.1 hmem with hmem | hmem
    · exact hstatus ((h.closed id row hfind).1 hmem)
    · cases List.mem_singleton.1 hmem

/-! ### One step -/

variable (serde) in
/-- What holds as long as no update has acted on an outdated copy. -/
structure RetryInv (s : State) : Prop where
  holds : Interleaving.Holds WorldOk (CallOk serde) s
  books : Books s.world
  planned : ∀ c ∈ s.procs, Planned c

theorem retryInv_initial : RetryInv serde initial := by
  refine ⟨holds_initial, ⟨fun _ _ h => ?_, fun _ _ h => ?_, fun _ _ h => ?_, fun _ h => ?_⟩,
    fun _ h => ?_⟩
  · cases h
  · cases h
  · cases h
  · cases h
  · cases h

/-- The row of a copy that a call is about to mark. -/
theorem RetryInv.find_copy (h : RetryInv serde s) {i : ℕ} (hc : s.procs[i]? = some c) (row : Model)
    (hrow : row ∈ c.copies) : ∃ row', s.world.table.find row.id = some row' := by
  obtain ⟨row', hrow', -⟩ := (h.holds.2 c (List.mem_of_getElem? hc)).copies row hrow
  exact ⟨row', hrow'⟩

theorem RetryInv.books_step (hs : RetryInv serde s) (hcur : Current s ev)
    (h : step m serde jsonb s ev = some s') : Books s'.world := by
  rcases step_table_cases h with ⟨ht, hu⟩ | ⟨e, stored, t, -, -, hins, hw⟩ |
    ⟨i, db, c, row, t, rfl, hdb, hc, hphase, hupd, hw⟩ |
    ⟨i, db, c, row, attempts, nextAt, err, t, rfl, hdb, hc, hphase, hupd, hw⟩
  · exact hs.books.congr ht hu
  · rw [hw]
    exact hs.books.inserted hins
  · obtain ⟨row', hrow'⟩ := hs.find_copy hc row (by simp [Call.copies, hphase])
    rw [hw]
    exact hs.books.sent hrow' hupd
  · obtain ⟨row', hrow'⟩ := hs.find_copy hc row (by simp [Call.copies, hphase])
    obtain ⟨hpending, hattempts, hlt⟩ := hcur c row attempts nextAt err row' hdb hc hphase hrow'
    have hplan := hs.planned c (List.mem_of_getElem? hc) row attempts nextAt err hphase
    rw [hw]
    refine hs.books.retry hrow' hupd hpending ?_
    rw [hplan, hattempts, MachineInt.toInt_succ_of_lt hlt]

theorem RetryInv.next (hs : RetryInv serde s) (hcur : Current s ev)
    (h : step m serde jsonb s ev = some s') : RetryInv serde s' :=
  ⟨drainers_proof.step hs.holds h, hs.books_step hcur h,
    (planned_proof.step ⟨trivial, hs.planned⟩ h).2⟩

/-- A row that has been marked as sent is not touched. -/
theorem RetryInv.frozen (hs : RetryInv serde s) (hcur : Current s ev)
    (h : step m serde jsonb s ev = some s') {id : Uuid} (hid : .sent id ∈ s.world.updates) :
    s'.world.table.find id = s.world.table.find id := by
  obtain ⟨row₀, hrow₀⟩ := hs.books.known _ hid
  change s.world.table.find id = some row₀ at hrow₀
  have hsent := (hs.books.closed id row₀ hrow₀).1 hid
  rcases step_table_cases h with ⟨ht, -⟩ | ⟨e, stored, t, -, -, hins, hw⟩ |
    ⟨i, db, c, row, t, rfl, hdb, hc, hphase, hupd, hw⟩ |
    ⟨i, db, c, row, attempts, nextAt, err, t, rfl, hdb, hc, hphase, hupd, hw⟩
  · rw [ht]
  · rw [hw]
    exact (find_insert_of_find hins hrow₀).trans hrow₀.symm
  · rw [hw, World.updated_table, find_update hupd]
    split_ifs with heq
    · subst heq
      rcases hcur c row row₀ hdb hc hphase hrow₀ with hpending | hat
      · rw [hpending] at hsent
        exact absurd hsent (by decide)
      · -- The same time is written once more, over the values of the first delivery.
        have hcleared := hs.books.cleared _ row₀ hrow₀ hsent
        rw [hrow₀]
        refine congrArg some ?_
        show { row₀ with status := "sent", sentAt := some c.now, lastError := none } = row₀
        rw [← hsent, ← hat, ← hcleared]
    · rfl
  · rw [hw, World.updated_table, find_update hupd]
    split_ifs with heq
    · subst heq
      obtain ⟨hpending, -⟩ := hcur c row attempts nextAt err row₀ hdb hc hphase hrow₀
      rw [hpending] at hsent
      exact absurd hsent (by decide)
    · rfl

/-- The record of updates only grows. -/
theorem updates_extend (h : step m serde jsonb s ev = some s') :
    s.world.updates <+: s'.world.updates := by
  rcases step_table_cases h with ⟨-, hu⟩ | ⟨e, stored, t, -, -, -, hw⟩ |
    ⟨i, db, c, row, t, -, -, -, -, -, hw⟩ |
    ⟨i, db, c, row, attempts, nextAt, err, t, -, -, -, -, -, hw⟩
  · rw [hu]
  · rw [hw]
  · rw [hw]
    exact List.prefix_append _ _
  · rw [hw]
    exact List.prefix_append _ _

theorem RetryInv.bookkept (hs : RetryInv serde s) (hcur : Current s ev)
    (h : step m serde jsonb s ev = some s') : Bookkept s s' := by
  have hs' := hs.next hcur h
  refine ⟨fun id row hrow => ?_, hs'.books.counted, fun id => hs.frozen hcur h, hs'.books.cleared⟩
  obtain ⟨l, hl, -, hledger⟩ := drainers_simulation.simulate s _ ev s' ⟨hs.holds, rfl⟩ h
  have hacc := (Ledger.extends_of_reflTransGen hl).accepted id (event row) (by
    rw [ledger_accepted, hrow, Option.map_some])
  rw [hledger, ledger_accepted] at hacc
  obtain ⟨row', hrow', -⟩ := Option.map_eq_some_iff.1 hacc
  refine ⟨row', hrow', ?_⟩
  rw [hs.books.counted id row hrow, hs'.books.counted id row' hrow']
  exact Int.ofNat_le.2 ((updates_extend h).sublist.count_le _)

/-- A step after which the books are right has not acted on an outdated copy. -/
theorem RetryInv.current (hs : RetryInv serde s) (h : step m serde jsonb s ev = some s')
    (hbook : Bookkept s s') : Current s ev := by
  obtain ⟨-, hcounted, hfrozen, -⟩ := hbook
  cases ev with
  | env e => trivial
  | start f => trivial
  | act i a =>
    cases a with
    | markSent db =>
      intro c row row' hdb hc hphase hfind
      obtain ⟨t, hupd, hw⟩ := markSent_step hc hphase hfind hdb h
      rcases hs.holds.1.status row.id row' hfind with ⟨hpending, -⟩ | ⟨hsent, -⟩
      · exact Or.inl hpending
      · have hsame := hfrozen row.id ((hs.books.closed row.id row' hfind).2 hsent)
        rw [hw, World.updated_table, find_update hupd, if_pos rfl, hfind, Option.map_some] at hsame
        exact Or.inr (congrArg Model.sentAt (Option.some.inj hsame)).symm
    | markRetry db =>
      intro c row attempts nextAt err row' hdb hc hphase hfind
      obtain ⟨t, hupd, hw⟩ := markRetry_step hc hphase hfind hdb h
      have hplan := hs.planned c (List.mem_of_getElem? hc) row attempts nextAt err hphase
      have hfind' : s'.world.table.find row.id =
          some ((retryColumns attempts nextAt err.display).apply row') := by
        rw [hw, World.updated_table, find_update hupd, if_pos rfl, hfind, Option.map_some]
      have hpending : row'.status = "pending" := by
        rcases hs.holds.1.status row.id row' hfind with ⟨hpending, -⟩ | ⟨hsent, -⟩
        · exact hpending
        · -- The error of the retry would show in a row that was sent.
          have hsame := hfrozen row.id ((hs.books.closed row.id row' hfind).2 hsent)
          rw [hfind', hfind] at hsame
          have herror := congrArg Model.lastError (Option.some.inj hsame)
          rw [hs.books.cleared row.id row' hfind hsent] at herror
          cases herror
      -- The record counts one retry more, so the copy had the count that the row has.
      have hcount := hcounted row.id _ hfind'
      rw [hw, World.updated_updates, List.count_append, List.count_singleton_self, Nat.cast_add,
        ← hs.books.counted row.id row' hfind] at hcount
      have hsucc : (row.attempts + 1).toInt = row'.attempts.toInt + 1 := by
        rw [← hplan]
        exact hcount
      exact ⟨hpending, MachineInt.eq_of_toInt_succ hsucc⟩
    | publish reply => trivial
    | finish => trivial
    | stop => trivial

/-- In every run, the books are right after every step exactly when no update acts on an outdated
copy of its row. -/
theorem bookkept_iff (m : MachineInt.OverflowMode) (serde : SerdeJson)
    (jsonb : Json → Option Json) (es : List Event) :
    Runs.EveryStep (step m serde jsonb) initial es (fun s ev _ => Current s ev) ↔
      Runs.EveryStep (step m serde jsonb) initial es (fun s _ s' => Bookkept s s') := by
  have hinit : RetryInv serde initial := retryInv_initial
  refine Runs.everyStep_iff hinit ?_ ?_
  · intro u ev v hu hcur hstep
    exact hu.next hcur hstep
  · intro u ev v hu hstep
    exact ⟨fun hcur => hu.bookkept hcur hstep, hu.current hstep⟩

/-- Two drainers with copies of one row, whose publishes both fail. -/
def lostUpdate : List Event :=
  [.env ⟨1, "task.assigned", Bus.sampleEvent, 0, .ok⟩, .start ⟨10, 0, .ok⟩, .start ⟨10, 0, .ok⟩,
    .act 0 (.publish (.err "connection refused" false)), .act 0 (.markRetry .ok),
    .act 1 (.publish (.err "connection refused" false)), .act 1 (.markRetry .ok)]

/-- Two drainers with copies of one row; the second publish fails after the first has succeeded. -/
def touchedAfterSent : List Event :=
  [.env ⟨1, "task.assigned", Bus.sampleEvent, 0, .ok⟩, .start ⟨10, 0, .ok⟩, .start ⟨10, 0, .ok⟩,
    .act 0 (.publish (.ok "1-0")), .act 0 (.markSent .ok),
    .act 1 (.publish (.err "connection refused" false)), .act 1 (.markRetry .ok)]

/-- The columns of the rows and the number of retries after a run. -/
def columnsAfter (es : List Event) : Option (List (Int32 × ℕ × String × Option String)) :=
  (Runs.run (step .checked Bus.sampleSerde some) initial es).map fun s =>
    s.world.table.rows.map fun row =>
      (row.attempts, s.world.updates.count (.retry row.id), row.status, row.lastError)

theorem columnsAfter_lostUpdate :
    columnsAfter lostUpdate =
      some [(1, 2, "pending", some "internal error: connection refused")] := by
  decide +kernel

theorem columnsAfter_touchedAfterSent :
    columnsAfter touchedAfterSent =
      some [(1, 1, "sent", some "internal error: connection refused")] := by
  decide +kernel

/-- The row that a run ends with, and what `Bookkept` says about it. -/
theorem row_of_columnsAfter {es : List Event} {attempts : Int32} {n : ℕ} {status : String}
    {error : Option String} (hes : es ≠ [])
    (h : columnsAfter es = some [(attempts, n, status, error)])
    (hbook : Runs.EveryStep (step .checked Bus.sampleSerde some) initial es
      (fun s _ s' => Bookkept s s')) :
    attempts.toInt = n ∧ (status = "sent" → error = none) := by
  obtain ⟨s', hs', hrows⟩ := Option.map_eq_some_iff.1 h
  obtain ⟨es', ev, rfl⟩ := (List.eq_nil_or_concat es).resolve_left hes
  rw [List.concat_eq_append] at hs' hbook
  obtain ⟨s, hs, hstep⟩ := Runs.run_concat.1 hs'
  obtain ⟨-, hcounted, -, hcleared⟩ := (Runs.everyStep_concat.1 hbook).2 s s' hs hstep
  obtain ⟨row, hrow, heq⟩ :=
    List.mem_map.1 (hrows ▸ List.mem_singleton_self (attempts, n, status, error))
  have hfind := find_eq_some_iff.2 ⟨hrow, rfl⟩
  simp only [Prod.mk.injEq] at heq
  obtain ⟨rfl, rfl, rfl, rfl⟩ := heq
  exact ⟨hcounted row.id row hfind, hcleared row.id row hfind⟩

/-- Two failures are counted as one, and a row that was sent gets an error. -/
theorem not_bookkept :
    ¬ Runs.EveryStep (step .checked Bus.sampleSerde some) initial lostUpdate
        (fun s _ s' => Bookkept s s') ∧
    ¬ Runs.EveryStep (step .checked Bus.sampleSerde some) initial touchedAfterSent
        (fun s _ s' => Bookkept s s') := by
  constructor
  · intro h
    obtain ⟨hcount, -⟩ := row_of_columnsAfter (List.cons_ne_nil _ _) columnsAfter_lostUpdate h
    exact absurd hcount (by decide)
  · intro h
    obtain ⟨-, hcleared⟩ :=
      row_of_columnsAfter (List.cons_ne_nil _ _) columnsAfter_touchedAfterSent h
    cases hcleared rfl

end Outbox

end OaLibs

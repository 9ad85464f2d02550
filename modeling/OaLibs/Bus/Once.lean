import OaLibs.Bus.Delivery

/-!
# When a row is delivered once

Several service instances drain one table. A drainer works from the copies it fetched, and nothing
claims a row, so two of them may publish it.

* `DeliveredOnce`: no row is appended twice, no sent row is published, and the counts of the drains
  add up;
* `Exclusive`: a call publishes a row only while it is pending and not in another call's hands, and
  a call that does not return has sent nothing;
* `appends_step`, `count_step`: two balances that every step keeps;
* `deliveredOnce_iff`: in every run without lost steps, the first holds of all steps exactly when
  the second does.
-/

namespace OaLibs

namespace Outbox

/-- How many entries of a row are in the streams. -/
def World.appends (w : World) (id : Uuid) : ℕ :=
  w.log.countP fun p => p.row == id && p.entry.isSome

/-- How many rows are marked as sent. -/
def Table.sentRows (t : Table) : ℕ := t.rows.countP fun row => row.status == "sent"

/-- What a call has returned, or will add to its count if it goes on; a call that does not return
its count has none. -/
def Call.count (c : Call) : ℕ :=
  match c.phase with
  | .failed _ | .panicked | .stopped => 0
  | _ => c.sent.toNat

/-- The call that takes a step. -/
def CallAt (s : State) (i : ℕ) (P : Call → Prop) : Prop := ∀ c, s.procs[i]? = some c → P c

/-- A call does not stop and its database does not fail between a successful publish and its
`markSent`, and a publish that fails has appended nothing. -/
def Call.Prompt (c : Call) : CallAct → Prop
  | .stop => ∀ row, c.phase ≠ .published row
  | .markSent db => db.fails = false
  | .publish (.err _ appended) => appended = false
  | _ => True

/-- The steps of a run in which nothing is lost. -/
def Prompt (s : State) : Event → Prop
  | .act i a => CallAt s i fun c => c.Prompt a
  | _ => True

/-- Each row has at most one entry, no sent row is published, and the counts of the calls add up to
the sent rows. -/
def DeliveredOnce (s : State) (ev : Event) (s' : State) : Prop :=
  (∀ id, s'.world.appends id ≤ 1) ∧
  (∀ i reply, ev = .act i (.publish reply) → CallAt s i fun c => ∀ row rest row',
    c.rest = row :: rest → s.world.table.find row.id = some row' → row'.status ≠ "sent") ∧
  (s'.procs.map Call.count).sum = s'.world.table.sentRows

variable (m : MachineInt.OverflowMode) (serde : SerdeJson)

/-- A row is published only while it is pending, and successfully only while no call is about to
mark it as sent. -/
def Unclaimed (s : State) (c : Call) (reply : Bus.Reply) : Prop :=
  ∀ row rest, c.rest = row :: rest →
    (∀ row', s.world.table.find row.id = some row' → row'.status = "pending") ∧
    ∀ rid entry, Bus.publish serde row.eventType row.payload reply = (.ok rid, entry) →
      ∀ c' ∈ s.procs, ∀ row', c'.phase = .published row' → row'.id ≠ row.id

/-- A call that stops, fails or panics has sent nothing, and the count of a call does not
overflow. -/
def Accounted (c : Call) : CallAct → Prop
  | .publish reply => ∀ row rest err entry, c.rest = row :: rest →
      Bus.publish serde row.eventType row.payload reply = (.error err, entry) →
      retryPlan m row c.now = none → c.sent.toNat = 0
  | .markSent _ => c.sent.toNat + 1 < 2 ^ 32
  | .markRetry db => db.fails = true → c.sent.toNat = 0
  | .finish => True
  | .stop => c.sent.toNat = 0

/-- The steps that keep deliveries apart. -/
def Exclusive (s : State) : Event → Prop
  | .act i a => CallAt s i fun c => Accounted m serde c a ∧
      match a with
      | .publish reply => Unclaimed serde s c reply
      | _ => True
  | _ => True

/-! ### Two balances -/

/-- Whether a call has published a row and not yet marked it. -/
def Call.holds (id : Uuid) (c : Call) : ℕ :=
  match c.phase with
  | .published row => if row.id = id then 1 else 0
  | _ => 0

/-- Whether a row is marked as sent. -/
def Table.sent (t : Table) (id : Uuid) : ℕ :=
  match t.find id with
  | some row => if row.status = "sent" then 1 else 0
  | none => 0

variable {m serde} {jsonb : Json → Option Json} {w w' : World} {t t' : Table} {c c' : Call}
  {a : CallAct} {row : Model}
  {reply : Bus.Reply}

theorem sent_eq_zero_iff {id : Uuid} :
    t.sent id = 0 ↔ ∀ row, t.find id = some row → row.status ≠ "sent" := by
  unfold Table.sent
  cases t.find id with
  | none => simp
  | some row => by_cases h : row.status = "sent" <;> simp [h]

theorem appends_logged (p : Publication) (id : Uuid) :
    (w.logged p).appends id = w.appends id + if p.row = id ∧ p.entry.isSome then 1 else 0 := by
  unfold World.appends
  rw [World.logged_log, List.countP_append]
  congr 1
  by_cases h : p.row = id ∧ p.entry.isSome
  · simp [h.1, h.2]
  · rw [if_neg h]
    simpa using h

theorem sent_of_find {id : Uuid} (h : t.find id = some row) :
    t.sent id = if row.status = "sent" then 1 else 0 := by
  rw [Table.sent, h]

/-- A pending row becomes a sent row. -/
theorem sent_markSent {id : Uuid} {now : Instant} (hfind : t.find id = some row)
    (hpending : row.status = "pending") (hupd : t.update id (sentColumns now) = some t')
    (j : Uuid) : t'.sent j = t.sent j + if id = j then 1 else 0 := by
  have hj := find_update hupd j
  by_cases heq : j = id
  · subst heq
    rw [if_pos rfl, hfind, Option.map_some] at hj
    rw [sent_of_find hj, sent_of_find hfind, hpending, if_pos rfl]
    rfl
  · rw [if_neg heq] at hj
    rw [Table.sent, hj, if_neg (Ne.symm heq)]
    rfl

/-- A retry leaves the status as it is. -/
theorem sent_markRetry {id : Uuid} {attempts : Int32} {nextAt : Instant} {error : String}
    (hupd : t.update id (retryColumns attempts nextAt error) = some t') (j : Uuid) :
    t'.sent j = t.sent j := by
  have hj := find_update hupd j
  unfold Table.sent
  rw [hj]
  by_cases heq : j = id
  · rw [if_pos heq]
    cases t.find j <;> rfl
  · rw [if_neg heq]

theorem sentRows_markSent {id : Uuid} {now : Instant} (hfind : t.find id = some row)
    (hpending : row.status = "pending") (hupd : t.update id (sentColumns now) = some t') :
    t'.sentRows = t.sentRows + 1 := by
  have hcount := countP_update (fun row => row.status == "sent") hfind hupd
  rw [hpending] at hcount
  exact hcount

theorem sentRows_markRetry {id : Uuid} {attempts : Int32} {nextAt : Instant} {error : String}
    (hfind : t.find id = some row)
    (hupd : t.update id (retryColumns attempts nextAt error) = some t') :
    t'.sentRows = t.sentRows := by
  have hcount := countP_update (fun row => row.status == "sent") hfind hupd
  exact Nat.add_right_cancel hcount

/-- The row a call has published is still there and pending. -/
def Call.Pending (w : World) (c : Call) : Prop :=
  ∀ row, c.phase = .published row →
    ∃ row', w.table.find row.id = some row' ∧ row'.status = "pending"

/-- The row a call is about to put off is there. -/
def Call.Known (w : World) (c : Call) : Prop :=
  ∀ row attempts nextAt err, c.phase = .refused row attempts nextAt err →
    ∃ row', w.table.find row.id = some row'

theorem Call.Prompt.entry_eq_none (hprompt : c.Prompt (.publish reply)) {err : AppError}
    {entry : Option Bus.StreamEntry}
    (hpub : Bus.publish serde row.eventType row.payload reply = (.error err, entry)) :
    entry = none := by
  refine Bus.publish_error hpub fun text appended hreply => ?_
  subst hreply
  exact hprompt

/-- A successful publish is followed by a `markSent`, so every new entry is in the hands of a call
or of a sent row. -/
theorem appends_step (hprompt : c.Prompt a) (hpending : c.Pending w)
    (h : CallStep m serde w c a w' c') (id : Uuid) :
    w'.appends id + c.holds id + w.table.sent id =
      w.appends id + c'.holds id + w'.table.sent id := by
  cases h with
  | @published row rest reply rid entry hphase hrest hpub =>
    obtain ⟨entry', -, rfl⟩ := Bus.publish_ok hpub
    rw [appends_logged]
    simp [Call.holds, hphase]
  | overflowed hphase hrest hpub hplan =>
    rw [appends_logged, hprompt.entry_eq_none hpub]
    simp [Call.holds, hphase]
  | refused hphase hrest hpub hplan =>
    rw [appends_logged, hprompt.entry_eq_none hpub]
    simp [Call.holds, hphase]
  | @markSentFailed row db err hphase hmark =>
    obtain ⟨row', hrow', -⟩ := hpending row hphase
    exact absurd hmark (markSent_ne_error hrow' hprompt)
  | @markSentOverflowed row db t hphase hdb hmark hsum =>
    obtain ⟨row', hrow', hst⟩ := hpending row hphase
    rw [World.updated_table, sent_markSent hrow' hst hmark]
    simp only [Call.holds, hphase]
    show w.appends id + _ + _ = w.appends id + _ + _
    omega
  | @markSent row db t sent hphase hdb hmark hsum =>
    obtain ⟨row', hrow', hst⟩ := hpending row hphase
    rw [World.updated_table, sent_markSent hrow' hst hmark]
    simp only [Call.holds, hphase]
    show w.appends id + _ + _ = w.appends id + _ + _
    omega
  | markRetryFailed hphase hmark => simp [Call.holds, hphase]
  | markRetry hphase hdb hmark =>
    rw [World.updated_table, sent_markRetry hmark]
    simp only [Call.holds, hphase]
    rfl
  | finish hphase hrest => simp [Call.holds, hphase]
  -- A call that stops does not hold a row, or a step would be lost.
  | stop hrun =>
    have hnot : c.holds id = 0 := by
      unfold Call.holds
      split
      · rename_i row hphase
        exact absurd hphase (hprompt row)
      · rfl
    rw [hnot]
    rfl

/-- The count of a call and the sent rows grow together exactly when the step is accounted for. -/
theorem count_step (hprompt : c.Prompt a) (hpending : c.Pending w) (hknown : c.Known w)
    (h : CallStep m serde w c a w' c') :
    c'.count + w.table.sentRows = c.count + w'.table.sentRows ↔ Accounted m serde c a := by
  cases h with
  | published hphase hrest hpub =>
    refine iff_of_true ?_ fun row' rest' err entry' hrest' hpub' => ?_
    · simp [Call.count, hphase]
    · obtain ⟨rfl, -⟩ := List.cons.inj (hrest.symm.trans hrest')
      rw [hpub] at hpub'
      cases hpub'
  | overflowed hphase hrest hpub hplan =>
    simp only [Call.count, hphase, World.logged_table, Nat.add_right_cancel_iff]
    constructor
    · intro hzero row' rest' err entry' _ _ _
      exact hzero.symm
    · intro hacc
      exact (hacc _ _ _ _ hrest hpub hplan).symm
  | refused hphase hrest hpub hplan =>
    refine iff_of_true ?_ fun row' rest' err entry' hrest' _ hplan' => ?_
    · simp [Call.count, hphase]
    · obtain ⟨rfl, -⟩ := List.cons.inj (hrest.symm.trans hrest')
      rw [hplan] at hplan'
      cases hplan'
  | @markSentFailed row db err hphase hmark =>
    obtain ⟨row', hrow', -⟩ := hpending row hphase
    exact absurd hmark (markSent_ne_error hrow' hprompt)
  | @markSentOverflowed row db t hphase hdb hmark hsum =>
    obtain ⟨row', hrow', hst⟩ := hpending row hphase
    have hover := MachineInt.addU32_eq_none hsum
    refine iff_of_false ?_ hover
    rw [World.updated_table, sentRows_markSent hrow' hst hmark]
    simp only [Call.count, hphase]
    omega
  | @markSent row db t sent hphase hdb hmark hsum =>
    obtain ⟨row', hrow', hst⟩ := hpending row hphase
    obtain rfl := MachineInt.outcome_eq_some hsum
    have hexact := MachineInt.toNat_addU32_eq_iff c.sent 1
    have hone : (1 : UInt32).toNat = 1 := rfl
    rw [World.updated_table, sentRows_markSent hrow' hst hmark]
    simp only [Call.count, hphase, Accounted]
    rw [hone] at hexact
    rw [← hexact]
    omega
  | @markRetryFailed row attempts nextAt err err' db hphase hmark =>
    obtain ⟨row', hrow'⟩ := hknown row attempts nextAt err hphase
    -- The row is there, so the database is what failed.
    have hfails : db.fails = true := by
      by_contra hdb
      exact markRetry_ne_error hrow' (Bool.eq_false_iff.2 hdb) hmark
    simp only [Call.count, hphase, Accounted, Nat.add_right_cancel_iff]
    exact ⟨fun hzero _ => hzero.symm, fun hacc => (hacc hfails).symm⟩
  | @markRetry row attempts nextAt err db t hphase hdb hmark =>
    obtain ⟨row', hrow'⟩ := hknown row attempts nextAt err hphase
    refine iff_of_true ?_ fun hfails => ?_
    · rw [World.updated_table, sentRows_markRetry hrow' hmark]
      simp [Call.count, hphase]
    · rw [hdb] at hfails
      cases hfails
  | finish hphase hrest => exact iff_of_true (by simp [Call.count, hphase]) trivial
  | stop hrun =>
    have hcount : c.count = c.sent.toNat := by
      unfold Call.count
      unfold Call.Running at hrun
      split <;> simp_all
    rw [hcount]
    simp only [Call.count, Accounted, Nat.add_right_cancel_iff]
    exact eq_comm

/-! ### One step of the system -/

variable {s s' : State} {ev : Event}

variable (serde) in
/-- Every entry is in the hands of a call or of a sent row, no row has two, and the counts add
up. -/
structure OnceInv (s : State) : Prop where
  holds : Interleaving.Holds WorldOk (CallOk serde) s
  balance : ∀ id, s.world.appends id =
    s.world.table.sent id + (s.procs.map (Call.holds id)).sum
  once : ∀ id, s.world.appends id ≤ 1
  counted : (s.procs.map Call.count).sum = s.world.table.sentRows

theorem onceInv_initial : OnceInv serde initial :=
  ⟨holds_initial, fun _ => rfl, fun _ => Nat.zero_le 1, rfl⟩

theorem holds_published (hphase : c.phase = .published row) : c.holds row.id = 1 := by
  rw [Call.holds, hphase]
  exact if_pos rfl

theorem sum_holds_eq_zero_iff {procs : List Call} {id : Uuid} :
    (procs.map (Call.holds id)).sum = 0 ↔
      ∀ c ∈ procs, ∀ row, c.phase = .published row → row.id ≠ id := by
  rw [List.sum_eq_zero_iff_forall_eq_nat]
  constructor
  · intro h c hc row hphase hid
    have hzero := h (c.holds id) (List.mem_map_of_mem hc)
    rw [← hid, holds_published hphase] at hzero
    cases hzero
  · intro h n hn
    obtain ⟨c, hc, rfl⟩ := List.mem_map.1 hn
    unfold Call.holds
    split
    · rename_i row hphase
      exact if_neg (h c hc row hphase)
    · rfl

theorem pending_of_sent_eq_zero (hw : WorldOk w) {id : Uuid} (h : w.table.sent id = 0)
    (hfind : w.table.find id = some row) : row.status = "pending" := by
  rcases hw.status id row hfind with ⟨hpending, -⟩ | ⟨hsent, -⟩
  · exact hpending
  · exact absurd hsent (sent_eq_zero_iff.1 h row hfind)

/-- A call that has published a row finds it pending. -/
theorem OnceInv.pending (h : OnceInv serde s) (hc : c ∈ s.procs) : c.Pending s.world := by
  intro row hphase
  obtain ⟨row', hrow', -⟩ := (h.holds.2 c hc).copies row (by simp [Call.copies, hphase])
  refine ⟨row', hrow', pending_of_sent_eq_zero h.holds.1 ?_ hrow'⟩
  have hle : c.holds row.id ≤ (s.procs.map (Call.holds row.id)).sum :=
    List.le_sum_of_mem (List.mem_map_of_mem hc)
  rw [holds_published hphase] at hle
  have hbalance := h.balance row.id
  have honce := h.once row.id
  omega

theorem OnceInv.known (h : OnceInv serde s) (hc : c ∈ s.procs) : c.Known s.world := by
  intro row attempts nextAt err hphase
  obtain ⟨row', hrow', -⟩ := (h.holds.2 c hc).copies row (by simp [Call.copies, hphase])
  exact ⟨row', hrow'⟩

/-- A new row is pending. -/
theorem sent_inserted {e : NewEvent} {stored : Json}
    (hins : t.insert (newRow e.id e.eventType stored e.now) = some t') (id : Uuid) :
    t'.sent id = t.sent id := by
  unfold Table.sent
  rw [find_insert hins, newRow_id]
  by_cases hid : id = e.id
  · have hnone : t.find e.id = none := (insert_eq_some hins).2
    rw [hid, hnone, if_pos rfl]
    rfl
  · rw [if_neg hid]

theorem sentRows_inserted {e : NewEvent} {stored : Json}
    (hins : t.insert (newRow e.id e.eventType stored e.now) = some t') :
    t'.sentRows = t.sentRows := by
  rw [Table.sentRows, (insert_eq_some hins).1, List.countP_append]
  rfl

theorem startCall_holds (w : World) (f : Fetch) (id : Uuid) :
    (startCall w f).holds id = 0 ∧ (startCall w f).count = 0 := by
  obtain ⟨-, hsent, hphase, -⟩ := startCall_spec w f
  rcases hphase with hp | ⟨err, hp⟩ | hp
  · rw [Call.holds, Call.count, hp, hsent]
    exact ⟨rfl, rfl⟩
  · rw [Call.holds, Call.count, hp]
    exact ⟨rfl, rfl⟩
  · rw [Call.holds, Call.count, hp]
    exact ⟨rfl, rfl⟩

theorem OnceInv.balance_step (hs : OnceInv serde s) (hprompt : Prompt s ev)
    (h : step m serde jsonb s ev = some s') (id : Uuid) :
    s'.world.appends id = s'.world.table.sent id + (s'.procs.map (Call.holds id)).sum := by
  have hbalance := hs.balance id
  cases ev with
  | env e =>
    obtain rfl := Option.some.inj h
    rcases enqueue_cases m serde jsonb s.world e with he | ⟨stored, t, -, hins, he⟩
    · rw [he]
      exact hbalance
    · rw [he]
      show s.world.appends id = t.sent id + _
      rw [sent_inserted hins]
      exact hbalance
  | start f =>
    obtain rfl := Option.some.inj h
    show s.world.appends id = s.world.table.sent id + ((s.procs ++ [startCall s.world f]).map _).sum
    rw [List.map_append, List.sum_append, List.map_singleton, List.sum_singleton,
      (startCall_holds s.world f id).1]
    exact hbalance
  | act i a =>
    obtain ⟨c, w', c', hc, ha, rfl⟩ := step_act_cases h
    have hstep := appends_step (hprompt c hc) (hs.pending (List.mem_of_getElem? hc)) ha id
    have hsum := Interleaving.sum_map_set (Call.holds id) hc c'
    show w'.appends id = w'.table.sent id + ((s.procs.set i c').map _).sum
    omega

/-- There is one `i`-th call. -/
theorem callAt_iff {i : ℕ} (hc : s.procs[i]? = some c) {P : Call → Prop} :
    CallAt s i P ↔ P c := by
  refine ⟨fun hP => hP c hc, fun hP c' hc' => ?_⟩
  obtain rfl := Option.some.inj (hc.symm.trans hc')
  exact hP

/-- The step of a call is accounted for if it is as the step of the system. -/
theorem accounted_act_iff {i : ℕ} (hc : s.procs[i]? = some c) :
    (∀ j b, (.act i a : Event) = .act j b → CallAt s j fun c => Accounted m serde c b) ↔
      Accounted m serde c a := by
  rw [← callAt_iff hc (P := fun c => Accounted m serde c a)]
  constructor
  · intro hacc
    exact hacc i a rfl
  · intro hacc j b heq
    cases heq
    exact hacc

/-- What the counts of the calls and the sent rows have to do with the steps. -/
theorem OnceInv.counted_iff (hs : OnceInv serde s) (hprompt : Prompt s ev)
    (h : step m serde jsonb s ev = some s') :
    (s'.procs.map Call.count).sum = s'.world.table.sentRows ↔
      ∀ i a, ev = .act i a → CallAt s i fun c => Accounted m serde c a := by
  have hcounted := hs.counted
  cases ev with
  | env e =>
    obtain rfl := Option.some.inj h
    refine iff_of_true ?_ fun i a heq => by cases heq
    rcases enqueue_cases m serde jsonb s.world e with he | ⟨stored, t, -, hins, he⟩
    · rw [he]
      exact hcounted
    · rw [he]
      exact hcounted.trans (sentRows_inserted hins).symm
  | start f =>
    obtain rfl := Option.some.inj h
    refine iff_of_true ?_ fun i a heq => by cases heq
    show ((s.procs ++ [startCall s.world f]).map _).sum = _
    rw [List.map_append, List.sum_append, List.map_singleton, List.sum_singleton,
      (startCall_holds s.world f 0).2]
    exact hcounted
  | act i a =>
    obtain ⟨c, w', c', hc, ha, rfl⟩ := step_act_cases h
    have hmem := List.mem_of_getElem? hc
    have hstep := count_step (hprompt c hc) (hs.pending hmem) (hs.known hmem) ha
    have hsum := Interleaving.sum_map_set Call.count hc c'
    have hleft : ((s.procs.set i c').map Call.count).sum = w'.table.sentRows ↔
        Accounted m serde c a := by
      rw [← hstep]
      omega
    exact hleft.trans (accounted_act_iff hc).symm

theorem CallStep.log_eq (h : CallStep m serde w c a w' c') (ha : ∀ reply, a ≠ .publish reply) :
    w'.log = w.log := by
  cases h with
  | published => exact absurd rfl (ha _)
  | overflowed => exact absurd rfl (ha _)
  | refused => exact absurd rfl (ha _)
  | markSentFailed => rfl
  | markSentOverflowed => rfl
  | markSent => rfl
  | markRetryFailed => rfl
  | markRetry => rfl
  | finish => rfl
  | stop => rfl

theorem appends_eq_of_log_eq (h : w'.log = w.log) (id : Uuid) : w'.appends id = w.appends id := by
  rw [World.appends, h, World.appends]

/-- The row that a call comes to next is not marked as sent. -/
theorem next_notSent_iff {rest : List Model} (hrest : c.rest = row :: rest) :
    (∀ row₁ rest₁ row', c.rest = row₁ :: rest₁ → t.find row₁.id = some row' →
      row'.status ≠ "sent") ↔ t.sent row.id = 0 := by
  rw [sent_eq_zero_iff]
  constructor
  · intro hnot row' hfind
    exact hnot row rest row' hrest hfind
  · intro hzero row₁ rest₁ hfound hrest₁ hfind
    obtain ⟨rfl, -⟩ := List.cons.inj (hrest.symm.trans hrest₁)
    exact hzero hfound hfind

/-- The row that a call publishes is unclaimed if it is neither sent nor, should the publish
succeed, in the hands of a call. -/
theorem OnceInv.unclaimed_iff (hs : OnceInv serde s) {rest : List Model}
    {result : Except AppError String} {entry : Option Bus.StreamEntry}
    (hrest : c.rest = row :: rest)
    (hpub : Bus.publish serde row.eventType row.payload reply = (result, entry)) :
    Unclaimed serde s c reply ↔ s.world.table.sent row.id = 0 ∧
      ((∃ rid, result = .ok rid) → (s.procs.map (Call.holds row.id)).sum = 0) := by
  rw [sum_holds_eq_zero_iff]
  constructor
  · intro hun
    obtain ⟨hpending, hclaims⟩ := hun row rest hrest
    refine ⟨sent_eq_zero_iff.2 fun row' hfind => ?_, ?_⟩
    · rw [hpending row' hfind]
      decide
    · rintro ⟨rid, rfl⟩
      exact hclaims rid entry hpub
  · rintro ⟨hzero, hclaims⟩ row₁ rest₁ hrest₁
    obtain ⟨rfl, -⟩ := List.cons.inj (hrest.symm.trans hrest₁)
    refine ⟨fun row' => pending_of_sent_eq_zero hs.holds.1 hzero, fun rid entry' hpub' => ?_⟩
    rw [hpub] at hpub'
    exact hclaims ⟨rid, (Prod.mk.inj hpub').1⟩

/-- After the publish of a row that is not sent there is still one entry at most for each row,
exactly if no call holds the row or the publish fails. -/
theorem OnceInv.logged_iff (hs : OnceInv serde s) (hprompt : c.Prompt (.publish reply))
    {result : Except AppError String} {entry : Option Bus.StreamEntry}
    (hpub : Bus.publish serde row.eventType row.payload reply = (result, entry))
    (hzero : s.world.table.sent row.id = 0) (now : Instant) :
    (∀ id, (s.world.logged ⟨row.id, now, result, entry⟩).appends id ≤ 1) ↔
      ((∃ rid, result = .ok rid) → (s.procs.map (Call.holds row.id)).sum = 0) := by
  -- Only the entry of the row itself is new, and before there was one exactly if a call holds it.
  have hbalance := hs.balance row.id
  cases result with
  | error err =>
    obtain rfl := hprompt.entry_eq_none hpub
    refine iff_of_true (fun id => ?_) (by rintro ⟨rid, hrid⟩; cases hrid)
    rw [appends_logged, if_neg (by simp)]
    exact hs.once id
  | ok rid =>
    obtain ⟨entry', -, rfl⟩ := Bus.publish_ok hpub
    constructor
    · rintro hone -
      have := hone row.id
      rw [appends_logged, if_pos ⟨rfl, rfl⟩] at this
      omega
    · intro hclaims id
      have hfree := hclaims ⟨rid, rfl⟩
      rw [appends_logged]
      by_cases hid : row.id = id
      · subst hid
        rw [if_pos ⟨rfl, rfl⟩]
        omega
      · rw [if_neg fun hand => hid hand.1]
        exact hs.once id

/-- A publish leaves one entry at most, and is not of a sent row, exactly when the row is
unclaimed. -/
theorem OnceInv.publish_iff (hs : OnceInv serde s) (hprompt : c.Prompt (.publish reply))
    (h : CallStep m serde s.world c (.publish reply) w' c') :
    ((∀ id, w'.appends id ≤ 1) ∧ ∀ row rest row', c.rest = row :: rest →
      s.world.table.find row.id = some row' → row'.status ≠ "sent") ↔
        Unclaimed serde s c reply := by
  -- Whatever becomes of the publish, all that matters of the world is its new log.
  have key : ∀ (row : Model) (rest : List Model) (result : Except AppError String)
      (entry : Option Bus.StreamEntry), c.rest = row :: rest →
      Bus.publish serde row.eventType row.payload reply = (result, entry) →
      w' = s.world.logged ⟨row.id, c.now, result, entry⟩ →
      (((∀ id, w'.appends id ≤ 1) ∧ ∀ row rest row', c.rest = row :: rest →
        s.world.table.find row.id = some row' → row'.status ≠ "sent") ↔
        Unclaimed serde s c reply) := by
    rintro row rest result entry hrest hpub rfl
    rw [next_notSent_iff hrest, hs.unclaimed_iff hrest hpub, and_comm]
    exact and_congr_right fun hzero => hs.logged_iff hprompt hpub hzero c.now
  cases h with
  | published hphase hrest hpub => exact key _ _ _ _ hrest hpub rfl
  | overflowed hphase hrest hpub hplan => exact key _ _ _ _ hrest hpub rfl
  | refused hphase hrest hpub hplan => exact key _ _ _ _ hrest hpub rfl

/-- One step delivers once exactly when it is exclusive. -/
theorem OnceInv.exclusive_iff (hs : OnceInv serde s) (hprompt : Prompt s ev)
    (h : step m serde jsonb s ev = some s') : Exclusive m serde s ev ↔ DeliveredOnce s ev s' := by
  have hcounted := hs.counted_iff hprompt h
  unfold DeliveredOnce
  rw [hcounted]
  cases ev with
  | env e =>
    obtain rfl := Option.some.inj h
    refine iff_of_true trivial ⟨fun id => ?_, ?_, ?_⟩
    · have hlog : ((drainers m serde jsonb).env s.world e).log = s.world.log := by
        rcases enqueue_cases m serde jsonb s.world e with he | ⟨stored, t, -, -, he⟩
        · rw [he]
        · rw [he]
      exact (appends_eq_of_log_eq hlog id).le.trans (hs.once id)
    · intro i reply heq
      cases heq
    · intro i a heq
      cases heq
  | start f =>
    obtain rfl := Option.some.inj h
    refine iff_of_true trivial ⟨hs.once, ?_, ?_⟩
    · intro i reply heq
      cases heq
    · intro i a heq
      cases heq
  | act i a =>
    obtain ⟨c, w', c', hc, ha, rfl⟩ := step_act_cases h
    rw [accounted_act_iff hc]
    show CallAt s i _ ↔ _
    rw [callAt_iff hc]
    cases a with
    | publish reply =>
      have hpub := hs.publish_iff (hprompt c hc) ha
      constructor
      · rintro ⟨hacc, hun⟩
        obtain ⟨hone, hp2⟩ := hpub.2 hun
        refine ⟨hone, fun j reply' heq => ?_, hacc⟩
        cases heq
        exact (callAt_iff hc).2 hp2
      · rintro ⟨hone, hp2, hacc⟩
        exact ⟨hacc, hpub.1 ⟨hone, (callAt_iff hc).1 (hp2 i reply rfl)⟩⟩
    | _ =>
      have hlog := ha.log_eq (by intro reply heq; cases heq)
      constructor
      · rintro ⟨hacc, -⟩
        refine ⟨fun id => ?_, ?_, hacc⟩
        · exact (appends_eq_of_log_eq hlog id).le.trans (hs.once id)
        · intro j reply heq
          cases heq
      · rintro ⟨-, -, hacc⟩
        exact ⟨hacc, trivial⟩

/-- In every run without lost steps, rows are delivered once and the counts add up after every step
exactly when every step is exclusive. -/
theorem deliveredOnce_iff (m : MachineInt.OverflowMode) (serde : SerdeJson)
    (jsonb : Json → Option Json) (es : List Event)
    (hprompt : Runs.EveryStep (step m serde jsonb) initial es fun s ev _ => Prompt s ev) :
    Runs.EveryStep (step m serde jsonb) initial es (fun s ev _ => Exclusive m serde s ev) ↔
      Runs.EveryStep (step m serde jsonb) initial es DeliveredOnce := by
  have hinit : OnceInv serde initial := onceInv_initial
  have hiff : Runs.EveryStep (step m serde jsonb) initial es
      (fun s ev _ => Prompt s ev ∧ Exclusive m serde s ev) ↔
      Runs.EveryStep (step m serde jsonb) initial es
        (fun s ev s' => Prompt s ev ∧ DeliveredOnce s ev s') := by
    refine Runs.everyStep_iff hinit ?_ ?_
    · rintro u ev v hu ⟨hp, hex⟩ hstep
      obtain ⟨hone, -, hcount⟩ := (hu.exclusive_iff hp hstep).1 hex
      exact ⟨drainers_proof.step hu.holds hstep, hu.balance_step hp hstep, hone, hcount⟩
    · intro u ev v hu hstep
      exact and_congr_right fun hp => hu.exclusive_iff hp hstep
  rw [Runs.everyStep_and, Runs.everyStep_and] at hiff
  constructor
  · intro hex
    exact (hiff.1 ⟨hprompt, hex⟩).2
  · intro hdel
    exact (hiff.2 ⟨hprompt, hdel⟩).2

theorem prompt_sampleRun :
    Runs.EveryStep (step .checked Bus.sampleSerde some) initial sampleRun
      fun s ev _ => Prompt s ev := by
  refine Runs.everyStep_of_forall fun ev hev s _ => ?_
  simp only [sampleRun, List.mem_cons, List.not_mem_nil, or_false] at hev
  rcases hev with rfl | rfl | rfl | rfl | rfl | rfl | rfl | rfl | rfl
  · trivial
  · trivial
  · trivial
  · exact fun c _ => rfl
  · exact fun c _ => trivial
  · exact fun c _ => trivial
  · exact fun c _ => rfl
  · exact fun c _ => trivial
  · exact fun c _ => trivial

theorem deliveredOnce_iff_sampleRun :
    Runs.EveryStep (step .checked Bus.sampleSerde some) initial sampleRun
        (fun s ev _ => Exclusive .checked Bus.sampleSerde s ev) ↔
      Runs.EveryStep (step .checked Bus.sampleSerde some) initial sampleRun DeliveredOnce :=
  deliveredOnce_iff .checked Bus.sampleSerde some sampleRun prompt_sampleRun

/-- Two calls fetch one row, and the second publishes it after the first has marked it as sent. -/
def twoDrainers : List Event :=
  [.env ⟨1, "task.assigned", Bus.sampleEvent, 0, .ok⟩, .start ⟨10, 0, .ok⟩, .start ⟨10, 0, .ok⟩,
    .act 0 (.publish (.ok "1-0")), .act 0 (.markSent .ok), .act 0 .finish,
    .act 1 (.publish (.ok "2-0")), .act 1 (.markSent .ok), .act 1 .finish]

/-- No step is lost, and yet the row has two entries and the counts are two for one sent row. -/
theorem not_deliveredOnce :
    Runs.EveryStep (step .checked Bus.sampleSerde some) initial twoDrainers
        (fun s ev _ => Prompt s ev) ∧
      ¬ Runs.EveryStep (step .checked Bus.sampleSerde some) initial twoDrainers DeliveredOnce := by
  constructor
  · refine Runs.everyStep_of_forall fun ev hev s _ => ?_
    simp only [twoDrainers, List.mem_cons, List.not_mem_nil, or_false] at hev
    rcases hev with rfl | rfl | rfl | rfl | rfl | rfl | rfl | rfl | rfl
    · trivial
    · trivial
    · trivial
    · exact fun c _ => trivial
    · exact fun c _ => rfl
    · exact fun c _ => trivial
    · exact fun c _ => trivial
    · exact fun c _ => rfl
    · exact fun c _ => trivial
  · intro h
    have hend : (Runs.run (step .checked Bus.sampleSerde some) initial twoDrainers).map
        (fun s => (s.world.appends 1, (s.procs.map Call.count).sum, s.world.table.sentRows)) =
          some (2, 2, 1) := by
      decide +kernel
    obtain ⟨s', hs', hcounts⟩ := Option.map_eq_some_iff.1 hend
    obtain ⟨s, hs, hstep⟩ := Runs.run_concat.1
      (show Runs.run (step .checked Bus.sampleSerde some) initial
        (twoDrainers.dropLast ++ [.act 1 .finish]) = some s' from hs')
    obtain ⟨hone, -, -⟩ := h twoDrainers.dropLast _ [] s s' rfl hs hstep
    have := hone 1
    rw [(Prod.mk.inj hcounts).1] at this
    exact absurd this (by decide)

end Outbox

end OaLibs

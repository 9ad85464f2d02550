import Mathlib.Logic.Relation
import Mathlib.Tactic

/-!
# Runs, conditions along runs, and interleavings

A transition system is a partial step function of a state and an action. A run is a list of
actions, each enabled in the state the earlier ones lead to.

* `run`, `run_concat`, `run_induction`, `run_invariant`: what every step preserves holds in every
  reachable state;
* `EveryStep`: all steps of a run are in a relation; `everyStep_iff` turns a one-step equivalence
  into an equivalence about runs, where the invariant is only needed while the condition holds;
* `exists_run`: a run goes on until it is done;
* `Simulation`: every step is matched by steps of a relation, so what is reached is related to
  something that relation reaches;
* `replies`: the replies of a machine to a list of calls; `replies_eq_iff` compares two machines
  whose states stay related as long as every call meets a condition on the calls before it, and
  `map_replies` lets it compare what is read off the replies;
* `Interleaving`: processes that take turns on a shared world; `Interleaving.Proof` is the
  rely–guarantee rule: a process keeps its own assertion, and the others do not disturb it;
* `Interleaving.Owned`: the same for processes that own separate parts of the world, where it
  depends on the owner what a step may do.
-/

namespace Runs

variable {State Act : Type}

/-- The state after a list of actions; `none` if one of them is not enabled. -/
def run (step : State → Act → Option State) : State → List Act → Option State
  | s, [] => some s
  | s, a :: as => (step s a).bind fun s' => run step s' as

variable {step : State → Act → Option State} {s t u v : State} {a : Act} {as bs : List Act}

@[simp] theorem run_nil : run step s [] = some s := rfl

theorem run_cons : run step s (a :: as) = (step s a).bind fun s' => run step s' as := rfl

theorem run_append : run step s (as ++ bs) = (run step s as).bind fun t => run step t bs := by
  induction as generalizing s with
  | nil => rfl
  | cons a as ih =>
    rw [List.cons_append, run_cons, run_cons, Option.bind_assoc]
    congr 1
    funext t
    exact ih

theorem run_append_eq_some :
    run step s (as ++ bs) = some t ↔ ∃ u, run step s as = some u ∧ run step u bs = some t := by
  rw [run_append, Option.bind_eq_some_iff]

theorem run_concat :
    run step s (as ++ [a]) = some t ↔ ∃ u, run step s as = some u ∧ step u a = some t := by
  rw [run_append_eq_some]
  simp [run_cons]

/-- Induction on a run, from its last step backwards. -/
theorem run_induction {P : List Act → State → Prop} (nil : P [] s)
    (concat : ∀ as u a v, run step s as = some u → P as u → step u a = some v → P (as ++ [a]) v)
    (h : run step s as = some t) : P as t := by
  induction as using List.reverseRecOn generalizing t with
  | nil =>
    obtain rfl := Option.some.inj h
    exact nil
  | append_singleton as a ih =>
    obtain ⟨u, hu, hstep⟩ := run_concat.1 h
    exact concat as u a t hu (ih hu) hstep

theorem run_invariant {Inv : State → Prop} (init : Inv s)
    (keeps : ∀ u a v, Inv u → step u a = some v → Inv v) (h : run step s as = some t) : Inv t :=
  run_induction (P := fun _ t => Inv t) init (fun _ u a v _ hu hv => keeps u a v hu hv) h

/-! ### Conditions along a run -/

/-- Every step of a run is in a relation between the state before, the action and the state
after. -/
def EveryStep (step : State → Act → Option State) (s : State) (as : List Act)
    (R : State → Act → State → Prop) : Prop :=
  ∀ as₁ a as₂ u v, as = as₁ ++ a :: as₂ → run step s as₁ = some u → step u a = some v → R u a v

theorem everyStep_nil {R : State → Act → State → Prop} : EveryStep step s [] R := by
  intro as₁ a as₂ u v h
  simp at h

/-- An element of a list with a last element is the last one or stands before it. -/
theorem concat_eq_append_cons {α : Type} {l l₁ l₂ : List α} {x y : α}
    (h : l ++ [x] = l₁ ++ y :: l₂) :
    (l₂ = [] ∧ l = l₁ ∧ x = y) ∨ ∃ l', l₂ = l' ++ [x] ∧ l = l₁ ++ y :: l' := by
  rcases List.eq_nil_or_concat l₂ with rfl | ⟨l', z, rfl⟩
  · obtain ⟨hl, hx⟩ := List.append_inj' h rfl
    exact Or.inl ⟨rfl, hl, (List.cons.inj hx).1⟩
  · rw [List.concat_eq_append] at h
    have h' : l ++ [x] = (l₁ ++ y :: l') ++ [z] := by simpa using h
    obtain ⟨hl, hx⟩ := List.append_inj' h' rfl
    rw [List.concat_eq_append, (List.cons.inj hx).1]
    exact Or.inr ⟨l', rfl, hl⟩

theorem everyStep_concat {R : State → Act → State → Prop} :
    EveryStep step s (as ++ [a]) R ↔
      EveryStep step s as R ∧ ∀ u v, run step s as = some u → step u a = some v → R u a v := by
  constructor
  · intro h
    refine ⟨?_, fun u v => h as a [] u v rfl⟩
    rintro as₁ b as₂ u v rfl
    exact h as₁ b (as₂ ++ [a]) u v (by simp)
  · rintro ⟨h, hlast⟩ as₁ b as₂ u v heq
    rcases concat_eq_append_cons heq with ⟨rfl, rfl, rfl⟩ | ⟨cs, rfl, rfl⟩
    · exact hlast u v
    · exact h as₁ b cs u v rfl

/-- An invariant that is kept by the steps that meet a condition. -/
theorem invariant_of_everyStep {C : State → Act → State → Prop} {Inv : State → Prop}
    (init : Inv s) (keeps : ∀ u a v, Inv u → C u a v → step u a = some v → Inv v)
    (hC : EveryStep step s as C) (h : run step s as = some t) : Inv t := by
  induction as using List.reverseRecOn generalizing t with
  | nil =>
    obtain rfl := Option.some.inj h
    exact init
  | append_singleton as a ih =>
    obtain ⟨hC, hlast⟩ := everyStep_concat.1 hC
    obtain ⟨u, hu, hstep⟩ := run_concat.1 h
    exact keeps u a t (ih hC hu) (hlast u t hu hstep) hstep

/-- A one-step equivalence under an invariant that the condition keeps is an equivalence about
runs. -/
theorem everyStep_iff {C P : State → Act → State → Prop} {Inv : State → Prop} (init : Inv s)
    (keeps : ∀ u a v, Inv u → C u a v → step u a = some v → Inv v)
    (exact : ∀ u a v, Inv u → step u a = some v → (C u a v ↔ P u a v)) :
    EveryStep step s as C ↔ EveryStep step s as P := by
  induction as using List.reverseRecOn with
  | nil => exact iff_of_true everyStep_nil everyStep_nil
  | append_singleton as a ih =>
    rw [everyStep_concat, everyStep_concat, ih]
    refine and_congr_right fun hP => forall_congr' fun u => forall_congr' fun v => ?_
    refine forall_congr' fun hu => forall_congr' fun hstep => ?_
    exact exact u a v (invariant_of_everyStep init keeps (ih.2 hP) hu) hstep

theorem everyStep_and {R R' : State → Act → State → Prop} :
    EveryStep step s as (fun u a v => R u a v ∧ R' u a v) ↔
      EveryStep step s as R ∧ EveryStep step s as R' := by
  constructor
  · intro h
    exact ⟨fun as₁ a as₂ u v heq hu hv => (h as₁ a as₂ u v heq hu hv).1,
      fun as₁ a as₂ u v heq hu hv => (h as₁ a as₂ u v heq hu hv).2⟩
  · rintro ⟨h, h'⟩ as₁ a as₂ u v heq hu hv
    exact ⟨h as₁ a as₂ u v heq hu hv, h' as₁ a as₂ u v heq hu hv⟩

/-- A condition on actions alone holds along a run if it holds of all actions. -/
theorem everyStep_of_forall {R : State → Act → State → Prop} (h : ∀ a ∈ as, ∀ u v, R u a v) :
    EveryStep step s as R := by
  rintro as₁ a as₂ u v rfl - -
  exact h a (by simp) u v

/-- A run goes on until it is done, if some step gets closer to that as long as it is not. -/
theorem exists_run {A : Act → Prop} {Inv Done : State → Prop} (μ : State → ℕ)
    (h : ∀ s, Inv s → ¬ Done s → ∃ a t, A a ∧ step s a = some t ∧ Inv t ∧ μ t < μ s)
    (hs : Inv s) : ∃ as t, (∀ a ∈ as, A a) ∧ run step s as = some t ∧ Inv t ∧ Done t := by
  induction hm : μ s using Nat.strong_induction_on generalizing s with
  | _ m ih =>
    by_cases hdone : Done s
    · exact ⟨[], s, by simp, rfl, hs, hdone⟩
    · obtain ⟨a, u, ha, hstep, hu, hlt⟩ := h s hs hdone
      obtain ⟨as, t, hA, hrun, ht⟩ := ih (μ u) (hm ▸ hlt) hu rfl
      refine ⟨a :: as, t, List.forall_mem_cons.2 ⟨ha, hA⟩, ?_, ht⟩
      rw [run_cons, hstep]
      exact hrun

/-! ### Simulations -/

/-- Every step of a system is matched by steps of a relation between related states. -/
structure Simulation {State' : Type} (step : State → Act → Option State)
    (Next : State' → State' → Prop) (R : State → State' → Prop) : Prop where
  simulate : ∀ s t a s', R s t → step s a = some s' →
    ∃ t', Relation.ReflTransGen Next t t' ∧ R s' t'

theorem Simulation.run {State' : Type} {Next : State' → State' → Prop} {R : State → State' → Prop}
    (sim : Simulation step Next R) {s' : State} {t : State'} (hR : R s t)
    (h : Runs.run step s as = some s') : ∃ t', Relation.ReflTransGen Next t t' ∧ R s' t' := by
  refine run_induction (P := fun _ s' => ∃ t', Relation.ReflTransGen Next t t' ∧ R s' t')
    ⟨t, .refl, hR⟩ ?_ h
  rintro - u a v - ⟨t', ht', hu⟩ hstep
  obtain ⟨t'', ht'', hv⟩ := sim.simulate u t' a v hu hstep
  exact ⟨t'', ht'.trans ht'', hv⟩

/-! ### Replies -/

/-- The replies of a machine to a list of calls. -/
def replies {Reply : Type} (call : Act → State → Reply × State) : List Act → State → List Reply
  | [], _ => []
  | a :: as, s => (call a s).1 :: replies call as (call a s).2

/-- What is read off each reply, as the replies of a machine. -/
theorem map_replies {Reply Reply' : Type} (f : Reply → Reply') (call : Act → State → Reply × State)
    (as : List Act) (s : State) :
    (replies call as s).map f = replies (fun a s => (f (call a s).1, (call a s).2)) as s := by
  induction as generalizing s with
  | nil => rfl
  | cons a as ih => rw [replies, List.map_cons, ih, replies]

/-- Two machines whose states are related after `hist` give the same replies exactly if each call
meets its condition, when a call that meets it keeps the states related and a reply agrees exactly
if its call does. -/
theorem replies_eq_iff {State' Reply : Type} {call : Act → State → Reply × State}
    {call' : Act → State' → Reply × State'} {V : Act → Prop} {C : List Act → Act → Prop}
    {R : List Act → State → State' → Prop}
    (exact : ∀ hist s t a, V a → R hist s t → ((call a s).1 = (call' a t).1 ↔ C hist a))
    (keeps : ∀ hist s t a, V a → R hist s t → C hist a →
      R (hist ++ [a]) (call a s).2 (call' a t).2)
    {hist as : List Act} {s : State} {t : State'} (hV : ∀ a ∈ as, V a) (hR : R hist s t) :
    replies call as s = replies call' as t ↔
      ∀ as₁ a as₂, as = as₁ ++ a :: as₂ → C (hist ++ as₁) a := by
  induction as generalizing hist s t with
  | nil => exact iff_of_true rfl (by simp)
  | cons a as ih =>
    -- The states are related again after the first call only if it meets its condition.
    have hVa := hV a List.mem_cons_self
    have hVas : ∀ b ∈ as, V b := fun b hb => hV b (List.mem_cons_of_mem a hb)
    rw [replies, replies, List.cons.injEq, exact hist s t a hVa hR]
    constructor
    · rintro ⟨hC, htail⟩ as₁ b as₂ heq
      cases as₁ with
      | nil =>
        obtain ⟨rfl, -⟩ := List.cons.inj heq
        rwa [List.append_nil]
      | cons a' as₁ =>
        obtain ⟨rfl, heq'⟩ := List.cons.inj heq
        have hlater := (ih hVas (keeps hist s t a hVa hR hC)).1 htail as₁ b as₂ heq'
        rwa [List.append_assoc, List.singleton_append] at hlater
    · intro h
      have hC : C hist a := by simpa using h [] a as rfl
      refine ⟨hC, (ih hVas (keeps hist s t a hVa hR hC)).2 fun as₁ b as₂ heq => ?_⟩
      rw [List.append_assoc, List.singleton_append]
      exact h (a :: as₁) b as₂ (by rw [heq, List.cons_append])

end Runs

/-! ### Interleavings -/

/-- Processes over a shared world. The environment changes the world by itself, a new process
starts from what it reads in the world, and a process takes its steps one at a time. -/
structure Interleaving (World Proc Env Start Act : Type) where
  env : World → Env → World
  start : World → Start → Proc
  act : World → Proc → Act → Option (World × Proc)

namespace Interleaving

variable {World Proc Env Start Act : Type}

/-- The world and all processes ever started. -/
structure State (World Proc : Type) where
  world : World
  procs : List Proc

/-- What happens next: a change from outside, a new process, or a step of the `i`-th process. -/
inductive Event (Env Start Act : Type)
  | env (e : Env)
  | start (x : Start)
  | act (i : ℕ) (a : Act)

/-- One step of an interleaving. -/
def step (sys : Interleaving World Proc Env Start Act) (s : State World Proc) :
    Event Env Start Act → Option (State World Proc)
  | .env e => some { s with world := sys.env s.world e }
  | .start x => some { s with procs := s.procs ++ [sys.start s.world x] }
  | .act i a =>
      match s.procs[i]? with
      | none => none
      | some p =>
          match sys.act s.world p a with
          | none => none
          | some (w, q) => some { world := w, procs := s.procs.set i q }

variable {sys : Interleaving World Proc Env Start Act}

theorem step_act_eq_some {s t : State World Proc} {i : ℕ} {a : Act} :
    sys.step s (.act i a) = some t ↔
      ∃ p w q, s.procs[i]? = some p ∧ sys.act s.world p a = some (w, q) ∧
        t = { world := w, procs := s.procs.set i q } := by
  unfold step
  constructor
  · intro h
    cases hp : s.procs[i]? with
    | none => simp [hp] at h
    | some p =>
      cases ha : sys.act s.world p a with
      | none => simp [hp, ha] at h
      | some wq =>
        obtain ⟨w, q⟩ := wq
        simp only [hp, ha, Option.some.injEq] at h
        exact ⟨p, w, q, rfl, ha, h.symm⟩
  · rintro ⟨p, w, q, hp, ha, rfl⟩
    simp [hp, ha]

/-- A sum over all processes changes by what the process that takes a step changes. -/
theorem sum_map_set (f : Proc → ℕ) {procs : List Proc} {i : ℕ} {p : Proc} (h : procs[i]? = some p)
    (q : Proc) : ((procs.set i q).map f).sum + f p = (procs.map f).sum + f q := by
  induction procs generalizing i with
  | nil => simp at h
  | cons r procs ih =>
    cases i with
    | zero =>
      obtain rfl := Option.some.inj h
      simp only [List.set_cons_zero, List.map_cons, List.sum_cons]
      omega
    | succ i =>
      have := ih (i := i) h
      simp only [List.set_cons_succ, List.map_cons, List.sum_cons]
      omega

/-- The rely–guarantee rule. `G` is about the world alone, `L` is what a process relies on, and
`R` is what every step guarantees to the others. -/
structure Proof (sys : Interleaving World Proc Env Start Act) (G : World → Prop)
    (L : World → Proc → Prop) (R : World → World → Prop) : Prop where
  env_world : ∀ w e, G w → G (sys.env w e) ∧ R w (sys.env w e)
  start_proc : ∀ w x, G w → L w (sys.start w x)
  act_world : ∀ w p a w' q, G w → L w p → sys.act w p a = some (w', q) → G w' ∧ L w' q ∧ R w w'
  stable : ∀ w w' p, L w p → R w w' → L w' p

/-- The assertion about a whole state. -/
def Holds (G : World → Prop) (L : World → Proc → Prop) (s : State World Proc) : Prop :=
  G s.world ∧ ∀ p ∈ s.procs, L s.world p

theorem Proof.step {G : World → Prop} {L : World → Proc → Prop} {R : World → World → Prop}
    (pf : sys.Proof G L R) {s t : State World Proc} {e : Event Env Start Act}
    (hs : Holds G L s) (h : sys.step s e = some t) : Holds G L t := by
  obtain ⟨hG, hL⟩ := hs
  cases e with
  | env e =>
    obtain rfl := Option.some.inj h
    obtain ⟨hG', hR⟩ := pf.env_world s.world e hG
    exact ⟨hG', fun p hp => pf.stable _ _ p (hL p hp) hR⟩
  | start x =>
    obtain rfl := Option.some.inj h
    refine ⟨hG, fun p hp => ?_⟩
    rcases List.mem_append.1 hp with hp | hp
    · exact hL p hp
    · obtain rfl := List.mem_singleton.1 hp
      exact pf.start_proc s.world x hG
  | act i a =>
    obtain ⟨p, w, q, hp, ha, rfl⟩ := step_act_eq_some.1 h
    obtain ⟨hG', hq, hR⟩ := pf.act_world _ p a w q hG (hL p (List.mem_of_getElem? hp)) ha
    refine ⟨hG', fun r hr => ?_⟩
    rcases List.mem_or_eq_of_mem_set hr with hr | rfl
    · exact pf.stable _ _ r (hL r hr) hR
    · exact hq

/-- An assertion with a rely–guarantee proof holds in every state of every run. -/
theorem Proof.invariant {G : World → Prop} {L : World → Proc → Prop} {R : World → World → Prop}
    (pf : sys.Proof G L R) {s t : State World Proc} {es : List (Event Env Start Act)}
    (hs : Holds G L s) (h : Runs.run sys.step s es = some t) : Holds G L t :=
  Runs.run_invariant hs (fun _ _ _ hu hv => pf.step hu hv) h

/-! ### Owners -/

/-- The rely–guarantee rule for processes that own separate parts of the world. `R o` is what the
owner of `o` may do to the world; a process relies on the owners of parts apart from its own. Only
actions in `A` are considered. -/
structure Owned {Own : Type} (sys : Interleaving World Proc Env Start Act) (own : Proc → Own)
    (Apart : Own → Own → Prop) (A : Act → Prop) (G : World → Prop) (L : World → Proc → Prop)
    (R : Own → World → World → Prop) : Prop where
  env_world : ∀ w e, G w → G (sys.env w e) ∧ ∀ p, L w p → L (sys.env w e) p
  act_own : ∀ w p a w' q, sys.act w p a = some (w', q) → own q = own p
  act_world : ∀ w p a w' q, A a → G w → L w p → sys.act w p a = some (w', q) →
    G w' ∧ L w' q ∧ R (own p) w w'
  stable : ∀ o w w' p, Apart o (own p) → R o w w' → L w p → L w' p

section

variable {Own : Type} {own : Proc → Own} {Apart : Own → Own → Prop} {A : Act → Prop}
  {G : World → Prop} {L : World → Proc → Prop} {R : Own → World → World → Prop}

/-- Two processes own parts apart from each other. -/
theorem apart_of_ne [Std.Symm Apart] {procs : List Proc}
    (hapart : (procs.map own).Pairwise Apart) {i j : ℕ} {p q : Proc} (hp : procs[i]? = some p)
    (hq : procs[j]? = some q) (hne : i ≠ j) : Apart (own p) (own q) := by
  obtain ⟨hi, rfl⟩ := List.getElem?_eq_some_iff.1 hp
  obtain ⟨hj, rfl⟩ := List.getElem?_eq_some_iff.1 hq
  have hpairs := List.pairwise_iff_getElem.1 (List.pairwise_map.1 hapart)
  rcases Nat.lt_or_gt_of_ne hne with hlt | hlt
  · exact hpairs i j hi hj hlt
  · exact symm_of Apart (hpairs j i hj hi hlt)

/-- A step of one process. The others are still there and own what they owned. -/
theorem Owned.step [Std.Symm Apart] (pf : sys.Owned own Apart A G L R)
    {s t : State World Proc} {i : ℕ} {a : Act} (hs : Holds G L s)
    (hapart : (s.procs.map own).Pairwise Apart) (ha : A a) (h : sys.step s (.act i a) = some t) :
    Holds G L t ∧ t.procs.map own = s.procs.map own := by
  obtain ⟨hG, hL⟩ := hs
  obtain ⟨p, w, q, hp, hact, rfl⟩ := step_act_eq_some.1 h
  obtain ⟨hG', hq, hR⟩ := pf.act_world _ p a w q ha hG (hL p (List.mem_of_getElem? hp)) hact
  refine ⟨⟨hG', fun r hr => ?_⟩, ?_⟩
  · obtain ⟨j, hj⟩ := List.getElem?_of_mem hr
    rw [List.getElem?_set] at hj
    split_ifs at hj with hij hlen
    · exact Option.some.inj hj ▸ hq
    · exact pf.stable (own p) _ w r (apart_of_ne hapart hp hj hij) hR
        (hL r (List.mem_of_getElem? hj))
  · obtain ⟨hi, rfl⟩ := List.getElem?_eq_some_iff.1 hp
    show (s.procs.set i q).map own = s.procs.map own
    have hi' : i < (s.procs.map own).length := by rwa [List.length_map]
    rw [List.map_set, pf.act_own _ _ a w q hact, ← List.getElem_map own (h := hi'),
      List.set_getElem_self]

/-- Processes that own separate parts of the world keep their assertions in every run. -/
theorem Owned.invariant [IsEmpty Start] [Std.Symm Apart] (pf : sys.Owned own Apart A G L R)
    {s t : State World Proc} {es : List (Event Env Start Act)}
    (hs : Holds G L s) (hapart : (s.procs.map own).Pairwise Apart)
    (hA : ∀ i a, .act i a ∈ es → A a) (h : Runs.run sys.step s es = some t) :
    Holds G L t ∧ t.procs.map own = s.procs.map own := by
  induction es generalizing s with
  | nil =>
    obtain rfl := Option.some.inj h
    exact ⟨hs, rfl⟩
  | cons e es ih =>
    rw [Runs.run_cons] at h
    obtain ⟨u, hstep, hrun⟩ := Option.bind_eq_some_iff.1 h
    have hA' : ∀ i a, .act i a ∈ es → A a := fun i a hmem => hA i a (List.mem_cons_of_mem e hmem)
    cases e with
    | env e =>
      obtain rfl := Option.some.inj hstep
      obtain ⟨hG, hkeeps⟩ := pf.env_world s.world e hs.1
      have hu : Holds G L ⟨sys.env s.world e, s.procs⟩ :=
        ⟨hG, fun p hp => hkeeps p (hs.2 p hp)⟩
      exact ih (s := ⟨sys.env s.world e, s.procs⟩) hu hapart hA' hrun
    | start x => exact isEmptyElim x
    | act i a =>
      obtain ⟨hu, howners⟩ := pf.step hs hapart (hA i a List.mem_cons_self) hstep
      obtain ⟨ht, hsame⟩ := ih hu (howners ▸ hapart) hA' hrun
      exact ⟨ht, hsame.trans howners⟩

end

end Interleaving

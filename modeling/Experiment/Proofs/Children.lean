import Experiment.Proofs.Fate
import Experiment.Sweep.Controller

/-!
# The children of a sweep

Each child leaves the record that its fate makes of its task, and what it puts down is its own. Along
a whole sweep the tasks are handed over one by one, in order, and nothing but an error of
configuration stops it.
-/

namespace Experiment

/-- A child that has its record. -/
structure Child where
  task : Run
  fate : Fate
  record : Run
deriving DecidableEq

/-- The result of a child, if one was kept, keeps or omits the iteration of its task. -/
def Child.KeepsIteration (c : Child) : Prop :=
  ∀ task result, c.fate = .kept task result →
    result.metadata.iteration = 0 ∨ result.metadata.iteration = c.task.metadata.iteration

/-- What a database is told of a child that it accepts. -/
def Child.stored (x : Executor) (c : Child) : List DatabaseCall :=
  if c.fate = .silent then [] else x.storing c.record

namespace Sweep
variable {x : Executor} {uid : String} {task record result : Run} {tasks records : List Run}
  {e : RunError} {i : Nat} {w v w' : World}

/-- The children that tasks become, up to the one that stops the sweep. -/
def children (x : Executor) (uid : String) : List Run → World → List Child
  | [], _ => []
  | task :: rest, w =>
    match (child x uid task).on w with
    | (.ok record, v) => ⟨task, x.fate task w, record⟩ :: children x uid rest v
    | (.error _, _) => []

theorem runChild_of_ok (h : (x.execute task).on w = (.ok result, v)) :
    (runChild x task).on w = (.ok (if result.isEmpty then task else result), v) := by
  rw [runChild, Attempt.on_bind_of_ok (Attempt.on_outcome _ w), h]
  rfl

theorem runChild_of_configuration (h : (x.execute task).on w = (.error e, v))
    (hc : e.isConfiguration = true) : (runChild x task).on w = (.error e, v) := by
  rw [runChild, Attempt.on_bind_of_ok (Attempt.on_outcome _ w), h]
  cases e with
  | configuration cause => rfl
  | parse _ | storage _ | persistence _ | execution _ | report _ _ | overflow _ => cases hc

/-- A task that failed is recorded as such. -/
theorem runChild_of_failure (h : (x.execute task).on w = (.error e, v))
    (hc : e.isConfiguration = false) :
    ∃ calls v', (runChild x task).on w = (.ok (task.failed v.clock e.message), v') ∧
      v'.toJournal = v.toJournal.add
        { events := [(task.failed v.clock e.message).finishEvent], ledger := calls } ∧
      (x.Accepting → storedRuns calls = x.storing (task.failed v.clock e.message)) := by
  obtain ⟨calls, v', hv, hj, hs⟩ := x.on_recordFailure task e v
  refine ⟨calls, v', ?_, hj, fun hx => ?_⟩
  · rw [runChild, Attempt.on_bind_of_ok (Attempt.on_outcome _ w), h]
    have hl : Attempt.on (liftM (x.recordFailure task e) : Attempt RunError Run) v =
        (.ok (task.failed v.clock e.message), v') := by
      rw [Attempt.on_lift, hv]
    cases e with
    | configuration cause => cases hc
    | parse _ | storage _ | persistence _ | execution _ | report _ _ | overflow _ => exact hl
  · obtain rfl | ⟨-, hs⟩ := hs
    · exact x.storedRuns_keeping _ _
    · exact absurd (x.save_of_accepting hx _ v) hs

theorem on_child (x : Executor) (uid : String) (task : Run) (w : World) :
    (child x uid task).on w = match (runChild x task).on w with
      | (.ok record, v) => (.ok record, v.noting
          { events := [.iterationFinished uid task.metadata.iteration record.state?] })
      | (.error e, v) => (.error e, v) := by
  unfold child
  rw [Attempt.on_bind]
  cases (runChild x task).on w with
  | mk r v => cases r <;> rfl

theorem runChild_of_kept {task' : Run} {now : Timestamp}
    (h : (x.execute task).on w = (.ok ((Run.carryIdentity task' result).completed now), v)) :
    (runChild x task).on w = (.ok ((Run.carryIdentity task' result).completed now), v) := by
  have hs := Run.status_completed_ne_none now (Run.carryIdentity task' result)
  rw [runChild_of_ok h, Run.isEmpty_eq_false_of_status hs]
  rfl

/-- Only an error of configuration keeps a child from having a record. -/
theorem runChild_of_fate (x : Executor) (task : Run) (w : World) :
    (∃ now v, (runChild x task).on w = (.ok ((x.fate task w).record now task), v) ∧
      ∀ e, (x.fate task w).failure? = some e → e.isConfiguration = false) ∨
    ∃ e v, (runChild x task).on w = (.error e, v) ∧ (x.fate task w).failure? = some e ∧
      e.isConfiguration = true := by
  obtain ⟨v, ⟨e, hf, he⟩ | ⟨hf, he⟩ | ⟨now, task', result, hf, he⟩⟩ := x.execute_cases task w
  · cases hc : e.isConfiguration with
    | true => exact .inr ⟨e, v, runChild_of_configuration he hc, hf, hc⟩
    | false =>
        obtain ⟨calls, v', hr, -⟩ := runChild_of_failure he hc
        refine .inl ⟨v.clock, v', ?_, fun e' he' => ?_⟩
        · rw [Fate.record_of_failure hf, hr]
        · rw [hf] at he'
          cases he'
          exact hc
  · refine .inl ⟨v.clock, v, ?_, fun e h => ?_⟩
    · rw [hf]
      exact runChild_of_ok he
    · rw [hf] at h
      cases h
  · refine .inl ⟨now, v, ?_, fun e h => ?_⟩
    · rw [hf]
      exact runChild_of_kept he
    · rw [hf] at h
      cases h

theorem child_of_fate (x : Executor) (uid : String) (task : Run) (w : World)
    (h : ∀ e, (x.fate task w).failure? = some e → e.isConfiguration = false) :
    ∃ record w', (child x uid task).on w = (.ok record, w') := by
  rw [on_child]
  obtain ⟨now, v, hr, -⟩ | ⟨e, v, -, hf, hc⟩ := runChild_of_fate x task w
  · rw [hr]
    exact ⟨_, _, rfl⟩
  · exact absurd hc (by simp [h e hf])

/-- A child that has its record was not stopped, and its fate has made the record. -/
theorem child_eq_ok (h : (child x uid task).on w = (.ok record, w')) :
    ∃ now, record = (x.fate task w).record now task := by
  rw [on_child] at h
  obtain ⟨now, v, hr, -⟩ | ⟨e, v, hr, -, -⟩ := runChild_of_fate x task w
  · rw [hr] at h
    simp only [Prod.mk.injEq, Except.ok.injEq] at h
    exact ⟨now, h.1.symm⟩
  · simp [hr] at h

theorem child_eq_error (h : (child x uid task).on w = (.error e, w')) :
    e.isConfiguration = true ∧ (x.execute task).on w = (.error e, w') := by
  obtain ⟨v, ⟨e', hf, he⟩ | ⟨-, he⟩ | ⟨now, task', result, -, he⟩⟩ := x.execute_cases task w
  · cases hc : e'.isConfiguration with
    | true =>
        rw [on_child, runChild_of_configuration he hc] at h
        cases h
        exact ⟨hc, he⟩
    | false =>
        obtain ⟨_, _, hr, -⟩ := runChild_of_failure he hc
        rw [on_child, hr] at h
        cases h
  · rw [on_child, runChild_of_ok he] at h
    cases h
  · rw [on_child, runChild_of_kept he] at h
    cases h

theorem iteration_record {c : Child} {now : Timestamp} (hr : c.record = c.fate.record now c.task)
    (hf : c.fate = x.fate c.task v) (hk : c.KeepsIteration) :
    c.record.metadata.iteration = c.task.metadata.iteration := by
  rw [hr]
  cases hc : c.fate with
  | kept task result =>
      have hm := (Executor.prepares_of_fate_eq_kept (hf.symm.trans hc)).metadata
      rw [Fate.record, Run.metadata_completed, Run.iteration_carryIdentity, hm]
      obtain h0 | h0 := hk task result hc
      · rw [if_pos h0]
      · rw [h0]
        split <;> rfl
  | silent | rejected _ | crashed _ | unreadable _ | refused _ _ _ => rfl

/-- What a child leaves behind once its runtime is done. -/
def Leaves (x : Executor) (record : Run) (f : Fate) (events : List Event)
    (calls : List DatabaseCall) : Prop :=
  if f = .silent then events = [] ∧ calls = []
  else events = [record.finishEvent] ∧ (x.Accepting → storedRuns calls = x.storing record)

theorem journal_runChild {prepared : Run} {u : World} {own : Entries}
    (hp : (x.prepare task).on w = (.ok prepared, u))
    (ho : (x.answered prepared u).toJournal = (Executor.handed prepared u).toJournal.add own)
    (h : (runChild x task).on w = (.ok record, w')) :
    ∃ (events : List Event) (calls : List DatabaseCall),
      w'.toJournal = w.toJournal.add
        ({ events := [prepared.startEvent], handed := [prepared] } ++
          (own ++ { events, ledger := calls })) ∧
      Leaves x record (x.fate task w) events calls := by
  have hperform : (x.execute task).on w = (x.perform prepared).on u := Attempt.on_bind_of_ok hp
  obtain ⟨events, calls, hj, hx⟩ := x.journal_perform ho
  rw [Executor.journal_of_prepare hp] at hj
  rw [← hperform] at hj hx
  obtain ⟨v, ⟨e, hf, he⟩ | ⟨hf, he⟩ | ⟨now, task', result, hf, he⟩⟩ := x.execute_cases task w
  · rw [he] at hj hx
    have hs : x.fate task w ≠ .silent := by
      intro hs
      rw [hs] at hf
      cases hf
    obtain ⟨rfl, hn⟩ := hx.of_error
    cases hc : e.isConfiguration with
    | true =>
        rw [runChild_of_configuration he hc] at h
        cases h
    | false =>
        obtain ⟨calls', v', hv, hj', hs'⟩ := runChild_of_failure he hc
        rw [hv] at h
        cases h
        refine ⟨[(task.failed v.clock e.message).finishEvent], calls ++ calls', ?_, ?_⟩
        · rw [hj', hj, Journal.add_add, Entries.append_assoc, Entries.append_assoc]
          rfl
        · rw [Leaves, if_neg hs]
          refine ⟨rfl, fun hx' => ?_⟩
          rw [storedRuns_append, hn, List.nil_append, hs' hx']
  · rw [he] at hj hx
    obtain ⟨rfl, rfl⟩ := hx.of_empty
    rw [runChild_of_ok he] at h
    cases h
    refine ⟨[], [], hj, ?_⟩
    rw [Leaves, if_pos hf]
    exact ⟨rfl, rfl⟩
  · rw [he] at hj hx
    have hs := Run.status_completed_ne_none now (Run.carryIdentity task' result)
    obtain ⟨rfl, hc⟩ := hx.of_status hs
    rw [runChild_of_kept he] at h
    cases h
    refine ⟨_, calls, hj, ?_⟩
    rw [Leaves, hf, if_neg Fate.noConfusion]
    exact ⟨rfl, fun _ => hc⟩

theorem journal_runChild_of_rejected {u : World} (hp : (x.prepare task).on w = (.error e, u))
    (h : (runChild x task).on w = (.ok record, w')) :
    ∃ calls, w'.toJournal = w.toJournal.add { events := [record.finishEvent], ledger := calls } ∧
      (x.Accepting → storedRuns calls = x.storing record) := by
  have he : (x.execute task).on w = (.error e, u) := Attempt.on_bind_of_error hp
  obtain ⟨-, rfl⟩ := Executor.prepare_eq_error hp
  cases hc : e.isConfiguration with
  | true =>
      rw [runChild_of_configuration he hc] at h
      cases h
  | false =>
      obtain ⟨calls, v, hv, hj, hs⟩ := runChild_of_failure he hc
      rw [hv] at h
      cases h
      exact ⟨calls, hj, hs⟩

/-- What a child puts down: it stores its own record, unless it was silent, and hands over its own
task, if that needs no preparing. -/
theorem journal_child (hr : x.runtime.StoresNone)
    (h : (child x uid task).on w = (.ok record, w')) :
    ∃ entries, w'.toJournal = w.toJournal.add entries ∧
      (x.Accepting → storedRuns entries.ledger =
        Child.stored x ⟨task, x.fate task w, record⟩) ∧
      (x.runtime.Confined → (x.prepare task).on w = (.ok task, w) → entries.handed = [task]) := by
  obtain ⟨_, v, hc, hv⟩ := Attempt.on_bind_eq_ok.1 h
  cases hv
  dsimp only [World.toJournal_noting]
  cases hp : (x.prepare task).on w with
  | mk r u =>
      cases r with
      | error e =>
          obtain ⟨calls, hj, hs⟩ := journal_runChild_of_rejected hp hc
          refine ⟨_, by rw [hj, Journal.add_add], fun hx => ?_, by simp⟩
          have hf : x.fate task w = .rejected e := by
            rw [Executor.fate, hp]
          simp [Child.stored, hf, hs hx]
      | ok prepared =>
          -- what the runtime puts down stores no run, and hands nothing over if it is confined
          obtain ⟨own, ho, hn⟩ := hr prepared (Executor.handed prepared u)
          obtain ⟨events, calls, hj, hl⟩ := journal_runChild hp ho hc
          refine ⟨_, by rw [hj, Journal.add_add], fun hx => ?_, fun hconfined he => ?_⟩
          · simp only [Entries.ledger_append, List.nil_append, List.append_nil, storedRuns_append, hn,
              Child.stored]
            unfold Leaves at hl
            split at hl
            · rw [if_pos ‹_›, hl.2, storedRuns_nil]
            · rw [if_neg ‹_›, hl.2 hx]
          · simp only [Prod.mk.injEq, Except.ok.injEq] at he
            simp [he.1, hconfined.handed_eq_nil ho]

theorem runChildren_cons_eq_ok (h : (runChildren x uid (task :: tasks)).on w = (.ok records, w')) :
    ∃ record v rest, (child x uid task).on w = (.ok record, v) ∧
      (runChildren x uid tasks).on v = (.ok rest, w') ∧ records = record :: rest := by
  obtain ⟨record, v, hc, hr⟩ := Attempt.on_bind_eq_ok.1 h
  obtain ⟨rest, u, hr, hu⟩ := Attempt.on_bind_eq_ok.1 hr
  cases hu
  exact ⟨record, v, rest, hc, hr, rfl⟩

theorem runChildren_eq_ok (h : (runChildren x uid tasks).on w = (.ok records, w')) :
    (children x uid tasks w).map Child.record = records ∧
      (children x uid tasks w).map Child.task = tasks := by
  induction tasks generalizing w records with
  | nil =>
      cases h
      exact ⟨rfl, rfl⟩
  | cons task tasks ih =>
      obtain ⟨record, v, rest, hc, hr, rfl⟩ := runChildren_cons_eq_ok h
      obtain ⟨ihr, iht⟩ := ih hr
      simp [children, hc, ihr, iht]

theorem length_children (h : (runChildren x uid tasks).on w = (.ok records, w')) :
    (children x uid tasks w).length = tasks.length := by
  have htask := congrArg List.length (runChildren_eq_ok h).2
  rwa [List.length_map] at htask

theorem length_records (h : (runChildren x uid tasks).on w = (.ok records, w')) :
    records.length = tasks.length := by
  rw [← (runChildren_eq_ok h).1, List.length_map, length_children h]

theorem world_runChildren_cons (hc : (child x uid task).on w = (.ok record, v)) (tasks : List Run) :
    ((runChildren x uid (task :: tasks)).on w).2 = ((runChildren x uid tasks).on v).2 := by
  rw [runChildren, Attempt.on_bind_of_ok hc, Attempt.on_bind]
  rcases (runChildren x uid tasks).on v with ⟨rest, v'⟩
  cases rest <;> rfl

/-- Each task has its turn in the world that those before it have left. -/
theorem child_of_getElem? (h : (runChildren x uid tasks).on w = (.ok records, w'))
    (hi : tasks[i]? = some task) : ∃ c, (children x uid tasks w)[i]? = some c ∧ c.task = task ∧
      c.fate = x.fate task ((runChildren x uid (tasks.take i)).on w).2 ∧
      (child x uid task).on ((runChildren x uid (tasks.take i)).on w).2 =
        (.ok c.record, ((runChildren x uid (tasks.take (i + 1))).on w).2) := by
  induction tasks generalizing w records i with
  | nil => simp at hi
  | cons first rest ih =>
      obtain ⟨record, v, others, hc, hrest, rfl⟩ := runChildren_cons_eq_ok h
      have hchildren : children x uid (first :: rest) w =
          ⟨first, x.fate first w, record⟩ :: children x uid rest v := by
        rw [children, hc]
      rw [hchildren]
      cases i with
      | zero =>
          obtain rfl : first = task := by simpa using hi
          have hstart : ((runChildren x uid ((first :: rest).take 0)).on w).2 = w := rfl
          rw [hstart, List.take_succ_cons, world_runChildren_cons hc]
          exact ⟨⟨first, x.fate first w, record⟩, rfl, rfl, by dsimp only, hc⟩
      | succ i =>
          rw [List.getElem?_cons_succ, List.take_succ_cons, List.take_succ_cons,
            world_runChildren_cons hc, world_runChildren_cons hc]
          exact ih hrest hi

theorem child_of_mem_children {c : Child} (h : c ∈ children x uid tasks w) :
    ∃ v v', (child x uid c.task).on v = (.ok c.record, v') ∧ c.fate = x.fate c.task v := by
  induction tasks generalizing w with
  | nil => cases h
  | cons task tasks ih =>
      unfold children at h
      cases hc : (child x uid task).on w with
      | mk r v =>
          rw [hc] at h
          cases r with
          | error e => cases h
          | ok record =>
              obtain rfl | h := List.mem_cons.1 h
              · exact ⟨w, v, by dsimp only; exact hc, by dsimp only⟩
              · exact ih h

theorem of_mem_children {c : Child} (h : c ∈ children x uid tasks w) :
    (∃ now, c.record = c.fate.record now c.task) ∧ ∃ v, c.fate = x.fate c.task v := by
  obtain ⟨v, v', hc, hf⟩ := child_of_mem_children h
  obtain ⟨now, hr⟩ := child_eq_ok hc
  rw [← hf] at hr
  exact ⟨⟨now, hr⟩, v, hf⟩

theorem iteration_of_mem_children {c : Child} (h : c ∈ children x uid tasks w)
    (hk : c.KeepsIteration) : c.record.metadata.iteration = c.task.metadata.iteration := by
  obtain ⟨⟨now, hr⟩, v, hf⟩ := of_mem_children h
  exact iteration_record hr hf hk

/-- Each child stores its own record, in order, and tasks that need no preparing are handed over one
by one. -/
theorem journal_runChildren (hr : x.runtime.StoresNone)
    (h : (runChildren x uid tasks).on w = (.ok records, w')) :
    ∃ entries, w'.toJournal = w.toJournal.add entries ∧
      (x.Accepting → storedRuns entries.ledger =
        (children x uid tasks w).flatMap (Child.stored x)) ∧
      (x.runtime.Confined → (∀ task ∈ tasks, ∀ w, (x.prepare task).on w = (.ok task, w)) →
        entries.handed = tasks) := by
  induction tasks generalizing w records with
  | nil =>
      cases h
      exact ⟨{}, (Journal.add_nothing _).symm, fun _ => rfl, fun _ _ => rfl⟩
  | cons task tasks ih =>
      obtain ⟨record, v, rest, hc, ht, rfl⟩ := runChildren_cons_eq_ok h
      obtain ⟨first, hj, hs, hh⟩ := journal_child hr hc
      obtain ⟨others, hj', hs', hh'⟩ := ih ht
      refine ⟨first ++ others, by rw [hj', hj, Journal.add_add], fun hx => ?_, fun hn hp => ?_⟩
      · rw [Entries.ledger_append, storedRuns_append, hs hx, hs' hx]
        simp [children, hc]
      · rw [Entries.handed_append, hh hn (hp task List.mem_cons_self w),
          hh' hn fun t ht => hp t (List.mem_cons_of_mem _ ht)]
        rfl

/-- Unless a fate is one of configuration, every task becomes a child. -/
theorem runChildren_of_fates (x : Executor) (uid : String) (tasks : List Run)
    (h : ∀ task ∈ tasks, ∀ w e, (x.fate task w).failure? = some e → e.isConfiguration = false)
    (w : World) : ∃ records w', (runChildren x uid tasks).on w = (.ok records, w') := by
  induction tasks generalizing w with
  | nil => exact ⟨[], w, rfl⟩
  | cons task tasks ih =>
      obtain ⟨record, v, hc⟩ := child_of_fate x uid task w (h task List.mem_cons_self w)
      obtain ⟨records, w', hr⟩ := ih (fun t ht => h t (List.mem_cons_of_mem _ ht)) v
      refine ⟨record :: records, w', ?_⟩
      rw [runChildren, Attempt.on_bind_of_ok hc, Attempt.on_bind_of_ok hr]
      rfl

/-- The task has its turn in this world, those before it having become children. -/
inductive Turn (x : Executor) (uid : String) : List Run → World → Run → World → Prop where
  | here (task : Run) (tasks : List Run) (w : World) : Turn x uid (task :: tasks) w task w
  | later {task t record : Run} {tasks : List Run} {w v u : World}
      (h : (child x uid task).on w = (.ok record, v)) (ht : Turn x uid tasks v t u) :
      Turn x uid (task :: tasks) w t u

theorem Turn.mem {t : Run} {u : World} (h : Turn x uid tasks w t u) : t ∈ tasks := by
  induction h with
  | here task tasks w => exact List.mem_cons_self
  | later hc ht ih => exact List.mem_cons_of_mem _ ih

theorem Turn.journal (hr : x.runtime.StoresNone) {t : Run} {u : World}
    (h : Turn x uid tasks w t u) : ∃ entries, u.toJournal = w.toJournal.add entries := by
  induction h with
  | here task tasks w => exact ⟨{}, (Journal.add_nothing _).symm⟩
  | later hc ht ih =>
      obtain ⟨first, hj, -⟩ := journal_child hr hc
      obtain ⟨others, hj'⟩ := ih
      exact ⟨first ++ others, by rw [hj', hj, Journal.add_add]⟩

/-- Children end with the one that is not even recorded. -/
theorem runChildren_eq_error (h : (runChildren x uid tasks).on w = (.error e, w')) :
    e.isConfiguration = true ∧
      ∃ t u, Turn x uid tasks w t u ∧ (x.execute t).on u = (.error e, w') := by
  induction tasks generalizing w with
  | nil => cases h
  | cons task tasks ih =>
      obtain h | ⟨record, v, hc, h⟩ := Attempt.on_bind_eq_error.1 h
      · obtain ⟨he, hx⟩ := child_eq_error h
        exact ⟨he, task, w, .here task tasks w, hx⟩
      · obtain h | ⟨_, _, -, h⟩ := Attempt.on_bind_eq_error.1 h
        · obtain ⟨he, t, u, ht, hx⟩ := ih h
          exact ⟨he, t, u, .later hc ht, hx⟩
        · cases h

end Sweep

end Experiment

import Experiment.Proofs.Course
import Mathlib.Data.List.Forall2

/-!
# What a listener is told of a sweep

A sweep announces its start, then each of its iterations in turn, and last the end of its parent and
its own. An iteration is told from its start over the lines of its runtime to its end, which a child
that stays silent does not have, and closes with the state that its row will show. All of it carries
the uid of the parent.
-/

namespace Experiment

namespace Event

def uid : Event → String
  | .runStarted uid _ _ => uid
  | .logLine uid _ => uid
  | .runFinished uid _ _ => uid
  | .sweepStarted uid _ => uid
  | .iterationFinished uid _ _ => uid
  | .sweepFinished uid _ _ => uid

/-- The start and the end of a sweep, as opposed to what lies between them. -/
def isSweep : Event → Bool
  | .sweepStarted _ _ | .sweepFinished _ _ _ => true
  | _ => false

end Event

def Fate.isRejected : Fate → Bool
  | .rejected _ => true
  | _ => false

/-- The result of a child, if one was kept, keeps or omits the uid and the iteration of its task. -/
structure Child.KeepsKey (c : Child) : Prop where
  iteration : c.KeepsIteration
  uid : ∀ task result, c.fate = .kept task result → result.uid = "" ∨ result.uid = c.task.uid

namespace Sweep
variable {x : Executor} {definition parent task record : Run} {hyperparams : HyperParams}
  {p : Plan} {uid name : String} {tasks records : List Run} {w u v w' : World} {e : RunError}

/-- What is told of one iteration. A task that is refused before it is handed over has no start, and
one whose runtime stays silent has no end. -/
def iterationEvents (uid name : String) (iteration : Nat) (lines : List String) (f : Fate)
    (state : Option RunState) : List Event :=
  (if f.isRejected then [] else .runStarted uid name iteration :: lines.map (.logLine uid)) ++
    (if f = .silent then [] else [.runFinished uid iteration state]) ++
    [.iterationFinished uid iteration state]

theorem of_mem_iterationEvents {iteration : Nat} {lines : List String} {f : Fate}
    {state : Option RunState} {ev : Event}
    (h : ev ∈ iterationEvents uid name iteration lines f state) :
    ev.uid = uid ∧ ev.isSweep = false := by
  obtain h | h := List.mem_append.1 h
  · obtain h | h := List.mem_append.1 h
    · split at h
      · cases h
      · obtain rfl | h := List.mem_cons.1 h
        · exact ⟨rfl, rfl⟩
        · obtain ⟨line, -, rfl⟩ := List.mem_map.1 h
          exact ⟨rfl, rfl⟩
    · split at h
      · cases h
      · obtain rfl := List.mem_singleton.1 h
        exact ⟨rfl, rfl⟩
  · obtain rfl := List.mem_singleton.1 h
    exact ⟨rfl, rfl⟩

/-- A task that has its turn in this world is handed over, and its runtime then tells these lines. -/
def Speaks (x : Executor) (v : World) (task : Run) (lines : List String) : Prop :=
  ∃ prepared u artifacts, (x.prepare task).on v = (.ok prepared, u) ∧
    u.toJournal = v.toJournal ∧ x.Prepares task prepared ∧ x.Utters prepared u lines artifacts

/-- These events are what is told of a child in its turn, which goes from one world to the other. -/
structure Tells (x : Executor) (uid : String) (v v' : World) (c : Child) (events : List Event) :
    Prop where
  fate : c.fate = x.fate c.task v
  journal : ∃ entries, v'.toJournal = v.toJournal.add entries ∧ entries.events = events
  lines : ∃ lines, events = iterationEvents uid c.task.metadata.name c.task.metadata.iteration lines
      c.fate c.record.state? ∧
    (c.fate.isRejected = false → Speaks x v c.task lines)

theorem finishEvent_record {c : Child} {now : Timestamp} (hr : c.record = c.fate.record now c.task)
    (hf : c.fate = x.fate c.task v) (hn : c.task.uid ≠ "") (hk : c.KeepsKey) :
    c.record.finishEvent =
      .runFinished c.task.uid c.task.metadata.iteration c.record.state? := by
  have hu : c.record.uid = c.task.uid := by
    rw [hr]
    cases hc : c.fate with
    | kept task result =>
        have hm := (Executor.prepares_of_fate_eq_kept (hf.symm.trans hc)).metadata_of_uid hn
        have ht : task.uid = c.task.uid := by rw [Run.uid, hm, Run.uid]
        change (Run.carryIdentity task result).uid = c.task.uid
        rw [Run.uid_carryIdentity, ht]
        obtain h0 | h0 := hk.uid task result hc
        · rw [if_pos h0]
        · rw [h0]
          split <;> rfl
    | silent | rejected _ | crashed _ | unreadable _ | refused _ _ _ => rfl
  rw [Run.finishEvent, hu, iteration_record hr hf hk.iteration]

theorem startEvent_of_prepares {prepared : Run} (hp : x.Prepares task prepared)
    (hn : task.uid ≠ "") : prepared.uid = task.uid ∧ prepared.startEvent =
      .runStarted task.uid task.metadata.name task.metadata.iteration := by
  have hu : prepared.uid = task.uid := by rw [Run.uid, hp.metadata_of_uid hn, Run.uid]
  refine ⟨hu, ?_⟩
  rw [Run.startEvent, hu, hp.metadata_of_uid hn]

theorem isRejected_fate {prepared : Run} (hp : (x.prepare task).on w = (.ok prepared, u)) :
    (x.fate task w).isRejected = false := by
  rw [Executor.fate, hp]
  dsimp only [Executor.fateOfTask, Executor.fateOfAnswer]
  split
  · rfl
  · split
    · rfl
    · rfl
    · dsimp only [Executor.fateOfResult]
      split
      · rfl
      · split <;> rfl

/-- Before a child is closed, its lines and its end have been told. -/
theorem told_of_runChild {c : Child} (hc : x.runtime.Confined) (hu : c.task.uid = uid)
    (hn : uid ≠ "") (hf : c.fate = x.fate c.task w) (hk : c.KeepsKey)
    (h : (runChild x c.task).on w = (.ok c.record, v)) {now : Timestamp}
    (hr : c.record = c.fate.record now c.task) :
    ∃ entries lines, v.toJournal = w.toJournal.add entries ∧
      entries.events ++ [.iterationFinished uid c.task.metadata.iteration c.record.state?] =
        iterationEvents uid c.task.metadata.name c.task.metadata.iteration lines c.fate
          c.record.state? ∧
      (c.fate.isRejected = false → Speaks x w c.task lines) := by
  subst hu
  have hfinish := finishEvent_record hr hf hn hk
  cases hp : (x.prepare c.task).on w with
  | mk r u =>
      cases r with
      | error e =>
          obtain ⟨calls, hj, -⟩ := journal_runChild_of_rejected hp h
          have he : c.fate = .rejected e := by
            rw [hf, Executor.fate, hp]
          refine ⟨_, [], hj, ?_, fun hn => ?_⟩
          · simp [iterationEvents, he, Fate.isRejected, ← hfinish]
          · simp [he, Fate.isRejected] at hn
      | ok prepared =>
          obtain ⟨lines, artifacts, hut⟩ := Executor.utters_of_confined hc prepared u
          obtain ⟨events, calls, hj, hl⟩ := journal_runChild hp hut.journal h
          have hprepares := Executor.prepares_of_prepare hp
          obtain ⟨huid, hstart⟩ := startEvent_of_prepares hprepares hn
          have hs : c.fate.isRejected = false := by
            rw [hf, isRejected_fate hp]
          rw [← hf] at hl
          have he : events = if c.fate = .silent then [] else [c.record.finishEvent] := by
            unfold Leaves at hl
            split at hl
            · rw [if_pos ‹_›, hl.1]
            · rw [if_neg ‹_›, hl.1]
          refine ⟨_, lines, hj, ?_, fun _ =>
            ⟨prepared, u, artifacts, hp, Executor.journal_of_prepare hp, hprepares, hut⟩⟩
          simp [iterationEvents, hs, hstart, huid, he, hfinish]

theorem tells_of_child (hc : x.runtime.Confined) (hu : task.uid = uid) (hn : uid ≠ "")
    (h : (child x uid task).on w = (.ok record, w'))
    (hk : Child.KeepsKey ⟨task, x.fate task w, record⟩) :
    ∃ events, Tells x uid w w' ⟨task, x.fate task w, record⟩ events := by
  obtain ⟨now, hr⟩ := child_eq_ok h
  obtain ⟨_, v, hrun, hv⟩ := Attempt.on_bind_eq_ok.1 h
  cases hv
  generalize hf : x.fate task w = f at hk hr
  obtain ⟨entries, lines, hj, he, hs⟩ :=
    told_of_runChild (c := ⟨task, f, record⟩) hc hu hn hf.symm hk hrun hr
  refine ⟨_, hf.symm, ⟨entries ++ { events := [_] }, ?_, rfl⟩, lines, he, hs⟩
  rw [World.toJournal_noting, hj, Journal.add_add]

/-- Of each child is told what is its own, from the world in which it has its turn to the next. -/
theorem tells_of_runChildren (hc : x.runtime.Confined) (hu : ∀ t ∈ tasks, t.uid = uid)
    (hn : uid ≠ "") (h : (runChildren x uid tasks).on w = (.ok records, w'))
    (hk : ∀ c ∈ children x uid tasks w, c.KeepsKey) :
    ∃ (entries : Entries) (told : List (List Event)),
      w'.toJournal = w.toJournal.add entries ∧ entries.events = told.flatten ∧
      told.length = tasks.length ∧ ∀ i < tasks.length, ∃ c events,
        (children x uid tasks w)[i]? = some c ∧ told[i]? = some events ∧
        Tells x uid ((runChildren x uid (tasks.take i)).on w).2
          ((runChildren x uid (tasks.take (i + 1))).on w).2 c events := by
  induction tasks generalizing w records with
  | nil =>
      cases h
      exact ⟨{}, [], (Journal.add_nothing _).symm, rfl, rfl, fun i hi => by cases hi⟩
  | cons task tasks ih =>
      obtain ⟨record, v, rest, hrun, hrest, rfl⟩ := runChildren_cons_eq_ok h
      have hcons : children x uid (task :: tasks) w =
          ⟨task, x.fate task w, record⟩ :: children x uid tasks v := by
        rw [children, hrun]
      rw [hcons] at hk ⊢
      obtain ⟨events, ht⟩ :=
        tells_of_child hc (hu task List.mem_cons_self) hn hrun (hk _ List.mem_cons_self)
      obtain ⟨first, hj, rfl⟩ := ht.journal
      obtain ⟨others, told, hj', he, hlen, hts⟩ := ih (fun t ht => hu t (List.mem_cons_of_mem _ ht))
        hrest fun c hc => hk c (List.mem_cons_of_mem _ hc)
      refine ⟨first ++ others, first.events :: told, by rw [hj', hj, Journal.add_add], ?_,
        congrArg Nat.succ hlen, fun i hi => ?_⟩
      · rw [Entries.events_append, List.flatten_cons, he]
      · cases i with
        | zero =>
            have hstart : ((runChildren x uid ((task :: tasks).take 0)).on w).2 = w := rfl
            rw [hstart, List.take_succ_cons, world_runChildren_cons hrun]
            exact ⟨_, _, rfl, rfl, ht⟩
        | succ i =>
            rw [List.getElem?_cons_succ, List.getElem?_cons_succ, List.take_succ_cons,
              List.take_succ_cons, world_runChildren_cons hrun, world_runChildren_cons hrun]
            exact hts i (Nat.lt_of_succ_lt_succ hi)

theorem isRejected_of_mem_children (hb : x.runtime.Builtin)
    (hp : (plan x definition hyperparams).on w = (.ok p, u))
    (h : (runChildren x p.parent.uid p.tasks).on v = (.ok records, w')) {c : Child}
    (hc : c ∈ children x p.parent.uid p.tasks v) : c.fate.isRejected = false := by
  have ht : c.task ∈ p.tasks := by
    rw [← (runChildren_eq_ok h).2]
    exact List.mem_map_of_mem hc
  obtain ⟨u', v', hchild, hf⟩ := child_of_mem_children hc
  by_cases hk : Text.trim definition.spec.runtime.kind ≠ "" ∨ x.KindFits
  · rw [hf]
    exact isRejected_fate (prepare_of_mem_tasks hb hp hk ht u')
  · obtain ⟨hblank, hunfit⟩ := not_or.1 hk
    have he := execute_of_mem_tasks_unfit hp (not_not.1 hblank) hunfit ht u'
    rw [on_child, runChild_of_configuration he rfl] at hchild
    cases hchild

theorem getElem_tasks {cs : List Child} (h : cs.map Child.task = p.tasks)
    (hN : p.grid.size < iterationBound) {i : Nat} (hi : i < p.grid.size) :
    ∃ c, cs[i]? = some c ∧ c.task = p.taskAt i := by
  have ht : p.tasks[i]? = some (p.taskAt i) := by
    rw [Plan.tasks_eq hN, List.getElem?_map, List.getElem?_range hi]
    rfl
  rw [← h, List.getElem?_map] at ht
  exact Option.map_eq_some_iff.1 ht

/-- As long as somebody listens, the events of a turn are told, and the lines of its task with them. -/
theorem Tells.events {c : Child} {events : List Event} (h : Tells x uid v v' c events)
    (hl : v.listening = true) : v'.events = v.events ++ events ∧ v'.listening = true := by
  obtain ⟨entries, hj, rfl⟩ := h.journal
  rw [hj, Journal.events_add hl]
  exact ⟨rfl, hl⟩

theorem listening_turn (hl : (opened p u).listening = true) {n size : Nat} (hn : n ≤ size)
    (h : ∀ i < size, ∃ c events, Tells x uid (turn x p u i) (turn x p u (i + 1)) c events) :
    (turn x p u n).listening = true := by
  induction n with
  | zero => exact hl
  | succ n ih =>
      obtain ⟨c, events, ht⟩ := h n hn
      exact (ht.events (ih (Nat.le_of_succ_le hn))).2

theorem events_conclude {start : Timestamp}
    (h : (conclude x p start records).on v = (.ok parent, w')) :
    ∃ calls, w'.toJournal = v.toJournal.add
      { events := [parent.finishEvent, .sweepFinished parent.uid parent.state?
          (parent.status.bind RunStatus.bestIteration)]
        ledger := calls } := by
  obtain ⟨u, hf, rfl⟩ := conclude_eq_ok h
  obtain ⟨-, hj⟩ := Executor.finalize_eq_ok (parse_closing p start records) hf
  rw [World.toJournal_noting, hj, Journal.add_add, Entries.append_mk, List.append_nil,
    List.append_nil]
  exact ⟨_, rfl⟩

theorem Speaks.told {lines : List String} (h : Speaks x v task lines) (hl : v.listening = true)
    (hn : task.uid ≠ "") : ∃ prepared u artifacts, (x.prepare task).on v = (.ok prepared, u) ∧
      x.Prepares task prepared ∧ x.Utters prepared u lines artifacts ∧
      (x.answered prepared u).events =
        (Executor.handed prepared u).events ++ lines.map (.logLine task.uid) := by
  obtain ⟨prepared, u, artifacts, hp, hj, hprepares, hut⟩ := h
  have hlistening : (Executor.handed prepared u).listening = true := by
    rw [Executor.handed, World.toJournal_noting, hj]
    exact hl
  refine ⟨prepared, u, artifacts, hp, hprepares, hut, ?_⟩
  rw [hut.journal, Journal.events_add hlistening, (startEvent_of_prepares hprepares hn).1]

/-- Of each point of a planned sweep are told the events of its own iteration. -/
theorem tells_of_plan (hc : x.runtime.Confined) (hplan : Planned x definition hyperparams p)
    (hrun : (runChildren x p.parent.uid p.tasks).on (opened p u) = (.ok records, v))
    (hN : p.grid.size < iterationBound)
    (hk : ∀ c ∈ children x p.parent.uid p.tasks (opened p u), c.KeepsKey) :
    ∃ (entries : Entries) (told : List (List Event)),
      v.toJournal = (opened p u).toJournal.add entries ∧ entries.events = told.flatten ∧
      told.length = p.grid.size ∧ ∀ i < p.grid.size, ∃ c lines,
        (children x p.parent.uid p.tasks (opened p u))[i]? = some c ∧ c.task = p.taskAt i ∧
        told[i]? = some (iterationEvents p.parent.uid definition.metadata.name (i + 1) lines c.fate
          c.record.state?) ∧
        Tells x p.parent.uid (turn x p u i) (turn x p u (i + 1)) c
          (iterationEvents p.parent.uid definition.metadata.name (i + 1) lines c.fate
            c.record.state?) ∧
        (c.fate.isRejected = false → Speaks x (turn x p u i) c.task lines) := by
  have hname : p.parent.metadata.name = definition.metadata.name := by rw [hplan.metadata]
  have hsize : p.tasks.length = p.grid.size := by
    rw [Plan.tasks_eq hN, List.length_map, List.length_range]
  obtain ⟨entries, told, hj, he, hlen, htold⟩ := tells_of_runChildren hc
    (fun t ht => (Plan.eq_of_mem_tasks ht).2.2.1) hplan.uid hrun hk
  refine ⟨entries, told, hj, he, hlen.trans hsize, fun i hi => ?_⟩
  obtain ⟨c, events, hci, hti, ht⟩ := htold i (hsize ▸ hi)
  change Tells x p.parent.uid (turn x p u i) (turn x p u (i + 1)) c events at ht
  obtain ⟨c', hci', htask⟩ := getElem_tasks (runChildren_eq_ok hrun).2 hN hi
  obtain rfl : c = c' := Option.some.inj (hci.symm.trans hci')
  obtain ⟨lines, rfl, hspeaks⟩ := ht.lines
  have hn : c.task.metadata.name = definition.metadata.name := by
    rw [htask]
    exact hname
  have hi' : c.task.metadata.iteration = i + 1 := by
    rw [htask]
    rfl
  rw [hn, hi'] at hti ht
  exact ⟨c, lines, hci, htask, hti, ht, hspeaks⟩

/-- A runtime that tells a line of each task. The first task has no result, all others have one. -/
def talkative : Runtime where
  kind := "mock"
  execute := fun task => do
    World.emit (.logLine task.uid "half way")
    return if task.metadata.iteration = 1 then .empty else Runtime.echoResult task

theorem confined_talkative : talkative.Confined :=
  fun _ _ => ⟨["half way"], [], rfl, by simp⟩

end Sweep

end Experiment

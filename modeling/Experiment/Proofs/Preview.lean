import Experiment.Cli.Dispatch
import Experiment.Proofs.DefinitionFiles
import Experiment.Proofs.Expansion
import Experiment.Proofs.RuntimeKinds
import Experiment.Proofs.Sweep
import Experiment.Proofs.TaskListing

/-!
# What is shown before it is executed

Two commands make their tasks on ways of their own: one from the run that the command line resolves
to, one from that run once it has been given its kind, its uid and its hyperparameters. Neither
parameters nor iterations are touched on the second way, so the tasks that are listed are those that
are handed over, and both commands stop at the same error of expansion.
-/

namespace Experiment

namespace RuntimeRegistry

theorem eq_of_forRun_standard {run : Run} {runtime : Runtime}
    (h : standard.forRun run = .ok runtime) :
    runtime = Runtime.process ∨ runtime = Runtime.echo "mock" := by
  have hstandard : standard = ofRuntimes [Runtime.process, Runtime.echo "mock"] := rfl
  rw [hstandard, forRun_eq_ok, find?_ofRuntimes_eq_some] at h
  obtain ⟨before, after, hsplit, -, -⟩ := h
  have hmem : runtime ∈ [Runtime.process, Runtime.echo "mock"] := by
    rw [hsplit]
    exact List.mem_append_right _ List.mem_cons_self
  exact List.mem_pair.1 hmem

section Standard
variable {run : Run} {runtime : Runtime} (h : standard.forRun run = .ok runtime)
include h

theorem builtin_of_standard : runtime.Builtin := by
  obtain rfl | rfl := eq_of_forRun_standard h
  · exact .process
  · exact .mock _ _ (Runtime.confined_scripted _ _)

theorem reliable_of_standard : runtime.Reliable := by
  obtain rfl | rfl := eq_of_forRun_standard h
  · exact Runtime.reliable_process
  · intro task w e _ he
    cases he

theorem trim_kind_of_standard : Text.trim runtime.kind = runtime.kind := by
  obtain rfl | rfl := eq_of_forRun_standard h
  · decide
  · decide

end Standard

end RuntimeRegistry

namespace Sweep
variable {x : Executor} {definition prepared : Run} {hyperparams : HyperParams} {p : Plan}
  {selector : Option Selector} {w u v : World} {e : RunError}

/-- A definition that is not refused before it is planned only with its expansion. -/
theorem on_plan (hyperparams : HyperParams) (hp : (x.prepare definition).on w = (.ok prepared, u))
    (hs : parseSelector prepared.spec.options.selector = .ok selector) :
    (plan x definition hyperparams).on w =
      ((Grid.expand hyperparams prepared.spec.options.strategy).map fun grid =>
        { parent := { prepared with spec := { prepared.spec with hyperparams } }, selector, grid },
        u) := by
  rw [plan, Attempt.on_bind_of_ok hp]
  dsimp only
  rw [hs, Attempt.on_bind, Attempt.on_ofExcept]
  dsimp only
  rw [Attempt.on_bind, Attempt.on_ofExcept]
  cases Grid.expand hyperparams prepared.spec.options.strategy <;> rfl

theorem journal_conclude (x : Executor) (p : Plan) (start : Timestamp) (records : List Run)
    (w : World) : ∃ entries,
      ((conclude x p start records).on w).2.toJournal = w.toJournal.add entries := by
  obtain ⟨events, calls, hj, -⟩ := x.closes_finalize (.structured (closing p start records)) w
  cases hf : (conclude x p start records).on w with
  | mk r w' =>
      cases r with
      | ok parent =>
          obtain ⟨u, hu, rfl⟩ := conclude_eq_ok hf
          rw [hu] at hj
          exact ⟨_, by rw [World.toJournal_noting, hj, Journal.add_add]⟩
      | error e =>
          rw [conclude_eq_error hf] at hj
          exact ⟨_, hj⟩

theorem journal_of_unstopped (hb : x.runtime.Builtin) (hr : x.runtime.Reliable)
    (hn : hyperparams.isEmpty = false) (hp : (plan x definition hyperparams).on w = (.ok p, u))
    (hs : Unstopped x definition p) (hN : p.grid.size < iterationBound) :
    ((run x definition hyperparams).on w).2.handed =
        w.handed ++ (List.range p.grid.size).map p.taskAt ∧
      (w.listening = true → ∃ later, ((run x definition hyperparams).on w).2.events =
        w.events ++ .sweepStarted p.parent.uid p.grid.size :: later) := by
  obtain ⟨records, v, hc, hv, -⟩ := runChildren_of_unstopped hb hr hp hs hN
  obtain ⟨told, htold, -⟩ := journal_runChildren hb.confined.storesNone hc
  obtain ⟨last, hlast⟩ := journal_conclude x p u.clock records v
  have hrun := on_run hn hp
  rw [on_conduct, hc] at hrun
  rw [hrun]
  refine ⟨(handed_conclude x p u.clock records v).trans hv, fun hl =>
    ⟨told.events ++ last.events, ?_⟩⟩
  dsimp only
  rw [hlast, htold, opened, World.toJournal_noting, journal_of_plan hp, Journal.add_add,
    Journal.add_add, Journal.events_add hl]
  simp

end Sweep

namespace Cli
variable {p : Project} {run : Run} {runtime : Runtime} {options : ExecutionOptions} {w : World}

theorem taskLine_congr {a b : Run} (hi : a.metadata.iteration = b.metadata.iteration)
    (hp : a.spec.parameters = b.spec.parameters) : taskLine a = taskLine b := by
  rw [taskLine, taskLine, hi, hp]

/-- A list of tasks shows those of any plan with the same parameters and the same points. -/
theorem taskList_of_plan (run : Run) (plan : Sweep.Plan)
    (hp : plan.parent.spec.parameters = run.spec.parameters)
    (hN : plan.grid.size < iterationBound) :
    taskList { base := run, grid := plan.grid } = toString plan.grid.size ++ " tasks\n"
      ++ String.join (((List.range plan.grid.size).map plan.taskAt).map taskLine) := by
  have hrest : ({ base := run, grid := plan.grid } : TaskCursor).rest =
      (List.range plan.grid.size).map (Sweep.Plan.taskAt ⟨run, none, plan.grid⟩) :=
    Sweep.Plan.tasks_eq (p := ⟨run, none, plan.grid⟩) hN
  have hremaining : ({ base := run, grid := plan.grid } : TaskCursor).remaining = plan.grid.size :=
    Nat.sub_zero _
  have hlines : (List.range plan.grid.size).map
        (taskLine ∘ Sweep.Plan.taskAt ⟨run, none, plan.grid⟩) =
      (List.range plan.grid.size).map (taskLine ∘ plan.taskAt) := by
    refine List.map_congr_left fun i _ => taskLine_congr rfl ?_
    rw [Sweep.Plan.taskAt, Sweep.Plan.taskAt, hp]
  rw [taskList, hremaining, hrest, List.map_map, List.map_map, hlines]

theorem expand_of_error {e : RunError}
    (h : Grid.expand run.spec.hyperparams run.spec.options.strategy = .error e) :
    expand run = .failed (.run e) := by
  rw [expand, h]

theorem expand_of_grid {grid : Grid} (hn : run.spec.hyperparams.isEmpty = false)
    (h : Grid.expand run.spec.hyperparams run.spec.options.strategy = .ok grid) :
    expand run = { output := taskList { base := run, grid } } := by
  rw [expand, h]
  dsimp only
  rw [if_pos (Grid.isSweep_of_expand hn h)]

theorem runtime_executorFor (p : Project) (options : ExecutionOptions) (runtime : Runtime) :
    (executorFor p options runtime).runtime = runtime := by
  rw [executorFor]
  cases options.reportDir <;> cases options.database.bind Database.ofUrl? <;> rfl

/-- An execution fails as its sweep does, and leaves the world that its sweep leaves. -/
theorem on_execute (p : Project) (options : ExecutionOptions)
    (h : RuntimeRegistry.standard.forRun run = .ok runtime) (quiet : Bool) (w : World) :
    ((execute p quiet options run).on w).2 =
        ((Sweep.run (executorFor p options runtime) run run.spec.hyperparams).on w).2 ∧
      ∀ e, ((Sweep.run (executorFor p options runtime) run run.spec.hyperparams).on w).1 = .error e →
        ((execute p quiet options run).on w).1.failure = some (.run e) := by
  rw [execute, h]
  dsimp only
  rw [Action.on_bind, Action.on_get, Action.on_bind, Attempt.on_run, Action.on_bind, Action.on_get]
  cases ((Sweep.run (executorFor p options runtime) run run.spec.hyperparams).on w).1 with
  | error e => exact ⟨rfl, fun _ he => by cases he; rfl⟩
  | ok parent => exact ⟨rfl, fun _ he => by cases he⟩

/-- The hyperparameters of an execution are those of its run, and so is the way to expand them. -/
theorem on_plan_of_prepare {prepared : Run} {selector : Option Selector} {u : World}
    (hprepare : ((executorFor p options runtime).prepare (withKind options run)).on w =
      (.ok prepared, u))
    (hselector : Sweep.parseSelector run.spec.options.selector = .ok selector) :
    prepared.spec.parameters = run.spec.parameters ∧
      (Sweep.plan (executorFor p options runtime) (withKind options run) run.spec.hyperparams).on w =
        ((Grid.expand run.spec.hyperparams run.spec.options.strategy).map fun grid =>
          { parent := { prepared with
              spec := { prepared.spec with hyperparams := run.spec.hyperparams } }
            selector, grid }, u) := by
  have hspec := (Executor.prepares_of_prepare hprepare).spec
  rw [Executor.filled, withKind] at hspec
  have hoptions : prepared.spec.options = run.spec.options := by rw [hspec]
  have hplan := Sweep.on_plan run.spec.hyperparams hprepare (hoptions ▸ hselector)
  rw [hoptions] at hplan
  exact ⟨by rw [hspec], hplan⟩

theorem failure_of_execute {e : RunError} {u : World}
    (h : RuntimeRegistry.standard.forRun run = .ok runtime)
    (hn : run.spec.hyperparams.isEmpty = false)
    (hplan : (Sweep.plan (executorFor p options runtime) run run.spec.hyperparams).on w =
      (.error e, u))
    (hu : u.toJournal = w.toJournal) (quiet : Bool) :
    ((execute p quiet options run).on w).1.failure = some (.run e) ∧
      ((execute p quiet options run).on w).2.toJournal = w.toJournal := by
  obtain ⟨hworld, hfailure⟩ := on_execute p options h quiet w
  rw [Sweep.on_run_of_error hn hplan] at hworld hfailure
  refine ⟨hfailure e rfl, ?_⟩
  rw [hworld]
  exact hu

theorem journal_of_execute {plan : Sweep.Plan} {u : World}
    (h : RuntimeRegistry.standard.forRun run = .ok runtime)
    (hn : run.spec.hyperparams.isEmpty = false)
    (hplan : (Sweep.plan (executorFor p options runtime) run run.spec.hyperparams).on w =
      (.ok plan, u))
    (hN : plan.grid.size < iterationBound) (quiet : Bool) :
    ((execute p quiet options run).on w).2.handed =
        w.handed ++ (List.range plan.grid.size).map plan.taskAt ∧
      (w.listening = true → ∃ later, ((execute p quiet options run).on w).2.events =
        w.events ++ .sweepStarted plan.parent.uid plan.grid.size :: later) := by
  have hbuiltin := RuntimeRegistry.builtin_of_standard h
  have hreliable := RuntimeRegistry.reliable_of_standard h
  have hkind := RuntimeRegistry.trim_kind_of_standard h
  rw [← runtime_executorFor p options runtime] at hbuiltin hreliable hkind
  rw [(on_execute p options h quiet w).1]
  exact Sweep.journal_of_unstopped hbuiltin hreliable hn hplan (.inr (.inr (.inr hkind))) hN

section Dispatch
variable {root : FilePath} {target : Target} (hload : Project.load w.files root = .ok p)
  (hresolve : resolveTarget w.files p target = .ok run)
include hload hresolve

theorem on_dispatch_expand (quiet : Bool) :
    (dispatch { project := root, quiet, command := .expand target }).on w = (expand run, w) := by
  rw [dispatch, Action.on_bind, Action.on_get]
  dsimp only
  rw [hload]
  dsimp only
  rw [perform, Action.on_bind, Action.on_get]
  dsimp only
  rw [hresolve]
  rfl

theorem on_dispatch_run (quiet : Bool) (options : ExecutionOptions) :
    (dispatch { project := root, quiet, command := .run target options }).on w =
      (execute p quiet options (withKind options run)).on w := by
  rw [dispatch, Action.on_bind, Action.on_get]
  dsimp only
  rw [hload]
  dsimp only
  rw [perform, Action.on_bind, Action.on_get]
  dsimp only
  rw [hresolve]

end Dispatch

/-- A directory with one definition, in which nothing is set. -/
def blankJob : FileTree :=
  { entries := [(["job.yaml"], .file "\x7b\x7d".toUTF8)] }

theorem readDefinition_blankJob :
    Project.readDefinition blankJob "job.yaml" = .ok { metadata := { name := "job" } } := by
  have htext : blankJob.readText "job.yaml" = .ok "\x7b\x7d" := rfl
  rw [Project.readDefinition, htext]
  dsimp only
  rw [Yaml.document?_braces]
  rfl

/-- That definition with two parameters, one of them varied as well. -/
def jobTarget : Target :=
  { run := "job.yaml"
    params := [("p", .null), ("lr", .null)]
    hyperparams := [("p", [.bool false, .bool true])] }

/-- Where a run with hyperparameters is not refused before it is planned, listing its tasks fails
exactly where expanding them does when it is executed, and with the same error, of which nothing is
put down. Otherwise it shows the number of tasks that is announced and, line by line, the iterations
and the JSON text of the parameters of those that are handed over; this is what its text is read
as. -/
theorem expand_previews_run (w : World) (root : FilePath) (quiet quiet' : Bool) (target : Target)
    (options : ExecutionOptions) {prepared : Run} {selector : Option Selector} {u : World}
    (hload : Project.load w.files root = .ok p) (hresolve : resolveTarget w.files p target = .ok run)
    (hn : run.spec.hyperparams.isEmpty = false)
    (hruntime : RuntimeRegistry.standard.forRun (withKind options run) = .ok runtime)
    (hprepare : ((executorFor p options runtime).prepare (withKind options run)).on w =
      (.ok prepared, u))
    (hselector : Sweep.parseSelector run.spec.options.selector = .ok selector) :
    let shown := (dispatch { project := root, quiet := quiet', command := .expand target }).on w
    let ran := (dispatch { project := root, quiet, command := .run target options }).on w
    shown.2 = w ∧
    (∀ f, shown.1.failure = some f ↔ ∃ e u', f = .run e ∧
      (Sweep.plan (executorFor p options runtime) (withKind options run) run.spec.hyperparams).on w =
        (.error e, u')) ∧
    (∀ f, shown.1.failure = some f →
      shown.1 = .failed f ∧ ran.1.failure = some f ∧ ran.2.toJournal = w.toJournal) ∧
    ∀ grid, Grid.expand run.spec.hyperparams run.spec.options.strategy = .ok grid →
      grid.size < iterationBound → ∃ tasks : List Run, tasks.length = grid.size ∧
        ran.2.handed = w.handed ++ tasks ∧
        (w.listening = true → ∃ uid later,
          ran.2.events = w.events ++ .sweepStarted uid tasks.length :: later) ∧
        shown.1 = { output := toString tasks.length ++ " tasks\n"
          ++ String.join (tasks.map fun task =>
            "  " ++ padLeft 3 (toString task.metadata.iteration) ++ "  "
              ++ (Json.object task.spec.parameters).compact ++ "\n") } ∧
        readListing shown.1.output = (tasks.length, "tasks") :: tasks.map fun task =>
          (task.metadata.iteration, (Json.object task.spec.parameters).compact) := by
  obtain ⟨hparameters, hplan⟩ := on_plan_of_prepare hprepare hselector
  dsimp only
  rw [on_dispatch_expand hload hresolve, on_dispatch_run hload hresolve]
  cases hg : Grid.expand run.spec.hyperparams run.spec.options.strategy with
  | error e =>
      rw [hg] at hplan
      rw [expand_of_error hg]
      refine ⟨rfl, fun f => ?_, fun f hf => ?_, fun grid h => by cases h⟩
      · rw [hplan]
        constructor
        · rintro ⟨⟩
          exact ⟨e, u, rfl, rfl⟩
        · rintro ⟨_, _, rfl, ⟨⟩⟩
          rfl
      · cases hf
        exact ⟨rfl, failure_of_execute hruntime hn hplan (Executor.journal_of_prepare hprepare) quiet⟩
  | ok grid =>
      rw [hg] at hplan
      rw [expand_of_grid hn hg]
      refine ⟨rfl, fun f => ?_, ?_, fun g h hN => ?_⟩
      · rw [hplan]
        constructor
        · rintro ⟨⟩
        · rintro ⟨_, _, -, ⟨⟩⟩
      · rintro f ⟨⟩
      · cases h
        obtain ⟨hhanded, hevents⟩ := journal_of_execute hruntime hn hplan hN quiet
        have hlines := taskList_of_plan run
          ⟨{ prepared with spec := { prepared.spec with hyperparams := run.spec.hyperparams } },
            selector, grid⟩ hparameters hN
        have hlength {f : Nat → Run} : ((List.range grid.size).map f).length = grid.size := by
          rw [List.length_map, List.length_range]
        refine ⟨_, hlength, hhanded, fun hl => ?_, ?_, ?_⟩
        · obtain ⟨later, hlater⟩ := hevents hl
          rw [hlength]
          exact ⟨_, later, hlater⟩
        · rw [hlength]
          exact congrArg (fun output => ({ output } : Outcome)) hlines
        · rw [hlines, ← readListing_tasks, hlength]

theorem expand_previews_run_blank_job : ∃ tasks : List Run,
    ((dispatch { command := .run jobTarget { dryRun := true } }).on { files := blankJob }).2.handed =
      tasks ∧
    readListing ((dispatch { command := .expand jobTarget }).on { files := blankJob }).1.output =
      (tasks.length, "tasks") :: tasks.map (fun task =>
        (task.metadata.iteration, (Json.object task.spec.parameters).compact)) ∧
    tasks.map (fun task => (task.metadata.iteration, (Json.object task.spec.parameters).compact)) =
      [(1, "\x7b\"p\":false,\"lr\":null\x7d"), (2, "\x7b\"p\":true,\"lr\":null\x7d")] := by
  have hload : Project.load blankJob "." = .ok {} := rfl
  have hrun : findRun blankJob {} "job.yaml" = .ok { metadata := { name := "job" } } := by
    have hfile : blankJob.isFile "job.yaml" = true := rfl
    rw [findRun, if_pos hfile, readDefinition_blankJob]
  have hresolve : resolveTarget blankJob {} jobTarget = .ok
      { metadata := { name := "job" }
        spec := { parameters := [("p", .null), ("lr", .null)]
                  hyperparams := [("p", [.bool false, .bool true])] } } := by
    rw [resolveTarget, jobTarget, hrun]
    rfl
  obtain ⟨-, -, -, hgrid⟩ := expand_previews_run { files := blankJob } "." false false jobTarget
    { dryRun := true } hload hresolve rfl rfl rfl rfl
  obtain ⟨tasks, -, hhanded, -, -, hread⟩ := hgrid _ rfl (by decide)
  have hshown : readListing
      ((dispatch { command := .expand jobTarget }).on { files := blankJob }).1.output =
        [(2, "tasks"), (1, "\x7b\"p\":false,\"lr\":null\x7d"),
          (2, "\x7b\"p\":true,\"lr\":null\x7d")] := by
    rw [on_dispatch_expand (w := { files := blankJob }) hload hresolve]
    rfl
  refine ⟨tasks, hhanded, hread, ?_⟩
  rw [hshown, List.cons.injEq] at hread
  exact hread.2.symm

end Cli

end Experiment

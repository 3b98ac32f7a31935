import Experiment.Sweep.Task
import Mathlib.Data.List.Forall2
import Mathlib.Data.List.Induction

/-!
# Cursors over the tasks of a sweep

The tasks of a sweep are a fixed sequence, and all that a cursor has of its own is how far it has come.
In a session several cursors go through the tasks: one at the start, and the clones that are made of it
and of each other. What a cursor answers is told by its own history, that is the operations on itself
and, for a clone, those on its original before it was made; whatever is done to another cursor does
not show.
-/

namespace Experiment

namespace OrderedMap
variable {α : Type} {m extra : OrderedMap α} {key : String}

theorem insert_of_mem (value : α) (hm : (keys m).Nodup) (h : key ∈ keys m) :
    insert key value m = m.map fun p => if p.1 = key then (p.1, value) else p := by
  induction m with
  | nil => exact absurd h List.not_mem_nil
  | cons p rest ih =>
      obtain ⟨hp, hrest⟩ := List.nodup_cons.1 hm
      rw [insert, List.map_cons]
      by_cases hk : p.1 = key
      · have hsame : rest.map (fun q => if q.1 = key then (q.1, value) else q) = rest := by
          apply (List.map_congr_left _).trans (List.map_id' rest)
          intro q hq
          apply if_neg
          intro he
          exact hp (hk.trans he.symm ▸ List.mem_map_of_mem hq)
        rw [if_pos hk, if_pos hk, hsame, hk]
      · have hkey : key ∈ keys rest := (List.mem_cons.1 h).resolve_left (Ne.symm hk)
        rw [if_neg hk, if_neg hk, ih hrest hkey]

/-- The values of `extra` in the places that `m` has for their names, and the other names behind. -/
def overlaid (m extra : OrderedMap α) : OrderedMap α :=
  m.map (fun p => (p.1, (find? p.1 extra).getD p.2)) ++ extra.filter fun p => p.1 ∉ keys m

theorem extend_eq_overlaid (hm : (keys m).Nodup) (he : (keys extra).Nodup) :
    extend m extra = overlaid m extra := by
  induction extra generalizing m with
  | nil => simp [extend, overlaid]
  | cons p rest ih =>
      obtain ⟨hp, hrest⟩ := List.nodup_cons.1 he
      have hnone : find? p.1 rest = none := find?_eq_none_of_not_mem_keys hp
      have hstep : extend m (p :: rest) = extend (insert p.1 p.2 m) rest := rfl
      rw [hstep, ih (nodup_keys_insert p.1 p.2 hm) hrest]
      unfold overlaid
      by_cases hk : p.1 ∈ keys m
      · rw [keys_insert_of_mem p.2 hk, insert_of_mem p.2 hm hk, List.map_map,
          List.filter_cons_of_neg (by simpa using hk)]
        congr 1
        apply List.map_congr_left
        intro q _
        by_cases hq : q.1 = p.1
        · simp [hq, hnone, find?]
        · simp [hq, Ne.symm hq, find?]
      · rw [keys_insert_of_not_mem p.2 hk, insert_of_not_mem p.2 hk, List.map_append,
          List.filter_cons_of_pos (by simpa using hk), List.append_assoc]
        congr 1
        · apply List.map_congr_left
          intro q hq
          have hne : p.1 ≠ q.1 := fun he => hk (he ▸ List.mem_map_of_mem hq)
          rw [find?, if_neg hne]
        · rw [List.map_singleton, hnone, Option.getD_none, List.singleton_append]
          congr 1
          apply List.filter_congr
          intro q hq
          have hne : q.1 ≠ p.1 := fun he => hp (he ▸ List.mem_map_of_mem hq)
          simp [hne]

end OrderedMap

namespace TaskCursor

/-- What can be done to a cursor. -/
inductive Operation where
  | next
  | task (i : Nat)
  | restart
  | clone
  | length
deriving DecidableEq

/-- An operation on one of the cursors of a session, which are numbered in the order they are made;
a number that none has changes nothing. -/
structure Request where
  cursor : Nat
  operation : Operation

/-- What becomes of the cursor itself. -/
def apply (c : TaskCursor) : Operation → TaskCursor
  | .next => c.next.2
  | .restart => c.restart
  | .task _ | .clone | .length => c

section Session
variable {σ τ : Type} {next : σ → Operation → σ} {next' : τ → Operation → τ}

/-- The cursor that is meant goes on, and a clone of it comes behind all others. -/
def serve (next : σ → Operation → σ) (states : List σ) (r : Request) : List σ :=
  states.modify r.cursor (next · r.operation) ++
    if r.operation = .clone then states[r.cursor]?.toList else []

/-- All cursors of a session that began with one. -/
def session (next : σ → Operation → σ) (start : σ) (requests : List Request) : List σ :=
  requests.foldl (serve next) [start]

theorem map_serve {f : σ → τ} (h : ∀ s o, f (next s o) = next' (f s) o) (states : List σ)
    (r : Request) : (serve next states r).map f = serve next' (states.map f) r := by
  unfold serve
  rw [List.map_append]
  congr 1
  · apply List.ext_getElem?
    intro i
    rw [List.getElem?_map, List.getElem?_modify, List.getElem?_modify, List.getElem?_map]
    by_cases hi : r.cursor = i
    · cases states[i]? <;> simp [hi, h]
    · cases states[i]? <;> simp [hi]
  · by_cases hc : r.operation = .clone
    · rw [if_pos hc, if_pos hc, List.getElem?_map]
      cases states[r.cursor]? <;> rfl
    · rw [if_neg hc, if_neg hc]
      rfl

theorem map_session {f : σ → τ} (h : ∀ s o, f (next s o) = next' (f s) o) (start : σ)
    (requests : List Request) :
    (session next start requests).map f = session next' (f start) requests := by
  unfold session
  induction requests using List.reverseRecOn with
  | nil => rfl
  | append_singleton requests r ih =>
      rw [List.foldl_append, List.foldl_append, List.foldl_cons, List.foldl_cons, List.foldl_nil,
        List.foldl_nil, map_serve h, ih]

theorem getElem?_serve {states : List σ} {i : Nat} (hi : i < states.length) (r : Request) :
    (serve next states r)[i]? =
      states[i]?.map fun s => if r.cursor = i then next s r.operation else s := by
  have hlength : i < (states.modify r.cursor (next · r.operation)).length := by
    rwa [List.length_modify]
  unfold serve
  rw [List.getElem?_append_left hlength, List.getElem?_modify]
  by_cases hc : r.cursor = i <;> simp [hc]

/-- A cursor goes on with the requests for itself, whatever else is asked in between. -/
theorem getElem?_foldl_serve {states : List σ} {i : Nat} (hi : i < states.length)
    (requests : List Request) :
    (requests.foldl (serve next) states)[i]? = states[i]?.map
      (((requests.filter fun r => r.cursor = i).map (·.operation)).foldl next ·) := by
  induction requests generalizing states with
  | nil => simp
  | cons r requests ih =>
      have hlength : i < (serve next states r).length := by
        unfold serve
        rw [List.length_append, List.length_modify]
        omega
      rw [List.foldl_cons, ih hlength, getElem?_serve hi, Option.map_map, List.filter_cons]
      by_cases hc : r.cursor = i <;> simp [hc, Function.comp_def]

theorem getElem?_session_append {start : σ} {requests : List Request} {i : Nat}
    (hi : i < (session next start requests).length) (more : List Request) :
    (session next start (requests ++ more))[i]? = (session next start requests)[i]?.map
      (((more.filter fun r => r.cursor = i).map (·.operation)).foldl next ·) := by
  unfold session
  rw [List.foldl_append]
  exact getElem?_foldl_serve hi more

theorem getElem?_session_clone (start : σ) (requests : List Request) (i : Nat) :
    (session next start (requests ++ [⟨i, .clone⟩]))[(session next start requests).length]? =
      (session next start requests)[i]? := by
  unfold session
  rw [List.foldl_append, List.foldl_cons, List.foldl_nil, serve, if_pos rfl,
    List.getElem?_append_right (Nat.le_of_eq (List.length_modify ..)), List.length_modify,
    Nat.sub_self]
  cases (requests.foldl (serve next) [start])[i]? <;> rfl

end Session

/-- The operations that each cursor has gone through. -/
def histories (requests : List Request) : List (List Operation) :=
  session (fun history o => history ++ [o]) [] requests

theorem foldl_histories (history operations : List Operation) :
    operations.foldl (fun h o => h ++ [o]) history = history ++ operations := by
  induction operations generalizing history with
  | nil => exact (List.append_nil history).symm
  | cons o operations ih =>
      rw [List.foldl_cons, ih, List.append_assoc]
      rfl

/-- How often the next task was asked for since the last restart. -/
def calls (history : List Operation) : Nat :=
  (history.reverse.takeWhile fun o => o ≠ .restart).count .next

theorem calls_concat (history : List Operation) (o : Operation) :
    calls (history ++ [o]) = match o with
      | .next => calls history + 1
      | .restart => 0
      | _ => calls history := by
  unfold calls
  rw [List.reverse_append, List.reverse_singleton, List.singleton_append]
  cases o <;> simp

section Position
variable {base : Run} {grid : Grid}

/-- The cursor stands behind the tasks that it has given, and at the end once all are given. -/
def standing (base : Run) (grid : Grid) (history : List Operation) : TaskCursor :=
  { base, grid, position := min (calls history) grid.size }

theorem isSome_task? (c : TaskCursor) (i : Nat) : (c.task? i).isSome ↔ i < c.grid.size := by
  unfold task? Grid.point?
  by_cases h : i < c.grid.size <;> simp [h]

theorem next_of_lt {c : TaskCursor} (h : c.position < c.grid.size) :
    c.next = (c.task? c.position, { c with position := c.position + 1 }) := by
  obtain ⟨task, htask⟩ := Option.isSome_iff_exists.1 ((isSome_task? c c.position).2 h)
  unfold next
  rw [htask]

theorem next_of_le {c : TaskCursor} (h : c.grid.size ≤ c.position) : c.next = (none, c) := by
  have htask : c.task? c.position = none := by
    apply Option.not_isSome_iff_eq_none.1
    rw [isSome_task?]
    omega
  unfold next
  rw [htask]

theorem apply_standing (history : List Operation) (o : Operation) :
    (standing base grid history).apply o = standing base grid (history ++ [o]) := by
  cases o with
  | next =>
      rw [apply]
      by_cases h : calls history < grid.size
      · have hlt : (standing base grid history).position < grid.size :=
          Nat.lt_of_le_of_lt (Nat.min_le_left _ _) h
        rw [next_of_lt hlt]
        simp only [standing, calls_concat, TaskCursor.mk.injEq, true_and]
        omega
      · have hle : grid.size ≤ (standing base grid history).position :=
          Nat.le_min.2 ⟨Nat.le_of_not_lt h, Nat.le_refl _⟩
        rw [next_of_le hle]
        simp only [standing, calls_concat, TaskCursor.mk.injEq, true_and]
        omega
  | restart => simp [apply, restart, standing, calls_concat]
  | task i => simp [apply, standing, calls_concat]
  | clone => simp [apply, standing, calls_concat]
  | length => simp [apply, standing, calls_concat]

theorem session_eq (base : Run) (grid : Grid) (requests : List Request) :
    session apply { base, grid } requests = (histories requests).map (standing base grid) := by
  have hstart : standing base grid [] = { base, grid } := by simp [standing, calls]
  have hmap : (histories requests).map (standing base grid) =
      session apply (standing base grid []) requests := by
    apply map_session
    intro history o
    exact (apply_standing history o).symm
  rw [hmap, hstart]

/-- The tasks of a sweep, from the first to the last. -/
def tasksOf (base : Run) (grid : Grid) : List Run :=
  (List.range grid.size).map fun i =>
    taskOf base i (OrderedMap.mapValues (fun values => values.getD i .null) grid.columns)

@[simp] theorem length_tasksOf (base : Run) (grid : Grid) :
    (tasksOf base grid).length = grid.size := by
  rw [tasksOf, List.length_map, List.length_range]

theorem task?_eq (c : TaskCursor) (i : Nat) : c.task? i = (tasksOf c.base c.grid)[i]? := by
  unfold task? Grid.point? tasksOf
  by_cases h : i < c.grid.size <;> simp [h]

theorem next_eq (c : TaskCursor) : c.next.1 = (tasksOf c.base c.grid)[c.position]? := by
  rw [← task?_eq]
  unfold next
  cases c.task? c.position <;> rfl

theorem rest_eq (c : TaskCursor) : c.rest = (tasksOf c.base c.grid).drop c.position := by
  have hdrop : (List.range c.grid.size).drop c.position = List.range' c.position c.remaining := by
    simp [List.range_eq_range', remaining]
  unfold rest tasksOf
  rw [← List.map_drop, hdrop, List.filterMap_eq_map_iff_forall_eq_some]
  intro i hi
  have hlt : i < c.grid.size := by
    rw [List.mem_range'_1, remaining] at hi
    omega
  simp [task?, Grid.point?, hlt]

end Position

/-- The answers of a cursor with this history: the next task is that of the number of times it has
been asked for since the last restart, and what is left are the tasks from there. -/
structure Follows (tasks : List Run) (history : List Operation) (c : TaskCursor) : Prop where
  next : c.next.1 = tasks[calls history]?
  rest : c.rest = tasks.drop (calls history)
  remaining : c.remaining = tasks.length - calls history
  task : ∀ i, c.task? i = tasks[i]?

theorem follows_standing (base : Run) (grid : Grid) (history : List Operation) :
    Follows (tasksOf base grid) history (standing base grid history) := by
  have hlength : (tasksOf base grid).length = grid.size := length_tasksOf base grid
  have hposition : (tasksOf base grid)[min (calls history) grid.size]? =
        (tasksOf base grid)[calls history]? ∧
      (tasksOf base grid).drop (min (calls history) grid.size) =
        (tasksOf base grid).drop (calls history) := by
    by_cases h : calls history ≤ grid.size
    · rw [Nat.min_eq_left h]
      exact ⟨rfl, rfl⟩
    · have hend : (tasksOf base grid).length ≤ calls history := by omega
      rw [Nat.min_eq_right (Nat.le_of_not_le h), ← hlength]
      constructor
      · rw [List.getElem?_eq_none (Nat.le_refl _), List.getElem?_eq_none hend]
      · rw [List.drop_length, List.drop_eq_nil_of_le hend]
  constructor
  · rw [next_eq]
    exact hposition.1
  · rw [rest_eq]
    exact hposition.2
  · rw [TaskCursor.remaining, hlength]
    dsimp only [standing]
    omega
  · exact task?_eq _

theorem point?_of_lt {grid : Grid} {i : Nat} (hi : i < grid.size)
    (hg : (OrderedMap.keys grid.columns).Nodup) :
    ∃ point, grid.point? i = some point ∧
      point = OrderedMap.mapValues (fun values => values.getD i .null) grid.columns ∧
      OrderedMap.keys point = OrderedMap.keys grid.columns ∧
      ∀ column ∈ grid.columns, i < column.2.length →
        OrderedMap.find? column.1 point = column.2[i]? := by
  have hkeys : OrderedMap.keys (OrderedMap.mapValues (fun values => values.getD i .null)
      grid.columns) = OrderedMap.keys grid.columns := by
    unfold OrderedMap.keys OrderedMap.mapValues
    rw [List.map_map]
    rfl
  refine ⟨_, if_pos hi, rfl, hkeys, ?_⟩
  intro column hcolumn hlength
  have hmem : (column.1, column.2.getD i .null) ∈
      OrderedMap.mapValues (fun values => values.getD i .null) grid.columns :=
    List.mem_map_of_mem (f := fun p : String × List Json => (p.1, p.2.getD i .null)) hcolumn
  rw [OrderedMap.find?_of_mem (hkeys ▸ hg) hmem, List.getD_eq_getElem?_getD,
    List.getElem?_eq_getElem hlength, Option.getD_some]

/-- Cursors go through a fixed sequence: one task for each point of the grid, which is the base with
the number of the point as its iteration and the point laid over its parameters. Whatever sequence of
operations has come before, each cursor of a session answers as its own history says; it goes on with
the operations on itself alone, and a clone begins with the history of what it was made of. -/
theorem follows_of_session (base : Run) (grid : Grid) (hN : grid.size < iterationBound)
    (hb : (OrderedMap.keys base.spec.parameters).Nodup) (hg : (OrderedMap.keys grid.columns).Nodup) :
    ∃ tasks : List Run, tasks.length = grid.size ∧
      (∀ i < grid.size, ∃ point, grid.point? i = some point ∧
        OrderedMap.keys point = OrderedMap.keys grid.columns ∧
        (∀ column ∈ grid.columns, i < column.2.length →
          OrderedMap.find? column.1 point = column.2[i]?) ∧
        tasks[i]? = some { base with
          metadata := { base.metadata with iteration := i + 1 }
          spec := { base.spec with
            parameters := OrderedMap.overlaid base.spec.parameters point } }) ∧
      ∀ requests : List Request,
        List.Forall₂ (Follows tasks) (histories requests)
          (session apply { base, grid } requests) ∧
        (∀ i < (histories requests).length, ∀ more, (histories (requests ++ more))[i]? =
          (histories requests)[i]?.map
            (· ++ (more.filter fun r => r.cursor = i).map (·.operation))) ∧
        ∀ i, (histories (requests ++ [⟨i, .clone⟩]))[(histories requests).length]? =
          (histories requests)[i]? := by
  refine ⟨tasksOf base grid, length_tasksOf base grid, ?_, ?_⟩
  · intro i hi
    obtain ⟨point, hpoint, hvalues, hkeys, hfind⟩ := point?_of_lt hi hg
    have hmin : min (i + 1) maxIteration = i + 1 := by
      rw [maxIteration]
      omega
    refine ⟨point, hpoint, hkeys, hfind, ?_⟩
    rw [tasksOf, List.getElem?_map, List.getElem?_range hi, Option.map_some, taskOf, hmin, ← hvalues,
      OrderedMap.extend_eq_overlaid hb (hkeys ▸ hg)]
  · intro requests
    refine ⟨?_, ?_, ?_⟩
    · rw [session_eq, List.forall₂_map_right_iff, List.forall₂_same]
      intro history _
      exact follows_standing base grid history
    · intro i hi more
      unfold histories at hi ⊢
      rw [getElem?_session_append hi]
      congr 1
      funext history
      apply foldl_histories
    · intro i
      exact getElem?_session_clone [] requests i

/-- A clone is read past the end while its original starts again. -/
theorem follows_of_session_cloned :
    let base : Run := { spec := { parameters := [("lr", .null), ("seed", .bool true)] } }
    let grid : Grid :=
      ⟨[("depth", [.bool false, .bool false]), ("lr", [.bool false, .bool true])], 2⟩
    Grid.expandGrid {} [("depth", [.bool false]), ("lr", [.bool false, .bool true])] = .ok grid ∧
    ∃ original clone, session apply { base, grid }
        [⟨0, .next⟩, ⟨0, .clone⟩, ⟨1, .next⟩, ⟨0, .restart⟩, ⟨1, .next⟩] = [original, clone] ∧
      (original.next.1.map fun task => (task.metadata.iteration, task.spec.parameters)) =
        some (1, [("lr", .bool false), ("seed", .bool true), ("depth", .bool false)]) ∧
      original.remaining = 2 ∧ clone.next.1 = none ∧ clone.remaining = 0 := by
  intro base grid
  obtain ⟨tasks, hlength, hpoints, hsession⟩ :=
    follows_of_session base grid (by decide) (by decide) (by decide)
  obtain ⟨hfollows, -, -⟩ := hsession
    [⟨0, .next⟩, ⟨0, .clone⟩, ⟨1, .next⟩, ⟨0, .restart⟩, ⟨1, .next⟩]
  have hhistories : histories [⟨0, .next⟩, ⟨0, .clone⟩, ⟨1, .next⟩, ⟨0, .restart⟩, ⟨1, .next⟩] =
      [[.next, .clone, .restart], [.next, .next, .next]] := by decide
  have hsize : tasks.length = 2 := hlength
  obtain ⟨point, hpoint, -, -, hfirst⟩ := hpoints 0 (by decide)
  have hvalues : grid.point? 0 = some [("depth", .bool false), ("lr", .bool false)] := by decide
  obtain rfl : [("depth", Json.bool false), ("lr", .bool false)] = point :=
    Option.some.inj (hvalues.symm.trans hpoint)
  rw [hhistories] at hfollows
  obtain ⟨original, _, horiginal, hrest, hcursors⟩ := List.forall₂_cons_left_iff.1 hfollows
  obtain ⟨clone, _, hclone, hnone, rfl⟩ := List.forall₂_cons_left_iff.1 hrest
  obtain rfl := List.forall₂_nil_left_iff.1 hnone
  refine ⟨rfl, original, clone, hcursors, ?_, ?_, ?_, ?_⟩
  · rw [horiginal.next]
    exact congrArg (Option.map _) hfirst
  · rw [horiginal.remaining, hsize]
    decide
  · rw [hclone.next]
    exact List.getElem?_eq_none (by rw [hsize]; decide)
  · rw [hclone.remaining, hsize]
    decide

end TaskCursor

end Experiment

import Experiment.Proofs.Confinement
import Mathlib.Data.List.TakeWhile

/-!
# The lines of a process and its result

What a process prints is cut into lines at its line feeds. Lines that are text are told unless they
are blank, and the last one told is the result. The reader ends at the first line that is no text,
and nothing says that it did: the lines before it count as all that there were. So a process that
ends well always has a result, and it is that of its last line exactly if every line is text.
-/

namespace Experiment

namespace OutputItem

/-- The lines that bytes consist of, each with whether a line feed ends it. -/
inductive Lines : List UInt8 → List (List UInt8 × Bool) → Prop
  | nil : Lines [] []
  | last {line : List UInt8} (hne : line ≠ []) (h : 10 ∉ line) : Lines line [(line, false)]
  | ended {line bytes : List UInt8} {ls : List (List UInt8 × Bool)} (h : 10 ∉ line)
      (hs : Lines bytes ls) : Lines (line ++ 10 :: bytes) ((line, true) :: ls)

/-- What is told of lines: their texts, but for blank ones. -/
def told (ls : List (List UInt8 × Bool)) : List String :=
  (ls.filterMap lineText?).filter fun text => !Text.isBlankText text

/-- The lines up to the first one that is no text. -/
def readable (ls : List (List UInt8 × Bool)) : List (List UInt8 × Bool) :=
  ls.takeWhile fun l => (lineText? l).isSome

variable {bytes line : List UInt8} {ls : List (List UInt8 × Bool)}

theorem splitLines_of_not_mem (hne : line ≠ []) (h : 10 ∉ line) :
    splitLines line = [(line, false)] := by
  induction line with
  | nil => exact absurd rfl hne
  | cons b line ih =>
      obtain ⟨hb, hline⟩ := not_or.1 fun hm => h (List.mem_cons.2 hm)
      rw [splitLines, if_neg (Ne.symm hb)]
      cases line with
      | nil => rfl
      | cons c line => rw [ih (List.cons_ne_nil c line) hline]

theorem splitLines_append (h : 10 ∉ line) (bytes : List UInt8) :
    splitLines (line ++ 10 :: bytes) = (line, true) :: splitLines bytes := by
  induction line with
  | nil => rw [List.nil_append, splitLines, if_pos rfl]
  | cons b line ih =>
      obtain ⟨hb, hline⟩ := not_or.1 fun hm => h (List.mem_cons.2 hm)
      rw [List.cons_append, splitLines, if_neg (Ne.symm hb), ih hline]

theorem Lines.eq (h : Lines bytes ls) : splitLines bytes = ls := by
  induction h with
  | nil => rfl
  | last hne h => exact splitLines_of_not_mem hne h
  | @ended line bytes ls h _ ih => rw [splitLines_append h, ih]

theorem lines_splitLines (bytes : List UInt8) : Lines bytes (splitLines bytes) := by
  induction hn : bytes.length using Nat.strongRecOn generalizing bytes with
  | ind n ih =>
      by_cases hm : (10 : UInt8) ∈ bytes
      · obtain ⟨line, rest, rfl, hline⟩ := List.eq_append_cons_of_mem hm
        rw [splitLines_append hline]
        refine .ended hline (ih rest.length ?_ rest rfl)
        rw [← hn, List.length_append, List.length_cons]
        omega
      · cases bytes with
        | nil => exact .nil
        | cons b bytes =>
            rw [splitLines_of_not_mem (List.cons_ne_nil b bytes) hm]
            exact .last (List.cons_ne_nil b bytes) hm

theorem linesOf_eq (ls : List (List UInt8 × Bool)) : linesOf ls = told (readable ls) := by
  induction ls with
  | nil => rfl
  | cons l ls ih =>
      rw [linesOf, readable, List.takeWhile_cons]
      cases h : lineText? l with
      | none => rfl
      | some text =>
          simp only [Option.isSome_some, if_true, told, List.filterMap_cons, h, List.filter_cons]
          cases Text.isBlankText text
          · exact congrArg (text :: ·) ih
          · exact ih

theorem readable_eq_self_iff : readable ls = ls ↔ ∀ l ∈ ls, lineText? l ≠ none := by
  simp only [readable, List.takeWhile_eq_self_iff, Option.isSome_iff_ne_none]

theorem map_lineText? (h : ∀ l ∈ ls, lineText? l ≠ none) :
    ls.map lineText? = (ls.filterMap lineText?).map some := by
  induction ls with
  | nil => rfl
  | cons l ls ih =>
      obtain ⟨hl, hls⟩ := List.forall_mem_cons.1 h
      obtain ⟨text, htext⟩ := Option.ne_none_iff_exists'.1 hl
      rw [List.map_cons, List.filterMap_cons, htext, ih hls, List.map_cons]

end OutputItem

namespace Runtime
open OutputItem

/-- The result after the last line told. -/
def resultOf : Option String → RawResult
  | some text => .serialized text
  | none => .empty

/-- What comes of a task has failed, or every line was told that is not blank, and the last of them
is the result. -/
def TakesLastLine (task : Run) (ls : List (List UInt8 × Bool)) (w : World)
    (outcome : Except RuntimeError RawResult × World) : Prop :=
  (∃ e, outcome.1 = .error e) ∨
    ∃ texts : List String, ls.map lineText? = texts.map some ∧
      let shown := texts.filter fun text => !Text.isBlankText text
      outcome = (.ok (resultOf shown.getLast?),
        w.noting { events := shown.map (.logLine task.uid) })

variable {task : Run} {output : ProcessOutput} {ls : List (List UInt8 × Bool)} {v w : World}

theorem followItems_lines (task : Run) (last : Option String) (texts : List String)
    (code : Option Nat) (errors : String) (w : World) :
    (followItems task last (texts.map .line ++ [.exit true code errors])).on w =
      (.ok (resultOf (texts.getLast?.or last)),
        w.noting { events := texts.map (.logLine task.uid) }) := by
  induction texts generalizing last w with
  | nil =>
      have hw : w.noting { events := [] } = w := by
        rw [World.noting, Journal.add_nothing]
      cases last <;> exact congrArg (Prod.mk _) hw.symm
  | cons text rest ih =>
      rw [List.map_cons, List.cons_append, followItems,
        Attempt.on_bind_of_ok (Attempt.on_lift _ w), World.on_emit, ih, World.noting_noting,
        Entries.append_mk, List.getLast?_cons]
      cases rest.getLast? <;> rfl

/-- What a process that ends well has printed is read up to the first line that is no text. -/
theorem on_answer (hs : output.status = .code 0) (w : World) :
    let shown := told (readable (splitLines output.output.data.toList))
    (answer task output).on w =
      (.ok (resultOf shown.getLast?), w.noting { events := shown.map (.logLine task.uid) }) := by
  intro shown
  have hexit : exitOf output = .exit true (some 0) ((String.fromUTF8? output.errors).getD "") := by
    rw [exitOf, hs]
    rfl
  rw [answer, ofOutput, hexit, linesOf_eq, followItems_lines, Option.or_none]

/-- The last line is the result exactly if there is no line that is no text. -/
theorem takesLastLine_iff (hs : output.status = .code 0) :
    TakesLastLine task (splitLines output.output.data.toList) w ((answer task output).on w) ↔
      ∀ l ∈ splitLines output.output.data.toList, lineText? l ≠ none := by
  rw [TakesLastLine, on_answer hs]
  constructor
  · rintro (⟨e, he⟩ | ⟨texts, htexts, -⟩) l hl
    · cases he
    · have hmem := List.mem_map_of_mem (f := lineText?) hl
      rw [htexts] at hmem
      obtain ⟨text, -, h⟩ := List.mem_map.1 hmem
      exact h ▸ Option.some_ne_none text
  · intro h
    refine .inr ⟨_, map_lineText? h, ?_⟩
    rw [readable_eq_self_iff.2 h]
    rfl

/-- Whatever bytes a process prints that ends well, the lines up to the first one that is no text are
told and the last of these is the result. So the last line is the result exactly if all are text. -/
theorem result_of_output (task : Run) (output : ProcessOutput) (ls : List (List UInt8 × Bool))
    (hs : output.status = .code 0) (hls : Lines output.output.data.toList ls) :
    (∀ v w, process.validate task = .ok () →
      (Process.launch
        { command := task.spec.runtime.command
          arguments := task.spec.runtime.args
          workdir := task.spec.runtime.workdir
          environment := [(taskVariable, task.encode.compact)] }).on v = (.ok output, w) →
      (process.execute task).on v = (answer task output).on w) ∧
    ∀ w, (answer task output).on w = (.ok (resultOf (told (readable ls)).getLast?),
        w.noting { events := (told (readable ls)).map (.logLine task.uid) }) ∧
      (TakesLastLine task ls w ((answer task output).on w) ↔ ∀ l ∈ ls, lineText? l ≠ none) := by
  obtain rfl := hls.eq
  exact ⟨fun v w hv hl => on_process hv hl, fun w => ⟨on_answer hs w, takesLastLine_iff hs⟩⟩

def printed (bytes : List UInt8) : ProcessOutput where
  output := ⟨bytes.toArray⟩
  errors := ByteArray.empty
  status := .code 0

def echoing (text : String) : Run :=
  { spec := { runtime := { command := "echo", args := ["-e", text] } } }

theorem launch_echo {text task : String} {bytes : List UInt8}
    (hn : ∀ s ∈ ["echo", "-e", text, taskVariable ++ "=" ++ task], Process.hasNul s = false)
    (hl : ∀ s ∈ ["echo", "-e", text, taskVariable ++ "=" ++ task],
      s.utf8ByteSize ≤ Process.argumentLimit)
    (hb : Process.echoProgram ["-e", text] = bytes) :
    (Process.launch
      { command := "echo"
        arguments := ["-e", text]
        environment := [(taskVariable, task)] }).on {} = (.ok (printed bytes), { launched := 1 }) := by
  let i : Launch :=
    { command := "echo", arguments := ["-e", text], environment := [(taskVariable, task)] }
  have hnul : (Process.texts i).any Process.hasNul = false :=
    List.any_eq_false.2 fun s hs => by simp [hn s hs]
  have hsize : ((Process.texts i).any fun s =>
      decide (Process.argumentLimit < s.utf8ByteSize)) = false :=
    List.any_eq_false.2 fun s hs => by simpa using hl s hs
  have hprogram : Process.program? "echo" = some "echo" := by decide +kernel
  have hstart : Process.start {} i = .ok (Process.execute
      { files := {}, bindings := i.environment } "echo" ["-e", text]) := by
    simp only [Process.start, Process.enter, hnul, hsize, show i.workdir = none from rfl,
      show i.command = "echo" from rfl, hprogram]
    rfl
  have hplain : Process.plain 0 {} i = .ok (printed bytes, {}) := by
    rw [Process.plain, hstart, ← hb]
    exact congrArg (fun bytes => Except.ok ({ printed [] with output := bytes }, ({} : FileTree)))
      ByteArray.empty_append
  unfold Process.launch
  rw [Attempt.on_get_bind]
  change Attempt.on (Attempt.ofExcept (Process.plain 0 {} i) >>= _) {} = _
  rw [hplain]
  rfl

/-- What is asked of a text for its task to be launched can be evaluated. -/
theorem launch_echoing (text : String) (bytes : List UInt8)
    (hn : '\x00' ∉ text.toList ++ (echoing text).encode.chars)
    (hl : text.utf8ByteSize ≤ Process.argumentLimit ∧
      (taskVariable ++ "=" ++ (echoing text).encode.compact).utf8ByteSize ≤ Process.argumentLimit)
    (hb : Process.echoProgram ["-e", text] = bytes) :
    (Process.launch
      { command := "echo"
        arguments := ["-e", text]
        environment := [(taskVariable, (echoing text).encode.compact)] }).on {} =
      (.ok (printed bytes), { launched := 1 }) := by
  obtain ⟨htext, htask⟩ := not_or.1 fun h => hn (List.mem_append.2 h)
  refine launch_echo ?_ ?_ hb
  · have hname : '\x00' ∉ taskVariable.toList := by decide
    simp only [List.forall_mem_cons, Process.hasNul]
    refine ⟨by decide, by decide, by simpa using htext, ?_, nofun⟩
    simpa [Json.compact, hname] using htask
  · simp only [List.forall_mem_cons]
    exact ⟨by decide, by decide, hl.1, hl.2, nofun⟩

/-- A line that ends in return and line feed, a blank one, and a last one without an end. -/
theorem result_of_output_blank :
    let ls := [([111, 110, 101, 13], true), ([32], true), ([116, 119, 111], false)]
    let outcome := (process.execute (echoing "one\\r\\n \\ntwo\\c")).on {}
    outcome = (.ok (.serialized "two"), World.noting { launched := 1 }
        { events := [.logLine "" "one", .logLine "" "two"] }) ∧
      TakesLastLine (echoing "one\\r\\n \\ntwo\\c") ls { launched := 1 } outcome := by
  intro ls outcome
  have hlaunch := launch_echoing "one\\r\\n \\ntwo\\c"
    [111, 110, 101, 13, 10, 32, 10, 116, 119, 111] (by decide +kernel)
    (by decide +kernel) (by decide +kernel)
  have hls : Lines [111, 110, 101, 13, 10, 32, 10, 116, 119, 111] ls :=
    lines_splitLines [111, 110, 101, 13, 10, 32, 10, 116, 119, 111]
  obtain ⟨hexecute, hanswer⟩ := result_of_output (echoing "one\\r\\n \\ntwo\\c") (printed _) ls
    rfl hls
  have htold : told (readable ls) = ["one", "two"] := by decide +kernel
  have houtcome : outcome = _ := hexecute {} _ (by decide +kernel) hlaunch
  rw [houtcome, (hanswer _).2, (hanswer _).1, htold]
  exact ⟨rfl, by decide +kernel⟩

/-- A line that is no text makes the line before it the result. -/
theorem takes_earlier_line :
    let ls := [([108, 111, 103], true), ([255], true), ([114, 101, 115, 117, 108, 116], true)]
    let outcome := (process.execute (echoing "log\\n\\0377\\nresult")).on {}
    outcome = (.ok (.serialized "log"),
        World.noting { launched := 1 } { events := [.logLine "" "log"] }) ∧
      ¬ TakesLastLine (echoing "log\\n\\0377\\nresult") ls { launched := 1 } outcome := by
  intro ls outcome
  have hlaunch := launch_echoing "log\\n\\0377\\nresult"
    [108, 111, 103, 10, 255, 10, 114, 101, 115, 117, 108, 116, 10] (by decide +kernel)
    (by decide +kernel) (by decide +kernel)
  have houtcome : outcome = _ := on_process (by decide +kernel) hlaunch
  have htold : told (readable ls) = ["log"] := by decide +kernel
  have hbad : ¬ ∀ l ∈ ls, lineText? l ≠ none := by decide +kernel
  rw [houtcome]
  refine ⟨(on_answer rfl _).trans ?_, fun h => hbad ((takesLastLine_iff rfl).1 h)⟩
  change (Except.ok (resultOf (told (readable ls)).getLast?), _) = _
  rw [show splitLines _ = ls from rfl, htold]
  rfl

end Runtime

end Experiment

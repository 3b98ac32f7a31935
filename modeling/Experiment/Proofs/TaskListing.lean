import Experiment.Cli.Printing
import Experiment.Proofs.MarkdownTable
import Experiment.Proofs.TextParts

/-!
# Reading a list of tasks back

A list of tasks is cut into its lines, and each line at the blanks around the number in it. No other
blank or line end comes in between: digits have none, and the JSON text of an object begins with a
brace and has no line end.
-/

namespace Experiment.Cli

/-- The first number of a line, and what stands after the blanks behind it. -/
def readNumbered (line : List Char) : Nat × String :=
  let cs := line.dropWhile (· = ' ')
  (Nat.ofDigitChars 10 (cs.takeWhile (· ≠ ' ')) 0,
    String.ofList ((cs.dropWhile (· ≠ ' ')).dropWhile (· = ' ')))

def readListing (output : String) : List (Nat × String) :=
  (Text.splitOn '\n' output.toList).dropLast.map readNumbered

theorem dropWhile_blanks (width : Nat) {c : Char} (hc : c ≠ ' ') (cs : List Char) :
    (List.replicate width ' ' ++ c :: cs).dropWhile (· = ' ') = c :: cs := by
  rw [List.dropWhile_append_of_pos fun b hb => decide_eq_true (List.eq_of_mem_replicate hb),
    List.dropWhile_cons_of_neg (by simpa using hc)]

theorem readNumbered_append {digits : List Char} (hdigits : digits ≠ [])
    (hd : ∀ d ∈ digits, d ≠ ' ') {c : Char} (hc : c ≠ ' ') (width gap : Nat) (cs : List Char) :
    readNumbered (List.replicate width ' '
        ++ (digits ++ ' ' :: (List.replicate gap ' ' ++ c :: cs))) =
      (Nat.ofDigitChars 10 digits 0, String.ofList (c :: cs)) := by
  have hnumber : ∀ d ∈ digits, decide (d ≠ ' ') = true := fun d h => decide_eq_true (hd d h)
  have hline (rest : List Char) :
      (List.replicate width ' ' ++ (digits ++ rest)).dropWhile (· = ' ') = digits ++ rest := by
    cases digits with
    | nil => exact absurd rfl hdigits
    | cons d ds => exact dropWhile_blanks width (hd d List.mem_cons_self) _
  have hgap := dropWhile_blanks (gap + 1) hc cs
  rw [List.replicate_succ, List.cons_append] at hgap
  rw [readNumbered, hline, List.takeWhile_append_of_pos hnumber,
    List.dropWhile_append_of_pos hnumber, List.takeWhile_cons_of_neg (by decide),
    List.dropWhile_cons_of_neg (by decide), List.append_nil, hgap]

theorem readNumbered_toString (width gap n : Nat) {c : Char} (hc : c ≠ ' ') (cs : List Char) :
    readNumbered (List.replicate width ' '
        ++ ((toString n).toList ++ ' ' :: (List.replicate gap ' ' ++ c :: cs))) =
      (n, String.ofList (c :: cs)) := by
  have hblank : ' ' ∉ (toString n).toList := Text.mark_not_mem_digits rfl n
  rw [Nat.toString_eq_repr, Nat.toList_repr] at hblank ⊢
  rw [readNumbered_append Nat.toDigits_ne_nil (fun d hd he => hblank (he ▸ hd)) hc,
    Nat.ofDigitChars_ten_toDigits]

theorem readListing_join {lines : List String} (h : ∀ line ∈ lines, '\n' ∉ line.toList) :
    readListing (String.join (lines.map (· ++ "\n"))) =
      lines.map fun line => readNumbered line.toList := by
  -- every line brings its own end, so that nothing stands behind the last one
  have hparts : Text.splitOn '\n' (String.join (lines.map (· ++ "\n"))).toList =
      lines.map String.toList ++ [[]] := by
    induction lines with
    | nil => rfl
    | cons line lines ih =>
        rw [List.forall_mem_cons] at h
        have hline : (String.join (((line :: lines).map (· ++ "\n")))).toList =
            line.toList ++ '\n' :: (String.join (lines.map (· ++ "\n"))).toList := by
          simp [String.join_cons]
        rw [hline, Text.splitOn_append, Text.splitOn_of_not_mem h.1, ih h.2]
        rfl
  rw [readListing, hparts, List.dropLast_concat, List.map_map]
  rfl

theorem newline_not_mem_chars (v : Json) : '\n' ∉ v.chars := fun h => by
  simpa [Report.Markdown.Dialect.plain] using
    (Report.Markdown.Dialect.inert_chars (.plain false) v).unbroken _ h

theorem chars_object (fields : OrderedMap Json) :
    ∃ cs, (Json.object fields).chars = '\x7b' :: cs := by
  cases fields with
  | nil => exact ⟨_, rfl⟩
  | cons field fields => exact ⟨_, rfl⟩

/-- The line of a task without its end. -/
def shownTask (task : Run) : String :=
  "  " ++ padLeft 3 (toString task.metadata.iteration) ++ "  "
    ++ (Json.object task.spec.parameters).compact

theorem toList_shownTask (task : Run) : ∃ width, (shownTask task).toList =
    List.replicate width ' ' ++ ((toString task.metadata.iteration).toList
      ++ ' ' :: (List.replicate 1 ' ' ++ (Json.object task.spec.parameters).chars)) :=
  ⟨3 - (toString task.metadata.iteration).length + 2, by
    simp [shownTask, padLeft, Json.compact, List.replicate_succ]⟩

theorem newline_not_mem_shownTask (task : Run) : '\n' ∉ (shownTask task).toList := by
  obtain ⟨width, hline⟩ := toList_shownTask task
  have hdigits : '\n' ∉ (toString task.metadata.iteration).toList :=
    Text.mark_not_mem_digits rfl _
  have hparameters := newline_not_mem_chars (.object task.spec.parameters)
  rw [hline]
  simp only [List.mem_append, List.mem_cons, List.mem_replicate, not_or]
  exact ⟨by simp, hdigits, by decide, by simp, hparameters⟩

theorem readNumbered_shownTask (task : Run) : readNumbered (shownTask task).toList =
    (task.metadata.iteration, (Json.object task.spec.parameters).compact) := by
  obtain ⟨width, hline⟩ := toList_shownTask task
  obtain ⟨cs, hcs⟩ := chars_object task.spec.parameters
  rw [hline, hcs, readNumbered_toString width 1 _ (by decide), ← hcs, Json.compact]

/-- A list of tasks is read as the number of them, and of each its iteration and the JSON text of
its parameters. -/
theorem readListing_tasks (tasks : List Run) :
    readListing (toString tasks.length ++ " tasks\n" ++ String.join (tasks.map taskLine)) =
      (tasks.length, "tasks") :: tasks.map fun task =>
        (task.metadata.iteration, (Json.object task.spec.parameters).compact) := by
  have hlines : toString tasks.length ++ " tasks\n" ++ String.join (tasks.map taskLine) =
      String.join
        (((toString tasks.length ++ " tasks") :: tasks.map shownTask).map (· ++ "\n")) := by
    have hend : " tasks\n" = " tasks" ++ "\n" := rfl
    rw [List.map_cons, String.join_cons, List.map_map, hend, ← String.append_assoc]
    rfl
  have hcount : '\n' ∉ (toString tasks.length ++ " tasks").toList := by
    rw [String.toList_append, List.mem_append, not_or]
    exact ⟨Text.mark_not_mem_digits rfl _, by decide⟩
  have hheader : readNumbered (toString tasks.length ++ " tasks").toList =
      (tasks.length, "tasks") := by
    rw [String.toList_append]
    exact readNumbered_toString 0 0 tasks.length (by decide) _
  have htasks : (tasks.map shownTask).map (fun line => readNumbered line.toList) =
      tasks.map fun task =>
        (task.metadata.iteration, (Json.object task.spec.parameters).compact) := by
    rw [List.map_map]
    exact List.map_congr_left fun task _ => readNumbered_shownTask task
  rw [hlines, readListing_join, List.map_cons, hheader, htasks]
  rw [List.forall_mem_cons, List.forall_mem_map]
  exact ⟨hcount, fun task _ => newline_not_mem_shownTask task⟩

end Experiment.Cli

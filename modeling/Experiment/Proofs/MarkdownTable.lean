import Experiment.Proofs.Cells
import Experiment.Proofs.Json.Numeral
import Experiment.Report.Renderer
import Mathlib.Algebra.Ring.Nat

/-!
# Reading a table back

A table is read by cutting its text into lines and each line at its unescaped pipes. Only a string
can do harm: JSON text has no line end, and no pipe in it is escaped by what stands before. A string
brings each of its line ends into the table, and a backslash before one of its pipes makes a pair
with the one that is to escape the pipe.
-/

namespace Experiment

namespace Report.Markdown

/-- A way of reading tables. Readers differ in the characters besides a line feed that end a line,
and in whether a backslash escapes a pipe although it is itself escaped. -/
structure Dialect where
  ends : Char → Bool
  /-- An escaped backslash escapes nothing. -/
  pairs : Bool
  newline : ends '\n' = true
  control : ∀ c, ends c = true → c.toNat < 0x20

/-- Lines end in line feeds only. -/
def Dialect.plain (pairs : Bool) : Dialect where
  ends c := c = '\n'
  pairs
  newline := rfl
  control c h := by
    rw [of_decide_eq_true h]
    decide

namespace Dialect

/-- Does a character escape the next one? -/
def escapes (d : Dialect) (escaped : Bool) (c : Char) : Bool :=
  c = '\\' && !(d.pairs && escaped)

/-- The parts of a line between its unescaped pipes. -/
def cells (d : Dialect) (escaped : Bool) : List Char → List (List Char)
  | [] => [[]]
  | c :: cs =>
    if c = '|' && !escaped then [] :: d.cells false cs
    else (d.cells (d.escapes escaped c) cs).modifyHead (c :: ·)

/-- Each pipe of a text: is it escaped? -/
def pipes (d : Dialect) (escaped : Bool) : List Char → List Bool
  | [] => []
  | c :: cs => if c = '|' then escaped :: d.pipes false cs else d.pipes (d.escapes escaped c) cs

/-- The lines of a text; what follows the last line end is none. -/
def lines (d : Dialect) (cs : List Char) : List (List Char) :=
  (cs.splitOnP d.ends).dropLast

def read (d : Dialect) (text : String) : List (List (List Char)) :=
  (d.lines text.toList).map (d.cells false)

/-- The line ends that a cell brings. -/
def lineEnds (d : Dialect) : Json → Nat
  | .string s => s.toList.countP d.ends
  | _ => 0

/-- A row with cells, and with no line end in their strings, and no pipe that is escaped already if
backslashes come in pairs. -/
structure Keeps (d : Dialect) (row : List Json) : Prop where
  ne_nil : row ≠ []
  unbroken : ∀ s, .string s ∈ row → ∀ c ∈ s.toList, d.ends c = false
  unescaped : d.pairs = true → ∀ s, .string s ∈ row → true ∉ d.pipes false s.toList

end Dialect

/-- The cells of a line with these texts: blanks around each, and nothing before the first pipe and
after the last one. -/
def framed (texts : List (List Char)) : List (List Char) :=
  [] :: ((texts.map fun t => ' ' :: (t ++ [' '])) ++ [[]])

/-- The cells of a table and of the rule under its header. -/
def layout (header : List Json) (rows : List (List Json)) : List (List (List Char)) :=
  framed (header.map cellChars) :: framed (List.replicate header.length ['-', '-', '-']) ::
    rows.map fun row => framed (row.map cellChars)

namespace Dialect
variable (d : Dialect)

theorem escapes_of_ne {c : Char} (h : c ≠ '\\') (escaped : Bool) : d.escapes escaped c = false := by
  simp [escapes, h]

theorem ends_of_le {c : Char} (h : 0x20 ≤ c.toNat) : d.ends c = false := by
  cases hc : d.ends c with
  | false => rfl
  | true => exact absurd (d.control c hc) (Nat.not_lt.2 h)

/-! ### Lines cut at pipes -/

theorem modifyHead_cons_eq_iff {c : Char} {parts ps : List (List Char)} {t : List Char} :
    parts.modifyHead (c :: ·) = (c :: t) :: ps ↔ parts = t :: ps := by
  cases parts <;> simp

/-- A text is the first part of a line up to the pipe after it exactly if all its own pipes are
escaped. -/
theorem cells_append_iff (escaped : Bool) (t rest : List Char) (ps : List (List Char)) :
    d.cells escaped (t ++ ' ' :: '|' :: rest) = (t ++ [' ']) :: ps ↔
      (∀ b ∈ d.pipes escaped t, b = true) ∧ d.cells false rest = ps := by
  induction t generalizing escaped with
  | nil => simp [cells, pipes, d.escapes_of_ne]
  | cons c t ih =>
    rw [List.cons_append, cells, pipes]
    by_cases hc : c = '|'
    · subst hc
      cases escaped with
      | false => simp
      | true =>
        simp only [Bool.not_true, Bool.and_false, Bool.false_eq_true, if_false, List.cons_append,
          modifyHead_cons_eq_iff, ih, d.escapes_of_ne (show '|' ≠ '\\' by decide), if_true,
          List.forall_mem_cons, true_and]
    · simp only [hc, decide_false, Bool.false_and, Bool.false_eq_true, if_false, List.cons_append,
        modifyHead_cons_eq_iff, ih]

/-- A line with these texts, its end left out. -/
def barred (texts : List (List Char)) : List Char :=
  '|' :: texts.flatMap fun t => ' ' :: (t ++ [' ', '|'])

theorem cells_flatMap_iff (texts : List (List Char)) :
    d.cells false (texts.flatMap fun t => ' ' :: (t ++ [' ', '|'])) =
        (texts.map fun t => ' ' :: (t ++ [' '])) ++ [[]] ↔
      ∀ t ∈ texts, ∀ b ∈ d.pipes false t, b = true := by
  induction texts with
  | nil => simp [cells]
  | cons t texts ih =>
    have hblank : d.pipes false (' ' :: t) = d.pipes false t := by
      rw [pipes, if_neg (by decide), d.escapes_of_ne (by decide)]
    have hhead := d.cells_append_iff false (' ' :: t)
      (texts.flatMap fun t => ' ' :: (t ++ [' ', '|'])) ((texts.map fun t => ' ' :: (t ++ [' '])) ++ [[]])
    rw [hblank, ih] at hhead
    simpa using hhead

/-- A line is read back exactly if all pipes of its texts are escaped. -/
theorem cells_barred_iff (texts : List (List Char)) : d.cells false (barred texts) = framed texts ↔
    ∀ t ∈ texts, ∀ b ∈ d.pipes false t, b = true := by
  rw [barred, framed, cells, if_pos (by decide), List.cons_inj_right, cells_flatMap_iff]

theorem countP_barred (texts : List (List Char)) :
    (barred texts).countP d.ends = (texts.map fun t => t.countP d.ends).sum := by
  have hpipe : d.ends '|' = false := d.ends_of_le (by decide)
  have hblank : d.ends ' ' = false := d.ends_of_le (by decide)
  rw [barred, List.countP_cons_of_neg (by simp [hpipe]), List.countP_flatMap]
  congr 1
  exact List.map_congr_left fun t _ => by simp [hpipe, hblank]

/-! ### Texts cut into lines -/

theorem length_splitOnP (p : Char → Bool) (cs : List Char) :
    (cs.splitOnP p).length = cs.countP p + 1 := by
  induction cs with
  | nil => rfl
  | cons c cs ih =>
    rw [List.splitOnP_cons_eq_if_modifyHead]
    cases hc : p c with
    | true => simp [hc, ih]
    | false => simp [hc, ih]

/-- A text of whole lines has one more for each line end within them. -/
theorem length_lines (bodies : List (List Char)) :
    (d.lines (bodies.flatMap (· ++ ['\n']))).length =
      bodies.length + (bodies.map fun b => b.countP d.ends).sum := by
  rw [lines, List.length_dropLast, length_splitOnP, Nat.add_sub_cancel, List.countP_flatMap]
  induction bodies with
  | nil => rfl
  | cons b bodies ih =>
    simp only [List.map_cons, List.sum_cons, List.length_cons, List.countP_append, Function.comp,
      List.countP_singleton, d.newline, if_true] at ih ⊢
    omega

theorem lines_append {b : List Char} (h : ∀ c ∈ b, d.ends c = false) (rest : List Char) :
    d.lines (b ++ '\n' :: rest) = b :: d.lines rest := by
  rw [lines, List.splitOnP_append_cons_of_forall_mem h _ d.newline,
    List.dropLast_cons_of_ne_nil (List.splitOnP_ne_nil _ _), lines]

theorem lines_flatMap {bodies : List (List Char)} (h : ∀ b ∈ bodies, ∀ c ∈ b, d.ends c = false) :
    d.lines (bodies.flatMap (· ++ ['\n'])) = bodies := by
  induction bodies with
  | nil => rfl
  | cons b bodies ih =>
    rw [List.forall_mem_cons] at h
    rw [List.flatMap_cons, List.append_assoc, List.singleton_append, d.lines_append h.1, ih h.2]

/-! ### Cells -/

theorem pipes_append (escaped : Bool) (cs ds : List Char) : d.pipes escaped (cs ++ ds) =
    d.pipes escaped cs ++ d.pipes (cs.foldl d.escapes escaped) ds := by
  induction cs generalizing escaped with
  | nil => rfl
  | cons c cs ih =>
    rw [List.cons_append, pipes, pipes, List.foldl_cons]
    by_cases hc : c = '|'
    · subst hc
      rw [if_pos rfl, if_pos rfl, d.escapes_of_ne (by decide), ih, List.cons_append]
    · rw [if_neg hc, if_neg hc, ih]

/-- A text that does no harm wherever it stands. -/
structure Inert (cs : List Char) : Prop where
  unbroken : ∀ c ∈ cs, d.ends c = false
  unescaped : d.pairs = true → true ∉ d.pipes false cs
  complete : d.pairs = true → cs.foldl d.escapes false = false

variable {d} in
theorem Inert.append {cs ds : List Char} (hcs : d.Inert cs) (hds : d.Inert ds) :
    d.Inert (cs ++ ds) where
  unbroken := List.forall_mem_append.2 ⟨hcs.unbroken, hds.unbroken⟩
  unescaped h := by
    rw [pipes_append, hcs.complete h]
    exact fun hmem => (List.mem_append.1 hmem).elim (hcs.unescaped h) (hds.unescaped h)
  complete h := by rw [List.foldl_append, hcs.complete h, hds.complete h]

theorem inert_nil : d.Inert [] where
  unbroken := nofun
  unescaped _ := nofun
  complete _ := rfl

theorem inert_singleton {c : Char} (hc : c ≠ '\\') (hle : 0x20 ≤ c.toNat) : d.Inert [c] where
  unbroken := by simpa using d.ends_of_le hle
  unescaped _ := by by_cases h : c = '|' <;> simp [pipes, h]
  complete _ := d.escapes_of_ne hc _

theorem inert_flatMap {α : Type} {f : α → List Char} {xs : List α} (h : ∀ x ∈ xs, d.Inert (f x)) :
    d.Inert (xs.flatMap f) := by
  induction xs with
  | nil => exact d.inert_nil
  | cons x xs ih =>
    rw [List.forall_mem_cons] at h
    rw [List.flatMap_cons]
    exact h.1.append (ih h.2)

theorem inert_of_plain {cs : List Char} (h : ∀ c ∈ cs, c ≠ '\\' ∧ 0x20 ≤ c.toNat) : d.Inert cs := by
  have hinert := d.inert_flatMap fun c hc => d.inert_singleton (h c hc).1 (h c hc).2
  rwa [List.flatMap_singleton'] at hinert

theorem inert_escape {c : Char} (hc : c ≠ '|') (hle : 0x20 ≤ c.toNat) : d.Inert ['\\', c] where
  unbroken := by simpa using ⟨d.ends_of_le (by decide), d.ends_of_le hle⟩
  unescaped _ := by simp [pipes, hc]
  complete h := by simp [escapes, h]

theorem plain_hexDigit : ∀ n < 16,
    Json.hexDigit n ≠ '\\' ∧ 0x20 ≤ (Json.hexDigit n).toNat := by
  decide

theorem inert_escapeChar (c : Char) : d.Inert (Json.escapeChar c) := by
  rw [Json.escapeChar]
  split
  next => exact d.inert_escape (by decide) (by decide)
  split
  next => exact d.inert_escape (by decide) (by decide)
  next hbackslash =>
    iterate 5
      split
      next => exact d.inert_escape (by decide) (by decide)
    split
    next hcontrol =>
      have hhigh := plain_hexDigit (c.toNat / 16) (by omega)
      have hlow := plain_hexDigit (c.toNat % 16) (by omega)
      refine (d.inert_escape (show 'u' ≠ '|' by decide) (by decide)).append (d.inert_of_plain ?_)
      simp [hhigh, hlow]
    next hcontrol => exact d.inert_singleton hbackslash (Nat.not_lt.1 hcontrol)

variable {d} in
theorem Inert.cons {c : Char} {cs : List Char} (hc : c ≠ '\\') (hle : 0x20 ≤ c.toNat)
    (hcs : d.Inert cs) : d.Inert (c :: cs) :=
  (d.inert_singleton hc hle).append hcs

theorem inert_stringChars (s : String) : d.Inert (Json.stringChars s) :=
  .cons (by decide) (by decide) ((d.inert_flatMap fun c _ => d.inert_escapeChar c).append
    (d.inert_singleton (by decide) (by decide)))

theorem inert_numberChars (n : Number) : d.Inert (Json.numberChars n) := by
  refine d.inert_of_plain (Json.Token.forall_mem_numberChars (fun c hc => ⟨?_, ?_⟩) (by simp) n)
  · rintro rfl
    cases hc
  · exact Nat.le_trans (by decide) (Char.isDigit_iff_toNat.1 hc).1

mutual
theorem inert_chars (v : Json) : d.Inert v.chars := by
  match v with
  | .null => exact d.inert_of_plain (by simp [Json.chars])
  | .bool true => exact d.inert_of_plain (by simp [Json.chars])
  | .bool false => exact d.inert_of_plain (by simp [Json.chars])
  | .number n => exact d.inert_numberChars n
  | .string s => exact d.inert_stringChars s
  | .array [] => exact d.inert_of_plain (by simp [Json.chars])
  | .array (x :: xs) =>
    have hclose : d.Inert [']'] := d.inert_singleton (by decide) (by decide)
    exact .cons (by decide) (by decide)
      (((inert_chars x).append (inert_itemsChars xs)).append hclose)
  | .object [] => exact d.inert_of_plain (by simp [Json.chars])
  | .object ((k, v) :: fs) =>
    have hclose : d.Inert ['\x7d'] := d.inert_singleton (by decide) (by decide)
    have hvalue : d.Inert (':' :: v.chars) := .cons (by decide) (by decide) (inert_chars v)
    exact .cons (by decide) (by decide)
      ((((d.inert_stringChars k).append hvalue).append (inert_fieldsChars fs)).append hclose)

theorem inert_itemsChars (xs : List Json) : d.Inert (Json.itemsChars xs) := by
  match xs with
  | [] => exact d.inert_nil
  | x :: xs => exact .cons (by decide) (by decide) ((inert_chars x).append (inert_itemsChars xs))

theorem inert_fieldsChars (fs : List (String × Json)) : d.Inert (Json.fieldsChars fs) := by
  match fs with
  | [] => exact d.inert_nil
  | (k, v) :: fs =>
    have hvalue : d.Inert (':' :: (v.chars ++ Json.fieldsChars fs)) :=
      .cons (by decide) (by decide) ((inert_chars v).append (inert_fieldsChars fs))
    exact .cons (by decide) (by decide) ((d.inert_stringChars k).append hvalue)
end

/-- The backslash before a pipe escapes it unless it is itself escaped. -/
theorem pipes_escapePipes (escaped : Bool) (cs : List Char) : d.pipes escaped (escapePipes cs) =
    (d.pipes escaped cs).map fun b => !(d.pairs && b) := by
  rw [escapePipes]
  induction cs generalizing escaped with
  | nil => rfl
  | cons c cs ih =>
    rw [List.flatMap_cons]
    by_cases hc : c = '|'
    · subst hc
      simp [pipes, escapes, ih]
    · simp [pipes, hc, ih]

theorem countP_escapePipes (cs : List Char) :
    (escapePipes cs).countP d.ends = cs.countP d.ends := by
  have hpipe : d.ends '|' = false := d.ends_of_le (by decide)
  have hbackslash : d.ends '\\' = false := d.ends_of_le (by decide)
  rw [escapePipes]
  induction cs with
  | nil => rfl
  | cons c cs ih =>
    rw [List.flatMap_cons, List.countP_append, List.countP_cons, ih, Nat.add_comm]
    split
    next hc => simp [hc, hpipe, hbackslash]
    next => rw [List.countP_singleton]

theorem cellChars_eq (v : Json) : v = .null ∨ (∃ s, v = .string s) ∨
    cellChars v = escapePipes v.chars ∧ d.lineEnds v = 0 ∧ ∀ s, v ≠ .string s := by
  cases v with
  | null => exact .inl rfl
  | string s => exact .inr (.inl ⟨s, rfl⟩)
  | bool _ | number _ | array _ | object _ => exact .inr (.inr ⟨rfl, rfl, nofun⟩)

theorem countP_cellChars (v : Json) : (cellChars v).countP d.ends = d.lineEnds v := by
  obtain rfl | ⟨s, rfl⟩ | ⟨hchars, hends, -⟩ := d.cellChars_eq v
  · rfl
  · exact d.countP_escapePipes s.toList
  · rw [hchars, hends, countP_escapePipes, List.countP_eq_zero]
    exact fun c hc => by simp [(d.inert_chars v).unbroken c hc]

theorem forall_escaped_iff (cs : List Char) : (∀ b ∈ d.pipes false (escapePipes cs), b = true) ↔
    (d.pairs = true → true ∉ d.pipes false cs) := by
  rw [pipes_escapePipes, List.forall_mem_map]
  cases d.pairs with
  | false => simp
  | true => simp

theorem forall_pipes_cellChars_iff (v : Json) : (∀ b ∈ d.pipes false (cellChars v), b = true) ↔
    (d.pairs = true → ∀ s, v = .string s → true ∉ d.pipes false s.toList) := by
  obtain rfl | ⟨s, rfl⟩ | ⟨hchars, -, htext⟩ := d.cellChars_eq v
  · simp [cellChars, pipes]
  · simpa [cellChars] using d.forall_escaped_iff s.toList
  · rw [hchars, forall_escaped_iff]
    exact ⟨fun _ _ s h => absurd h (htext s), fun _ => (d.inert_chars v).unescaped⟩

end Dialect

/-! ### Tables -/

/-- The texts between the pipes of a row; there is always one. -/
def texts : List Json → List (List Char)
  | [] => [[]]
  | v :: row => (v :: row).map cellChars

theorem intercalate_texts (t : List Char) (ts : List (List Char)) :
    ' ' :: ([' ', '|', ' '].intercalate (t :: ts) ++ [' ', '|']) =
      (t :: ts).flatMap fun t => ' ' :: (t ++ [' ', '|']) := by
  induction ts generalizing t with
  | nil => simp
  | cons u ts ih =>
    rw [List.intercalate_cons_cons, List.flatMap_cons, ← ih u]
    simp

theorem toList_line (row : List Json) :
    (line row).toList = Dialect.barred (texts row) ++ ['\n'] := by
  have hcells : (row.map cellText).map String.toList = row.map cellChars := by
    simp [cellText, Function.comp_def]
  cases row with
  | nil => rfl
  | cons v row =>
    rw [line, String.toList_append, String.toList_append, String.toList_intercalate, hcells,
      Dialect.barred, texts, List.map_cons, ← intercalate_texts]
    simp

theorem toList_rule (columns : Nat) : (rule columns).toList =
    Dialect.barred (List.replicate columns ['-', '-', '-']) ++ ['\n'] := by
  rw [rule, String.toList_append, String.toList_append, String.toList_join, Dialect.barred]
  simp [List.flatMap_replicate]

/-- The lines of a table without their ends. -/
def written (header : List Json) (rows : List (List Json)) : List (List Char) :=
  Dialect.barred (texts header) :: Dialect.barred (List.replicate header.length ['-', '-', '-']) ::
    rows.map fun row => Dialect.barred (texts row)

theorem toList_table {header : List Json} (h : header ≠ []) (rows : List (List Json)) :
    (table header rows).toList = (written header rows).flatMap (· ++ ['\n']) := by
  have he : header.isEmpty = false := by simpa using h
  rw [table, he, if_neg Bool.false_ne_true, String.toList_append, String.toList_append,
    String.toList_join, toList_line, toList_rule, written]
  simp [List.flatMap_map, toList_line]

namespace Dialect
variable (d : Dialect)

theorem countP_barred_texts (row : List Json) :
    (barred (texts row)).countP d.ends = (row.map d.lineEnds).sum := by
  rw [countP_barred]
  cases row with
  | nil => rfl
  | cons v row => simp only [texts, List.map_map, Function.comp_def, countP_cellChars]

theorem countP_rule (columns : Nat) :
    (barred (List.replicate columns ['-', '-', '-'])).countP d.ends = 0 := by
  have hdash : d.ends '-' = false := d.ends_of_le (by decide)
  rw [countP_barred]
  simp [hdash]

theorem cells_rule (columns : Nat) : d.cells false (barred (List.replicate columns ['-', '-', '-'])) =
    framed (List.replicate columns ['-', '-', '-']) := by
  rw [cells_barred_iff]
  intro t ht
  rw [List.eq_of_mem_replicate ht]
  simp [pipes]

/-- A row is read back exactly if it has cells and their pipes are escaped; one without cells is read
as a blank cell. -/
theorem cells_row_iff (row : List Json) :
    d.cells false (barred (texts row)) = framed (row.map cellChars) ↔
      row ≠ [] ∧ ∀ v ∈ row, ∀ b ∈ d.pipes false (cellChars v), b = true := by
  cases row with
  | nil => simp [texts, barred, cells, framed, d.escapes_of_ne]
  | cons v row => rw [texts, cells_barred_iff, List.forall_mem_map]; simp

theorem lineEnds_eq_zero_iff (v : Json) :
    d.lineEnds v = 0 ↔ ∀ s, v = .string s → ∀ c ∈ s.toList, d.ends c = false := by
  cases v <;> simp [lineEnds, List.countP_eq_zero]

theorem keeps_iff (row : List Json) : d.Keeps row ↔ (∀ v ∈ row, d.lineEnds v = 0) ∧
    d.cells false (barred (texts row)) = framed (row.map cellChars) := by
  simp only [cells_row_iff, lineEnds_eq_zero_iff, forall_pipes_cellChars_iff]
  constructor
  · rintro ⟨hne, hends, hpipes⟩
    exact ⟨fun v hv s hs => hends s (hs ▸ hv), hne, fun v hv hp s hs => hpipes hp s (hs ▸ hv)⟩
  · rintro ⟨hends, hne, hpipes⟩
    exact ⟨hne, fun s hs => hends _ hs s rfl, fun hp s hs => hpipes _ hs hp s rfl⟩

theorem length_lines_table {header : List Json} (h : header ≠ []) (rows : List (List Json)) :
    (d.lines (table header rows).toList).length =
      2 + rows.length + ((header :: rows).flatten.map d.lineEnds).sum := by
  rw [toList_table h, length_lines, written]
  simp only [List.map_cons, List.map_map, Function.comp_def, countP_barred_texts, countP_rule,
    List.map_flatten, List.sum_flatten, List.length_cons, List.length_map, List.sum_cons]
  omega

theorem lines_table {header : List Json} (h : header ≠ []) {rows : List (List Json)}
    (hends : ∀ row ∈ header :: rows, ∀ v ∈ row, d.lineEnds v = 0) :
    d.lines (table header rows).toList = written header rows := by
  have hrow : ∀ row ∈ header :: rows, (barred (texts row)).countP d.ends = 0 := fun row hrow => by
    rw [countP_barred_texts, List.map_congr_left (hends row hrow)]
    simp
  have hbody : ∀ b ∈ written header rows, b.countP d.ends = 0 := by
    rw [List.forall_mem_cons] at hrow
    rw [written, List.forall_mem_cons, List.forall_mem_cons, List.forall_mem_map]
    exact ⟨hrow.1, d.countP_rule _, hrow.2⟩
  rw [toList_table h]
  refine d.lines_flatMap fun b hb c hc => ?_
  simpa using List.countP_eq_zero.1 (hbody b hb) c hc

theorem map_cells_written_iff (header : List Json) (rows : List (List Json)) :
    (written header rows).map (d.cells false) = layout header rows ↔ ∀ row ∈ header :: rows,
      d.cells false (barred (texts row)) = framed (row.map cellChars) := by
  rw [written, layout, List.map_cons, List.map_cons, List.map_map, cells_rule, List.forall_mem_cons]
  simp [List.map_inj_left]

/-- One line end too many is a line too many. -/
theorem read_table_iff {header : List Json} (h : header ≠ []) (rows : List (List Json)) :
    d.read (table header rows) = layout header rows ↔ ∀ row ∈ header :: rows, d.Keeps row := by
  simp only [keeps_iff, forall_and, read]
  rw [← map_cells_written_iff]
  constructor
  · intro hread
    have hlength := congrArg List.length hread
    rw [List.length_map, length_lines_table d h] at hlength
    simp only [layout, List.length_cons, List.length_map] at hlength
    have hzero : ((header :: rows).flatten.map d.lineEnds).sum = 0 := by omega
    have hends : ∀ row ∈ header :: rows, ∀ v ∈ row, d.lineEnds v = 0 := fun row hrow v hv =>
      List.sum_eq_zero_iff_forall_eq_nat.1 hzero _
        (List.mem_map_of_mem (List.mem_flatten_of_mem hrow hv))
    exact ⟨hends, d.lines_table h hends ▸ hread⟩
  · rintro ⟨hends, hcells⟩
    rw [d.lines_table h hends, hcells]

theorem lines_tableBlock (t : IterationTable) : ∃ text,
    Renderer.tableBlock t = .inlineMarkdown text ∧
      d.lines text.toList = "# Run Report".toList :: "## Iterations".toList ::
        d.lines (table t.header t.rows).toList := by
  refine ⟨_, rfl, ?_⟩
  have htitle : d.Inert "# Run Report".toList := d.inert_of_plain (by simp)
  have hheading : d.Inert "## Iterations".toList := d.inert_of_plain (by simp)
  rw [String.toList_append, show "# Run Report\n## Iterations\n".toList =
    "# Run Report".toList ++ '\n' :: ("## Iterations".toList ++ ['\n']) from rfl,
    List.append_assoc, List.cons_append, d.lines_append htitle.unbroken, List.append_assoc,
    List.singleton_append, d.lines_append hheading.unbroken]

end Dialect

/-- A table has a line for its header, one for the rule and one for each row, and a further one for
each line end in a text. It is read back exactly if each row keeps its cells; in a report of a sweep
that is one line for each child. -/
theorem read_table (d : Dialect) :
    (∀ (name : Json) (names : List Json) (rows : List (List Json)),
      (d.lines (table (name :: names) rows).toList).length =
          2 + rows.length + (((name :: names) :: rows).flatten.map d.lineEnds).sum ∧
        (d.read (table (name :: names) rows) = layout (name :: names) rows ↔
          ∀ row ∈ (name :: names) :: rows, d.Keeps row)) ∧
    ∀ (run : Run) (results : List Run),
      let t := IterationTable.ofRuns (run :: results)
      ∃ text, Renderer.tableBlock t = .inlineMarkdown text ∧
        d.lines text.toList = "# Run Report".toList :: "## Iterations".toList ::
          d.lines (table t.header t.rows).toList ∧
        (d.lines (table t.header t.rows).toList).length =
          2 + (run :: results).length + (t.lines.flatten.map d.lineEnds).sum ∧
        (d.read (table t.header t.rows) = layout t.header t.rows ↔ ∀ line ∈ t.lines, d.Keeps line) := by
  refine ⟨fun name names rows => ⟨d.length_lines_table (List.cons_ne_nil _ _) rows,
    d.read_table_iff (List.cons_ne_nil _ _) rows⟩, fun run results => ?_⟩
  intro t
  obtain ⟨text, hblock, hlines⟩ := d.lines_tableBlock t
  have hheader : t.header ≠ [] := by simp [t, IterationTable.header_ofRuns]
  have hrows : t.rows.length = (run :: results).length := IterationTable.length_rows_ofRuns _
  have ht : t.header :: t.rows = t.lines := rfl
  exact ⟨text, hblock, hlines, by rw [d.length_lines_table hheader, hrows, ht],
    ht ▸ d.read_table_iff hheader t.rows⟩

/-- A line feed in a cell cuts its row in two. A backslash before a pipe takes away the one that was
to escape it, for readers that see pairs. A row without cells shows a blank one. -/
theorem read_table_broken :
    (Dialect.plain false).read (table [.string "p"] [[.string "a\nb"]]) =
        [[[], " p ".toList, []], [[], " --- ".toList, []], [[], " a".toList], ["b ".toList, []]] ∧
      (Dialect.plain true).read (table [.string "p"] [[.string "a\\|b"]]) =
        [[[], " p ".toList, []], [[], " --- ".toList, []], [[], " a\\\\".toList, "b ".toList, []]] ∧
      (Dialect.plain false).read (table [.string "p"] [[]]) =
        [[[], " p ".toList, []], [[], " --- ".toList, []], [[], "  ".toList, []]] := by
  decide +kernel

end Report.Markdown

end Experiment

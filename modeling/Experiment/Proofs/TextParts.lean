import Experiment.Text
import Mathlib.Data.List.DropRight

/-!
# Parts of texts

What a text begins with, its parts between marks, and what comes of replacing a part of it:
occurrences from the left, one after the other, give way to another text, and the rest is kept. A
character that the part does not have keeps the text before it and the text after it apart.
-/

namespace Experiment.Text

theorem afterStart?_eq_some {start cs rest : List Char} :
    afterStart? start cs = some rest ↔ cs = start ++ rest := by
  induction start generalizing cs with
  | nil => simp [afterStart?]
  | cons s start ih =>
      cases cs with
      | nil => simp [afterStart?]
      | cons c cs =>
          rw [afterStart?, List.cons_append, List.cons.injEq]
          split
          next h => rw [ih, and_iff_right h.symm]
          next h => exact ⟨fun hnone => (by cases hnone), fun he => absurd he.1.symm h⟩

theorem startsWith_iff {start cs : List Char} :
    startsWith start cs = true ↔ ∃ rest, cs = start ++ rest := by
  rw [startsWith, Option.isSome_iff_exists]
  simp only [afterStart?_eq_some]

section Split
variable {mark : Char} {cs : List Char}

theorem splitOn_eq (mark : Char) (cs : List Char) : splitOn mark cs = cs.splitOn mark := by
  induction cs with
  | nil => rfl
  | cons c cs ih =>
      rw [splitOn, ih, List.splitOn_cons_eq_if_modifyHead]
      by_cases hc : c = mark
      · simp [hc]
      · simp only [hc, if_false, beq_iff_eq]
        cases h : cs.splitOn mark with
        | nil => exact absurd h (List.splitOn_ne_nil mark cs)
        | cons part parts => rfl

theorem splitOn_of_not_mem (h : mark ∉ cs) : splitOn mark cs = [cs] := by
  rw [splitOn_eq, List.splitOn_eq_singleton h]

theorem splitOn_ne_nil (mark : Char) (cs : List Char) : splitOn mark cs ≠ [] := by
  rw [splitOn_eq]
  exact List.splitOn_ne_nil mark cs

theorem splitOn_append (mark : Char) (as bs : List Char) :
    splitOn mark (as ++ mark :: bs) = splitOn mark as ++ splitOn mark bs := by
  rw [splitOn_eq, splitOn_eq, splitOn_eq]
  exact List.splitOnP_append_cons as bs (beq_self_eq_true mark)

theorem splitFirst?_append {before : List Char} (h : mark ∉ before) (after : List Char) :
    splitFirst? mark (before ++ mark :: after) = some (before, after) := by
  induction before with
  | nil => simp [splitFirst?]
  | cons c before ih =>
      obtain ⟨hc, hbefore⟩ := not_or.1 fun hm => h (List.mem_cons.2 hm)
      rw [List.cons_append, splitFirst?, if_neg (Ne.symm hc), ih hbefore, Option.map_some]

theorem splitOn_joinWith (mark : Char) (separator : String) (hs : separator.toList = [mark])
    {parts : List String} (hp : parts ≠ []) (h : ∀ part ∈ parts, mark ∉ part.toList) :
    splitOn mark (joinWith separator parts).toList = parts.map String.toList := by
  rw [splitOn_eq, joinWith, String.toList_intercalate, hs]
  exact List.splitOn_intercalate mark (List.forall_mem_map.2 h) (mt List.map_eq_nil_iff.1 hp)

end Split

theorem mark_not_mem_digits {mark : Char} (h : mark.isDigit = false) (n : Nat) :
    mark ∉ (toString n).toList := by
  rw [Nat.toString_eq_repr, Nat.toList_repr]
  intro hm
  rw [Nat.isDigit_of_mem_toDigits (by decide) (by decide) hm] at h
  cases h

theorem trimChars_eq_nil_iff {cs : List Char} : trimChars cs = [] ↔ ∀ c ∈ cs, isBlank c = true := by
  have hleft : (∀ c ∈ cs.dropWhile isBlank, isBlank c = true) ↔ ∀ c ∈ cs, isBlank c = true := by
    rw [← List.dropWhile_eq_nil_iff, List.dropWhile_idempotent, List.dropWhile_eq_nil_iff]
  exact List.rdropWhile_eq_nil_iff.trans hleft

theorem trimChars_of_ends {first last : Char} (hf : isBlank first = false)
    (hl : isBlank last = false) (cs : List Char) :
    trimChars (first :: (cs ++ [last])) = first :: (cs ++ [last]) := by
  rw [trimChars, trimLeft, List.dropWhile_cons_of_neg (Bool.eq_false_iff.1 hf)]
  exact List.rdropWhile_concat_neg isBlank (first :: cs) last (Bool.eq_false_iff.1 hl)

/-- What comes of a text when each occurrence of `part`, taken from the left, gives way to `value`. -/
inductive Replaced (part value : List Char) : List Char → List Char → Prop
  | nil : Replaced part value [] []
  | hit {cs ds : List Char} (h : Replaced part value cs ds) :
    Replaced part value (part ++ cs) (value ++ ds)
  | keep {c : Char} {cs ds : List Char} (hc : ¬ part <+: c :: cs) (h : Replaced part value cs ds) :
    Replaced part value (c :: cs) (c :: ds)

section Replace
variable {part value as bs cs ds es : List Char}

/-- Every text has its replacement: what begins with the part goes on after it. -/
theorem exists_replaced (hpart : part ≠ []) (value cs : List Char) :
    ∃ ds, Replaced part value cs ds := by
  induction hn : cs.length using Nat.strongRecOn generalizing cs with
  | ind n ih =>
      subst hn
      cases cs with
      | nil => exact ⟨[], .nil⟩
      | cons c cs =>
          by_cases hc : part <+: c :: cs
          · obtain ⟨rest, hrest⟩ := hc
            have hlength : 0 < part.length := List.length_pos_iff.2 hpart
            obtain ⟨ds, hds⟩ := ih rest.length
              (by rw [← hrest, List.length_append]; omega) rest rfl
            exact ⟨value ++ ds, hrest ▸ hds.hit⟩
          · obtain ⟨ds, hds⟩ := ih cs.length (Nat.lt_succ_self _) cs rfl
            exact ⟨c :: ds, hds.keep hc⟩

/-- There is no other. -/
theorem Replaced.eq (hpart : part ≠ []) (h : Replaced part value cs ds) {fuel : Nat}
    (hf : cs.length ≤ fuel) : replaceFuel part value fuel cs = ds := by
  induction h generalizing fuel with
  | nil => rw [replaceFuel]
  | @hit cs ds h ih =>
      rw [List.length_append] at hf
      cases part with
      | nil => exact absurd rfl hpart
      | cons p part =>
          rw [List.length_cons] at hf
          obtain ⟨fuel, rfl⟩ : ∃ k, fuel = k + 1 := ⟨fuel - 1, by omega⟩
          rw [List.cons_append, replaceFuel, afterStart?_eq_some.2 (List.cons_append ..).symm]
          exact congrArg (value ++ ·) (ih (by omega))
  | @keep c cs ds hc h ih =>
      rw [List.length_cons] at hf
      obtain ⟨fuel, rfl⟩ : ∃ k, fuel = k + 1 := ⟨fuel - 1, by omega⟩
      have hnone : afterStart? part (c :: cs) = none :=
        Option.eq_none_iff_forall_ne_some.2 fun rest hrest =>
          hc ⟨rest, (afterStart?_eq_some.1 hrest).symm⟩
      rw [replaceFuel, hnone]
      exact congrArg (c :: ·) (ih (by omega))

theorem replaced_replace {part : String} (hpart : part.toList ≠ []) (value s : String) :
    Replaced part.toList value.toList s.toList (replace part value s).toList := by
  obtain ⟨ds, h⟩ := exists_replaced hpart value.toList s.toList
  rw [replace, h.eq hpart (Nat.le_refl _), String.toList_ofList]
  exact h

theorem replace_eq {part value s t : String} (hpart : part.toList ≠ [])
    (h : Replaced part.toList value.toList s.toList t.toList) : replace part value s = t := by
  rw [replace, h.eq hpart (Nat.le_refl _), String.ofList_toList]

theorem Replaced.of_absent (h : ¬ part <:+: cs) : Replaced part value cs cs := by
  induction cs with
  | nil => exact .nil
  | cons c cs ih =>
      rw [List.infix_cons_iff, not_or] at h
      exact (ih h.2).keep h.1

theorem Replaced.whole (part value : List Char) : Replaced part value part value := by
  have h : Replaced part value (part ++ []) (value ++ []) := Replaced.nil.hit
  rwa [List.append_nil, List.append_nil] at h

/-- What does not have a character cannot begin before it and end after it. -/
theorem prefix_of_prefix_append_cons {c : Char} (hc : c ∉ part) (as : List Char)
    (h : part <+: as ++ c :: bs) : part <+: as := by
  have has : as ++ [c] <+: as ++ c :: bs := (List.prefix_append_right_inj as).2 ⟨bs, rfl⟩
  obtain h | h := List.prefix_or_prefix_of_prefix h has
  · obtain rfl | h := List.prefix_concat_iff.1 h
    · exact absurd (List.mem_append_right as List.mem_cons_self) hc
    · exact h
  · exact absurd (h.subset (List.mem_append_right as List.mem_cons_self)) hc

/-- On both sides of such a character a text is replaced for itself. -/
theorem Replaced.append_cons {c : Char} (hpart : part ≠ []) (hc : c ∉ part)
    (h : Replaced part value as ds) (h' : Replaced part value bs es) :
    Replaced part value (as ++ c :: bs) (ds ++ c :: es) := by
  induction h with
  | nil =>
      refine h'.keep fun hprefix => hpart ?_
      exact List.prefix_nil.1 (prefix_of_prefix_append_cons hc [] hprefix)
  | hit _ ih =>
      rw [List.append_assoc, List.append_assoc]
      exact ih.hit
  | @keep a as ds ha _ ih =>
      exact ih.keep fun hprefix => ha (prefix_of_prefix_append_cons hc (a :: as) hprefix)

/-- Texts are replaced a number of times, none exactly if the part does not occur. Each time gives
the characters of the value for those of the part. -/
theorem Replaced.counts (hpart : part ≠ []) (h : Replaced part value cs ds) :
    ∃ n, (n = 0 ↔ ¬ part <:+: cs) ∧
      ds.length + n * part.length = cs.length + n * value.length ∧
      ∀ c, c ∉ part → ds.count c = cs.count c + n * value.count c := by
  induction h with
  | nil => exact ⟨0, by simp [hpart], by simp, by simp⟩
  | @hit cs ds _ ih =>
      obtain ⟨n, -, hlength, hcount⟩ := ih
      refine ⟨n + 1, ?_, ?_, fun c hc => ?_⟩
      · exact ⟨fun h => absurd h (Nat.succ_ne_zero n),
          fun h => absurd (List.prefix_append part cs).isInfix h⟩
      · rw [List.length_append, List.length_append, Nat.add_one_mul, Nat.add_one_mul]
        omega
      · rw [List.count_append, List.count_append, hcount c hc, List.count_eq_zero.2 hc,
          Nat.add_one_mul]
        omega
  | @keep a cs ds ha _ ih =>
      obtain ⟨n, hzero, hlength, hcount⟩ := ih
      refine ⟨n, ?_, ?_, fun c hc => ?_⟩
      · rw [hzero, List.infix_cons_iff, not_or, and_iff_right ha]
      · rw [List.length_cons, List.length_cons]
        omega
      · rw [List.count_cons, List.count_cons, hcount c hc]
        omega

theorem Replaced.eq_of_eq (h : Replaced part value cs ds) (hcs : ds = cs) (hpart : part <:+: cs)
    (hlength : value.length = part.length) (hne : part ≠ []) : value = part := by
  induction h with
  | nil => exact absurd (List.infix_nil.1 hpart) hne
  | hit _ _ => exact List.append_inj_left hcs hlength
  | keep hc _ ih =>
      exact ih (List.cons.inj hcs).2 ((List.infix_cons_iff.1 hpart).resolve_left hc)

/-- Two texts are kept together only if neither has the part, or it is put back: what one gains the
other cannot lose. -/
theorem Replaced.eq_or_absent (hne : part ≠ []) (h : Replaced part value as ds)
    (h' : Replaced part value bs es) (between : List Char)
    (heq : ds ++ (between ++ es) = as ++ (between ++ bs)) :
    value = part ∨ ¬ part <:+: as ∧ ¬ part <:+: bs := by
  obtain ⟨n, hn, hlength, -⟩ := h.counts hne
  obtain ⟨k, hk, hlength', -⟩ := h'.counts hne
  have hboth := congrArg List.length heq
  simp only [List.length_append] at hboth
  have hgain : (n + k) * value.length = (n + k) * part.length := by
    rw [Nat.add_mul, Nat.add_mul]
    omega
  by_cases hnone : n + k = 0
  · exact .inr ⟨hn.1 (by omega), hk.1 (by omega)⟩
  · have hsame : value.length = part.length := Nat.eq_of_mul_eq_mul_left (by omega) hgain
    rw [hsame] at hlength hlength'
    have has : ds = as := List.append_inj_left heq (by omega)
    rw [has, List.append_cancel_left_eq, List.append_cancel_left_eq] at heq
    by_cases hfirst : part <:+: as
    · exact .inl (h.eq_of_eq has hfirst hsame hne)
    · by_cases hlast : part <:+: bs
      · exact .inl (h'.eq_of_eq heq hlast hsame hne)
      · exact .inr ⟨hfirst, hlast⟩

theorem Replaced.eq_self (h : Replaced part part cs ds) : ds = cs := by
  induction h with
  | nil => rfl
  | hit _ ih | keep _ _ ih => rw [ih]

end Replace

end Experiment.Text

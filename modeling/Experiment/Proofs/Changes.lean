import Experiment.Proofs.Fields
import Mathlib.Data.List.Nodup

/-!
# Documents that are changed at one place

A field of a record may be set and an item of a list may give way to another one. What is read of the
document then differs at that place and nowhere else: a record has the same fields but for the one
that is set, and a list the same items but for the one that is changed.
-/

namespace Experiment

namespace Document

/-- One field of a record gives way to another document, in a mapping under its name, in a sequence at
its place. -/
inductive ChangesField (names : List String) (name : String) (R : Document → Document → Prop) :
    Document → Document → Prop
  | named (before after : List (Option String × Document)) {d d' : Document} (h : R d d') :
    ChangesField names name R (.mapping (before ++ (some name, d) :: after))
      (.mapping (before ++ (some name, d') :: after))
  | placed (before after : List Document) {d d' : Document}
    (hn : names[before.length]? = some name) (h : R d d') :
    ChangesField names name R (.sequence (before ++ d :: after)) (.sequence (before ++ d' :: after))

inductive ChangesItem (i : Nat) (R : Document → Document → Prop) : Document → Document → Prop
  | placed (before after : List Document) {d d' : Document} (hi : before.length = i) (h : R d d') :
    ChangesItem i R (.sequence (before ++ d :: after)) (.sequence (before ++ d' :: after))

/-- One field of a record is set, whether or not it was there. -/
inductive SetsField (names : List String) (name : String) (v : Document) : Document → Document → Prop
  | changed {doc doc' : Document} (h : ChangesField names name (fun _ d => d = v) doc doc') :
    SetsField names name v doc doc'
  | added (before after : List (Option String × Document))
    (h : ∀ e ∈ before ++ after, e.1 ≠ some name) :
    SetsField names name v (.mapping (before ++ after)) (.mapping (before ++ (some name, v) :: after))

end Document

namespace Decoder
open Document
variable {α : Type} {d : Decoder α} {r : Reading} {names : List String} {name other : String}
  {R : Document → Document → Prop} {doc doc' v : Document} {f : Fields} {n : Nat}

/-- The entries under known names. -/
def knownEntries (names : List String) (entries : List (Option String × Document)) :
    List (String × Document) :=
  entries.filterMap fun e => e.1.bind fun key => if key ∈ names then some (key, e.2) else none

theorem knownEntries_append (before after : List (Option String × Document)) :
    knownEntries names (before ++ after) = knownEntries names before ++ knownEntries names after :=
  List.filterMap_append

theorem knownEntries_cons (hname : name ∈ names) (d : Document)
    (after : List (Option String × Document)) :
    knownEntries names ((some name, d) :: after) = (name, d) :: knownEntries names after :=
  List.filterMap_cons_some (if_pos hname)

theorem key_of_mem_knownEntries {entries : List (Option String × Document)}
    {e : String × Document} (h : e ∈ knownEntries names entries) :
    ∃ e' ∈ entries, e'.1 = some e.1 := by
  obtain ⟨⟨key, x⟩, he', hkey⟩ := List.mem_filterMap.1 h
  obtain ⟨key, rfl, hkey⟩ := Option.bind_eq_some_iff.1 hkey
  split at hkey
  · cases hkey
    exact ⟨_, he', rfl⟩
  · cases hkey

theorem known?_eq_some_iff {entries : List (Option String × Document)}
    {found : List (String × Document)} :
    known? names entries = some found ↔ (∀ e ∈ entries, e.1 ≠ none) ∧
      found = knownEntries names entries ∧ (OrderedMap.keys found).Nodup := by
  induction entries generalizing found with
  | nil =>
      refine ⟨fun h => ?_, fun h => ?_⟩
      · cases h
        exact ⟨List.forall_mem_nil _, rfl, List.nodup_nil⟩
      · obtain ⟨-, rfl, -⟩ := h
        rfl
  | cons e entries ih =>
      obtain ⟨key, x⟩ := e
      cases key with
      | none =>
          refine ⟨fun h => ?_, fun h => absurd rfl (h.1 _ List.mem_cons_self)⟩
          cases h
      | some key =>
          change ((known? names entries).bind fun found =>
            if key ∈ names then
              if OrderedMap.has key found then none else some ((key, x) :: found)
            else some found) = some found ↔ _
          have hkeys : (∀ e ∈ (some key, x) :: entries, e.1 ≠ none) ↔ ∀ e ∈ entries, e.1 ≠ none := by
            simp
          rw [Option.bind_eq_some_iff, hkeys]
          by_cases hk : key ∈ names
          · simp only [hk, if_true, knownEntries_cons hk, ih]
            constructor
            · rintro ⟨_, ⟨hall, rfl, hn⟩, h⟩
              cases hhas : OrderedMap.has key (knownEntries names entries) with
              | true => simp [hhas] at h
              | false =>
                  rw [hhas] at h
                  cases h
                  exact ⟨hall, rfl, List.nodup_cons.2 ⟨OrderedMap.has_eq_false_iff.1 hhas, hn⟩⟩
            · rintro ⟨hall, rfl, hn⟩
              obtain ⟨hnew, hn⟩ := List.nodup_cons.1 hn
              exact ⟨_, ⟨hall, rfl, hn⟩, by rw [OrderedMap.has_eq_false_iff.2 hnew]; rfl⟩
          · have hentries : knownEntries names ((some key, x) :: entries) =
                knownEntries names entries :=
              List.filterMap_cons_none (if_neg hk)
            simp [hk, hentries, ih]

/-- The same fields, but for another document under one name. -/
structure Fields.DiffersAt (f g : Fields) (name : String) (v : Document) : Prop where
  reading : g.reading = f.reading
  changed : OrderedMap.find? name g.entries = some v
  others : ∀ other, other ≠ name → OrderedMap.find? other g.entries = OrderedMap.find? other f.entries

namespace Fields.DiffersAt
variable {g : Fields}

theorem orElse_changed (h : f.DiffersAt g name v) (fallback : α) (d : Decoder α) :
    g.orElse name fallback d = d f.reading v := by
  rw [orElse, h.changed, h.reading]

theorem orElse (h : f.DiffersAt g name v) (hn : other ≠ name) (fallback : α) (d : Decoder α) :
    g.orElse other fallback d = f.orElse other fallback d := by
  rw [Fields.orElse, Fields.orElse, h.others other hn, h.reading]

theorem maybe (h : f.DiffersAt g name v) (hn : other ≠ name) (d : Decoder α) :
    g.maybe other d = f.maybe other d :=
  h.orElse hn none _

end Fields.DiffersAt

section Entries
variable {b a : List (String × Document)}

theorem not_mem_keys_left (h : name ∉ OrderedMap.keys (b ++ a)) : name ∉ OrderedMap.keys b := by
  rw [OrderedMap.keys, List.map_append] at h
  exact h ∘ List.mem_append_left _

theorem find?_middle (hb : name ∉ OrderedMap.keys b) (v : Document) :
    OrderedMap.find? name (b ++ (name, v) :: a) = some v := by
  rw [OrderedMap.find?_append, OrderedMap.find?_eq_none_of_not_mem_keys hb, Option.none_or,
    OrderedMap.find?, if_pos rfl]

/-- A name that is nowhere before is found where it is, and every other one where it was. -/
theorem differsAt_of_entries (old : List (String × Document)) (hb : name ∉ OrderedMap.keys b)
    (ho : ∀ e ∈ old, e.1 = name) (r : Reading) (v : Document) :
    Fields.DiffersAt ⟨r, b ++ (old ++ a)⟩ ⟨r, b ++ (name, v) :: a⟩ name v where
  reading := rfl
  changed := find?_middle hb v
  others other hn := by
    have hold : OrderedMap.find? other old = none :=
      OrderedMap.find?_eq_none_iff.2 fun e he => ho e he ▸ Ne.symm hn
    rw [OrderedMap.find?_append, OrderedMap.find?_append, OrderedMap.find?_append, hold,
      Option.none_or, OrderedMap.find?, if_neg (Ne.symm hn)]

theorem differsAt_of_entry (hb : name ∉ OrderedMap.keys b) (r : Reading) (d v : Document) :
    Fields.DiffersAt ⟨r, b ++ (name, d) :: a⟩ ⟨r, b ++ (name, v) :: a⟩ name v :=
  differsAt_of_entries [(name, d)] hb (List.forall_mem_singleton.2 rfl) r v

theorem nodup_keys_middle {v : Document} :
    (OrderedMap.keys (b ++ (name, v) :: a)).Nodup ↔
      name ∉ OrderedMap.keys (b ++ a) ∧ (OrderedMap.keys (b ++ a)).Nodup := by
  simp only [OrderedMap.keys, List.map_append, List.map_cons]
  rw [List.nodup_middle, List.nodup_cons]

end Entries

theorem record_mapping (names : List String) (n : Nat)
    (entries : List (Option String × Document)) :
    record names ⟨.json, n + 1⟩ (.mapping entries) =
      (known? names entries).map (Fields.mk ⟨.json, n⟩) := by
  change (known? names entries).bind _ = _
  cases known? names entries <;> rfl

theorem record_sequence (names : List String) (n : Nat) (items : List Document) :
    record names ⟨.json, n + 1⟩ (.sequence items) =
      if names.length < items.length then none else some ⟨⟨.json, n⟩, names.zip items⟩ := by
  simp [record, Reading.inner?]

/-- A mapping is read with a name set if it is read without it. -/
theorem known?_set {before after : List (Option String × Document)} (hname : name ∈ names)
    (hall : ∀ e ∈ before ++ after, e.1 ≠ none)
    (hnew : name ∉ OrderedMap.keys (knownEntries names before ++ knownEntries names after))
    (hn : (OrderedMap.keys (knownEntries names before ++ knownEntries names after)).Nodup)
    (v : Document) :
    known? names (before ++ (some name, v) :: after) =
      some (knownEntries names before ++ (name, v) :: knownEntries names after) := by
  rw [known?_eq_some_iff, knownEntries_append, knownEntries_cons hname, nodup_keys_middle]
  refine ⟨fun e he => ?_, rfl, hnew, hn⟩
  obtain he | he := List.mem_append.1 he
  · exact hall e (List.mem_append_left _ he)
  · obtain rfl | he := List.mem_cons.1 he
    · exact Option.some_ne_none name
    · exact hall e (List.mem_append_right _ he)

theorem exists_append_of_getElem? {k : Nat} (h : names[k]? = some name) :
    ∃ front back, names = front ++ name :: back ∧ front.length = k := by
  obtain ⟨hk, hget⟩ := List.getElem?_eq_some_iff.1 h
  refine ⟨names.take k, names.drop (k + 1), ?_, List.length_take_of_le (Nat.le_of_lt hk)⟩
  rw [← hget, ← List.drop_eq_getElem_cons hk, List.take_append_drop]

/-- A record of JSON with one field changed is the same record but for that field. -/
theorem record_of_changesField (hn : names.Nodup) (hname : name ∈ names)
    (hc : ChangesField names name R doc doc') (h : record names ⟨.json, n + 1⟩ doc = some f) :
    f.reading = ⟨.json, n⟩ ∧ ∃ d d' g, R d d' ∧ OrderedMap.find? name f.entries = some d ∧
      record names ⟨.json, n + 1⟩ doc' = some g ∧ f.DiffersAt g name d' := by
  cases hc with
  | @named before after d d' hR =>
      rw [record_mapping] at h ⊢
      obtain ⟨found, hfound, rfl⟩ := Option.map_eq_some_iff.1 h
      obtain ⟨hall, rfl, hnodup⟩ := known?_eq_some_iff.1 hfound
      rw [knownEntries_append, knownEntries_cons hname] at hnodup ⊢
      obtain ⟨hnew, hrest⟩ := nodup_keys_middle.1 hnodup
      have hb := not_mem_keys_left hnew
      have hset := known?_set hname (fun e he => hall e (by
        obtain he | he := List.mem_append.1 he
        · exact List.mem_append_left _ he
        · exact List.mem_append_right _ (List.mem_cons_of_mem _ he))) hnew hrest d'
      exact ⟨rfl, d, d', _, hR, find?_middle hb d, by rw [hset]; rfl, differsAt_of_entry hb _ d d'⟩
  | @placed before after d d' hi hR =>
      rw [record_sequence] at h ⊢
      split at h
      · cases h
      next hlength =>
        cases h
        obtain ⟨front, back, rfl, hfront⟩ := exists_append_of_getElem? hi
        have hb : name ∉ OrderedMap.keys (front.zip before) := by
          rw [OrderedMap.keys, List.map_fst_zip (Nat.le_of_eq hfront)]
          exact (List.nodup_cons.1 (List.nodup_middle.1 hn)).1 ∘ List.mem_append_left back
        have hzip : ∀ x, (front ++ name :: back).zip (before ++ x :: after) =
            front.zip before ++ (name, x) :: back.zip after := fun x => List.zip_append hfront
        have hlength' : ¬ (front ++ name :: back).length < (before ++ d' :: after).length := by
          simpa using hlength
        rw [hzip, hzip, if_neg hlength']
        exact ⟨rfl, d, d', _, hR, find?_middle hb d, rfl, differsAt_of_entry hb _ d d'⟩

theorem record_of_setsField (hn : names.Nodup) (hname : name ∈ names)
    (hs : SetsField names name v doc doc') (h : record names ⟨.json, n + 1⟩ doc = some f) :
    f.reading = ⟨.json, n⟩ ∧ ∃ g, record names ⟨.json, n + 1⟩ doc' = some g ∧
      f.DiffersAt g name v := by
  cases hs with
  | changed hc =>
      obtain ⟨hr, _, _, g, rfl, -, hg, hdiffers⟩ := record_of_changesField hn hname hc h
      exact ⟨hr, g, hg, hdiffers⟩
  | @added before after hnew =>
      rw [record_mapping] at h ⊢
      obtain ⟨found, hfound, rfl⟩ := Option.map_eq_some_iff.1 h
      obtain ⟨hall, rfl, hnodup⟩ := known?_eq_some_iff.1 hfound
      have hkey : name ∉ OrderedMap.keys (knownEntries names (before ++ after)) := by
        intro hmem
        obtain ⟨e, he, rfl⟩ := List.mem_map.1 hmem
        obtain ⟨e', he', hkey⟩ := key_of_mem_knownEntries he
        exact hnew e' he' hkey
      rw [knownEntries_append] at hnodup hkey ⊢
      have hb := not_mem_keys_left hkey
      have hset := known?_set hname hall hkey hnodup v
      exact ⟨rfl, _, by rw [hset]; rfl, differsAt_of_entries [] hb nofun _ v⟩

theorem optional_of_changesField (hc : ChangesField names name R doc doc') (d : Decoder α)
    (r : Reading) :
    optional d r doc = (d r doc).map some ∧ optional d r doc' = (d r doc').map some := by
  cases hc <;> exact ⟨rfl, rfl⟩

theorem each_append (d : Decoder α) (r : Reading) (before after : List Document) :
    each d r (before ++ after) =
      (each d r before).bind fun xs => (each d r after).map fun ys => xs ++ ys := by
  induction before with
  | nil => simp [each]
  | cons x before ih =>
      simp only [List.cons_append, each, ih]
      cases d r x <;> cases each d r before <;> cases each d r after <;> rfl

theorem length_of_each {items : List Document} {xs : List α} (h : each d r items = some xs) :
    xs.length = items.length := by
  induction items generalizing xs with
  | nil =>
      cases h
      rfl
  | cons x items ih =>
      obtain ⟨y, -, h⟩ := Option.bind_eq_some_iff.1 h
      obtain ⟨ys, hys, h⟩ := Option.bind_eq_some_iff.1 h
      cases h
      rw [List.length_cons, List.length_cons, ih hys]

theorem list_of_changesItem {i : Nat} {xs : List α} (hc : ChangesItem i R doc doc')
    (h : list d ⟨.json, n + 1⟩ doc = some xs) :
    ∃ d₀ d₁ x, R d₀ d₁ ∧ d ⟨.json, n⟩ d₀ = some x ∧ xs[i]? = some x ∧
      list d ⟨.json, n + 1⟩ doc' = (d ⟨.json, n⟩ d₁).map fun y => xs.set i y := by
  cases hc with
  | @placed before after d₀ d₁ hi hR =>
      have heach : ∀ x, list d ⟨.json, n + 1⟩ (.sequence (before ++ x :: after)) =
        each d ⟨.json, n⟩ (before ++ x :: after) := fun _ => rfl
      rw [heach, each_append] at h ⊢
      obtain ⟨xs, hxs, h⟩ := Option.bind_eq_some_iff.1 h
      obtain ⟨zs, hzs, rfl⟩ := Option.map_eq_some_iff.1 h
      obtain ⟨x, hx, hzs⟩ := Option.bind_eq_some_iff.1 hzs
      obtain ⟨ys, hys, hzs⟩ := Option.bind_eq_some_iff.1 hzs
      cases hzs
      obtain rfl : xs.length = i := (length_of_each hxs).trans hi
      refine ⟨d₀, d₁, x, hR, hx, by simp, ?_⟩
      rw [hxs, Option.bind_some, each]
      cases d ⟨.json, n⟩ d₁ with
      | none => rfl
      | some y => simp [hys]

end Decoder

end Experiment

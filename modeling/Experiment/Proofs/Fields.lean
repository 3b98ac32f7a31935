import Experiment.Proofs.Decoding

/-!
# Records and their fields

A record is written slot by slot: each of its names with what is written under it, or nothing. A slot
shows a value if the value is read again from it; an empty slot does if its field may be left out and
then stands for that value.
-/

namespace Experiment

/-- The names of a record in order, with what is written under them. -/
abbrev Slots := List (String × Option Json)

namespace Slots

def fields (slots : Slots) : List (String × Json) :=
  slots.filterMap fun s => s.2.map fun v => (s.1, v)

theorem fields_append (s t : Slots) : fields (s ++ t) = fields s ++ fields t :=
  List.filterMap_append

theorem field_eq (name : String) (v : Json) : Json.field name v = fields [(name, some v)] := rfl

theorem fieldIf_eq (present : Bool) (name : String) (v : Json) :
    Json.fieldIf present name v = fields [(name, if present then some v else none)] := by
  cases present <;> rfl

theorem fieldMaybe_eq {α : Type} (name : String) (encode : α → Json) (x : Option α) :
    Json.fieldMaybe name encode x = fields [(name, x.map encode)] := by
  cases x <;> rfl

theorem textField_eq (name s : String) :
    Json.textField name s =
      fields [(name, if decide (s ≠ "") then some (.string s) else none)] :=
  fieldIf_eq _ _ _

theorem keys_fields_sublist (slots : Slots) :
    (OrderedMap.keys slots.fields).Sublist (slots.map Prod.fst) := by
  induction slots with
  | nil => exact .slnil
  | cons s slots ih =>
      obtain ⟨name, v⟩ := s
      cases v with
      | none => exact ih.cons _
      | some v => exact ih.cons_cons _

theorem find?_fields_of_not_mem {slots : Slots} {name : String} (h : name ∉ slots.map Prod.fst) :
    OrderedMap.find? name slots.fields = none := by
  induction slots with
  | nil => rfl
  | cons s slots ih =>
      obtain ⟨other, v⟩ := s
      simp only [List.map_cons, List.mem_cons, not_or] at h
      cases v with
      | none => exact ih h.2
      | some v =>
          change OrderedMap.find? name ((other, v) :: fields slots) = none
          rw [OrderedMap.find?, if_neg (Ne.symm h.1), ih h.2]

theorem find?_fields {slots : Slots} (hn : (slots.map Prod.fst).Nodup) {name : String}
    {v : Option Json} {i : Nat} (hi : slots[i]? = some (name, v)) :
    OrderedMap.find? name slots.fields = v := by
  induction slots generalizing i with
  | nil => simp at hi
  | cons s slots ih =>
      obtain ⟨other, u⟩ := s
      simp only [List.map_cons, List.nodup_cons] at hn
      cases i with
      | zero =>
          cases hi
          cases v with
          | none =>
              change OrderedMap.find? name (fields slots) = none
              exact find?_fields_of_not_mem hn.1
          | some v =>
              change OrderedMap.find? name ((name, v) :: fields slots) = some v
              rw [OrderedMap.find?, if_pos rfl]
      | succ i =>
          have hmem : name ∈ slots.map Prod.fst :=
            List.mem_map.2 ⟨_, List.mem_of_getElem? (List.getElem?_cons_succ ▸ hi), rfl⟩
          cases u with
          | none => exact ih hn.2 hi
          | some u =>
              have hne : other ≠ name := fun he => hn.1 (he ▸ hmem)
              change OrderedMap.find? name ((other, u) :: fields slots) = v
              rw [OrderedMap.find?, if_neg hne]
              exact ih hn.2 hi

end Slots

namespace Decoder
variable {α β : Type} {d : Decoder α} {encode : α → Json} {r : Reading} {n j k : Nat}

def documents (fs : List (String × Json)) : List (String × Document) :=
  fs.map fun f => (f.1, Document.ofJson f.2)

theorem find?_documents (name : String) (fs : List (String × Json)) :
    OrderedMap.find? name (documents fs) = (OrderedMap.find? name fs).map Document.ofJson := by
  induction fs with
  | nil => rfl
  | cons f fs ih =>
      change OrderedMap.find? name ((f.1, Document.ofJson f.2) :: documents fs) = _
      rw [OrderedMap.find?, OrderedMap.find?]
      split
      · rfl
      · exact ih

theorem keys_documents (fs : List (String × Json)) :
    OrderedMap.keys (documents fs) = OrderedMap.keys fs := by
  rw [OrderedMap.keys, OrderedMap.keys, documents, List.map_map]
  rfl

theorem known?_entriesOfJson {names : List String} {fs : List (String × Json)}
    (hn : (OrderedMap.keys fs).Nodup) (hk : ∀ name ∈ OrderedMap.keys fs, name ∈ names) :
    known? names (Document.entriesOfJson fs) = some (documents fs) := by
  induction fs with
  | nil => rfl
  | cons f fs ih =>
      simp only [OrderedMap.keys, List.map_cons, List.nodup_cons, List.forall_mem_cons] at hn hk
      have hfound := ih hn.2 hk.2
      have hnew : OrderedMap.has f.1 (documents fs) = false :=
        OrderedMap.has_eq_false_iff.2 (keys_documents fs ▸ hn.1)
      simp [Document.entriesOfJson, known?, hfound, hk.1, hnew]
      rfl

theorem exists_of_known? {names : List String} {entries : List (Option String × Document)}
    {found : List (String × Document)} (h : known? names entries = some found) :
    ∀ e ∈ found, ∃ e' ∈ entries, e'.2 = e.2 := by
  induction entries generalizing found with
  | nil =>
      cases h
      simp
  | cons e entries ih =>
      obtain ⟨key, doc⟩ := e
      obtain ⟨key', -, h⟩ := Option.bind_eq_some_iff.1 h
      obtain ⟨found', hf, h⟩ := Option.bind_eq_some_iff.1 h
      have hrest : ∀ e ∈ found', ∃ e' ∈ (key, doc) :: entries, e'.2 = e.2 := by
        intro e he
        obtain ⟨e', hmem, he'⟩ := ih hf e he
        exact ⟨e', List.mem_cons_of_mem _ hmem, he'⟩
      split at h
      next =>
        split at h
        next => cases h
        next =>
          cases h
          exact List.forall_mem_cons.2 ⟨⟨_, List.mem_cons_self, rfl⟩, hrest⟩
      next =>
        cases h
        exact hrest

/-- The fields were read from JSON text, with `n` more levels. -/
structure Fields.FromJson (f : Fields) (n : Nat) : Prop where
  reading : f.reading = ⟨.json, n⟩
  isJson : ∀ e ∈ f.entries, e.2.IsJson

theorem fromJson_of_named {names : List String} {doc : Document} {f : Fields} (hdoc : doc.IsJson)
    (h : named names ⟨.json, n + 1⟩ doc = some f) : f.FromJson n := by
  obtain ⟨⟨r, entries⟩, he, h⟩ := Option.bind_eq_some_iff.1 h
  obtain ⟨found, hf, h⟩ := Option.bind_eq_some_iff.1 h
  cases h
  cases hdoc with
  | mapping hentries =>
      cases he
      refine ⟨rfl, fun e hmem => ?_⟩
      obtain ⟨e', hmem', he'⟩ := exists_of_known? hf e hmem
      exact he' ▸ hentries e' hmem'
  | _ => cases he

theorem fromJson_of_record {names : List String} {doc : Document} {f : Fields} (hdoc : doc.IsJson)
    (h : record names ⟨.json, n + 1⟩ doc = some f) : f.FromJson n := by
  cases hdoc with
  | sequence hitems =>
      simp only [record] at h
      split at h
      next => cases h
      next =>
        cases h
        exact ⟨rfl, fun e hmem => hitems e.2 (List.of_mem_zip hmem).2⟩
  | mapping hentries => exact fromJson_of_named (.mapping hentries) h
  | _ => cases h

/-- What is written in a slot is read as `x`; if nothing is, `x` is what a missing field stands for. -/
structure Shows (d : Decoder α) (r : Reading) (missing : Option α) (slot : Option Json) (x : α) :
    Prop where
  gives : ∀ v, slot = some v → d.Gives r v x
  absent : slot = none → missing = some x

namespace Fields.FromJson
variable {f : Fields} {name : String} {x missing : α}

theorem gives_of_find? (hf : f.FromJson (n + k)) (hd : Restores d encode k) {doc : Document}
    (hfind : OrderedMap.find? name f.entries = some doc) (h : d f.reading doc = some x) :
    d.Gives ⟨.json, n + k⟩ (encode x) x := by
  rw [hf.reading] at h
  exact hd n doc x (hf.isJson _ (OrderedMap.mem_of_find? hfind)) h

theorem required (hf : f.FromJson (n + k)) (hd : Restores d encode k)
    (h : f.required name d = some x) :
    Shows d ⟨.json, n + k⟩ none (some (encode x)) x := by
  rw [Fields.required] at h
  split at h
  next hfind => exact ⟨by rintro _ ⟨⟩; exact hf.gives_of_find? hd hfind h, nofun⟩
  next => cases h

theorem always (hf : f.FromJson (n + k)) (hd : Restores d encode k)
    (h : f.orElse name missing d = some x)
    (hm : ∃ doc, doc.IsJson ∧ d ⟨.json, n + k⟩ doc = some missing) :
    Shows d ⟨.json, n + k⟩ (some missing) (some (encode x)) x := by
  refine ⟨?_, nofun⟩
  rintro _ ⟨⟩
  rw [Fields.orElse] at h
  split at h
  next hfind => exact hf.gives_of_find? hd hfind h
  next =>
    cases h
    obtain ⟨doc, hdoc, hread⟩ := hm
    exact hd n doc _ hdoc hread

/-- A field that is left out if it says what a missing one says. -/
theorem unlessMissing (hf : f.FromJson (n + k)) (hd : Restores d encode k) (shown : Bool)
    (hs : shown = false ↔ x = missing) (h : f.orElse name missing d = some x) :
    Shows d ⟨.json, n + k⟩ (some missing) (if shown then some (encode x) else none) x := by
  cases shown with
  | false => exact ⟨nofun, fun _ => by rw [hs.1 rfl]⟩
  | true =>
      refine ⟨?_, nofun⟩
      rintro _ ⟨⟩
      rw [Fields.orElse] at h
      split at h
      next hfind => exact hf.gives_of_find? hd hfind h
      next =>
        cases h
        cases hs.2 rfl

theorem unlessNone {d : Decoder (Option α)} {x : Option α} (hf : f.FromJson (n + k))
    (hd : RestoresSome d encode k) (h : f.orElse name none d = some x) :
    Shows d ⟨.json, n + k⟩ (some none) (x.map encode) x := by
  cases x with
  | none => exact ⟨nofun, fun _ => rfl⟩
  | some x =>
      refine ⟨?_, nofun⟩
      rintro _ ⟨⟩
      rw [Fields.orElse] at h
      split at h
      next hfind =>
        rw [hf.reading] at h
        exact hd n _ x (hf.isJson _ (OrderedMap.mem_of_find? hfind)) h
      next => cases h

theorem text {missing x : String} (hf : f.FromJson (n + k))
    (h : f.orElse name missing Decoder.text = some x) :
    Shows Decoder.text ⟨.json, n + k⟩ (some missing) (some (.string x)) x :=
  hf.always (restores_text.mono k.zero_le) h ⟨.string missing, .string missing, rfl⟩

theorem textField {x : String} (hf : f.FromJson (n + k))
    (h : f.orElse name "" Decoder.text = some x) :
    Shows Decoder.text ⟨.json, n + k⟩ (some "")
      (if decide (x ≠ "") then some (.string x) else none) x :=
  hf.unlessMissing (restores_text.mono k.zero_le) (decide (x ≠ "")) (by simp) h

theorem maybeText {x : Option String} (hf : f.FromJson (n + k))
    (h : f.maybe name Decoder.text = some x) :
    Shows (optional Decoder.text) ⟨.json, n + k⟩ (some none) (x.map Json.string) x :=
  hf.unlessNone ((restores_text.mono k.zero_le).optional nofun) h

end Fields.FromJson

/-- Each slot is found under its name. -/
structure Fields.Hold (f : Fields) (slots : Slots) (n : Nat) : Prop where
  reading : f.reading = ⟨.json, n⟩
  find : ∀ (i : Nat) (name : String) (v : Option Json), slots[i]? = some (name, v) →
    OrderedMap.find? name f.entries = v.map Document.ofJson

/-- A way to read the fields of records with these names. -/
structure Opens (names : List String) (read : Reading → Document → Option Fields) : Prop where
  fromJson : ∀ {n : Nat} {doc : Document} {f : Fields}, doc.IsJson →
    read ⟨.json, n + 1⟩ doc = some f → f.FromJson n
  hold : ∀ {slots : Slots}, slots.map Prod.fst = names → ∀ n : Nat,
    ∃ f, read ⟨.json, n + 1⟩ (Document.ofJson (.object slots.fields)) = some f ∧ f.Hold slots n

theorem opens_named {names : List String} (hn : names.Nodup) : Opens names (named names) := by
  refine ⟨fromJson_of_named, fun {slots} hs n => ?_⟩
  subst hs
  have hsub := slots.keys_fields_sublist
  have hknown := known?_entriesOfJson (hn.sublist hsub) fun name h => hsub.subset h
  refine ⟨⟨⟨.json, n⟩, documents slots.fields⟩, ?_, rfl, fun i name v hi => ?_⟩
  · change (known? _ (Document.entriesOfJson slots.fields)).bind _ = _
    rw [hknown]
    rfl
  · rw [find?_documents, Slots.find?_fields hn hi]

theorem opens_record {names : List String} (hn : names.Nodup) : Opens names (record names) :=
  ⟨fromJson_of_record, (opens_named hn).hold⟩

namespace Shows
variable {f : Fields} {slots : Slots} {name : String} {v : Option Json} {x missing : α}

theorem isJson {missing : Option α} (h : Shows d r missing v x) :
    ∀ u, v = some u → (Document.ofJson u).IsJson :=
  fun u hu => (h.gives u hu).1

theorem required (h : Shows d ⟨.json, n⟩ none v x) (hf : f.Hold slots n) (i : Nat)
    (hi : slots[i]? = some (name, v)) : f.required name d = some x := by
  rw [Fields.required, hf.find i name v hi, hf.reading]
  cases v with
  | none => cases h.absent rfl
  | some v => exact (h.gives v rfl).2

theorem orElse (h : Shows d ⟨.json, n⟩ (some missing) v x) (hf : f.Hold slots n) (i : Nat)
    (hi : slots[i]? = some (name, v)) : f.orElse name missing d = some x := by
  rw [Fields.orElse, hf.find i name v hi, hf.reading]
  cases v with
  | none => exact h.absent rfl
  | some v => exact (h.gives v rfl).2

end Shows

theorem isJson_fields {slots : Slots}
    (h : ∀ s ∈ slots, ∀ v, s.2 = some v → (Document.ofJson v).IsJson) :
    (Document.ofJson (.object slots.fields)).IsJson := by
  refine .mapping (Document.isJson_of_mem_entriesOfJson.2 fun f hf => ?_)
  obtain ⟨s, hs, hsf⟩ := List.mem_filterMap.1 hf
  obtain ⟨v, hv, rfl⟩ := Option.map_eq_some_iff.1 hsf
  exact h s hs v hv

/-- A record is restored if its fields are: what is built from any fields is built again from those
that hold its slots. -/
theorem restores_fields {names : List String} {read : Reading → Document → Option Fields}
    {build : Fields → Option α} (ho : Opens names read)
    (hd : d = fun r doc => (read r doc).bind build)
    (h : ∀ n f x, f.FromJson (n + k) → build f = some x →
      ∃ slots : Slots, encode x = .object slots.fields ∧ slots.map Prod.fst = names ∧
        (∀ s ∈ slots, ∀ v, s.2 = some v → (Document.ofJson v).IsJson) ∧
        ∀ g : Fields, g.Hold slots (n + k) → build g = some x) :
    Restores d encode (k + 1) := by
  intro n doc x hdoc hx
  subst hd
  obtain ⟨f, hf, hx⟩ := Option.bind_eq_some_iff.1 hx
  obtain ⟨slots, he, hs, hjson, hbuild⟩ := h n f x (ho.fromJson hdoc hf) hx
  obtain ⟨g, hg, hhold⟩ := ho.hold hs (n + k)
  rw [he]
  refine ⟨isJson_fields hjson, ?_⟩
  change (read ⟨.json, n + k + 1⟩ _).bind build = _
  rw [hg, Option.bind_some, hbuild g hhold]

end Decoder

end Experiment

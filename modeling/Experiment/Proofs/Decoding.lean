import Experiment.Decoder
import Experiment.Json.Encoder
import Experiment.Proofs.Json.Document

/-!
# Decoding what is written

A decoder restores a type if whatever it makes of a JSON document it makes again of what is written
of it. Every kind of decoder does so if its parts do. A record is written as the parts that its
fields contribute, at most one entry each; a field that is left out has to stand for what it is read
as where it is missing. Levels are counted: a value is written with no more of them than it was read
with, but a field may be filled in that was not there, so a record needs some to spare.
-/

namespace Experiment

namespace Decoder
variable {α β : Type} {d : Decoder α} {encode : α → Json} {r : Reading} {n j k : Nat}

/-- Said of a bind as it stands, so that it is taken apart from the outside. -/
theorem bind_eq_some_iff {x : Option α} {f : α → Option β} {b : β} :
    (x >>= f) = some b ↔ ∃ a, x = some a ∧ f a = some b :=
  Option.bind_eq_some_iff

/-- The document of `v` is one of JSON text, and is read as `x`. -/
def Gives (d : Decoder α) (r : Reading) (v : Json) (x : α) : Prop :=
  (Document.ofJson v).IsJson ∧ d r (Document.ofJson v) = some x

/-- With `k` levels to spare, what is read is read again from what is written of it. -/
def Restores (d : Decoder α) (encode : α → Json) (k : Nat) : Prop :=
  ∀ n doc x, doc.IsJson → d ⟨.json, n + k⟩ doc = some x → d.Gives ⟨.json, n + k⟩ (encode x) x

theorem Restores.mono (h : Restores d encode j) (hk : j ≤ k) : Restores d encode k := by
  intro n doc x hdoc hx
  have hlevels : n + k = n + (k - j) + j := by omega
  rw [hlevels] at hx ⊢
  exact h _ doc x hdoc hx

section Scalars

theorem gives_text (r : Reading) (s : String) : text.Gives r (.string s) s :=
  ⟨.string s, rfl⟩

theorem restores_text : Restores text .string 0 := by
  intro n doc s hdoc h
  exact gives_text _ s

theorem restores_bool : Restores bool .bool 0 := by
  intro n doc b hdoc h
  exact ⟨.bool b, rfl⟩

theorem restores_number : Restores number .number 0 := by
  intro n doc x hdoc h
  cases doc with
  | number m =>
      cases h
      exact ⟨hdoc, rfl⟩
  | _ => cases h

theorem restores_natBelow {bound : Nat} (hb : bound ≤ 0x10000000000000000) :
    Restores (natBelow bound) Json.ofNat 0 := by
  intro n doc x hdoc h
  cases hdoc with
  | @int i hi =>
      simp only [natBelow] at h
      split at h
      next hc =>
        cases h
        simp only [Bool.and_eq_true, decide_eq_true_eq] at hc
        have hi' : ((i.toNat : Nat) : Int) = i := Int.toNat_of_nonneg hc.1
        refine ⟨.int ?_, ?_⟩
        · simp only [Number.fits, Bool.and_eq_true, decide_eq_true_eq]
          omega
        · simp only [Json.ofNat, Document.ofJson, natBelow, hi', hc, decide_true, Bool.and_self,
            if_true]
      next => cases h
  | _ => cases h

theorem restores_name {names : List (String × α)} {spell : α → String}
    (h : ∀ x, OrderedMap.find? (spell x) names = some x) :
    Restores (name names) (fun x => .string (spell x)) 0 := by
  intro n doc x _ _
  exact ⟨.string _, h x⟩

end Scalars

section Sequences

theorem each_itemsOfJson {xs : List α} (h : ∀ x ∈ xs, d.Gives r (encode x) x) :
    each d r (Document.itemsOfJson (xs.map encode)) = some xs := by
  induction xs with
  | nil => rfl
  | cons x xs ih =>
      obtain ⟨hx, hxs⟩ := List.forall_mem_cons.1 h
      simp [Document.itemsOfJson, each, hx.2, ih hxs]

theorem exists_of_each {items : List Document} {xs : List α} (h : each d r items = some xs) :
    ∀ x ∈ xs, ∃ doc ∈ items, d r doc = some x := by
  induction items generalizing xs with
  | nil =>
      cases h
      simp
  | cons doc items ih =>
      obtain ⟨x, hx, h⟩ := Option.bind_eq_some_iff.1 h
      obtain ⟨xs', hxs, h⟩ := Option.bind_eq_some_iff.1 h
      cases h
      refine List.forall_mem_cons.2 ⟨⟨doc, List.mem_cons_self, hx⟩, fun y hy => ?_⟩
      obtain ⟨doc', hmem, hdoc'⟩ := ih hxs y hy
      exact ⟨doc', List.mem_cons_of_mem _ hmem, hdoc'⟩

theorem eachEntry_entriesOfJson {m : OrderedMap α} (h : ∀ p ∈ m, d.Gives r (encode p.2) p.2) :
    eachEntry d r (Document.entriesOfJson (OrderedMap.mapValues encode m)) = some m := by
  induction m with
  | nil => rfl
  | cons p m ih =>
      obtain ⟨hp, hm⟩ := List.forall_mem_cons.1 h
      have ih := ih hm
      simp only [OrderedMap.mapValues] at ih
      simp [OrderedMap.mapValues, Document.entriesOfJson, eachEntry, hp.2, ih]

theorem exists_of_eachEntry {entries : List (Option String × Document)} {m : List (String × α)}
    (h : eachEntry d r entries = some m) : ∀ p ∈ m, ∃ e ∈ entries, d r e.2 = some p.2 := by
  induction entries generalizing m with
  | nil =>
      cases h
      simp
  | cons e entries ih =>
      obtain ⟨key, doc⟩ := e
      obtain ⟨key', -, h⟩ := Option.bind_eq_some_iff.1 h
      obtain ⟨x, hx, h⟩ := Option.bind_eq_some_iff.1 h
      obtain ⟨m', hm, h⟩ := Option.bind_eq_some_iff.1 h
      cases h
      refine List.forall_mem_cons.2 ⟨⟨_, List.mem_cons_self, hx⟩, fun p hp => ?_⟩
      obtain ⟨e', hmem, he'⟩ := ih hm p hp
      exact ⟨e', List.mem_cons_of_mem _ hmem, he'⟩

theorem gives_array {xs : List α} (h : ∀ x ∈ xs, d.Gives ⟨.json, n⟩ (encode x) x) :
    (list d).Gives ⟨.json, n + 1⟩ (.array (xs.map encode)) xs := by
  refine ⟨.sequence ?_, each_itemsOfJson h⟩
  rw [Document.isJson_of_mem_itemsOfJson, List.forall_mem_map]
  exact fun x hx => (h x hx).1

theorem gives_object {m : OrderedMap α} (hm : (OrderedMap.keys m).Nodup)
    (h : ∀ p ∈ m, d.Gives ⟨.json, n⟩ (encode p.2) p.2) :
    (dictionary d).Gives ⟨.json, n + 1⟩ (.object (OrderedMap.mapValues encode m)) m := by
  refine ⟨.mapping ?_, ?_⟩
  · rw [Document.isJson_of_mem_entriesOfJson, OrderedMap.mapValues, List.forall_mem_map]
    exact fun p hp => (h p hp).1
  · have heach := eachEntry_entriesOfJson h
    change (eachEntry d ⟨.json, n⟩ _).bind _ = _
    rw [heach, Option.bind_some, OrderedMap.ofPairs_eq_self hm]
    rfl

theorem Restores.list (h : Restores d encode k) :
    Restores (Decoder.list d) (fun xs => .array (xs.map encode)) (k + 1) := by
  intro n doc xs hdoc hxs
  cases hdoc with
  | sequence hitems =>
      refine gives_array fun x hx => ?_
      obtain ⟨doc, hmem, hd⟩ := exists_of_each (r := ⟨.json, n + k⟩) hxs x hx
      exact h n doc x (hitems doc hmem) hd
  | _ => cases hxs

theorem Restores.dictionary (h : Restores d encode k) :
    Restores (Decoder.dictionary d) (Json.dictionary encode) (k + 1) := by
  intro n doc m hdoc hm
  cases hdoc with
  | mapping hentries =>
      obtain ⟨pairs, hpairs, hm⟩ := Option.bind_eq_some_iff.1
        (show (eachEntry d ⟨.json, n + k⟩ _).bind _ = some m from hm)
      cases hm
      refine gives_object (OrderedMap.nodup_keys_ofPairs pairs) fun p hp => ?_
      obtain ⟨e, hmem, hd⟩ := exists_of_eachEntry hpairs p (OrderedMap.mem_of_mem_ofPairs hp)
      exact h n e.2 p.2 (hentries e hmem) hd
  | _ => cases hm

end Sequences

section Values

theorem itemsToJson?_eq_each (levels : Nat) (items : List Document) :
    Document.itemsToJson? levels items = each value ⟨.json, levels⟩ items := by
  induction items with
  | nil => rfl
  | cons doc items ih =>
      rw [Document.itemsToJson?, each, ih]
      rfl

theorem entriesToJson?_eq_eachEntry (levels : Nat) (entries : List (Option String × Document)) :
    Document.entriesToJson? levels entries = eachEntry value ⟨.json, levels⟩ entries := by
  induction entries with
  | nil => rfl
  | cons e entries ih =>
      rw [Document.entriesToJson?, eachEntry, ih]
      rfl

theorem gives_value_array {xs : List Json} (h : ∀ x ∈ xs, value.Gives ⟨.json, n⟩ x x) :
    value.Gives ⟨.json, n + 1⟩ (.array xs) (.array xs) := by
  have hid : xs.map id = xs := List.map_id xs
  have heach : ∀ x ∈ xs, value.Gives ⟨.json, n⟩ (id x) x := h
  refine ⟨.sequence (Document.isJson_of_mem_itemsOfJson.2 fun x hx => (h x hx).1), ?_⟩
  change (Document.itemsToJson? n _).map _ = _
  rw [itemsToJson?_eq_each, ← hid, each_itemsOfJson heach, hid]
  rfl

theorem gives_value_strings (n : Nat) (xs : List String) :
    value.Gives ⟨.json, n + 1⟩ (Json.strings xs) (Json.strings xs) := by
  refine gives_value_array fun v hv => ?_
  obtain ⟨s, -, rfl⟩ := List.mem_map.1 hv
  exact ⟨.string s, rfl⟩

theorem entriesToJson?_entriesOfJson {fs : OrderedMap Json}
    (h : ∀ f ∈ fs, value.Gives ⟨.json, n⟩ f.2 f.2) :
    Document.entriesToJson? n (Document.entriesOfJson fs) = some fs := by
  have hid : OrderedMap.mapValues id fs = fs := List.map_id fs
  have h : ∀ f ∈ fs, value.Gives ⟨.json, n⟩ (id f.2) f.2 := h
  rw [entriesToJson?_eq_eachEntry, ← eachEntry_entriesOfJson h, hid]

theorem gives_value_object {fs : OrderedMap Json} (hn : (OrderedMap.keys fs).Nodup)
    (h : ∀ f ∈ fs, value.Gives ⟨.json, n⟩ f.2 f.2) :
    value.Gives ⟨.json, n + 1⟩ (.object fs) (.object fs) := by
  refine ⟨.mapping (Document.isJson_of_mem_entriesOfJson.2 fun f hf => (h f hf).1), ?_⟩
  change (Document.entriesToJson? n _).map _ = _
  rw [entriesToJson?_entriesOfJson h, Option.map_some, OrderedMap.ofPairs_eq_self hn]

theorem gives_value {doc : Document} (hdoc : doc.IsJson) (levels : Nat) (v : Json)
    (h : doc.toJson? levels = some v) : value.Gives ⟨.json, levels⟩ v v := by
  induction hdoc generalizing levels v with
  | null =>
      cases h
      exact ⟨.null, rfl⟩
  | bool b =>
      cases h
      exact ⟨.bool b, rfl⟩
  | int hi =>
      cases h
      exact ⟨.int hi, rfl⟩
  | float bits =>
      cases h
      exact ⟨.float bits, rfl⟩
  | string s =>
      cases h
      exact ⟨.string s, rfl⟩
  | unreadable => cases h
  | sequence hitems ih =>
      cases levels with
      | zero => cases h
      | succ levels =>
          rw [Document.toJson?, itemsToJson?_eq_each] at h
          obtain ⟨xs, hxs, rfl⟩ := Option.map_eq_some_iff.1 h
          refine gives_value_array fun x hx => ?_
          obtain ⟨doc, hmem, hd⟩ := exists_of_each hxs x hx
          exact ih doc hmem levels x hd
  | mapping hentries ih =>
      cases levels with
      | zero => cases h
      | succ levels =>
          rw [Document.toJson?, entriesToJson?_eq_eachEntry] at h
          obtain ⟨fs, hfs, rfl⟩ := Option.map_eq_some_iff.1 h
          refine gives_value_object (OrderedMap.nodup_keys_ofPairs fs) fun f hf => ?_
          obtain ⟨e, hmem, hd⟩ := exists_of_eachEntry hfs f (OrderedMap.mem_of_mem_ofPairs hf)
          exact ih e hmem levels f.2 hd

theorem restores_value : Restores value id 0 := by
  intro n doc v hdoc h
  exact gives_value hdoc _ v h

theorem restores_array : Restores (list value) Json.array 1 := by
  have hid : (fun xs : List Json => Json.array (xs.map id)) = Json.array := by
    funext xs
    rw [List.map_id]
  exact hid ▸ restores_value.list

theorem restores_object : Restores (dictionary value) Json.object 1 := by
  have hid : Json.dictionary (id : Json → Json) = Json.object := by
    funext fs
    exact congrArg Json.object (List.map_id fs)
  exact hid ▸ restores_value.dictionary

end Values

section Options

def RestoresSome (d : Decoder (Option α)) (encode : α → Json) (k : Nat) : Prop :=
  ∀ n doc x, doc.IsJson → d ⟨.json, n + k⟩ doc = some (some x) →
    d.Gives ⟨.json, n + k⟩ (encode x) (some x)

theorem RestoresSome.mono {d : Decoder (Option α)} (h : RestoresSome d encode j) (hk : j ≤ k) :
    RestoresSome d encode k := by
  intro n doc x hdoc hx
  have hlevels : n + k = n + (k - j) + j := by omega
  rw [hlevels] at hx ⊢
  exact h _ doc x hdoc hx

theorem optional_ofJson {v : Json} (hv : v ≠ .null) :
    optional d r (Document.ofJson v) = (d r (Document.ofJson v)).map some := by
  cases v with
  | null => exact absurd rfl hv
  | _ => rfl

theorem Gives.optional {v : Json} {x : α} (h : d.Gives r v x) (hv : v ≠ .null) :
    (Decoder.optional d).Gives r v (some x) :=
  ⟨h.1, by rw [optional_ofJson hv, h.2, Option.map_some]⟩

theorem eq_some_of_optional {doc : Document} {x : α} (h : optional d r doc = some (some x)) :
    isAbsent doc = false ∧ d r doc = some x := by
  simp only [optional] at h
  split at h
  next => cases h
  next habsent =>
    split at h
    next => cases h
    next =>
      obtain ⟨y, hy, hxy⟩ := Option.map_eq_some_iff.1 h
      cases hxy
      exact ⟨Bool.eq_false_iff.2 habsent, hy⟩

theorem Restores.optional (h : Restores d encode k) (hn : ∀ x, encode x ≠ .null) :
    RestoresSome (Decoder.optional d) encode k := by
  intro n doc x hdoc hx
  exact (h n doc x hdoc (eq_some_of_optional hx).2).optional (hn x)

/-- A null is no value, so a value that is there is none. -/
theorem restoresSome_value : RestoresSome (Decoder.optional value) id 0 := by
  intro n doc v hdoc hv
  obtain ⟨habsent, hv⟩ := eq_some_of_optional hv
  refine (gives_value hdoc _ v hv).optional ?_
  rintro rfl
  cases hdoc with
  | null => cases habsent
  | unreadable => cases hv
  | sequence _ => exact absurd hv (by cases n + 0 <;> simp [value, Document.toJson?])
  | mapping _ => exact absurd hv (by cases n + 0 <;> simp [value, Document.toJson?])
  | _ => cases hv

theorem RestoresSome.orNull {d : Decoder α} (h : RestoresSome (Decoder.optional d) encode k) :
    Restores (Decoder.optional d) (Json.orNull encode) k := by
  intro n doc x hdoc hx
  cases x with
  | none => exact ⟨.null, rfl⟩
  | some x => exact h n doc x hdoc hx

end Options

end Decoder

end Experiment

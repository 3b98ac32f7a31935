/-!
# Maps in order of declaration

`OrderedMap α` lists its pairs in the order in which their keys first came. `insert` gives a known
key its new value in place and puts a new key last.
-/

namespace Experiment

abbrev OrderedMap (α : Type) := List (String × α)

namespace OrderedMap
variable {α β : Type}

def find? (key : String) : OrderedMap α → Option α
  | [] => none
  | (k, v) :: rest => if k = key then some v else find? key rest

def insert (key : String) (value : α) : OrderedMap α → OrderedMap α
  | [] => [(key, value)]
  | (k, v) :: rest => if k = key then (k, value) :: rest else (k, v) :: insert key value rest

def remove (key : String) : OrderedMap α → OrderedMap α
  | [] => []
  | (k, v) :: rest => if k = key then rest else (k, v) :: remove key rest

/-- The last pair comes to the place of the one that is taken out. -/
def swapRemove (key : String) : OrderedMap α → OrderedMap α
  | [] => []
  | (k, v) :: rest =>
    if k = key then
      match rest.getLast? with
      | none => []
      | some last => last :: rest.dropLast
    else (k, v) :: swapRemove key rest

def keys (m : OrderedMap α) : List String :=
  m.map Prod.fst

def has (key : String) (m : OrderedMap α) : Bool :=
  (find? key m).isSome

/-- The pairs of `extra` go in one by one. -/
def extend (m extra : OrderedMap α) : OrderedMap α :=
  extra.foldl (fun acc p => insert p.1 p.2 acc) m

/-- A repeated key keeps its first place and its last value. -/
def ofPairs (pairs : List (String × α)) : OrderedMap α :=
  extend [] pairs

def mapValues (f : α → β) (m : OrderedMap α) : OrderedMap β :=
  m.map fun p => (p.1, f p.2)

@[simp] theorem find?_nil (key : String) : find? key ([] : OrderedMap α) = none := rfl

theorem find?_append (key : String) (m extra : OrderedMap α) :
    find? key (m ++ extra) = (find? key m).or (find? key extra) := by
  induction m with
  | nil => rfl
  | cons p rest ih =>
    rw [List.cons_append, find?, find?, ih]
    split <;> rfl

theorem find?_eq_none_iff {key : String} {m : OrderedMap α} :
    find? key m = none ↔ ∀ p ∈ m, p.1 ≠ key := by
  induction m with
  | nil => simp
  | cons p rest ih =>
    rw [find?, List.forall_mem_cons, ← ih]
    by_cases h : p.1 = key <;> simp [h]

theorem find?_eq_none_of_not_mem_keys {key : String} {m : OrderedMap α} (h : key ∉ keys m) :
    find? key m = none :=
  find?_eq_none_iff.2 fun _ hp he => h (he ▸ List.mem_map_of_mem hp)

theorem has_eq_false_iff {key : String} {m : OrderedMap α} :
    has key m = false ↔ key ∉ keys m := by
  refine ⟨fun h hk => ?_, fun h => by rw [has, find?_eq_none_of_not_mem_keys h]; rfl⟩
  obtain ⟨p, hp, he⟩ := List.mem_map.1 hk
  exact find?_eq_none_iff.1 (Option.isSome_eq_false_iff.1 h |> Option.isNone_iff_eq_none.1) p hp he

@[simp] theorem find?_insert_self (key : String) (value : α) (m : OrderedMap α) :
    find? key (insert key value m) = some value := by
  induction m with
  | nil => simp [insert, find?]
  | cons p rest ih =>
    by_cases h : p.1 = key <;> simp [insert, find?, h, ih]

theorem find?_insert_of_ne {key other : String} (value : α) (m : OrderedMap α)
    (h : other ≠ key) : find? other (insert key value m) = find? other m := by
  induction m with
  | nil => simp [insert, find?, Ne.symm h]
  | cons p rest ih =>
    by_cases hk : p.1 = key
    · simp [insert, find?, hk, Ne.symm h]
    · by_cases ho : p.1 = other <;> simp [insert, find?, hk, ho, ih, h]

theorem mem_of_find? {key : String} {value : α} {m : OrderedMap α}
    (h : find? key m = some value) : (key, value) ∈ m := by
  induction m with
  | nil => cases h
  | cons p rest ih =>
    simp only [find?] at h
    split at h
    next hk =>
      cases h
      exact hk ▸ List.mem_cons_self
    next => exact List.mem_cons_of_mem _ (ih h)

theorem find?_of_mem {m : OrderedMap α} (hm : (keys m).Nodup) {p : String × α} (hp : p ∈ m) :
    find? p.1 m = some p.2 := by
  induction m with
  | nil => exact absurd hp List.not_mem_nil
  | cons q rest ih =>
    obtain ⟨hq, hrest⟩ := List.nodup_cons.1 hm
    rw [find?]
    obtain rfl | hp := List.mem_cons.1 hp
    · rw [if_pos rfl]
    · have hne : q.1 ≠ p.1 := fun he => hq (he ▸ List.mem_map_of_mem hp)
      rw [if_neg hne, ih hrest hp]

theorem find?_perm {m m' : OrderedMap α} (h : m.Perm m') (hm : (keys m).Nodup) (key : String) :
    find? key m = find? key m' := by
  have hm' : (keys m').Nodup := (h.map Prod.fst).nodup hm
  refine Option.ext fun v => ⟨fun hv => ?_, fun hv => ?_⟩
  · exact find?_of_mem hm' (h.mem_iff.1 (mem_of_find? hv))
  · exact find?_of_mem hm (h.mem_iff.2 (mem_of_find? hv))

theorem keys_insert_of_mem {key : String} (value : α) {m : OrderedMap α} (h : key ∈ keys m) :
    keys (insert key value m) = keys m := by
  induction m with
  | nil => simp [keys] at h
  | cons p rest ih =>
    by_cases hk : p.1 = key
    · simp [insert, keys, hk]
    · have hr : key ∈ keys rest := by
        simpa [keys, Ne.symm hk] using h
      have := ih hr
      simp only [keys] at this
      simp [insert, keys, hk, this]

theorem keys_insert_of_not_mem {key : String} (value : α) {m : OrderedMap α}
    (h : key ∉ keys m) : keys (insert key value m) = keys m ++ [key] := by
  induction m with
  | nil => rfl
  | cons p rest ih =>
    have hk : p.1 ≠ key := fun e => h (by simp [keys, e])
    have hr : key ∉ keys rest := fun e => h (by simp only [keys] at e; simp [keys, e])
    have := ih hr
    simp only [keys] at this
    simp [insert, keys, hk, this]

theorem insert_of_not_mem {key : String} (value : α) {m : OrderedMap α} (h : key ∉ keys m) :
    insert key value m = m ++ [(key, value)] := by
  induction m with
  | nil => rfl
  | cons p rest ih =>
    have hk : p.1 ≠ key := fun e => h (by simp [keys, e])
    have hr : key ∉ keys rest := fun e => h (by simp only [keys] at e; simp [keys, e])
    simp [insert, hk, ih hr]

theorem mem_insert {key : String} {value : α} {m : OrderedMap α} {p : String × α}
    (h : p ∈ insert key value m) : p = (key, value) ∨ p ∈ m := by
  induction m with
  | nil => exact .inl (List.mem_singleton.1 h)
  | cons q rest ih =>
    simp only [insert] at h
    split at h
    next hk =>
      obtain rfl | h := List.mem_cons.1 h
      · exact .inl (by rw [hk])
      · exact .inr (List.mem_cons_of_mem _ h)
    next =>
      obtain rfl | h := List.mem_cons.1 h
      · exact .inr List.mem_cons_self
      · exact (ih h).imp_right (List.mem_cons_of_mem _)

theorem nodup_keys_insert (key : String) (value : α) {m : OrderedMap α} (h : (keys m).Nodup) :
    (keys (insert key value m)).Nodup := by
  by_cases hk : key ∈ keys m
  · rwa [keys_insert_of_mem value hk]
  · rw [keys_insert_of_not_mem value hk, List.nodup_append]
    exact ⟨h, by simp, fun a ha b hb => by rintro rfl; simp_all⟩

theorem nodup_keys_extend {m : OrderedMap α} (h : (keys m).Nodup) (extra : OrderedMap α) :
    (keys (extend m extra)).Nodup := by
  induction extra generalizing m with
  | nil => exact h
  | cons p rest ih => exact ih (nodup_keys_insert p.1 p.2 h)

theorem nodup_keys_ofPairs (pairs : List (String × α)) : (keys (ofPairs pairs)).Nodup :=
  nodup_keys_extend (m := []) List.nodup_nil pairs

theorem mem_extend {m extra : OrderedMap α} {p : String × α} (h : p ∈ extend m extra) :
    p ∈ m ∨ p ∈ extra := by
  induction extra generalizing m with
  | nil => exact .inl h
  | cons q rest ih =>
    obtain h | h := ih h
    · obtain rfl | h := mem_insert h
      · exact .inr List.mem_cons_self
      · exact .inl h
    · exact .inr (List.mem_cons_of_mem _ h)

theorem mem_of_mem_ofPairs {pairs : List (String × α)} {p : String × α} (h : p ∈ ofPairs pairs) :
    p ∈ pairs :=
  (mem_extend h).resolve_left List.not_mem_nil

theorem extend_of_nodup {m extra : OrderedMap α} (h : (keys (m ++ extra)).Nodup) :
    extend m extra = m ++ extra := by
  induction extra generalizing m with
  | nil => exact (List.append_nil m).symm
  | cons p rest ih =>
    have hp : p.1 ∉ keys m := by
      simp only [keys, List.map_append, List.map_cons, List.nodup_append] at h
      exact fun hm => h.2.2 p.1 hm p.1 List.mem_cons_self rfl
    have happ : m ++ p :: rest = insert p.1 p.2 m ++ rest := by
      rw [insert_of_not_mem p.2 hp, List.append_assoc]
      rfl
    rw [happ]
    exact ih (happ ▸ h)

theorem remove_sublist (key : String) (m : OrderedMap α) : (remove key m).Sublist m := by
  induction m with
  | nil => exact List.Sublist.refl []
  | cons p rest ih =>
    by_cases hk : p.1 = key
    · simp [remove, hk]
    · simpa [remove, hk] using ih

theorem find?_remove_of_ne {key other : String} (m : OrderedMap α) (h : other ≠ key) :
    find? other (remove key m) = find? other m := by
  induction m with
  | nil => rfl
  | cons p rest ih =>
    by_cases hk : p.1 = key
    · simp [remove, find?, hk, Ne.symm h]
    · simp [remove, find?, hk, ih]

theorem swapRemove_perm (key : String) (m : OrderedMap α) :
    (swapRemove key m).Perm (remove key m) := by
  induction m with
  | nil => exact .nil
  | cons p rest ih =>
    by_cases hk : p.1 = key
    · cases hl : rest.getLast? with
      | none =>
        rw [List.getLast?_eq_none_iff] at hl
        simp [swapRemove, remove, hk, hl]
      | some last =>
        obtain ⟨front, rfl⟩ := List.getLast?_eq_some_iff.1 hl
        simp only [swapRemove, remove, hk, if_true, hl, List.dropLast_concat]
        exact (List.perm_append_singleton last front).symm
    · simp only [swapRemove, remove, hk, if_false]
      exact ih.cons p

theorem ofPairs_eq_self {m : OrderedMap α} (h : (keys m).Nodup) : ofPairs m = m :=
  extend_of_nodup h

end OrderedMap

end Experiment

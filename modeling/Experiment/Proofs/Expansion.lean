import Experiment.Sweep.Grid
import Mathlib.Algebra.BigOperators.Group.List.Basic

/-!
# The points of a grid

A grid is read by position, its points are the lexicographic product: of the lists in order of
declaration, the first one varying slowest. The place of a point tells which value of each list it
takes, as the digits of a number in a mixed radix. Expanding by position instead needs lists of one
length, and then takes them side by side.

There is a grid only if its columns can be allocated, and if no product of the lengths on the way
leaves its word where that is checked. Otherwise the program stops. It does not divide by zero as
long as the product of all lengths fits a word.
-/

namespace Experiment.Grid

/-- Every choice of one value each: for every value of the first parameter, all choices for the
others. -/
def product : HyperParams → List Parameters
  | [] => [[]]
  | (name, values) :: rest => values.flatMap fun v => (product rest).map ((name, v) :: ·)

/-- The product of the lengths. -/
def productSize : HyperParams → Nat
  | [] => 1
  | (_, values) :: rest => values.length * productSize rest

/-- The choice at a place, by the digits of the place. -/
def choice (i : Nat) : HyperParams → Parameters
  | [] => []
  | (name, values) :: rest =>
    (name, values.getD (i / productSize rest % values.length) .null) :: choice i rest

theorem productSize_eq_prod (hp : HyperParams) :
    productSize hp = (hp.map fun p => p.2.length).prod := by
  induction hp with
  | nil => rfl
  | cons p rest ih => rw [productSize, ih, List.map_cons, List.prod_cons]

theorem productSize_eq_zero {hp : HyperParams} : productSize hp = 0 ↔ ∃ p ∈ hp, p.2 = [] := by
  induction hp with
  | nil => simp [productSize]
  | cons p rest ih =>
      rw [productSize, Nat.mul_eq_zero, List.length_eq_zero_iff, ih]
      simp only [List.mem_cons, exists_eq_or_imp]

/-- A product of lengths on the way leaves its word. It may do so although a later list is empty. -/
def Overflows (hp : HyperParams) : Prop :=
  ∃ front, front <+: hp ∧ 2 ^ 64 ≤ productSize front

theorem wordBound_eq : wordBound = 2 ^ 64 := rfl

theorem allocationBound_eq : allocationBound = 2 ^ 63 := rfl

theorem times_of_lt {b : Build} {m n : Nat} (h : m * n < 2 ^ 64) : times b m n = .ok (m * n) :=
  if_pos h

theorem times_of_not_checks {b : Build} (hb : b.checks = false) (m n : Nat) :
    times b m n = .ok (m * n % 2 ^ 64) := by
  rw [times, wordBound_eq]
  split
  next h => rw [Nat.mod_eq_of_lt h]
  next => simp [hb]

theorem times_of_checks {b : Build} {m n : Nat} (hb : b.checks = true) (h : 2 ^ 64 ≤ m * n) :
    times b m n = .error .product := by
  rw [times, wordBound_eq, if_neg (Nat.not_lt.2 h), if_pos hb]

/-- Where no product on the way leaves its word, none wraps around. -/
theorem foldlM_times_of_lt (b : Build) {hp : HyperParams} {n : Nat}
    (h : ∀ front, front <+: hp → n * productSize front < 2 ^ 64) :
    hp.foldlM (fun size p => times b size p.2.length) n = .ok (n * productSize hp) := by
  induction hp generalizing n with
  | nil => exact congrArg Except.ok (Nat.mul_one n).symm
  | cons p rest ih =>
      have hfirst : n * p.2.length < 2 ^ 64 := by
        simpa [productSize] using h [p] (List.prefix_append [p] rest)
      have hrest : ∀ front, front <+: rest → n * p.2.length * productSize front < 2 ^ 64 := by
        intro front hf
        have := h (p :: front) ((List.prefix_cons_inj p).2 hf)
        rwa [productSize, ← Nat.mul_assoc] at this
      rw [List.foldlM_cons, times_of_lt hfirst, productSize, ← Nat.mul_assoc]
      exact ih hrest

theorem foldlM_times_of_not_checks {b : Build} (hb : b.checks = false) (hp : HyperParams) {n : Nat}
    (hn : n < 2 ^ 64) : hp.foldlM (fun size p => times b size p.2.length) n =
      .ok (n * productSize hp % 2 ^ 64) := by
  induction hp generalizing n with
  | nil =>
      rw [productSize, Nat.mul_one, Nat.mod_eq_of_lt hn]
      rfl
  | cons p rest ih =>
      rw [List.foldlM_cons, times_of_not_checks hb, productSize, ← Nat.mul_assoc,
        ← Nat.mod_mul_mod (n * p.2.length)]
      exact ih (Nat.mod_lt _ (by decide))

/-- The first product that leaves its word stops the program, if that is checked. -/
theorem foldlM_times_of_checks {b : Build} (hb : b.checks = true) {hp front : HyperParams} {n : Nat}
    (hn : n < 2 ^ 64) (hf : front <+: hp) (h : 2 ^ 64 ≤ n * productSize front) :
    hp.foldlM (fun size p => times b size p.2.length) n = .error .product := by
  induction hp generalizing n front with
  | nil =>
      obtain rfl := List.prefix_nil.1 hf
      exact absurd h (by simpa [productSize] using hn)
  | cons p rest ih =>
      rw [List.foldlM_cons]
      by_cases hp : n * p.2.length < 2 ^ 64
      · rw [times_of_lt hp]
        cases front with
        | nil => exact absurd h (by simpa [productSize] using hn)
        | cons q front =>
            obtain ⟨rfl, hrest⟩ := List.cons_prefix_cons.1 hf
            rw [productSize, ← Nat.mul_assoc] at h
            exact ih hp hrest h
      · rw [times_of_checks hb (Nat.le_of_not_lt hp)]
        rfl

/-- Where nothing is checked, a product that fits a word is not lost on the way, not even where a
later list is empty. -/
theorem pointCount_of_not_overflows {b : Build} {hp : HyperParams} (h : productSize hp < 2 ^ 64)
    (hb : b.checks = true → ¬ Overflows hp) : pointCount b hp = .ok (productSize hp) := by
  cases hc : b.checks with
  | false =>
      rw [pointCount, foldlM_times_of_not_checks hc hp (by decide), Nat.one_mul, Nat.mod_eq_of_lt h]
  | true =>
      have hlt : ∀ front, front <+: hp → 1 * productSize front < 2 ^ 64 := fun front hf =>
        Nat.lt_of_not_le fun hle => hb hc ⟨front, hf, by rwa [Nat.one_mul] at hle⟩
      rw [pointCount, foldlM_times_of_lt b hlt, Nat.one_mul]

theorem pointCount_of_overflows {b : Build} {hp : HyperParams} (hb : b.checks = true)
    (h : Overflows hp) : pointCount b hp = .error .product := by
  obtain ⟨front, hf, hle⟩ := h
  exact foldlM_times_of_checks hb (by decide) hf (by rwa [Nat.one_mul])

theorem length_product (hp : HyperParams) : (product hp).length = productSize hp := by
  induction hp with
  | nil => rfl
  | cons p rest ih =>
      simp only [product, productSize, List.length_flatMap, List.length_map, ih]
      rw [List.map_const', List.sum_replicate_nat]

theorem keys_of_mem_product {hp : HyperParams} {point : Parameters} (h : point ∈ product hp) :
    OrderedMap.keys point = OrderedMap.keys hp := by
  induction hp generalizing point with
  | nil =>
      obtain rfl := List.mem_singleton.1 h
      rfl
  | cons p rest ih =>
      obtain ⟨v, -, h⟩ := List.mem_flatMap.1 h
      obtain ⟨tail, ht, rfl⟩ := List.mem_map.1 h
      exact congrArg (p.1 :: ·) (ih ht)

/-- Blocks of one length are found by dividing the place by that length. -/
theorem getElem?_flatMap_of_length {α β : Type} {f : α → List β} {n : Nat}
    (hf : ∀ a, (f a).length = n) (hn : 0 < n) (xs : List α) (i : Nat) :
    (xs.flatMap f)[i]? = xs[i / n]?.bind fun a => (f a)[i % n]? := by
  induction xs generalizing i with
  | nil => rfl
  | cons a xs ih =>
      rw [List.flatMap_cons]
      by_cases hi : i < n
      · rw [List.getElem?_append_left (by rwa [hf]), Nat.div_eq_of_lt hi, Nat.mod_eq_of_lt hi]
        rfl
      · have hle : n ≤ i := Nat.le_of_not_lt hi
        rw [List.getElem?_append_right (by rwa [hf]), hf, ih, Nat.div_eq_sub_div hn hle,
          Nat.mod_eq_sub_mod hle]
        rfl

theorem choice_mod (hp : HyperParams) (i : Nat) : choice (i % productSize hp) hp = choice i hp := by
  induction hp generalizing i with
  | nil => rfl
  | cons p rest ih =>
      obtain ⟨name, values⟩ := p
      have hdigit : i % (values.length * productSize rest) / productSize rest % values.length =
          i / productSize rest % values.length := by
        rw [Nat.mul_comm, Nat.mod_mul_right_div_self, Nat.mod_mod]
      have htail : i % (values.length * productSize rest) % productSize rest =
          i % productSize rest :=
        Nat.mod_mul_left_mod i values.length (productSize rest)
      rw [choice, choice, productSize, hdigit, ← ih (i % _), htail, ih]

theorem getElem?_product {hp : HyperParams} {i : Nat} (hi : i < productSize hp) :
    (product hp)[i]? = some (choice i hp) := by
  induction hp generalizing i with
  | nil =>
      obtain rfl : i = 0 := Nat.lt_one_iff.1 hi
      rfl
  | cons p rest ih =>
      obtain ⟨name, values⟩ := p
      have hpos : 0 < productSize rest := Nat.pos_of_ne_zero fun h => by simp [productSize, h] at hi
      have hdigit : i / productSize rest < values.length := (Nat.div_lt_iff_lt_mul hpos).2 hi
      have hlength : ∀ v : Json, ((product rest).map ((name, v) :: ·)).length = productSize rest :=
        fun v => by rw [List.length_map, length_product]
      rw [product, getElem?_flatMap_of_length hlength hpos, List.getElem?_eq_getElem hdigit,
        Option.bind_some, List.getElem?_map, ih (Nat.mod_lt i hpos), choice_mod, choice,
        Nat.mod_eq_of_lt hdigit, List.getD_eq_getElem?_getD, List.getElem?_eq_getElem hdigit]
      rfl

/-- The columns as they should be: a value stands as often as there are choices for the parameters
after it. -/
def fullColumns (size : Nat) : HyperParams → HyperParams
  | [] => []
  | (name, values) :: rest =>
    (name, columnOf size (productSize rest) values) :: fullColumns size rest

theorem row_fullColumns {size i : Nat} (hi : i < size) (hp : HyperParams) :
    OrderedMap.mapValues (fun values => values.getD i .null) (fullColumns size hp) =
      choice i hp := by
  induction hp with
  | nil => rfl
  | cons p rest ih =>
      rw [OrderedMap.mapValues] at ih
      simp only [fullColumns, choice, OrderedMap.mapValues, List.map_cons, ih]
      simp [columnOf, List.getD_eq_getElem?_getD, List.getElem?_range hi]

theorem length_of_mem_fullColumns {size : Nat} {hp : HyperParams} :
    ∀ column ∈ fullColumns size hp, column.2.length = size := by
  induction hp with
  | nil => simp [fullColumns]
  | cons p rest ih => exact List.forall_mem_cons.2 ⟨by simp [columnOf], ih⟩

theorem point?_fullColumns (hp : HyperParams) (i : Nat) :
    point? ⟨fullColumns (productSize hp) hp, productSize hp⟩ i = (product hp)[i]? := by
  by_cases hi : i < productSize hp
  · rw [getElem?_product hi, ← row_fullColumns hi]
    exact if_pos hi
  · rw [List.getElem?_eq_none (by rw [length_product]; exact Nat.le_of_not_lt hi)]
    exact if_neg hi

/-- What is known of the stride above, with which the columns are begun. -/
def IsStride (size above : Nat) (hp : HyperParams) : Prop :=
  size ≠ 0 → above = productSize hp ∧ 0 < above

section Stride
variable {size above : Nat} {name : String} {values : List Json} {rest : HyperParams}

theorem IsStride.of_empty (h : IsStride size above ((name, []) :: rest)) : size = 0 :=
  Decidable.byContradiction fun hs => by
    obtain ⟨rfl, hpos⟩ := h hs
    simp [productSize] at hpos

/-- Each stride is the number of choices for the parameters after its column. -/
theorem IsStride.next (h : IsStride size above ((name, values) :: rest)) (hv : 0 < values.length) :
    IsStride size (above / values.length) rest := fun hs => by
  obtain ⟨rfl, hpos⟩ := h hs
  rw [productSize, Nat.mul_div_cancel_left _ hv]
  exact ⟨rfl, Nat.pos_of_mul_pos_left hpos⟩

theorem IsStride.columnOf (h : IsStride size above rest) (values : List Json) :
    columnOf size above values = columnOf size (productSize rest) values := by
  refine List.map_congr_left fun i hi => ?_
  rw [(h (Nat.ne_of_gt (Nat.zero_lt_of_lt (List.mem_range.1 hi)))).1]

end Stride

/-- Where there is any row at all, no list is empty and no stride is zero. -/
theorem gridColumns_eq {hp : HyperParams} {size above : Nat} (h : IsStride size above hp) :
    gridColumns size above hp = .ok (fullColumns size hp) := by
  induction hp generalizing above with
  | nil => rfl
  | cons p rest ih =>
      obtain ⟨name, values⟩ := p
      cases values with
      | nil =>
          obtain rfl := h.of_empty
          rw [gridColumns, if_pos (by rfl), ih fun hs => absurd rfl hs]
          rfl
      | cons v values =>
          have hnext := h.next (Nat.succ_pos _)
          have hstride : ¬ (0 < size ∧ above / (v :: values).length = 0) := fun hs =>
            Nat.ne_of_gt (hnext (Nat.ne_of_gt hs.1)).2 hs.2
          rw [gridColumns, if_neg (by simp), if_neg hstride, ih hnext, hnext.columnOf]
          rfl

theorem keys_of_gridColumns {hp columns : HyperParams} {size above : Nat}
    (h : gridColumns size above hp = .ok columns) : OrderedMap.keys columns = OrderedMap.keys hp := by
  induction hp generalizing above columns with
  | nil =>
      cases h
      rfl
  | cons p rest ih =>
      obtain ⟨name, values⟩ := p
      rw [gridColumns] at h
      split at h
      · cases hr : gridColumns size above rest with
        | error e => simp [hr] at h
        | ok others =>
            rw [hr] at h
            cases h
            exact congrArg (name :: ·) (ih hr)
      · split at h
        · cases h
        · cases hr : gridColumns size (above / values.length) rest with
          | error e => simp [hr] at h
          | ok others =>
              rw [hr] at h
              cases h
              exact congrArg (name :: ·) (ih hr)

/-- Quotient and remainder, if there are any. -/
def divide? (a b : Nat) : Option (Nat × Nat) :=
  if b = 0 then none else some (a / b, a % b)

/-- The value of a row, each division and the access to the list checked. -/
def checkedValue? (values : List Json) (stride i : Nat) : Option Json := do
  let (turn, _) ← divide? i stride
  let (_, digit) ← divide? turn values.length
  values[digit]?

/-- `gridColumns` with every division and every access to a list checked. -/
def checkedColumns (size : Nat) : Nat → HyperParams → Option HyperParams
  | _, [] => some []
  | above, (name, values) :: rest =>
    if values.isEmpty then (checkedColumns size above rest).map ((name, []) :: ·)
    else do
      let (stride, _) ← divide? above values.length
      let column ← (List.range size).mapM (checkedValue? values stride)
      return (name, column) :: (← checkedColumns size stride rest)

theorem divide?_of_pos {a b : Nat} (h : 0 < b) : divide? a b = some (a / b, a % b) :=
  if_neg (Nat.ne_of_gt h)

theorem checkedValue?_eq {values : List Json} {stride : Nat} (hlen : 0 < values.length)
    (hstride : 0 < stride) (i : Nat) :
    checkedValue? values stride i = some (values.getD (i / stride % values.length) .null) := by
  have hdigit := Nat.mod_lt (i / stride) hlen
  simp [checkedValue?, divide?_of_pos hstride, divide?_of_pos hlen, List.getD_eq_getElem?_getD,
    List.getElem?_eq_getElem hdigit]

theorem mapM_eq_some_map {α β : Type} {f : α → Option β} {g : α → β} {xs : List α}
    (h : ∀ a ∈ xs, f a = some (g a)) : xs.mapM f = some (xs.map g) := by
  induction xs with
  | nil => rfl
  | cons a xs ih =>
      rw [List.mapM_cons, h a List.mem_cons_self, ih fun b hb => h b (List.mem_cons_of_mem _ hb)]
      rfl

theorem checkedColumns_eq {hp : HyperParams} {size above : Nat} (h : IsStride size above hp) :
    checkedColumns size above hp = some (fullColumns size hp) := by
  induction hp generalizing above with
  | nil => rfl
  | cons p rest ih =>
      obtain ⟨name, values⟩ := p
      cases values with
      | nil =>
          obtain rfl := h.of_empty
          rw [checkedColumns, if_pos (by rfl), ih fun hs => absurd rfl hs]
          rfl
      | cons v values =>
          have hlen : 0 < (v :: values).length := Nat.succ_pos _
          have hnext := h.next hlen
          have hcolumn : (List.range size).mapM
              (checkedValue? (v :: values) (above / (v :: values).length)) =
              some (columnOf size (above / (v :: values).length) (v :: values)) := by
            refine mapM_eq_some_map fun i hi => ?_
            have hs : size ≠ 0 := Nat.ne_of_gt (Nat.zero_lt_of_lt (List.mem_range.1 hi))
            exact checkedValue?_eq hlen (hnext hs).2 i
          rw [checkedColumns, if_neg (by simp)]
          simp only [divide?_of_pos hlen, Option.bind_eq_bind, Option.bind_some, hcolumn, ih hnext,
            hnext.columnOf]
          rfl

/-- Nothing but a lack of memory keeps the grid from being made. -/
structure Fits (b : Build) (hp : HyperParams) : Prop where
  product : b.checks = true → ¬ Overflows hp
  capacity : hp ≠ [] → productSize hp * b.valueSize < 2 ^ 63

theorem expandGrid_of_fits {b : Build} {hp : HyperParams} (h : productSize hp < 2 ^ 64)
    (hf : Fits b hp) :
    expandGrid b hp = .ok ⟨fullColumns (productSize hp) hp, productSize hp⟩ := by
  cases hp with
  | nil => rfl
  | cons p rest =>
      have hstride : IsStride (productSize (p :: rest)) (productSize (p :: rest)) (p :: rest) :=
        fun hs => ⟨rfl, Nat.pos_of_ne_zero hs⟩
      have hcapacity := Nat.not_le.2 (hf.capacity (List.cons_ne_nil p rest))
      rw [expandGrid, if_neg (by simp), pointCount_of_not_overflows h hf.product]
      change (if _ then _ else _) = _
      rw [allocationBound_eq, if_neg hcapacity, gridColumns_eq hstride]
      rfl

theorem expandGrid_of_overflows {b : Build} {hp : HyperParams} (hb : b.checks = true)
    (h : Overflows hp) : expandGrid b hp = .error .product := by
  cases hp with
  | nil =>
      obtain ⟨front, hf, hle⟩ := h
      obtain rfl := List.prefix_nil.1 hf
      exact absurd hle (by decide)
  | cons p rest =>
      rw [expandGrid, if_neg (by simp), pointCount_of_overflows hb h]
      rfl

theorem expandGrid_of_capacity {b : Build} {hp : HyperParams} (h : productSize hp < 2 ^ 64)
    (hb : b.checks = true → ¬ Overflows hp) (hn : hp ≠ [])
    (hc : 2 ^ 63 ≤ productSize hp * b.valueSize) : expandGrid b hp = .error .capacity := by
  have hne : ¬ hp.isEmpty = true := fun he => hn (List.isEmpty_iff.1 he)
  rw [expandGrid, if_neg hne, pointCount_of_not_overflows h hb]
  exact if_pos hc

theorem expandList_eq_error {hp : HyperParams} {e : RunError} (h : expandList hp = .error e) :
    ∃ first before odd after, hp = first :: before ++ odd :: after ∧
      (∀ p ∈ before, p.2.length = first.2.length) ∧ odd.2.length ≠ first.2.length ∧
      e = .configuration (.unequalLists odd.1 odd.2.length first.2.length) := by
  cases hp with
  | nil => cases h
  | cons first rest =>
      cases hf : rest.find? fun p => p.2.length ≠ first.2.length with
      | none =>
          rw [expandList, hf] at h
          cases h
      | some odd =>
          rw [expandList, hf] at h
          obtain ⟨hodd, before, after, rfl, hbefore⟩ := List.find?_eq_some_iff_append.1 hf
          refine ⟨first, before, odd, after, rfl, fun p hp => ?_, by simpa using hodd, ?_⟩
          · simpa using hbefore p hp
          · cases h
            rfl

theorem expandList_eq_ok {hp : HyperParams} {g : Grid} (h : expandList hp = .ok g) :
    g.columns = hp ∧ (∀ p ∈ hp, p.2.length = g.size) ∧ (hp = [] → g.size = 1) := by
  cases hp with
  | nil =>
      cases h
      simp
  | cons first rest =>
      cases hf : rest.find? fun p => p.2.length ≠ first.2.length with
      | some odd =>
          rw [expandList, hf] at h
          cases h
      | none =>
          rw [expandList, hf] at h
          cases h
          have hall := List.find?_eq_none.1 hf
          simp only [decide_not, Bool.not_eq_true', decide_eq_false_iff_not, Decidable.not_not]
            at hall
          exact ⟨rfl, List.forall_mem_cons.2 ⟨rfl, hall⟩, by simp⟩

theorem isError_expandList (hp : HyperParams) :
    (∃ e, expandList hp = .error e) ↔ ∃ p ∈ hp, ∃ q ∈ hp, p.2.length ≠ q.2.length := by
  constructor
  · rintro ⟨e, h⟩
    obtain ⟨first, before, odd, after, rfl, -, hodd, -⟩ := expandList_eq_error h
    exact ⟨odd, by simp, first, by simp, hodd⟩
  · rintro ⟨p, hp, q, hq, hne⟩
    cases h : expandList _ with
    | error e => exact ⟨e, rfl⟩
    | ok g =>
        have hall := (expandList_eq_ok h).2.1
        exact absurd ((hall p hp).trans (hall q hq).symm) hne

theorem isSome_point? (g : Grid) (i : Nat) : (g.point? i).isSome ↔ i < g.size := by
  rw [point?]
  split <;> simp_all

theorem map_point?_fullColumns (hp : HyperParams) :
    (List.range (productSize hp)).map (point? ⟨fullColumns (productSize hp) hp, productSize hp⟩) =
      (product hp).map some := by
  refine List.ext_getElem? fun i => ?_
  rw [List.getElem?_map, List.getElem?_map, ← point?_fullColumns]
  by_cases hi : i < productSize hp
  · obtain ⟨point, hpoint⟩ := Option.isSome_iff_exists.1
      ((isSome_point? ⟨fullColumns (productSize hp) hp, productSize hp⟩ i).2 hi)
    rw [List.getElem?_range hi, Option.map_some, hpoint, Option.map_some]
  · rw [List.getElem?_eq_none (by simpa using hi), point?, if_neg hi]
    rfl

/-- The lists are taken side by side. -/
theorem point?_of_expandList {hp : HyperParams} {g : Grid} {i : Nat} {point : Parameters}
    (hg : expandList hp = .ok g) (hi : g.point? i = some point) :
    point.map (fun p => (p.1, some p.2)) = hp.map fun p => (p.1, p.2[i]?) := by
  obtain ⟨hcolumns, hall, -⟩ := expandList_eq_ok hg
  have hlt : i < g.size := (isSome_point? g i).1 (by rw [hi]; rfl)
  rw [point?, if_pos hlt, hcolumns] at hi
  obtain rfl := Option.some.inj hi
  rw [OrderedMap.mapValues, List.map_map]
  refine List.map_congr_left fun p hm => ?_
  have hp : i < p.2.length := (hall p hm).symm ▸ hlt
  simp [List.getD_eq_getElem?_getD, List.getElem?_eq_getElem hp]

theorem names_of_expandGrid {b : Build} {hp : HyperParams} {g : Grid}
    (h : expandGrid b hp = .ok g) : g.names = OrderedMap.keys hp := by
  rw [expandGrid] at h
  split at h
  next he =>
    cases h
    rw [List.isEmpty_iff.1 he]
    rfl
  next =>
    cases hc : pointCount b hp with
    | error e =>
        rw [hc] at h
        cases h
    | ok size =>
        rw [hc] at h
        change (if _ then _ else _) = _ at h
        split at h
        · cases h
        · cases hg : gridColumns size size hp with
          | error e => simp [hg] at h
          | ok columns =>
              rw [hg] at h
              cases h
              exact keys_of_gridColumns hg

theorem names_of_expand {hp : HyperParams} {strategy : Strategy} {g : Grid}
    (h : expand hp strategy = .ok g) : g.names = OrderedMap.keys hp := by
  cases strategy with
  | grid =>
      rw [expand] at h
      cases hg : expandGrid {} hp with
      | error e =>
          rw [hg] at h
          cases h
      | ok g' =>
          rw [hg] at h
          cases h
          exact names_of_expandGrid hg
  | list => rw [names, (expandList_eq_ok h).1]

theorem isSweep_of_expand {hp : HyperParams} {strategy : Strategy} {g : Grid}
    (hn : hp.isEmpty = false) (h : expand hp strategy = .ok g) : g.isSweep = true := by
  have hl := congrArg List.length (names_of_expand h)
  simp only [names, OrderedMap.keys, List.length_map] at hl
  rw [isSweep, Bool.not_eq_true', List.isEmpty_eq_false_iff, ← List.length_pos_iff, hl,
    List.length_pos_iff, ← List.isEmpty_eq_false_iff]
  exact hn

/-- A grid that fits has the points of the product in its order, each read from full columns; one
that does not fit stops the program. Expanding by position takes the lists side by side, or names
the first one that is not as long as the first. -/
theorem points_of_expansion (b : Build) (hp : HyperParams) :
    ((hp.map fun p => p.2.length).prod < 2 ^ 64 →
      (Fits b hp → ∃ g, expandGrid b hp = .ok g ∧
        g.size = (hp.map fun p => p.2.length).prod ∧
        (g.size = 0 ↔ ∃ p ∈ hp, p.2 = []) ∧
        (∀ i, (g.point? i).isSome ↔ i < g.size) ∧
        (List.range g.size).map g.point? = (product hp).map some ∧
        (∀ point ∈ product hp, OrderedMap.keys point = OrderedMap.keys hp) ∧
        (∀ column ∈ g.columns, column.2.length = g.size) ∧
        checkedColumns g.size g.size hp = some g.columns) ∧
      (b.checks = true → Overflows hp → expandGrid b hp = .error .product) ∧
      ((b.checks = true → ¬ Overflows hp) → hp ≠ [] → 2 ^ 63 ≤ productSize hp * b.valueSize →
        expandGrid b hp = .error .capacity)) ∧
    ((∃ e, expandList hp = .error e) ↔ ∃ p ∈ hp, ∃ q ∈ hp, p.2.length ≠ q.2.length) ∧
    (∀ e, expandList hp = .error e → ∃ first before odd after,
      hp = first :: before ++ odd :: after ∧ (∀ p ∈ before, p.2.length = first.2.length) ∧
      odd.2.length ≠ first.2.length ∧
      e = .configuration (.unequalLists odd.1 odd.2.length first.2.length)) ∧
    (∀ g, expandList hp = .ok g → (hp = [] → g.size = 1) ∧ (∀ p ∈ hp, p.2.length = g.size) ∧
      (∀ i, (g.point? i).isSome ↔ i < g.size) ∧
      ∀ i point, g.point? i = some point →
        point.map (fun p => (p.1, some p.2)) = hp.map fun p => (p.1, p.2[i]?)) := by
  rw [← productSize_eq_prod]
  refine ⟨fun hsize => ⟨fun hfits => ?_, expandGrid_of_overflows,
      fun hb hn => expandGrid_of_capacity hsize hb hn⟩,
    isError_expandList hp, fun _ => expandList_eq_error, fun g hg => ?_⟩
  · exact ⟨_, expandGrid_of_fits hsize hfits, rfl, productSize_eq_zero, isSome_point? _,
      map_point?_fullColumns hp, fun _ => keys_of_mem_product, length_of_mem_fullColumns,
      checkedColumns_eq fun hs => ⟨rfl, Nat.pos_of_ne_zero hs⟩⟩
  · obtain ⟨-, hall, hone⟩ := expandList_eq_ok hg
    exact ⟨hone, hall, isSome_point? g, fun i point => point?_of_expandList hg⟩

theorem points_of_expansion_two_lists :
    ∃ hp : HyperParams, hp = [("a", [.null, .bool true]), ("b", [Json.ofNat 1, Json.ofNat 2])] ∧
      (∃ g, expandGrid {} hp = .ok g ∧ g.size = 4 ∧
        (List.range g.size).map g.point? = (product hp).map some) ∧
      ∃ g, expandList hp = .ok g ∧ (g.point? 1).isSome ∧
        ∀ point, g.point? 1 = some point →
          point.map (fun p => (p.1, some p.2)) =
            [("a", some (.bool true)), ("b", some (Json.ofNat 2))] := by
  refine ⟨_, rfl, ?_⟩
  obtain ⟨hgrid, -, -, hlist⟩ := points_of_expansion {}
    [("a", [.null, .bool true]), ("b", [Json.ofNat 1, Json.ofNat 2])]
  obtain ⟨g, hg, hsize, -, -, hpoints, -⟩ := (hgrid (by decide)).1
    ⟨nofun, fun _ => by decide⟩
  obtain ⟨-, -, hsome, hpoint⟩ := hlist _ rfl
  exact ⟨⟨g, hg, hsize, hpoints⟩, _, rfl, (hsome 1).2 (by decide), fun point h => hpoint 1 point h⟩

/-- So many parameters of two values each. -/
def binaryChoices (n : Nat) : HyperParams :=
  (List.range n).map fun i => (toString i, [.null, .null])

/-- Sixty choices among two are counted by a word, but their values take more bytes than can be
allocated. -/
theorem too_many_points : ((binaryChoices 60).map fun p => p.2.length).prod = 2 ^ 60 ∧
    expandGrid {} (binaryChoices 60) = .error .capacity ∧
    expandGrid { checks := true } (binaryChoices 60) = .error .capacity := by
  have hprod : ((binaryChoices 60).map fun p => p.2.length).prod = 2 ^ 60 := by
    rw [binaryChoices, List.map_map, List.prod_eq_pow_card _ 2 (by simp)]
    simp
  exact ⟨hprod, rfl, rfl⟩

end Experiment.Grid

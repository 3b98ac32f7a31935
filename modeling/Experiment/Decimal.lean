/-!
# The fewest digits that read back

A positive binary number `m · 2 ^ q` is rounded to by an interval of reals. `Decimal.shortest`
gives the decimal with the fewest digits in that interval, of two such the nearer one, and of two
equally near ones the even one. `Decimal.Layout` says how the digits are then written.
-/

namespace Experiment

/-- The number `digits · 10 ^ exponent`. -/
structure Decimal where
  digits : Nat
  exponent : Int
deriving DecidableEq

namespace Decimal

/-- A finite double without its sign, as `mantissa · 2 ^ exponent`. -/
structure Binary where
  mantissa : Nat
  exponent : Int
  /-- The gap below is half of the gap above. -/
  narrowBelow : Bool

def Binary.ofBits (bits : UInt64) : Binary :=
  let e := ((bits >>> 52) &&& 0x7ff).toNat
  let f := (bits &&& 0xfffffffffffff).toNat
  if e = 0 then ⟨f, -1074, false⟩ else ⟨f + 0x10000000000000, (e : Int) - 1075, f = 0 && 1 < e⟩

/-- The numerator and denominator of `n · 2 ^ q`. -/
def scaleTwo (n : Nat) (q : Int) : Nat × Nat :=
  match q with
  | .ofNat k => (n * Nat.pow 2 k, 1)
  | .negSucc k => (n, Nat.pow 2 (k + 1))

def unscaleTen (r : Nat × Nat) (g : Int) : Nat × Nat :=
  match g with
  | .ofNat k => (r.1, r.2 * Nat.pow 10 k)
  | .negSucc k => (r.1 * Nat.pow 10 (k + 1), r.2)

/-- Is `4 · c` times the denominator within the interval around the value, in quarter units? -/
def inside (b : Binary) (g : Int) (c : Nat) : Bool :=
  let low := if b.narrowBelow then 4 * b.mantissa - 1 else 4 * b.mantissa - 2
  let high := 4 * b.mantissa + 2
  let lo := unscaleTen (scaleTwo low (b.exponent - 2)) g
  let hi := unscaleTen (scaleTwo high (b.exponent - 2)) g
  if b.mantissa % 2 = 0 then lo.1 ≤ c * lo.2 && c * hi.2 ≤ hi.1
  else lo.1 < c * lo.2 && c * hi.2 < hi.1

/-- The nearest point of the grid `10 ^ g` that rounds to the value, if there is one. -/
def onGrid? (b : Binary) (g : Int) : Option Nat :=
  let r := unscaleTen (scaleTwo b.mantissa b.exponent) g
  let below := r.1 / r.2
  let above := below + 1
  let twice := 2 * (r.1 - below * r.2)
  let nearBelow := twice < r.2 || (twice = r.2 && below % 2 = 0)
  let first := if nearBelow then below else above
  let second := if nearBelow then above else below
  if inside b g first then some first
  else if inside b g second then some second
  else none

/-- The largest `e` with `10 ^ e` at most the fraction, looked for from `e` downwards. -/
def magnitude (r : Nat × Nat) : Nat → Int → Int
  | 0, e => e
  | fuel + 1, e =>
    let s := unscaleTen r e
    if s.2 ≤ s.1 then e else magnitude r fuel (e - 1)

def search (b : Binary) (e : Int) : Nat → Nat → Decimal
  | 0, n => ⟨((onGrid? b (e + 1 - n)).getD 0), e + 1 - n⟩
  | fuel + 1, n =>
    match onGrid? b (e + 1 - n) with
    | some d => ⟨d, e + 1 - n⟩
    | none => search b e fuel (n + 1)

def stripZeros : Nat → Decimal → Decimal
  | 0, d => d
  | fuel + 1, d =>
    if d.digits ≠ 0 && d.digits % 10 = 0 then stripZeros fuel ⟨d.digits / 10, d.exponent + 1⟩ else d

/-- The shortest decimal of a finite double, its sign left out. -/
def shortest (bits : UInt64) : Decimal :=
  let b := Binary.ofBits bits
  if b.mantissa = 0 then ⟨0, 0⟩
  else
    let r := scaleTwo b.mantissa b.exponent
    stripZeros 20 (search b (magnitude r 650 310) 16 1)

structure Layout where
  /-- The mark between digits and a positive exponent. -/
  positiveMark : List Char
  /-- Numbers from `10 ^ lowest` are written without an exponent. -/
  lowest : Int
  /-- Numbers from `10 ^ highest` are written with an exponent. -/
  highest : Int

def digitChars (n : Nat) : List Char :=
  Nat.toDigits 10 n

/-- A point is kept in every number without an exponent, with one zero after it if need be. -/
def Layout.chars (l : Layout) (d : Decimal) : List Char :=
  let ds := digitChars d.digits
  let point : Int := ds.length + d.exponent
  if d.digits = 0 then ['0', '.', '0']
  else if l.lowest < point && point ≤ l.highest then
    if 0 ≤ d.exponent then ds ++ List.replicate d.exponent.toNat '0' ++ ['.', '0']
    else if 0 < point then ds.take point.toNat ++ '.' :: ds.drop point.toNat
    else '0' :: '.' :: (List.replicate (-point).toNat '0' ++ ds)
  else
    let e := point - 1
    let mark := if e < 0 then ['e', '-'] else l.positiveMark
    ds.take 1 ++ (if ds.length = 1 then [] else '.' :: ds.drop 1) ++ mark ++ digitChars e.natAbs

def Layout.write (l : Layout) (bits : UInt64) : List Char :=
  (if bits >>> 63 = 1 then ['-'] else []) ++ l.chars (shortest bits)

end Decimal

end Experiment

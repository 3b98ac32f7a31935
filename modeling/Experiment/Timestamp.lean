import Experiment.Text

/-!
# Moments in universal time

A moment is written as date, `T`, time and `Z`, with as many groups of three places of a second as
are needed. In a leap second the count of nanoseconds goes on beyond one second. The reader also
takes other offsets, fewer digits and blanks between the parts.
-/

namespace Experiment

/-- Seconds since the start of 1970 and nanoseconds, a thousand million or more of them in a leap
second. -/
structure Timestamp where
  seconds : Int
  nanos : Nat
deriving DecidableEq, Inhabited

namespace Timestamp

/-- Days since the start of 1970 of a date of the Gregorian calendar. -/
def daysOf (year : Int) (month day : Nat) : Int :=
  let y := if month ≤ 2 then year - 1 else year
  let era := y / 400
  let yoe := y - era * 400
  let m : Int := if 2 < month then month - 3 else month + 9
  let doy := (153 * m + 2) / 5 + day - 1
  let doe := yoe * 365 + yoe / 4 - yoe / 100 + doy
  era * 146097 + doe - 719468

def dateOf (days : Int) : Int × Nat × Nat :=
  let z := days + 719468
  let era := z / 146097
  let doe := z - era * 146097
  let yoe := (doe - doe / 1460 + doe / 36524 - doe / 146096) / 365
  let doy := doe - (365 * yoe + yoe / 4 - yoe / 100)
  let mp := (5 * doy + 2) / 153
  let day := doy - (153 * mp + 2) / 5 + 1
  let month := if mp < 10 then mp + 3 else mp - 9
  let year := yoe + era * 400 + (if month ≤ 2 then 1 else 0)
  (year, month.toNat, day.toNat)

def isLeap (year : Int) : Bool :=
  (year % 4 = 0 && year % 100 ≠ 0) || year % 400 = 0

def daysIn (year : Int) (month : Nat) : Nat :=
  if month = 2 then (if isLeap year then 29 else 28)
  else if month = 4 || month = 6 || month = 9 || month = 11 then 30 else 31

def pad (width n : Nat) : List Char :=
  let ds := Nat.toDigits 10 n
  List.replicate (width - ds.length) '0' ++ ds

def yearChars (year : Int) : List Char :=
  if 0 ≤ year && year ≤ 9999 then pad 4 year.toNat
  else (if year < 0 then '-' else '+') :: pad 4 year.natAbs

def fractionChars (nanos : Nat) : List Char :=
  if nanos = 0 then []
  else if nanos % 1000000 = 0 then '.' :: pad 3 (nanos / 1000000)
  else if nanos % 1000 = 0 then '.' :: pad 6 (nanos / 1000)
  else '.' :: pad 9 nanos

def chars (t : Timestamp) : List Char :=
  let days := t.seconds / 86400
  let rest := (t.seconds - days * 86400).toNat
  let (year, month, day) := dateOf days
  let extra := t.nanos / 1000000000
  yearChars year ++ '-' :: (pad 2 month ++ '-' :: (pad 2 day ++ 'T' :: (pad 2 (rest / 3600)
    ++ ':' :: (pad 2 (rest / 60 % 60) ++ ':' :: (pad 2 (rest % 60 + extra)
    ++ (fractionChars (t.nanos % 1000000000) ++ ['Z']))))))

def text (t : Timestamp) : String :=
  String.ofList t.chars

def digits? (width : Nat) (cs : List Char) : Option (Nat × List Char) :=
  let ds := (cs.take width).takeWhile Char.isDigit
  if ds.isEmpty then none
  else some (ds.foldl (fun n c => n * 10 + (c.toNat - '0'.toNat)) 0, cs.drop ds.length)

def field? (width : Nat) (cs : List Char) : Option (Nat × List Char) :=
  digits? width (Text.trimLeft cs)

def year? (cs : List Char) : Option (Int × List Char) :=
  match Text.trimLeft cs with
  | '-' :: rest => (digits? rest.length rest).map fun p => (-(p.1 : Int), p.2)
  | '+' :: rest => (digits? rest.length rest).map fun p => ((p.1 : Int), p.2)
  | cs => (digits? 4 cs).map fun p => ((p.1 : Int), p.2)

def mark? (mark : Char) (cs : List Char) : Option (List Char) :=
  match Text.trimLeft cs with
  | c :: rest => if c = mark then some rest else none
  | [] => none

/-- Nanoseconds after a point; places beyond the ninth are dropped. -/
def fraction? (cs : List Char) : Option (Nat × List Char) :=
  match cs with
  | '.' :: rest =>
    let ds := rest.takeWhile Char.isDigit
    if ds.isEmpty then none
    else
      let nine := ds.take 9
      let n := nine.foldl (fun n c => n * 10 + (c.toNat - '0'.toNat)) 0
      some (n * Nat.pow 10 (9 - nine.length), rest.drop ds.length)
  | cs => some (0, cs)

def twoDigits? (cs : List Char) : Option (Nat × List Char) :=
  match cs with
  | a :: b :: rest =>
    if a.isDigit && b.isDigit then
      some ((a.toNat - '0'.toNat) * 10 + (b.toNat - '0'.toNat), rest)
    else none
  | _ => none

/-- Seconds east of Greenwich, as `Z`, `UTC` or hours and minutes after a sign. -/
def offset? (cs : List Char) : Option (Int × List Char) :=
  match cs with
  | 'Z' :: rest => some (0, rest)
  | 'z' :: rest => some (0, rest)
  | a :: b :: c :: rest =>
    if a.toUpper = 'U' && b.toUpper = 'T' && c.toUpper = 'C' then some (0, rest)
    else if a = '+' || a = '-' || a = '\u2212' then do
      let (hours, rest) ← twoDigits? (b :: c :: rest)
      let (minutes, rest) ← twoDigits? (rest.dropWhile fun c => c = ':' || Text.isBlank c)
      if 59 < minutes then none
      let size : Int := hours * 3600 + minutes * 60
      return (if a = '+' then size else -size, rest)
    else none
  | _ => none

def minYear : Int := -262143

def maxYear : Int := 262142

def parse? (s : String) : Option Timestamp := do
  let (year, cs) ← year? s.toList
  let (month, cs) ← field? 2 (← mark? '-' cs)
  let (day, cs) ← field? 2 (← mark? '-' cs)
  let cs ← match cs with
    | c :: rest => if c = 'T' || c = 't' || c = ' ' then some rest else none
    | [] => none
  let (hour, cs) ← field? 2 cs
  let (minute, cs) ← field? 2 (← mark? ':' cs)
  let (second, cs) ← field? 2 (← mark? ':' cs)
  let (nanos, cs) ← fraction? cs
  let (offset, cs) ← offset? (Text.trimLeft cs)
  if !(Text.trimLeft cs).isEmpty then none
  if month < 1 || 12 < month || day < 1 || daysIn year month < day then none
  if 23 < hour || 59 < minute || 60 < second then none
  if offset ≤ -86400 || 86400 ≤ offset then none
  if year < minYear || maxYear < year then none
  let leap := second = 60
  let clock : Int := hour * 3600 + minute * 60 + (if leap then 59 else second)
  let seconds := daysOf year month day * 86400 + clock - offset
  let actual := (dateOf (seconds / 86400)).1
  if actual < minYear || maxYear < actual then none
  return ⟨seconds, if leap then nanos + 1000000000 else nanos⟩

end Timestamp

end Experiment

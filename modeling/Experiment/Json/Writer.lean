import Experiment.Decimal
import Experiment.Json.Basic

/-!
# JSON text

`Json.compact` writes a value without blanks; `Json.pretty` indents by two blanks and writes an
empty array as `[]` and an empty object as a pair of braces. Text beyond ASCII is left as it is;
quotes, backslashes and control characters are escaped.
-/

namespace Experiment.Json

/-- Plain digits from `1e-5` up to below `1e16`, else an exponent, a positive one with a plus. -/
def floatLayout : Decimal.Layout where
  positiveMark := ['e', '+']
  lowest := -5
  highest := 16

def intChars (i : Int) : List Char :=
  if i < 0 then '-' :: Decimal.digitChars i.natAbs else Decimal.digitChars i.natAbs

def numberChars : Number → List Char
  | .int i => intChars i
  | .float bits => floatLayout.write bits

def hexDigit (n : Nat) : Char :=
  Nat.digitChar n

def escapeChar (c : Char) : List Char :=
  if c = '"' then ['\\', '"']
  else if c = '\\' then ['\\', '\\']
  else if c = '\n' then ['\\', 'n']
  else if c = '\r' then ['\\', 'r']
  else if c = '\t' then ['\\', 't']
  else if c = '\x08' then ['\\', 'b']
  else if c = '\x0c' then ['\\', 'f']
  else if c.toNat < 0x20 then
    ['\\', 'u', '0', '0', hexDigit (c.toNat / 16), hexDigit (c.toNat % 16)]
  else [c]

def stringChars (s : String) : List Char :=
  '"' :: (s.toList.flatMap escapeChar ++ ['"'])

mutual
def chars : Json → List Char
  | .null => "null".toList
  | .bool true => "true".toList
  | .bool false => "false".toList
  | .number n => numberChars n
  | .string s => stringChars s
  | .array [] => ['[', ']']
  | .array (x :: xs) => '[' :: (chars x ++ itemsChars xs ++ [']'])
  | .object [] => ['{', '}']
  | .object ((k, v) :: fs) => '{' :: (stringChars k ++ ':' :: chars v ++ fieldsChars fs ++ ['}'])

def itemsChars : List Json → List Char
  | [] => []
  | x :: xs => ',' :: (chars x ++ itemsChars xs)

def fieldsChars : List (String × Json) → List Char
  | [] => []
  | (k, v) :: fs => ',' :: (stringChars k ++ ':' :: (chars v ++ fieldsChars fs))
end

def compact (v : Json) : String :=
  String.ofList v.chars

def newline (depth : Nat) : List Char :=
  '\n' :: List.replicate (2 * depth) ' '

mutual
def prettyChars (depth : Nat) : Json → List Char
  | .array [] => ['[', ']']
  | .array (x :: xs) =>
    '[' :: (newline (depth + 1) ++ prettyChars (depth + 1) x ++ prettyItems (depth + 1) xs
      ++ newline depth ++ [']'])
  | .object [] => ['{', '}']
  | .object ((k, v) :: fs) =>
    '{' :: (newline (depth + 1) ++ stringChars k ++ ':' :: ' ' :: prettyChars (depth + 1) v
      ++ prettyFields (depth + 1) fs ++ newline depth ++ ['}'])
  | .null => chars .null
  | .bool b => chars (.bool b)
  | .number n => numberChars n
  | .string s => stringChars s

def prettyItems (depth : Nat) : List Json → List Char
  | [] => []
  | x :: xs => ',' :: (newline depth ++ prettyChars depth x ++ prettyItems depth xs)

def prettyFields (depth : Nat) : List (String × Json) → List Char
  | [] => []
  | (k, v) :: fs =>
    ',' :: (newline depth ++ stringChars k ++ ':' :: ' ' :: prettyChars depth v
      ++ prettyFields depth fs)
end

def pretty (v : Json) : String :=
  String.ofList (prettyChars 0 v)

end Experiment.Json

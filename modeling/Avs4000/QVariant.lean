import Mathlib.Init

namespace Avs4000
set_option autoImplicit true

/-- A value of Qt's variant type. A number is given by what its conversions make of it. -/
inductive QVariant
  | invalid
  | null
  | bool (b : Bool)
  | number (nonzero : Bool) (uint : UInt32) (text : String)
  | string (s : String)
  | list (l : List QVariant)
  | map (m : List (String × QVariant))

namespace QVariant

def isValid : QVariant → Bool
  | invalid => false
  | _ => true

def isNull : QVariant → Bool
  | invalid | null => true
  | _ => false

/-- The test `type()==QVariant::Bool`. -/
def isBool : QVariant → Bool
  | bool _ => true
  | _ => false

/-- A JSON document holds an array or an object, and no text of another value parses to one. -/
def isDocument : QVariant → Bool
  | list _ | map _ => true
  | _ => false

def toBool : QVariant → Bool
  | bool b => b
  | number nonzero _ _ => nonzero
  | string s => !(["", "0", "false"].contains s.toLower)
  | _ => false

/-- The number a text of decimal digits stands for, with blanks around it and a sign in front. -/
def decimal (s : String) : Option Nat :=
  let cs := (s.toList.dropWhile Char.isWhitespace).reverse.dropWhile Char.isWhitespace |>.reverse
  let ds := if cs.head? = some '+' then cs.tail else cs
  if ds.isEmpty || !ds.all Char.isDigit then none
  else some (ds.foldl (fun n c => 10 * n + (c.toNat - '0'.toNat)) 0)

def toUInt : QVariant → UInt32
  | bool b => if b then 1 else 0
  | number _ uint _ => uint
  | string s =>
    match decimal s with
    | some n => if n < UInt64.size then UInt32.ofNat n else 0
    | none => 0
  | _ => 0

/-- The number a text stands for when it may be negative. No blank follows the minus sign. -/
def signedDecimal (s : String) : Option Int :=
  match s.toList.dropWhile Char.isWhitespace with
  | '-' :: c :: cs =>
    if c.isDigit then (decimal (String.ofList (c :: cs))).map fun n => -(n : Int) else none
  | _ => (decimal s).map Int.ofNat

def toInt : QVariant → Int32
  | bool b => if b then 1 else 0
  | number _ uint _ => uint.toInt32
  | string s =>
    match signedDecimal s with
    | some n => if Int64.minValue.toInt ≤ n ∧ n ≤ Int64.maxValue.toInt then Int32.ofInt n else 0
    | none => 0
  | _ => 0

def toString : QVariant → String
  | bool b => if b then "true" else "false"
  | number _ _ text => text
  | string s => s
  | _ => ""

def toList : QVariant → List QVariant
  | list l => l
  | _ => []

def toMap : QVariant → List (String × QVariant)
  | map m => m
  | _ => []

def ofUInt (n : UInt32) : QVariant := .number (n != 0) n (Nat.repr n.toNat)

end QVariant
end Avs4000

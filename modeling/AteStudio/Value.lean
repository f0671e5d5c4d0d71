import AteStudio.Lib.Dict

/-!
# Python values

The values that YAML and JSON documents hold. A finite float is its exact rational value.
-/

namespace AteStudio

def isPySpace (c : Char) : Bool :=
  let n := c.toNat
  (9 ≤ n && n ≤ 13) || (28 ≤ n && n ≤ 32) || n == 133 || n == 160 || n == 5760 || (8192 ≤ n && n ≤ 8202) ||
    n == 8232 || n == 8233 || n == 8239 || n == 8287 || n == 12288

def isBlank (s : String) : Bool := s.toList.all isPySpace

inductive PyVal where
  | none
  | bool (b : Bool)
  | int (i : Int)
  | float (q : Rat)
  | str (s : String)
  | list (xs : List PyVal)
  | dict (kvs : List (PyVal × PyVal))

namespace PyVal

/-- What a `for` loop runs over. Nothing for a value that raises `TypeError` there. -/
def iter? : PyVal → Option (List PyVal)
  | .list xs => some xs
  | .str s => some (s.toList.map fun c => .str (String.singleton c))
  | .dict kvs => some (kvs.map Prod.fst)
  | _ => Option.none

def str? : PyVal → Option String
  | .str s => some s
  | _ => Option.none

def ofOption : Option String → PyVal
  | some s => .str s
  | Option.none => .none

def get? : PyVal → String → Option PyVal
  | .dict kvs, key => (kvs.find? fun e => e.1.str? == some key).map Prod.snd
  | _, _ => Option.none

def getD (v : PyVal) (key : String) (default : PyVal) : PyVal := (v.get? key).getD default

/-! ## Equality -/

/-- `True` and `False` are numbers. -/
def num? : PyVal → Option Rat
  | .bool b => some (if b then 1 else 0)
  | .int i => some i
  | .float q => some q
  | _ => Option.none

def equals : PyVal → PyVal → Bool
  | .none, .none => true
  | .str s, .str t => s == t
  | .list xs, .list ys => equalsAll xs ys
  | .dict kvs, .dict kvs' => kvs.length == kvs'.length && equalsIn kvs kvs'
  | a, b => a.num?.isSome && a.num? == b.num?
where
  equalsAll : List PyVal → List PyVal → Bool
    | [], [] => true
    | x :: xs, y :: ys => x.equals y && equalsAll xs ys
    | _, _ => false
  equalsIn : List (PyVal × PyVal) → List (PyVal × PyVal) → Bool
    | [], _ => true
    | (k, v) :: kvs, others =>
      (match others.find? fun e => k.equals e.1 with
        | some e => v.equals e.2
        | Option.none => false) && equalsIn kvs others

/-- The same value, or two spellings of one number: such values are equal in Python. -/
def Same (a b : PyVal) : Prop := a = b ∨ ∃ q, a.num? = some q ∧ b.num? = some q

@[refl] theorem Same.refl (a : PyVal) : Same a a := .inl rfl

end PyVal

def Dict.toPy (d : Dict String PyVal) : PyVal := .dict (d.entries.map fun e => (.str e.1, e.2))

@[simp] theorem Dict.get?_toPy (d : Dict String PyVal) (key : String) : d.toPy.get? key = d.get? key :=
  find?_entries d PyVal.str PyVal.str? (fun _ => rfl) key

end AteStudio

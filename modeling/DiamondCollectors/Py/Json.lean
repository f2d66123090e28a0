/-
DiamondCollectors/Py/Json.lean

The values `json.load` returns, and the Python operations the collectors apply
to them: `v[k]`, `k in v`, `for x in v` and `v.split(sep)`.  An object is its
members in document order; a name given twice takes the value of its last
member, as in the dict `json.load` builds.  Strings are byte lists, as
elsewhere in the development.
-/
import DiamondCollectors.Host

namespace Diamond

/-- A value `json.load` returns. -/
inductive Json
  | null
  | bool (b : Bool)
  | num (q : ℚ)
  | str (s : List Char)
  | arr (xs : List Json)
  | obj (members : List (List Char × Json))

namespace Json

/-- `v[k]` for a string `k`: the value of the object's member `k`, `KeyError`
when it has none; `TypeError` on any other value. -/
def getItem : Json → List Char → Except PyExc Json
  | obj ms, k =>
    match ms.reverse.lookup k with
    | some v => .ok v
    | none => .error .keyError
  | _, _ => .error .typeError

/-- `k in v` for a string `k`: a member name of an object, an item of a list, a
substring of a string; `TypeError` on `None`, a Boolean or a number. -/
def contains : Json → List Char → Except PyExc Bool
  | obj ms, k => .ok (k ∈ ms.map Prod.fst)
  | arr xs, k => .ok (xs.any fun | str s => s = k | _ => false)
  | str s, k => .ok (pyContains s k)
  | _, _ => .error .typeError

/-- `for x in v`: the items of a list, the member names of an object (in the
order of their first members), the one-byte strings of a string; `TypeError`
on `None`, a Boolean or a number. -/
def iter : Json → Except PyExc (List Json)
  | arr xs => .ok xs
  | obj ms => .ok ((ms.map Prod.fst).dedup.map str)
  | str s => .ok (s.map fun c => str [c])
  | _ => .error .typeError

/-- `v.split(sep)` with a one-byte separator: `AttributeError` unless `v` is a
string. -/
def split : Json → Char → Except PyExc (List (List Char))
  | str s, sep => .ok (s.splitOn sep)
  | _, _ => .error .attributeError

@[simp] theorem getItem_obj (ms : List (List Char × Json)) (k : List Char) :
    (obj ms).getItem k = (ms.reverse.lookup k).elim (.error .keyError) .ok := by
  simp only [getItem]
  cases ms.reverse.lookup k <;> rfl

@[simp] theorem iter_arr (xs : List Json) : (arr xs).iter = .ok xs := rfl

@[simp] theorem split_str (s : List Char) (sep : Char) : (str s).split sep = .ok (s.splitOn sep) :=
  rfl

end Json

end Diamond

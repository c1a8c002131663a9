import PowDB.Lib.Binary64
import PowDB.Storage.RowFormat
import Mathlib.Data.String.Basic

/-! The storage order of values. Sorting and the index trees use it: an integer
meets a float as the nearest float, a timestamp meets an integer as a number,
and values of unrelated types are ordered by their types. -/
namespace PowDB.Storage
open Lib Binary64

/-- Discriminant of a type. -/
def TypeId.tag : TypeId → ℕ
  | .empty => 0
  | .int => 1
  | .float => 2
  | .bool => 3
  | .str => 4
  | .dateTime => 5
  | .uuid => 6
  | .bytes => 7
  | .json => 8

namespace Value

def typeId : Value → TypeId
  | .empty => .empty
  | .int _ => .int
  | .float _ => .float
  | .bool _ => .bool
  | .str _ => .str
  | .dateTime _ => .dateTime
  | .uuid _ => .uuid
  | .bytes _ => .bytes
  | .json _ => .json

def isEmpty : Value → Bool
  | .empty => true
  | _ => false

def isNaN : Value → Bool
  | .float w => Binary64.isNaN w
  | _ => false

/-- The storage comparison, over the comparison of JSON documents. -/
def cmp (pj1Cmp : Bytes → Bytes → Ordering) : Value → Value → Ordering
  | .int a,.int b => compare a.toInt b.toInt
  | .float a,.float b => totalCmp a b
  | .int a,.float b => totalCmp (ofInt a.toInt) b
  | .float a,.int b => totalCmp a (ofInt b.toInt)
  | .bool a,.bool b => compare a b
  | .str a,.str b => compare a b
  | .dateTime a,.dateTime b => compare a.toInt b.toInt
  | .dateTime a,.int b => compare a.toInt b.toInt
  | .int a,.dateTime b => compare a.toInt b.toInt
  | .uuid a,.uuid b => compare a b
  | .bytes a,.bytes b => compare a b
  | .json a,.json b => pj1Cmp a b
  | .empty,.empty => .eq
  | .empty,_ => .lt
  | _,.empty => .gt
  | a,b => compare a.typeId.tag b.typeId.tag

@[simp] lemma isEmpty_iff {v : Value} : v.isEmpty = true ↔ v = .empty := by
  cases v <;> simp [isEmpty]

end Value
end PowDB.Storage

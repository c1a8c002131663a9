import PowDB.Storage.Replay

/-! Values, and the inline row encoding: a prefix, a length, the null bitmap, the
fixed columns, the offset table and the variable data. -/
namespace PowDB.Storage

inductive Value
  | empty
  | int (v : Int64)
  | float (bits : UInt64)
  | bool (b : Bool)
  | str (s : String)
  | dateTime (v : Int64)
  | uuid (b : Bytes)
  | bytes (b : Bytes)
  | json (b : Bytes)
  deriving DecidableEq

/-- Encoded size of the types of fixed size. -/
def TypeId.fixedSize : TypeId → Option ℕ
  | .int | .float | .dateTime => some 8
  | .bool => some 1
  | .uuid => some 16
  | _ => none

namespace RowFormat

def toLeBytes (n v : ℕ) : Bytes := (List.range n).map (fun i => UInt8.ofNat (v/256^i))
def ofLeBytes (b : Bytes) : ℕ := b.foldr (fun x acc => x.toNat+256*acc) 0

def rowMagic : Bytes := [80,82,79,87]
def rowPrefix : Bytes := rowMagic++toLeBytes 2 1

/-- One bit per column, least significant first; a set bit is a null. -/
def nullBitmap (vals : List Value) : Bytes :=
  (List.range ((vals.length+7)/8)).map (fun i => UInt8.ofNat (ofBits ((vals.drop (8*i)).take 8)))
where
  ofBits : List Value → ℕ
    | [] => 0
    | v::vs => (if v = .empty then 1 else 0)+2*ofBits vs

def fixedBytes (size : ℕ) : Value → Bytes
  | .int v | .dateTime v => toLeBytes 8 v.toUInt64.toNat
  | .float bits => toLeBytes 8 bits.toNat
  | .bool b => [if b then 1 else 0]
  | .uuid b => b
  | _ => List.replicate size 0

def varBytes : Value → Bytes
  | .str s => s.toUTF8.data.toList
  | .bytes b | .json b => b
  | _ => []

/-- Start offsets of the variable columns, then the end of their data. -/
def offsetTable (pos : ℕ) : List Bytes → Bytes
  | [] => toLeBytes 2 pos
  | b::bs => toLeBytes 2 pos++offsetTable (pos+b.length) bs

def encodeRow (schema : Schema) (vals : List Value) : Bytes :=
  let cols := schema.zip vals
  let fixed := cols.flatMap (fun x => (x.1.typeId.fixedSize.map (fun n => fixedBytes n x.2)).getD [])
  let vars := cols.filterMap (fun x => if x.1.typeId.fixedSize.isSome then none else some (varBytes x.2))
  let body := nullBitmap vals++fixed++offsetTable 0 vars++vars.flatten
  rowPrefix++toLeBytes 2 (2+body.length)++body

/-- A slice of the row; reading past its end panics in the source. -/
def slice (data : Bytes) (pos n : ℕ) : Option Bytes :=
  if pos+n ≤ data.length then some ((data.drop pos).take n) else none

def rowBody (data : Bytes) : Bytes := if data.take 4 = rowMagic ∧ 6 ≤ data.length then data.drop 6 else data

def isNull (bitmap : Bytes) (i : ℕ) : Bool := (bitmap.getD (i/8) 0).toNat.testBit (i%8)

def fixedValue (t : TypeId) (b : Bytes) : Value :=
  match t with
  | .int => .int (UInt64.ofNat (ofLeBytes b)).toInt64
  | .float => .float (UInt64.ofNat (ofLeBytes b))
  | .bool => .bool (b != [0])
  | .dateTime => .dateTime (UInt64.ofNat (ofLeBytes b)).toInt64
  | .uuid => .uuid b
  | _ => .empty

/-- Length of the longest start of `b` that is one UTF-8 character or a truncation
of one, and the character when it is whole. -/
def utf8Head : Bytes → ℕ × Option Char
  | [] => (0,none)
  | a::rest =>
    let a := a.toNat
    let lead := if a < 0x80 then 1 else if 0xC2 ≤ a ∧ a ≤ 0xDF then 2 else if 0xE0 ≤ a ∧ a ≤ 0xEF then 3
      else if 0xF0 ≤ a ∧ a ≤ 0xF4 then 4 else 0
    let lo := if a = 0xE0 then 0xA0 else if a = 0xF0 then 0x90 else 0x80
    let hi := if a = 0xED then 0x9F else if a = 0xF4 then 0x8F else 0xBF
    let tail := (rest.take (lead-1)).map UInt8.toNat
    let good := (tail.zipIdx.takeWhile (fun x =>
      if x.2 = 0 then decide (lo ≤ x.1 ∧ x.1 ≤ hi) else decide (0x80 ≤ x.1 ∧ x.1 ≤ 0xBF))).map Prod.fst
    if lead = 0 then (1,none)
    else if good.length+1 < lead then (good.length+1,none)
    else (lead,some (Char.ofNat (good.foldl (fun acc x => acc*64+x%64)
      (if lead = 1 then a else a%2^(7-lead)))))

/-- Text of possibly damaged bytes: each bad sequence becomes one replacement character. -/
def fromUtf8Lossy : ℕ → Bytes → List Char
  | 0, _ => []
  | _, [] => []
  | fuel+1, b::bs =>
    let (n,c) := utf8Head (b::bs)
    c.getD (Char.ofNat 0xFFFD)::fromUtf8Lossy fuel ((b::bs).drop n)

def varValue (t : TypeId) (b : Bytes) : Value :=
  match t with
  | .str => .str (String.ofList (fromUtf8Lossy b.length b))
  | .bytes => .bytes b
  | .json => .json b
  | _ => .empty

/-- Column by column: `pos` walks the fixed region, `vi` the offset table. -/
def decodeColumns (data bitmap : Bytes) (offsets varData : ℕ) :
    ℕ → ℕ → ℕ → Schema → Option (List Value)
  | _, _, _, [] => some []
  | i, pos, vi, col::cols =>
    match col.typeId.fixedSize with
    | some n => do
      let v ← if isNull bitmap i then some .empty else (slice data pos n).map (fixedValue col.typeId)
      let vs ← decodeColumns data bitmap offsets varData (i+1) (pos+n) vi cols
      some (v::vs)
    | none => do
      let v ← if isNull bitmap i then some .empty else do
        let start := ofLeBytes (← slice data (offsets+2*vi) 2)
        let stop := ofLeBytes (← slice data (offsets+2*(vi+1)) 2)
        if stop < start then none
        else (slice data (varData+start) (stop-start)).map (varValue col.typeId)
      let vs ← decodeColumns data bitmap offsets varData (i+1) pos (vi+1) cols
      some (v::vs)

def decodeRow (schema : Schema) (row : Bytes) : Option (List Value) := do
  let data := rowBody row
  let bitmapSize := (schema.length+7)/8
  let fixedSize := (schema.map (fun c => c.typeId.fixedSize.getD 0)).sum
  let nVar := (schema.filter (fun c => c.typeId.fixedSize.isNone)).length
  let bitmap ← slice data 2 bitmapSize
  let offsets := 2+bitmapSize+fixedSize
  let _ ← slice data offsets (2*(nVar+1))
  decodeColumns data bitmap offsets (offsets+2*(nVar+1)) 0 (2+bitmapSize) 0 schema

end RowFormat

/-- The row format for rows that stay inline. -/
def inlineCodec : RowCodec Value where
  decode := fun schema r _ => if r.stubs = [] then RowFormat.decodeRow schema r.body else none
  encode := fun schema vals => ⟨RowFormat.encodeRow schema vals,[]⟩
  empty := .empty

end PowDB.Storage

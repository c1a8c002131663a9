import PowDB.Storage.UniqueTree
import Mathlib

/-! The calls for integer keys against the calls for any key, on an index tree with its
statistics, and the batch delete against one delete after the other. -/
namespace PowDB.Storage.UniqueTree
open Lib.BPlus List

/-- A tree with the statistics kept beside it, one entry to a key. -/
structure Counted where
  tree : UniqueTree
  totalEntries : ℕ
  distinctKeys : ℕ
  deriving DecidableEq

namespace Counted
variable (pj1Cmp : Bytes → Bytes → Ordering) (c : Counted)

/-- The recursion replaces the entry that a search along the same path finds. -/
def insertBy (q : Probe Value) (key : Value) (rid : RowId) : Option Counted := do
  let replaced ← Tree.lookup q c.tree
  let tree ← Tree.insert q order key rid c.tree
  return if replaced.isSome then {c with tree} else ⟨tree,c.totalEntries+1,c.distinctKeys+1⟩

def deleteBy (q : Probe Value) : Option (Counted × Bool) := do
  let (tree,hit) ← Tree.delete q c.tree
  return (if hit then ⟨tree,c.totalEntries-1,c.distinctKeys-1⟩ else {c with tree},hit)

def insert (key : Value) (rid : RowId) : Option Counted := c.insertBy (insertProbe pj1Cmp key) key rid
def insertInt (key : Int64) (rid : RowId) : Option Counted := c.insertBy (insertProbeInt key) (.int key) rid
def delete (key : Value) : Option (Counted × Bool) := c.deleteBy (searchProbe pj1Cmp key)
def deleteInt (key : Int64) : Option (Counted × Bool) := c.deleteBy (searchProbeInt key)

def deleteManyInt (sortedKeys : List Int64) : Option (Counted × ℕ) := do
  let (tree,removed) ← c.tree.deleteManyInt sortedKeys
  return (⟨tree,c.totalEntries-removed,c.distinctKeys-removed⟩,removed)

def deleteEachInt : Counted → List Int64 → Option (Counted × ℕ)
  | c,[] => some (c,0)
  | c,key::keys => do
    let (c,hit) ← c.deleteInt key
    let (c,n) ← deleteEachInt c keys
    return (c,if hit then n+1 else n)

end Counted

section Agree

lemma length_mapDelete (key : Value) (hm : m.Pairwise (·.1 ≠ ·.1)) :
    (if (mapFind key m).isSome then 1 else 0)+(mapDelete [key] m).length = m.length := by
  induction m with
  | nil => rfl
  | cons e m ih =>
    obtain ⟨he,hm⟩ := pairwise_cons.mp hm
    by_cases hkey : e.1 = key
    · have hrest : mapDelete [key] m = m := by
        refine filter_eq_self.mpr fun x hx => ?_
        simpa [← hkey] using (he x hx).symm
      have hdel : mapDelete [key] (e::m) = mapDelete [key] m := by simp [mapDelete,hkey]
      rw [hdel,hrest]
      simp [mapFind,hkey,Nat.add_comm]
    · have hfind : mapFind key (e::m) = mapFind key m := by simp [mapFind,hkey]
      have hdel : mapDelete [key] (e::m) = e::mapDelete [key] m := by simp [mapDelete,hkey]
      rw [hfind,hdel,length_cons,length_cons,← ih hm]
      omega

lemma Holds.distinct (hh : Holds pj1Cmp .int tree m) : m.Pairwise (·.1 ≠ ·.1) := by
  obtain ⟨t₀,L,rfl,hshape,rfl⟩ := hh
  let _ := keyOrder (keyOrder_of_ne_json pj1Cmp (t := .int) nofun)
  refine pairwise_map.mpr ((Shape.sorted hshape).imp fun hlt heq => ?_)
  exact hlt.ne (Subtype.ext heq)

lemma mapDelete_mapDelete (key : Value) (keys : List Value) :
    mapDelete keys (mapDelete [key] m) = mapDelete (key::keys) m := by
  simp [mapDelete,filter_filter,Bool.and_comm]

lemma deleteEachInt_spec {c : Counted} (hh : Holds pj1Cmp .int c.tree m) (keys : List Int64) :
    ∃ tree n, c.deleteEachInt keys = some (⟨tree,c.totalEntries-n,c.distinctKeys-n⟩,n) ∧
      Holds pj1Cmp .int tree (mapDelete (keys.map .int) m) ∧ n+(mapDelete (keys.map .int) m).length = m.length := by
  have h := keyOrder_of_ne_json pj1Cmp (t := .int) nofun
  induction keys generalizing c m with
  | nil =>
    have hsame : mapDelete (map Value.int []) m = m := by simp [mapDelete]
    rw [hsame]
    exact ⟨c.tree,0,rfl,hh,Nat.zero_add _⟩
  | cons key keys ih =>
    obtain ⟨tree₁,hdel,hh₁⟩ := hh.delete h (searchProbeInt_comap h key)
    have hlen := length_mapDelete (intKey key).1 hh.distinct
    generalize (mapFind (intKey key).1 m).isSome = hit at hdel hlen
    let c₁ : Counted := if hit then ⟨tree₁,c.totalEntries-1,c.distinctKeys-1⟩ else {c with tree := tree₁}
    have hcall : c.deleteInt key = some (c₁,hit) := by
      rw [Counted.deleteInt,Counted.deleteBy,hdel]
      rfl
    have htree : c₁.tree = tree₁ := by
      unfold c₁
      split <;> rfl
    obtain ⟨tree,n,hrest,hh',hn⟩ := ih (c := c₁) (htree ▸ hh₁)
    rw [mapDelete_mapDelete] at hh' hn
    refine ⟨tree,if hit then n+1 else n,?_,hh',?_⟩
    · simp only [Counted.deleteEachInt,hcall,Option.bind_eq_bind,Option.bind_some,hrest]
      unfold c₁
      cases hit
      · rfl
      · simp [Nat.sub_sub,Nat.add_comm]
    · change _+(mapDelete ((intKey key).1::keys.map .int) m).length = _
      rw [← hlen,← hn]
      split <;> omega

end Agree

/-- On integer keys the calls for integers are the calls for values, whatever the shape of the
tree; on a tree of distinct keys the batch delete is the deletes of its keys in turn. -/
theorem int_paths_agree (pj1Cmp : Bytes → Bytes → Ordering) :
    (∀ (t : Tree (Key .int) RowId) (total distinct : ℕ) (key : Int64) (rid : RowId),
      let c : Counted := ⟨t.map Subtype.val,total,distinct⟩
      c.insertInt key rid = c.insert pj1Cmp (.int key) rid ∧
      c.tree.lookupInt key = c.tree.lookup pj1Cmp (.int key) ∧
      c.deleteInt key = c.delete pj1Cmp (.int key)) ∧
    ∀ (c : Counted) (m : List (Value × RowId)) (keys : List Int64), Holds pj1Cmp .int c.tree m →
      keys.Pairwise (· ≤ ·) → ∃ m' n tree tree' total distinct, c.deleteManyInt keys = some (⟨tree,total,distinct⟩,n) ∧
        c.deleteEachInt keys = some (⟨tree',total,distinct⟩,n) ∧ Holds pj1Cmp .int tree m' ∧ Holds pj1Cmp .int tree' m' := by
  have h := keyOrder_of_ne_json pj1Cmp (t := .int) nofun
  constructor
  · intro t total distinct key rid
    have hsearch : (searchProbeInt key).comap Subtype.val = (searchProbe pj1Cmp (.int key)).comap Subtype.val :=
      (searchProbeInt_comap h key).trans (searchProbe_comap h (intKey key)).symm
    have hinsert : (insertProbeInt key).comap (Subtype.val : Key .int → Value) =
        (insertProbe pj1Cmp (.int key)).comap Subtype.val := by
      rw [insertProbeInt_comap h]
      simp only [probe,Subtype.ext_iff]
      rfl
    have hmap (q : Probe Value) : Tree.insert q order (.int key) rid (t.map Subtype.val) =
        (t.insert (q.comap Subtype.val) order (intKey key) rid).map (·.map Subtype.val) :=
      Tree.insert_map q order (intKey key) rid t
    refine ⟨?_,?_,?_⟩
    · simp only [Counted.insertInt,Counted.insert,Counted.insertBy,Tree.lookup_map,hmap,hinsert]
    · simp only [lookupInt,lookup,Tree.lookup_map,hsearch]
    · simp only [Counted.deleteInt,Counted.delete,Counted.deleteBy,Tree.delete_map,hsearch]
  · intro c m keys hh hkeys
    obtain ⟨tree,n,hmany,hh₁,hn⟩ := hh.deleteManyInt h hkeys
    obtain ⟨tree',n',heach,hh₂,hn'⟩ := deleteEachInt_spec hh keys
    obtain rfl : n' = n := by omega
    refine ⟨_,n',tree,tree',_,_,?_,heach,hh₁,hh₂⟩
    rw [Counted.deleteManyInt,hmany]
    rfl

theorem sampleCalls_batch : ∃ tree tree' total distinct n, build compare sampleCalls = some tree ∧
    (⟨tree,2,2⟩ : Counted).deleteManyInt [-7,5,5] = some (⟨tree',total,distinct⟩,n) ∧
    ∃ tree'', (⟨tree,2,2⟩ : Counted).deleteEachInt [-7,5,5] = some (⟨tree'',total,distinct⟩,n) := by
  have hops : ∀ op ∈ sampleCalls, op.KeysOf .int := by
    simp [sampleCalls,Op.KeysOf,Value.typeId]
  obtain ⟨tree,hbuild,hh⟩ := Holds.build (keyOrder_of_ne_json compare (t := .int) (by decide)) hops
  obtain ⟨_,n,tree',tree'',total,distinct,hmany,heach,-⟩ :=
    (int_paths_agree compare).2 ⟨tree,2,2⟩ _ [-7,5,5] hh (by decide)
  exact ⟨tree,tree',total,distinct,n,hbuild,hmany,tree'',heach⟩

/-- Two entries under one key, on both sides of a separator. -/
def twice : UniqueTree :=
  ⟨[.leaf [.int 5] [⟨1,0⟩] (some 1),.leaf [.int 5] [⟨2,0⟩] none,.internal [.int 5] [0,1]],2⟩

/-- A batch takes the first of them, a single delete the last. -/
theorem batch_of_repeated_key : (twice.deleteManyInt [5]).map (·.1.nodes.take 2) =
      some [.leaf [] [] (some 1),.leaf [.int 5] [⟨2,0⟩] none] ∧
    (twice.deleteInt 5).map (·.1.nodes.take 2) = some [.leaf [.int 5] [⟨1,0⟩] (some 1),.leaf [] [] none] := by
  decide +kernel

end PowDB.Storage.UniqueTree

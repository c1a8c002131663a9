import Mathlib.Data.List.Basic
import Mathlib.Data.List.TakeWhile
import Mathlib.Data.List.InsertIdx
import Mathlib.Tactic.Common

/-! A B+tree in an arena: nodes are addressed by their position, leaves are linked, an
overfull node is split to its right, and nothing is ever merged. Keys are only ever
looked at through the answers of a probe, so every operation commutes with a map of the keys. -/
namespace PowDB.Lib.BPlus
open List Option Prod
variable {K K' R D : Type}

inductive Node (K R : Type)
  | internal (keys : List K) (children : List ℕ)
  | leaf (keys : List K) (values : List R) (nextLeaf : Option ℕ)
  deriving DecidableEq

/-- What a search asks of a stored key: is it smaller, is it at most, is it equal. -/
structure Probe (K : Type) where
  below : K → Bool
  upTo : K → Bool
  equal : K → Bool

/-- Number of leading elements with a property. -/
def partitionPoint (p : K → Bool) (xs : List K) : ℕ := (xs.takeWhile p).length

/-- A node after an insertion, with the key and the node split off to its right. -/
abbrev Grown (K R : Type) := Node K R × Option (K × Node K R)

/-- Cut an overfull leaf in two; the right half will stand at `rightId`. -/
def splitLeaf (order : ℕ) (keys : List K) (values : List R) (next : Option ℕ) (rightId : ℕ) : Grown K R :=
  if keys.length ≤ order then (.leaf keys values next,none)
  else
    let mid := keys.length/2
    match keys.drop mid with
    | [] => (.leaf keys values next,none)
    | midKey::right => (.leaf (keys.take mid) (values.take mid) (some rightId),
        some (midKey,.leaf (midKey::right) (values.drop mid) next))

def insertLeaf (q : Probe K) (order : ℕ) (key : K) (rid : R) (keys : List K) (values : List R)
    (next : Option ℕ) (rightId : ℕ) : Grown K R :=
  let pos := partitionPoint q.below keys
  if keys[pos]?.any q.equal then (.leaf keys (values.set pos rid) next,none)
  else splitLeaf order (keys.insertIdx pos key) (values.insertIdx pos rid) next rightId

/-- Cut an overfull internal node in two; its middle key goes up. -/
def splitInternal (order : ℕ) (keys : List K) (children : List ℕ) : Grown K R :=
  if keys.length ≤ order then (.internal keys children,none)
  else
    let mid := keys.length/2
    match keys.drop mid with
    | [] => (.internal keys children,none)
    | promote::right => (.internal (keys.take mid) (children.take (mid+1)),
        some (promote,.internal right (children.drop (mid+1))))

/-- The key a child split at goes into its parent, with the new child behind the old one. -/
def insertInternal (order pos : ℕ) (midKey : K) (newChild : ℕ) (keys : List K) (children : List ℕ) :
    Grown K R :=
  splitInternal order (keys.insertIdx pos midKey) (children.insertIdx (pos+1) newChild)

/-- Write a grown node back; a split-off node goes to the end of the arena. -/
def store (nodes : List (Node K R)) (id : ℕ) : Grown K R → List (Node K R) × Option (K × ℕ)
  | (node,none) => (nodes.set id node,none)
  | (node,some (key,right)) => (nodes.set id node++[right],some (key,nodes.length))

/-- The parent's part of an insertion, after its child has returned. -/
def promote (order id pos : ℕ) : List (Node K R) × Option (K × ℕ) → Option (List (Node K R) × Option (K × ℕ))
  | (nodes,none) => some (nodes,none)
  | (nodes,some (midKey,newChild)) =>
    match nodes[id]? with
    | some (.internal keys children) => some (store nodes id (insertInternal order pos midKey newChild keys children))
    | _ => none

def insertRecursive (q : Probe K) (order : ℕ) (key : K) (rid : R) :
    ℕ → List (Node K R) → ℕ → Option (List (Node K R) × Option (K × ℕ))
  | 0,_,_ => none
  | fuel+1,nodes,id =>
    match nodes[id]? with
    | none => none
    | some (.leaf keys values next) => some (store nodes id (insertLeaf q order key rid keys values next nodes.length))
    | some (.internal keys children) =>
      let pos := partitionPoint q.upTo keys
      match children[pos]? with
      | none => none
      | some child => (insertRecursive q order key rid fuel nodes child).bind (promote order id pos)

/-- The leaf a search key belongs to. -/
def descend (q : Probe K) : ℕ → List (Node K R) → ℕ → Option ℕ
  | 0,_,_ => none
  | fuel+1,nodes,id =>
    match nodes[id]? with
    | none => none
    | some (.leaf _ _ _) => some id
    | some (.internal keys children) => children[partitionPoint q.upTo keys]?.bind (descend q fuel nodes)

def leftmost : ℕ → List (Node K R) → ℕ → Option ℕ
  | 0,_,_ => none
  | fuel+1,nodes,id =>
    match nodes[id]? with
    | none => none
    | some (.leaf _ _ _) => some id
    | some (.internal _ children) => children[0]?.bind (leftmost fuel nodes)

/-- Position of an equal key in a sorted list. -/
def binarySearch (q : Probe K) (keys : List K) : Option ℕ :=
  let pos := partitionPoint q.below keys
  if keys[pos]?.any q.equal then some pos else none

/-- Walk the leaf chain: a key that `stop` accepts ends the walk, one that `take` accepts is collected. -/
def scanChain (stop take : K → Bool) : ℕ → List (Node K R) → Option ℕ → Option (List (K × R))
  | _,_,none => some []
  | 0,_,some _ => none
  | fuel+1,nodes,some id =>
    match nodes[id]? with
    | none => none
    | some (.internal _ _) => some []
    | some (.leaf keys values next) =>
      let got := ((keys.zip values).takeWhile (fun e => !stop e.1)).filter (fun e => take e.1)
      if (keys.zip values).any (fun e => stop e.1) then some got
      else (scanChain stop take fuel nodes next).map (got++·)

def countChain : ℕ → List (Node K R) → Option ℕ → Option ℕ
  | _,_,none => some 0
  | 0,_,some _ => none
  | fuel+1,nodes,some id =>
    match nodes[id]? with
    | none => none
    | some (.internal _ _) => some 0
    | some (.leaf keys _ next) => (countChain fuel nodes next).map (keys.length+·)

/-- The keys to delete, in order, against the entries of a leaf: what is left of both. `before`
says that a key to delete is smaller than a stored one, `hit` that it is equal. -/
def dropKeys (before hit : D → K → Bool) : List D → List (K × R) → List D × List (K × R)
  | ds,[] => (ds,[])
  | ds,e::es =>
    match ds.dropWhile (fun d => before d e.1) with
    | [] => ([],e::(dropKeys before hit [] es).2)
    | d::rest =>
      if hit d e.1 then dropKeys before hit rest es
      else ((dropKeys before hit (d::rest) es).1,e::(dropKeys before hit (d::rest) es).2)

/-- The batch deletion along the leaf chain, with the number of entries removed. -/
def deleteChain (before hit : D → K → Bool) :
    ℕ → List (Node K R) → Option ℕ → List D → Option (List (Node K R) × ℕ)
  | _,nodes,none,_ => some (nodes,0)
  | _,nodes,some _,[] => some (nodes,0)
  | 0,_,some _,_::_ => none
  | fuel+1,nodes,some id,d::ds =>
    match nodes[id]? with
    | none => none
    | some (.internal _ _) => some (nodes,0)
    | some (.leaf keys values next) =>
      let kept := dropKeys before hit (d::ds) (keys.zip values)
      let node := .leaf (kept.2.map fst) (kept.2.map snd) next
      (deleteChain before hit fuel (nodes.set id node) next kept.1).map
        fun r => (r.1,keys.length-kept.2.length+r.2)

structure Tree (K R : Type) where
  nodes : List (Node K R)
  root : ℕ
  deriving DecidableEq

namespace Tree

def create : Tree K R := ⟨[.leaf [] [] none],0⟩

def insert (q : Probe K) (order : ℕ) (key : K) (rid : R) (t : Tree K R) : Option (Tree K R) :=
  (insertRecursive q order key rid t.nodes.length t.nodes t.root).map fun
    | (nodes,none) => ⟨nodes,t.root⟩
    | (nodes,some (midKey,newNode)) => ⟨nodes++[.internal [midKey] [t.root,newNode]],nodes.length⟩

def lookup (q : Probe K) (t : Tree K R) : Option (Option R) :=
  (descend q t.nodes.length t.nodes t.root).bind fun id =>
    match t.nodes[id]? with
    | some (.leaf keys values _) => some ((binarySearch q keys).bind (values[·]?))
    | _ => none

def delete (q : Probe K) (t : Tree K R) : Option (Tree K R × Bool) :=
  (descend q t.nodes.length t.nodes t.root).bind fun id =>
    match t.nodes[id]? with
    | some (.leaf keys values next) =>
      match binarySearch q keys with
      | none => some (t,false)
      | some pos => some (⟨t.nodes.set id (.leaf (keys.eraseIdx pos) (values.eraseIdx pos) next),t.root⟩,true)
    | _ => none

def deleteMany (before hit : D → K → Bool) (ds : List D) (t : Tree K R) : Option (Tree K R × ℕ) :=
  if ds.isEmpty then some (t,0)
  else
    (leftmost t.nodes.length t.nodes t.root).bind fun id =>
      (deleteChain before hit t.nodes.length t.nodes (some id) ds).map fun r => (⟨r.1,t.root⟩,r.2)

/-- Scan from the leaf of a search key. -/
def scanFrom (q : Probe K) (stop take : K → Bool) (t : Tree K R) : Option (List (K × R)) :=
  (descend q t.nodes.length t.nodes t.root).bind fun id => scanChain stop take t.nodes.length t.nodes (some id)

/-- Scan from the leftmost leaf. -/
def scanAll (stop take : K → Bool) (t : Tree K R) : Option (List (K × R)) :=
  (leftmost t.nodes.length t.nodes t.root).bind fun id => scanChain stop take t.nodes.length t.nodes (some id)

def len (t : Tree K R) : Option ℕ :=
  (leftmost t.nodes.length t.nodes t.root).bind fun id => countChain t.nodes.length t.nodes (some id)

end Tree

/-! ### Maps of the keys -/
section Map
variable (f : K → K')

def Node.map : Node K R → Node K' R
  | .internal keys children => .internal (keys.map f) children
  | .leaf keys values next => .leaf (keys.map f) values next

def Tree.map (t : Tree K R) : Tree K' R := ⟨t.nodes.map (Node.map f),t.root⟩

def Probe.comap (q : Probe K') : Probe K := ⟨q.below ∘ f,q.upTo ∘ f,q.equal ∘ f⟩

def mapEntries (es : List (K × R)) : List (K' × R) := es.map (map f id)

/-- The result of an insertion step with its keys mapped. -/
def mapGrown (r : Grown K R) : Grown K' R := (r.1.map f,r.2.map (map f (Node.map f)))

def mapStored (r : List (Node K R) × Option (K × ℕ)) : List (Node K' R) × Option (K' × ℕ) :=
  (r.1.map (Node.map f),r.2.map (map f id))

variable {f}

lemma partitionPoint_map (p : K' → Bool) (xs : List K) :
    partitionPoint p (xs.map f) = partitionPoint (p ∘ f) xs := by
  simp [partitionPoint,takeWhile_map]

lemma any_getElem?_map (p : K' → Bool) (xs : List K) (i : ℕ) :
    (xs.map f)[i]?.any p = xs[i]?.any (p ∘ f) := by
  rw [getElem?_map]
  cases xs[i]? <;> rfl

lemma zip_map_keys (keys : List K) (values : List R) :
    (keys.map f).zip values = mapEntries f (keys.zip values) := by
  rw [mapEntries,zip_map_left]

lemma splitLeaf_map (order : ℕ) (keys : List K) (values : List R) (next : Option ℕ) (rightId : ℕ) :
    splitLeaf order (keys.map f) values next rightId = mapGrown f (splitLeaf order keys values next rightId) := by
  simp only [splitLeaf,length_map,← map_drop,← map_take]
  by_cases hle : keys.length ≤ order
  · rw [if_pos hle,if_pos hle]
    rfl
  · rw [if_neg hle,if_neg hle]
    cases keys.drop (keys.length/2) <;> rfl

lemma insertLeaf_map (q : Probe K') (order : ℕ) (key : K) (rid : R) (keys : List K) (values : List R)
    (next : Option ℕ) (rightId : ℕ) :
    insertLeaf q order (f key) rid (keys.map f) values next rightId =
      mapGrown f (insertLeaf (q.comap f) order key rid keys values next rightId) := by
  simp only [insertLeaf,partitionPoint_map,any_getElem?_map,← map_insertIdx,splitLeaf_map]
  rw [show (q.comap f).below = q.below ∘ f from rfl,show (q.comap f).equal = q.equal ∘ f from rfl]
  by_cases heq : keys[partitionPoint (q.below ∘ f) keys]?.any (q.equal ∘ f) = true
  · rw [if_pos heq,if_pos heq]
    rfl
  · rw [if_neg heq,if_neg heq]

lemma insertInternal_map (order pos : ℕ) (midKey : K) (newChild : ℕ) (keys : List K) (children : List ℕ) :
    insertInternal (R := R) order pos (f midKey) newChild (keys.map f) children =
      mapGrown f (insertInternal order pos midKey newChild keys children) := by
  simp only [insertInternal,splitInternal,← map_insertIdx,length_map,← map_drop,← map_take]
  by_cases hle : (keys.insertIdx pos midKey).length ≤ order
  · rw [if_pos hle,if_pos hle]
    rfl
  · rw [if_neg hle,if_neg hle]
    cases (keys.insertIdx pos midKey).drop ((keys.insertIdx pos midKey).length/2) <;> rfl

lemma store_map (nodes : List (Node K R)) (id : ℕ) (r : Grown K R) :
    store (nodes.map (Node.map f)) id (mapGrown f r) = mapStored f (store nodes id r) := by
  obtain ⟨node,_ | ⟨key,right⟩⟩ := r <;> simp [store,mapGrown,mapStored]

lemma promote_map (order id pos : ℕ) (r : List (Node K R) × Option (K × ℕ)) :
    promote order id pos (mapStored f r) = (promote order id pos r).map (mapStored f) := by
  obtain ⟨nodes,_ | ⟨key,right⟩⟩ := r
  · rfl
  simp only [mapStored,promote,map_some,getElem?_map]
  cases nodes[id]? with
  | none => rfl
  | some node =>
    cases node with
    | leaf keys values next => rfl
    | internal keys children => simp [Node.map,insertInternal_map,store_map]

lemma insertRecursive_map (q : Probe K') (order : ℕ) (key : K) (rid : R) (fuel : ℕ)
    (nodes : List (Node K R)) (id : ℕ) :
    insertRecursive q order (f key) rid fuel (nodes.map (Node.map f)) id =
      (insertRecursive (q.comap f) order key rid fuel nodes id).map (mapStored f) := by
  induction fuel generalizing id with
  | zero => rfl
  | succ fuel ih =>
    simp only [insertRecursive,getElem?_map]
    cases nodes[id]? with
    | none => rfl
    | some node =>
      cases node with
      | leaf keys values next =>
        simp only [map_some,Node.map,length_map,insertLeaf_map,store_map]
      | internal keys children =>
        simp only [map_some,Node.map,partitionPoint_map]
        rw [show (q.comap f).upTo = q.upTo ∘ f from rfl]
        cases children[partitionPoint (q.upTo ∘ f) keys]? with
        | none => rfl
        | some child =>
          simp only [ih]
          cases insertRecursive (q.comap f) order key rid fuel nodes child with
          | none => rfl
          | some r => exact promote_map _ _ _ r

lemma descend_map (q : Probe K') (fuel : ℕ) (nodes : List (Node K R)) (id : ℕ) :
    descend q fuel (nodes.map (Node.map f)) id = descend (q.comap f) fuel nodes id := by
  induction fuel generalizing id with
  | zero => rfl
  | succ fuel ih =>
    simp only [descend,getElem?_map]
    cases nodes[id]? with
    | none => rfl
    | some node =>
      cases node with
      | leaf keys values next => rfl
      | internal keys children =>
        simp only [map_some,Node.map,partitionPoint_map]
        rw [show (q.comap f).upTo = q.upTo ∘ f from rfl,funext ih]

lemma leftmost_map (fuel : ℕ) (nodes : List (Node K R)) (id : ℕ) :
    leftmost fuel (nodes.map (Node.map f)) id = leftmost fuel nodes id := by
  induction fuel generalizing id with
  | zero => rfl
  | succ fuel ih =>
    simp only [leftmost,getElem?_map]
    cases nodes[id]? with
    | none => rfl
    | some node =>
      cases node with
      | leaf keys values next => rfl
      | internal keys children => simp only [map_some,Node.map,funext ih]

lemma binarySearch_map (q : Probe K') (keys : List K) :
    binarySearch q (keys.map f) = binarySearch (q.comap f) keys := by
  simp only [binarySearch,partitionPoint_map,any_getElem?_map]
  rfl

lemma scanChain_map (stop take : K' → Bool) (fuel : ℕ) (nodes : List (Node K R)) (cur : Option ℕ) :
    scanChain stop take fuel (nodes.map (Node.map f)) cur =
      (scanChain (stop ∘ f) (take ∘ f) fuel nodes cur).map (mapEntries f) := by
  induction fuel generalizing cur with
  | zero => cases cur <;> rfl
  | succ fuel ih =>
    cases cur with
    | none => rfl
    | some id =>
      simp only [scanChain,getElem?_map]
      cases nodes[id]? with
      | none => rfl
      | some node =>
        cases node with
        | internal keys children => rfl
        | leaf keys values next =>
          simp only [map_some,Node.map,zip_map_keys,ih]
          have hgot : ((mapEntries f (keys.zip values)).takeWhile (fun e => !stop e.1)).filter (fun e => take e.1) =
              mapEntries f (((keys.zip values).takeWhile (fun e => !(stop ∘ f) e.1)).filter
                (fun e => (take ∘ f) e.1)) := by
            simp only [mapEntries,List.takeWhile_map,List.filter_map]
            rfl
          have hany : (mapEntries f (keys.zip values)).any (fun e => stop e.1) =
              (keys.zip values).any (fun e => (stop ∘ f) e.1) := by
            rw [mapEntries,List.any_map]
            rfl
          rw [hgot,hany]
          split
          · rfl
          cases scanChain (stop ∘ f) (take ∘ f) fuel nodes next with
          | none => rfl
          | some rest => simp [mapEntries]

lemma countChain_map (fuel : ℕ) (nodes : List (Node K R)) (cur : Option ℕ) :
    countChain fuel (nodes.map (Node.map f)) cur = countChain fuel nodes cur := by
  induction fuel generalizing cur with
  | zero => cases cur <;> rfl
  | succ fuel ih =>
    cases cur with
    | none => rfl
    | some id =>
      simp only [countChain,getElem?_map]
      cases nodes[id]? with
      | none => rfl
      | some node => cases node <;> simp [Node.map,ih]

lemma dropKeys_map (before hit : D → K' → Bool) (ds : List D) (es : List (K × R)) :
    dropKeys before hit ds (mapEntries f es) =
      ((dropKeys (fun d k => before d (f k)) (fun d k => hit d (f k)) ds es).1,
        mapEntries f (dropKeys (fun d k => before d (f k)) (fun d k => hit d (f k)) ds es).2) := by
  induction es generalizing ds with
  | nil => rfl
  | cons e es ih =>
    have hmap : mapEntries f (e::es) = (f e.1,e.2)::mapEntries f es := rfl
    rw [hmap,dropKeys,dropKeys]
    cases ds.dropWhile (fun d => before d (f e.1)) with
    | nil =>
      rw [ih]
      rfl
    | cons d rest =>
      by_cases hhit : hit d (f e.1) = true
      · simp only [hhit,if_true,ih]
      · simp only [hhit,ih]
        rfl

lemma deleteChain_map (before hit : D → K' → Bool) (fuel : ℕ) (nodes : List (Node K R)) (cur : Option ℕ)
    (ds : List D) :
    deleteChain before hit fuel (nodes.map (Node.map f)) cur ds =
      (deleteChain (fun d k => before d (f k)) (fun d k => hit d (f k)) fuel nodes cur ds).map
        (fun r => (r.1.map (Node.map f),r.2)) := by
  induction fuel generalizing nodes cur ds with
  | zero => cases cur <;> cases ds <;> rfl
  | succ fuel ih =>
    cases cur with
    | none => rfl
    | some id =>
      cases ds with
      | nil => rfl
      | cons d ds =>
        simp only [deleteChain,getElem?_map]
        cases nodes[id]? with
        | none => rfl
        | some node =>
          cases node with
          | internal keys children => rfl
          | leaf keys values next =>
            simp only [map_some,Node.map,zip_map_keys,dropKeys_map]
            generalize dropKeys (fun d k => before d (f k)) (fun d k => hit d (f k)) (d::ds) (keys.zip values) = kept
            have hset : (nodes.map (Node.map f)).set id (.leaf ((mapEntries f kept.2).map Prod.fst)
                ((mapEntries f kept.2).map Prod.snd) next) =
                (nodes.set id (.leaf (kept.2.map Prod.fst) (kept.2.map Prod.snd) next)).map (Node.map f) := by
              simp [Node.map,mapEntries,Function.comp_def]
            rw [hset,ih,Option.map_map,Option.map_map]
            simp [mapEntries,Function.comp_def]

namespace Tree

lemma insert_map (q : Probe K') (order : ℕ) (key : K) (rid : R) (t : Tree K R) :
    (t.map f).insert q order (f key) rid = (t.insert (q.comap f) order key rid).map (Tree.map f) := by
  simp only [insert,Tree.map,length_map,insertRecursive_map]
  cases insertRecursive (q.comap f) order key rid t.nodes.length t.nodes t.root with
  | none => rfl
  | some r =>
    obtain ⟨nodes,_ | ⟨midKey,newNode⟩⟩ := r
    · rfl
    · simp [mapStored,Tree.map,Node.map]

lemma lookup_map (q : Probe K') (t : Tree K R) : (t.map f).lookup q = t.lookup (q.comap f) := by
  simp only [lookup,Tree.map,length_map,descend_map,getElem?_map]
  cases descend (q.comap f) t.nodes.length t.nodes t.root with
  | none => rfl
  | some id =>
    simp only [bind_some]
    cases t.nodes[id]? with
    | none => rfl
    | some node => cases node <;> simp [Node.map,binarySearch_map]

lemma delete_map (q : Probe K') (t : Tree K R) :
    (t.map f).delete q = (t.delete (q.comap f)).map (fun r => (r.1.map f,r.2)) := by
  simp only [delete,Tree.map,length_map,descend_map,getElem?_map]
  cases descend (q.comap f) t.nodes.length t.nodes t.root with
  | none => rfl
  | some id =>
    simp only [bind_some]
    cases t.nodes[id]? with
    | none => rfl
    | some node =>
      cases node with
      | internal keys children => rfl
      | leaf keys values next =>
        simp only [map_some,Node.map,binarySearch_map]
        cases binarySearch (q.comap f) keys with
        | none => rfl
        | some pos => simp [Node.map,eraseIdx_map]

lemma deleteMany_map (before hit : D → K' → Bool) (ds : List D) (t : Tree K R) :
    (t.map f).deleteMany before hit ds =
      (t.deleteMany (fun d k => before d (f k)) (fun d k => hit d (f k)) ds).map (fun r => (r.1.map f,r.2)) := by
  simp only [deleteMany,Tree.map,length_map,leftmost_map,deleteChain_map]
  split
  · rfl
  cases leftmost t.nodes.length t.nodes t.root with
  | none => rfl
  | some id =>
    simp only [Option.bind_some,Option.map_map]
    rfl

lemma scanFrom_map (q : Probe K') (stop take : K' → Bool) (t : Tree K R) :
    (t.map f).scanFrom q stop take = (t.scanFrom (q.comap f) (stop ∘ f) (take ∘ f)).map (mapEntries f) := by
  simp only [scanFrom,Tree.map,length_map,descend_map,scanChain_map]
  cases descend (q.comap f) t.nodes.length t.nodes t.root <;> rfl

lemma scanAll_map (stop take : K' → Bool) (t : Tree K R) :
    (t.map f).scanAll stop take = (t.scanAll (stop ∘ f) (take ∘ f)).map (mapEntries f) := by
  simp only [scanAll,Tree.map,length_map,leftmost_map,scanChain_map]
  cases leftmost t.nodes.length t.nodes t.root <;> rfl

lemma len_map (t : Tree K R) : (t.map f).len = t.len := by
  simp only [len,Tree.map,length_map,leftmost_map,countChain_map]

end Tree
end Map
end PowDB.Lib.BPlus

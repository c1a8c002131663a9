import PowDB.Lib.BPlusRead
import PowDB.Storage.ValueOrder

/-! The index tree over unique keys: the source's two code paths, one for any value and one
for integers, as probes of one arena tree. On keys of one totally ordered type the tree is
a sorted map. -/
namespace PowDB.Storage
open Lib.BPlus List Function Subtype Tree
/-- A type whose values the storage order orders totally. -/
structure KeyOrder (pj1Cmp : Bytes → Bytes → Ordering) (t : TypeId) : Prop where
  eq_iff : ∀ a b : Value, a.typeId = t → b.typeId = t → (a.cmp pj1Cmp b = .eq ↔ a = b)
  swap : ∀ a b : Value, a.typeId = t → b.typeId = t → b.cmp pj1Cmp a = (a.cmp pj1Cmp b).swap
  trans : ∀ a b c : Value, a.typeId = t → b.typeId = t → c.typeId = t →
    a.cmp pj1Cmp b = .lt → b.cmp pj1Cmp c = .lt → a.cmp pj1Cmp c = .lt

/-- Every type but JSON is totally ordered, whatever the order of the documents. -/
lemma keyOrder_of_ne_json (pj1Cmp : Bytes → Bytes → Ordering) {t : TypeId} (ht : t ≠ .json) : KeyOrder pj1Cmp t where
  eq_iff a b ha hb := by
    subst ha
    cases a <;> cases b <;> simp [Value.typeId] at ht hb <;>
      simp [Value.cmp,Int64.toInt_inj,Lib.Binary64.totalCmp,Lib.Binary64.totalKey_inj]
  swap a b ha hb := by
    subst ha
    cases a <;> cases b <;> simp [Value.typeId] at ht hb <;> simp only [Value.cmp,Lib.Binary64.totalCmp] <;>
      first | rfl | exact Std.OrientedCmp.eq_swap
  trans a b c ha hb hc := by
    subst ha
    cases a <;> cases b <;> simp [Value.typeId] at ht hb <;> cases c <;> simp [Value.typeId] at hc <;>
      simp only [Value.cmp,Lib.Binary64.totalCmp] <;> first | exact Std.TransCmp.lt_trans | exact fun h _ => h

/-- The tree of a unique index. -/
abbrev UniqueTree := Tree Value RowId

namespace UniqueTree

/-- Most keys of a node. -/
def order : ℕ := 256

section Source
variable (pj1Cmp : Bytes → Bytes → Ordering)

/-- The comparisons of an insertion; an equal key is found by equality. -/
def insertProbe (key : Value) : Probe Value where
  below k := decide (k.cmp pj1Cmp key = .lt)
  upTo k := decide (k.cmp pj1Cmp key ≠ .gt)
  equal k := decide (k = key)

/-- The comparisons of a search; an equal key is found by the order. -/
def searchProbe (key : Value) : Probe Value where
  below k := decide (k.cmp pj1Cmp key = .lt)
  upTo k := decide (k.cmp pj1Cmp key ≠ .gt)
  equal k := decide (k.cmp pj1Cmp key = .eq)

def insert (t : UniqueTree) (key : Value) (rid : RowId) : Option UniqueTree :=
  Tree.insert (insertProbe pj1Cmp key) order key rid t

def lookup (t : UniqueTree) (key : Value) : Option (Option RowId) := Tree.lookup (searchProbe pj1Cmp key) t

def delete (t : UniqueTree) (key : Value) : Option (UniqueTree × Bool) := Tree.delete (searchProbe pj1Cmp key) t

def range (t : UniqueTree) (start bound : Value) : Option (List (Value × RowId)) :=
  t.scanFrom (searchProbe pj1Cmp start) (fun k => decide (k.cmp pj1Cmp bound = .gt))
    (fun k => decide (k.cmp pj1Cmp start ≠ .lt))

def rangeFrom (t : UniqueTree) (start : Value) : Option (List (Value × RowId)) :=
  t.scanFrom (searchProbe pj1Cmp start) (fun _ => false) (fun k => decide (k.cmp pj1Cmp start ≠ .lt))

def rangeTo (t : UniqueTree) (bound : Value) : Option (List (Value × RowId)) :=
  t.scanAll (fun k => decide (k.cmp pj1Cmp bound = .gt)) (fun _ => true)

/-- The integer path compares the stored integer and takes no other value for smaller. -/
def insertProbeInt (key : Int64) : Probe Value where
  below | .int i => decide (i < key) | _ => false
  upTo | .int i => decide (i ≤ key) | _ => false
  equal | .int i => decide (i = key) | _ => false

/-- In a leaf the integer search takes every other value for smaller. -/
def searchProbeInt (key : Int64) : Probe Value where
  below | .int i => decide (i < key) | _ => true
  upTo | .int i => decide (i ≤ key) | _ => false
  equal | .int i => decide (i = key) | _ => false

def insertInt (t : UniqueTree) (key : Int64) (rid : RowId) : Option UniqueTree :=
  Tree.insert (insertProbeInt key) order (.int key) rid t

def lookupInt (t : UniqueTree) (key : Int64) : Option (Option RowId) := Tree.lookup (searchProbeInt key) t

def deleteInt (t : UniqueTree) (key : Int64) : Option (UniqueTree × Bool) := Tree.delete (searchProbeInt key) t

def deleteManyInt (t : UniqueTree) (sortedKeys : List Int64) : Option (UniqueTree × ℕ) :=
  t.deleteMany (fun d k => match k with | .int i => decide (d < i) | _ => false)
    (fun d k => match k with | .int i => decide (d = i) | _ => false) sortedKeys

/-! ### Histories -/

inductive Op
  | insert (key : Value) (rid : RowId)
  | insertInt (key : Int64) (rid : RowId)
  | delete (key : Value)
  | deleteInt (key : Int64)
  | deleteManyInt (sortedKeys : List Int64)

def apply (t : UniqueTree) : Op → Option UniqueTree
  | .insert key rid => t.insert pj1Cmp key rid
  | .insertInt key rid => t.insertInt key rid
  | .delete key => (t.delete pj1Cmp key).map Prod.fst
  | .deleteInt key => (t.deleteInt key).map Prod.fst
  | .deleteManyInt sortedKeys => (t.deleteManyInt sortedKeys).map Prod.fst

/-- The tree a history makes of the empty one. -/
def build (ops : List Op) : Option UniqueTree := ops.foldlM (apply pj1Cmp) Tree.create

/-- The keys of a call are of the type, and a batch is sorted as its contract says. -/
def Op.KeysOf (t : TypeId) : Op → Prop
  | .insert key _ | .delete key => key.typeId = t
  | .insertInt _ _ | .deleteInt _ => t = .int
  | .deleteManyInt keys => (keys ≠ [] → t = .int) ∧ keys.Pairwise (· ≤ ·)

/-! ### The sorted map -/

/-- The entries of a sorted map after an insertion. -/
def mapInsert (key : Value) (rid : RowId) (m : List (Value × RowId)) : List (Value × RowId) :=
  m.filter (fun e => decide (e.1.cmp pj1Cmp key = .lt))++(key,rid)::m.filter (fun e => decide (e.1.cmp pj1Cmp key = .gt))

def mapDelete (keys : List Value) (m : List (Value × RowId)) : List (Value × RowId) :=
  m.filter (fun e => decide (e.1 ∉ keys))

def mapFind (key : Value) (m : List (Value × RowId)) : Option RowId :=
  (m.find? (fun e => decide (e.1 = key))).map Prod.snd

def Op.onMap (m : List (Value × RowId)) : Op → List (Value × RowId)
  | .insert key rid => mapInsert pj1Cmp key rid m
  | .insertInt key rid => mapInsert pj1Cmp (.int key) rid m
  | .delete key => mapDelete [key] m
  | .deleteInt key => mapDelete [.int key] m
  | .deleteManyInt keys => mapDelete (keys.map .int) m

/-- The sorted map with the same history. -/
def history (ops : List Op) : List (Value × RowId) := ops.foldl (Op.onMap pj1Cmp) []

end Source

/-! ### Keys of one type -/

/-- The values of one type. -/
abbrev Key (t : TypeId) := {v : Value // v.typeId = t}

section Typed
variable {pj1Cmp : Bytes → Bytes → Ordering} {t : TypeId}

/-- The storage order as a linear order of one type. -/
@[reducible] def keyOrder (h : KeyOrder pj1Cmp t) : LinearOrder (Key t) where
  le a b := a.1.cmp pj1Cmp b.1 ≠ .gt
  lt a b := a.1.cmp pj1Cmp b.1 = .lt
  toDecidableLE a b := inferInstanceAs (Decidable (a.1.cmp pj1Cmp b.1 ≠ .gt))
  toDecidableLT a b := inferInstanceAs (Decidable (a.1.cmp pj1Cmp b.1 = .lt))
  toDecidableEq := inferInstanceAs (DecidableEq (Key t))
  le_refl a := by simp [(h.eq_iff a.1 a.1 a.2 a.2).mpr rfl]
  le_trans a b c hab hbc hac := by
    have hca : c.1.cmp pj1Cmp a.1 = .lt := by simp [h.swap a.1 c.1 a.2 c.2,hac]
    cases hcmp : a.1.cmp pj1Cmp b.1 with
    | gt => exact hab hcmp
    | eq =>
      rw [(h.eq_iff a.1 b.1 a.2 b.2).mp hcmp] at hac
      exact hbc hac
    | lt =>
      have hcb := h.trans c.1 a.1 b.1 c.2 a.2 b.2 hca hcmp
      exact hbc (by simp [h.swap c.1 b.1 c.2 b.2,hcb])
  lt_iff_le_not_ge a b := by
    have hswap := h.swap a.1 b.1 a.2 b.2
    cases hcmp : a.1.cmp pj1Cmp b.1 <;> simp [hswap,hcmp]
  le_antisymm a b hab hba := by
    have hswap := h.swap a.1 b.1 a.2 b.2
    apply Subtype.ext
    apply (h.eq_iff a.1 b.1 a.2 b.2).mp
    cases hcmp : a.1.cmp pj1Cmp b.1 with
    | eq => rfl
    | gt => exact absurd hcmp hab
    | lt => exact absurd (by simp [hswap,hcmp]) hba
  le_total a b := by
    have hswap := h.swap a.1 b.1 a.2 b.2
    cases hcmp : a.1.cmp pj1Cmp b.1 <;> simp [hswap,hcmp]

lemma searchProbe_comap (h : KeyOrder pj1Cmp t) (key : Key t) :
    (searchProbe pj1Cmp key.1).comap Subtype.val = @probe _ (keyOrder h) key := by
  simp only [Probe.comap,searchProbe,probe,comp_def,Subtype.ext_iff]
  congr 1
  funext k
  simp only [h.eq_iff k.1 key.1 k.2 key.2]

/-- An integer as a key. -/
def intKey (i : Int64) : Key .int := ⟨.int i,rfl⟩

lemma int_cases {P : Key .int → Prop} (h : ∀ i, P (intKey i)) (k : Key .int) : P k := by
  obtain ⟨v,hv⟩ := k
  cases v <;> simp [Value.typeId] at hv
  exact h _

lemma insertProbeInt_comap (h : KeyOrder pj1Cmp .int) (key : Int64) :
    (insertProbeInt key).comap val = @probe _ (keyOrder h) (intKey key) := by
  have hbelow : ∀ k : Key .int, (insertProbeInt key).below k.1 = decide (k.1.cmp pj1Cmp (intKey key).1 = .lt) :=
    int_cases fun i => decide_eq_decide.mpr (Int64.lt_iff_toInt_lt.trans compare_lt_iff_lt.symm)
  have hupTo : ∀ k : Key .int, (insertProbeInt key).upTo k.1 = decide (k.1.cmp pj1Cmp (intKey key).1 ≠ .gt) :=
    int_cases fun i => decide_eq_decide.mpr (Int64.le_iff_toInt_le.trans compare_le_iff_le.symm)
  have hequal : ∀ k : Key .int, (insertProbeInt key).equal k.1 = decide (k = intKey key) :=
    int_cases fun i => decide_eq_decide.mpr ⟨congrArg intKey,fun h => Value.int.inj (congrArg val h)⟩
  simp only [Probe.comap,comp_def,hbelow,hupTo,hequal]
  rfl

lemma searchProbeInt_comap (h : KeyOrder pj1Cmp .int) (key : Int64) :
    (searchProbeInt key).comap val = @probe _ (keyOrder h) (intKey key) := by
  rw [← insertProbeInt_comap h]
  have hbelow : ∀ k : Key .int, (searchProbeInt key).below k.1 = (insertProbeInt key).below k.1 :=
    int_cases fun _ => rfl
  simp only [Probe.comap,comp_def,hbelow]
  rfl

/-- A tree over keys of the type that has the shape of a B+tree, and its entries. -/
def Holds (pj1Cmp : Bytes → Bytes → Ordering) (t : TypeId) (tree : UniqueTree) (m : List (Value × RowId)) : Prop :=
  ∃ (t₀ : Tree (Key t) RowId) (L : List (Leaf (Key t) RowId)), tree = t₀.map val ∧
    Shape (fun a b : Key t => a.1.cmp pj1Cmp b.1 = .lt) order t₀ L ∧ m = mapEntries val (entries L)

lemma filter_mapEntries {K K' R : Type} (f : K → K') (p : K' × R → Bool) (q : K × R → Bool) (es : List (K × R))
    (h : ∀ e ∈ es, p (f e.1,e.2) = q e) : (mapEntries f es).filter p = mapEntries f (es.filter q) := by
  rw [mapEntries,filter_map,mapEntries]
  congr 1
  exact filter_congr h

section Maps
variable (es : List (Key t × RowId))

lemma mapInsert_mapEntries (h : KeyOrder pj1Cmp t) (key : Key t) (rid : RowId)
    (hes : es.Pairwise (fun a b => a.1.1.cmp pj1Cmp b.1.1 = .lt)) :
    mapInsert pj1Cmp key.1 rid (mapEntries val es) =
      mapEntries val (@put _ _ (keyOrder h) key rid es) := by
  let _ := keyOrder h
  have hput : put key rid es = es.filter (fun e => decide (e.1 < key))++(key,rid)::es.filter (fun e => decide (key < e.1)) :=
    put_eq_filter hes
  rw [hput,mapInsert,filter_mapEntries val _ (fun e => decide (e.1 < key)) es (fun _ _ => rfl),
    filter_mapEntries val _ (fun e => decide (key < e.1)) es]
  · simp [mapEntries]
  · intro e _
    have hswap := h.swap e.1.1 key.1 e.1.2 key.2
    have hiff : e.1.1.cmp pj1Cmp key.1 = .gt ↔ key < e.1 := by
      rw [show key < e.1 ↔ key.1.cmp pj1Cmp e.1.1 = .lt from Iff.rfl,hswap]
      cases e.1.1.cmp pj1Cmp key.1 <;> simp
    exact decide_eq_decide.mpr hiff

lemma mapDelete_mapEntries (h : KeyOrder pj1Cmp t) {D : Type} (g : D → Key t) (ds : List D) :
    mapDelete (ds.map fun d => (g d).1) (mapEntries val es) =
      mapEntries Subtype.val (@withoutAll _ _ _ (keyOrder h) g ds es) := by
  apply filter_mapEntries
  simp [Subtype.ext_iff]

lemma mapFind_mapEntries (h : KeyOrder pj1Cmp t) (key : Key t) :
    mapFind key.1 (mapEntries val es) = @find _ _ (keyOrder h) key es := by
  let _ := keyOrder h
  have hsame : (fun e : Key t × RowId => decide (e.1.1 = key.1)) = fun e => decide (e.1 = key) := by
    funext e
    exact decide_eq_decide.mpr Subtype.ext_iff.symm
  rw [mapFind,mapEntries,find?_map,find,Option.map_map,← hsame]
  rfl

end Maps

/-! ### One call -/
section Calls

lemma holds_create (h : KeyOrder pj1Cmp t) : Holds pj1Cmp t create [] :=
  ⟨create,[(0,[])],rfl,@create_shape _ _ (keyOrder h) _,rfl⟩

lemma Holds.insert (h : KeyOrder pj1Cmp t) (hh : Holds pj1Cmp t tree m)
    (hq : q.comap Subtype.val = @probe _ (keyOrder h) key) (rid : RowId) :
    ∃ tree', Tree.insert q order key.1 rid tree = some tree' ∧ Holds pj1Cmp t tree' (mapInsert pj1Cmp key.1 rid m) := by
  obtain ⟨t₀,L,rfl,hshape,rfl⟩ := hh
  let _ := keyOrder h
  obtain ⟨t',L',hins,hshape',hentries⟩ := insert_spec (show 0 < order by decide) key rid hshape
  refine ⟨t'.map val,?_,t',L',rfl,hshape',?_⟩
  · rw [insert_map,hq,hins]
    rfl
  · rw [mapInsert_mapEntries _ h key rid (Shape.sorted hshape),hentries]

lemma Holds.delete (h : KeyOrder pj1Cmp t) (hh : Holds pj1Cmp t tree m)
    (hq : q.comap Subtype.val = @probe _ (keyOrder h) key) :
    ∃ tree', Tree.delete q tree = some (tree',(mapFind key.1 m).isSome) ∧
      Holds pj1Cmp t tree' (mapDelete [key.1] m) := by
  obtain ⟨t₀,L,rfl,hshape,rfl⟩ := hh
  let _ := keyOrder h
  obtain ⟨t',L',hdel,hshape',hentries⟩ := delete_spec hshape key
  refine ⟨t'.map val,?_,t',L',rfl,hshape',?_⟩
  · rw [delete_map,hq,hdel,mapFind_mapEntries _ h]
    rfl
  · have hwithout : withoutAll (fun k : Key t => k) [key] (entries L) = without key (entries L) := by
      simp [withoutAll,without]
    rw [hentries,← hwithout,← mapDelete_mapEntries _ h]
    rfl

open UniqueTree

lemma Holds.deleteManyInt (h : KeyOrder pj1Cmp .int) (hh : Holds pj1Cmp .int tree m) {keys : List Int64}
    (hkeys : keys.Pairwise (· ≤ ·)) : ∃ tree' n, deleteManyInt tree keys = some (tree',n) ∧
      Holds pj1Cmp .int tree' (mapDelete (keys.map .int) m) ∧ n+(mapDelete (keys.map .int) m).length = m.length := by
  obtain ⟨t₀,L,rfl,hshape,rfl⟩ := hh
  let _ := keyOrder h
  have hsorted : keys.Pairwise (fun a b => intKey a ≤ intKey b) :=
    hkeys.imp fun hle => compare_le_iff_le.mpr (Int64.le_iff_toInt_le.mp hle)
  obtain ⟨t',n,L',hdel,hshape',hentries,hcount⟩ := deleteMany_spec hsorted hshape
  have hbefore : (fun (d : Int64) (k : Key .int) => match k.1 with | .int i => decide (d < i) | _ => false) =
      fun d k => decide (intKey d < k) := by
    funext d k
    exact int_cases (P := fun k => (match k.1 with | .int i => decide (d < i) | _ => false) = decide (intKey d < k))
      (fun i => decide_eq_decide.mpr (Int64.lt_iff_toInt_lt.trans compare_lt_iff_lt.symm)) k
  have hhit : (fun (d : Int64) (k : Key .int) => match k.1 with | .int i => decide (d = i) | _ => false) =
      fun d k => decide (intKey d = k) := by
    funext d k
    exact int_cases (P := fun k => (match k.1 with | .int i => decide (d = i) | _ => false) = decide (intKey d = k))
      (fun i => decide_eq_decide.mpr ⟨congrArg intKey,fun h => Value.int.inj (congrArg val h)⟩) k
  have hmap : mapDelete (keys.map .int) (mapEntries val (entries L)) = mapEntries val (entries L') := by
    rw [hentries,← mapDelete_mapEntries _ h]
    rfl
  refine ⟨t'.map val,n,?_,⟨t',L',rfl,hshape',hmap⟩,?_⟩
  · rw [UniqueTree.deleteManyInt,Tree.deleteMany_map,hbefore,hhit,hdel]
    rfl
  · rwa [hmap,mapEntries,mapEntries,length_map,length_map]

/-- A call keeps the shape, and does to the entries what it does to the map. -/
lemma Holds.apply (h : KeyOrder pj1Cmp t) (hh : Holds pj1Cmp t tree m) {op : Op} (hop : op.KeysOf t) :
    ∃ tree', UniqueTree.apply pj1Cmp tree op = some tree' ∧ Holds pj1Cmp t tree' (op.onMap pj1Cmp m) := by
  cases op with
  | insert key rid =>
    refine hh.insert h (show _ = @probe _ (keyOrder h) ⟨key,hop⟩ from ?_) rid
    simp only [probe,Subtype.ext_iff]
    rfl
  | insertInt key rid =>
    obtain rfl : t = .int := hop
    exact hh.insert h (insertProbeInt_comap h key) rid
  | delete key =>
    obtain ⟨tree',hdel,hh'⟩ := hh.delete h (searchProbe_comap h ⟨key,hop⟩)
    exact ⟨tree',congrArg (Option.map Prod.fst) hdel,hh'⟩
  | deleteInt key =>
    obtain rfl : t = .int := hop
    obtain ⟨tree',hdel,hh'⟩ := hh.delete h (searchProbeInt_comap h key)
    exact ⟨tree',congrArg (Option.map Prod.fst) hdel,hh'⟩
  | deleteManyInt keys =>
    by_cases hnil : keys = []
    · subst hnil
      refine ⟨tree,rfl,?_⟩
      have hsame : Op.onMap pj1Cmp m (.deleteManyInt []) = m := by simp [Op.onMap,mapDelete]
      rw [hsame]
      exact hh
    · obtain rfl : t = .int := hop.1 hnil
      obtain ⟨tree',n,hdel,hh',-⟩ := hh.deleteManyInt h hop.2
      exact ⟨tree',congrArg (Option.map Prod.fst) hdel,hh'⟩

lemma Holds.build (h : KeyOrder pj1Cmp t) (hops : ∀ op ∈ ops, op.KeysOf t) :
    ∃ tree, UniqueTree.build pj1Cmp ops = some tree ∧ Holds pj1Cmp t tree (history pj1Cmp ops) := by
  have hrun : ∀ (ops : List Op) (tree : UniqueTree) (m : List (Value × RowId)), (∀ op ∈ ops, op.KeysOf t) →
      Holds pj1Cmp t tree m → ∃ tree', ops.foldlM (UniqueTree.apply pj1Cmp) tree = some tree' ∧
        Holds pj1Cmp t tree' (ops.foldl (Op.onMap pj1Cmp) m) := by
    intro ops
    induction ops with
    | nil => exact fun tree m _ hh => ⟨tree,rfl,hh⟩
    | cons op ops ih =>
      intro tree m hops hh
      obtain ⟨tree₁,happly,hh₁⟩ := hh.apply h (hops op (by simp))
      obtain ⟨tree',hrest,hh'⟩ := ih tree₁ _ (fun op hop => hops op (mem_cons_of_mem _ hop)) hh₁
      refine ⟨tree',?_,hh'⟩
      rw [foldlM_cons,happly]
      exact hrest
  exact hrun ops create [] hops (holds_create h)

/-! ### Reads -/

lemma Holds.lookup (h : KeyOrder pj1Cmp t) (hh : Holds pj1Cmp t tree m)
    (hq : q.comap Subtype.val = @probe _ (keyOrder h) key) : Tree.lookup q tree = some (mapFind key.1 m) := by
  obtain ⟨t₀,L,rfl,hshape,rfl⟩ := hh
  let _ := keyOrder h
  rw [lookup_map,hq,lookup_spec hshape key,mapFind_mapEntries _ h]

section Ranges
variable (h : KeyOrder pj1Cmp t) (key k : Key t)

lemma decide_ge : decide (k.1.cmp pj1Cmp key.1 ≠ .lt) = @decide ((keyOrder h).le key k) ((keyOrder h).toDecidableLE key k) := by
  let _ := keyOrder h
  exact decide_eq_decide.mpr (not_lt (a := k) (b := key))

lemma decide_gt : decide (k.1.cmp pj1Cmp key.1 = .gt) = @decide ((keyOrder h).lt key k) ((keyOrder h).toDecidableLT key k) := by
  let _ := keyOrder h
  exact decide_eq_decide.mpr (not_iff_not.mp (not_lt (a := key) (b := k)).symm)

end Ranges

section
variable (h : KeyOrder pj1Cmp t)
include h

lemma Holds.range (hh : Holds pj1Cmp t tree m) (start bound : Key t) :
    range pj1Cmp tree start.1 bound.1 = some (m.filter fun e =>
      decide (e.1.cmp pj1Cmp start.1 ≠ .lt) && decide (e.1.cmp pj1Cmp bound.1 ≠ .gt)) := by
  obtain ⟨t₀,L,rfl,hshape,rfl⟩ := hh
  let _ := keyOrder h
  rw [UniqueTree.range,Tree.scanFrom_map,searchProbe_comap h]
  simp only [comp_def,decide_ge h,decide_gt h]
  have hrange : t₀.scanFrom (probe start) (fun k => decide (bound < k)) (fun k => decide (start ≤ k)) = _ :=
    range_spec hshape start bound
  rw [hrange]
  exact congrArg some (filter_mapEntries _ _ _ _ fun e _ => congrArg (· && _) (decide_ge h start e.1)).symm

lemma Holds.rangeFrom (hh : Holds pj1Cmp t tree m) (start : Key t) :
    rangeFrom pj1Cmp tree start.1 = some (m.filter fun e => decide (e.1.cmp pj1Cmp start.1 ≠ .lt)) := by
  obtain ⟨t₀,L,rfl,hshape,rfl⟩ := hh
  let _ := keyOrder h
  rw [UniqueTree.rangeFrom,Tree.scanFrom_map,searchProbe_comap h]
  simp only [comp_def,decide_ge h]
  have hrange : t₀.scanFrom (probe start) (fun _ => false) (fun k => decide (start ≤ k)) = _ :=
    range_from_spec hshape start
  rw [hrange]
  exact congrArg some (filter_mapEntries _ _ _ _ fun e _ => decide_ge h start e.1).symm

lemma Holds.rangeTo (hh : Holds pj1Cmp t tree m) (bound : Key t) :
    rangeTo pj1Cmp tree bound.1 = some (m.filter fun e => decide (e.1.cmp pj1Cmp bound.1 ≠ .gt)) := by
  obtain ⟨t₀,L,rfl,hshape,rfl⟩ := hh
  let _ := keyOrder h
  rw [UniqueTree.rangeTo,Tree.scanAll_map]
  simp only [comp_def,decide_gt h]
  have hrange : t₀.scanAll (fun k => decide (bound < k)) (fun _ => true) = _ := range_to_spec hshape bound
  rw [hrange]
  refine congrArg some (Eq.symm ?_)
  apply filter_mapEntries
  intro e _
  rfl

lemma Holds.len (hh : Holds pj1Cmp t tree m) : len tree = some m.length := by
  obtain ⟨t₀,L,rfl,hshape,rfl⟩ := hh
  let _ := keyOrder h
  rw [len_map,len_spec hshape,mapEntries,length_map]

end

/-- The tree as it stands has the shape of a B+tree of the storage order. -/
lemma Holds.shape (hh : Holds pj1Cmp t tree m) :
    ∃ L, Shape (fun a b => a.cmp pj1Cmp b = .lt) order tree L ∧ entries L = m := by
  obtain ⟨t₀,L,rfl,hshape,rfl⟩ := hh
  exact ⟨mapLeaves val L,Shape.map hshape,entries_mapLeaves L⟩

end Calls
end Typed

/-- The tree of any history over keys of one totally ordered type keeps its shape, and every
read answers as the sorted map with the same history does. -/
theorem unique_tree_is_sorted_map (pj1Cmp : Bytes → Bytes → Ordering) (t : TypeId) (h : KeyOrder pj1Cmp t)
    (ops : List Op) (hops : ∀ op ∈ ops, op.KeysOf t) :
    ∃ tree L, build pj1Cmp ops = some tree ∧ Shape (fun a b => a.cmp pj1Cmp b = .lt) order tree L ∧
      entries L = history pj1Cmp ops ∧
      (∀ key, key.typeId = t → tree.lookup pj1Cmp key = some (mapFind key (history pj1Cmp ops))) ∧
      (∀ key, t = .int → tree.lookupInt key = some (mapFind (.int key) (history pj1Cmp ops))) ∧
      (∀ start bound, start.typeId = t → bound.typeId = t → tree.range pj1Cmp start bound =
        some ((history pj1Cmp ops).filter fun e =>
          decide (e.1.cmp pj1Cmp start ≠ .lt) && decide (e.1.cmp pj1Cmp bound ≠ .gt))) ∧
      (∀ start, start.typeId = t → tree.rangeFrom pj1Cmp start =
        some ((history pj1Cmp ops).filter fun e => decide (e.1.cmp pj1Cmp start ≠ .lt))) ∧
      (∀ bound, bound.typeId = t → tree.rangeTo pj1Cmp bound =
        some ((history pj1Cmp ops).filter fun e => decide (e.1.cmp pj1Cmp bound ≠ .gt))) ∧
      Tree.len tree = some (history pj1Cmp ops).length := by
  obtain ⟨tree,hbuild,hh⟩ := Holds.build h hops
  obtain ⟨L,hshape,hentries⟩ := hh.shape
  refine ⟨tree,L,hbuild,hshape,hentries,?_,?_,?_,?_,?_,hh.len h⟩
  · exact fun key hkey => hh.lookup h (searchProbe_comap h ⟨key,hkey⟩)
  · rintro key rfl
    exact hh.lookup h (searchProbeInt_comap h key)
  · exact fun start bound hstart hbound => hh.range h ⟨start,hstart⟩ ⟨bound,hbound⟩
  · exact fun start hstart => hh.rangeFrom h ⟨start,hstart⟩
  · exact fun bound hbound => hh.rangeTo h ⟨bound,hbound⟩

/-- Five calls on integer keys through both paths. -/
def sampleCalls : List Op :=
  [.insert (.int 5) ⟨1,0⟩,.insertInt 3 ⟨1,1⟩,.insertInt 5 ⟨2,0⟩,.deleteManyInt [1,3],.insertInt (-7) ⟨2,1⟩]

theorem sampleCalls_tree : history compare sampleCalls = [(.int (-7),⟨2,1⟩),(.int 5,⟨2,0⟩)] ∧
    ∃ tree, build compare sampleCalls = some tree ∧ tree.lookupInt 5 = some (some ⟨2,0⟩) ∧
      tree.rangeTo compare (.int 0) = some [(.int (-7),⟨2,1⟩)] ∧ Tree.len tree = some 2 := by
  have hhistory : history compare sampleCalls = [(.int (-7),⟨2,1⟩),(.int 5,⟨2,0⟩)] := by decide +kernel
  have hkeys : ∀ op ∈ sampleCalls, op.KeysOf .int := by
    simp [sampleCalls,Op.KeysOf,Value.typeId]
  obtain ⟨tree,L,hbuild,-,-,-,hlookup,-,-,hto,hlen⟩ :=
    unique_tree_is_sorted_map compare .int (keyOrder_of_ne_json compare nofun) sampleCalls hkeys
  rw [hhistory] at hlookup hto hlen
  refine ⟨hhistory,tree,hbuild,hlookup 5 rfl,?_,hlen⟩
  rw [hto (.int 0) rfl]
  decide +kernel

end UniqueTree
end PowDB.Storage

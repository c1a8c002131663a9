import PowDB.Lib.Assign
import PowDB.Storage.Replay

/-! Redo of one page. What the log says about a page is a list of slot
operations with their LSNs; `redo` applies them to an image of the page the way
recovery does, as long as every operation stays on the page. `PageInv` relates
the image on disk, the page in memory and the logged operations. -/
namespace PowDB.Storage
open Lib List Option Page Nat
inductive PageOp
  | insert (slot : ℕ) (row : Row)
  | update (slot : ℕ) (row : Row)
  | delete (slot : ℕ)
  | stamp
  deriving DecidableEq

/-- The operation a record makes on page `i` of table `t`. A column change whose
column is already as it should be only stamps the table's pages. -/
def WalRecord.opOn (t : String) (i : ℕ) (rec : WalRecord) : Option (ℕ × PageOp) :=
  match rec.type with
  | .insert t' rid row => if t' = t ∧ rid.page = i then some (rec.lsn,.insert rid.slot row) else none
  | .update t' rid row => if t' = t ∧ rid.page = i then some (rec.lsn,.update rid.slot row) else none
  | .delete t' rid => if t' = t ∧ rid.page = i then some (rec.lsn,.delete rid.slot) else none
  | .ddlAddColumn t' _ => if t' = t then some (rec.lsn,.stamp) else none
  | .ddlDropColumn t' _ => if t' = t then some (rec.lsn,.stamp) else none
  | _ => none

def pageOps (log : List WalRecord) (t : String) (i : ℕ) : List (ℕ × PageOp) :=
  log.filterMap (·.opOn t i)

namespace Page
variable {p : Page}

def applyOp (p : Page) : PageOp → Option Page
  | .insert s r => HeapFile.placeAt (HeapFile.unblank p) s r
  | .update s r => p.update s r
  | .delete s => some (p.delete s)
  | .stamp => some p

/-- One guarded operation. -/
def redoOp (p : Page) (x : ℕ × PageOp) : Option Page :=
  if x.1 ≤ p.lsn then some p else (p.applyOp x.2).map (·.setLsn x.1)

def redo (p : Page) : List (ℕ × PageOp) → Option Page
  | [] => some p
  | x::xs => (p.redoOp x).bind (·.redo xs)

lemma redo_append (p : Page) (xs ys : List (ℕ × PageOp)) : p.redo (xs++ys) = (p.redo xs).bind (·.redo ys) := by
  induction xs generalizing p with
  | nil => rfl
  | cons x xs ih =>
    simp only [cons_append,redo]
    cases p.redoOp x with
    | none => rfl
    | some q => exact ih q

/-- The same page under another LSN. -/
def withLsn (p : Page) (l : ℕ) : Page := {p with lsn := l}

@[simp] lemma withLsn_lsn (p : Page) (l : ℕ) : (p.withLsn l).lsn = l := rfl
@[simp] lemma withLsn_slots (p : Page) (l : ℕ) : (p.withLsn l).slots = p.slots := rfl
@[simp] lemma withLsn_freeStart (p : Page) (l : ℕ) : (p.withLsn l).freeStart = p.freeStart := rfl
@[simp] lemma withLsn_withLsn (p : Page) (l l' : ℕ) : (p.withLsn l).withLsn l' = p.withLsn l' := rfl
@[simp] lemma withLsn_get (p : Page) (l s : ℕ) : (p.withLsn l).get s = p.get s := rfl
lemma withLsn_setLsn (h : l < l') : (p.withLsn l).setLsn l' = p.withLsn l' := by
  simp [setLsn,withLsn,h]
lemma setLsn_of_lt (h : p.lsn < l) : p.setLsn l = p.withLsn l := by
  simp [setLsn,withLsn,h]

lemma freeSpace_withLsn (p : Page) (l : ℕ) : (p.withLsn l).freeSpace = p.freeSpace := rfl
lemma deadSpace_withLsn (p : Page) (l : ℕ) : (p.withLsn l).deadSpace = p.deadSpace := rfl
lemma compact_withLsn (p : Page) (l : ℕ) : (p.withLsn l).compact = p.compact.withLsn l := rfl

lemma insertAtSlot_withLsn (p : Page) (l s : ℕ) (r : Row) :
    (p.withLsn l).insertAtSlot s r = (p.insertAtSlot s r).map (·.withLsn l) := by
  simp only [insertAtSlot,apply_ite (Option.map _)]
  rfl

lemma update_withLsn (p : Page) (l s : ℕ) (r : Row) :
    (p.withLsn l).update s r = (p.update s r).map (·.withLsn l) := by
  simp only [update,withLsn_get,freeSpace_withLsn]
  cases p.get s with
  | none => rfl
  | some old =>
    simp only [apply_ite (Option.map _)]
    rfl

lemma unblank_eq (hp : pageHeaderSize ≤ p.freeStart) : HeapFile.unblank p = p := by
  simp [HeapFile.unblank,not_lt.mpr hp]

lemma placeAt_withLsn (p : Page) (l s : ℕ) (r : Row) :
    HeapFile.placeAt (p.withLsn l) s r = (HeapFile.placeAt p s r).map (·.withLsn l) := by
  simp only [HeapFile.placeAt,insertAtSlot_withLsn,deadSpace_withLsn,compact_withLsn]
  cases p.insertAtSlot s r with
  | some q => rfl
  | none =>
    dsimp only [map_none]
    split <;> rfl

/-- Slot operations read and write everything but the LSN. -/
lemma applyOp_withLsn (hp : pageHeaderSize ≤ p.freeStart) (l : ℕ) (op : PageOp) :
    (p.withLsn l).applyOp op = (p.applyOp op).map (·.withLsn l) := by
  cases op with
  | insert s r =>
    simp only [applyOp]
    rw [unblank_eq hp,unblank_eq (p := p.withLsn l) hp,placeAt_withLsn]
  | update s r => exact update_withLsn p l s r
  | delete s | stamp => rfl

variable {s : ℕ}

lemma compact_header (p : Page) : pageHeaderSize ≤ p.compact.freeStart := le_add_right _ _

/-- Page `q` is page `p` after it took the row `r`. -/
structure Takes (p q : Page) (r : Row) : Prop where
  header : pageHeaderSize ≤ p.freeStart → pageHeaderSize ≤ q.freeStart
  lsn : q.lsn = p.lsn
  rows : ∀ s x, q.get s = some x → p.get s = some x ∨ x = r

lemma insertAtSlot_takes (h : p.insertAtSlot s r = some q) : p.Takes q r := by
  unfold insertAtSlot at h
  split at h
  · cases h
    exact ⟨id,rfl,fun _ _ => .inl⟩
  · split at h
    · cases h
    · cases h
      refine ⟨le_add_right_of_le,rfl,fun s' x hx => ?_⟩
      rw [get_eq_some] at hx ⊢
      rw [append_assoc,getElem?_append] at hx
      split at hx
      · exact .inl hx
      · rw [getElem?_append] at hx
        split at hx
        · rw [getElem?_replicate] at hx
          split at hx <;> simp at hx
        · have := mem_of_getElem? hx
          simp only [mem_singleton,some.injEq] at this
          exact .inr this

lemma placeAt_takes (h : HeapFile.placeAt p s r = some q) : p.Takes q r := by
  unfold HeapFile.placeAt at h
  cases hi : p.insertAtSlot s r with
  | some q' =>
    rw [hi] at h
    cases h
    exact insertAtSlot_takes hi
  | none =>
    rw [hi] at h
    dsimp only at h
    split at h
    · have htakes := insertAtSlot_takes h
      exact ⟨fun _ => htakes.header (compact_header p),htakes.lsn,htakes.rows⟩
    · cases h

lemma get_set (p : Page) (f s s' : ℕ) (v : Option Row) (l : ℕ) :
    get ⟨l,f,p.slots.set s v⟩ s' = if s = s' ∧ s < p.slots.length then v else p.get s' := by
  unfold get
  by_cases h : s = s'
  · subst h
    by_cases hs : s < p.slots.length <;> simp [hs]
  · simp [h]

lemma get_set_some (h : get ⟨l,f,p.slots.set s v⟩ s' = some x) :
    p.get s' = some x ∨ v = some x := by
  rw [get_set] at h
  split at h
  · exact .inr h
  · exact .inl h

lemma get_delete (p : Page) (s s' : ℕ) : (p.delete s).get s' = if s' = s then none else p.get s' := by
  by_cases h : s' = s
  · subst h
    by_cases hlt : s' < p.slots.length <;> simp [get,hlt]
  · simp [get,h,Ne.symm h]

lemma delete_get (h : (p.delete s).get s' = some x) : p.get s' = some x := by
  rw [get_delete] at h
  split at h
  · cases h
  · exact h

lemma get_set_live (hlt : s < p.slots.length) (r : Row) (s' : ℕ) :
    (p.shrinkTo s r).get s' = if s' = s then some r else p.get s' := by
  rw [shrinkTo,get_set]
  simp [hlt,eq_comm]

lemma update_eq_some (h : p.update s r = some q) :
    s < p.slots.length ∧ ∃ f, p.freeStart ≤ f ∧ q = ⟨p.lsn,f,p.slots.set s (some r)⟩ := by
  unfold update at h
  split at h
  · cases h
  · next old hold =>
    split_ifs at h <;> cases h
    · exact ⟨get_some_lt hold,_,le_rfl,rfl⟩
    · exact ⟨get_some_lt hold,_,le_add_right _ _,rfl⟩

lemma update_get (h : p.update s r = some q) (s' : ℕ) :
    q.get s' = if s' = s then some r else p.get s' := by
  obtain ⟨hlt,f,-,rfl⟩ := update_eq_some h
  exact get_set_live hlt r s'

lemma update_takes (h : p.update s r = some q) : p.Takes q r := by
  obtain ⟨-,f,hf,rfl⟩ := update_eq_some h
  refine ⟨fun hp => hp.trans hf,rfl,fun s' x hx => ?_⟩
  exact (get_set_some hx).imp_right fun hx => (some.inj hx).symm

lemma applyOp_header (hp : pageHeaderSize ≤ p.freeStart) (h : p.applyOp op = some q) :
    pageHeaderSize ≤ q.freeStart := by
  cases op with
  | insert s r =>
    rw [applyOp,unblank_eq hp] at h
    exact (placeAt_takes h).header hp
  | update s r => exact (update_takes h).header hp
  | delete s | stamp => cases h; exact hp

lemma insertAtSlot_length (p : Page) (r : Row) : p.insertAtSlot p.slots.length r = (p.insert r).map (·.2) := by
  by_cases hf : p.freeSpace < r.len+slotEntrySize <;> simp [insertAtSlot,insert,hf]

lemma insert_slot (h : p.insert r = some (s,q)) : s = p.slots.length := by
  unfold insert at h
  split at h
  · cases h
  · cases h; rfl

/-- The live insert, with its compaction, is replay's placement at the slot it returned. -/
lemma placeAt_of_insert
    (h : (HeapFile.reclaim p (r.len+slotEntrySize)).insert r = some (s,q)) : HeapFile.placeAt p s r = some q := by
  by_cases hc : p.freeSpace < r.len+slotEntrySize ∧ 0 < p.deadSpace
  · rw [HeapFile.reclaim,if_pos hc] at h
    have hs : s = p.compact.slots.length := insert_slot h
    have hn : p.insert r = none := by simp [insert,hc.1]
    rw [hs,compact_slots,HeapFile.placeAt,insertAtSlot_length,hn]
    have hq := insertAtSlot_length p.compact r
    rw [compact_slots,h] at hq
    simpa [hc.2] using hq
  · rw [HeapFile.reclaim,if_neg hc] at h
    rw [insert_slot h,HeapFile.placeAt,insertAtSlot_length,h]
    rfl

end Page

/-- The slot an operation writes and what it leaves there. -/
def PageOp.assign : PageOp → List (ℕ × Option Row)
  | .insert s r => [(s,some r)]
  | .update s r => [(s,some r)]
  | .delete s => [(s,none)]
  | .stamp => []

namespace Page

/-- Running the operation again on a page shaped like `p` stays within the old bytes. -/
def Repeats (p : Page) : PageOp → Prop
  | .insert _ _ => False
  | .update s r => (p.get s).map Row.len = some r.len
  | .delete s => p.get s = none
  | .stamp => True

/-- What the page must look like after an operation that did not raise its LSN. -/
def Settled (p : Page) : PageOp → Prop
  | .insert _ _ => False
  | .update s r => ∀ old, p.get s = some old → old.len ≤ r.len
  | .delete s => p.get s = none
  | .stamp => True

/-- Rows may go and shrink. -/
lemma Settled.mono {p q : Page} (h : p.Settled op)
    (hrows : ∀ s cur, q.get s = some cur → ∃ old, p.get s = some old ∧ cur.len ≤ old.len) : q.Settled op := by
  cases op with
  | insert s r => exact h
  | update s r =>
    intro cur hcur
    obtain ⟨old,hold,hle⟩ := hrows s cur hcur
    exact hle.trans (h old hold)
  | delete s =>
    refine eq_none_iff_forall_ne_some.mpr fun cur hcur => ?_
    obtain ⟨old,hold,-⟩ := hrows s cur hcur
    exact nomatch hold.symm.trans h
  | stamp => trivial

/-- Logged operations that the page's LSN does not cover. -/
def stale (p : Page) (ops : List (ℕ × PageOp)) : List (ℕ × PageOp) :=
  ops.filter (fun x => p.lsn < x.1)

lemma delete_of_get_none {p : Page} (h : p.get s = none) : p.delete s = p := by
  have hset : p.slots.set s none = p.slots := by
    by_cases hlt : s < p.slots.length
    · have hnone : p.slots[s] = none := by simpa [get,hlt] using h
      rw [← hnone,set_getElem_self]
    · exact set_eq_of_length_le (Nat.le_of_not_lt hlt)
  cases p
  simpa [delete] using hset

lemma delete_of_length_le {p : Page} (h : p.slots.length ≤ s) : p.delete s = p :=
  delete_of_get_none (by simp [get,getElem?_eq_none h])

/-- An operation carried out within the slot's old bytes. -/
def write (p : Page) (op : PageOp) : Page :=
  {p with slots := assignAll p.slots op.assign}

@[simp] lemma write_lsn (p : Page) (op : PageOp) : (p.write op).lsn = p.lsn := rfl
@[simp] lemma write_freeStart (p : Page) (op : PageOp) : (p.write op).freeStart = p.freeStart := rfl
@[simp] lemma write_slots (p : Page) (op : PageOp) : (p.write op).slots = assignAll p.slots op.assign := rfl

/-- A repeated operation is taken in place on any page of the same shape, and keeps the shape. -/
lemma applyOp_repeats {v p : Page} (hr : v.Repeats op)
    (hshape : ∀ s, (p.get s).map Row.len = (v.get s).map Row.len) : p.applyOp op = some (p.write op) ∧
      ∀ s, ((p.write op).get s).map Row.len = (v.get s).map Row.len := by
  cases op with
  | insert s r => exact hr.elim
  | update s r =>
    have hs : (p.get s).map Row.len = some r.len := (hshape s).trans hr
    obtain ⟨old,hold,hlen⟩ := map_eq_some_iff.mp hs
    constructor
    · simp [applyOp,update,hold,hlen,write,PageOp.assign]
    · intro s'
      rw [show p.write (.update s r) = ⟨p.lsn,p.freeStart,p.slots.set s (some r)⟩ from rfl,get_set]
      split
      · rename_i h; obtain ⟨rfl,-⟩ := h; exact hr.symm
      · exact hshape s'
  | delete s =>
    have hs : p.get s = none := by simpa [show v.get s = none from hr] using hshape s
    refine ⟨rfl,fun s' => ?_⟩
    rw [show p.write (.delete s) = p from delete_of_get_none hs]
    exact hshape s'
  | stamp => exact ⟨rfl,hshape⟩

/-- Redo over a page that already holds the operations' outcome: every one is
taken again, in place, and only slot contents move. -/
lemma redo_repeats {v : Page} (xs : List (ℕ × PageOp)) (p : Page) (hsorted : xs.Pairwise (·.1 < ·.1))
    (habove : ∀ x ∈ xs, p.lsn < x.1) (hshape : ∀ s, (p.get s).map Row.len = (v.get s).map Row.len)
    (hrep : ∀ x ∈ xs, v.Repeats x.2) : ∃ l, (∀ b, p.lsn ≤ b → (∀ x ∈ xs, x.1 ≤ b) → l ≤ b) ∧
      p.redo xs = some ⟨l,p.freeStart,assignAll p.slots (xs.flatMap (·.2.assign))⟩ := by
  induction xs generalizing p with
  | nil => exact ⟨p.lsn,fun b hb _ => hb,rfl⟩
  | cons x xs ih =>
    have hl : p.lsn < x.1 := habove x mem_cons_self
    obtain ⟨hq,hqv⟩ := applyOp_repeats (hrep x mem_cons_self) hshape
    obtain ⟨hhead,htail⟩ := pairwise_cons.mp hsorted
    have hsl : (p.write x.2).setLsn x.1 = (p.write x.2).withLsn x.1 := setLsn_of_lt hl
    obtain ⟨l,hle,hredo⟩ := ih ((p.write x.2).withLsn x.1) htail hhead hqv
      (fun y hy => hrep y (mem_cons_of_mem _ hy))
    refine ⟨l,fun b _ hb => hle b (hb x mem_cons_self)
      (fun y hy => hb y (mem_cons_of_mem _ hy)),?_⟩
    simp only [redo,redoOp,not_le.mpr hl,if_false,hq,map_some,bind_some,hsl,hredo]
    simp [assignAll_append]

/-- Operations the page's LSN covers are skipped. -/
lemma redo_stale (p : Page) (hsorted : ops.Pairwise (·.1 < ·.1)) :
    p.redo ops = p.redo (p.stale ops) := by
  induction ops with
  | nil => rfl
  | cons x ops ih =>
    obtain ⟨hhead,htail⟩ := pairwise_cons.mp hsorted
    by_cases hx : p.lsn < x.1
    · have hall : (x::ops).filter (fun y => decide (p.lsn < y.1)) = x::ops := by
        rw [filter_eq_self]
        intro y hy
        rcases mem_cons.mp hy with rfl | hy
        · simpa using hx
        · simpa using hx.trans (hhead y hy)
      rw [stale,hall]
    · simp only [redo,redoOp,Nat.le_of_not_lt hx,stale,filter_cons,
        hx]
      exact ih htail

end Page

/-- What holds of a page between the image on disk, the page in memory and the
operations the log has for it: redo of the log over the disk image gives the
page in memory, up to its LSN, and what memory's LSN does not cover has settled. -/
structure PageInv (last : ℕ) (disk mem : Page) (ops : List (ℕ × PageOp)) : Prop where
  cover : ∃ l, l ≤ last ∧ disk.redo ops = some (mem.withLsn l)
  header : pageHeaderSize ≤ mem.freeStart
  sorted : ops.Pairwise (·.1 < ·.1)
  bound : ∀ x ∈ ops, x.1 ≤ last
  lsn_le : mem.lsn ≤ last
  settled : ∀ x ∈ mem.stale ops, mem.Settled x.2
  outcome : assignAll mem.slots ((mem.stale ops).flatMap (·.2.assign)) = mem.slots

namespace PageInv

lemma refl (hp : pageHeaderSize ≤ p.freeStart) (hl : p.lsn ≤ last) : PageInv last p p [] :=
  ⟨⟨p.lsn,hl,rfl⟩,hp,List.Pairwise.nil,by simp,hl,by simp [Page.stale],rfl⟩

lemma mono (h : PageInv last disk mem ops) (hl : last ≤ last') : PageInv last' disk mem ops :=
  let ⟨l,hle,hr⟩ := h.cover
  ⟨⟨l,hle.trans hl,hr⟩,h.header,h.sorted,fun x hx => (h.bound x hx).trans hl,h.lsn_le.trans hl,
    h.settled,h.outcome⟩

/-- An LSN at or above every operation covers them all. -/
lemma stale_eq_nil {p : Page} (hcov : ∀ x ∈ ops, x.1 ≤ p.lsn) : p.stale ops = [] := by
  rw [Page.stale,filter_eq_nil_iff]
  intro x hx
  rw [decide_eq_true_eq]
  exact not_lt.mpr (hcov x hx)

section
variable (h : PageInv last disk mem ops)
include h

lemma sorted_snoc (op : PageOp) : (ops++[(last+1,op)]).Pairwise (·.1 < ·.1) := by
  rw [pairwise_append]
  refine ⟨h.sorted,pairwise_singleton _ _,fun x hx y hy => ?_⟩
  rw [mem_singleton.mp hy]
  exact lt_succ_of_le (h.bound x hx)

lemma bound_snoc (op : PageOp) : ∀ x ∈ ops++[(last+1,op)], x.1 ≤ last+1 := by
  rw [forall_mem_append]
  exact ⟨fun x hx => (h.bound x hx).trans (le_succ _),by simp⟩

/-- One more logged operation, taken by the page in memory, is taken by redo. -/
lemma cover_snoc (happ : mem.applyOp op = some mem') :
    disk.redo (ops++[(last+1,op)]) = some (mem'.withLsn (last+1)) := by
  obtain ⟨l,hl,hr⟩ := h.cover
  rw [redo_append,hr]
  have hn : ¬ last+1 ≤ l := by omega
  simp only [bind_some,Page.redo,Page.redoOp,withLsn_lsn,hn,if_false,
    applyOp_withLsn h.header,happ,map_some]
  rw [withLsn_setLsn (Nat.lt_of_not_le hn)]

/-- A logged operation that stamps its page. -/
lemma stamped (op : PageOp) {mem' : Page} (happ : mem.applyOp op = some mem') :
    PageInv (last+1) disk (mem'.withLsn (last+1)) (ops++[(last+1,op)]) := by
  have hnone : (mem'.withLsn (last+1)).stale (ops++[(last+1,op)]) = [] :=
    stale_eq_nil (h.bound_snoc op)
  have hheader := applyOp_header h.header happ
  have hcover : ∃ l, l ≤ last+1 ∧
      disk.redo (ops++[(last+1,op)]) = some ((mem'.withLsn (last+1)).withLsn l) :=
    ⟨last+1,le_rfl,by rw [withLsn_withLsn]; exact h.cover_snoc happ⟩
  refine ⟨hcover,hheader,h.sorted_snoc op,h.bound_snoc op,le_rfl,?_,?_⟩
  · simp [hnone]
  · simp [hnone]

/-- A logged operation that stays within its slot's old bytes and leaves the page's LSN alone. -/
lemma unstamped (op : PageOp) {v : Option Row}
    (hassign : op.assign = [(s,v)]) (happ : mem.applyOp op = some (mem.write op))
    (hrows : ∀ s cur, (mem.write op).get s = some cur → ∃ old, mem.get s = some old ∧ cur.len ≤ old.len)
    (hop : (mem.write op).Settled op) :
    PageInv (last+1) disk (mem.write op) (ops++[(last+1,op)]) := by
  have hstale : (mem.write op).stale (ops++[(last+1,op)]) = mem.stale ops++[(last+1,op)] := by
    have hlt : mem.lsn < last+1 := Nat.lt_succ_of_le h.lsn_le
    rw [Page.stale,filter_append,filter_singleton]
    simp only [write_lsn,hlt]
    rfl
  refine ⟨⟨last+1,le_rfl,h.cover_snoc happ⟩,h.header,h.sorted_snoc op,h.bound_snoc op,
    h.lsn_le.trans (Nat.le_succ _),?_,?_⟩
  · rw [hstale,forall_mem_append]
    exact ⟨fun x hx => Settled.mono (h.settled x hx) hrows,by simpa using hop⟩
  · rw [hstale,flatMap_append,flatMap_singleton,write_slots,hassign]
    exact assignAll_snoc_self h.outcome s v

lemma unstamped_delete (s : ℕ) :
    PageInv (last+1) disk (mem.delete s) (ops++[(last+1,.delete s)]) := by
  exact h.unstamped (.delete s) rfl rfl (fun s' cur hcur => ⟨cur,delete_get hcur,le_rfl⟩)
    ((get_delete mem s s).trans (if_pos rfl))

lemma unstamped_shrink (hold : mem.get s = some old)
    (hlen : r.len ≤ old.len) : PageInv (last+1) disk (mem.shrinkTo s r) (ops++[(last+1,.update s r)]) := by
  have hget := get_set_live (get_some_lt hold) r
  have hwrite : mem.write (.update s r) = mem.shrinkTo s r := rfl
  refine h.unstamped (.update s r) rfl ?_ (fun s' cur hcur => ?_) fun cur hcur => ?_
  · simp [Page.applyOp,Page.update,hold,hlen,Page.write,PageOp.assign]
  · rw [hwrite,hget] at hcur
    split_ifs at hcur with he
    · cases hcur
      exact ⟨old,he ▸ hold,hlen⟩
    · exact ⟨cur,hcur,le_rfl⟩
  · rw [hwrite,hget,if_pos rfl] at hcur
    cases hcur
    exact le_rfl

end

/-- A page on disk whose LSN is at or above every logged operation. -/
lemma covered {p : Page} (hp : pageHeaderSize ≤ p.freeStart) (hl : p.lsn ≤ last)
    (hsorted : ops.Pairwise (·.1 < ·.1)) (hcov : ∀ x ∈ ops, x.1 ≤ p.lsn) : PageInv last p p ops := by
  have hnone := stale_eq_nil hcov
  refine ⟨⟨p.lsn,hl,?_⟩,hp,hsorted,fun x hx => (hcov x hx).trans hl,hl,by simp [hnone],by simp [hnone]⟩
  rw [redo_stale p hsorted,hnone]
  rfl

/-- Raise the LSN in memory to one that covers the page's operations. -/
lemma restamp (h : PageInv last disk mem ops) {l : ℕ} (hl : l ≤ last) (hcov : ∀ x ∈ ops, x.1 ≤ l) :
    PageInv last disk (mem.setLsn l) ops := by
  have hle : l ≤ (mem.setLsn l).lsn := by rw [setLsn_lsn]; exact Nat.le_max_right _ _
  have hnone := stale_eq_nil (p := mem.setLsn l) (fun x hx => (hcov x hx).trans hle)
  obtain ⟨l',hl',hr⟩ := h.cover
  refine ⟨⟨l',hl',?_⟩,by simpa using h.header,h.sorted,h.bound,?_,by simp [hnone],by simp [hnone]⟩
  · rw [hr]
    simp [Page.withLsn]
  · rw [setLsn_lsn]
    exact Nat.max_le.mpr ⟨h.lsn_le,hl⟩

/-- A page no row operation has reached. -/
lemma blank (hsorted : ops.Pairwise (·.1 < ·.1)) (hbound : ∀ x ∈ ops, x.1 ≤ last)
    (hstamp : ∀ x ∈ ops, x.2 = .stamp) : PageInv last Page.new Page.new ops := by
  have hassign : ∀ xs : List (ℕ × PageOp), (∀ x ∈ xs, x.2 = .stamp) →
      xs.flatMap (·.2.assign) = [] := by
    intro xs hxs
    rw [flatMap_eq_nil_iff]
    intro x hx
    rw [hxs x hx]; rfl
  have hmem : ∀ x ∈ Page.new.stale ops, x.2 = .stamp := fun x hx => hstamp x (mem_filter.mp hx).1
  obtain ⟨l,hl,hredo⟩ := redo_repeats (v := Page.new) (Page.new.stale ops) Page.new
    (hsorted.filter _) (fun x hx => by simpa using (mem_filter.mp hx).2) (fun _ => rfl)
    (fun x hx => by rw [hmem x hx]; trivial)
  refine ⟨⟨l,hl last (zero_le _) (fun x hx => hbound x (mem_filter.mp hx).1),?_⟩,le_rfl,
    hsorted,hbound,zero_le _,fun x hx => by rw [hmem x hx]; trivial,?_⟩
  · rw [redo_stale _ hsorted,hredo,hassign _ hmem]
    rfl
  · rw [hassign _ hmem]; rfl

/-- The page reaches disk while every update it has not covered names a live row
that is not shorter than the logged one. -/
lemma flushed (h : PageInv last disk mem ops)
    (hfit : ∀ x ∈ mem.stale ops, ∀ s r, x.2 = .update s r →
      ∃ old, mem.get s = some old ∧ r.len ≤ old.len) :
    PageInv last mem mem ops := by
  have hrep : ∀ x ∈ mem.stale ops, mem.Repeats x.2 := by
    intro x hx
    have hx' := h.settled x hx
    have hf := hfit x hx
    obtain ⟨l,op⟩ := x
    cases op with
    | insert s r => exact hx'
    | update s r =>
      obtain ⟨old,hold,hle⟩ := hf s r rfl
      have := hx' old hold
      simp only [Page.Repeats,hold,map_some,some.injEq]
      omega
    | delete s => exact hx'
    | stamp => trivial
  obtain ⟨l,hl,hredo⟩ := redo_repeats (mem.stale ops) mem (h.sorted.filter _)
    (fun x hx => by simpa using (mem_filter.mp hx).2) (fun _ => rfl) hrep
  refine {h with cover := ⟨l,hl last h.lsn_le (fun x hx => h.bound x (mem_filter.mp hx).1),?_⟩}
  rw [redo_stale mem h.sorted,hredo,h.outcome]
  rfl

end PageInv
end PowDB.Storage

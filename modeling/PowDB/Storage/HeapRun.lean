import PowDB.Lib.Steps
import PowDB.Storage.HeapMap
import Mathlib

/-! Runs of the heap file against a map from row ids to rows. A call is described by what its
caller is told: the map changes by the rows that were reported, and a call that reports an error
leaves it alone. A fused scan that fails has changed the pages before the one it failed at. -/
namespace PowDB.Storage
open Lib List Option Attempt Function Page Nat
open HeapFile (Notes)
namespace PageCache
variable {s t : PageCache} {i : ℕ} {c : Cell} {r : Row} {rid : RowId}

-- the rules alone take a computation apart: unfolding would run it
attribute [local irreducible] Attempt.Ends

/-! ### Row operations -/

/-- The page the row stands on takes its new content. -/
def fitsInPlace (s : PageCache) (rid : RowId) (r : Row) : Bool := ((s.current rid.page).slotted.update rid.slot r).isSome

/-- A row that has to move: no block without a header is in the way of it, and no page fails to
make room once the row is gone from its old place. -/
def Movable (s : PageCache) (rid : RowId) : Prop :=
  s.current rid.page ≠ .zero ∧ (∀ i < s.numPages, s.bucketOfPage i ≠ none → s.current i ≠ .zero) ∧
    ∀ k ∈ s.reliefsLeft rid.page, k.Succeeds

instance (s : PageCache) (rid : RowId) : Decidable (s.Movable rid) := inferInstanceAs (Decidable (_ ∧ _ ∧ _))

lemma update_ends (h : s.Sound)
    (hok : r.len ≤ maxRowDataSize → r.Readable ∧ (s.fitsInPlace rid r = false → s.Movable rid)) :
    (update rid r).Ends s
      (fun rid' t => t.Sound ∧ Function.update s.rowAt rid none rid' = none ∧
        t.rowAt = Function.update (Function.update s.rowAt rid none) rid' (some r))
      (fun t => t.Sound ∧ t.rowAt = s.rowAt) := by
  rw [update,ends_ite]
  split_ifs with hlen
  · exact ends_fail.mpr ⟨h,rfl⟩
  obtain ⟨hr,hfit⟩ := hok (Nat.le_of_not_lt hlen)
  refine (ensureHot_ends h rid.page).then ?_ (fun t ht => ⟨ht.1.sound,ht.1.rowAt⟩)
  · rintro _ t ⟨hk,hhot,hcell,hreliefs⟩
    simp only [ends_bind,ends_read]
    cases hup : t.hotCell.slotted.update rid.slot r with
    | some p =>
      have hget := update_get hup
      simp only [setHotCell,note,ends_bind,ends_modify,ends_pure]
      obtain ⟨hrew,hrows⟩ := slot_rewrites (c := t.hotCell.withRows p) hk.sound rid hhot (by simp) (by simpa using hget)
        (fun _ hr' => some.inj hr' ▸ hr) (adjustFreeBytes_notes t.toHeapFile rid.page
          ((Page.slotLen (t.hotCell.slotted.get rid.slot) : ℤ)-r.len))
      refine ⟨hrew.sound,by simp,hrows.trans ?_⟩
      rw [hk.rowAt,update_idem]
    | none =>
      obtain ⟨hpage,hfiled,hroom⟩ := hfit (by simp [fitsInPlace,← hcell,hup])
      refine (delete_ends hk.sound rid).then ?_ (fun u hu => ⟨hu.sound,(hk.trans hu).rowAt⟩)
      rintro _ u ⟨hu,hrows,huhot,hufiled,hsolid,hureliefs⟩
      rw [hk.rowAt] at hrows
      rw [hk.current] at hsolid
      have hheaded : u.Headed r := by
        refine ⟨?_,.inr ?_⟩
        · intro j hj
          rw [huhot] at hj
          exact some.inj hj ▸ hsolid _ hpage
        · intro j _ hb
          obtain ⟨b,hb⟩ := ne_none_iff_exists'.mp hb
          rcases hufiled j b hb with rfl | ⟨b',hb'⟩
          · exact hsolid _ hpage
          · exact hsolid j (hfiled j (hk.numPages ▸ hk.sound.filed_lt j b' hb') (by simp [← hk.buckets,hb']))
      refine (insert_ends hu fun _ => ⟨hheaded,hr⟩).mono ?_ ?_
      · rintro rid' v ⟨hv,hfresh,hvrows⟩
        rw [hrows] at hfresh hvrows
        exact ⟨hv,hfresh,hvrows⟩
      · rintro v ⟨-,-,hbig | ⟨k,hmem,hfail⟩⟩
        · exact absurd hbig hlen
        · exact absurd (hroom k (hreliefs ▸ hureliefs k hmem)) hfail

/-- What a patch leaves of a row; `none` if it declines. -/
def shrunk (f : Bytes → Option Bytes) (old : Row) : Option Row :=
  if old.isV2 then none
  else (f old.body).bind fun body => if old.len < body.length then none else some ⟨body,[]⟩

lemma patchRowShrink_ends (h : s.Sound) (f : Bytes → Option Bytes)
    (hread : ∀ r', (s.rowAt rid).bind (shrunk f) = some r' → r'.Readable) :
    (patchRowShrink rid f).Ends s
      (fun b t => t.Sound ∧ b = ((s.rowAt rid).bind (shrunk f)).isSome ∧
        t.rowAt = Function.update s.rowAt rid (((s.rowAt rid).bind (shrunk f)).or (s.rowAt rid)))
      (fun t => t.Sound ∧ t.rowAt = s.rowAt) := by
  refine (ensureHot_ends h rid.page).then ?_ (fun t ht => ⟨ht.1.sound,ht.1.rowAt⟩)
  rintro _ t ⟨hk,hhot,hcell,-⟩
  have hrow : s.rowAt rid = t.hotCell.slotted.get rid.slot := hk.rowAt ▸ rowAt_hot hk.sound hhot rid.slot
  have hidle : (s.rowAt rid).bind (shrunk f) = none →
      t.Sound ∧ false = ((s.rowAt rid).bind (shrunk f)).isSome ∧
        t.rowAt = Function.update s.rowAt rid (((s.rowAt rid).bind (shrunk f)).or (s.rowAt rid)) := by
    intro hnone
    refine ⟨hk.sound,by simp [hnone],?_⟩
    rw [hnone,none_or,update_eq_self]
    exact hk.rowAt
  simp only [ends_bind,ends_read]
  cases hold : t.hotCell.slotted.get rid.slot with
  | none => exact ends_pure.mpr (hidle (by simp [hrow,hold]))
  | some old =>
    rw [hold] at hrow
    simp only [ends_ite,ends_pure]
    split_ifs with hv2
    · exact hidle (by simp [hrow,shrunk,hv2])
    cases hf : f old.body with
    | none => exact ends_pure.mpr (hidle (by simp [hrow,shrunk,hf]))
    | some body =>
      simp only [ends_ite,ends_pure,ends_bind,setHotCell,ends_modify]
      split_ifs with hlong
      · exact hidle (by simp [hrow,shrunk,hf,hlong])
      have hnew : (s.rowAt rid).bind (shrunk f) = some ⟨body,[]⟩ := by simp [hrow,shrunk,hf,hlong,hv2]
      have hget := get_set_live (get_some_lt hold) (⟨body,[]⟩ : Row)
      obtain ⟨hrew,hrows⟩ := slot_rewrites
        (c := t.hotCell.withRows (t.hotCell.slotted.shrinkTo rid.slot ⟨body,[]⟩)) hk.sound rid hhot (by simp)
        (by simpa using hget) (fun r' hr' => hread r' (hnew.trans hr')) (Notes.refl t.toHeapFile rid.page)
      refine ⟨hrew.sound,by simp [hnew],hrows.trans ?_⟩
      rw [hk.rowAt,hnew,some_or]

/-! ### Fused scans -/

/-- What a fused delete leaves of a row. -/
def kept (pred : Row → Bool) (r : Row) : Option Row := if pred r then none else some r

/-- What a fused patch leaves of a row. -/
def mutated (pred : Row → Bool) (mutate : Bytes → Option Bytes) (r : Row) : Option Row :=
  some (if pred r then (HeapFile.patched mutate r).getD r else r)

lemma foldl_delete_get (slots : List ℕ) (p : Page) (slot : ℕ) :
    (slots.foldl Page.delete p).get slot = if slot ∈ slots then none else p.get slot := by
  induction slots generalizing p with
  | nil => rfl
  | cons a slots ih =>
    rw [foldl_cons,ih,get_delete]
    by_cases ha : slot = a <;> simp [ha]

lemma foldl_shrinkTo_get (g : ℕ → Option Row) (slots : List ℕ) (p : Page)
    (hlt : ∀ slot ∈ slots, g slot ≠ none → slot < p.slots.length) (slot : ℕ) :
    ((slots.filterMap fun s => (g s).map fun r => (s,r)).foldl (fun p x => p.shrinkTo x.1 x.2) p).get slot =
      if slot ∈ slots then (g slot).or (p.get slot) else p.get slot := by
  induction slots generalizing p with
  | nil => rfl
  | cons a slots ih =>
    cases hg : g a with
    | none =>
      rw [filterMap_cons_none (by simp [hg]),ih p fun s hs => hlt s (mem_cons_of_mem _ hs)]
      by_cases ha : slot = a
      · simp [ha,hg]
      · simp [ha]
    | some r =>
      have ha : a < p.slots.length := hlt a (by simp) (by simp [hg])
      have hlen : (p.shrinkTo a r).slots.length = p.slots.length := by simp [Page.shrinkTo]
      rw [filterMap_cons_some (b := (a,r)) (by simp [hg]),foldl_cons,
        ih _ fun s hs hne => hlen ▸ hlt s (mem_cons_of_mem _ hs) hne,get_set_live ha]
      by_cases heq : slot = a
      · simp [heq,hg]
      · simp [heq]

/-- A page rewritten row by row. -/
structure Rowwise (slots : Page → List ℕ) (rewrite : Page → Page) (marks : Page → ℕ) (change : Row → Option Row) :
    Prop where
  get : ∀ p slot, (rewrite p).get slot = (p.get slot).bind change
  idle : ∀ p, slots p = [] → ∀ slot, (p.get slot).bind change = p.get slot
  marked : ∀ p, (∀ slot r, p.get slot = some r → change r = none → 0 < r.len) → slots p ≠ [] → 0 < marks p

section
variable (pred : Row → Bool)
include pred

lemma deleteMatches_get (p : Page) (slot : ℕ) :
    (deleteMatches pred p).get slot = (p.get slot).bind (kept pred) := by
  rw [deleteMatches,foldl_delete_get]
  cases hget : p.get slot with
  | none => simp
  | some r => by_cases hp : pred r = true <;> simp [HeapFile.mem_matchingSlots,hget,kept]

lemma deleteMatches_rowwise :
    Rowwise (HeapFile.matchingSlots pred) (deleteMatches pred) (matchedBytes pred) (kept pred) where
  get := deleteMatches_get pred
  idle p hp slot := by
    rw [← deleteMatches_get,deleteMatches,hp,foldl_nil]
  marked p hlen hne := by
    -- a matching row has bytes, and they are counted
    obtain ⟨slot,hslot⟩ := exists_mem_of_ne_nil _ hne
    obtain ⟨r,hget,hpred⟩ := HeapFile.mem_matchingSlots.mp hslot
    have hpos : 0 < Page.slotLen (p.get slot) := by
      rw [hget]
      exact hlen slot r hget (by simp [kept,hpred])
    exact lt_of_lt_of_le hpos (single_le_sum (fun _ _ => zero_le _) _ (mem_map_of_mem hslot))

lemma patchMatches_get (mutate : Bytes → Option Bytes) (p : Page) (slot : ℕ) :
    (patchMatches pred mutate p).get slot = (p.get slot).bind (mutated pred mutate) := by
  rw [patchMatches,HeapFile.patchesOf,foldl_shrinkTo_get (fun s => (p.get s).bind (HeapFile.patched mutate))]
  · cases hget : p.get slot with
    | none => simp
    | some r =>
      by_cases hp : pred r = true
      · cases hm : HeapFile.patched mutate r <;> simp [HeapFile.mem_matchingSlots,hget,hp,mutated]
      · simp [HeapFile.mem_matchingSlots,hget,hp,mutated]
  · intro slot hslot _
    obtain ⟨r,hget,-⟩ := HeapFile.mem_matchingSlots.mp hslot
    exact get_some_lt hget

lemma patchMatches_rowwise (mutate : Bytes → Option Bytes) :
    Rowwise (patchedSlots pred mutate) (patchMatches pred mutate) (fun _ => 1) (mutated pred mutate) where
  get := patchMatches_get pred mutate
  idle p hp slot := by
    rw [← patchMatches_get,patchMatches,map_eq_nil_iff.mp hp,foldl_nil]
  marked _ _ _ := one_pos

end

section Scan
variable {slots : Page → List ℕ} {marks released : Page → ℕ} {change : Row → Option Row}

/-- The rows of some pages changed. -/
def changedOn (m : RowId → Option Row) (change : Row → Option Row) (pages : List ℕ) (rid : RowId) : Option Row :=
  if rid.page ∈ pages then (m rid).bind change else m rid

lemma scanPage_ends (hw : Rowwise slots rewrite marks change) (h : s.Sound)
    (hread : ∀ slot r r', s.rowAt ⟨i,slot⟩ = some r → change r = some r' → r'.Readable)
    (hlen : ∀ slot r, s.rowAt ⟨i,slot⟩ = some r → change r = none → 0 < r.len) :
    (scanPage slots rewrite marks released i).Ends s
      (fun _ t => t.Sound ∧ t.rowAt = changedOn s.rowAt change [i]) (fun t => t.Sound ∧ t.rowAt = s.rowAt) := by
  refine (ensureHot_ends h i).then ?_ (fun t ht => ⟨ht.1.sound,ht.1.rowAt⟩)
  rintro _ t ⟨hk,hhot,hcell,-⟩
  have hrow : ∀ slot, s.rowAt ⟨i,slot⟩ = t.hotCell.slotted.get slot := hk.rowAt ▸ rowAt_hot hk.sound hhot
  have hkind : t.hotCell.isOverflow = false := current_hot hhot ▸ hk.sound.kind i (hk.sound.hot_lt _ hhot)
  simp only [ends_bind,ends_read,ends_ite,ends_pure,ends_write,hkind,
    Bool.false_or,List.isEmpty_iff]
  by_cases hidle : slots t.hotCell.slotted = []
  · rw [if_pos hidle]
    refine ⟨hk.sound,hk.rowAt.trans ?_⟩
    funext rid
    by_cases hp : rid.page = i
    · subst hp
      rw [changedOn,if_pos (by simp),hrow,hw.idle _ hidle]
    · simp [changedOn,hp]
  have hmarks := hw.marked t.hotCell.slotted (fun slot r hr => hlen slot r ((hrow slot).trans hr)) hidle
  have hstep : ∀ f, Notes t.toHeapFile f i →
      let u : PageCache := {t with toHeapFile := f, hotCell := t.hotCell.withRows (rewrite t.hotCell.slotted), hotDirty := true}
      u.Sound ∧ u.rowAt = changedOn s.rowAt change [i] := by
    intro f hf
    have hrew := rewrites_of_hot (c := t.hotCell.withRows (rewrite t.hotCell.slotted)) hk.sound hhot (by simpa) (by
      intro slot r' hr'
      rw [Cell.slotted_withRows,hw.get] at hr'
      obtain ⟨r,hr,hc⟩ := Option.bind_eq_some_iff.mp hr'
      exact hread slot r r' (hrow slot ▸ hr) hc) hf
    refine ⟨hrew.sound,?_⟩
    funext rid
    rw [hrew.rowAt,Cell.slotted_withRows,hw.get,hk.rowAt]
    by_cases hp : rid.page = i
    · subst hp
      rw [changedOn,if_pos rfl,if_pos (by simp),hrow]
    · simp [changedOn,hp]
  simp only [hmarks,decide_true,Bool.or_true,note,ends_modify]
  split_ifs
  · exact hstep _ (Notes.refl _ i)
  · exact hstep _ (adjustFreeBytes_notes _ i _)

lemma scanPages_ends (hw : Rowwise slots rewrite marks change) (h : s.Sound) (pages : List ℕ) (hnodup : pages.Nodup)
    (hread : ∀ rid r r', rid.page ∈ pages → s.rowAt rid = some r → change r = some r' → r'.Readable)
    (hlen : ∀ rid r, rid.page ∈ pages → s.rowAt rid = some r → change r = none → 0 < r.len) :
    (scanPages (scanPage slots rewrite marks released) pages).Ends s
      (fun _ t => t.Sound ∧ t.rowAt = changedOn s.rowAt change pages)
      (fun t => t.Sound ∧ ∃ n, t.rowAt = changedOn s.rowAt change (pages.take n)) := by
  induction pages generalizing s with
  | nil =>
    refine ends_pure.mpr ⟨h,?_⟩
    funext rid
    simp [changedOn]
  | cons i pages ih =>
    obtain ⟨hi,hnodup⟩ := nodup_cons.mp hnodup
    have hcons : ∀ (t : PageCache) (ps : List ℕ), i ∉ ps → t.rowAt = changedOn s.rowAt change [i] →
        changedOn t.rowAt change ps = changedOn s.rowAt change (i::ps) := by
      intro t ps hps ht
      funext rid
      rw [ht]
      by_cases hp : rid.page = i
      · simp [changedOn,hp,hps]
      · simp [changedOn,hp]
    refine (scanPage_ends hw h (fun slot r r' => hread ⟨i,slot⟩ r r' (by simp))
      (fun slot r => hlen ⟨i,slot⟩ r (by simp))).then ?_ ?_
    · rintro _ t ⟨ht,hrows⟩
      have hsame : ∀ rid : RowId, rid.page ∈ pages → t.rowAt rid = s.rowAt rid := by
        intro rid hmem
        have hp : rid.page ≠ i := fun heq => hi (heq ▸ hmem)
        simp [hrows,changedOn,hp]
      refine (ih ht hnodup ?_ ?_).mono ?_ ?_
      · intro rid r r' hmem hr
        exact hread rid r r' (mem_cons_of_mem _ hmem) (hsame rid hmem ▸ hr)
      · intro rid r hmem hr
        exact hlen rid r (mem_cons_of_mem _ hmem) (hsame rid hmem ▸ hr)
      · rintro _ u ⟨hu,hurows⟩
        exact ⟨hu,hurows.trans (hcons t pages hi hrows)⟩
      · rintro u ⟨hu,n,hurows⟩
        exact ⟨hu,n+1,hurows.trans (hcons t _ (fun hmem => hi (mem_of_mem_take hmem)) hrows)⟩
    · rintro t ⟨ht,hrows⟩
      refine ⟨ht,0,hrows.trans ?_⟩
      funext rid
      simp [changedOn]

end Scan

/-! ### Readers -/

open PageCache

lemma get_eq (h : s.Sound) (rid : RowId) : s.get rid = .ok (s.rowAt rid) := by
  rw [get,rowAt]
  by_cases hhot : s.hot = some rid.page
  · rw [if_pos hhot,if_pos (h.hot_lt _ hhot),current_hot hhot]
  rw [if_neg hhot]
  cases hbuf : s.dirty rid.page with
  | some c => simp [h.dirty_lt _ c hbuf,current,hhot,hbuf]
  | none =>
    have hcur : s.current rid.page = s.disk rid.page := by simp [current,hhot,hbuf]
    simp only [hcur]
    by_cases hlt : rid.page < s.numPages
    · rw [if_pos hlt,if_neg (not_le.mpr hlt)]
      split
      · rfl
      · cases hget : (s.disk rid.page).slotted.get rid.slot with
        | none => rfl
        | some r => exact if_pos (h.readable _ hlt _ r (hcur ▸ hget))
    · have hmap : s.mapped.any (rid.page < ·) = false := by
        cases hn : s.mapped with
        | none => rfl
        | some n => simpa [h.mapped_eq n hn] using hlt
      rw [if_neg hlt,if_neg (by simp [hmap]),if_pos (Nat.le_of_not_lt hlt)]

lemma scanCell_eq (h : s.Sound) (i : ℕ) : s.scanCell i = s.current i := by
  rw [scanCell,current]
  by_cases hhot : s.hot = some i
  · simp [h.hot_out i hhot]
  · cases s.dirty i <;> simp [hhot]

lemma mem_scan (h : s.Sound) : (rid,r) ∈ s.scan ↔ s.rowAt rid = some r := by
  obtain ⟨page,slot⟩ := rid
  have hentries : ∀ i < s.numPages, (⟨page,slot⟩,r) ∈ (s.current i).entries i ↔
      page = i ∧ (s.current i).slotted.get slot = some r := by
    intro i hi
    rw [Cell.entries,h.kind i hi,if_neg (by simp),mem_filterMap]
    constructor
    · rintro ⟨slot',-,hget⟩
      obtain ⟨r',hr',heq⟩ := map_eq_some_iff.mp hget
      cases heq
      exact ⟨rfl,hr'⟩
    · rintro ⟨rfl,hget⟩
      exact ⟨slot,mem_range.mpr (get_some_lt hget),by simp [hget]⟩
  simp only [scan,mem_flatMap,mem_range,scanCell_eq h]
  rw [rowAt]
  constructor
  · rintro ⟨i,hi,hmem⟩
    obtain ⟨rfl,hget⟩ := (hentries i hi).mp hmem
    rw [if_pos hi]
    exact hget
  · intro hget
    by_cases hi : page < s.numPages
    · rw [if_pos hi] at hget
      exact ⟨page,hi,(hentries page hi).mpr ⟨rfl,hget⟩⟩
    · rw [if_neg hi] at hget
      cases hget

lemma entries_page (h : x ∈ c.entries i) : x.1.page = i := by
  rw [Cell.entries] at h
  split at h
  · cases h
  · obtain ⟨slot,-,hget⟩ := mem_filterMap.mp h
    obtain ⟨r,-,rfl⟩ := map_eq_some_iff.mp hget
    rfl

lemma scan_nodup (s : PageCache) : (s.scan.map Prod.fst).Nodup := by
  rw [List.Nodup,pairwise_map,scan,pairwise_flatMap]
  constructor
  · intro i _
    rw [Cell.entries]
    split
    · exact List.Pairwise.nil
    · rw [pairwise_filterMap]
      apply nodup_range.imp
      intro slot slot' hne x hx y hy
      obtain ⟨r,-,rfl⟩ := map_eq_some_iff.mp hx
      obtain ⟨r',-,rfl⟩ := map_eq_some_iff.mp hy
      simpa using hne
  · apply nodup_range.imp
    intro i j hne x hx y hy heq
    exact hne (by rw [← entries_page hx,heq,entries_page hy])

lemma visit_append (stop : RowId × Row → Bool) (xs ys : List (RowId × Row)) :
    visit stop (xs++ys) =
      if (visit stop xs).2 then visit stop xs else ((visit stop xs).1++(visit stop ys).1,(visit stop ys).2) := by
  induction xs with
  | nil => simp [visit]
  | cons x xs ih =>
    rw [cons_append,visit,visit,ih]
    by_cases hx : stop x = true
    · simp [hx]
    · by_cases hxs : (visit stop xs).2 = true <;> simp [hx,hxs]

lemma visitPages_eq (stop : RowId × Row → Bool) (entries : ℕ → List (RowId × Row)) (is : List ℕ) :
    visitPages stop entries is = visit stop (is.flatMap entries) := by
  induction is with
  | nil => rfl
  | cons i is ih => rw [visitPages,flatMap_cons,visit_append,ih]

lemma tryForEachRow_eq (h : s.Sound) (stop : RowId × Row → Bool) : s.tryForEachRow stop = (visit stop s.scan).1 := by
  rw [tryForEachRow]
  cases hmap : s.mapped with
  | none => simp only [visitPages_eq,scan]
  | some n =>
    obtain rfl := h.mapped_eq n hmap
    -- the mapping covers every page, so the two later passes have none to visit
    have hhot : (s.hot.toList.filter fun i =>
        decide (s.numPages ≤ i) && decide (i < s.numPages) && (s.dirty i).isNone) = [] := by
      rw [filter_eq_nil_iff]
      intro i _ hi
      simp only [Bool.and_eq_true,decide_eq_true_eq] at hi
      omega
    simp only [min_self,hhot]
    simp [visitPages_eq,scan,visit]

end PageCache

/-! ### Runs -/

inductive HeapCall
  | insert (r : Row)
  | update (rid : RowId) (r : Row)
  | delete (rid : RowId)
  | patchRowShrink (rid : RowId) (f : Bytes → Option Bytes)
  | scanPatchMatching (pred : Row → Bool) (mutate : Bytes → Option Bytes)
  | scanDeleteMatching (pred : Row → Bool)
  | flush (order : List ℕ) (writes : ℕ → Bool)
  | enableMmap (order : List ℕ) (writes : ℕ → Bool)
  | disableMmap

/-- What the caller is told. -/
inductive Outcome
  | row (rid : RowId)
  | flag (b : Bool)
  | done
  | failed (e : HeapError)
  deriving DecidableEq

abbrev RowMap := RowId → Option Row

/-- The map before and after a call, by what the caller was told. -/
inductive MapStep (m : RowMap) : HeapCall → Outcome → RowMap → Prop
  | insert (rid : RowId) (r : Row) : m rid = none → MapStep m (.insert r) (.row rid) (Function.update m rid (some r))
  | update (rid rid' : RowId) (r : Row) : Function.update m rid none rid' = none →
      MapStep m (.update rid r) (.row rid') (Function.update (Function.update m rid none) rid' (some r))
  | delete (rid : RowId) : MapStep m (.delete rid) .done (Function.update m rid none)
  | patch (rid : RowId) (f : Bytes → Option Bytes) :
      MapStep m (.patchRowShrink rid f) (.flag ((m rid).bind (PageCache.shrunk f)).isSome)
        (Function.update m rid (((m rid).bind (PageCache.shrunk f)).or (m rid)))
  | patchAll (pred : Row → Bool) (mutate : Bytes → Option Bytes) :
      MapStep m (.scanPatchMatching pred mutate) .done fun rid => (m rid).bind (PageCache.mutated pred mutate)
  | deleteAll (pred : Row → Bool) :
      MapStep m (.scanDeleteMatching pred) .done fun rid => (m rid).bind (PageCache.kept pred)
  | flush (order : List ℕ) (writes : ℕ → Bool) : MapStep m (.flush order writes) .done m
  | enableMmap (order : List ℕ) (writes : ℕ → Bool) : MapStep m (.enableMmap order writes) .done m
  | disableMmap : MapStep m .disableMmap .done m
  | refused (c : HeapCall) (e : HeapError) : MapStep m c (.failed e) m
  | patchSome (pred : Row → Bool) (mutate : Bytes → Option Bytes) (n : ℕ) (e : HeapError) :
      MapStep m (.scanPatchMatching pred mutate) (.failed e)
        fun rid => if rid.page < n then (m rid).bind (PageCache.mutated pred mutate) else m rid
  | deleteSome (pred : Row → Bool) (n : ℕ) (e : HeapError) :
      MapStep m (.scanDeleteMatching pred) (.failed e)
        fun rid => if rid.page < n then (m rid).bind (PageCache.kept pred) else m rid

inductive MapRun : RowMap → List HeapCall → List Outcome → RowMap → Prop
  | nil (m : RowMap) : MapRun m [] [] m
  | cons {m m' m'' : RowMap} {c : HeapCall} {o : Outcome} {cs : List HeapCall} {os : List Outcome} :
      MapStep m c o m' → MapRun m' cs os m'' → MapRun m (c::cs) (o::os) m''

namespace PageCache
variable {s t : PageCache} {i : ℕ} {c : Cell} {r : Row} {rid : RowId}

def call : HeapCall → Op Outcome
  | .insert r => do pure (.row (← insert r))
  | .update rid r => do pure (.row (← update rid r))
  | .delete rid => do
    delete rid
    pure .done
  | .patchRowShrink rid f => do pure (.flag (← patchRowShrink rid f))
  | .scanPatchMatching pred mutate => do
    scanPatchMatching pred mutate
    pure .done
  | .scanDeleteMatching pred => do
    scanDeleteMatching pred
    pure .done
  | .flush order writes => do
    flushAllDirty order writes
    pure .done
  | .enableMmap order writes => do
    enableMmap order writes
    pure .done
  | .disableMmap => do
    disableMmap
    pure .done

/-- One call, with the answers the budget and the disk give to it. -/
def step (s : PageCache) (x : List Relief × HeapCall) : Outcome × PageCache :=
  match call x.2 {s with reliefs := x.1} with
  | (.ok o,t) => (o,t)
  | (.error e,t) => (.failed e,t)

def runCalls (s : PageCache) : List (List Relief × HeapCall) → List Outcome × PageCache
  | [] => ([],s)
  | x::xs => ((s.step x).1::(runCalls (s.step x).2 xs).1,(runCalls (s.step x).2 xs).2)

/-- A row that is written has a version the readers know; it is not put on a block without a
header; a row that has to move has room elsewhere; a fused delete meets no empty row. -/
def Orderly (s : PageCache) (x : List Relief × HeapCall) : Prop :=
  match x.2 with
  | .insert r => r.len ≤ maxRowDataSize → s.Headed r ∧ r.Readable
  | .update rid r => r.len ≤ maxRowDataSize →
      r.Readable ∧ (s.fitsInPlace rid r = false → Movable {s with reliefs := x.1} rid)
  | .patchRowShrink rid f => ∀ r' ∈ (s.rowAt rid).bind (shrunk f), r'.Readable
  | .scanPatchMatching pred mutate => ∀ y ∈ s.scan, ∀ r' ∈ mutated pred mutate y.2, r'.Readable
  | .scanDeleteMatching pred => ∀ y ∈ s.scan, pred y.2 = true → 0 < y.2.len
  | _ => True

instance (s : PageCache) : DecidablePred s.Orderly
  | (_,.insert _) => inferInstanceAs (Decidable (_ → _))
  | (_,.update _ _) => inferInstanceAs (Decidable (_ → _))
  | (_,.patchRowShrink _ _) => inferInstanceAs (Decidable (∀ _ ∈ _, _))
  | (_,.scanPatchMatching _ _) => inferInstanceAs (Decidable (∀ _ ∈ _, _))
  | (_,.scanDeleteMatching _) => inferInstanceAs (Decidable (∀ _ ∈ _, _))
  | (_,.delete _) | (_,.flush _ _) | (_,.enableMmap _ _) | (_,.disableMmap) => .isTrue trivial

-- the rules alone take a computation apart: unfolding would run it
attribute [local irreducible] Attempt.Ends

/-- Reading a call's end off the rules. -/
lemma step_of_ends
    (h : (call x.2).Ends {s with reliefs := x.1} P fun t => ∀ e, P (.failed e) t) : P (s.step x).1 (s.step x).2 := by
  unfold Attempt.Ends at h
  rw [step]
  split at h
  · rename_i hx
    simpa [hx] using h
  · rename_i hx
    simpa [hx] using h _

lemma Sound.answered (h : s.Sound) (answers : List Relief) : ({s with reliefs := answers} : PageCache).Sound :=
  ⟨h.hot_lt,h.hot_out,h.hot_clean,h.dirty_lt,h.mapped_eq,h.filed_lt,h.kind,h.readable⟩

lemma Sound.rowAt_readable (h : s.Sound) (hr : s.rowAt rid = some r) : r.Readable := by
  rw [rowAt] at hr
  split at hr
  · exact h.readable _ ‹_› _ r hr
  · cases hr

lemma rowAt_of_ge (h : s.numPages ≤ rid.page) : s.rowAt rid = none := if_neg (not_lt.mpr h)

/-- A fused scan as a change of the map, and of a part of it when it fails. -/
lemma scan_ends {slots : Page → List ℕ}
    (hw : Rowwise slots rewrite marks change) (h : s.Sound)
    (hread : ∀ rid r r', s.rowAt rid = some r → change r = some r' → r'.Readable)
    (hlen : ∀ rid r, s.rowAt rid = some r → change r = none → 0 < r.len) :
    (scanPages (scanPage slots rewrite marks released) (List.range s.numPages)).Ends s
      (fun _ t => t.Sound ∧ t.rowAt = fun rid => (s.rowAt rid).bind change)
      (fun t => t.Sound ∧ ∃ n, t.rowAt = fun rid => if rid.page < n then (s.rowAt rid).bind change else s.rowAt rid) := by
  refine (scanPages_ends hw h _ nodup_range (fun rid r r' _ => hread rid r r') (fun rid r _ => hlen rid r)).mono
    ?_ ?_
  · rintro _ t ⟨ht,hrows⟩
    refine ⟨ht,hrows.trans ?_⟩
    funext rid
    by_cases hp : rid.page < s.numPages
    · simp [changedOn,hp]
    · simp [changedOn,rowAt_of_ge (Nat.le_of_not_lt hp)]
  · rintro t ⟨ht,n,hrows⟩
    refine ⟨ht,min n s.numPages,hrows.trans ?_⟩
    funext rid
    simp [changedOn]

lemma enableMmap_ends (h : s.Sound) (order : List ℕ) (writes : ℕ → Bool) :
    (enableMmap order writes).Ends s (fun _ t => t.Sound ∧ t.rowAt = s.rowAt) (fun _ => False) := by
  simp only [enableMmap,ends_bind,ends_read,ends_ite,ends_pure,ends_modify]
  split_ifs
  · exact ⟨h,trivial⟩
  · have hk : s.Keeps (flushAllDirty order writes s).2 :=
      ((flushAllDirty_ends h order writes).mono (fun _ _ ht => ht.1) (fun _ ht => ht.1)).state
    have hs := hk.sound
    exact ⟨⟨hs.hot_lt,hs.hot_out,hs.hot_clean,hs.dirty_lt,fun n hn => (some.inj hn).symm,hs.filed_lt,hs.kind,
      hs.readable⟩,hk.rowAt⟩

lemma mapStep_of_rowAt {c : HeapCall} (ht : t.Sound) (hrows : t.rowAt = m')
    (h : MapStep m c o m') : t.Sound ∧ MapStep m c o t.rowAt := ⟨ht,hrows ▸ h⟩

lemma step_mapStep (h : s.Sound) (hok : s.Orderly x) :
    (s.step x).2.Sound ∧ MapStep s.rowAt x.2 (s.step x).1 (s.step x).2.rowAt := by
  obtain ⟨answers,c⟩ := x
  apply step_of_ends (P := fun o t => t.Sound ∧ MapStep s.rowAt c o t.rowAt)
  have hs := h.answered answers
  cases c with
  | insert r =>
    refine (insert_ends hs hok).then ?_ (fun t ht _ => mapStep_of_rowAt ht.1 ht.2.1 (.refused _ _))
    rintro rid t ⟨ht,hfresh,hrows⟩
    exact ends_pure.mpr (mapStep_of_rowAt ht hrows (.insert rid r hfresh))
  | update rid r =>
    refine (update_ends hs hok).then ?_ (fun t ht _ => mapStep_of_rowAt ht.1 ht.2 (.refused _ _))
    rintro rid' t ⟨ht,hfresh,hrows⟩
    exact ends_pure.mpr (mapStep_of_rowAt ht hrows (.update rid rid' r hfresh))
  | delete rid =>
    refine (delete_ends hs rid).then ?_ (fun t ht _ => mapStep_of_rowAt ht.sound ht.rowAt (.refused _ _))
    rintro _ t ⟨ht,hrows,-⟩
    exact ends_pure.mpr (mapStep_of_rowAt ht hrows (.delete rid))
  | patchRowShrink rid f =>
    refine (patchRowShrink_ends hs f hok).then ?_ (fun t ht _ => mapStep_of_rowAt ht.1 ht.2 (.refused _ _))
    rintro b t ⟨ht,rfl,hrows⟩
    exact ends_pure.mpr (mapStep_of_rowAt ht hrows (.patch rid f))
  | scanPatchMatching pred mutate =>
    simp only [call,scanPatchMatching,ends_bind,ends_read,ends_pure]
    refine (scan_ends (patchMatches_rowwise pred mutate) hs ?_ ?_).mono ?_ ?_
    · intro rid r r' hr hr'
      exact hok (rid,r) ((mem_scan h).mpr hr) r' hr'
    · intro rid r _ hnone
      cases hnone
    · rintro _ t ⟨ht,hrows⟩
      exact mapStep_of_rowAt ht hrows (.patchAll pred mutate)
    · rintro t ⟨ht,n,hrows⟩ e
      exact mapStep_of_rowAt ht hrows (.patchSome pred mutate n e)
  | scanDeleteMatching pred =>
    simp only [call,scanDeleteMatching,ends_bind,ends_read,ends_pure]
    refine (scan_ends (deleteMatches_rowwise pred) hs ?_ ?_).mono ?_ ?_
    · intro rid r r' hr hr'
      rw [kept] at hr'
      split at hr'
      · cases hr'
      · exact some.inj hr' ▸ hs.rowAt_readable hr
    · intro rid r hr hnone
      apply hok (rid,r) ((mem_scan h).mpr hr)
      by_contra hp
      simp [kept,hp] at hnone
    · rintro _ t ⟨ht,hrows⟩
      exact mapStep_of_rowAt ht hrows (.deleteAll pred)
    · rintro t ⟨ht,n,hrows⟩ e
      exact mapStep_of_rowAt ht hrows (.deleteSome pred n e)
  | flush order writes =>
    refine (flushAllDirty_ends hs order writes).then ?_ (fun t ht _ => mapStep_of_rowAt ht.1.sound ht.1.rowAt (.refused _ _))
    rintro _ t ⟨hk,-⟩
    exact ends_pure.mpr (mapStep_of_rowAt hk.sound hk.rowAt (.flush order writes))
  | enableMmap order writes =>
    refine (enableMmap_ends hs order writes).then ?_ (fun _ hf => hf.elim)
    rintro _ t ⟨ht,hrows⟩
    exact ends_pure.mpr (mapStep_of_rowAt ht hrows (.enableMmap order writes))
  | disableMmap =>
    simp only [call,disableMmap,ends_bind,ends_modify,ends_pure]
    exact ⟨⟨h.hot_lt,h.hot_out,h.hot_clean,h.dirty_lt,(fun _ hn => by cases hn),h.filed_lt,h.kind,h.readable⟩,.disableMmap⟩

lemma create_sound : create.Sound where
  hot_lt _ hi := nomatch hi
  hot_out _ hi := nomatch hi
  hot_clean _ hi := nomatch hi
  dirty_lt _ _ hi := nomatch hi
  mapped_eq _ hn := nomatch hn
  filed_lt _ _ hb := nomatch hb
  kind i hi := by
    obtain rfl : i = 0 := lt_one_iff.mp hi
    rfl
  readable i hi slot r hr := by
    obtain rfl : i = 0 := lt_one_iff.mp hi
    simp [create,HeapFile.create,current,Cell.slotted,Page.get] at hr

lemma runCalls_mapRun (h : s.Sound)
    (hok : Meets (fun s x => some (s.step x).2) Orderly s xs) :
    (s.runCalls xs).2.Sound ∧ MapRun s.rowAt (xs.map Prod.snd) (s.runCalls xs).1 (s.runCalls xs).2.rowAt := by
  induction xs generalizing s with
  | nil => exact ⟨h,.nil _⟩
  | cons x xs ih =>
    obtain ⟨hnow,hlater⟩ := hok
    obtain ⟨hsound,hstep⟩ := step_mapStep h hnow
    obtain ⟨hend,hrun⟩ := ih hsound hlater
    exact ⟨hend,.cons hstep hrun⟩

/-- All readers show the map, each row once and under its row id. -/
structure Shows (s : PageCache) (m : RowMap) : Prop where
  get : ∀ rid, s.get rid = .ok (m rid)
  scan : ∀ rid r, (rid,r) ∈ s.scan ↔ m rid = some r
  once : (s.scan.map Prod.fst).Nodup
  tryForEachRow : ∀ stop, s.tryForEachRow stop = (visit stop s.scan).1

lemma Sound.shows (h : s.Sound) : s.Shows s.rowAt :=
  ⟨get_eq h,fun _ _ => mem_scan h,scan_nodup s,tryForEachRow_eq h⟩

lemma create_rowAt : create.rowAt = fun _ => none := by
  funext rid
  by_cases hp : rid.page < 1
  · obtain ⟨page,slot⟩ := rid
    obtain rfl : page = 0 := lt_one_iff.mp hp
    rfl
  · exact rowAt_of_ge (Nat.le_of_not_lt hp)

/-- The readers show a map that the calls lead to from the empty one. -/
def IsMap (xs : List (List Relief × HeapCall)) : Prop :=
  ∃ m, MapRun (fun _ => none) (xs.map Prod.snd) (create.runCalls xs).1 m ∧ (create.runCalls xs).2.Shows m

theorem isMap_of_orderly (xs : List (List Relief × HeapCall))
    (hok : Meets (fun s x => some (s.step x).2) Orderly create xs) : IsMap xs := by
  obtain ⟨hsound,hrun⟩ := runCalls_mapRun create_sound hok
  rw [create_rowAt] at hrun
  exact ⟨_,hrun,hsound.shows⟩

def zeros (n : ℕ) : Row := ⟨List.replicate n 0,[]⟩

theorem moved_row_isMap : IsMap [([],.insert (zeros 2000)),([],.insert (zeros 2000)),
    ([.room],.update ⟨1,0⟩ (zeros 3000)),([],.flush [] fun _ => false),([],.enableMmap [] fun _ => true),
    ([],.patchRowShrink ⟨1,1⟩ fun body => some (body.take 1000)),
    ([.drain [] [1]],.scanDeleteMatching fun r => r.len = 3000),([],.delete ⟨1,1⟩)] :=
  isMap_of_orderly _ (by decide +kernel)

/-- The second row fills a new page, and writing the old one out fails: the new block stays on the
free list without a header. A later row is put on it and is never seen again. -/
def lostRow : List (List Relief × HeapCall) :=
  [([],.insert (zeros 4070)),([.drain [] [1]],.insert (zeros 2000)),([.drain [] []],.insert (zeros 100))]

/-- The row has to move, is deleted, and its page cannot be written out to make room for the new one. -/
def lostUpdate : List (List Relief × HeapCall) :=
  [([],.insert (zeros 2000)),([],.insert (zeros 2000)),([.drain [] [1]],.update ⟨1,0⟩ (zeros 3000))]

lemma lostRow_outcomes : (create.runCalls lostRow).1 = [.row ⟨1,0⟩,.failed (.writeFailed 1),.row ⟨2,0⟩] ∧
    (create.runCalls lostRow).2.get ⟨2,0⟩ = .ok none := by
  decide +kernel

lemma lostUpdate_outcomes :
    (create.runCalls lostUpdate).1 = [.row ⟨1,0⟩,.row ⟨1,1⟩,.failed (.writeFailed 1)] ∧
      (create.runCalls lostUpdate).2.get ⟨1,0⟩ = .ok none := by
  decide +kernel

theorem rows_are_lost : ¬IsMap lostRow ∧ ¬IsMap lostUpdate := by
  constructor
  · rintro ⟨m,hrun,hshows⟩
    obtain ⟨houts,hget⟩ := lostRow_outcomes
    rw [houts] at hrun
    obtain _ | ⟨-,_ | ⟨-,_ | ⟨hlast,_ | _⟩⟩⟩ := hrun
    have hm := hshows.get ⟨2,0⟩
    rw [hget] at hm
    cases hlast
    simp at hm
  · rintro ⟨m,hrun,hshows⟩
    obtain ⟨houts,hget⟩ := lostUpdate_outcomes
    rw [houts] at hrun
    obtain _ | ⟨hfirst,_ | ⟨hsecond,_ | ⟨hlast,_ | _⟩⟩⟩ := hrun
    have hm := hshows.get ⟨1,0⟩
    rw [hget] at hm
    cases hfirst
    cases hsecond
    cases hlast
    simp at hm

end PageCache
end PowDB.Storage

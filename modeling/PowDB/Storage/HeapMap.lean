import PowDB.Lib.Steps
import PowDB.Storage.PageCache
import Mathlib

/-! The heap file as a map from row ids to rows. Every copy of a page that is not the current
one is out of sight, so writing out, moving and pinning pages change nothing a reader sees; a row
operation changes the current copy of one page at a time. -/
namespace PowDB.Storage
open Lib List Option Attempt Function Page Nat
open HeapFile (Notes noteFreeBytes_notes)
/-- A row the readers take back from disk. -/
def Row.Readable (r : Row) : Prop := validateRowFormat r = true

instance (r : Row) : Decidable r.Readable := inferInstanceAs (Decidable (_ = true))

namespace PageCache
variable {s t : PageCache} {i : ℕ} {c : Cell} {r : Row}

/-- The copy of a page that counts. -/
def current (s : PageCache) (i : ℕ) : Cell := if s.hot = some i then s.hotCell else (s.dirty i).getD (s.disk i)

structure Sound (s : PageCache) : Prop where
  hot_lt : ∀ i, s.hot = some i → i < s.numPages
  hot_out : ∀ i, s.hot = some i → s.dirty i = none
  hot_clean : ∀ i, s.hot = some i → s.hotDirty = false → s.hotCell = s.disk i
  dirty_lt : ∀ i c, s.dirty i = some c → i < s.numPages
  mapped_eq : ∀ n, s.mapped = some n → n = s.numPages
  filed_lt : ∀ i b, s.bucketOfPage i = some b → i < s.numPages
  kind : ∀ i < s.numPages, (s.current i).isOverflow = false
  readable : ∀ i < s.numPages, ∀ slot r, (s.current i).slotted.get slot = some r → r.Readable

/-- Pages were moved between their places; readers see what they saw. -/
structure Keeps (s t : PageCache) : Prop where
  sound : t.Sound
  current : t.current = s.current
  numPages : t.numPages = s.numPages
  buckets : t.bucketOfPage = s.bucketOfPage
  reliefs : ∀ k ∈ t.reliefs, k ∈ s.reliefs

lemma Keeps.refl (h : s.Sound) : s.Keeps s := ⟨h,rfl,rfl,rfl,fun _ hk => hk⟩

lemma Keeps.trans (h₁ : s.Keeps t) (h₂ : t.Keeps u) : s.Keeps u where
  sound := h₂.sound
  current := h₂.current.trans h₁.current
  numPages := h₂.numPages.trans h₁.numPages
  buckets := h₂.buckets.trans h₁.buckets
  reliefs k hk := h₁.reliefs k (h₂.reliefs k hk)

lemma current_hot (h : s.hot = some i) : s.current i = s.hotCell := if_pos h

/-- What has to be shown of a move. -/
lemma Keeps.of_moved (h : s.Sound) (hcur : t.current = s.current) (hnum : t.numPages = s.numPages)
    (hbuckets : t.bucketOfPage = s.bucketOfPage) (hreliefs : ∀ k ∈ t.reliefs, k ∈ s.reliefs)
    (hmapped : ∀ n, t.mapped = some n → n = t.numPages) (hlt : ∀ i, t.hot = some i → i < t.numPages)
    (hout : ∀ i, t.hot = some i → t.dirty i = none)
    (hclean : ∀ i, t.hot = some i → t.hotDirty = false → t.hotCell = t.disk i)
    (hdirty : ∀ i c, t.dirty i = some c → i < t.numPages) : s.Keeps t where
  sound := {
    hot_lt := hlt
    hot_out := hout
    hot_clean := hclean
    dirty_lt := hdirty
    mapped_eq := hmapped
    filed_lt := by
      rw [hbuckets,hnum]
      exact h.filed_lt
    kind := by
      rw [hcur,hnum]
      exact h.kind
    readable := by
      rw [hcur,hnum]
      exact h.readable }
  current := hcur
  numPages := hnum
  buckets := hbuckets
  reliefs := hreliefs

/-! ### Moves -/

open Keeps

lemma flushHot_ends (h : s.Sound) (writes : ℕ → Bool) :
    (flushHot writes).Ends s
      (fun _ t => s.Keeps t ∧ t.hot = s.hot ∧ (s.hot ≠ none → t.hotDirty = false) ∧ t.dirty = s.dirty ∧ t.reliefs = s.reliefs)
      (fun t => t = s ∧ ∃ i, writes i = false) := by
  simp only [flushHot,ends_bind,ends_read]
  cases hhot : s.hot with
  | none => exact ⟨refl h,hhot,by simp,rfl,rfl⟩
  | some i =>
    simp only [ends_ite,ends_pure,ends_write,ends_fail]
    split_ifs with hdirty hw
    · exact ⟨refl h,hhot,fun _ => by simpa using hdirty,trivial,trivial⟩
    · refine ⟨of_moved h ?_ rfl rfl (fun _ hk => hk) h.mapped_eq ?_ ?_ ?_ h.dirty_lt,trivial,by simp,trivial,trivial⟩
      · funext j
        by_cases hj : j = i
        · simp [current,hhot,hj]
        · simp [current,hhot,hj]
      · rintro j ⟨⟩
        exact h.hot_lt i hhot
      · rintro j ⟨⟩
        exact h.hot_out i hhot
      · simp
    · exact ⟨trivial,i,by simpa using hw⟩

lemma flushBuffered_ends (h : s.Sound) (writes : ℕ → Bool) (is : List ℕ) :
    (flushBuffered writes is).Ends s
      (fun _ t => s.Keeps t ∧ t.hot = s.hot ∧ t.hotDirty = s.hotDirty ∧ t.reliefs = s.reliefs ∧
        ∀ j, s.dirty j = none → t.dirty j = none)
      (fun t => s.Keeps t ∧ ∃ i, writes i = false) := by
  induction is generalizing s with
  | nil => exact ⟨refl h,rfl,rfl,rfl,fun _ hj => hj⟩
  | cons i is ih =>
    simp only [flushBuffered,ends_bind,ends_read]
    cases hi : s.dirty i with
    | none => exact ih h
    | some c =>
      split_ifs with hw
      · have hout : s.hot ≠ some i := by
          intro hhot
          rw [h.hot_out i hhot] at hi
          cases hi
        have hkeeps : s.Keeps {s with
            disk := Function.update s.disk i c, dirty := Function.update s.dirty i none} := by
          refine of_moved h ?_ rfl rfl (fun _ hk => hk) h.mapped_eq h.hot_lt ?_ ?_ ?_
          · funext j
            by_cases hj : j = i
            · simp [current,hj,hi]
            · simp [current,hj]
          · intro j hj
            by_cases hji : j = i
            · simp [hji]
            · simpa [hji] using h.hot_out j hj
          · intro j hj hclean
            have hji : j ≠ i := fun heq => hout (heq ▸ hj)
            simpa [hji] using h.hot_clean j hj hclean
          · intro j c' hj
            by_cases hji : j = i
            · simp [hji] at hj
            · exact h.dirty_lt j c' (by simpa [hji] using hj)
        refine (ih hkeeps.sound).mono ?_ ?_
        · rintro _ t ⟨ht,hhot,hd,hreliefs,hnone⟩
          refine ⟨hkeeps.trans ht,hhot,hd,hreliefs,fun j hj => hnone j ?_⟩
          by_cases hji : j = i
          · simp [hji]
          · simpa [hji] using hj
        · rintro t ⟨ht,hfail⟩
          exact ⟨hkeeps.trans ht,hfail⟩
      · exact ⟨refl h,i,by simpa using hw⟩

lemma flushAllDirty_ends (h : s.Sound) (order : List ℕ) (writes : ℕ → Bool) :
    (flushAllDirty order writes).Ends s
      (fun _ t => s.Keeps t ∧ t.hot = s.hot ∧ (s.hot ≠ none → t.hotDirty = false) ∧ t.reliefs = s.reliefs ∧
        ∀ j, s.dirty j = none → t.dirty j = none)
      (fun t => s.Keeps t ∧ ∃ i, writes i = false) := by
  refine (flushHot_ends h writes).then ?_ ?_
  · rintro _ t ⟨hk,hhot,hclean,hdirty,hreliefs⟩
    refine (flushBuffered_ends hk.sound writes _).mono ?_ ?_
    · rintro _ u ⟨hu,huhot,hud,hureliefs,hnone⟩
      exact ⟨hk.trans hu,huhot.trans hhot,fun hne => hud.trans (hclean hne),hureliefs.trans hreliefs,
        fun j hj => hnone j (hdirty ▸ hj)⟩
    · rintro u ⟨hu,hfail⟩
      exact ⟨hk.trans hu,hfail⟩
  · rintro t ⟨rfl,hfail⟩
    exact ⟨refl h,hfail⟩

lemma unpin_keeps (h : s.Sound) (hclean : s.hot ≠ none → s.hotDirty = false) : s.Keeps {s with hot := none} := by
  refine of_moved h ?_ rfl rfl (fun _ hk => hk) h.mapped_eq (by simp) (by simp) (by simp) h.dirty_lt
  funext j
  by_cases hj : s.hot = some j
  · have hcell := h.hot_clean j hj (hclean (by simp [hj]))
    simp [current,h.hot_out j hj,hcell]
  · simp [current,hj]

end PageCache

/-- The page makes room. -/
def Relief.Succeeds : Relief → Prop
  | .room => True
  | .pinned => False
  | .drain _ failing => failing = []

instance : DecidablePred Relief.Succeeds
  | .room => .isTrue trivial
  | .pinned => .isFalse id
  | .drain _ failing => inferInstanceAs (Decidable (failing = []))

namespace PageCache
variable {s t : PageCache} {i : ℕ} {c : Cell} {r : Row} {rid : RowId}

/-- One of the answers of the budget and the disk is a failure. -/
def Troubled (s : PageCache) : Prop := ∃ k ∈ s.reliefs, ¬k.Succeeds

lemma nextRelief_ends (h : s.Sound) :
    (nextRelief).Ends s (fun k t => s.Keeps t ∧ t.hot = s.hot ∧ t.hotDirty = s.hotDirty ∧ t.hotCell = s.hotCell ∧
      t.dirty = s.dirty ∧ t.reliefs = s.reliefs.tail ∧ (¬k.Succeeds → s.Troubled)) (fun _ => False) := by
  simp only [nextRelief,ends_bind,ends_read,ends_write,ends_pure,true_and]
  refine ⟨Keeps.of_moved h rfl rfl rfl (fun _ hk => mem_of_mem_tail hk) h.mapped_eq h.hot_lt h.hot_out h.hot_clean
    h.dirty_lt,?_⟩
  intro hfail
  cases hr : s.reliefs with
  | nil => simp [hr,Relief.Succeeds] at hfail
  | cons k ks =>
    refine ⟨k,by simp [hr],?_⟩
    simpa [hr] using hfail

lemma parkHotPage_ends (h : s.Sound) :
    (parkHotPage).Ends s
      (fun _ t => s.Keeps t ∧ t.hot = none ∧ (∀ j, s.dirty j = none → s.hot ≠ some j → t.dirty j = none) ∧
        t.reliefs = if s.hot.isSome && s.hotDirty then s.reliefs.tail else s.reliefs)
      (fun t => s.Keeps t ∧ s.Troubled) := by
  simp only [parkHotPage,ends_bind,ends_read]
  cases hhot : s.hot with
  | none => exact ⟨Keeps.refl h,hhot,fun _ hj _ => hj,rfl⟩
  | some i =>
    simp only [ends_ite,ends_bind,unpin,ends_modify]
    by_cases hchanged : s.hotDirty = true
    · simp only [hchanged,isSome_some,Bool.and_self,Bool.not_true,Bool.false_eq_true,if_true,if_false]
      refine (nextRelief_ends h).mono ?_ (by simp)
      rintro k t ⟨hk,hthot,-,-,hdirty,hreliefs,hfail⟩
      rw [hhot] at hthot
      cases k with
      | room =>
        refine ⟨hk.trans (Keeps.of_moved hk.sound ?_ rfl rfl (fun _ hk => hk) hk.sound.mapped_eq (by simp) (by simp)
          (by simp) ?_),rfl,?_,hreliefs⟩
        · funext j
          by_cases hj : j = i
          · simp [current,hthot,hj]
          · simp [current,hthot,hj,Ne.symm hj]
        · intro j c hj
          by_cases hji : j = i
          · exact hji ▸ hk.sound.hot_lt i hthot
          · exact hk.sound.dirty_lt j c (by simpa [hji] using hj)
        · intro j hj hne
          have hji : j ≠ i := fun heq => hne (heq ▸ rfl)
          simpa [hji,hdirty] using hj
      | pinned => exact ⟨hk,hfail (by simp [Relief.Succeeds])⟩
      | drain order failing =>
        simp only [ends_bind]
        refine (flushAllDirty_ends hk.sound order _).mono ?_ ?_
        · rintro _ u ⟨hu,huhot,hclean,hureliefs,hnone⟩
          exact ⟨(hk.trans hu).trans (unpin_keeps hu.sound fun _ => hclean (by simp [hthot])),rfl,
            fun j hj _ => hnone j (hdirty ▸ hj),hureliefs.trans hreliefs⟩
        · rintro u ⟨hu,j,hj⟩
          refine ⟨hk.trans hu,hfail ?_⟩
          intro hnil
          rw [Relief.Succeeds] at hnil
          simp [hnil] at hj
    · rw [if_pos (by simpa using hchanged)]
      exact ⟨unpin_keeps h fun _ => by simpa using hchanged,trivial,fun _ hj _ => hj,by simp [hchanged]⟩

/-- Another page has to be moved out of the way first. -/
def parks (s : PageCache) (i : ℕ) : Bool := s.hot.any (· ≠ i) && s.hotDirty

/-- Answers that are left for a call after it has pinned page `i`. -/
def reliefsLeft (s : PageCache) (i : ℕ) : List Relief := if s.parks i then s.reliefs.tail else s.reliefs

lemma ensureHot_ends (h : s.Sound) (i : ℕ) :
    (ensureHot i).Ends s (fun _ t => s.Keeps t ∧ t.hot = some i ∧ t.hotCell = s.current i ∧ t.reliefs = s.reliefsLeft i)
      (fun t => s.Keeps t ∧ (s.Troubled ∨ s.numPages ≤ i)) := by
  simp only [ensureHot,ends_bind,ends_read,ends_ite]
  split_ifs with hhot
  · exact ⟨Keeps.refl h,hhot,(current_hot hhot).symm,by simp [reliefsLeft,parks,hhot]⟩
  refine (parkHotPage_ends h).mono ?_ (fun t ht => ⟨ht.1,.inl ht.2⟩)
  rintro _ t ⟨hk,hnone,-,hreliefs⟩
  have hleft : t.reliefs = s.reliefsLeft i := by
    rw [hreliefs,reliefsLeft,parks]
    cases hs : s.hot with
    | none => rfl
    | some j => simp_all
  have hcur : s.current i = (t.dirty i).getD (t.disk i) := by
    rw [← hk.current]
    simp [current,hnone]
  have hmoved : ∀ (d : ℕ → Option Cell) (c : Cell) (b : Bool), c = s.current i → d i = none →
      (∀ j, j ≠ i → d j = t.dirty j) → (b = false → c = t.disk i) → i < t.numPages →
      t.Keeps {t with dirty := d, hot := some i, hotCell := c, hotDirty := b} := by
    intro d c b hc hdi hd hb hlt
    refine Keeps.of_moved hk.sound ?_ rfl rfl (fun _ hk => hk) hk.sound.mapped_eq ?_ ?_ ?_ ?_
    · funext j
      by_cases hj : j = i
      · rw [hj,current_hot rfl,hc,hk.current]
      · simp [current,hnone,Ne.symm hj,hd j hj]
    · intro j hj
      exact some.inj hj ▸ hlt
    · intro j hj
      exact some.inj hj ▸ hdi
    · intro j hj hbj
      exact some.inj hj ▸ hb hbj
    · intro j c' hj
      by_cases hji : j = i
      · exact hji ▸ hlt
      · exact hk.sound.dirty_lt j c' (by rw [← hd j hji]; exact hj)
  cases hbuf : t.dirty i with
  | some c =>
    rw [hbuf] at hcur
    refine ⟨hk.trans (hmoved _ c true hcur.symm (by simp) ?_ (by simp) (hk.sound.dirty_lt i c hbuf)),rfl,hcur.symm,hleft⟩
    intro j hj
    simp [hj]
  | none =>
    rw [hbuf] at hcur
    simp only [ends_ite,ends_write]
    split_ifs with hlt
    · have hlt' : i < t.numPages := by
        rcases Bool.or_eq_true_iff.mp hlt with hmap | hnum
        · cases hn : t.mapped with
          | none => simp [hn] at hmap
          | some n => exact hk.sound.mapped_eq n hn ▸ by simpa [hn] using hmap
        · exact of_decide_eq_true hnum
      exact ⟨hk.trans (hmoved t.dirty (t.disk i) false hcur.symm hbuf (fun _ _ => rfl) (fun _ => rfl) hlt'),trivial,
        hcur.symm,hleft⟩
    · refine ⟨hk,.inr ?_⟩
      simp only [Bool.or_eq_true,decide_eq_true_eq,not_or,Nat.not_lt] at hlt
      exact hk.numPages ▸ hlt.2

/-! ### The map -/

/-- The row readers find under a row id. -/
def rowAt (s : PageCache) (rid : RowId) : Option Row :=
  if rid.page < s.numPages then (s.current rid.page).slotted.get rid.slot else none

lemma rowAt_hot (h : s.Sound) (hhot : s.hot = some i) (slot : ℕ) :
    s.rowAt ⟨i,slot⟩ = s.hotCell.slotted.get slot := by
  rw [rowAt,if_pos (h.hot_lt _ hhot),current_hot hhot]

open PageCache

lemma Keeps.rowAt (h : s.Keeps t) : t.rowAt = s.rowAt := by
  funext rid
  simp [PageCache.rowAt,h.numPages,h.current]

/-- The current copy of one page has changed to `c`, and the summary with it. -/
structure Rewrites (s t : PageCache) (i : ℕ) (c : Cell) : Prop where
  sound : t.Sound
  current : t.current = Function.update s.current i c
  numPages : t.numPages = s.numPages
  filed : ∀ j b, t.bucketOfPage j = some b → j = i ∨ ∃ b', s.bucketOfPage j = some b'
  reliefs : ∀ k ∈ t.reliefs, k ∈ s.reliefs
  hot : t.hot = some i

lemma Rewrites.lt (h : s.Rewrites t i c) : i < s.numPages := h.numPages ▸ h.sound.hot_lt i h.hot

lemma Rewrites.rowAt (h : s.Rewrites t i c) (rid : RowId) :
    t.rowAt rid = if rid.page = i then c.slotted.get rid.slot else s.rowAt rid := by
  by_cases hp : rid.page = i
  · simp [PageCache.rowAt,h.numPages,h.current,hp,h.lt]
  · simp [PageCache.rowAt,h.numPages,h.current,hp]

lemma Keeps.rewrites (h : s.Keeps t) (hr : t.Rewrites u i c) : s.Rewrites u i c where
  sound := hr.sound
  current := by rw [hr.current,h.current]
  numPages := hr.numPages.trans h.numPages
  filed j b hb := by
    rw [← h.buckets]
    exact hr.filed j b hb
  reliefs k hk := h.reliefs k (hr.reliefs k hk)
  hot := hr.hot

lemma adjustFreeBytes_notes (h : HeapFile) (i : ℕ) (delta : ℤ) : Notes h (h.adjustFreeBytes i delta) i :=
  noteFreeBytes_notes h i _


/-- Only the summary has changed. -/
lemma Sound.refiled (h : s.Sound) (hf : HeapFile.SamePages s.toHeapFile f) (hhot : f.hot = s.hot)
    (hfiled : ∀ j b, f.bucketOfPage j = some b → j < s.numPages) :
    ({s with toHeapFile := f} : PageCache).Sound ∧ ({s with toHeapFile := f} : PageCache).current = s.current := by
  have hcur : ({s with toHeapFile := f} : PageCache).current = s.current := by
    funext j
    simp [current,hhot,hf.dirty,hf.disk]
  refine ⟨⟨?_,?_,?_,?_,?_,by simpa [hf.numPages] using hfiled,?_,?_⟩,hcur⟩
  · simpa [hhot,hf.numPages] using h.hot_lt
  · simpa [hhot,hf.dirty] using h.hot_out
  · simpa [hhot,hf.disk] using h.hot_clean
  · simpa [hf.dirty,hf.numPages] using h.dirty_lt
  · simpa [hf.numPages] using h.mapped_eq
  · rw [hcur]
    simpa [hf.numPages] using h.kind
  · rw [hcur]
    simpa [hf.numPages] using h.readable

/-- A page that is filed again. -/
lemma noted_sound (h : s.Sound) (hlt : i < s.numPages) (hf : Notes s.toHeapFile f i) :
    ({s with toHeapFile := f} : PageCache).Sound ∧ ({s with toHeapFile := f} : PageCache).current = s.current := by
  refine h.refiled hf.toSamePages hf.hot fun j b hb => ?_
  rcases hf.filed j b hb with rfl | ⟨b',hb'⟩
  · exact hlt
  · exact h.filed_lt j b' hb'

/-- Give the hot page a new content. -/
lemma rewrites_of_hot (h : s.Sound) (hhot : s.hot = some i) (hkind : c.isOverflow = false)
    (hread : ∀ slot r, c.slotted.get slot = some r → r.Readable) (hf : Notes s.toHeapFile f i) :
    s.Rewrites {s with toHeapFile := f, hotCell := c, hotDirty := true} i c := by
  obtain ⟨hsound,hsee⟩ := noted_sound h (h.hot_lt i hhot) hf
  have hfhot : f.hot = some i := hf.hot.trans hhot
  have hcur : ({s with toHeapFile := f, hotCell := c, hotDirty := true} : PageCache).current =
      Function.update s.current i c := by
    funext j
    by_cases hj : j = i
    · simp [current,hfhot,hj]
    · simp [current,hfhot,hhot,hj,Ne.symm hj,hf.dirty,hf.disk]
  refine ⟨⟨hsound.hot_lt,hsound.hot_out,by simp,hsound.dirty_lt,hsound.mapped_eq,hsound.filed_lt,?_,?_⟩,hcur,hf.numPages,
    hf.filed,fun _ hk => hk,hfhot⟩
  · intro j hj
    rw [hcur]
    by_cases hji : j = i
    · simpa [hji] using hkind
    · simpa [hji,hsee] using hsound.kind j hj
  · intro j hj
    rw [hcur]
    by_cases hji : j = i
    · simpa [hji] using hread
    · simpa [hji,hsee] using hsound.readable j hj

/-- Change one slot of the hot page. -/
lemma slot_rewrites (h : s.Sound) (rid : RowId) (hhot : s.hot = some rid.page) (hkind : c.isOverflow = s.hotCell.isOverflow)
    (hget : ∀ slot, c.slotted.get slot = if slot = rid.slot then x else s.hotCell.slotted.get slot)
    (hx : ∀ r, x = some r → r.Readable) (hf : Notes s.toHeapFile f rid.page) :
    s.Rewrites {s with toHeapFile := f, hotCell := c, hotDirty := true} rid.page c ∧
      ({s with toHeapFile := f, hotCell := c, hotDirty := true} : PageCache).rowAt = Function.update s.rowAt rid x := by
  have hlt := h.hot_lt _ hhot
  have hcur := current_hot hhot
  have hrew := rewrites_of_hot h hhot (hkind.trans (hcur ▸ h.kind _ hlt)) (by
    intro slot r hr
    rw [hget] at hr
    split at hr
    · exact hx r hr
    · exact h.readable _ hlt slot r (hcur ▸ hr)) hf
  refine ⟨hrew,?_⟩
  funext rid'
  rw [hrew.rowAt,hget]
  obtain ⟨page,slot⟩ := rid
  obtain ⟨page',slot'⟩ := rid'
  by_cases hp : page' = page
  · subst hp
    by_cases hs : slot' = slot
    · simp [hs]
    · simp [hs,rowAt_hot h hhot]
  · simp [hp]

end PageCache

/-! ### Cells -/

namespace Cell
variable {c c' : Cell} {r : Row} {slot : ℕ}

@[simp] lemma slotted_withRows (c : Cell) (p : Page) : (c.withRows p).slotted = p := by
  cases c <;> rfl

@[simp] lemma isOverflow_withRows (c : Cell) (p : Page) : (c.withRows p).isOverflow = c.isOverflow := by
  cases c <;> rfl

@[simp] lemma withRows_ne_zero (c : Cell) (p : Page) : c.withRows p ≠ .zero := by
  cases c <;> simp [withRows]

/-- A row put on a block that has its header stands in a new last slot. -/
lemma putRow_eq_some (hz : c ≠ .zero) (h : c.putRow r = some (slot,c')) :
    c'.isOverflow = c.isOverflow ∧ c' ≠ .zero ∧ c.slotted.get slot = none ∧
      ∀ slot', c'.slotted.get slot' = if slot' = slot then some r else c.slotted.get slot' := by
  have hput : (c.slotted.insert r).map (fun x => (x.1,c.withRows x.2)) = some (slot,c') := by
    cases c <;> simp_all [putRow]
  obtain ⟨⟨n,p⟩,hins,heq⟩ := map_eq_some_iff.mp hput
  cases heq
  rw [Page.insert] at hins
  split at hins
  · cases hins
  · cases hins
    refine ⟨by simp,by simp,by simp [Page.get],?_⟩
    intro slot'
    rw [slotted_withRows]
    by_cases heq : slot' = c.slotted.slots.length
    · simp [Page.get,heq]
    · rw [if_neg heq]
      rcases lt_or_ge slot' c.slotted.slots.length with hlt | hge
      · simp [Page.get,getElem?_append_left hlt]
      · have hlen : (c.slotted.slots++[some r]).length ≤ slot' := by
          rw [length_append,length_singleton]
          omega
        rw [Page.get,Page.get,getElem?_eq_none hge,getElem?_eq_none hlen]

end Cell

namespace PageCache
variable {s t : PageCache} {i : ℕ} {r : Row} {rid : RowId}

/-! ### Inserts -/

/-- The same rows, and no block without a header among those filed that was not one before. -/
structure SameRows (s t : PageCache) : Prop where
  sound : t.Sound
  rowAt : t.rowAt = s.rowAt
  numPages : t.numPages = s.numPages
  filed : ∀ j b, t.bucketOfPage j = some b → ∃ b', s.bucketOfPage j = some b'
  solid : ∀ j, s.current j ≠ .zero → t.current j ≠ .zero
  reliefs : ∀ k ∈ t.reliefs, k ∈ s.reliefs

lemma Keeps.sameRows (h : s.Keeps t) : s.SameRows t :=
  ⟨h.sound,h.rowAt,h.numPages,fun _ b hb => ⟨b,h.buckets ▸ hb⟩,fun _ hj => h.current ▸ hj,h.reliefs⟩

lemma SameRows.trans (h₁ : s.SameRows t) (h₂ : t.SameRows u) : s.SameRows u where
  sound := h₂.sound
  rowAt := h₂.rowAt.trans h₁.rowAt
  numPages := h₂.numPages.trans h₁.numPages
  filed j b hb := by
    obtain ⟨b',hb'⟩ := h₂.filed j b hb
    exact h₁.filed j b' hb'
  solid j hj := h₂.solid j (h₁.solid j hj)
  reliefs k hk := h₁.reliefs k (h₂.reliefs k hk)

lemma SameRows.troubled (h : s.SameRows t) (ht : t.Troubled) : s.Troubled := by
  obtain ⟨k,hk,hfail⟩ := ht
  exact ⟨k,h.reliefs k hk,hfail⟩

/-- A page rewritten with the rows it had. -/
lemma Rewrites.sameRows (h : s.Rewrites t i c) (hc : c ≠ .zero) (hbuckets : t.bucketOfPage = s.bucketOfPage)
    (hrows : ∀ slot, c.slotted.get slot = (s.current i).slotted.get slot) : s.SameRows t where
  sound := h.sound
  rowAt := by
    funext rid
    rw [h.rowAt]
    by_cases hp : rid.page = i
    · simp [PageCache.rowAt,hp,h.lt,hrows]
    · simp [hp]
  numPages := h.numPages
  filed _ b hb := ⟨b,hbuckets ▸ hb⟩
  solid j hj := by
    rw [h.current]
    by_cases hji : j = i
    · simpa [hji] using hc
    · simpa [hji] using hj
  reliefs := h.reliefs

/-- The row is new, stands under `rid`, and is the only change. -/
structure Inserted (s t : PageCache) (rid : RowId) (r : Row) : Prop where
  sound : t.Sound
  fresh : s.rowAt rid = none
  rowAt : t.rowAt = Function.update s.rowAt rid (some r)

lemma SameRows.inserted (h₁ : s.SameRows t) (h₂ : t.Inserted u rid r) : s.Inserted u rid r :=
  ⟨h₂.sound,h₁.rowAt ▸ h₂.fresh,h₁.rowAt ▸ h₂.rowAt⟩

/-- A row put on the hot page. -/
lemma putRow_inserted (h : s.Sound) (hhot : s.hot = some i) (hz : s.hotCell ≠ .zero) (hr : r.Readable)
    (hput : s.hotCell.putRow r = some (slot,c)) (hf : Notes s.toHeapFile f i) :
    s.Inserted {s with toHeapFile := f, hotCell := c, hotDirty := true} ⟨i,slot⟩ r := by
  obtain ⟨hkind,-,hnone,hget⟩ := Cell.putRow_eq_some hz hput
  obtain ⟨hrew,hrows⟩ := slot_rewrites h ⟨i,slot⟩ hhot hkind hget (fun _ hr' => some.inj hr' ▸ hr) hf
  exact ⟨hrew.sound,(rowAt_hot h hhot slot).trans hnone,hrows⟩

def hotTakes (s : PageCache) (r : Row) : Bool := s.hot.isSome && (s.hotCell.putRow r).isSome

/-- The pinned block has a header, and so has every block that is filed as free if the pinned
one does not take the row. -/
def Headed (s : PageCache) (r : Row) : Prop :=
  (∀ i ∈ s.hot, s.current i ≠ .zero) ∧
    (s.hotTakes r = true ∨ ∀ i < s.numPages, s.bucketOfPage i ≠ none → s.current i ≠ .zero)

instance (s : PageCache) (r : Row) : Decidable (s.Headed r) := inferInstanceAs (Decidable (_ ∧ _))

lemma insertHot_ends (h : s.Sound) (hz : ∀ i ∈ s.hot, s.current i ≠ .zero) (hr : r.Readable) :
    (insertHot r).Ends s
      (fun res t => (res = none ∧ t = s ∧ s.hotTakes r = false) ∨ ∃ rid, res = some rid ∧ s.Inserted t rid r)
      (fun _ => False) := by
  simp only [insertHot,ends_bind,ends_read]
  cases hhot : s.hot with
  | none => exact .inl ⟨rfl,rfl,by simp [hotTakes,hhot]⟩
  | some i =>
    cases hput : s.hotCell.putRow r with
    | none => exact .inl ⟨rfl,rfl,by simp [hotTakes,hput]⟩
    | some x =>
      obtain ⟨slot,c⟩ := x
      have hz' : s.hotCell ≠ .zero := current_hot hhot ▸ hz i hhot
      exact .inr ⟨⟨i,slot⟩,rfl,putRow_inserted h hhot hz' hr hput (adjustFreeBytes_notes _ _ _)⟩

lemma reclaim_get (p : Page) (needed slot : ℕ) : (HeapFile.reclaim p needed).get slot = p.get slot := by
  rw [HeapFile.reclaim]
  split <;> rfl

lemma reclaimHot_ends (h : s.Sound) (hhot : s.hot = some i) (hz : s.hotCell ≠ .zero) (needed : ℕ) :
    (reclaimHot needed).Ends s (fun _ t => s.SameRows t ∧ t.hot = some i ∧ t.hotCell ≠ .zero) (fun _ => False) := by
  have hlt := h.hot_lt i hhot
  have hcur := current_hot hhot
  simp only [reclaimHot,ends_bind,ends_read]
  split_ifs with hsame
  · exact ⟨(Keeps.refl h).sameRows,hhot,hz⟩
  · have hrew : s.Rewrites {s with hotCell := s.hotCell.withRows (HeapFile.reclaim s.hotCell.slotted needed), hotDirty := true}
        i (s.hotCell.withRows (HeapFile.reclaim s.hotCell.slotted needed)) := by
      refine rewrites_of_hot h hhot ?_ ?_ (Notes.refl s.toHeapFile i)
      · rw [Cell.isOverflow_withRows,← hcur]
        exact h.kind i hlt
      · intro slot r' hr'
        rw [Cell.slotted_withRows,reclaim_get,← hcur] at hr'
        exact h.readable i hlt slot r' hr'
    refine ⟨hrew.sameRows (by simp) rfl ?_,hhot,by simp⟩
    intro slot
    rw [Cell.slotted_withRows,reclaim_get,hcur]

lemma takeFreePageIn_hot (bs : List ℕ) (h : HeapFile) : (h.takeFreePageIn bs).2.hot = h.hot := by
  induction bs generalizing h with
  | nil => rfl
  | cons b bs ih =>
    rw [HeapFile.takeFreePageIn]
    split
    · rfl
    · exact ih _

/-- A page taken off the free list; all else stays. -/
lemma taken_sameRows (h : s.Sound) (needed : ℕ) :
    s.SameRows {s with toHeapFile := (s.takeFreePage needed).2} ∧
      ({s with toHeapFile := (s.takeFreePage needed).2} : PageCache).current = s.current ∧
      ∀ i, (s.takeFreePage needed).1 = some i → ∃ b, s.bucketOfPage i = some b := by
  rcases htake : s.takeFreePage needed with ⟨res,f⟩
  obtain ⟨htuned,hfiled⟩ := HeapFile.takeFreePageIn_spec _ htake
  have hhot : f.hot = s.hot := (congrArg (·.2.hot) htake).symm.trans (takeFreePageIn_hot _ _)
  obtain ⟨hsound,hcur⟩ := h.refiled htuned.toSamePages hhot fun j b hb => by
    obtain ⟨b',hb'⟩ := htuned.filed j b hb
    exact h.filed_lt j b' hb'
  refine ⟨⟨hsound,?_,htuned.numPages,htuned.filed,fun j hj => hcur ▸ hj,fun _ hk => hk⟩,hcur,hfiled⟩
  funext rid
  simp [rowAt,hcur,htuned.numPages]

lemma insertSearch_ends (hr : r.Readable) (fuel : ℕ) (h : s.Sound)
    (hz : ∀ i b, s.bucketOfPage i = some b → s.current i ≠ .zero) :
    (insertSearch r fuel).Ends s
      (fun res t => res = none ∧ s.SameRows t ∨ ∃ rid, res = some rid ∧ s.Inserted t rid r)
      (fun t => s.SameRows t ∧ s.Troubled) := by
  induction fuel generalizing s with
  | zero => exact .inl ⟨rfl,(Keeps.refl h).sameRows⟩
  | succ fuel ih =>
    simp only [insertSearch,ends_bind,ends_read]
    obtain ⟨htaken,hcur,hfiled⟩ := taken_sameRows h (r.len+slotEntrySize)
    generalize htake : s.takeFreePage (r.len+slotEntrySize) = taken at htaken hcur hfiled ⊢
    obtain ⟨res,f⟩ := taken
    cases res with
    | none => exact .inl ⟨rfl,htaken⟩
    | some i =>
      obtain ⟨b,hb⟩ := hfiled i rfl
      have hlt := h.filed_lt i b hb
      simp only [ends_bind]
      refine (ensureHot_ends htaken.sound i).mono ?_ ?_
      · rintro _ t ⟨ht,hhot,hcell,-⟩
        have hzero : t.hotCell ≠ .zero := by
          rw [hcell,hcur]
          exact hz i b hb
        refine (reclaimHot_ends ht.sound hhot hzero _).mono ?_ (by simp)
        rintro _ u ⟨hu,huhot,huzero⟩
        have hsame : s.SameRows u := (htaken.trans ht.sameRows).trans hu
        simp only [ends_read]
        cases hput : u.hotCell.putRow r with
        | some x =>
          obtain ⟨slot,c⟩ := x
          have hins := putRow_inserted hu.sound huhot huzero hr hput
            (noteFreeBytes_notes u.toHeapFile i c.slotted.freeSpace)
          exact .inr ⟨⟨i,slot⟩,rfl,hsame.inserted hins⟩
        | none =>
          -- the page is filed again below what this row needs, and the search goes on
          generalize hfree : min (u.hotCell.slotted.freeSpace+u.hotCell.slotted.deadSpace) (r.len+slotEntrySize-1) = free
          obtain ⟨hsound,hsee⟩ := noted_sound hu.sound (hsame.numPages ▸ hlt)
            (noteFreeBytes_notes u.toHeapFile i free)
          have hnotes := noteFreeBytes_notes u.toHeapFile i free
          have hall : s.SameRows {u with toHeapFile := u.toHeapFile.noteFreeBytes i free} := by
            refine ⟨hsound,?_,hnotes.numPages.trans hsame.numPages,?_,?_,hsame.reliefs⟩
            · rw [← hsame.rowAt]
              funext rid
              simp [rowAt,hsee,hnotes.numPages]
            · intro j b' hb'
              rcases hnotes.filed j b' hb' with rfl | ⟨b'',hb''⟩
              · exact ⟨b,hb⟩
              · exact hsame.filed j b'' hb''
            · intro j hj
              rw [hsee]
              exact hsame.solid j hj
          refine (ih hall.sound ?_).mono ?_ ?_
          · intro j b' hb'
            obtain ⟨b'',hb''⟩ := hall.filed j b' hb'
            exact hall.solid j (hz j b'' hb'')
          · rintro res v (⟨hnone,hv⟩ | ⟨rid,hrid,hv⟩)
            · exact .inl ⟨hnone,hall.trans hv⟩
            · exact .inr ⟨rid,hrid,hall.inserted hv⟩
          · rintro v ⟨hv,htrouble⟩
            exact ⟨hall.trans hv,hall.troubled htrouble⟩
      · rintro t ⟨ht,htrouble | hge⟩
        · exact ⟨htaken.trans ht.sameRows,htaken.troubled htrouble⟩
        · exact absurd hlt (not_lt.mpr (htaken.numPages ▸ hge))

/-- The file with one more block, which has no header yet. -/
def grown (s : PageCache) (free : ℕ) : PageCache :=
  {s with
    toHeapFile := ({s.toHeapFile with
      disk := Function.update s.disk s.numPages .zero, numPages := s.numPages+1} : HeapFile).noteFreeBytes s.numPages free
    mapped := none}

lemma grown_spec (h : s.Sound) (free : ℕ) :
    (s.grown free).Sound ∧ (s.grown free).rowAt = s.rowAt ∧ (s.grown free).numPages = s.numPages+1 ∧
      (s.grown free).dirty s.numPages = none ∧ (s.grown free).hot ≠ some s.numPages ∧
      (s.grown free).reliefs = s.reliefs ∧ (s.grown free).current s.numPages = .zero := by
  have hnotes := noteFreeBytes_notes ({s.toHeapFile with
    disk := Function.update s.disk s.numPages .zero, numPages := s.numPages+1} : HeapFile) s.numPages free
  have hhot : (s.grown free).hot = s.hot := hnotes.hot
  have hdirty : (s.grown free).dirty = s.dirty := hnotes.dirty
  have hnum : (s.grown free).numPages = s.numPages+1 := hnotes.numPages
  have hdisk : (s.grown free).disk = Function.update s.disk s.numPages .zero := hnotes.disk
  have hout : s.hot ≠ some s.numPages := fun heq => lt_irrefl _ (h.hot_lt _ heq)
  have hnone : s.dirty s.numPages = none := by
    cases hd : s.dirty s.numPages with
    | none => rfl
    | some c => exact absurd (h.dirty_lt _ c hd) (lt_irrefl _)
  have hnew : (s.grown free).current s.numPages = .zero := by simp [current,hhot,hout,hdirty,hnone,hdisk]
  have hold : ∀ j, j ≠ s.numPages → (s.grown free).current j = s.current j := by
    intro j hj
    have hcell : (s.grown free).hotCell = s.hotCell := rfl
    simp [current,hhot,hdirty,hdisk,hj,hcell]
  refine ⟨⟨?_,?_,?_,?_,by simp [grown],?_,?_,?_⟩,?_,hnum,hdirty ▸ hnone,hhot ▸ hout,rfl,hnew⟩
  · intro j hj
    rw [hnum]
    exact lt_succ_of_lt (h.hot_lt j (hhot ▸ hj))
  · rw [hhot,hdirty]
    exact h.hot_out
  · intro j hj hclean
    have hne : j ≠ s.numPages := fun heq => hout (heq ▸ hhot ▸ hj)
    rw [hdisk,update_of_ne hne]
    exact h.hot_clean j (hhot ▸ hj) hclean
  · intro j c hj
    rw [hnum]
    exact lt_succ_of_lt (h.dirty_lt j c (hdirty ▸ hj))
  · intro j b hb
    rw [hnum]
    rcases hnotes.filed j b hb with rfl | ⟨b',hb'⟩
    · exact lt_succ_self _
    · exact lt_succ_of_lt (h.filed_lt j b' hb')
  · intro j hj
    by_cases hjn : j = s.numPages
    · rw [hjn,hnew]
      rfl
    · rw [hold j hjn]
      exact h.kind j (by omega)
  · intro j hj slot r hr
    by_cases hjn : j = s.numPages
    · rw [hjn,hnew] at hr
      simp [Cell.slotted,Page.get] at hr
    · rw [hold j hjn] at hr
      exact h.readable j (by omega) slot r hr
  · funext rid
    by_cases hp : rid.page = s.numPages
    · simp [rowAt,hp,hnew,Cell.slotted,Page.get]
    · have hiff : rid.page < s.numPages+1 ↔ rid.page < s.numPages := by omega
      simp [rowAt,hnum,hold _ hp,hiff]

lemma new_insert (hr : r.len ≤ maxRowDataSize) : Page.new.insert r = some (0,⟨0,pageHeaderSize+r.len,[some r]⟩) := by
  have hfit : ¬Page.new.freeSpace < r.len+slotEntrySize := by
    simp only [Page.new,Page.freeSpace,Page.dirStart,maxRowDataSize,pageSize,pageHeaderSize,slotCountSize,slotEntrySize,
      length_nil] at hr ⊢
    omega
  rw [Page.insert,if_neg hfit]
  rfl

lemma insertFresh_ends (h : s.Sound) (hr : r.Readable) (hlen : r.len ≤ maxRowDataSize) :
    (insertFresh r).Ends s (fun rid t => s.Inserted t rid r)
      (fun t => t.Sound ∧ t.rowAt = s.rowAt ∧ s.Troubled) := by
  simp only [insertFresh,ends_bind,new_insert hlen,ends_modify]
  generalize hfree : (⟨0,pageHeaderSize+r.len,[some r]⟩ : Page).freeSpace = free
  obtain ⟨hsound,hrows,hnum,hdirty,hhot,hreliefs,hblank⟩ := grown_spec h free
  refine (parkHotPage_ends hsound).mono ?_ ?_
  · rintro _ t ⟨hk,hnone,hbuf,-⟩
    have hlt : s.numPages < t.numPages := by
      rw [hk.numPages,hnum]
      exact Nat.lt_succ_self _
    -- pin the block as it is, then give it the page
    have hpin : t.Keeps {t with hot := some s.numPages, hotCell := .zero, hotDirty := true} := by
      refine Keeps.of_moved hk.sound ?_ rfl rfl (fun _ hk => hk) hk.sound.mapped_eq ?_ ?_ (by simp) hk.sound.dirty_lt
      · funext j
        by_cases hj : j = s.numPages
        · rw [hj,hk.current,hblank,current_hot rfl]
        · simp [PageCache.current,hnone,Ne.symm hj]
      · rintro j ⟨⟩
        exact hlt
      · rintro j ⟨⟩
        exact hbuf _ hdirty hhot
    have hrew := rewrites_of_hot (c := .data ⟨0,pageHeaderSize+r.len,[some r]⟩) hpin.sound rfl rfl (by
      intro slot r' hr'
      cases slot with
      | zero => exact some.inj hr' ▸ hr
      | succ n => simp [Cell.slotted,Page.get] at hr') (Notes.refl _ s.numPages)
    refine ⟨hrew.sound,by simp [PageCache.rowAt],?_⟩
    funext rid
    rw [hrew.rowAt,hpin.rowAt,hk.rowAt,hrows]
    obtain ⟨page,slot⟩ := rid
    by_cases hp : page = s.numPages
    · cases slot with
      | zero => simp [hp,Cell.slotted,Page.get]
      | succ n => simp [hp,Cell.slotted,Page.get,PageCache.rowAt]
    · simp [hp]
  · rintro t ⟨hk,k,hmem,hfail⟩
    exact ⟨hk.sound,hk.rowAt.trans hrows,k,hreliefs ▸ hmem,hfail⟩

-- from here on the rules alone take a computation apart: unfolding would run it
attribute [local irreducible] Attempt.Ends

lemma insert_ends (h : s.Sound) (hok : r.len ≤ maxRowDataSize → s.Headed r ∧ r.Readable) :
    (insert r).Ends s (fun rid t => s.Inserted t rid r)
      (fun t => t.Sound ∧ t.rowAt = s.rowAt ∧ (maxRowDataSize < r.len ∨ s.Troubled)) := by
  rw [insert,ends_ite]
  split_ifs with hlen
  · exact ends_fail.mpr ⟨h,rfl,.inl hlen⟩
  obtain ⟨hz,hr⟩ := hok (Nat.le_of_not_lt hlen)
  refine (insertHot_ends h hz.1 hr).then ?_ (fun _ hf => hf.elim)
  rintro res t (⟨rfl,rfl,hfull⟩ | ⟨rid,rfl,hins⟩)
  · have hfiled : ∀ i b, t.bucketOfPage i = some b → t.current i ≠ .zero := by
      rcases hz.2 with htakes | hall
      · rw [hfull] at htakes
        cases htakes
      · intro i b hb
        exact hall i (h.filed_lt i b hb) (by simp [hb])
    simp only [ends_bind,ends_read]
    refine (insertSearch_ends hr _ h hfiled).mono ?_ ?_
    · rintro res u (⟨rfl,hsame⟩ | ⟨rid,rfl,hins⟩)
      · refine (insertFresh_ends hsame.sound hr (Nat.le_of_not_lt hlen)).mono ?_ ?_
        · intro rid v hv
          exact hsame.inserted hv
        · rintro v ⟨hv,hrows,htrouble⟩
          exact ⟨hv,hrows.trans hsame.rowAt,.inr (hsame.troubled htrouble)⟩
      · exact ends_pure.mpr hins
    · rintro u ⟨hsame,htrouble⟩
      exact ⟨hsame.sound,hsame.rowAt,.inr htrouble⟩
  · exact ends_pure.mpr hins

/-! ### The other row operations -/

lemma delete_ends (h : s.Sound) (rid : RowId) :
    (delete rid).Ends s (fun _ t => t.Sound ∧ t.rowAt = Function.update s.rowAt rid none ∧ t.hot = some rid.page ∧
        (∀ j b, t.bucketOfPage j = some b → j = rid.page ∨ ∃ b', s.bucketOfPage j = some b') ∧
        (∀ j, s.current j ≠ .zero → t.current j ≠ .zero) ∧ ∀ k ∈ t.reliefs, k ∈ s.reliefs)
      (fun t => s.Keeps t) := by
  simp only [delete,ends_bind,ends_read,setHotCell,note,ends_modify]
  refine (ensureHot_ends h rid.page).mono ?_ (fun t ht => ht.1)
  rintro _ t ⟨hk,hhot,hcell,-⟩
  generalize hc : (if rid.slot < t.hotCell.slotted.slots.length then
    t.hotCell.withRows (t.hotCell.slotted.delete rid.slot) else t.hotCell) = c
  have hget : ∀ slot, c.slotted.get slot = if slot = rid.slot then none else t.hotCell.slotted.get slot := by
    intro slot
    rw [← get_delete,← hc]
    split_ifs with hslot
    · simp
    · rw [delete_of_length_le (Nat.le_of_not_lt hslot)]
  have hkind : c.isOverflow = t.hotCell.isOverflow := by
    rw [← hc]
    split <;> simp
  have hzero : t.hotCell ≠ .zero → c ≠ .zero := by
    intro hne
    rw [← hc]
    split
    · simp
    · exact hne
  obtain ⟨hrew,hrows⟩ := slot_rewrites hk.sound rid hhot hkind hget (fun _ hr => by cases hr)
    (adjustFreeBytes_notes t.toHeapFile rid.page (Page.slotLen (t.hotCell.slotted.get rid.slot)))
  have hall := hk.rewrites hrew
  refine ⟨hrew.sound,hrows.trans (by rw [hk.rowAt]),hrew.hot,hall.filed,?_,hall.reliefs⟩
  · intro j hj
    rw [hall.current]
    by_cases hji : j = rid.page
    · subst hji
      simpa using hzero (hcell ▸ hj)
    · simpa [hji] using hj

end PageCache
end PowDB.Storage

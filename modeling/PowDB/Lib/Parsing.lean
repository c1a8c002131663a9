import Mathlib.Data.List.Basic

/-! Recursive descent over a list of tokens. A parser says how high the stack of calls
rose next to its result. `SpecAt` compares a parser with one over other tokens and keeps
count of calls and brackets; there is one rule for each way of building a parser. -/
namespace PowDB.Lib
open List

/-- The outcome of a parser: a value with the tokens left over, or an error, and the
height of the calls made on the way. -/
structure Parsed (ε τ α : Type) where
  out : Except ε (α × List τ)
  calls : ℕ

def Parser (ε τ α : Type) : Type := List τ → Parsed ε τ α

namespace Parser
variable {ε τ α β σ : Type}

instance : Monad (Parser ε τ) where
  pure a := fun ts => ⟨.ok (a,ts),0⟩
  bind p k := fun ts =>
    match p ts with
    | ⟨.error e,c⟩ => ⟨.error e,c⟩
    | ⟨.ok (a,rest),c⟩ => ⟨(k a rest).out,max c (k a rest).calls⟩

def fail (e : ε) : Parser ε τ α := fun _ => ⟨.error e,0⟩

/-- The body of a function, with the call itself counted. -/
def call (p : Parser ε τ α) : Parser ε τ α := fun ts => ⟨(p ts).out,(p ts).calls+1⟩

/-- Look at the stream without moving. -/
def look (f : List τ → α) : Parser ε τ α := fun ts => ⟨.ok (f ts,ts),0⟩

/-- Take the next token and read it by `r`. -/
def token (r : Option τ → Except ε α) : Parser ε τ α := fun ts => ⟨(r ts.head?).map fun a => (a,ts.tail),0⟩

/-- Report an error of `p` as another. -/
def mapError (h : ε → ε) (p : Parser ε τ α) : Parser ε τ α := fun ts => ⟨(p ts).out.mapError h,(p ts).calls⟩

/-- Run `p`, and give the tokens it took next to its value. -/
def taking (p : Parser ε τ α) : Parser ε τ (α × List τ) := fun ts =>
  match p ts with
  | ⟨.error e,c⟩ => ⟨.error e,c⟩
  | ⟨.ok (a,rest),c⟩ => ⟨.ok ((a,ts.take (ts.length-rest.length)),rest),c⟩

def iterate (stuck : ε) (step : σ → Parser ε τ (σ ⊕ β)) : ℕ → σ → Parser ε τ β
  | 0, _ => fail stuck
  | n+1, s => do
    match ← step s with
    | .inl s => iterate stuck step n s
    | .inr b => pure b

/-- A loop with a state. Each round that does not leave the loop takes a token, so there
are never more rounds than tokens. -/
def loop (stuck : ε) (step : σ → Parser ε τ (σ ⊕ β)) (s : σ) : Parser ε τ β := fun ts =>
  iterate stuck step (ts.length+1) s ts

lemma pure_bind (a : α) (k : α → Parser ε τ β) : (pure a >>= k) = k a := by
  funext ts
  simp [Bind.bind,Pure.pure]

lemma bind_out_iff {k : α → Parser ε τ β} :
    ((p >>= k) ts).out = .ok (b,rest') ↔ ∃ a rest, (p ts).out = .ok (a,rest) ∧ (k a rest).out = .ok (b,rest') := by
  simp only [Bind.bind]
  rcases p ts with ⟨_ | ⟨a,rest⟩,c⟩
  · simp
  · simp

lemma bind_out {k : α → Parser ε τ β}
    (h : ((p >>= k) ts).out = .ok (b,rest')) :
    ∃ a rest, (p ts).out = .ok (a,rest) ∧ (k a rest).out = .ok (b,rest') :=
  bind_out_iff.mp h

lemma bind_assoc {γ : Type} (p : Parser ε τ α) (k : α → Parser ε τ β) (k' : β → Parser ε τ γ) :
    ((p >>= k) >>= k') = (p >>= fun a => k a >>= k') := by
  funext ts
  simp only [Bind.bind]
  rcases p ts with ⟨_ | ⟨a,rest⟩,c⟩
  · rfl
  dsimp only
  rcases k a rest with ⟨_ | ⟨b,rest'⟩,c'⟩
  · rfl
  · simp only [Nat.max_assoc]

end Parser

/-- Two kinds of tokens with a map between them, the streams to consider, the bracket
level after a token, and the errors that may be raised. -/
structure Setting (ε τ τ' : Type) where
  map : τ → τ'
  ok : List τ → Prop
  ok_tail : ∀ {t ts}, ok (t::ts) → ok ts
  level : ℕ → τ → Option ℕ
  raised : ε → Prop

namespace Setting
variable {ε ε' τ τ' α α' β β' σ σ' : Type} (X : Setting ε τ τ')

/-- The bracket level after some tokens. -/
def walk (n : ℕ) (ts : List τ) : Option ℕ := ts.foldlM X.level n

@[simp] lemma walk_nil (n : ℕ) : X.walk n [] = some n := rfl

lemma walk_cons (n : ℕ) (t : τ) (ts : List τ) : X.walk n (t::ts) = (X.level n t).bind (fun m => X.walk m ts) := rfl

lemma walk_append (hx : X.walk n xs = some j) (hy : X.walk j ys = some m) :
    X.walk n (xs++ys) = some m := by
  rw [walk,foldlM_append]
  show (X.walk n xs).bind _ = _
  rw [hx]
  exact hy

lemma ok_append (h : X.ok (xs++ys)) : X.ok ys := by
  induction xs with
  | nil => exact h
  | cons x xs ih => exact ih (X.ok_tail h)

/-- What `p` does at `ts`: at most `c` calls; on success the other parser succeeds on
the mapped tokens with the mapped value, the tokens taken lead from level `n` to `m`, and
`Q` holds of the value and their number; on failure the other parser fails. -/
def SpecAt (ts : List τ) (c n m : ℕ) (g : α → α') (Q : α → ℕ → Prop) (p : Parser ε τ α)
    (p' : Parser ε' τ' α') : Prop :=
  (p ts).calls ≤ c ∧ match (p ts).out with
    | .error e => X.raised e ∧ ∃ e', (p' (ts.map X.map)).out = .error e'
    | .ok (a,rest) => (p' (ts.map X.map)).out = .ok (g a,rest.map X.map) ∧
        ∃ seg, ts = seg++rest ∧ X.walk n seg = some m ∧ Q a seg.length

variable {X} {c n m : ℕ} {g : α → α'} {Q : α → ℕ → Prop}

/-- Both parsers fail, or both succeed. -/
lemma SpecAt.outcome (h : X.SpecAt ts c n m g Q p p') :
    (∃ e e' k k', p ts = ⟨.error e,k⟩ ∧ p' (ts.map X.map) = ⟨.error e',k'⟩ ∧ k ≤ c ∧ X.raised e) ∨
    ∃ a seg rest k k', ts = seg++rest ∧ p ts = ⟨.ok (a,rest),k⟩ ∧
      p' (ts.map X.map) = ⟨.ok (g a,rest.map X.map),k'⟩ ∧ k ≤ c ∧ X.walk n seg = some m ∧ Q a seg.length := by
  obtain ⟨hcalls,hout⟩ := h
  rcases hres : p ts with ⟨_ | ⟨a,rest⟩,k⟩ <;> rw [hres] at hcalls hout <;>
    rcases hres' : p' (ts.map X.map) with ⟨out',k'⟩ <;> rw [hres'] at hout
  · obtain ⟨he,e',rfl⟩ := hout
    exact .inl ⟨_,e',k,k',rfl,rfl,hcalls,he⟩
  · obtain ⟨rfl,seg,hts,hwalk,hQ⟩ := hout
    exact .inr ⟨a,seg,rest,k,k',hts,rfl,rfl,hcalls,hwalk,hQ⟩

lemma SpecAt.mono (h : X.SpecAt ts c₁ n m g Q p p') (hc : c₁ ≤ c) (hQ : ∀ a i, Q a i → Q' a i) :
    X.SpecAt ts c n m g Q' p p' := by
  obtain ⟨hcalls,hout⟩ := h
  refine ⟨Nat.le_trans hcalls hc,?_⟩
  split at hout
  · exact hout
  · obtain ⟨hp',seg,hts,hwalk,hseg⟩ := hout
    exact ⟨hp',seg,hts,hwalk,hQ _ _ hseg⟩

/-- The same in another setting of the same tokens, with another count of brackets. -/
lemma SpecAt.change {Y : Setting ε τ τ'} (h : X.SpecAt ts c n m g Q p p') (hmap : Y.map = X.map)
    (hraised : Y.raised = X.raised) (hwalk : ∀ seg, X.walk n seg = some m → Y.walk n' seg = some m') :
    Y.SpecAt ts c n' m' g Q p p' := by
  obtain ⟨hcalls,hout⟩ := h
  refine ⟨hcalls,?_⟩
  rw [hmap,hraised]
  split at hout
  · exact hout
  · obtain ⟨hp',seg,hts,hseg,hQ⟩ := hout
    exact ⟨hp',seg,hts,hwalk seg hseg,hQ⟩

lemma SpecAt.pure (ha : Q a 0) :
    X.SpecAt ts c n n g Q (Pure.pure a : Parser ε τ α) (Pure.pure (g a) : Parser ε' τ' α') :=
  ⟨Nat.zero_le _,rfl,[],rfl,rfl,ha⟩

lemma SpecAt.fail (he : X.raised e) : X.SpecAt ts c n m g Q (Parser.fail e) (Parser.fail e') :=
  ⟨Nat.zero_le _,he,e',rfl⟩

lemma SpecAt.call (h : X.SpecAt ts c n m g Q p p') : X.SpecAt ts (c+1) n m g Q p.call p'.call :=
  ⟨Nat.succ_le_succ h.1,h.2⟩

lemma SpecAt.mapError (hh : ∀ e, X.raised e → X.raised (h e))
    (hp : X.SpecAt ts c n m g Q p p') : X.SpecAt ts c n m g Q (p.mapError h) (p'.mapError h') := by
  simp only [SpecAt,Parser.mapError]
  rcases hp.outcome with ⟨e,e',l,l',hres,hres',hl,he⟩ | ⟨a,seg,rest,l,l',hts,hres,hres',hl,hwalk,hQ⟩
  · rw [hres,hres']
    exact ⟨hl,hh e he,h' e',rfl⟩
  · rw [hres,hres']
    exact ⟨hl,rfl,seg,hts,hwalk,hQ⟩

/-- Sequencing, with another walk over the tokens the first part took. -/
lemma SpecAt.bind_walk {k : α → Parser ε τ β} {k' : α' → Parser ε' τ' β'}
    (hp : X.SpecAt ts c n j g Q p p') (hp₀ : X.SpecAt ts c n₀ j₀ g Q₀ p p')
    (hk : ∀ a seg rest, ts = seg++rest → X.walk n₀ seg = some j₀ → Q a seg.length →
      X.SpecAt rest c j m h (fun b l => R b (seg.length+l)) (k a) (k' (g a))) :
    X.SpecAt ts c n m h R (p >>= k) (p' >>= k') := by
  simp only [SpecAt,Bind.bind]
  rcases hp.outcome with ⟨e,e',l,l',hres,hres',hl,he⟩ | ⟨a,seg,rest,l,l',rfl,hres,hres',hl,hwalk,hQ⟩
  · rw [hres,hres']
    exact ⟨hl,he,e',rfl⟩
  · obtain ⟨-,hout₀⟩ := hp₀
    rw [hres] at hout₀
    obtain ⟨-,seg₀,hseg₀,hwalk₀,-⟩ := hout₀
    obtain rfl : seg₀ = seg := (append_cancel_right hseg₀).symm
    obtain ⟨hcalls,hout⟩ := hk a seg₀ rest rfl hwalk₀ hQ
    rw [hres,hres']
    refine ⟨Nat.max_le.mpr ⟨hl,hcalls⟩,?_⟩
    dsimp only at hout ⊢
    split at hout
    · exact hout
    · obtain ⟨hq',seg₂,rfl,hwalk₂,hR⟩ := hout
      refine ⟨hq',seg₀++seg₂,by simp,X.walk_append hwalk hwalk₂,?_⟩
      rw [length_append]
      exact hR

/-- Sequencing. The continuation starts at the level the first part leads to. -/
lemma SpecAt.bind {k : α → Parser ε τ β} {k' : α' → Parser ε' τ' β'}
    (hts : X.ok ts) (hp : X.SpecAt ts c n j g Q p p')
    (hk : ∀ a i rest, X.ok rest → Q a i →
      X.SpecAt rest c j m h (fun b l => R b (i+l)) (k a) (k' (g a))) :
    X.SpecAt ts c n m h R (p >>= k) (p' >>= k') := by
  refine SpecAt.bind_walk hp hp fun a seg rest hseg _ hQ => ?_
  subst hseg
  exact hk a seg.length rest (X.ok_append hts) hQ

lemma SpecAt.look
    (hk : X.SpecAt ts c n m g Q (k (f ts)) (k' (f' (ts.map X.map)))) :
    X.SpecAt ts c n m g Q (Parser.look f >>= k) (Parser.look f' >>= k') := by
  simpa [SpecAt,Bind.bind,Parser.look] using hk

/-- A token read, on both sides, with the same outcome. -/
def Reads (X : Setting ε τ τ') (n m : ℕ) (g : α → α') (Q : α → ℕ → Prop) (r : Option τ → Except ε α)
    (r' : Option τ' → Except ε' α') (t : Option τ) : Prop :=
  match r t with
  | .error e => X.raised e ∧ ∃ e', r' (t.map X.map) = .error e'
  | .ok a => r' (t.map X.map) = .ok (g a) ∧ Q a 1 ∧ ∃ t', t = some t' ∧ X.level n t' = some m

lemma SpecAt.token (h : X.Reads n m g Q r r' ts.head?) :
    X.SpecAt ts c n m g Q (Parser.token r) (Parser.token r') := by
  have hhead : (ts.map X.map).head? = ts.head?.map X.map := by cases ts <;> rfl
  refine ⟨Nat.zero_le _,?_⟩
  simp only [Parser.token,hhead]
  rw [Reads] at h
  cases hr : r ts.head? with
  | error e =>
    rw [hr] at h
    obtain ⟨he,e',hr'⟩ := h
    rw [hr']
    exact ⟨he,e',rfl⟩
  | ok a =>
    rw [hr] at h
    obtain ⟨hr',hQ,t,ht,hlevel⟩ := h
    rw [hr']
    obtain ⟨ts,rfl⟩ : ∃ ts', ts = t::ts' := by
      cases ts with
      | nil => cases ht
      | cons t' ts =>
        cases ht
        exact ⟨ts,rfl⟩
    refine ⟨rfl,[t],rfl,?_,hQ⟩
    rw [walk_cons,hlevel]
    rfl

/-- Taking a token that is known. -/
lemma SpecAt.token_bind
    (hr : r (some t) = .ok b) (hr' : r' (some (X.map t)) = .ok b') (hlevel : X.level n t = some j)
    (hk : X.SpecAt ts c j m g (fun a l => Q a (1+l)) (k b) (k' b')) :
    X.SpecAt (t::ts) c n m g Q (Parser.token r >>= k) (Parser.token r' >>= k') := by
  have hread : X.SpecAt (t::ts) c n j (fun _ => b') (fun a i => a = b ∧ i = 1) (Parser.token r) (Parser.token r') :=
    SpecAt.token (by simp [Reads,hr,hr',hlevel])
  refine SpecAt.bind_walk hread hread fun a seg rest hseg _ ha => ?_
  obtain ⟨rfl,hlen⟩ := ha
  obtain ⟨x,rfl⟩ := length_eq_one_iff.mp hlen
  cases hseg
  exact hk

/-- A token that is refused. -/
lemma SpecAt.token_error
    (hr : r ts.head? = .error e) (hr' : r' (ts.head?.map X.map) = .error e') (he : X.raised e) :
    X.SpecAt ts c n m g Q (Parser.token r >>= k) (Parser.token r' >>= k') := by
  have hhead : (ts.map X.map).head? = ts.head?.map X.map := by cases ts <;> rfl
  simp only [SpecAt,Bind.bind,Parser.token,hhead,hr,hr',Except.map]
  exact ⟨Nat.zero_le _,he,e',rfl⟩

/-- The tokens taken are a part of the stream. -/
lemma SpecAt.taking (hp : X.SpecAt ts c n m g Q p p') :
    X.SpecAt ts c n m (Prod.map g (List.map X.map)) (fun r i => Q r.1 i) p.taking p'.taking := by
  simp only [SpecAt,Parser.taking]
  rcases hp.outcome with ⟨e,e',l,l',hres,hres',hl,he⟩ | ⟨a,seg,rest,l,l',rfl,hres,hres',hl,hwalk,hQ⟩
  · rw [hres,hres']
    exact ⟨hl,he,e',rfl⟩
  · rw [hres,hres']
    refine ⟨hl,?_,seg,rfl,hwalk,hQ⟩
    simp

section
variable (gσ : σ → σ') (Inv : σ → Prop) (R : α → Prop) {stuck : ε} {stuck' : ε'} {step : σ → Parser ε τ (σ ⊕ α)}
  {step' : σ' → Parser ε' τ' (σ' ⊕ α')} {s : σ}
  (hstep : ∀ s ts, X.ok ts → Inv s → X.SpecAt ts c n n (Sum.map gσ g)
    (fun r i => match r with
      | .inl s => Inv s ∧ 1 ≤ i
      | .inr a => R a) (step s) (step' (gσ s)))
include hstep

lemma SpecAt.iterate (fuel : ℕ) (hfuel : ts.length < fuel) (hts : X.ok ts) (hs : Inv s) :
    X.SpecAt ts c n n g (fun a _ => R a) (Parser.iterate stuck step fuel s)
      (Parser.iterate stuck' step' fuel (gσ s)) := by
  induction fuel generalizing s ts with
  | zero => omega
  | succ fuel ih =>
    refine SpecAt.bind_walk (hstep s ts hts hs) (hstep s ts hts hs) fun r seg rest hseg _ hr => ?_
    subst hseg
    cases r with
    | inl s₁ =>
      have hshort : rest.length < fuel := by
        rw [length_append] at hfuel
        have := hr.2
        omega
      exact ih hshort (X.ok_append hts) hr.1
    | inr a => exact SpecAt.pure hr

/-- A loop whose rounds keep `Inv` and take a token when they go on. -/
lemma SpecAt.loop (hts : X.ok ts) (hs : Inv s) :
    X.SpecAt ts c n n g (fun a _ => R a) (Parser.loop stuck step s) (Parser.loop stuck' step' (gσ s)) := by
  have h : X.SpecAt ts c n n g (fun a _ => R a) (Parser.iterate stuck step (ts.length+1) s)
      (Parser.iterate stuck' step' (ts.length+1) (gσ s)) :=
    SpecAt.iterate gσ Inv R hstep _ (Nat.lt_succ_self _) hts hs
  simp only [SpecAt,Parser.loop,length_map] at h ⊢
  exact h

end
end Setting
end PowDB.Lib

import PowDB.Lib.Loop
import PowDB.Lib.Wildcard
import Mathlib.Data.List.Basic
import Mathlib.Tactic.Ring

/-! The `like` operator. The matcher walks text and pattern with one index each and keeps only
the last `%` to come back to; the turns of its loops are counted. -/
namespace PowDB.Query
open Lib List Option Nat Turn
/-- The pattern characters of `like`: `%` takes a run, `_` one character, another one itself. -/
def Likes : List Char → List Char → Prop := Matches (· = '%') fun b c => b = '_' ∨ b = c

/-- The variables of the loop: `star` is the place of the last `%`, taken at `starTi`. -/
structure LikeState where
  ti : ℕ
  pi : ℕ
  star : Option ℕ
  starTi : ℕ
  deriving DecidableEq

/-- One turn of the loop over the text. It is left with the index in the pattern, or with
`none` when the text is refused. -/
def likeTurn (t p : List Char) (s : LikeState) : Turn LikeState (Option ℕ) :=
  match t[s.ti]? with
  | none => .done (some s.pi)
  | some c =>
    -- a `%` of the pattern is taken as such even where the text has a `%`
    if p[s.pi]? = some '%' then .again ⟨s.ti,s.pi+1,some s.pi,s.ti⟩
    else if p[s.pi]? = some '_' ∨ p[s.pi]? = some c then .again ⟨s.ti+1,s.pi+1,s.star,s.starTi⟩
    else
      match s.star with
      | some k => .again ⟨s.starTi+1,k+1,some k,s.starTi+1⟩
      | none => .done none

/-- One turn of the loop over the rest of the pattern. -/
def trailTurn (p : List Char) (pi : ℕ) : Turn ℕ ℕ :=
  if p[pi]? = some '%' then .again (pi+1) else .done pi

/-- The answer and the turns of both loops; `none` when the fuel of a loop runs out. -/
def likeMatch (fuel : ℕ) (text pattern : String) : Option (Bool × ℕ) :=
  match run (likeTurn text.toList pattern.toList) fuel ⟨0,0,none,0⟩ with
  | none => none
  | some (none,turns) => some (false,turns)
  | some (some pi,turns) =>
    (run (trailTurn pattern.toList) fuel pi).map fun r => (r.1 == pattern.toList.length,turns+r.2)

section drops
variable {α : Type} {t p : List Char} {i j : ℕ} {b c : Char}

lemma likes_percent_cons : Likes t ('%'::p) ↔ ∃ k, Likes (t.drop k) p := by
  unfold Likes
  exact Matches.run_iff rfl

lemma likes_one_cons (hne : b ≠ '%') :
    Likes t (b::p) ↔ ∃ a t', t = a::t' ∧ (b = '_' ∨ b = a) ∧ Likes t' p := by
  unfold Likes
  exact Matches.one_iff hne

lemma drop_of_getElem? {l : List α} (h : l[i]? = some a) : l.drop i = a::l.drop (i+1) := by
  obtain ⟨hi,rfl⟩ := List.getElem?_eq_some_iff.mp h
  exact drop_eq_getElem_cons hi

lemma lt_of_getElem? {l : List α} (h : l[i]? = some a) : i < l.length :=
  (List.getElem?_eq_some_iff.mp h).1

lemma likes_percent (h : p[j]? = some '%') :
    Likes (t.drop i) (p.drop j) ↔ ∃ k, i ≤ k ∧ Likes (t.drop k) (p.drop (j+1)) := by
  rw [drop_of_getElem? h]
  constructor
  · intro hlikes
    obtain ⟨k,hk⟩ := likes_percent_cons.mp hlikes
    rw [drop_drop] at hk
    exact ⟨i+k,le_add_right i k,hk⟩
  · rintro ⟨k,hik,hk⟩
    refine likes_percent_cons.mpr ⟨k-i,?_⟩
    rw [drop_drop,Nat.add_sub_cancel' hik]
    exact hk

lemma Likes.tail (h : Likes (t.drop i) (p.drop j)) (hb : p[j]? = some b) (hne : b ≠ '%') :
    Likes (t.drop (i+1)) (p.drop (j+1)) := by
  rw [drop_of_getElem? hb] at h
  obtain ⟨a,t',ht,-,h⟩ := (likes_one_cons hne).mp h
  rw [← tail_drop,ht]
  exact h

lemma Likes.fit (h : Likes (t.drop (i+1)) (p.drop (j+1))) (hc : t[i]? = some c) (hb : p[j]? = some b)
    (hne : b ≠ '%') (hfit : b = '_' ∨ b = c) : Likes (t.drop i) (p.drop j) := by
  rw [drop_of_getElem? hc,drop_of_getElem? hb]
  exact (likes_one_cons hne).mpr ⟨c,_,rfl,hfit,h⟩

lemma not_likes_of_misfit (hc : t[i]? = some c) (hstar : p[j]? ≠ some '%')
    (hfit : ¬(p[j]? = some '_' ∨ p[j]? = some c)) : ¬Likes (t.drop i) (p.drop j) := by
  rw [drop_of_getElem? hc]
  intro h
  cases hb : p[j]? with
  | none =>
    rw [drop_eq_nil_iff.mpr (getElem?_eq_none_iff.mp hb)] at h
    exact absurd (Matches.nil_right_iff.mp h) (cons_ne_nil _ _)
  | some b =>
    rw [drop_of_getElem? hb] at h
    have hne : b ≠ '%' := fun e => hstar (e ▸ hb)
    obtain ⟨a,t',ht,hfits,-⟩ := (likes_one_cons hne).mp h
    obtain ⟨rfl,rfl⟩ := cons.inj ht
    exact hfit (by simpa [hb] using hfits)

end drops

/-- Where the loop stands. Without a `%` the rest of the text faces the rest of the pattern. Past
a `%` at `k` the whole question is where after `start` its run ends, and every place is moved along
the `d` pattern characters since, so that no earlier `%` is asked again. -/
inductive LikeInv (t p : List Char) : LikeState → Prop
  | plain {ti pi : ℕ} (hti : ti ≤ t.length) (hpi : pi ≤ p.length)
    (hall : Likes t p ↔ Likes (t.drop ti) (p.drop pi)) : LikeInv t p ⟨ti,pi,none,0⟩
  | starred {start d k pi : ℕ} (hti : start+d ≤ t.length) (hk : k < pi) (hpi : pi ≤ p.length)
    (hall : Likes t p ↔ ∃ i, start ≤ i ∧ Likes (t.drop i) (p.drop (k+1)))
    (hforth : ∀ i, Likes (t.drop i) (p.drop (k+1)) → Likes (t.drop (i+d)) (p.drop pi))
    (hback : Likes (t.drop (start+d)) (p.drop pi) → Likes (t.drop start) (p.drop (k+1))) :
    LikeInv t p ⟨start+d,pi,some k,start⟩

section turns
variable {t p : List Char} {s : LikeState}

/-- At a `%` the loop forgets the earlier one. -/
lemma LikeInv.star (h : LikeInv t p s) (hp : p[s.pi]? = some '%') :
    LikeInv t p ⟨s.ti,s.pi+1,some s.pi,s.ti⟩ := by
  have hpi := lt_of_getElem? hp
  refine .starred (d := 0) ?_ (lt_succ_self _) hpi ?_ (fun _ hi => hi) fun hi => hi
  · cases h <;> assumption
  · cases h with
    | plain hti _ hall => rw [hall,likes_percent hp]
    | @starred start d k pi hti hk _ hall hforth hback =>
      constructor
      · intro hlikes
        obtain ⟨i,hi,hlikes⟩ := hall.mp hlikes
        obtain ⟨i',hi',hlikes⟩ := (likes_percent hp).mp (hforth i hlikes)
        exact ⟨i',Nat.le_trans (Nat.add_le_add_right hi d) hi',hlikes⟩
      · intro hlikes
        exact hall.mpr ⟨start,le_rfl,hback ((likes_percent hp).mpr hlikes)⟩

/-- A character that fits moves both indices. -/
lemma LikeInv.fit {c : Char} (h : LikeInv t p s) (hc : t[s.ti]? = some c) (hstar : p[s.pi]? ≠ some '%')
    (hfit : p[s.pi]? = some '_' ∨ p[s.pi]? = some c) : LikeInv t p ⟨s.ti+1,s.pi+1,s.star,s.starTi⟩ := by
  obtain ⟨b,hb,hb'⟩ : ∃ b, p[s.pi]? = some b ∧ (b = '_' ∨ b = c) := by
    rcases hfit with hb | hb
    · exact ⟨_,hb,.inl rfl⟩
    · exact ⟨_,hb,.inr rfl⟩
  have hne : b ≠ '%' := fun e => hstar (e ▸ hb)
  have hti := lt_of_getElem? hc
  have hpi := lt_of_getElem? hb
  cases h with
  | plain _ _ hall =>
    exact .plain hti hpi (hall.trans ⟨fun h => h.tail hb hne,fun h => h.fit hc hb hne hb'⟩)
  | starred _ hk _ hall hforth hback =>
    exact .starred (d := _+1) hti (lt_succ_of_lt hk) hpi hall
      (fun i hi => (hforth i hi).tail hb hne) fun h => hback (h.fit hc hb hne hb')

/-- On a mismatch past a `%` its run takes one more character. -/
lemma LikeInv.retry {c : Char} (h : LikeInv t p s) (hk : s.star = some k) (hc : t[s.ti]? = some c)
    (hmiss : ¬Likes (t.drop s.ti) (p.drop s.pi)) :
    LikeInv t p ⟨s.starTi+1,k+1,some k,s.starTi+1⟩ := by
  have hti := lt_of_getElem? hc
  cases h with
  | plain => cases hk
  | @starred start d k' pi _ hlt hpi hall hforth hback =>
    obtain rfl : k' = k := some.inj hk
    refine .starred (d := 0) (by simp only at hti ⊢; omega) (lt_succ_self _) (by omega) ?_
      (fun _ hi => hi) fun hi => hi
    rw [hall]
    constructor
    · rintro ⟨i,hi,hlikes⟩
      refine ⟨i,lt_of_le_of_ne hi ?_,hlikes⟩
      rintro rfl
      exact hmiss (hforth _ hlikes)
    · rintro ⟨i,hi,hlikes⟩
      exact ⟨i,le_of_succ_le hi,hlikes⟩

/-- Every turn raises this: a new start weighs more than the whole pattern. -/
def LikeState.rank (p : List Char) (s : LikeState) : ℕ := s.starTi*(p.length+1)+s.pi

lemma LikeInv.rank_le (h : LikeInv t p s) : s.rank p ≤ t.length*(p.length+1)+p.length := by
  cases h with
  | plain _ hpi _ =>
    simp only [LikeState.rank]
    omega
  | starred hti _ hpi _ _ _ =>
    have := mul_le_mul_right (p.length+1) (le_of_add_right_le hti)
    simp only [LikeState.rank]
    omega

/-- What a turn that goes on has done. -/
lemma likeTurn_again (h : likeTurn t p s = .again s') :
    ∃ c, t[s.ti]? = some c ∧
      (p[s.pi]? = some '%' ∧ s' = ⟨s.ti,s.pi+1,some s.pi,s.ti⟩ ∨
        p[s.pi]? ≠ some '%' ∧ (p[s.pi]? = some '_' ∨ p[s.pi]? = some c) ∧
          s' = ⟨s.ti+1,s.pi+1,s.star,s.starTi⟩ ∨
        ¬Likes (t.drop s.ti) (p.drop s.pi) ∧
          ∃ k, s.star = some k ∧ s' = ⟨s.starTi+1,k+1,some k,s.starTi+1⟩) := by
  rw [likeTurn] at h
  cases hc : t[s.ti]? with
  | none =>
    rw [hc] at h
    cases h
  | some c =>
    rw [hc] at h
    refine ⟨c,rfl,?_⟩
    dsimp only at h
    split_ifs at h with hstar hfit
    · exact .inl ⟨hstar,(again.inj h).symm⟩
    · exact .inr (.inl ⟨hstar,hfit,(again.inj h).symm⟩)
    · cases hk : s.star with
      | none =>
        rw [hk] at h
        cases h
      | some k =>
        rw [hk] at h
        exact .inr (.inr ⟨not_likes_of_misfit hc hstar hfit,k,rfl,(again.inj h).symm⟩)

lemma LikeInv.again (h : LikeInv t p s) (hs' : likeTurn t p s = .again s') :
    LikeInv t p s' ∧ s.rank p < s'.rank p := by
  obtain ⟨c,hc,⟨hstar,rfl⟩ | ⟨hstar,hfit,rfl⟩ | ⟨hmiss,k,hk,rfl⟩⟩ := likeTurn_again hs'
  · refine ⟨h.star hstar,?_⟩
    have hle : s.starTi*(p.length+1) ≤ s.ti*(p.length+1) := by
      apply Nat.mul_le_mul_right
      cases h with
      | plain => exact zero_le _
      | starred => exact le_add_right _ _
    simp only [LikeState.rank]
    omega
  · refine ⟨h.fit hc hstar hfit,?_⟩
    simp only [LikeState.rank]
    omega
  · refine ⟨h.retry hk hc hmiss,?_⟩
    have hpi : s.pi ≤ p.length := by cases h <;> assumption
    simp only [LikeState.rank,succ_mul]
    omega

/-- Leaving the loop settles the question: what is left of the pattern has no text to take. -/
def LikeExit (t p : List Char) : Option ℕ → Prop
  | none => ¬Likes t p
  | some pi => pi ≤ p.length ∧ (Likes t p ↔ Likes [] (p.drop pi))

lemma LikeInv.done (h : LikeInv t p s) (hout : likeTurn t p s = .done out) :
    LikeExit t p out := by
  rw [likeTurn] at hout
  cases hc : t[s.ti]? with
  | none =>
    rw [hc] at hout
    obtain rfl := Turn.done.inj hout
    have hlen := getElem?_eq_none_iff.mp hc
    cases h with
    | plain _ hpi hall =>
      rw [drop_eq_nil_iff.mpr hlen] at hall
      exact ⟨hpi,hall⟩
    | @starred start d k pi _ _ hpi hall hforth hback =>
      refine ⟨hpi,?_⟩
      rw [drop_eq_nil_iff.mpr hlen] at hback
      constructor
      · intro hlikes
        obtain ⟨i,hi,hlikes⟩ := hall.mp hlikes
        have := hforth i hlikes
        rwa [drop_eq_nil_iff.mpr (Nat.le_trans hlen (Nat.add_le_add_right hi d))] at this
      · intro hlikes
        exact hall.mpr ⟨start,le_rfl,hback hlikes⟩
  | some c =>
    rw [hc] at hout
    dsimp only at hout
    split_ifs at hout with hstar hfit
    cases hk : s.star with
    | some k =>
      rw [hk] at hout
      cases hout
    | none =>
      rw [hk] at hout
      obtain rfl := Turn.done.inj hout
      have hmiss := not_likes_of_misfit hc hstar hfit
      cases h with
      | plain _ _ hall => exact fun hlikes => hmiss (hall.mp hlikes)
      | starred => cases hk

end turns

/-- The loop over the text, from its start. -/
lemma likeLoop_spec (t p : List Char) (hfuel : (t.length+1)*(p.length+1) ≤ fuel) :
    ∃ out n, run (likeTurn t p) fuel ⟨0,0,none,0⟩ = some (out,n) ∧ LikeExit t p out ∧
      n ≤ (t.length+1)*(p.length+1) := by
  have hstart : LikeInv t p ⟨0,0,none,0⟩ := .plain (zero_le _) (zero_le _) Iff.rfl
  have hrank : LikeState.rank p ⟨0,0,none,0⟩ = 0 := by simp [LikeState.rank]
  have hbound : (t.length+1)*(p.length+1) = t.length*(p.length+1)+p.length+1 := by ring
  have hroom : t.length*(p.length+1)+p.length-LikeState.rank p ⟨0,0,none,0⟩ < fuel := by omega
  obtain ⟨out,n,hrun,hpost,hn⟩ := run_spec (fun _ _ h hs => LikeInv.again h hs)
    (fun _ _ h hout => LikeInv.done h hout) (fun _ h => h.rank_le) hstart hroom
  exact ⟨out,n,hrun,hpost,by omega⟩

/-- The loop over the rest of the pattern: it gets to the end when only `%` is left. -/
lemma trailLoop_spec (p : List Char) {pi fuel : ℕ} (hpi : pi ≤ p.length) (hfuel : p.length < fuel) :
    ∃ last n, run (trailTurn p) fuel pi = some (last,n) ∧
      (last = p.length ↔ Likes [] (p.drop pi)) ∧ n ≤ p.length+1 := by
  have hagain : ∀ i i', (i ≤ p.length ∧ (Likes [] (p.drop i) ↔ Likes [] (p.drop pi))) → trailTurn p i = .again i' →
      (i' ≤ p.length ∧ (Likes [] (p.drop i') ↔ Likes [] (p.drop pi))) ∧ i < i' := by
    rintro i i' ⟨-,hi⟩ hturn
    rw [trailTurn] at hturn
    split_ifs at hturn with hstar
    obtain rfl := again.inj hturn
    refine ⟨⟨lt_of_getElem? hstar,?_⟩,lt_succ_self i⟩
    rw [← hi,drop_of_getElem? hstar]
    simp [likes_percent_cons]
  have hdone : ∀ i last, (i ≤ p.length ∧ (Likes [] (p.drop i) ↔ Likes [] (p.drop pi))) → trailTurn p i = .done last →
      (last = p.length ↔ Likes [] (p.drop pi)) := by
    rintro i last ⟨hle,hi⟩ hturn
    rw [trailTurn] at hturn
    split_ifs at hturn with hstar
    obtain rfl := done.inj hturn
    rw [← hi]
    constructor
    · rintro rfl
      rw [drop_length]
      exact .nil
    · intro hlikes
      by_contra hne
      have hlt := lt_of_le_of_ne hle hne
      rw [drop_eq_getElem_cons hlt] at hlikes
      obtain ⟨a,t',ht,-⟩ := (likes_one_cons fun e => hstar (by rw [getElem?_eq_getElem hlt,e])).mp hlikes
      cases ht
  obtain ⟨last,n,hrun,hpost,hn⟩ := run_spec hagain hdone (fun _ h => h.1) ⟨hpi,Iff.rfl⟩
    (show p.length-pi < fuel by omega)
  exact ⟨last,n,hrun,hpost,by omega⟩

/-- `like` is exact, and both loops together take at most `2*(|t|+1)*(|p|+1)` turns. -/
theorem likeMatch_exact (text pattern : String) :
    ∃ b turns, (∀ fuel, (text.toList.length+1)*(pattern.toList.length+1) ≤ fuel →
        likeMatch fuel text pattern = some (b,turns)) ∧
      (b = true ↔ Likes text.toList pattern.toList) ∧
      turns ≤ 2*((text.toList.length+1)*(pattern.toList.length+1)) := by
  obtain ⟨out,n,hrun,hpost,hn⟩ := likeLoop_spec text.toList pattern.toList le_rfl
  cases out with
  | none =>
    refine ⟨false,n,fun fuel hfuel => ?_,by simpa [LikeExit] using hpost,by omega⟩
    rw [likeMatch,run_mono hrun hfuel]
  | some pi =>
    obtain ⟨hpi,hall⟩ := hpost
    have hlt : pattern.toList.length < (text.toList.length+1)*(pattern.toList.length+1) := by
      rw [succ_mul]
      omega
    obtain ⟨last,m,htrail,hlast,hm⟩ := trailLoop_spec pattern.toList hpi hlt
    refine ⟨last == pattern.toList.length,n+m,fun fuel hfuel => ?_,by rw [hall,← hlast,beq_iff_eq],by omega⟩
    simp only [likeMatch,run_mono hrun hfuel,run_mono htrail hfuel,map_some]

end PowDB.Query

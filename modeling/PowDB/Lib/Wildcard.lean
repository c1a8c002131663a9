import Mathlib.Data.List.Basic
import Mathlib.Tactic.Common

/-! Matching a list against a pattern some of whose elements take a run of any length and the
others one element that fits. -/
namespace PowDB.Lib
open List
variable {α β : Type}

/-- `Matches star fits t p`: `t` is cut into pieces, one for each element of `p`; an element that
is a `star` takes any run, another one takes exactly one element that fits it. -/
inductive Matches (star : β → Prop) (fits : β → α → Prop) : List α → List β → Prop
  | nil : Matches star fits [] []
  | run {b : β} (hb : star b) (taken : List α) {t : List α} {p : List β} (h : Matches star fits t p) :
    Matches star fits (taken++t) (b::p)
  | one {b : β} (hb : ¬star b) {a : α} (ha : fits b a) {t : List α} {p : List β} (h : Matches star fits t p) :
    Matches star fits (a::t) (b::p)

namespace Matches
variable {star : β → Prop} {a : α} {b : β}

lemma nil_right_iff : Matches star fits t [] ↔ t = [] := by
  constructor
  · rintro ⟨⟩
    rfl
  · rintro rfl
    exact .nil

lemma one_iff (hb : ¬star b) : Matches star fits t (b::p) ↔ ∃ a t', t = a::t' ∧ fits b a ∧ Matches star fits t' p := by
  constructor
  · intro h
    cases h with
    | run hb' => exact absurd hb' hb
    | one _ ha h => exact ⟨_,_,rfl,ha,h⟩
  · rintro ⟨a,t',rfl,ha,h⟩
    exact .one hb ha h

/-- A star tries every place from here on. -/
lemma run_iff (hb : star b) : Matches star fits t (b::p) ↔ ∃ k, Matches star fits (t.drop k) p := by
  constructor
  · intro h
    cases h with
    | run _ taken h => exact ⟨taken.length,by simpa using h⟩
    | one hb' => exact absurd hb hb'
  · rintro ⟨k,h⟩
    have := Matches.run hb (t.take k) h
    rwa [take_append_drop] at this

end Matches
end PowDB.Lib

import PowDB.Lib.AssocList

/-! Hash tables of buckets: every key with the items inserted under it, oldest
first. -/
namespace PowDB.Lib
variable {κ α : Type} [DecidableEq κ]

/-- Put an item behind those its key already has. -/
def pushBucket : List (κ × List α) → κ → α → List (κ × List α)
  | [],k,a => [(k,[a])]
  | (n,as)::m,k,a => if n = k then (n,as++[a])::m else (n,as)::pushBucket m k a

def bucket (m : List (κ × List α)) (k : κ) : List α := (m.lookup k).getD []

def buckets (key : α → κ) (xs : List α) : List (κ × List α) :=
  xs.foldl (fun m a => pushBucket m (key a) a) []

theorem bucket_pushBucket (m : List (κ × List α)) (k k' : κ) (a : α) :
    bucket (pushBucket m k a) k' = if k = k' then bucket m k' ++ [a] else bucket m k' := by
  induction m with
  | nil =>
    by_cases h : k = k'
    · subst h
      simp [bucket,pushBucket]
    · simp [bucket,pushBucket,h,lookup_cons_of_ne _ (Ne.symm h)]
  | cons x m ih =>
    obtain ⟨n,as⟩ := x
    simp only [pushBucket]
    by_cases hn : n = k
    · subst hn
      by_cases h : n = k'
      · subst h
        simp [bucket]
      · simp [bucket,h,lookup_cons_of_ne _ (Ne.symm h)]
    · rw [if_neg hn]
      by_cases h : n = k'
      · subst h
        simp [bucket,Ne.symm hn]
      · simpa [bucket,lookup_cons_of_ne _ (Ne.symm h)] using ih

/-- A bucket holds the items of its key in the order they came. -/
theorem bucket_buckets (key : α → κ) (xs : List α) (k : κ) :
    bucket (buckets key xs) k = xs.filter (fun a => decide (key a = k)) := by
  suffices h : ∀ m, bucket (xs.foldl (fun m a => pushBucket m (key a) a) m) k =
      bucket m k ++ xs.filter (fun a => decide (key a = k)) by
    simpa [bucket,buckets] using h []
  induction xs with
  | nil => simp
  | cons x xs ih =>
    intro m
    rw [List.foldl_cons,ih,bucket_pushBucket]
    by_cases h : key x = k <;> simp [h]

end PowDB.Lib

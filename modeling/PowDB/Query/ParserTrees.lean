import PowDB.Query.Parser

/-! The trees the parser builds and rewrites: how deep they are, how deep an alias can
stand in them, and that rewriting does not look at literals. -/
namespace PowDB.Syntax
open List
open Query (BinOp UnaryOp ScalarFn)
variable {ℓ ℓ' : Type}

namespace Expr
variable {D A : ℕ} {e : Expr ℓ}

/-- At most `D` expressions deep, and aliases at most `A` deep. -/
def Fits (D A : ℕ) (e : Expr ℓ) : Prop := e.Within children D ∧ e.Within aliasChildren A

lemma Fits.mono (h : e.Fits D A) (hD : D ≤ D') (hA : A ≤ A') : e.Fits D' A' :=
  ⟨h.1.mono hD,h.2.mono hA⟩

lemma fits_node (hD : ∀ e' ∈ e.children, e'.Within children D)
    (hA : ∀ e' ∈ e.aliasChildren, e'.Within aliasChildren A) : e.Fits (D+1) (A+1) :=
  ⟨.node hD,.node hA⟩

/-- A node whose parts are read by no alias. -/
lemma fits_closed (hD : ∀ e' ∈ e.children, e'.Within children D) (hA : e.aliasChildren = []) : e.Fits (D+1) (A+1) :=
  fits_node hD (by simp [hA])

lemma Fits.binaryOp (op : BinOp) (hl : l.Fits D A) (hr : r.Fits D A) :
    (Expr.binaryOp l op r).Fits (D+1) (A+1) := by
  apply fits_node
  · simpa [children] using ⟨hl.1,hr.1⟩
  · simpa [aliasChildren] using ⟨hl.2,hr.2⟩

lemma Fits.coalesce (hl : l.Fits D A) (hr : r.Fits D A) : (Expr.coalesce l r).Fits (D+1) (A+1) := by
  apply fits_node
  · simpa [children] using ⟨hl.1,hr.1⟩
  · simpa [aliasChildren] using ⟨hl.2,hr.2⟩

lemma Fits.unaryOp (op : UnaryOp) (h : e.Fits D A) : (Expr.unaryOp op e).Fits (D+1) (A+1) := by
  apply fits_node
  · simpa [children] using h.1
  · simpa [aliasChildren] using h.2

lemma Fits.inList (b : Bool) (h : e.Fits D A) (hes : ∀ e' ∈ es, e'.Fits D A) :
    (Expr.inList e es b).Fits (D+1) (A+1) := by
  apply fits_node
  · simpa [children] using ⟨h.1,fun e' he' => (hes e' he').1⟩
  · simpa [aliasChildren] using ⟨h.2,fun e' he' => (hes e' he').2⟩

lemma substituteAll_eq (fields : List (ProjectionField (Expr ℓ))) (es : List (Expr ℓ)) :
    substituteAll fields es = es.map (substituteProjectionAliases fields) := by
  induction es with
  | nil => rfl
  | cons e es ih => exact congrArg (e.substituteProjectionAliases fields::·) ih

/-- Replacing aliases stacks the depth of the projection on that of the aliases. -/
lemma Within.substitute (hA : e.Within aliasChildren A)
    (hD : e.Within children D) (hfields : ∀ k ∈ fields, k.expr.Within children D) :
    (e.substituteProjectionAliases fields).Within children (A+D) := by
  induction hA with
  | @node A e _ ih =>
    have hsub : ∀ e' ∈ e.children, e'.Within children D := by
      cases hD with
      | node h => exact fun e' he' => (h e' he').mono (Nat.le_succ _)
    have hkids : ∀ e' ∈ e.aliasChildren, e' ∈ e.children →
        (e'.substituteProjectionAliases fields).Within children (A+D) :=
      fun e' he' hc => ih e' he' (hsub e' hc)
    cases e with
    | field n =>
      rw [substituteProjectionAliases]
      split
      · rename_i k hk
        exact (hfields k (mem_of_find?_eq_some hk)).mono (by omega)
      · exact hD.mono (by omega)
    | binaryOp l op r | unaryOp op e | coalesce l r =>
      rw [substituteProjectionAliases,Nat.succ_add]
      exact .node (by simpa [children,aliasChildren] using hkids)
    | inList e es b =>
      rw [substituteProjectionAliases,substituteAll_eq,Nat.succ_add]
      refine .node ?_
      simp only [children,mem_cons,mem_map,forall_eq_or_imp,forall_exists_index,and_imp,
        forall_apply_eq_imp_iff₂]
      exact ⟨hkids e mem_cons_self mem_cons_self,fun e' he' =>
        hkids e' (mem_cons_of_mem _ he') (mem_cons_of_mem _ he')⟩
    | scalarFunc g es =>
      rw [substituteProjectionAliases,substituteAll_eq,Nat.succ_add]
      refine .node ?_
      simp only [children,mem_map,forall_exists_index,and_imp,forall_apply_eq_imp_iff₂]
      exact fun e' he' => hkids e' he' he'
    | _ =>
      rw [substituteProjectionAliases]
      · exact hD.mono (by omega)
      all_goals simp

lemma find_alias_map (f : ℓ → ℓ') (fields : List (ProjectionField (Expr ℓ))) (n : String) :
    (fields.map (ProjectionField.map (map f))).find? (fun k => k.aliasName = some n) =
      (fields.find? (fun k => k.aliasName = some n)).map (ProjectionField.map (map f)) := by
  rw [find?_map]
  rfl

/-- Aliases are replaced without regard to literals. -/
lemma Within.substitute_map (h : e.Within aliasChildren A) (f : ℓ → ℓ') (fields : List (ProjectionField (Expr ℓ))) :
    (e.map f).substituteProjectionAliases (fields.map (ProjectionField.map (map f))) =
      (e.substituteProjectionAliases fields).map f := by
  have hall : ∀ es : List (Expr ℓ), (∀ e ∈ es, (e.map f).substituteProjectionAliases
      (fields.map (ProjectionField.map (map f))) = (e.substituteProjectionAliases fields).map f) →
      (es.map (map f)).map (substituteProjectionAliases (fields.map (ProjectionField.map (map f)))) =
        (es.map (substituteProjectionAliases fields)).map (map f) := by
    intro es hes
    rw [map_map,map_map]
    exact map_congr_left hes
  induction h with
  | @node A e _ ih =>
    cases e with
    | field n =>
      rw [map_field,substituteProjectionAliases,substituteProjectionAliases,find_alias_map]
      cases fields.find? (fun k => k.aliasName = some n) <;> rfl
    | binaryOp l op r =>
      simp only [map_binaryOp,substituteProjectionAliases,ih l (by simp [aliasChildren]),
        ih r (by simp [aliasChildren])]
    | unaryOp op e => simp only [map_unaryOp,substituteProjectionAliases,ih e (by simp [aliasChildren])]
    | coalesce l r =>
      simp only [map_coalesce,substituteProjectionAliases,ih l (by simp [aliasChildren]),
        ih r (by simp [aliasChildren])]
    | inList e es b =>
      rw [map_inList,substituteProjectionAliases,substituteProjectionAliases,map_inList,substituteAll_eq,
        substituteAll_eq,hall es fun e' he' => ih e' (mem_cons_of_mem _ he'),ih e mem_cons_self]
    | scalarFunc g es =>
      rw [map_scalarFunc,substituteProjectionAliases,substituteProjectionAliases,map_scalarFunc,substituteAll_eq,
        substituteAll_eq,hall es ih]
    | _ => simp [substituteProjectionAliases]

lemma qualifyAll_eq (name : String) (es : List (Expr ℓ)) :
    qualifyAll name es = es.map (qualifyBareFields name) := by
  induction es with
  | nil => rfl
  | cons e es ih => exact congrArg (e.qualifyBareFields name::·) ih

lemma qualifyOption_eq (name : String) (e : Option (Expr ℓ)) :
    qualifyOption name e = e.map (qualifyBareFields name) := by
  cases e <;> rfl

lemma qualifyWhens_eq (name : String) (ws : List (Expr ℓ × Expr ℓ)) :
    qualifyWhens name ws = ws.map (Prod.map (qualifyBareFields name) (qualifyBareFields name)) := by
  induction ws with
  | nil => rfl
  | cons w ws ih =>
    obtain ⟨c,r⟩ := w
    exact congrArg ((c.qualifyBareFields name,r.qualifyBareFields name)::·) ih

/-- Qualifying fields does not deepen a tree. -/
lemma Within.qualify (h : e.Within children D) (name : String) : (e.qualifyBareFields name).Within children D := by
  induction h with
  | @node D e hkids ih =>
    cases e with
    | scalarFunc g es | inList e es b =>
      rw [qualifyBareFields,qualifyAll_eq]
      exact .node (by simpa [children] using ih)
    | case ws e =>
      rw [qualifyBareFields,qualifyWhens_eq,qualifyOption_eq]
      refine .node ?_
      simp only [children,mem_append,mem_flatMap,mem_cons,not_mem_nil,or_false,
        Option.mem_toList] at ih
      simp only [children,mem_append,mem_flatMap,mem_map,mem_cons,not_mem_nil,or_false,
        Option.mem_toList,Option.map_eq_some_iff]
      rintro e' (⟨w',⟨w,hw,rfl⟩,he'⟩ | ⟨e₀,he₀,rfl⟩)
      · rcases he' with rfl | rfl
        · exact ih w.1 (.inl ⟨w,hw,.inl rfl⟩)
        · exact ih w.2 (.inl ⟨w,hw,.inr rfl⟩)
      · exact ih e₀ (.inr he₀)
    | field n => exact .node (by simp [qualifyBareFields,children])
    | binaryOp l op r
    | unaryOp op e
    | coalesce l r
    | cast e t
    | jsonPath b ss => exact .node (by simpa [qualifyBareFields,children] using ih)
    | _ =>
      rw [qualifyBareFields]
      · exact .node hkids
      all_goals simp

lemma Within.qualify_map (h : e.Within children D) (f : ℓ → ℓ') (name : String) :
    (e.map f).qualifyBareFields name = (e.qualifyBareFields name).map f := by
  induction h with
  | @node D e _ ih =>
    have hall : ∀ es : List (Expr ℓ), (∀ e' ∈ es, e' ∈ e.children) →
        (es.map (map f)).map (qualifyBareFields name) = (es.map (qualifyBareFields name)).map (map f) := by
      intro es hes
      rw [map_map,map_map]
      exact map_congr_left fun e' he' => ih e' (hes e' he')
    cases e with
    | scalarFunc g es =>
      rw [map_scalarFunc,qualifyBareFields,qualifyBareFields,map_scalarFunc,qualifyAll_eq,qualifyAll_eq,
        hall es fun _ h => h]
    | inList e es b =>
      rw [map_inList,qualifyBareFields,qualifyBareFields,map_inList,qualifyAll_eq,qualifyAll_eq,
        ih e mem_cons_self,hall es fun _ h => mem_cons_of_mem _ h]
    | case ws e =>
      have hws : (ws.map (Prod.map (map f) (map f))).map
          (Prod.map (qualifyBareFields name) (qualifyBareFields name)) =
          (ws.map (Prod.map (qualifyBareFields name) (qualifyBareFields name))).map
            (Prod.map (map f) (map f)) := by
        rw [map_map,map_map]
        refine map_congr_left fun w hw => ?_
        have hmem : w.1 ∈ children (.case ws e) ∧ w.2 ∈ children (.case ws e) := by
          simp only [children,mem_append,mem_flatMap]
          exact ⟨.inl ⟨w,hw,by simp⟩,.inl ⟨w,hw,by simp⟩⟩
        exact Prod.ext (ih w.1 hmem.1) (ih w.2 hmem.2)
      have he : (Option.map (map f) e).map (qualifyBareFields name) =
          Option.map (map f) (e.map (qualifyBareFields name)) := by
        rcases e with _ | e
        · rfl
        · exact congrArg some (ih e (by simp [children]))
      rw [map_case,qualifyBareFields,qualifyBareFields,map_case,qualifyWhens_eq,qualifyWhens_eq,qualifyOption_eq,
        qualifyOption_eq,hws,he]
    | binaryOp l op r =>
      simp only [map_binaryOp,qualifyBareFields,ih l (by simp [children]),ih r (by simp [children])]
    | unaryOp op e => simp only [map_unaryOp,qualifyBareFields,ih e (by simp [children])]
    | coalesce l r =>
      simp only [map_coalesce,qualifyBareFields,ih l (by simp [children]),ih r (by simp [children])]
    | cast e t => simp only [map_cast,qualifyBareFields,ih e (by simp [children])]
    | jsonPath b ss => simp only [map_jsonPath,qualifyBareFields,ih b (by simp [children])]
    | _ => simp [qualifyBareFields]

end Expr

lemma expressionOutputName_map (f : ℓ → ℓ') (e : Expr ℓ) :
    expressionOutputName (e.map f) = expressionOutputName e := by
  cases e with
  | jsonPath b ss => cases b <;> simp [expressionOutputName]
  | _ => simp [expressionOutputName]

lemma groupOutputName_map (f : ℓ → ℓ') (n : ℕ) (e : Expr ℓ) :
    groupOutputName n (e.map f) = groupOutputName n e := by
  cases e with
  | jsonPath b ss => exact expressionOutputName_map f (.jsonPath b ss)
  | _ => simp [groupOutputName,expressionOutputName]

end PowDB.Syntax

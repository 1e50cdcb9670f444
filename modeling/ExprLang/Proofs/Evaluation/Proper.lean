import ExprLang.Proofs.Evaluation.Keeping

/-!
# No host values turn up

A value is proper if it is neither absent nor of a foreign type, and no list in it holds such a
value. In a scope of proper values every evaluation gives a proper value and leaves such a scope,
also after an error.
-/

namespace ExprLang

/-! ## Proper values -/

namespace Value

mutual

/-- A value of the language, in lists of any depth. -/
def isProper : Value → Bool
  | .absent | .foreign _ => false
  | .list items => areProper items
  | _ => true

def areProper : List Value → Bool
  | [] => true
  | v :: vs => v.isProper && areProper vs

end

/-- The values are all proper. -/
def AllProper (vs : List Value) : Prop := ∀ v ∈ vs, v.isProper = true

theorem areProper_iff (vs : List Value) : areProper vs = true ↔ AllProper vs := by
  induction vs with
  | nil => simp [areProper, AllProper]
  | cons v vs ih =>
    rw [areProper, Bool.and_eq_true, ih, AllProper, AllProper, List.forall_mem_cons]

theorem isProper_list {items : List Value} : (Value.list items).isProper = true ↔ AllProper items :=
  areProper_iff items

theorem lasting_isProper : Lasting fun _ v => v.isProper = true where
  mono _ h := h
  plain {ds v} h := by
    cases v with
    | list | function | absent | foreign => cases h
    | _ => rfl
  function _ _ _ := rfl
  list := isProper_list

end Value

/-! ## Scopes -/

/-- A frame of proper values. -/
def Frame.Proper (frame : Frame) : Prop := ∀ p ∈ frame, p.2.isProper = true

/-- A scope of such frames. -/
def Scope.Proper (s : Scope) : Prop := ∀ frame ∈ s.frames, frame.Proper

theorem Frame.proper_globals (root : Root) : (globals root).Proper := by
  intro p hp
  obtain ⟨b, -, rfl⟩ := List.mem_map.mp hp
  rfl

/-- From a proper scope, evaluation gives a proper value and leaves a proper scope. -/
theorem proper_eval (fuel : Nat) (e : Expr) {m : Machine} (hm : m.scope.Proper) :
    match eval fuel e m with
    | .ok v m' => v.isProper = true ∧ m'.scope.Proper
    | .error _ m' => m'.scope.Proper := by
  obtain ⟨ds, hds⟩ := exists_declarations m.fresh
  obtain ⟨ks, -, h⟩ := resultAll_eval Value.lasting_isProper fuel e ⟨hds, hm⟩
  cases hr : eval fuel e m with
  | ok v m' =>
    rw [hr] at h
    exact ⟨h.1, h.2.scope⟩
  | error e m' =>
    rw [hr] at h
    exact h.scope

end ExprLang

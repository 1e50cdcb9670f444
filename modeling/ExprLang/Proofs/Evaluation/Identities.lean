import ExprLang.Proofs.Evaluation.Keeping
import ExprLang.Proofs.Evaluation.Visible

/-!
# The identities given out

A run that starts with another unused identity does the same, except that the functions made on the
way have other identities: its results and its frames are those of the first run, renamed. More fuel
changes nothing once there is a result.

Identities of functions in scope have been given out before, and evaluation leaves it so.
-/

namespace ExprLang

open ExprLang.Eval

/-! ## Renaming frames and machines -/

def Frame.rename (f : Nat → Nat) (frame : Frame) : Frame := frame.map fun p => (p.1, p.2.rename f)

/-- Other identities for the functions in a scope. -/
def Scope.rename (f : Nat → Nat) (s : Scope) : Scope :=
  ⟨s.top.rename f, s.outer.map (Frame.rename f)⟩

/-- A machine of a run that gives out identities from `a` on, in a run that gives them out from `b`
on. -/
def Machine.rebased (a b : Nat) (m : Machine) : Machine :=
  ⟨m.scope.rename (rebase a b), m.printed, rebase a b m.fresh⟩

/-- A result of the first run in the second. -/
def Eval.rebased (a b : Nat) :
    EStateM.Result Halt Machine Value → EStateM.Result Halt Machine Value
  | .ok v m => .ok (v.rename (rebase a b)) (m.rebased a b)
  | .error e m => .error e (m.rebased a b)

theorem Frame.Alike.eq_rename {a b : Nat} {framed : Bool} {f g : Frame}
    (h : Frame.Alike (.runs a b framed) f g) : g = f.rename (rebase a b) := by
  induction h with
  | nil => rfl
  | @cons p q f g hpq _ ih =>
    rw [Frame.rename, List.map_cons, ← hpq.2.eq_rename, hpq.1]
    exact congrArg (q :: ·) ih

theorem eq_map_rename {a b : Nat} {framed : Bool} {fs gs : List Frame}
    (h : List.Forall₂ (Frame.Alike (.runs a b framed)) fs gs) :
    gs = fs.map (Frame.rename (rebase a b)) := by
  induction h with
  | nil => rfl
  | cons hf _ ih => rw [List.map_cons, ← hf.eq_rename, ← ih]

theorem Machine.Alike.eq_rebased {a b : Nat} {m m' : Machine}
    (h : m.Alike (.runs a b true) m') : m' = m.rebased a b := by
  have hframes := eq_map_rename (h.scope.frames rfl)
  obtain ⟨⟨top, outer⟩, printed, fresh⟩ := m'
  obtain ⟨rfl, rfl⟩ := List.cons.inj hframes
  obtain rfl := h.printed
  obtain rfl := rebase_of_same (h.fresh 0)
  rfl

/-! ## Other identities -/

/-- The identities of the functions in scope are not given out from `m.fresh` or from `b` on, unless
these are the same. -/
def Machine.Known (b : Nat) (m : Machine) : Prop :=
  ∀ frame ∈ m.scope.frames, ∀ p ∈ frame, p.2.Known m.fresh b

theorem Scope.alike_of_frames {L : Likeness} {s t : Scope}
    (h : List.Forall₂ (Frame.Alike L) s.frames t.frames) : s.Alike L t := by
  refine ⟨fun name => ?_, fun _ => h⟩
  rw [lookup, lookup]
  generalize s.frames = fs at h ⊢
  generalize t.frames = gs at h ⊢
  induction h with
  | nil => exact .none
  | cons hf _ ih =>
    have hl := hf.lookup name
    rw [List.findSome?_cons, List.findSome?_cons]
    generalize List.lookup name _ = x at hl ⊢
    generalize List.lookup name _ = y at hl ⊢
    cases hl with
    | some hv => exact .some hv
    | none => exact ih

theorem Machine.Known.alike {b : Nat} {m : Machine} (h : m.Known b) :
    m.Alike (.runs m.fresh b true) { m with fresh := b } := by
  refine ⟨Scope.alike_of_frames ?_, rfl, fun n => Or.inr ⟨n, rfl, rfl⟩⟩
  refine List.forall₂_same.mpr fun frame hframe => List.forall₂_same.mpr fun p hp => ⟨rfl, ?_⟩
  refine Value.alike_self (fun _ => rfl) p.2 fun i hi => Or.inl ⟨rfl, ?_⟩
  exact (h frame hframe p hp).imp id fun h => h i hi

/-! ## Identities given out -/

theorem Value.mem_identitiesAll {i : Nat} {vs : List Value} :
    i ∈ identitiesAll vs ↔ ∃ v ∈ vs, i ∈ v.identities := by
  induction vs with
  | nil => simp [identitiesAll]
  | cons v vs ih => simp [identitiesAll, ih]

/-- The identities of the functions in a value have been given out if `n` is the next one. -/
def Value.Issued (n : Nat) (v : Value) : Prop := ∀ i ∈ v.identities, i < n

theorem Value.lasting_issued : Lasting fun ds => Issued ds.length where
  mono hk h i hi := Nat.lt_of_lt_of_le (h i hi) hk.length_le
  plain {ds v} h := by
    cases v with
    | list | function | absent | foreign => cases h
    | _ => exact List.forall_mem_nil _
  function ds params body := by
    refine List.forall_mem_singleton.mpr ?_
    rw [List.length_append]
    exact Nat.lt_succ_self ds.length
  list {ds vs} := by
    refine ⟨fun h v hv i hi => h i (mem_identitiesAll.mpr ⟨v, hv, hi⟩), fun h i hi => ?_⟩
    obtain ⟨v, hv, hi⟩ := mem_identitiesAll.mp hi
    exact h v hv i hi

/-- The identities of the functions in scope have been given out. -/
def Machine.Issued (m : Machine) : Prop :=
  ∀ frame ∈ m.scope.frames, ∀ p ∈ frame, ∀ i ∈ p.2.identities, i < m.fresh

theorem Machine.Issued.known {m : Machine} (h : m.Issued) : m.Known (m.fresh + 1) :=
  fun frame hframe p hp => Or.inr fun i hi =>
    ⟨h frame hframe p hp i hi, Nat.lt_succ_of_lt (h frame hframe p hp i hi)⟩

theorem Machine.Issued.known_back {m : Machine} (h : m.Issued) :
    Machine.Known m.fresh { m with fresh := m.fresh + 1 } :=
  fun frame hframe p hp => (h.known frame hframe p hp).symm

theorem Machine.All.issued {ds : Declarations} {m : Machine}
    (h : m.All (fun ds => Value.Issued ds.length) ds) : m.Issued := by
  rw [Machine.Issued, h.fresh]
  exact h.scope

/-- Evaluation gives out the identities of the functions it makes. -/
theorem issued_eval (fuel : Nat) (e : Expr) {m : Machine} (hm : m.Issued) :
    (machineOf (eval fuel e m)).Issued := by
  obtain ⟨ds, hds⟩ := exists_declarations m.fresh
  rw [Machine.Issued, hds] at hm
  obtain ⟨ks, -, hall⟩ := resultAll_eval Value.lasting_issued fuel e ⟨hds, hm⟩
  cases hr : eval fuel e m with
  | ok v m' =>
    rw [hr] at hall
    exact hall.2.issued
  | error halt m' =>
    rw [hr] at hall
    exact hall.issued

namespace Eval

/-- A value or an error of the language. -/
def Final {α : Type} (r : EStateM.Result Halt Machine α) : Prop := ∀ m, r ≠ .error .outOfFuel m

theorem ResultAlike.eq_rebased {a b : Nat} {r r' : EStateM.Result Halt Machine Value}
    (h : ResultAlike (.runs a b true) (Value.Alike (.runs a b true)) r r') (hr : Final r) :
    r' = rebased a b r := by
  cases h with
  | ok hv hm => rw [rebased, hv.eq_rename, hm.eq_rebased]
  | error hl hm =>
    cases hl
    rw [rebased, hm.eq_rebased]
  | outOfFuel m r => exact absurd rfl (hr m)

/-- Simulations that ask for the frames give the renamed result. -/
theorem Simulates.eq_rebased {m : Machine} {b : Nat} {x y : Eval Value}
    (h : Simulates (.runs m.fresh b true) (Value.Alike (.runs m.fresh b true)) x y)
    (hm : m.Known b) (hr : Final (x m)) :
    y { m with fresh := b } = rebased m.fresh b (x m) :=
  (h _ _ hm.alike).eq_rebased hr

end Eval

/-! ## More fuel -/

theorem rebase_self (a i : Nat) : rebase a a i = i := by
  unfold rebase
  split <;> omega

namespace Value

mutual

theorem rename_eq_self {f : Nat → Nat} (hf : ∀ i, f i = i) : (v : Value) → v.rename f = v
  | .function i params body => by rw [rename, hf]
  | .list items => by rw [rename, renameAll_eq_self hf items]
  | .int _ | .float _ | .string _ | .bool _ | .null | .range .. | .builtin .. | .absent
  | .foreign _ => rfl

theorem renameAll_eq_self {f : Nat → Nat} (hf : ∀ i, f i = i) : (vs : List Value) →
    renameAll f vs = vs
  | [] => rfl
  | v :: vs => by rw [renameAll, rename_eq_self hf v, renameAll_eq_self hf vs]

end

end Value

theorem Frame.rename_eq_self {f : Nat → Nat} (hf : ∀ i, f i = i) (frame : Frame) :
    frame.rename f = frame := by
  rw [rename]
  exact List.map_id'' (fun p => by rw [Value.rename_eq_self hf]) frame

theorem Machine.rebased_self (a : Nat) (m : Machine) : m.rebased a a = m := by
  obtain ⟨⟨top, outer⟩, printed, fresh⟩ := m
  have hframe := Frame.rename_eq_self (rebase_self a)
  rw [rebased, Scope.rename, rebase_self, hframe, List.map_id'' hframe]

theorem Eval.rebased_self (a : Nat) (r : EStateM.Result Halt Machine Value) :
    rebased a a r = r := by
  cases r with
  | ok v m => rw [rebased, Value.rename_eq_self (rebase_self a), m.rebased_self]
  | error e m => rw [rebased, m.rebased_self]

/-- With the same identities nothing is renamed. -/
theorem Eval.Simulates.eq_self {m : Machine} {x y : Eval Value}
    (h : Simulates (.runs m.fresh m.fresh true) (Value.Alike (.runs m.fresh m.fresh true)) x y)
    (hr : Final (x m)) : y m = x m := by
  have hm : m.Known m.fresh := fun _ _ _ _ => Or.inl rfl
  rw [← rebased_self m.fresh (x m)]
  exact h.eq_rebased hm hr

/-- An expression against itself with more fuel. -/
theorem eval_simulates_self (a b : Nat) {fuel k : Nat} (hk : fuel ≤ k) (e : Expr) :
    Simulates (.runs a b true) (Value.Alike (.runs a b true)) (eval fuel e) (eval k e) := by
  refine eval_simulates ?_ ((Expr.alike_self_compositional fun _ => rfl).expr e)
  exact Nat.le_trans (Nat.le_of_eq (Nat.one_mul fuel)) hk

theorem eval_mono {fuel k : Nat} (hk : fuel ≤ k) {e : Expr} {m : Machine}
    (hr : Final (eval fuel e m)) : eval k e m = eval fuel e m :=
  (eval_simulates_self _ _ hk e).eq_self hr

end ExprLang

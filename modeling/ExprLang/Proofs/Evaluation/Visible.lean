import ExprLang.Proofs.Evaluation.Simulation
import ExprLang.Proofs.Printing.Normal

/-!
# Evaluation sees only visible bindings

Two scopes of any shape in which every name means the same cannot be told apart by an evaluation: it
gives the same value or error, prints the same lines and leaves two such scopes again. A call is no
exception, since a function does not keep the scope it was made in.

New functions get new identities, and the two runs may give out different ones. A value of the one
run is a value of the other up to the identities given out since the start.
-/

namespace ExprLang

open ExprLang.Eval

/-! ## Renaming identities -/

/-- The identities given out from `a` on, read as those given out from `b` on. -/
def rebase (a b i : Nat) : Nat := if i < a then i else b + (i - a)

namespace Value

mutual

/-- Other identities for the functions in a value. -/
def rename (f : Nat → Nat) : Value → Value
  | .function i params body => .function (f i) params body
  | .list items => .list (renameAll f items)
  | v => v

def renameAll (f : Nat → Nat) : List Value → List Value
  | [] => []
  | v :: vs => v.rename f :: renameAll f vs

end

mutual

/-- The identities of the functions in a value. -/
def identities : Value → List Nat
  | .function i _ _ => [i]
  | .list items => identitiesAll items
  | _ => []

def identitiesAll : List Value → List Nat
  | [] => []
  | v :: vs => v.identities ++ identitiesAll vs

end

/-- A value of a run that gives out identities from `a` on, and the same value in a run that gives
them out from `b` on. Each is the other one renamed, so different functions stay different. -/
def SameUpTo (a b : Nat) (v w : Value) : Prop :=
  w = v.rename (rebase a b) ∧ v = w.rename (rebase b a)

/-- A value that both runs can start with: they give out the same identities, or its functions are
older than those of both runs. -/
def Known (a b : Nat) (v : Value) : Prop := a = b ∨ ∀ i ∈ v.identities, i < a ∧ i < b

theorem Known.symm {a b : Nat} {v : Value} (h : v.Known a b) : v.Known b a := by
  rcases h with h | h
  · exact Or.inl h.symm
  · exact Or.inr fun i hi => (h i hi).symm

end Value

/-- Everything is the same but the identities given out in two runs. -/
def Likeness.runs (a b : Nat) (framed : Bool := false) : Likeness where
  line := Eq
  same i j := (i = j ∧ (a = b ∨ i < a ∧ i < b)) ∨ ∃ n, i = a + n ∧ j = b + n
  wraps := false
  framed := framed
  same_iff := by
    rintro i i' j j' (hi | ⟨n, hi⟩) (hj | ⟨k, hj⟩) <;> omega
  not_framed h := by cases h

theorem rebase_of_same {a b i j : Nat} {framed : Bool}
    (h : (Likeness.runs a b framed).same i j) :
    j = rebase a b i := by
  unfold rebase
  rcases h with h | ⟨n, h⟩
  · split <;> omega
  · rw [if_neg (by omega)]
    omega

/-! ## Expressions that are alike but for nothing -/

namespace Expr

theorem alike_self_compositional {L : Likeness} (hline : ∀ l, L.line l l) :
    Compositional (fun e => Expr.Alike L e e) (fun b => Branches.Alike L b b) where
  literal value := .literal value
  var _ line := .var (hline line)
  grouping _ h := .grouping h
  unary _ _ line _ h := .unary (hline line) (.same h)
  binary _ _ _ line _ hl hr := .binary (hline line) (.same hl) (.same hr)
  assign _ line _ h := .assign (hline line) h
  block line _ h := .block (hline line) (List.forall₂_same.mpr h)
  cond line _ _ _ ht hy hn := .cond (hline line) (.same ht) (.same hy) hn
  each line _ _ _ hi hb := .each (hline line) (.same hi) (.same hb)
  function line _ _ h := .function (hline line) h
  call _ line _ hc ha := .call (hline line) (.same hc) (List.forall₂_same.mpr ha)
  done := .done
  otherwise _ h := .otherwise (.same h)
  elseIf _ _ _ ht hy hn := .elseIf (.same ht) (.same hy) hn

section Equal

variable {a b : Nat} {framed : Bool}

theorem eq_of_alikeOperand {e e' : Expr} (ih : ∀ d, Expr.Alike (.runs a b framed) e d → d = e)
    (h : Expr.AlikeOperand (.runs a b framed) e e') : e' = e := by
  cases h with
  | same h => exact ih e' h
  | grouped hw _ => cases hw

theorem eq_of_alikeBranch {e e' : Expr} (ih : ∀ d, Expr.Alike (.runs a b framed) e d → d = e)
    (h : Expr.AlikeBranch (.runs a b framed) e e') : e' = e := by
  cases h with
  | same h => exact ih e' h
  | braced hw _ => cases hw

theorem eq_of_forall₂_alike {es es' : List Expr}
    (ih : ∀ e ∈ es, ∀ d, Expr.Alike (.runs a b framed) e d → d = e)
    (h : List.Forall₂ (Expr.Alike (.runs a b framed)) es es') : es' = es := by
  induction h with
  | nil => rfl
  | cons he _ ihs =>
    obtain ⟨ihe, ihes⟩ := List.forall_mem_cons.mp ih
    rw [ihe _ he, ihs ihes]

theorem alike_eq_compositional :
    Compositional (fun e => ∀ e', Expr.Alike (.runs a b framed) e e' → e' = e)
      (fun c => ∀ c', Branches.Alike (.runs a b framed) c c' → c' = c) where
  literal value e' h := by
    cases h with
    | literal => rfl
  var name line e' h := by
    cases h with
    | var hl => rw [hl]
  grouping inner ih e' h := by
    cases h with
    | grouping h => rw [ih _ h]
  unary op spelling line e ih e' h := by
    cases h with
    | unary hl h => rw [hl, eq_of_alikeOperand ih h]
  binary left op spelling line right ihl ihr e' h := by
    cases h with
    | binary hl ha hb => rw [hl, eq_of_alikeOperand ihl ha, eq_of_alikeOperand ihr hb]
  assign name line value ih e' h := by
    cases h with
    | assign hl h => rw [hl, ih _ h]
  block line body ih e' h := by
    cases h with
    | block hl h => rw [hl, eq_of_forall₂_alike ih h]
  cond line test yes no iht ihy ihn e' h := by
    cases h with
    | cond hl ht hy hn => rw [hl, eq_of_alikeOperand iht ht, eq_of_alikeBranch ihy hy, ihn _ hn]
  each line name items body ihi ihb e' h := by
    cases h with
    | each hl hi hb => rw [hl, eq_of_alikeOperand ihi hi, eq_of_alikeBranch ihb hb]
  function line params body ih e' h := by
    cases h with
    | function hl h => rw [hl, ih _ h]
  call callee line args ihc iha e' h := by
    cases h with
    | call hl hc ha => rw [hl, eq_of_alikeOperand ihc hc, eq_of_forall₂_alike iha ha]
  done c' h := by
    cases h with
    | done => rfl
  otherwise body ih c' h := by
    cases h with
    | otherwise h => rw [eq_of_alikeBranch ih h]
  elseIf test yes no iht ihy ihn c' h := by
    cases h with
    | elseIf ht hy hn => rw [eq_of_alikeOperand iht ht, eq_of_alikeBranch ihy hy, ihn _ hn]

end Equal

end Expr

/-! ## Values of the two runs -/

namespace Value

mutual

theorem alike_self {L : Likeness} (hline : ∀ l, L.line l l) : (v : Value) →
    (∀ i ∈ v.identities, L.same i i) → Value.Alike L v v
  | .int n, _ => .int n
  | .float x, _ => .float x
  | .string s, _ => .string s
  | .bool b, _ => .bool b
  | .null, _ => .null
  | .list items, h => .list (alike_self_all hline items h)
  | .range start stop, _ => .range start stop
  | .function i _ body, h =>
    .function (h i List.mem_cons_self) ((Expr.alike_self_compositional hline).expr body)
  | .builtin which root, _ => .builtin which root
  | .absent, _ => .absent
  | .foreign text, _ => .foreign text

theorem alike_self_all {L : Likeness} (hline : ∀ l, L.line l l) : (vs : List Value) →
    (∀ i ∈ identitiesAll vs, L.same i i) → List.Forall₂ (Value.Alike L) vs vs
  | [], _ => .nil
  | v :: vs, h =>
    .cons (alike_self hline v fun i hi => h i (List.mem_append_left _ hi))
      (alike_self_all hline vs fun i hi => h i (List.mem_append_right _ hi))

end

theorem Known.alike {a b : Nat} {v : Value} (h : v.Known a b) :
    Value.Alike (.runs a b) v v := by
  refine alike_self (fun _ => rfl) v fun i hi => Or.inl ⟨rfl, ?_⟩
  rcases h with h | h
  · exact Or.inl h
  · exact Or.inr (h i hi)

mutual

theorem Alike.eq_rename {a b : Nat} {framed : Bool} {v w : Value} :
    Value.Alike (.runs a b framed) v w → w = v.rename (rebase a b)
  | .function hi h => by
    rw [rename, rebase_of_same hi, Expr.alike_eq_compositional.expr _ _ h]
  | .list h => by rw [rename, Alike.eq_renameAll h]
  | .int _ | .float _ | .string _ | .bool _ | .null | .range .. | .builtin .. | .absent
  | .foreign _ => rfl

theorem Alike.eq_renameAll {a b : Nat} {framed : Bool} {vs ws : List Value} :
    List.Forall₂ (Value.Alike (.runs a b framed)) vs ws → ws = renameAll (rebase a b) vs
  | .nil => rfl
  | .cons h hs => by rw [renameAll, Alike.eq_rename h, Alike.eq_renameAll hs]

end

end Value

/-! ## Results -/

/-- The same lines printed, and every name bound to the same value. -/
structure Machine.Agrees (a b : Nat) (m m' : Machine) : Prop where
  printed : m.printed = m'.printed
  scope : ∀ name, Option.Rel (Value.SameUpTo a b) (m.scope.lookup name) (m'.scope.lookup name)

/-- The same value or the same error at the same line, with machines that agree. -/
def SameResult (a b : Nat) : EStateM.Result Halt Machine Value →
    EStateM.Result Halt Machine Value → Prop
  | .ok v m, .ok w m' => v.SameUpTo a b w ∧ m.Agrees a b m'
  | .error (.error e) m, .error (.error e') m' => e = e' ∧ m.Agrees a b m'
  | .error .outOfFuel _, .error .outOfFuel _ => True
  | _, _ => False

theorem sameUpTo_lookup {a b : Nat} {x y : Option Value}
    (h : Option.Rel (Value.Alike (.runs a b)) x y)
    (h' : Option.Rel (Value.Alike (.runs b a)) y x) : Option.Rel (Value.SameUpTo a b) x y := by
  cases h with
  | none => exact .none
  | some hv =>
    cases h' with
    | some hv' => exact .some ⟨hv.eq_rename, hv'.eq_rename⟩

theorem Machine.agrees_of_alike {a b : Nat} {m m' : Machine} (h : m.Alike (.runs a b) m')
    (h' : m'.Alike (.runs b a) m) : m.Agrees a b m' :=
  ⟨h.printed, fun name => sameUpTo_lookup (h.scope.lookup name) (h'.scope.lookup name)⟩

/-- Simulations in both directions leave no room for one run to stop early. -/
theorem sameResult_of_alike {a b : Nat} {r r' : EStateM.Result Halt Machine Value}
    (h : ResultAlike (.runs a b) (Value.Alike (.runs a b)) r r')
    (h' : ResultAlike (.runs b a) (Value.Alike (.runs b a)) r' r) : SameResult a b r r' := by
  cases h with
  | ok hv hm =>
    cases h' with
    | ok hv' hm' => exact ⟨⟨hv.eq_rename, hv'.eq_rename⟩, Machine.agrees_of_alike hm hm'⟩
  | error hl hm =>
    cases h' with
    | error _ hm' => exact ⟨by rw [hl], Machine.agrees_of_alike hm hm'⟩
  | outOfFuel m r =>
    cases h' with
    | outOfFuel m' _ => trivial

/-- Machines at the start of two runs, in scopes in which every name means the same. -/
theorem Machine.alike_start {a b : Nat} {s s' : Scope} (printed : List Bytes)
    (hsee : ∀ name, s.lookup name = s'.lookup name)
    (hknown : ∀ name v, s.lookup name = some v → v.Known a b) :
    Machine.Alike (.runs a b) ⟨s, printed, a⟩ ⟨s', printed, b⟩ := by
  refine ⟨⟨fun name => ?_, fun hframed => by cases hframed⟩, rfl, fun n => Or.inr ⟨n, rfl, rfl⟩⟩
  rw [← hsee name]
  cases hv : s.lookup name with
  | none => exact .none
  | some v => exact .some (hknown name v hv).alike

/-- An evaluation or a call depends on the visible bindings only. The two runs may be in scopes of
different shapes and may give out different identities; what is visible at the start must not have
an identity that one of them gives out later. -/
theorem only_visible_matters (fuel : Nat) (s s' : Scope) (printed : List Bytes) (a b : Nat)
    (hsee : ∀ name, s.lookup name = s'.lookup name)
    (hknown : ∀ name v, s.lookup name = some v → v.Known a b) :
    (∀ e, SameResult a b (eval fuel e ⟨s, printed, a⟩) (eval fuel e ⟨s', printed, b⟩)) ∧
      ∀ (f : Callable) (line : Int) (args : List Value), (∀ v ∈ args, v.Known a b) →
        SameResult a b (invoke fuel f line args ⟨s, printed, a⟩)
          (invoke fuel f line args ⟨s', printed, b⟩) := by
  have hstart := Machine.alike_start printed hsee hknown
  have hback : Machine.Alike (.runs b a) ⟨s', printed, b⟩ ⟨s, printed, a⟩ := by
    refine Machine.alike_start printed (fun name => (hsee name).symm) fun name v hv => ?_
    rw [← hsee name] at hv
    exact (hknown name v hv).symm
  have hcost : ∀ a b, (Likeness.runs a b).cost * fuel ≤ fuel :=
    fun a b => Nat.le_of_eq (Nat.one_mul fuel)
  have hself : ∀ a b e, Expr.Alike (.runs a b) e e := fun a b =>
    (Expr.alike_self_compositional fun _ => rfl).expr
  refine ⟨fun e => ?_, fun f line args hargs => ?_⟩
  · exact sameResult_of_alike (eval_simulates (hcost a b) (hself a b e) _ _ hstart)
      (eval_simulates (hcost b a) (hself b a e) _ _ hback)
  · have hf : ∀ a b, Callable.Alike (.runs a b) f f := by
      intro a b
      cases f with
      | function params body => exact .function (hself a b body)
      | builtin which muted => exact .builtin which muted
    have hvs := List.forall₂_same.mpr fun v hv => (hargs v hv).alike
    have hvs' := List.forall₂_same.mpr fun v hv => (hargs v hv).symm.alike
    exact sameResult_of_alike
      ((simulatesAt _ fuel).invoke (hcost a b) (hf a b) rfl hvs _ _ hstart)
      ((simulatesAt _ fuel).invoke (hcost b a) (hf b a) rfl hvs' _ _ hback)

/-- A function that uses a name of its caller. -/
def borrower : Value := .function 2 [bytes "y"] (.variable (bytes "x") 1)

/-- The name and the function in one frame. -/
def oneFrame : Scope := ⟨[(bytes "x", .int 1), (bytes "f", borrower)], []⟩

/-- The same two bindings in different frames, one of which hides another binding. -/
def threeFrames : Scope :=
  ⟨[], [[(bytes "x", .int 1)], [(bytes "x", .int 2), (bytes "f", borrower)]]⟩

theorem only_visible_matters_frames :
    (∀ name, oneFrame.lookup name = threeFrames.lookup name) ∧
      (∀ name v, oneFrame.lookup name = some v → v.Known 5 9) ∧
      SameResult 5 9 (eval 9 (.function 3 [] (.variable (bytes "f") 3)) ⟨oneFrame, [], 5⟩)
        (eval 9 (.function 3 [] (.variable (bytes "f") 3)) ⟨threeFrames, [], 9⟩) ∧
      SameResult 5 9 (invoke 9 (.function [bytes "y"] (.variable (bytes "x") 1)) 4 [borrower]
        ⟨oneFrame, [], 5⟩)
        (invoke 9 (.function [bytes "y"] (.variable (bytes "x") 1)) 4 [borrower]
          ⟨threeFrames, [], 9⟩) := by
  have hborrower : borrower.Known 5 9 := Or.inr (by decide)
  have hsee : ∀ name, oneFrame.lookup name = threeFrames.lookup name := by
    intro name
    simp only [Scope.lookup, Scope.frames, oneFrame, threeFrames, List.findSome?, List.lookup]
    cases name == bytes "x" <;> cases name == bytes "f" <;> rfl
  have hknown : ∀ name v, oneFrame.lookup name = some v → v.Known 5 9 := by
    intro name v hv
    simp only [Scope.lookup, Scope.frames, oneFrame, List.findSome?, List.lookup] at hv
    cases hx : name == bytes "x" <;> cases hf : name == bytes "f" <;> simp [hx, hf] at hv
    · exact hv ▸ hborrower
    · exact hv ▸ Or.inr (by decide)
    · exact hv ▸ Or.inr (by decide)
  obtain ⟨heval, hinvoke⟩ := only_visible_matters 9 oneFrame threeFrames [] 5 9 hsee hknown
  exact ⟨hsee, hknown, heval _, hinvoke _ 4 [borrower] (List.forall_mem_singleton.mpr hborrower)⟩

end ExprLang

import ExprLang.Proofs.Evaluation.Frames
import ExprLang.Proofs.Numbers.Exact

/-!
# Integer operators are exact

On integers the operators `+`, `-` and `*` and the sign `-` give the exact result if it has 64 bits,
and stop with an overflow at their own line otherwise.
-/

namespace ExprLang

/-- The operators that keep integers integers. -/
inductive ArithmeticOp
  | add | sub | mul
  deriving DecidableEq, Repr

namespace ArithmeticOp

def apply : ArithmeticOp → Int → Int → Int
  | .add, x, y => x + y
  | .sub, x, y => x - y
  | .mul, x, y => x * y

def toBinary : ArithmeticOp → BinaryOp
  | .add => .plus
  | .sub => .minus
  | .mul => .star

end ArithmeticOp

namespace Eval

/-- A result that is the integer `n`, or the report at a line that `n` has more than 64 bits. -/
inductive GivesExactly (n line : Int) (m : Machine) : EStateM.Result Halt Machine Value → Prop
  | value (r : Int64) (h : r.toInt = n) : GivesExactly n line m (.ok (.int r) m)
  | overflow (h : ¬ Number.Fits n) :
    GivesExactly n line m (.error (.error ⟨.integerOverflow, line⟩) m)

theorem ofOperator_gives_exactly (unsupported : RuntimeCause) (n line : Int) (m : Machine) :
    GivesExactly n line m (ofOperator unsupported line (Value.checked (Number.fit? n)) m) := by
  cases hr : Number.fit? n with
  | none => exact .overflow (Number.fit?_eq_none_iff.mp hr)
  | some r => exact .value r (Number.fit?_eq_some_iff.mp hr)

theorem binaryOp_gives_exactly (op : ArithmeticOp) (spelling : Bytes) (line : Int) (x y : Int64)
    (m : Machine) :
    GivesExactly (op.apply x.toInt y.toInt) line m
      (binaryOp op.toBinary spelling line (.int x) (.int y) m) := by
  have hop : (Value.int x).operate op.toBinary (.int y) =
      Value.checked (Number.fit? (op.apply x.toInt y.toInt)) := by
    cases op with
    | add => exact congrArg Value.checked (Number.add?_eq x y)
    | sub => exact congrArg Value.checked (Number.sub?_eq x y)
    | mul => exact congrArg Value.checked (Number.mul?_eq x y)
  have hbinary : binaryOp op.toBinary spelling line (.int x) (.int y) =
      ofOperator (.unsupportedOperands spelling .int .int) line
        ((Value.int x).operate op.toBinary (.int y)) := by
    cases op <;> rfl
  rw [hbinary, hop]
  exact ofOperator_gives_exactly _ _ line m

theorem unaryOp_gives_exactly (line : Int) (x : Int64) (m : Machine) :
    GivesExactly (-x.toInt) line m (unaryOp .minus line (.int x) m) := by
  rw [unaryOp, Value.negate, Number.neg?_eq]
  exact ofOperator_gives_exactly _ _ line m

section Operands

variable {fuel : Nat} {left right : Expr} {m m₁ m₂ : Machine} {x y : Int64}

theorem eval_binary_gives_exactly (hl : eval fuel left m = .ok (.int x) m₁)
    (hr : eval fuel right m₁ = .ok (.int y) m₂) (op : ArithmeticOp) (spelling : Bytes)
    (line : Int) :
    GivesExactly (op.apply x.toInt y.toInt) line m₂
      (eval (fuel + 1) (.binary left op.toBinary spelling line right) m) := by
  rw [eval, bind_ok hl, bind_ok hr]
  exact binaryOp_gives_exactly op spelling line x y m₂

theorem eval_negative_gives_exactly (hl : eval fuel left m = .ok (.int x) m₁) (spelling : Bytes)
    (line : Int) :
    GivesExactly (-x.toInt) line m₁ (eval (fuel + 1) (.unary .minus spelling line left) m) := by
  rw [eval, bind_ok hl]
  exact unaryOp_gives_exactly line x m₁

end Operands

end Eval

open Eval

/-- Whatever two operands do on the way to their integers: their sum, difference and product and the
negative of the first are exact, or more than 64 bits are reported at the line of the operator. -/
theorem integers_exact_or_overflow (fuel : Nat) (left right : Expr) (m m₁ m₂ : Machine)
    (x y : Int64) (hl : eval fuel left m = .ok (.int x) m₁)
    (hr : eval fuel right m₁ = .ok (.int y) m₂) (spelling : Bytes) (line : Int) :
    let binary op := eval (fuel + 1) (.binary left op spelling line right) m
    GivesExactly (x.toInt + y.toInt) line m₂ (binary .plus) ∧
      GivesExactly (x.toInt - y.toInt) line m₂ (binary .minus) ∧
      GivesExactly (x.toInt * y.toInt) line m₂ (binary .star) ∧
      GivesExactly (-x.toInt) line m₁ (eval (fuel + 1) (.unary .minus spelling line left) m) :=
  ⟨eval_binary_gives_exactly hl hr .add spelling line,
    eval_binary_gives_exactly hl hr .sub spelling line,
    eval_binary_gives_exactly hl hr .mul spelling line,
    eval_negative_gives_exactly hl spelling line⟩

/-- The least integer and `-1`, which an operand assigns on the way. -/
theorem integers_exact_or_overflow_least :
    let m : Machine := ⟨⟨[], []⟩, [], 0⟩
    let m' : Machine := { m with scope := m.scope.define (bytes "a") (.int (-1)) }
    let least := Expr.literal (.int Int64.minValue)
    let one := Expr.assign (bytes "a") 1 (.literal (.int (-1)))
    let binary op := eval 3 (.binary least op (bytes "*") 7 one) m
    eval 2 least m = .ok (.int Int64.minValue) m ∧ eval 2 one m = .ok (.int (-1)) m' ∧
      GivesExactly (Int64.minValue.toInt + (-1 : Int64).toInt) 7 m' (binary .plus) ∧
      GivesExactly (Int64.minValue.toInt - (-1 : Int64).toInt) 7 m' (binary .minus) ∧
      GivesExactly (Int64.minValue.toInt * (-1 : Int64).toInt) 7 m' (binary .star) ∧
      GivesExactly (-Int64.minValue.toInt) 7 m (eval 3 (.unary .minus (bytes "*") 7 least) m) :=
  ⟨rfl, rfl, integers_exact_or_overflow 2 _ _ _ _ _ _ _ rfl rfl (bytes "*") 7⟩

end ExprLang

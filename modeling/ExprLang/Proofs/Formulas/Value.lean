import ExprLang.Proofs.Formulas.Reading

/-!
# The value of a formula

Evaluated, a formula gives its value over the integers, or reports an overflow if some result on the
way to it has more than 64 bits. So does a run of any text that spells it.
-/

namespace ExprLang

open ExprLang.Eval

namespace Formula

/-- The value of a formula, or the report that some result on the way has more than 64 bits. -/
inductive Settles (f : Formula) (line : Int) (m : Machine) : EStateM.Result Halt Machine Value → Prop
  | value (r : Int64) (hf : f.Fits) (hr : r.toInt = f.value) : Settles f line m (.ok (.int r) m)
  | overflow (hf : ¬ f.Fits) : Settles f line m (.error (.error ⟨.integerOverflow, line⟩) m)

/-- Room for the parentheses of an operand. -/
theorem length_inPlace (needed strength : Nat) (ws : List Word) :
    (Word.inPlace needed strength ws).length = ws.length + if strength < needed then 2 else 0 := by
  unfold Word.inPlace
  split
  · simp
  · rfl

variable {f : Formula} {line : Int} {m : Machine}

theorem Settles.enclosed {fuel : Nat}
    (h : ∀ fuel, f.words.length ≤ fuel → Settles f line m (eval fuel (f.expr line) m)) {n : Nat}
    (hfuel : (Word.inPlace n f.strength f.words).length ≤ fuel) :
    Settles f line m (eval fuel (Formula.enclosed n f.strength (f.expr line)) m) := by
  rw [length_inPlace] at hfuel
  unfold Formula.enclosed
  split
  · rename_i hs
    rw [if_pos hs] at hfuel
    cases fuel with
    | zero => omega
    | succ fuel =>
      rw [eval]
      exact h fuel (by omega)
  · exact h fuel (by omega)

theorem settles_negative {fuel : Nat} {e : Expr} (h : Settles f line m (eval fuel e m)) :
    Settles (.negative f) line m (eval (fuel + 1) (.unary .minus (bytes "-") line e) m) := by
  generalize hx : eval fuel e m = x at h
  cases h with
  | value r hf hr =>
    have hneg := eval_negative_gives_exactly hx (bytes "-") line
    rw [hr] at hneg
    generalize eval (fuel + 1) (.unary .minus (bytes "-") line e) m = y at hneg
    cases hneg with
    | value s hs => exact .value s ⟨hf, hs ▸ Number.fits_toInt s⟩ hs
    | overflow hn => exact .overflow fun h => hn h.2
  | overflow hf =>
    rw [eval, bind_error hx]
    exact .overflow fun h => hf h.1

theorem settles_binary {left right : Formula} {op : ArithmeticOp} {fuel : Nat} {a b : Expr}
    (hl : Settles left line m (eval fuel a m)) (hr : Settles right line m (eval fuel b m)) :
    Settles (.binary left op right) line m
      (eval (fuel + 1) (.binary a op.toBinary (bytes op.symbol) line b) m) := by
  generalize hx : eval fuel a m = x at hl
  generalize hy : eval fuel b m = y at hr
  cases hl with
  | overflow hf =>
    rw [eval, bind_error hx]
    exact .overflow fun h => hf h.1
  | value r hfl hrl =>
    cases hr with
    | overflow hf =>
      rw [eval, bind_ok hx, bind_error hy]
      exact .overflow fun h => hf h.2.1
    | value s hfr hrr =>
      have hop := eval_binary_gives_exactly hx hy op (bytes op.symbol) line
      rw [hrl, hrr] at hop
      generalize eval (fuel + 1) (.binary a op.toBinary (bytes op.symbol) line b) m = z at hop
      cases hop with
      | value t ht => exact .value t ⟨hfl, hfr, ht ▸ Number.fits_toInt t⟩ ht
      | overflow hn => exact .overflow fun h => hn h.2.2

/-- A formula settles with as much fuel as it has words. -/
theorem eval_settles (f : Formula) (line : Int) (m : Machine) (fuel : Nat)
    (hfuel : f.words.length ≤ fuel) : Settles f line m (eval fuel (f.expr line) m) := by
  induction f generalizing fuel with
  | numeral n =>
    cases fuel with
    | zero => exact absurd hfuel (by simp [words])
    | succ fuel =>
      rw [expr, eval]
      exact .value n.int64 n.fits_value n.toInt_int64
  | negative f ih =>
    rw [words, List.length_cons] at hfuel
    cases fuel with
    | zero => omega
    | succ fuel => exact settles_negative (.enclosed ih (by omega))
  | binary left op right hl hr =>
    rw [words, List.length_append, List.length_cons] at hfuel
    cases fuel with
    | zero => omega
    | succ fuel => exact settles_binary (.enclosed hl (by omega)) (.enclosed hr (by omega))

end Formula

/-! ## Runs -/

theorem Word.length_text_pos (w : Word) : 0 < w.text.length := by
  cases w with
  | opening => exact Nat.one_pos
  | closing => exact Nat.one_pos
  | operator op => cases op <;> exact Nat.one_pos
  | numeral n => exact List.length_pos_iff.mpr (Number.isNumeral_iff.mp n.isNumeral).1

theorem Word.Spaced.length_le {ws : List Word} {s : Bytes} (h : Word.Spaced ws s) :
    ws.length ≤ s.length := by
  induction h with
  | nil => exact Nat.le_refl 0
  | blank hb h ih => exact Nat.le_succ_of_le ih
  | word w h ih =>
    have hpos := w.length_text_pos
    rw [List.length_cons, List.length_append]
    omega

/-- A run of a text that spells a formula gives its value over the integers if every result on the
way has 64 bits, and reports an overflow otherwise, in any interpreter. -/
theorem run_formula (f : Formula) {s : Bytes} (hs : Word.Spaced f.words s) (i : Interpreter)
    {fuel : Nat} (hfuel : s.length ≤ fuel) :
    (f.Fits → ∃ r : Int64, r.toInt = f.value ∧ (i.run fuel s).outcome = .value (.int r)) ∧
      (¬ f.Fits → (i.run fuel s).outcome = .runtimeError ⟨.integerOverflow, 1⟩) := by
  obtain ⟨hcheck, hstatements⟩ := Formula.statements_spaced hs
  have hlength := hs.length_le
  have hsettles := f.eval_settles 1 (i.cleared.announce (f.expr 1)).machine fuel (by omega)
  obtain ⟨houtcome, -⟩ := Interpreter.run_checked fuel i hcheck
  rw [houtcome, hstatements, Interpreter.runStatements]
  dsimp only
  rw [Machine.evaluate]
  generalize eval fuel (f.expr 1) (i.cleared.announce (f.expr 1)).machine = x at hsettles
  cases hsettles with
  | value r hf hr => exact ⟨fun _ => ⟨r, hr, rfl⟩, fun hn => absurd hf hn⟩
  | overflow hf => exact ⟨fun h => absurd h hf, fun _ => rfl⟩

/-- `2 - -(3 + 4) * 5`, with blanks here and there. -/
theorem run_formula_mixed :
    let two : Numeral := .ofNat 2 (by decide)
    let three : Numeral := .ofNat 3 (by decide)
    let four : Numeral := .ofNat 4 (by decide)
    let five : Numeral := .ofNat 5 (by decide)
    let sum : Formula := .binary (.numeral three) .add (.numeral four)
    let f : Formula :=
      .binary (.numeral two) .sub (.binary (.negative sum) .mul (.numeral five))
    let s := bytes " 2 - -(3+4) *5"
    Word.Spaced f.words s ∧ s.length ≤ 20 ∧ f.Fits ∧
      ∃ r : Int64, r.toInt = 37 ∧ ((Interpreter.new false).run 20 s).outcome = .value (.int r) := by
  intro two three four five sum f s
  have hs : Word.Spaced f.words s :=
    .blank rfl <| .word (.numeral two) <| .blank rfl <| .word (.operator .sub) <| .blank rfl <|
      .word (.operator .sub) <| .word .opening <| .word (.numeral three) <|
      .word (.operator .add) <| .word (.numeral four) <| .word .closing <| .blank rfl <|
      .word (.operator .mul) <| .word (.numeral five) .nil
  have hf : f.Fits := by decide
  exact ⟨hs, by decide, hf, (run_formula f hs _ (by decide)).1 hf⟩

end ExprLang

import ExprLang.Proofs.Formulas.Spelling
import ExprLang.Proofs.Printing.RoundTrip
import ExprLang.Proofs.Running.Steps

/-!
# Reading a formula

The parser reads the words of a formula as that formula: it finds back every operand from the
strength of the operators beside it, and keeps the parentheses as groupings.
-/

namespace ExprLang

open ExprLang.Parser

namespace Numeral

/-- The word that a literal is read as. -/
def int64 (n : Numeral) : Int64 := Int64.ofNat n.value

theorem fits_value (n : Numeral) : Number.Fits n.value := by
  have hsmall : n.value < 9223372036854775808 := n.small
  rw [Number.Fits]
  omega

theorem toInt_int64 (n : Numeral) : n.int64.toInt = n.value := Number.toInt_ofInt n.fits_value

theorem readInt?_digits (n : Numeral) : Number.readInt? n.digits = some n.int64 := by
  have hsmall : Number.ofDigits n.digits < 2 ^ 63 := n.small
  rw [Number.readInt?_numeral n.isNumeral, if_pos hsmall]
  rfl

end Numeral

theorem ArithmeticOp.strength_pos (op : ArithmeticOp) : 0 < op.strength := by
  cases op <;> decide

namespace Formula

/-- An expression in parentheses if it is not strong enough for its place. -/
def enclosed (needed strength : Nat) (e : Expr) : Expr :=
  if strength < needed then .grouping e else e

/-- The expression of a formula whose operators all stand on one line. -/
def expr (line : Int) : Formula → Expr
  | .numeral n => .literal (.int n.int64)
  | .negative f => .unary .minus (bytes "-") line (enclosed 3 f.strength (f.expr line))
  | .binary left op right =>
    .binary (enclosed op.strength left.strength (left.expr line)) op.toBinary (bytes op.symbol) line
      (enclosed (op.strength + 1) right.strength (right.expr line))

theorem strength_pos (f : Formula) : 0 < f.strength := by
  cases f with
  | binary left op right => exact op.strength_pos
  | _ => exact Nat.zero_lt_succ 2

end Formula

/-! ## Strengths and levels -/

/-- The level of the operators of a strength; the sign is stronger than all of them. -/
def levelOf : Nat → Option Level
  | 1 => some .additive
  | 2 => some .multiplicative
  | _ => none

theorem levelOf_strength (op : ArithmeticOp) : levelOf op.strength = some op.toBinary.level := by
  cases op <;> rfl

theorem right_level (op : ArithmeticOp) : op.toBinary.level.right = levelOf (op.strength + 1) := by
  cases op <;> rfl

theorem tighter_level (op : ArithmeticOp) :
    op.toBinary.level.tighter = levelOf (op.strength + 1) := by
  cases op <;> rfl

theorem tighter_of_levelOf {n : Nat} {l : Level} (h : levelOf n = some l) :
    l.tighter = levelOf (n + 1) := by
  unfold levelOf at h
  split at h <;> cases h <;> rfl

/-- What is done with a first operand of a level: operators of the level may follow. -/
def readTail : Option Level → Expr → List Token → Except Fault (Read Expr)
  | none, e, ts => .ok ⟨e, ts⟩
  | some l, e, ts => readChain l e ts

/-- What may follow an operand of a strength: no call and no stronger operator. -/
def Follows (strength : Nat) (rest : List Token) : Prop :=
  (∀ t us, rest = t :: us → t.kind ≠ .leftParen) ∧ Quiet (levelOf (strength + 1)) rest

theorem readTail_quiet {l : Option Level} {rest : List Token} (h : Quiet l rest) (e : Expr) :
    readTail l e rest = .ok ⟨e, rest⟩ := by
  cases l with
  | none => rfl
  | some l => exact readChain_quiet e fun t us ht => h t us ht l (Nat.le_refl _)

theorem levelOf_succ_eq_none {n : Nat} (hn : 0 < n) (h : levelOf n = none) :
    levelOf (n + 1) = none := by
  match n with
  | 1 => cases h
  | 2 => rfl
  | n + 3 => rfl

theorem Follows.succ {n : Nat} {rest : List Token} (h : Follows n rest) :
    Follows (n + 1) rest := by
  refine ⟨h.1, ?_⟩
  cases hl : levelOf (n + 1) with
  | none =>
    rw [levelOf_succ_eq_none (Nat.succ_pos n) hl, ← hl]
    exact h.2
  | some l =>
    have hrank := rank_tighter l
    have hq := h.2
    rw [hl] at hq
    rw [← tighter_of_levelOf hl]
    exact fun t us ht m hm => hq t us ht m (by omega)

theorem Follows.mono {n k : Nat} {rest : List Token} (h : Follows n rest) (hle : n ≤ k) :
    Follows k rest := by
  induction hle with
  | refl => exact h
  | step _ ih => exact ih.succ

theorem follows_operator (op : ArithmeticOp) (line : Int) (us : List Token) :
    Follows op.strength ((Word.operator op).token line :: us) := by
  refine ⟨fun t vs ht => ?_, ?_⟩
  · rw [← (List.cons.inj ht).1]
    exact (kind_ne op.toBinary).1
  · rw [← tighter_level]
    exact quiet_operator rfl us

/-! ## Places -/

section Places

variable {n : Nat} {ts rest : List Token} {e : Expr}

/-- What is read at a strength is read at the one below if no operator of the first follows. -/
theorem readOperand_below (hn : 0 < n) (hf : Follows n rest)
    (h : readOperand (levelOf (n + 1)) ts = readTail (levelOf (n + 1)) e rest) :
    readOperand (levelOf n) ts = readTail (levelOf n) e rest := by
  rw [readTail_quiet hf.2] at h
  cases hl : levelOf n with
  | none => rwa [levelOf_succ_eq_none hn hl] at h
  | some l =>
    rw [readOperand_some, tighter_of_levelOf hl, h, ok_bind]
    rfl

theorem readOperand_weaker {strength : Nat} (hn : 0 < n) (hle : n ≤ strength)
    (hf : Follows n rest)
    (h : readOperand (levelOf strength) ts = readTail (levelOf strength) e rest) :
    readOperand (levelOf n) ts = readTail (levelOf n) e rest := by
  induction hd : strength - n generalizing n with
  | zero =>
    obtain rfl : n = strength := by omega
    exact h
  | succ d ih =>
    exact readOperand_below hn hf (ih (Nat.succ_pos n) (by omega) hf.succ (by omega))

/-- A primary is read at the strength of the sign, where no call follows. -/
theorem readOperand_primary {t : Token} (ho : opens t.kind = true)
    (hu : UnaryOp.ofKind? t.kind = none) (hp : readPrimary t ts = .ok ⟨e, rest⟩)
    (hr : ∀ t us, rest = t :: us → t.kind ≠ .leftParen) :
    readOperand (levelOf 3) (t :: ts) = .ok ⟨e, rest⟩ := by
  have hopens : Opens (t :: ts) := ⟨t, ts, rfl, ho⟩
  rw [show levelOf 3 = none from rfl, readOperand_none, hopens.skipNewlines, readUnary_primary hu hp]
  cases rest with
  | nil => exact readCalls_nil e
  | cons u us => rw [readCalls_cons, if_neg (hr u us rfl)]

end Places

namespace Formula

variable {f : Formula} {line : Int}

/-- The tokens of a formula are read as the formula. -/
def ReadsAs (f : Formula) (line : Int) : Prop :=
  ∀ rest, Follows f.strength rest →
    readOperand (levelOf f.strength) (f.words.map (Word.token line) ++ rest) =
      readTail (levelOf f.strength) (f.expr line) rest

theorem ReadsAs.whole (h : f.ReadsAs line) {rest : List Token} (hr : Apart rest) :
    readOperand (some .or) (f.words.map (Word.token line) ++ rest) = .ok ⟨f.expr line, rest⟩ := by
  have hf : Follows f.strength rest :=
    ⟨fun t us ht => (hr t us ht).1, quiet_of_apart hr _⟩
  refine readOperand_or (l := levelOf f.strength) ?_ hr
  rw [h rest hf, readTail_quiet (quiet_of_apart hr _)]

theorem ReadsAs.group (h : f.ReadsAs line) (rest : List Token) :
    readPrimary (Word.opening.token line)
        (f.words.map (Word.token line) ++ Word.closing.token line :: rest) =
      .ok ⟨.grouping (f.expr line), rest⟩ := by
  have hclosing : Apart (Word.closing.token line :: rest) :=
    apart_cons rest (by simp [Word.token]) (by simp [Word.token]) rfl
  rw [readPrimary_paren rfl, h.whole hclosing, ok_bind]
  rfl

/-- An operand is read in its place, with its parentheses if there are any. -/
theorem ReadsAs.operand (h : f.ReadsAs line) {n : Nat} (hn : 0 < n) (hle : n ≤ 3)
    {rest : List Token} (hf : Follows n rest) :
    readOperand (levelOf n)
        ((Word.inPlace n f.strength f.words).map (Word.token line) ++ rest) =
      readTail (levelOf n) (enclosed n f.strength (f.expr line)) rest := by
  unfold Word.inPlace enclosed
  split
  · refine readOperand_weaker hn hle hf ?_
    rw [List.map_cons, List.map_append, List.cons_append, List.append_assoc]
    exact readOperand_primary rfl rfl (h.group rest) hf.1
  · rename_i hs
    have hstrong : n ≤ f.strength := Nat.le_of_not_lt hs
    exact readOperand_weaker hn hstrong hf (h rest (hf.mono hstrong))

theorem readsAs_numeral (n : Numeral) : (Formula.numeral n).ReadsAs line := by
  intro rest hf
  have hliteral : intLiteral (Word.token line (.numeral n)) rest =
      .ok ⟨expr line (.numeral n), rest⟩ := by
    simp only [intLiteral, Word.token, n.readInt?_digits, expr]
  exact readOperand_primary rfl rfl ((readPrimary_int rfl rest).trans hliteral) hf.1

theorem readsAs_negative (h : f.ReadsAs line) : (Formula.negative f).ReadsAs line := by
  intro rest hf
  have hoperand := h.operand (Nat.zero_lt_succ 2) (Nat.le_refl 3) hf
  rw [show levelOf 3 = none from rfl, readOperand_none] at hoperand
  have hopens : Opens ((Formula.negative f).words.map (Word.token line) ++ rest) := ⟨_, _, rfl, rfl⟩
  rw [show levelOf (Formula.negative f).strength = none from rfl, readOperand_none,
    hopens.skipNewlines, words, List.map_cons, List.cons_append, readUnary_cons]
  simp only [Word.token, ArithmeticOp.toBinary, BinaryOp.kind, UnaryOp.ofKind?]
  rw [hoperand]
  rfl

theorem readsAs_binary {left right : Formula} {op : ArithmeticOp} (hl : left.ReadsAs line)
    (hr : right.ReadsAs line) : (Formula.binary left op right).ReadsAs line := by
  intro rest hf
  change Follows op.strength rest at hf
  have hop : op.toBinary.level.operator? op.toBinary.kind = some op.toBinary := by
    rw [operator?_kind, if_pos rfl]
  have hle : op.strength + 1 ≤ 3 := by cases op <;> decide
  have hleft := fun us =>
    hl.operand op.strength_pos (by omega) (follows_operator op line us)
  have hright := hr.operand (Nat.succ_pos op.strength) hle hf.succ
  rw [readTail_quiet hf.2] at hright
  change readOperand (levelOf op.strength) _ = readTail (levelOf op.strength) _ rest
  rw [words, List.map_append, List.map_cons, List.append_assoc, List.cons_append, hleft,
    levelOf_strength, readTail, readTail, readChain_cons]
  simp only [Word.token, hop]
  rw [right_level, hright, ok_bind]
  rfl

theorem readsAs (f : Formula) (line : Int) : f.ReadsAs line := by
  induction f with
  | numeral n => exact readsAs_numeral n
  | negative f ih => exact readsAs_negative ih
  | binary left op right hl hr => exact readsAs_binary hl hr

end Formula

/-! ## Sources -/

theorem skipSeparators_words (line : Int) (ws : List Word) :
    skipSeparators (ws.map (Word.token line)) = ws.map (Word.token line) := by
  cases ws with
  | nil => rfl
  | cons w ws =>
    have hw : (w.token line).kind.isSeparator = false := by
      cases w with
      | operator op => cases op <;> rfl
      | _ => rfl
    simp [skipSeparators, hw]

/-- A text with the words of a formula is a program of one statement, the formula. -/
theorem Formula.statements_spaced {f : Formula} {s : Bytes} (h : Word.Spaced f.words s) :
    check s = [] ∧ statements s = [f.expr 1] := by
  obtain ⟨htokens, herrors⟩ := h.scan f.separate_words 1
  have hread : statement (skipSeparators (bodyTokens s)) = .ok ⟨f.expr 1, []⟩ := by
    rw [bodyTokens, htokens, skipSeparators_words]
    have hwhole := (f.readsAs 1).whole ends_nil.1
    rwa [List.append_nil] at hwhole
  have hparse : parse (scan s).tokens = ⟨[f.expr 1], [], none⟩ := by
    rw [parse_scan, readProgram_ok hread, readProgram_nil rfl]
    rfl
  have hscan : (scan s).errors = [] := herrors
  refine ⟨?_, by rw [statements, hparse]⟩
  simp only [check, hparse, hscan, List.append_nil]

end ExprLang

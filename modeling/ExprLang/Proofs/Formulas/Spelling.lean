import ExprLang.Proofs.Evaluation.Arithmetic
import ExprLang.Proofs.Printing.Pieces

/-!
# Formulas and how they are spelled

A formula is built from integer literals with `+`, `-`, `*` and the sign `-`. It is written with the
parentheses that the strength of the operators asks for and no others: the sign is stronger than
`*`, `*` is stronger than `+` and `-`, and operators of one strength group to the left. Blanks may
stand between the words. The scanner finds these words again.
-/

namespace ExprLang

/-- The digits of an integer literal. -/
structure Numeral where
  digits : Bytes
  isNumeral : Number.isNumeral digits = true
  small : Number.ofDigits digits < 9223372036854775808

namespace Numeral

def value (n : Numeral) : Nat := Number.ofDigits n.digits

/-- The shortest literal of a number. -/
def ofNat (n : Nat) (h : n < 9223372036854775808) : Numeral where
  digits := Text.decimal n
  isNumeral := Number.isNumeral_decimal n
  small := by rwa [Number.ofDigits_decimal]

end Numeral

inductive Formula
  | numeral (n : Numeral)
  | negative (f : Formula)
  | binary (left : Formula) (op : ArithmeticOp) (right : Formula)

namespace ArithmeticOp

def symbol : ArithmeticOp → String
  | .add => "+"
  | .sub => "-"
  | .mul => "*"

def strength : ArithmeticOp → Nat
  | .add | .sub => 1
  | .mul => 2

end ArithmeticOp

namespace Formula

/-- The value over the integers. -/
def value : Formula → Int
  | .numeral n => n.value
  | .negative f => -f.value
  | .binary left op right => op.apply left.value right.value

/-- Every result on the way to the value has 64 bits. -/
def Fits : Formula → Prop
  | .numeral n => Number.Fits n.value
  | .negative f => f.Fits ∧ Number.Fits (-f.value)
  | .binary left op right =>
    left.Fits ∧ right.Fits ∧ Number.Fits (op.apply left.value right.value)

instance decidableFits : (f : Formula) → Decidable f.Fits
  | .numeral n => inferInstanceAs (Decidable (Number.Fits n.value))
  | .negative f =>
    have := decidableFits f
    inferInstanceAs (Decidable (f.Fits ∧ Number.Fits (-f.value)))
  | .binary left op right =>
    have := decidableFits left
    have := decidableFits right
    inferInstanceAs
      (Decidable (left.Fits ∧ right.Fits ∧ Number.Fits (op.apply left.value right.value)))

def strength : Formula → Nat
  | .binary _ op _ => op.strength
  | _ => 3

end Formula

/-! ## Words -/

inductive Word
  | opening
  | closing
  | operator (op : ArithmeticOp)
  | numeral (n : Numeral)

namespace Word

def piece : Word → Piece
  | .opening => .mark .leftParen "("
  | .closing => .mark .rightParen ")"
  | .operator op => .mark op.toBinary.kind op.symbol
  | .numeral n => .token .int n.digits (some (.text n.digits))

def text (w : Word) : Bytes := w.piece.text

/-- The token of a word on a line. -/
def token (line : Int) : Word → Token
  | .opening => ⟨.leftParen, bytes "(", none, line⟩
  | .closing => ⟨.rightParen, bytes ")", none, line⟩
  | .operator op => ⟨op.toBinary.kind, bytes op.symbol, none, line⟩
  | .numeral n => ⟨.int, n.digits, some (.text n.digits), line⟩

def isNumeral : Word → Bool
  | .numeral _ => true
  | _ => false

/-- Words in parentheses if they are not strong enough for their place. -/
def inPlace (needed strength : Nat) (ws : List Word) : List Word :=
  if strength < needed then .opening :: (ws ++ [.closing]) else ws

end Word

namespace Formula

open Word

def words : Formula → List Word
  | .numeral n => [.numeral n]
  | .negative f => .operator .sub :: inPlace 3 f.strength f.words
  | .binary left op right =>
    inPlace op.strength left.strength left.words ++
      .operator op :: inPlace (op.strength + 1) right.strength right.words

end Formula

namespace Word

/-- The words are spelled by a text, with any blanks before, between and behind them. -/
inductive Spaced : List Word → Bytes → Prop
  | nil : Spaced [] []
  | blank {ws : List Word} {b : UInt8} {s : Bytes} (hb : Piece.isBlank b = true)
    (h : Spaced ws s) : Spaced ws (b :: s)
  | word {ws : List Word} {s : Bytes} (w : Word) (h : Spaced ws s) : Spaced (w :: ws) (w.text ++ s)

/-! ## Literals do not touch -/

/-- No literal directly follows another one. -/
def Separate (ws : List Word) : Prop :=
  ws.IsChain fun v w => v.isNumeral = false ∨ w.isNumeral = false

theorem separate_cons {vs : List Word} {w : Word} (hw : w.isNumeral = false) (h : Separate vs) :
    Separate (w :: vs) :=
  List.isChain_cons.mpr ⟨fun _ _ => .inl hw, h⟩

theorem separate_append_cons {ws vs : List Word} {w : Word} (hw : w.isNumeral = false)
    (h : Separate ws) (h' : Separate vs) : Separate (ws ++ w :: vs) := by
  refine List.isChain_append.mpr ⟨h, separate_cons hw h', fun v _ u hu => .inr ?_⟩
  rw [← Option.some.inj hu]
  exact hw

theorem separate_inPlace {ws : List Word} (h : Separate ws) (needed strength : Nat) :
    Separate (inPlace needed strength ws) := by
  unfold inPlace
  split
  · exact separate_cons rfl (separate_append_cons rfl h .nil)
  · exact h

end Word

open Word

theorem Formula.separate_words (f : Formula) : Separate f.words := by
  induction f with
  | numeral n => exact .singleton _
  | negative f ih => exact separate_cons rfl (separate_inPlace ih _ _)
  | binary left op right hl hr =>
    exact separate_append_cons rfl (separate_inPlace hl _ _) (separate_inPlace hr _ _)

/-! ## Scanning -/

namespace Word

theorem stops_text {w : Word} (h : w.isNumeral = false) (s : Bytes) :
    Piece.stops (w.text ++ s) = true := by
  cases w with
  | opening => rfl
  | closing => rfl
  | operator op => cases op <;> rfl
  | numeral n => cases h

theorem Spaced.stops {ws : List Word} {s : Bytes} (h : Spaced ws s)
    (hw : ∀ w ∈ ws.head?, w.isNumeral = false) : Piece.stops s = true := by
  cases h with
  | nil => rfl
  | blank hb h =>
    have hblank : ∀ c, Piece.isBlank c = true → ∀ t, Piece.stops (c :: t) = true := by
      intro c hc t
      simp only [Piece.isBlank, Bool.or_eq_true, beq_iff_eq] at hc
      rcases hc with (rfl | rfl) | rfl <;> rfl
    exact hblank _ hb _
  | word w h => exact stops_text (hw w rfl) _

theorem cut_piece {w : Word} {s : Bytes} (h : w.isNumeral = true → Piece.stops s = true) :
    w.piece.Cut s := by
  cases w with
  | opening => exact cut_mark (by decide) (by decide) s
  | closing => exact cut_mark (by decide) (by decide) s
  | operator op => cases op <;> exact cut_mark (by decide) (by decide) s
  | numeral n => exact Piece.cut_int n.isNumeral (h rfl)

theorem newlines_text (w : Word) : Text.newlines w.text = 0 := by
  cases w with
  | opening => rfl
  | closing => rfl
  | operator op => cases op <;> rfl
  | numeral n =>
    have hdigits := (Number.isNumeral_iff.mp n.isNumeral).2
    exact List.count_eq_zero.mpr fun h => absurd (hdigits _ h) (by decide)

theorem newlines_blank {b : UInt8} (hb : Piece.isBlank b = true) :
    Text.newlines (Piece.blank b).text = 0 := by
  refine List.count_eq_zero.mpr fun h => ?_
  obtain rfl := List.mem_singleton.mp h
  cases hb

theorem token?_of_newlines {kind : TokenKind} {lexeme : Bytes} {payload : Option Payload}
    (h : Text.newlines lexeme = 0) (line : Int) :
    (Piece.token kind lexeme payload).token? line = some ⟨kind, lexeme, payload, line⟩ := by
  simp [Piece.token?, h]

theorem token?_piece (w : Word) (line : Int) : w.piece.token? line = some (w.token line) := by
  have hn := newlines_text w
  cases w <;> exact token?_of_newlines hn line

theorem error?_piece (w : Word) (line : Int) : w.piece.error? line = none := by
  cases w <;> rfl

theorem split_word {w : Word} {s : Bytes} (h : w.isNumeral = true → Piece.stops s = true) :
    Piece.split (w.text ++ s) = w.piece :: Piece.split s := by
  have hcuts : Piece.Cuts [w.piece] s := ⟨cut_piece h, trivial⟩
  have hsplit := Piece.split_of_cuts hcuts
  rwa [List.flatMap_singleton] at hsplit

/-- The scanner finds the words of a text, and no errors, on the line the text starts on. -/
theorem Spaced.scan {ws : List Word} {s : Bytes} (h : Spaced ws s) (hw : Separate ws)
    (line : Int) :
    Piece.tokensFrom line (Piece.split s) = ws.map (token line) ∧
      Piece.errorsFrom line (Piece.split s) = [] := by
  induction h with
  | nil => exact ⟨rfl, rfl⟩
  | @blank ws b s hb h ih =>
    have hsplit : Piece.split (b :: s) = .blank b :: Piece.split s := by
      rw [Piece.split_cons, Piece.first, if_pos hb]
    have hline : line + Text.newlines (Piece.blank b).text = line := by
      rw [newlines_blank hb, Int.natCast_zero, Int.add_zero]
    rw [hsplit, Piece.tokensFrom_cons, Piece.errorsFrom_cons, hline]
    exact ih hw
  | @word ws s w h ih =>
    obtain ⟨hhead, htail⟩ := List.isChain_cons.mp hw
    obtain ⟨htokens, herrors⟩ := ih htail
    have hline : line + Text.newlines w.piece.text = line := by
      rw [← text, newlines_text, Int.natCast_zero, Int.add_zero]
    have hstops : w.isNumeral = true → Piece.stops s = true := fun hn =>
      h.stops fun v hv => (hhead v hv).resolve_left (by rw [hn]; decide)
    rw [split_word hstops, Piece.tokensFrom_cons, Piece.errorsFrom_cons, token?_piece,
      error?_piece, hline, htokens, herrors]
    exact ⟨rfl, rfl⟩

end Word

end ExprLang

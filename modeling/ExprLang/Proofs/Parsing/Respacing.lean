import ExprLang.Proofs.Parsing.Program
import ExprLang.Proofs.Parsing.Recovery

/-!
# Line breaks that do not matter

The parser skips line breaks where an operand or a closing token is due, and stops at them where an
operand has just ended. So a line break may be put behind an operator, an opening token or `if`, and
in front of a closing token or `else`; and it may be taken away unless the tokens around it would
join: an operand with what goes on with it, or `else` with `if`.

Main statement: line breaks that are put in change nothing in a parse without errors.
-/

namespace ExprLang

namespace TokenKind

def isOperator (kind : TokenKind) : Bool :=
  (UnaryOp.ofKind? kind).isSome || (BinaryOp.ofKind? kind).isSome

/-- Kinds of tokens with an operand, or the first statement of a block, due behind them. -/
def awaits (kind : TokenKind) : Bool :=
  kind.isOperator || [assign, leftParen, comma, leftBrace, ifWord].contains kind

/-- Kinds of tokens that end what stands in front of them. -/
def closes (kind : TokenKind) : Bool := [rightParen, comma, rightBrace, elseWord].contains kind

/-- Kinds of tokens that an operand can end with. -/
def endsOperand (kind : TokenKind) : Bool :=
  [identifier, int, float, string, trueWord, falseWord, rightParen, rightBrace].contains kind

/-- Kinds of tokens that go on with an operand in front of them. -/
def goesOn (kind : TokenKind) : Bool :=
  (BinaryOp.ofKind? kind).isSome || [leftParen, assign].contains kind

/-- Whether two tokens mean something else with a line break between them. -/
def joins (left right : TokenKind) : Bool :=
  (left.endsOperand && right.goesOn) || (left == elseWord && right == ifWord)

theorem awaits_of_endsOperand {kind : TokenKind} (h : kind.endsOperand = true) :
    kind.awaits = false := by
  cases kind <;> first | rfl | cases h

theorem goesOn_of_closes {kind : TokenKind} (h : kind.closes = true) : kind.goesOn = false := by
  cases kind <;> first | rfl | cases h

theorem goesOn_of_joins {left right : TokenKind} (hl : left.endsOperand = true)
    (h : joins left right = false) : right.goesOn = false := by
  simp only [joins, hl, Bool.true_and, Bool.or_eq_false_iff] at h
  exact h.1

theorem operator?_of_goesOn {kind : TokenKind} (l : Level) (h : kind.goesOn = false) :
    l.operator? kind = none := by
  simp only [goesOn, Bool.or_eq_false_iff, Option.isSome_eq_false_iff, Option.isNone_iff_eq_none]
    at h
  simp only [Level.operator?, h.1, Option.filter_none]

end TokenKind

namespace Parser

/-! ## Two lists of tokens -/

/-- The same tokens behind a token of the given kind, up to line breaks that do not matter. -/
inductive Respaced : TokenKind → List Token → List Token → Prop
  | nil (before : TokenKind) : Respaced before [] []
  | keep {before : TokenKind} (t : Token) {ts us : List Token} (h : Respaced t.kind ts us) :
    Respaced before (t :: ts) (t :: us)
  | insert {before : TokenKind} {n : Token} {ts us : List Token} (hn : n.kind = .newline)
    (hgap : before.awaits = true ∨ ∃ t ∈ ts.head?, t.kind.closes = true)
    (h : Respaced before ts us) : Respaced before ts (n :: us)
  | delete {before : TokenKind} {n : Token} {ts us : List Token} (hn : n.kind = .newline)
    (hgap : ∀ t ∈ (skipNewlines ts).head?, TokenKind.joins before t.kind = false)
    (h : Respaced before ts us) : Respaced before (n :: ts) us

/-- Such lists with the same first token, or none. -/
inductive Aligned : List Token → List Token → Prop
  | nil : Aligned [] []
  | cons (t : Token) {ts us : List Token} (h : Respaced t.kind ts us) :
    Aligned (t :: ts) (t :: us)

/-- Such lists behind an operand. -/
def After (ts us : List Token) : Prop :=
  ∃ before : TokenKind, before.endsOperand = true ∧ Respaced before ts us

theorem respaced_refl (before : TokenKind) (ts : List Token) : Respaced before ts ts := by
  induction ts generalizing before with
  | nil => exact .nil before
  | cons t ts ih => exact .keep t (ih t.kind)

theorem Aligned.respaced (before : TokenKind) {ts us : List Token} (h : Aligned ts us) :
    Respaced before ts us := by
  cases h with
  | nil => exact .nil before
  | cons t h => exact .keep t h

theorem aligned_dropWhile {q : Token → Bool} (hq : ∀ t, t.kind = .newline → q t = true)
    {before : TokenKind} {ts us : List Token} (h : Respaced before ts us) :
    Aligned (ts.dropWhile q) (us.dropWhile q) := by
  induction h with
  | nil => exact .nil
  | keep t h ih =>
    rw [List.dropWhile_cons, List.dropWhile_cons]
    split
    · exact ih
    · exact .cons t h
  | insert hn _ _ ih =>
    rw [List.dropWhile_cons_of_pos (hq _ hn)]
    exact ih
  | delete hn _ _ ih =>
    rw [List.dropWhile_cons_of_pos (hq _ hn)]
    exact ih

theorem Respaced.afterNewlines {before : TokenKind} {ts us : List Token}
    (h : Respaced before ts us) : Aligned (skipNewlines ts) (skipNewlines us) :=
  aligned_dropWhile (fun t ht => by simp [ht]) h

theorem Respaced.afterSeparators {before : TokenKind} {ts us : List Token}
    (h : Respaced before ts us) : Aligned (skipSeparators ts) (skipSeparators us) :=
  aligned_dropWhile (fun t ht => by simp [TokenKind.isSeparator, ht]) h

/-- Where nothing may be put in, the first token is the same unless it is a line break. -/
theorem Respaced.cons {before : TokenKind} {t : Token} {ts us : List Token}
    (h : Respaced before (t :: ts) us) (hbefore : before.awaits = false)
    (hclose : t.kind.closes = false) (ht : t.kind ≠ .newline) :
    ∃ vs, us = t :: vs ∧ Respaced t.kind ts vs := by
  cases h with
  | keep t h => exact ⟨_, rfl, h⟩
  | insert hn hgap h =>
    rcases hgap with hawaits | ⟨u, hu, hclosed⟩
    · rw [hbefore] at hawaits
      cases hawaits
    · cases hu
      rw [hclose] at hclosed
      cases hclosed
  | delete hn => exact absurd hn ht

theorem head_skipNewlines {t : Token} {ts : List Token} (h : t ∈ ts.head?)
    (ht : t.kind ≠ .newline) : t ∈ (skipNewlines ts).head? := by
  cases ts with
  | nil => cases h
  | cons u us =>
    cases h
    rw [skipNewlines, List.dropWhile_cons_of_neg (by simpa using ht)]
    rfl

theorem Aligned.head_eq {ts us : List Token} (h : Aligned ts us) : us.head? = ts.head? := by
  cases h <;> rfl

/-- Where line breaks may be taken away, the first token is a line break, or joins nothing. -/
theorem Respaced.head_joins {before : TokenKind} {ts us : List Token}
    (h : Respaced before ts us)
    (hgap : ∀ t ∈ (skipNewlines ts).head?, TokenKind.joins before t.kind = false) :
    ∀ t ∈ us.head?, t.kind = .newline ∨ TokenKind.joins before t.kind = false := by
  intro t ht
  by_cases hn : t.kind = .newline
  · exact .inl hn
  · refine .inr (hgap t ?_)
    rw [← h.afterNewlines.head_eq]
    exact head_skipNewlines ht hn

/-- Nothing goes on with the operand in front. -/
def Stopped (ts : List Token) : Prop := ∀ t ∈ ts.head?, t.kind.goesOn = false

/-- Behind an operand the lists start with the same token, or none of them goes on. -/
theorem After.cases {ts us : List Token} (h : After ts us) :
    (∃ t ts' us', ts = t :: ts' ∧ us = t :: us' ∧ Respaced t.kind ts' us') ∨
      Stopped ts ∧ Stopped us := by
  obtain ⟨before, hbefore, h⟩ := h
  have hstop : ∀ {n : Token} {vs : List Token}, n.kind = .newline → Stopped (n :: vs) := by
    intro n vs hn t ht
    cases ht
    rw [hn]
    rfl
  cases h with
  | nil =>
    right
    constructor <;> · intro t ht; cases ht
  | keep t h => exact .inl ⟨t, _, _, rfl, rfl, h⟩
  | insert hn hgap h =>
    refine .inr ⟨?_, hstop hn⟩
    rcases hgap with hawaits | ⟨t, ht, hclose⟩
    · rw [TokenKind.awaits_of_endsOperand hbefore] at hawaits
      cases hawaits
    · intro u hu
      cases ht.symm.trans hu
      exact TokenKind.goesOn_of_closes hclose
  | delete hn hgap h =>
    refine .inr ⟨hstop hn, ?_⟩
    intro t ht
    rcases h.head_joins hgap t ht with hnewline | hjoin
    · rw [hnewline]
      rfl
    · exact TokenKind.goesOn_of_joins hbefore hjoin

/-- Behind `else` both lists start with the same `if`, or none of them does. -/
theorem Respaced.behindElse {ts us : List Token} (h : Respaced .elseWord ts us) :
    (∃ t ts' us', ts = t :: ts' ∧ us = t :: us' ∧ t.kind = .ifWord ∧ Respaced t.kind ts' us') ∨
      (∀ t ∈ ts.head?, t.kind ≠ .ifWord) ∧ ∀ t ∈ us.head?, t.kind ≠ .ifWord := by
  have hstop : ∀ {n : Token} {vs : List Token}, n.kind = .newline →
      ∀ t ∈ (n :: vs).head?, t.kind ≠ .ifWord := by
    intro n vs hn t ht
    cases ht
    simp [hn]
  cases h with
  | nil => exact .inr ⟨by simp, by simp⟩
  | keep t h =>
    by_cases ht : t.kind = .ifWord
    · exact .inl ⟨t, _, _, rfl, rfl, ht, h⟩
    · exact .inr ⟨by simpa using ht, by simpa using ht⟩
  | insert hn hgap h =>
    refine .inr ⟨?_, hstop hn⟩
    rcases hgap with hawaits | ⟨t, ht, hclose⟩
    · cases hawaits
    · intro u hu hif
      cases ht.symm.trans hu
      rw [hif] at hclose
      cases hclose
  | delete hn hgap h =>
    refine .inr ⟨hstop hn, ?_⟩
    intro t ht hif
    rcases h.head_joins hgap t ht with hnewline | hjoin
    · rw [hif] at hnewline
      cases hnewline
    · rw [hif] at hjoin
      cases hjoin

theorem after_of_respaced {before : TokenKind} {ts us : List Token} (h : Respaced before ts us)
    (hbefore : before.endsOperand = true) : After ts us := ⟨before, hbefore, h⟩

/-- A token that goes on with the operand in front of it stays the next one. -/
theorem After.cons {t : Token} {ts us : List Token} (h : After (t :: ts) us)
    (ht : t.kind.goesOn = true) : ∃ us', us = t :: us' ∧ Respaced t.kind ts us' := by
  rcases h.cases with ⟨u, ts', us', hts, rfl, htail⟩ | ⟨hstop, -⟩
  · cases hts
    exact ⟨us', rfl, htail⟩
  · rw [hstop t rfl] at ht
    cases ht

/-- If no token that goes on comes next, none does. -/
theorem After.forall_head {q : Token → Prop} {ts us : List Token} (h : After ts us)
    (hq : ∀ t, t.kind.goesOn = false → q t) (hts : ∀ t ∈ ts.head?, q t) : ∀ t ∈ us.head?, q t := by
  rcases h.cases with ⟨t, ts', us', rfl, rfl, -⟩ | ⟨-, hstop⟩
  · exact hts
  · exact fun t ht => hq t (hstop t ht)

theorem Aligned.cons_inv {t : Token} {ts us : List Token} (h : Aligned (t :: ts) us) :
    ∃ us', us = t :: us' ∧ Respaced t.kind ts us' := by
  cases h with
  | cons _ h => exact ⟨_, rfl, h⟩

theorem ne_of_not_goesOn {t : Token} {kind : TokenKind} (hkind : kind.goesOn = true)
    (ht : t.kind.goesOn = false) : t.kind ≠ kind := by
  rintro rfl
  rw [hkind] at ht
  cases ht

theorem endsOperand_of_literal? {t : Token} {value : Literal} (h : t.literal? = some value) :
    t.kind.endsOperand = true := by
  have hkinds : ∀ kind ∈ TokenKind.literals, kind.endsOperand = true := by decide
  exact hkinds _ (Token.kind_mem_of_literal? h)

theorem goesOn_of_operator? {t : Token} {l : Level} {op : BinaryOp}
    (h : l.operator? t.kind = some op) : t.kind.goesOn = true := by
  by_contra hgoes
  rw [TokenKind.operator?_of_goesOn l (by simpa using hgoes)] at h
  cases h

/-! ## Phrases -/

/-- How two lists may differ where a phrase is due. -/
def Phrase.Due : Phrase → List Token → List Token → Prop
  | .operand _, ts, us => ∃ before, Respaced before ts us
  | .chain .., ts, us | .calls _, ts, us | .branches, ts, us => After ts us
  | .parameters, ts, us => ∃ before : TokenKind, before.awaits = false ∧ Respaced before ts us
  | _, ts, us => Aligned ts us

/-- How they may differ behind it. -/
def Phrase.Done : Phrase → List Token → List Token → Prop
  | .parameters, ts, us => Respaced .bar ts us
  | _, ts, us => After ts us

/-- A phrase with other line breaks is the same phrase. -/
theorem Derives.respaced {p : Phrase} {ts rest : List Token} {v : p.Value}
    (h : Derives p ts v rest) {us : List Token} (hdue : p.Due ts us) :
    ∃ rest', Derives p us v rest' ∧ p.Done rest rest' := by
  induction h generalizing us with
  | unaryOperand _ ih =>
    obtain ⟨before, hs⟩ := hdue
    obtain ⟨rest', h', hrest⟩ := ih hs.afterNewlines
    exact ⟨rest', .unaryOperand h', hrest⟩
  | level _ _ hfirst hmore =>
    obtain ⟨us₁, h₁, hs₁⟩ := hfirst hdue
    obtain ⟨us₂, h₂, hs₂⟩ := hmore hs₁
    exact ⟨us₂, .level h₁ h₂, hs₂⟩
  | @chainEnd l _ _ hend =>
    exact ⟨us, .chainEnd (hdue.forall_head (fun t => TokenKind.operator?_of_goesOn l) hend), hdue⟩
  | @operator _ _ t _ _ _ _ _ _ hop _ _ hsecond hmore =>
    -- No line break comes between an operand and what goes on with it, and none goes from there.
    obtain ⟨us, rfl, hs⟩ := hdue.cons (goesOn_of_operator? hop)
    obtain ⟨us₁, h₁, hs₁⟩ := hsecond ⟨t.kind, hs⟩
    obtain ⟨us₂, h₂, hs₂⟩ := hmore hs₁
    exact ⟨us₂, .operator hop h₁ h₂, hs₂⟩
  | sign hop _ ih =>
    obtain ⟨us, rfl, hs⟩ := hdue.cons_inv
    obtain ⟨rest', h', hrest⟩ := ih hs.afterNewlines
    exact ⟨rest', .sign hop h', hrest⟩
  | unsigned hop _ _ hfirst hmore =>
    obtain ⟨us, rfl, hs⟩ := hdue.cons_inv
    obtain ⟨us₁, h₁, hs₁⟩ := hfirst (.cons _ hs)
    obtain ⟨us₂, h₂, hs₂⟩ := hmore hs₁
    exact ⟨us₂, .unsigned hop h₁ h₂, hs₂⟩
  | callsEnd hend =>
    exact ⟨us, .callsEnd (hdue.forall_head (fun t => ne_of_not_goesOn rfl) hend), hdue⟩
  | call ht _ _ hlist hmore =>
    obtain ⟨us, rfl, hs⟩ := hdue.cons (by rw [ht]; rfl)
    obtain ⟨us₁, h₁, hs₁⟩ := hlist hs.afterNewlines
    obtain ⟨us₂, h₂, hs₂⟩ := hmore hs₁
    exact ⟨us₂, .call ht h₁ h₂, hs₂⟩
  | noArguments ht =>
    obtain ⟨us, rfl, hs⟩ := hdue.cons_inv
    exact ⟨us, .noArguments ht, after_of_respaced hs (by rw [ht]; rfl)⟩
  | firstArgument ht _ _ hfirst hmore =>
    obtain ⟨us, rfl, hs⟩ := hdue.cons_inv
    obtain ⟨us₁, h₁, last, -, hs₁⟩ := hfirst ⟨.newline, .keep _ hs⟩
    obtain ⟨us₂, h₂, hs₂⟩ := hmore hs₁.afterNewlines
    exact ⟨us₂, .firstArgument ht h₁ h₂, hs₂⟩
  | argumentsEnd ht =>
    obtain ⟨us, rfl, hs⟩ := hdue.cons_inv
    exact ⟨us, .argumentsEnd ht, after_of_respaced hs (by rw [ht]; rfl)⟩
  | nextArgument ht _ _ hfirst hmore =>
    obtain ⟨us, rfl, hs⟩ := hdue.cons_inv
    obtain ⟨us₁, h₁, last, -, hs₁⟩ := hfirst ⟨_, hs⟩
    obtain ⟨us₂, h₂, hs₂⟩ := hmore hs₁.afterNewlines
    exact ⟨us₂, .nextArgument ht h₁ h₂, hs₂⟩
  | literal ht =>
    obtain ⟨us, rfl, hs⟩ := hdue.cons_inv
    exact ⟨us, .literal ht, after_of_respaced hs (endsOperand_of_literal? ht)⟩
  | reference ht hend =>
    obtain ⟨us, rfl, hs⟩ := hdue.cons_inv
    have hafter := after_of_respaced hs (by rw [ht]; rfl)
    exact ⟨us, .reference ht (hafter.forall_head (fun t => ne_of_not_goesOn rfl) hend), hafter⟩
  | assignment ht hsign _ ih =>
    obtain ⟨us, rfl, hs₀⟩ := hdue.cons_inv
    obtain ⟨us, rfl, hs⟩ := (after_of_respaced hs₀ (by rw [ht]; rfl)).cons (by rw [hsign]; rfl)
    obtain ⟨rest', h', hrest⟩ := ih ⟨_, hs⟩
    exact ⟨rest', .assignment ht hsign h', hrest⟩
  | grouping ht _ hclose hrest ih =>
    obtain ⟨us, rfl, hs⟩ := hdue.cons_inv
    obtain ⟨us₁, h₁, last, -, hs₁⟩ := ih ⟨_, hs⟩
    have haligned := hs₁.afterNewlines
    rw [hrest] at haligned
    obtain ⟨rest', hrest', hs'⟩ := haligned.cons_inv
    exact ⟨rest', .grouping ht h₁ hclose hrest', after_of_respaced hs' (by rw [hclose]; rfl)⟩
  | braces ht _ ih =>
    obtain ⟨us, rfl, hs⟩ := hdue.cons_inv
    obtain ⟨rest', h', hrest⟩ := ih hs.afterSeparators
    exact ⟨rest', .braces ht h', hrest⟩
  | function ht _ _ hlist ih =>
    obtain ⟨us, rfl, hs⟩ := hdue.cons_inv
    obtain ⟨us₁, h₁, hs₁⟩ := hlist ⟨_, by rw [ht]; rfl, hs⟩
    obtain ⟨us₂, h₂, hs₂⟩ := ih ⟨_, hs₁⟩
    exact ⟨us₂, .function ht h₁ h₂, hs₂⟩
  | loop ht hname hsign _ _ hfirst hsecond =>
    obtain ⟨us, rfl, hs₀⟩ := hdue.cons_inv
    obtain ⟨us, rfl, hs₁⟩ := hs₀.cons (by rw [ht]; rfl) (by rw [hname]; rfl) (by simp [hname])
    obtain ⟨us, rfl, hs⟩ := hs₁.cons (by rw [hname]; rfl) (by rw [hsign]; rfl) (by simp [hsign])
    obtain ⟨us₁, h₁, last, -, hs₁⟩ := hfirst ⟨_, hs⟩
    obtain ⟨us₂, h₂, hs₂⟩ := hsecond ⟨last, hs₁⟩
    exact ⟨us₂, .loop ht hname hsign h₁ h₂, hs₂⟩
  | conditional ht _ _ _ hfirst hsecond hmore =>
    obtain ⟨us, rfl, hs⟩ := hdue.cons_inv
    obtain ⟨us₁, h₁, last, -, hs₁⟩ := hfirst ⟨_, hs⟩
    obtain ⟨us₂, h₂, hs₂⟩ := hsecond ⟨last, hs₁⟩
    obtain ⟨us₃, h₃, hs₃⟩ := hmore hs₂
    exact ⟨us₃, .conditional ht h₁ h₂ h₃, hs₃⟩
  | parametersEnd ht =>
    obtain ⟨before, hbefore, hs₀⟩ := hdue
    obtain ⟨us, rfl, hs⟩ := hs₀.cons hbefore (by rw [ht]; rfl) (by simp [ht])
    rw [ht] at hs
    exact ⟨us, .parametersEnd ht, hs⟩
  | parameter ht _ ih =>
    obtain ⟨before, hbefore, hs₀⟩ := hdue
    obtain ⟨us, rfl, hs⟩ := hs₀.cons hbefore (by rw [ht]; rfl) (by simp [ht])
    obtain ⟨rest', h', hrest⟩ := ih ⟨_, by rw [ht]; rfl, hs⟩
    exact ⟨rest', .parameter ht h', hrest⟩
  | noElse hend =>
    obtain ⟨before, -, hs⟩ := id hdue
    rw [← hs.afterNewlines.head_eq] at hend
    exact ⟨us, .noElse hend, hdue⟩
  | otherwise hts ht hother _ ih =>
    obtain ⟨before, -, hs⟩ := hdue
    have haligned := hs.afterNewlines
    rw [hts] at haligned
    obtain ⟨us', hus, hs⟩ := haligned.cons_inv
    rw [ht] at hs
    obtain ⟨rest', h', hrest⟩ := ih ⟨_, hs⟩
    refine ⟨rest', .otherwise hus ht ?_ h', hrest⟩
    rcases hs.behindElse with ⟨u, _, _, rfl, -, hif, -⟩ | ⟨-, hnone⟩
    · exact absurd hif (hother u rfl)
    · exact hnone
  | elseIf hts ht hu _ _ _ hfirst hsecond hmore =>
    obtain ⟨before, -, hs⟩ := hdue
    have haligned := hs.afterNewlines
    rw [hts] at haligned
    obtain ⟨us', hus, hs⟩ := haligned.cons_inv
    rw [ht] at hs
    rcases hs.behindElse with ⟨_, _, us', hcons, rfl, -, hs⟩ | ⟨hnone, -⟩
    · cases hcons
      obtain ⟨us₁, h₁, last, -, hs₁⟩ := hfirst ⟨_, hs⟩
      obtain ⟨us₂, h₂, hs₂⟩ := hsecond ⟨last, hs₁⟩
      obtain ⟨us₃, h₃, hs₃⟩ := hmore hs₂
      exact ⟨us₃, .elseIf hus ht hu h₁ h₂ h₃, hs₃⟩
    · exact absurd hu (hnone _ rfl)
  | blockEnd ht =>
    obtain ⟨us, rfl, hs⟩ := hdue.cons_inv
    exact ⟨us, .blockEnd ht, after_of_respaced hs (by rw [ht]; rfl)⟩
  | statement ht _ _ hfirst hmore =>
    obtain ⟨us, rfl, hs⟩ := hdue.cons_inv
    obtain ⟨us₁, h₁, last, -, hs₁⟩ := hfirst ⟨.newline, .keep _ hs⟩
    obtain ⟨us₂, h₂, hs₂⟩ := hmore hs₁.afterSeparators
    exact ⟨us₂, .statement ht h₁ h₂, hs₂⟩

/-! ## Programs -/

theorem statement_respaced {before : TokenKind} {ts us left : List Token} {e : Expr}
    (h : Respaced before ts us) (hr : statement ts = .ok ⟨e, left⟩) :
    ∃ left', statement us = .ok ⟨e, left'⟩ ∧ After left left' := by
  obtain ⟨left', h', hleft⟩ := (statement_iff.mp hr).respaced ⟨before, h⟩
  exact ⟨left', statement_iff.mpr h', hleft⟩

/-- A program without errors is read the same. -/
theorem readProgram_respaced {stop stop' : Token} {before : TokenKind} {ts us : List Token}
    (h : Respaced before ts us) (herr : (readProgram stop ts).errors = [])
    (hmal : (readProgram stop ts).malformed = none) :
    readProgram stop' us = readProgram stop ts := by
  induction ts using readProgram_induct generalizing before us with
  | blank ts hd =>
    have haligned := h.afterSeparators
    rw [hd] at haligned
    generalize hrest : skipSeparators us = rest at haligned
    cases haligned
    rw [readProgram_nil hd, readProgram_nil hrest]
  | read ts e left hr ih =>
    rw [readProgram_ok hr] at herr hmal ⊢
    have hs := h.afterSeparators.respaced before
    obtain ⟨left', hr', last, -, hleft⟩ := statement_respaced hs hr
    rw [readProgram_ok hr', ih hleft herr hmal]
  | unexpected ts what left hne hr ih =>
    rw [readProgram_unexpected hne hr] at herr
    cases herr
  | invalidNumber ts number left hr ih =>
    rw [readProgram_invalidNumber hr] at herr
    cases herr
  | malformed ts token hr =>
    rw [readProgram_malformed hr] at hmal
    cases hmal

/-! ## Insertions -/

/-- A place with an operand due behind it, or something to end in front of it. -/
def Gap (before after : List Token) : Prop :=
  (∃ t ∈ before.getLast?, t.kind.awaits = true) ∨ ∃ t ∈ after.head?, t.kind.closes = true

instance (before after : List Token) : Decidable (Gap before after) :=
  inferInstanceAs (Decidable (_ ∨ _))

/-- The second list is the first one with line breaks put into such places. -/
inductive Loosened (ts : List Token) : List Token → Prop
  | refl : Loosened ts ts
  | insert {before after : List Token} {n : Token} (h : Loosened ts (before ++ after))
    (hn : n.kind = .newline) (hgap : Gap before after) : Loosened ts (before ++ n :: after)

def putAt (n : Token) (ts : List Token) (k : Nat) : List Token := ts.take k ++ n :: ts.drop k

theorem Loosened.at {n : Token} (hn : n.kind = .newline) (k : Nat) {ts us : List Token}
    (h : Loosened ts us) (hgap : Gap (us.take k) (us.drop k)) : Loosened ts (putAt n us k) := by
  rw [← List.take_append_drop k us] at h
  exact .insert h hn hgap

theorem respaced_insert {n : Token} (hn : n.kind = .newline) (first : TokenKind)
    {before after : List Token} (h : Gap before after) :
    Respaced first (before ++ after) (before ++ n :: after) := by
  induction before generalizing first with
  | nil =>
    refine .insert hn ?_ (respaced_refl first after)
    rcases h with ⟨t, ht, -⟩ | hclose
    · cases ht
    · exact .inr hclose
  | cons t before ih =>
    cases before with
    | cons u before =>
      refine .keep t (ih t.kind ?_)
      rcases h with hawaits | hclose
      · exact .inl (by simpa using hawaits)
      · exact .inr hclose
    | nil =>
      refine .keep t (.insert hn ?_ (respaced_refl t.kind after))
      rcases h with ⟨u, hu, hawaits⟩ | hclose
      · cases hu
        exact .inl hawaits
      · exact .inr hclose

/-- A line break is taken away where the tokens behind it join nothing. -/
theorem respaced_delete {n : Token} (hn : n.kind = .newline) (first : TokenKind)
    (before : List Token) {after : List Token}
    (h : ∀ left, ∀ t ∈ (skipNewlines after).head?, TokenKind.joins left t.kind = false) :
    Respaced first (before ++ n :: after) (before ++ after) := by
  induction before generalizing first with
  | nil => exact .delete hn (h first) (respaced_refl first after)
  | cons t before ih => exact .keep t (ih t.kind)

theorem head_body {t : Token} {ts : List Token} (h : t ∈ ts.head?) (ht : t.kind ≠ .eof) :
    t ∈ (body ts).head? := by
  cases ts with
  | nil => cases h
  | cons u us =>
    cases h
    rw [body, List.takeWhile_cons_of_pos (by simpa using ht)]
    rfl

/-- A line break behind the end token is never read; one in front of it stays in its gap. -/
theorem body_insert {n : Token} (hn : n.kind = .newline) {before after : List Token}
    (h : Gap before after) :
    Respaced .newline (body (before ++ after)) (body (before ++ n :: after)) := by
  by_cases hend : (body before).length = before.length
  · have hkeep : ∀ us, body (before ++ us) = before ++ body us := fun us =>
      List.takeWhile_append.trans (if_pos hend)
    have hnewline : body (n :: after) = n :: body after :=
      List.takeWhile_cons_of_pos (by simp [hn])
    rw [hkeep, hkeep, hnewline]
    refine respaced_insert hn .newline ?_
    rcases h with hawaits | ⟨t, ht, hclose⟩
    · exact .inl hawaits
    · refine .inr ⟨t, head_body ht ?_, hclose⟩
      intro heof
      rw [heof] at hclose
      cases hclose
  · have hdrop : ∀ us, body (before ++ us) = body before := fun us =>
      List.takeWhile_append.trans (if_neg hend)
    rw [hdrop, hdrop]
    exact respaced_refl .newline _

/-- Line breaks put behind an operator, `:=`, an opening token, a comma or `if`, or in front of a
closing token, a comma or `else`, do not change what a list of tokens means. -/
theorem parse_loosened {ts us : List Token} (h : Loosened ts us) (herr : (parse ts).errors = [])
    (hmal : (parse ts).malformed = none) :
    (parse us).errors = [] ∧ (parse us).malformed = none ∧
      (parse us).statements = (parse ts).statements := by
  induction h with
  | refl => exact ⟨herr, hmal, rfl⟩
  | @insert before after n h hn hgap ih =>
    obtain ⟨herr', hmal', hsame⟩ := ih
    have hread : parse (before ++ n :: after) = parse (before ++ after) :=
      readProgram_respaced (body_insert hn hgap) herr' hmal'
    rw [hread]
    exact ⟨herr', hmal', hsame⟩

/-- The tokens of a conditional with a call and an assignment, on one line. -/
def conditionalOnOneLine : List Token := (scan (bytes "if !a f(1, 2) else { x := 3 }")).tokens

/-- The same with line breaks behind `:=`, in front of `else` (two of them) and behind `if`. -/
def conditionalOnFiveLines : List Token :=
  [13, 9, 10, 1].foldl (putAt ⟨.newline, [Text.newline], none, 1⟩) conditionalOnOneLine

theorem parse_loosened_conditional :
    Loosened conditionalOnOneLine conditionalOnFiveLines ∧
      (parse conditionalOnOneLine).errors = [] ∧
      (parse conditionalOnOneLine).malformed = none ∧
      (parse conditionalOnFiveLines).errors = [] ∧
      (parse conditionalOnFiveLines).malformed = none ∧
      (parse conditionalOnFiveLines).statements = (parse conditionalOnOneLine).statements := by
  have h : Loosened conditionalOnOneLine conditionalOnFiveLines := by
    apply Loosened.at rfl 1
    · apply Loosened.at rfl 10
      · apply Loosened.at rfl 9
        · apply Loosened.at rfl 13
          · exact .refl
          · decide +kernel
        · decide +kernel
      · decide +kernel
    · decide +kernel
  have herr : (parse conditionalOnOneLine).errors = [] := by decide +kernel
  have hmal : (parse conditionalOnOneLine).malformed = none := by decide +kernel
  exact ⟨h, herr, hmal, parse_loosened h herr hmal⟩

end Parser

end ExprLang

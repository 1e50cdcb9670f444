import ExprLang.Proofs.Parsing.Seam

/-!
# The grammar without fuel

With enough fuel the amount does not matter, so each reading function has a form without fuel, and
these satisfy the equations of the grammar. So everything that can be derived by the rules is read.
-/

namespace ExprLang.Parser

def readOperand (l : Option Level) (ts : List Token) : Except Fault (Read Expr) :=
  operand (fuelFor ts) l ts

def readChain (l : Level) (left : Expr) (ts : List Token) : Except Fault (Read Expr) :=
  chain (fuelFor ts) l left ts

def readUnary (ts : List Token) : Except Fault (Read Expr) := unary (fuelFor ts) ts

def readCalls (callee : Expr) (ts : List Token) : Except Fault (Read Expr) :=
  calls (fuelFor ts) callee ts

def readArguments (ts : List Token) : Except Fault (Read (List Expr)) := arguments (fuelFor ts) ts

def readMoreArguments (ts : List Token) : Except Fault (Read (List Expr)) :=
  moreArguments (fuelFor ts) ts

def readPrimary (t : Token) (ts : List Token) : Except Fault (Read Expr) :=
  primary (fuelFor ts) t ts

def readBranches (ts : List Token) : Except Fault (Read Branches) := branches (fuelFor ts) ts

def readBlock (ts : List Token) : Except Fault (Read (List Expr)) := block (fuelFor ts) ts

/-! ## The amount of fuel -/

theorem follow_nil {α : Type} (r : Except Fault (Read α)) : follow [] r = r := by
  cases r with
  | ok r => simp [follow]
  | error f => cases f <;> simp [follow, Fault.follow]

theorem settled_nil {α : Type} {r : Except Fault (Read α)} (h : r ≠ .error .outOfFuel) :
    Settled [] r := by
  cases r with
  | ok r => exact Or.inl (Or.inl rfl)
  | error f =>
    cases f with
    | unexpected what left => exact Or.inl rfl
    | invalidNumber t left => trivial
    | malformed t => trivial
    | outOfFuel => exact absurd rfl h

theorem fuel_irrelevant {α : Type} {F : Nat → Except Fault (Read α)} {need a b : Nat}
    (hc : ∀ extra fuel, Carries [] (F fuel) (F (extra + fuel)))
    (hn : ∀ fuel, need ≤ fuel → F fuel ≠ .error .outOfFuel) (ha : need ≤ a) (hb : need ≤ b) :
    F a = F b := by
  have key : ∀ c d, need ≤ c → c ≤ d → F d = F c := by
    intro c d hcn hcd
    have h := hc (d - c) c (settled_nil (hn c hcn))
    rwa [Nat.sub_add_cancel hcd, follow_nil] at h
  rcases Nat.le_total a b with h | h
  · exact (key a b ha h).symm
  · exact key b a hb h

theorem not_outOfFuel {α : Type} {Q : α → List Token → Prop} {fuel need : Nat} {ts : List Token}
    {r : Except Fault (Read α)} (h : Ensures Q (Stuck fuel need ts) r) (hn : need ≤ fuel) :
    r ≠ .error .outOfFuel := by
  rintro rfl
  exact h.2 hn rfl

theorem fuelFor_eq (ts : List Token) : fuelFor ts = 16 * ts.length + 16 := by
  simp only [fuelFor]
  omega

theorem Phrase.need_le (p : Phrase) (ts : List Token) : p.need ts ≤ fuelFor ts := by
  rw [fuelFor_eq]
  cases p with
  | operand l =>
    have hr := rank_le l
    simp only [need]
    omega
  | _ => simp only [need]; omega

theorem Phrase.read_eq (p : Phrase) {ts : List Token} {fuel : Nat} (h : p.need ts ≤ fuel) :
    p.read fuel ts = p.read (fuelFor ts) ts := by
  refine fuel_irrelevant (F := fun n => p.read n ts) (fun extra n => ?_)
    (fun n hn => not_outOfFuel (progress n p ts) hn) h (p.need_le ts)
  simpa using seamLaw [] extra n p ts

theorem operand_eq {l : Option Level} {ts : List Token} {fuel : Nat}
    (h : 16 * ts.length + rank l ≤ fuel) : operand fuel l ts = readOperand l ts :=
  (Phrase.operand l).read_eq h

theorem chain_eq {l : Level} {left : Expr} {ts : List Token} {fuel : Nat}
    (h : 16 * ts.length + 1 ≤ fuel) : chain fuel l left ts = readChain l left ts :=
  (Phrase.chain l left).read_eq h

theorem unary_eq {ts : List Token} {fuel : Nat} (h : 16 * ts.length + 1 ≤ fuel) :
    unary fuel ts = readUnary ts :=
  Phrase.unary.read_eq h

theorem calls_eq {callee : Expr} {ts : List Token} {fuel : Nat} (h : 16 * ts.length + 1 ≤ fuel) :
    calls fuel callee ts = readCalls callee ts :=
  (Phrase.calls callee).read_eq h

theorem arguments_eq {ts : List Token} {fuel : Nat} (h : 16 * ts.length + 10 ≤ fuel) :
    arguments fuel ts = readArguments ts :=
  Phrase.arguments.read_eq h

theorem moreArguments_eq {ts : List Token} {fuel : Nat} (h : 16 * ts.length + 1 ≤ fuel) :
    moreArguments fuel ts = readMoreArguments ts :=
  Phrase.moreArguments.read_eq h

theorem primary_eq {t : Token} {ts : List Token} {fuel : Nat} (h : 16 * ts.length + 14 ≤ fuel) :
    primary fuel t ts = readPrimary t ts := by
  have hneed : Phrase.primary.need (t :: ts) = 16 * ts.length + 14 := by
    simp only [Phrase.need, List.length_cons]
    omega
  have hfor : Phrase.primary.need (t :: ts) ≤ fuelFor ts := by
    rw [hneed, fuelFor_eq]
    omega
  exact (Phrase.primary.read_eq (hneed.trans_le h)).trans (Phrase.primary.read_eq hfor).symm

theorem branches_eq {ts : List Token} {fuel : Nat} (h : 16 * ts.length + 1 ≤ fuel) :
    branches fuel ts = readBranches ts :=
  Phrase.branches.read_eq h

theorem block_eq {ts : List Token} {fuel : Nat} (h : 16 * ts.length + 10 ≤ fuel) :
    block fuel ts = readBlock ts :=
  Phrase.block.read_eq h

/-! ## Equations -/

theorem bind_congr_ok {α β : Type} {x : Except Fault (Read α)}
    {k k' : Read α → Except Fault (Read β)}
    (h : ∀ v rest, x = .ok ⟨v, rest⟩ → k ⟨v, rest⟩ = k' ⟨v, rest⟩) : x >>= k = x >>= k' := by
  cases x with
  | error f => rfl
  | ok r => exact h r.value r.rest rfl

theorem readOperand_shorter {l : Option Level} {ts rest : List Token} {e : Expr}
    (h : readOperand l ts = .ok ⟨e, rest⟩) : Shorter rest ts :=
  (derives_of_read (.operand l) _ ts h).leaves

theorem readPrimary_shorter {t : Token} {ts rest : List Token} {e : Expr}
    (h : readPrimary t ts = .ok ⟨e, rest⟩) : Shorter rest (t :: ts) :=
  (derives_of_read .primary _ (t :: ts) h).leaves

theorem readArguments_shorter {ts rest : List Token} {es : List Expr}
    (h : readArguments ts = .ok ⟨es, rest⟩) : Shorter rest ts :=
  (derives_of_read .arguments _ ts h).leaves

theorem expect_cons {kind : TokenKind} {what : Expected} {ts rest : List Token} {t : Token}
    (h : expect kind what ts = .ok ⟨t, rest⟩) : ts = t :: rest := by
  have hp := expect_ensures 0 0 kind what ts
  rw [h] at hp
  exact hp.2

theorem parameters_shorter {ts rest : List Token} {names : List Bytes}
    (h : parameters ts = .ok ⟨names, rest⟩) : Shorter rest ts :=
  (derives_of_read .parameters 0 ts h).leaves

theorem readOperand_none (ts : List Token) : readOperand none ts = readUnary (skipNewlines ts) := by
  have hl := (skipNewlines_suffix ts).length_le
  rw [readOperand, fuelFor_eq, operand]
  exact unary_eq (by omega)

theorem readOperand_some (l : Level) (ts : List Token) :
    readOperand (some l) ts = (do
      let ⟨left, ts⟩ ← readOperand l.tighter ts
      readChain l left ts) := by
  have hr := rank_le l.tighter
  rw [readOperand, fuelFor_eq, operand, operand_eq (by omega)]
  refine bind_congr_ok fun left rest h => chain_eq ?_
  have hs := (readOperand_shorter h).2
  omega

theorem readChain_nil (l : Level) (left : Expr) : readChain l left [] = .ok ⟨left, []⟩ := rfl

theorem readChain_cons (l : Level) (left : Expr) (t : Token) (ts : List Token) :
    readChain l left (t :: ts) =
      (match l.operator? t.kind with
      | none => .ok ⟨left, t :: ts⟩
      | some op => do
        let ⟨right, ts⟩ ← readOperand l.right ts
        readChain l (.binary left op t.lexeme t.line right) ts) := by
  rw [readChain, fuelFor_eq, chain, List.length_cons]
  cases l.operator? t.kind with
  | none => rfl
  | some op =>
    have hr := rank_le l.right
    simp only
    rw [operand_eq (by omega)]
    refine bind_congr_ok fun right rest h => chain_eq ?_
    have hs := (readOperand_shorter h).2
    dsimp only
    omega

theorem readUnary_cons (t : Token) (ts : List Token) :
    readUnary (t :: ts) =
      (match UnaryOp.ofKind? t.kind with
      | some op => do
        let ⟨e, ts⟩ ← readUnary (skipNewlines ts)
        .ok ⟨.unary op t.lexeme t.line e, ts⟩
      | none => do
        let ⟨callee, ts⟩ ← readPrimary t ts
        readCalls callee ts) := by
  rw [readUnary, fuelFor_eq, unary, List.length_cons]
  cases UnaryOp.ofKind? t.kind with
  | some op =>
    have hl := (skipNewlines_suffix ts).length_le
    simp only
    rw [unary_eq (by omega)]
  | none =>
    simp only
    rw [primary_eq (by omega)]
    refine bind_congr_ok fun callee rest h => calls_eq ?_
    have hs := (readPrimary_shorter h).2
    simp only [List.length_cons] at hs ⊢
    omega

theorem readCalls_nil (callee : Expr) : readCalls callee [] = .ok ⟨callee, []⟩ := rfl

theorem readCalls_cons (callee : Expr) (t : Token) (ts : List Token) :
    readCalls callee (t :: ts) =
      if t.kind = .leftParen then do
        let ⟨args, ts⟩ ← readArguments (skipNewlines ts)
        readCalls (.call callee t.line args) ts
      else .ok ⟨callee, t :: ts⟩ := by
  rw [readCalls, fuelFor_eq, calls, List.length_cons]
  split
  · have hl := (skipNewlines_suffix ts).length_le
    rw [arguments_eq (by omega)]
    refine bind_congr_ok fun args rest h => calls_eq ?_
    have hs := (readArguments_shorter h).2
    omega
  · rfl

theorem readArguments_cons (t : Token) (ts : List Token) :
    readArguments (t :: ts) =
      (if t.kind = .rightParen then .ok ⟨[], ts⟩
      else do
        let ⟨e, ts⟩ ← readOperand (some .or) (t :: ts)
        let ⟨es, ts⟩ ← readMoreArguments (skipNewlines ts)
        .ok ⟨e :: es, ts⟩) := by
  rw [readArguments, fuelFor_eq, arguments, List.length_cons]
  split
  · rfl
  · rw [operand_eq (by simp only [rank, List.length_cons]; omega)]
    apply bind_congr_ok
    intro e rest h
    have hs := (readOperand_shorter h).2
    have hl := (skipNewlines_suffix rest).length_le
    simp only [List.length_cons] at hs
    have hm : moreArguments (16 * (ts.length + 1) + 15) (skipNewlines rest) =
        readMoreArguments (skipNewlines rest) := moreArguments_eq (by omega)
    simp only [hm]

theorem readMoreArguments_cons (t : Token) (ts : List Token) :
    readMoreArguments (t :: ts) =
      if t.kind = .comma then do
        let ⟨e, ts⟩ ← readOperand (some .or) ts
        let ⟨es, ts⟩ ← readMoreArguments (skipNewlines ts)
        .ok ⟨e :: es, ts⟩
      else if t.kind = .rightParen then .ok ⟨[], ts⟩
      else .error (.unexpected .argumentsEnd (t :: ts)) := by
  rw [readMoreArguments, fuelFor_eq, moreArguments, List.length_cons]
  split
  · rw [operand_eq (by simp only [rank]; omega)]
    apply bind_congr_ok
    intro e rest h
    have hs := (readOperand_shorter h).2
    have hl := (skipNewlines_suffix rest).length_le
    have hm : moreArguments (16 * (ts.length + 1) + 15) (skipNewlines rest) =
        readMoreArguments (skipNewlines rest) := moreArguments_eq (by omega)
    simp only [hm]
  · rfl

/-- An expression inside a construct is read behind its first token, which leaves enough fuel. -/
theorem operand_behind {us ts : List Token} (h : us.length ≤ ts.length) :
    operand (16 * ts.length + 15) (some .or) us = readOperand (some .or) us :=
  operand_eq (by simp only [rank]; omega)

theorem readPrimary_for {t : Token} (ht : t.kind = .forWord) (ts : List Token) :
    readPrimary t ts = (do
      let ⟨name, ts⟩ ← expect .identifier .variableName ts
      let ⟨_, ts⟩ ← expect .assign .assignment ts
      let ⟨items, ts⟩ ← readOperand (some .or) ts
      let ⟨body, ts⟩ ← readOperand (some .or) ts
      .ok ⟨.each t.line name.lexeme items body, ts⟩) := by
  rw [readPrimary, fuelFor_eq]
  simp only [primary, ht]
  apply bind_congr_ok
  intro name r₁ h₁
  apply bind_congr_ok
  intro sign r₂ h₂
  obtain rfl := expect_cons h₁
  obtain rfl : r₁ = sign :: r₂ := expect_cons h₂
  have hl : r₂.length ≤ (name :: sign :: r₂).length := by
    simp only [List.length_cons]
    omega
  simp only [operand_behind hl]
  apply bind_congr_ok
  intro items r₃ h₃
  simp only [operand_behind ((readOperand_shorter h₃).2.le.trans hl)]

theorem readPrimary_if {t : Token} (ht : t.kind = .ifWord) (ts : List Token) :
    readPrimary t ts = (do
      let ⟨test, ts⟩ ← readOperand (some .or) ts
      let ⟨yes, ts⟩ ← readOperand (some .or) ts
      let ⟨no, ts⟩ ← readBranches ts
      .ok ⟨.cond t.line test yes no, ts⟩) := by
  rw [readPrimary, fuelFor_eq]
  simp only [primary, ht]
  rw [operand_behind (Nat.le_refl ts.length)]
  apply bind_congr_ok
  intro test r₁ h₁
  have l₁ := (readOperand_shorter h₁).2
  simp only [operand_behind (show r₁.length ≤ ts.length by omega)]
  apply bind_congr_ok
  intro yes r₂ h₂
  have l₂ := (readOperand_shorter h₂).2
  simp only [branches_eq (show 16 * r₂.length + 1 ≤ 16 * ts.length + 15 by omega)]

theorem readPrimary_name_nil {t : Token} (ht : t.kind = .identifier) :
    readPrimary t [] = .ok ⟨.variable t.lexeme t.line, []⟩ := by
  rw [readPrimary, fuelFor_eq]
  simp only [primary, ht]

theorem readPrimary_name_cons {t : Token} (ht : t.kind = .identifier) (u : Token)
    (us : List Token) :
    readPrimary t (u :: us) =
      (if u.kind = .assign then do
        let ⟨value, us⟩ ← readOperand (some .or) us
        .ok ⟨.assign t.lexeme t.line value, us⟩
      else .ok ⟨.variable t.lexeme t.line, u :: us⟩) := by
  rw [readPrimary, fuelFor_eq]
  simp only [primary, ht]
  rw [operand_behind (show us.length ≤ (u :: us).length by simp)]

theorem readPrimary_brace {t : Token} (ht : t.kind = .leftBrace) (ts : List Token) :
    readPrimary t ts = (do
      let ⟨body, ts⟩ ← readBlock (skipSeparators ts)
      .ok ⟨.block t.line body, ts⟩) := by
  have hl := (skipSeparators_suffix ts).length_le
  rw [readPrimary, fuelFor_eq]
  simp only [primary, ht]
  rw [block_eq (by omega)]

theorem readPrimary_bar {t : Token} (ht : t.kind = .bar) (ts : List Token) :
    readPrimary t ts = (do
      let ⟨params, ts⟩ ← parameters ts
      let ⟨body, ts⟩ ← readOperand (some .or) ts
      .ok ⟨.function t.line params body, ts⟩) := by
  rw [readPrimary, fuelFor_eq]
  simp only [primary, ht]
  apply bind_congr_ok
  intro params r₁ h₁
  have l₁ := (parameters_shorter h₁).2
  simp only [operand_behind (show r₁.length ≤ ts.length by omega)]

theorem readPrimary_paren {t : Token} (ht : t.kind = .leftParen) (ts : List Token) :
    readPrimary t ts = (do
      let ⟨inner, ts⟩ ← readOperand (some .or) ts
      let ⟨_, ts⟩ ← expect .rightParen .groupEnd (skipNewlines ts)
      .ok ⟨.grouping inner, ts⟩) := by
  rw [readPrimary, fuelFor_eq]
  simp only [primary, ht]
  rw [operand_behind (Nat.le_refl ts.length)]

theorem readPrimary_false {t : Token} (ht : t.kind = .falseWord) (ts : List Token) :
    readPrimary t ts = .ok ⟨.literal (.bool false), ts⟩ := by
  rw [readPrimary, fuelFor_eq]
  simp only [primary, ht]

theorem readPrimary_true {t : Token} (ht : t.kind = .trueWord) (ts : List Token) :
    readPrimary t ts = .ok ⟨.literal (.bool true), ts⟩ := by
  rw [readPrimary, fuelFor_eq]
  simp only [primary, ht]

theorem readPrimary_int {t : Token} (ht : t.kind = .int) (ts : List Token) :
    readPrimary t ts = intLiteral t ts := by
  rw [readPrimary, fuelFor_eq]
  simp only [primary, ht]

theorem readPrimary_float {t : Token} (ht : t.kind = .float) (ts : List Token) :
    readPrimary t ts = floatLiteral t ts := by
  rw [readPrimary, fuelFor_eq]
  simp only [primary, ht]

theorem readPrimary_string {t : Token} (ht : t.kind = .string) (ts : List Token) :
    readPrimary t ts = stringLiteral t ts := by
  rw [readPrimary, fuelFor_eq]
  simp only [primary, ht]

theorem readBranches_eq (ts : List Token) :
    readBranches ts =
      (match skipNewlines ts with
      | [] => .ok ⟨.done, ts⟩
      | t :: rest =>
        if t.kind = .elseWord then
          match rest with
          | [] => .error (.unexpected .expression [])
          | u :: us =>
            if u.kind = .ifWord then do
              let ⟨test, us⟩ ← readOperand (some .or) us
              let ⟨yes, us⟩ ← readOperand (some .or) us
              let ⟨no, us⟩ ← readBranches us
              .ok ⟨.elseIf test yes no, us⟩
            else do
              let ⟨body, us⟩ ← readOperand (some .or) (u :: us)
              .ok ⟨.otherwise body, us⟩
        else .ok ⟨.done, ts⟩) := by
  have hl := (skipNewlines_suffix ts).length_le
  rw [readBranches, fuelFor_eq, branches]
  cases he : skipNewlines ts with
  | nil => rfl
  | cons t rest =>
    rw [he, List.length_cons] at hl
    simp only
    split
    · cases rest with
      | nil => rfl
      | cons u us =>
        rw [List.length_cons] at hl
        simp only
        split
        · rw [operand_eq (by simp only [rank]; omega)]
          apply bind_congr_ok
          intro test r₁ h₁
          have l₁ := (readOperand_shorter h₁).2
          simp only [operand_behind (show r₁.length ≤ ts.length by omega)]
          apply bind_congr_ok
          intro yes r₂ h₂
          have l₂ := (readOperand_shorter h₂).2
          simp only [branches_eq (show 16 * r₂.length + 1 ≤ 16 * ts.length + 15 by omega)]
        · rw [operand_eq (by simp only [rank, List.length_cons]; omega)]
    · rfl

theorem readBlock_cons (t : Token) (ts : List Token) :
    readBlock (t :: ts) =
      (if t.kind = .rightBrace then .ok ⟨[], ts⟩
      else do
        let ⟨e, ts⟩ ← readOperand (some .or) (t :: ts)
        let ⟨es, ts⟩ ← readBlock (skipSeparators ts)
        .ok ⟨e :: es, ts⟩) := by
  rw [readBlock, fuelFor_eq, block, List.length_cons]
  split
  · rfl
  · rw [operand_eq (by simp only [rank, List.length_cons]; omega)]
    apply bind_congr_ok
    intro e rest h
    have hs := (readOperand_shorter h).2
    have hl := (skipSeparators_suffix rest).length_le
    simp only [List.length_cons] at hs
    have hb : block (16 * (ts.length + 1) + 15) (skipSeparators rest) =
        readBlock (skipSeparators rest) := block_eq (by omega)
    simp only [hb]

/-! ## What can be derived is read -/

/-- The fuel for the first token makes no difference. -/
theorem read_primary (t : Token) (ts : List Token) :
    Phrase.primary.read (fuelFor (t :: ts)) (t :: ts) = readPrimary t ts :=
  primary_eq (by rw [fuelFor_eq, List.length_cons]; omega)

theorem readPrimary_literal {t : Token} {value : Literal} (h : t.literal? = some value)
    (ts : List Token) : readPrimary t ts = .ok ⟨.literal value, ts⟩ := by
  unfold Token.literal? at h
  split at h
  · cases h
    exact readPrimary_false (by assumption) ts
  · cases h
    exact readPrimary_true (by assumption) ts
  · obtain ⟨n, hn, rfl⟩ := Option.map_eq_some_iff.mp h
    rw [readPrimary_int (by assumption), intLiteral, hn]
  · obtain ⟨x, hx, rfl⟩ := Option.map_eq_some_iff.mp h
    rw [readPrimary_float (by assumption), floatLiteral, hx]
  · obtain ⟨s, hs, rfl⟩ := Option.map_eq_some_iff.mp h
    rw [readPrimary_string (by assumption), stringLiteral, hs]
  · cases h

theorem expect_ok {kind : TokenKind} {t : Token} (hk : t.kind = kind) (what : Expected)
    (ts : List Token) : expect kind what (t :: ts) = .ok ⟨t, ts⟩ := if_pos hk

theorem bind_ok {α β : Type} {x : Except Fault (Read α)} {k : Read α → Except Fault (Read β)}
    {v : α} {rest : List Token} {r : Read β} (hx : x = .ok ⟨v, rest⟩)
    (hk : k ⟨v, rest⟩ = .ok r) : x >>= k = .ok r := by
  rw [hx]
  exact hk

theorem Derives.read {p : Phrase} {ts rest : List Token} {v : p.Value} (h : Derives p ts v rest) :
    p.read (fuelFor ts) ts = .ok ⟨v, rest⟩ := by
  induction h with
  | @unaryOperand ts _ _ _ ih => exact (readOperand_none ts).trans ih
  | @level l ts _ _ _ _ _ _ hfirst hmore =>
    exact (readOperand_some l ts).trans (bind_ok hfirst hmore)
  | @chainEnd l left ts hend =>
    cases ts with
    | nil => exact readChain_nil l left
    | cons t ts =>
      refine (readChain_cons l left t ts).trans ?_
      rw [hend t rfl]
  | @operator l op t ts _ _ left _ _ hop _ _ hsecond hmore =>
    refine (readChain_cons l left t ts).trans ?_
    rw [hop]
    exact bind_ok hsecond hmore
  | @sign op t ts _ _ hop _ ih =>
    refine (readUnary_cons t ts).trans ?_
    rw [hop]
    exact bind_ok ih rfl
  | @unsigned t ts _ _ _ _ hop _ _ hfirst hmore =>
    refine (readUnary_cons t ts).trans ?_
    rw [hop]
    exact bind_ok ((read_primary t ts).symm.trans hfirst) hmore
  | @callsEnd callee ts hend =>
    cases ts with
    | nil => exact readCalls_nil callee
    | cons t ts => exact (readCalls_cons callee t ts).trans (if_neg (hend t rfl))
  | @call callee _ t ts _ _ _ ht _ _ hlist hmore =>
    exact ((readCalls_cons callee t ts).trans (if_pos ht)).trans (bind_ok hlist hmore)
  | @noArguments t ts ht => exact (readArguments_cons t ts).trans (if_pos ht)
  | @firstArgument t ts _ _ _ _ ht _ _ hfirst hmore =>
    exact ((readArguments_cons t ts).trans (if_neg ht)).trans (bind_ok hfirst (bind_ok hmore rfl))
  | @argumentsEnd t ts ht =>
    exact ((readMoreArguments_cons t ts).trans (if_neg (by simp [ht]))).trans (if_pos ht)
  | @nextArgument t ts _ _ _ _ ht _ _ hfirst hmore =>
    exact ((readMoreArguments_cons t ts).trans (if_pos ht)).trans
      (bind_ok hfirst (bind_ok hmore rfl))
  | @literal t ts _ ht => exact (read_primary t ts).trans (readPrimary_literal ht ts)
  | @reference t ts ht hend =>
    refine (read_primary t ts).trans ?_
    cases ts with
    | nil => exact readPrimary_name_nil ht
    | cons u us => exact (readPrimary_name_cons ht u us).trans (if_neg (hend u rfl))
  | @assignment t sign ts _ _ ht hsign _ ih =>
    refine (read_primary t (sign :: ts)).trans ?_
    exact ((readPrimary_name_cons ht sign ts).trans (if_pos hsign)).trans (bind_ok ih rfl)
  | @grouping t close ts us rest _ ht _ hclose hrest ih =>
    refine ((read_primary t ts).trans (readPrimary_paren ht ts)).trans (bind_ok ih ?_)
    simp only [hrest]
    exact bind_ok (expect_ok hclose _ rest) rfl
  | @braces t ts _ _ ht _ ih =>
    exact ((read_primary t ts).trans (readPrimary_brace ht ts)).trans (bind_ok ih rfl)
  | @function t ts _ _ _ _ ht _ _ hlist ih =>
    exact ((read_primary t ts).trans (readPrimary_bar ht ts)).trans (bind_ok hlist (bind_ok ih rfl))
  | @loop t name sign ts _ _ _ _ ht hname hsign _ _ hfirst hsecond =>
    refine ((read_primary t _).trans (readPrimary_for ht _)).trans ?_
    exact bind_ok (expect_ok hname _ _) (bind_ok (expect_ok hsign _ ts)
      (bind_ok hfirst (bind_ok hsecond rfl)))
  | @conditional t ts _ _ _ _ _ _ ht _ _ _ hfirst hsecond hmore =>
    exact ((read_primary t ts).trans (readPrimary_if ht ts)).trans
      (bind_ok hfirst (bind_ok hsecond (bind_ok hmore rfl)))
  | parametersEnd ht => exact if_pos ht
  | parameter ht _ ih =>
    exact ((if_neg (by simp [ht])).trans (if_pos ht)).trans (bind_ok ih rfl)
  | @noElse ts hend =>
    refine (readBranches_eq ts).trans ?_
    cases hts : skipNewlines ts with
    | nil => rfl
    | cons t us => exact if_neg (hend t (by rw [hts]; rfl))
  | @otherwise t ts us _ _ hts ht hother h ih =>
    refine (readBranches_eq ts).trans ?_
    simp only [hts, if_pos ht]
    cases us with
    | nil => exact absurd h.leaves.2 (Nat.not_lt_zero _)
    | cons u us => exact (if_neg (hother u rfl)).trans (bind_ok ih rfl)
  | @elseIf t u ts us _ _ _ _ _ _ hts ht hu _ _ _ hfirst hsecond hmore =>
    refine (readBranches_eq ts).trans ?_
    simp only [hts, if_pos ht, if_pos hu]
    exact bind_ok hfirst (bind_ok hsecond (bind_ok hmore rfl))
  | @blockEnd t ts ht => exact (readBlock_cons t ts).trans (if_pos ht)
  | @statement t ts _ _ _ _ ht _ _ hfirst hmore =>
    exact ((readBlock_cons t ts).trans (if_neg ht)).trans (bind_ok hfirst (bind_ok hmore rfl))

/-- The rules are not ambiguous. -/
theorem Derives.unique {p : Phrase} {ts rest rest' : List Token} {v v' : p.Value}
    (h : Derives p ts v rest) (h' : Derives p ts v' rest') : v = v' ∧ rest = rest' := by
  have hread := h.read.symm.trans h'.read
  cases hread
  exact ⟨rfl, rfl⟩

/-- The parser reads exactly what the rules of the grammar derive. -/
theorem statement_iff {ts rest : List Token} {e : Expr} :
    statement ts = .ok ⟨e, rest⟩ ↔ Derives (.operand (some .or)) ts e rest :=
  ⟨derives_of_statement, Derives.read⟩

end ExprLang.Parser

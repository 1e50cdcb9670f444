import Mathlib.Data.List.TakeWhile
import ExprLang.Proofs.Parsing.Progress

/-!
# What follows does not matter

The answer of a read does not change when more tokens are put behind those it was given, unless it
ran into their end. An expression that was read up to the end, or up to line breaks at the end,
stays as it is if what follows starts with a line break and does not go on with `else`
(`Seam`); an error at a token stays as it is whatever follows. More fuel changes nothing
either, which is the case of nothing following.
-/

namespace ExprLang.Parser

/-! ## Line breaks -/

/-- Line breaks only. -/
def Blank (ts : List Token) : Prop := ∀ t ∈ ts, t.kind = .newline

theorem blank_nil : Blank [] := by
  intro t ht
  simp at ht

theorem skipNewlines_of_blank {ts : List Token} (h : Blank ts) : skipNewlines ts = [] := by
  rw [skipNewlines, List.dropWhile_eq_nil_iff]
  intro t ht
  simp [h t ht]

theorem blank_of_skipNewlines {ts : List Token} (h : skipNewlines ts = []) : Blank ts := by
  rw [skipNewlines, List.dropWhile_eq_nil_iff] at h
  intro t ht
  simpa using h t ht

theorem skipSeparators_of_blank {ts : List Token} (h : Blank ts) : skipSeparators ts = [] := by
  rw [skipSeparators, List.dropWhile_eq_nil_iff]
  intro t ht
  simp [TokenKind.isSeparator, h t ht]

/-- Tokens that leave an expression before them as it is. -/
def Seam (xs : List Token) : Prop :=
  xs = [] ∨ ∃ t us, xs = t :: us ∧ t.kind = .newline ∧
    ∀ u vs, skipNewlines us = u :: vs → u.kind ≠ .elseWord

/-! ## Answers with more tokens behind them -/

/-- The fault of a read with `xs` behind its tokens. -/
def Fault.follow (xs : List Token) : Fault → Fault
  | .unexpected what left => .unexpected what (left ++ xs)
  | .invalidNumber t left => .invalidNumber t (left ++ xs)
  | .malformed t => .malformed t
  | .outOfFuel => .outOfFuel

/-- The answer of a read with `xs` behind its tokens. -/
def follow {α : Type} (xs : List Token) : Except Fault (Read α) → Except Fault (Read α)
  | .ok r => .ok ⟨r.value, r.rest ++ xs⟩
  | .error f => .error (f.follow xs)

/-- A fault that stays the same with `xs` behind the tokens. -/
def Fault.Settled (xs : List Token) : Fault → Prop
  | .unexpected _ left => xs = [] ∨ left ≠ []
  | .outOfFuel => False
  | _ => True

/-- An answer that stays the same with `xs` behind the tokens. -/
def Settled {α : Type} (xs : List Token) : Except Fault (Read α) → Prop
  | .ok r => Seam xs ∨ ¬ Blank r.rest
  | .error f => f.Settled xs

def Carries {α : Type} (xs : List Token) (r r' : Except Fault (Read α)) : Prop :=
  Settled xs r → r' = follow xs r

/-- The answer of a read that has not looked behind its tokens unless it failed there. -/
def Firm {α : Type} (xs : List Token) (r r' : Except Fault (Read α)) : Prop :=
  (Settled xs r ∨ ∃ v, r = .ok v) → r' = follow xs r

/-- The answer of a read that found nothing but line breaks. -/
def Idle {α : Type} (r : Except Fault (Read α)) : Prop :=
  Ensures (fun _ rest => Blank rest) (fun f => (∃ what, f = .unexpected what []) ∨ f = .outOfFuel) r

theorem not_settled_of_idle {α : Type} {xs : List Token} {r : Except Fault (Read α)}
    (h : Idle r) (hx : ¬ Seam xs) : ¬ Settled xs r := by
  cases r with
  | ok r =>
    rintro (hs | hb)
    · exact hx hs
    · exact hb h
  | error f =>
    rcases h with ⟨what, rfl⟩ | rfl
    · rintro (hn | hn)
      · exact hx (Or.inl hn)
      · exact hn rfl
    · exact id

theorem Carries.bind {α β : Type} {xs : List Token} {x x' : Except Fault (Read α)}
    {k k' : Read α → Except Fault (Read β)} (h : Carries xs x x')
    (hk : ∀ v rest, Carries xs (k ⟨v, rest⟩) (k' ⟨v, rest ++ xs⟩))
    (hidle : ∀ v rest, Blank rest → Idle (k ⟨v, rest⟩)) :
    Carries xs (x >>= k) (x' >>= k') := by
  intro hs
  cases x with
  | error f =>
    have hx : x' = .error (f.follow xs) := h hs
    rw [hx]
    rfl
  | ok r =>
    by_cases hr : Settled xs (.ok r)
    · have hx : x' = .ok ⟨r.value, r.rest ++ xs⟩ := h hr
      rw [hx]
      exact hk r.value r.rest hs
    · simp only [Settled, not_or, Classical.not_not] at hr
      exact absurd hs (not_settled_of_idle (hidle r.value r.rest hr.2) hr.1)

theorem Firm.bind {α β : Type} {xs : List Token} {x x' : Except Fault (Read α)}
    {k k' : Read α → Except Fault (Read β)} (h : Firm xs x x')
    (hk : ∀ v rest, Carries xs (k ⟨v, rest⟩) (k' ⟨v, rest ++ xs⟩)) :
    Carries xs (x >>= k) (x' >>= k') := by
  intro hs
  cases x with
  | error f =>
    have hx : x' = .error (f.follow xs) := h (Or.inl hs)
    rw [hx]
    rfl
  | ok r =>
    have hx : x' = .ok ⟨r.value, r.rest ++ xs⟩ := h (Or.inr ⟨r, rfl⟩)
    rw [hx]
    exact hk r.value r.rest hs

theorem Firm.carries {α : Type} {xs : List Token} {r r' : Except Fault (Read α)}
    (h : Firm xs r r') : Carries xs r r' := fun hs => h (Or.inl hs)

theorem carries_of_eq {α : Type} {xs : List Token} {r r' : Except Fault (Read α)}
    (h : r' = follow xs r) : Carries xs r r' := fun _ => h

/-- A fault at the end of the tokens says nothing about what follows. -/
theorem carries_end {α : Type} {xs : List Token} {what : Expected} {r : Except Fault (Read α)}
    (h : xs = [] → r = .error (.unexpected what [])) :
    Carries xs (.error (.unexpected what [])) r := by
  rintro (hx | hx)
  · rw [h hx, hx]
    rfl
  · exact absurd rfl hx

/-- Skipping line breaks or separators first. -/
theorem carries_dropWhile {α : Type} {xs : List Token} {f g : List Token → Except Fault (Read α)}
    (p : Token → Bool) (ts : List Token) (h : ∀ us, Carries xs (f us) (g (us ++ xs)))
    (hnil : xs ≠ [] → ¬ Settled xs (f [])) :
    Carries xs (f (ts.dropWhile p)) (g ((ts ++ xs).dropWhile p)) := by
  intro hs
  rw [List.dropWhile_append]
  cases hd : ts.dropWhile p with
  | cons t us =>
    rw [hd] at hs
    exact h (t :: us) hs
  | nil =>
    rw [hd] at hs
    by_cases hx : xs = []
    · subst hx
      exact h [] hs
    · exact absurd hs (hnil hx)

/-! ## Single tokens -/

theorem expect_firm (xs : List Token) (kind : TokenKind) (what : Expected) (ts : List Token) :
    Firm xs (expect kind what ts) (expect kind what (ts ++ xs)) := by
  cases ts with
  | nil =>
    rintro (hs | ⟨v, hv⟩)
    · exact carries_end (fun hx => by rw [hx]; rfl) hs
    · cases hv
  | cons t ts =>
    intro _
    simp only [expect, List.cons_append]
    split <;> rfl

theorem parameters_firm (xs : List Token) (ts : List Token) :
    Firm xs (parameters ts) (parameters (ts ++ xs)) := by
  induction ts with
  | nil =>
    rintro (hs | ⟨v, hv⟩)
    · exact carries_end (fun hx => by rw [hx]; rfl) hs
    · cases hv
  | cons t ts ih =>
    intro hs
    simp only [parameters, List.cons_append] at hs ⊢
    split
    · rfl
    · split
      · rename_i hb hi
        rw [if_neg hb, if_pos hi] at hs
        cases hp : parameters ts with
        | error f =>
          rw [hp] at hs ih
          have he : parameters (ts ++ xs) = .error (f.follow xs) := by
            refine ih (Or.inl ?_)
            rcases hs with hs | ⟨v, hv⟩
            · exact hs
            · cases hv
          rw [he]
          rfl
        | ok r =>
          rw [hp] at ih
          have he : parameters (ts ++ xs) = .ok ⟨r.value, r.rest ++ xs⟩ := ih (Or.inr ⟨r, rfl⟩)
          rw [he]
          rfl
      · rfl

theorem literal_carries (xs : List Token) (t : Token) (ts : List Token) :
    intLiteral t (ts ++ xs) = follow xs (intLiteral t ts) ∧
    floatLiteral t (ts ++ xs) = follow xs (floatLiteral t ts) ∧
    stringLiteral t (ts ++ xs) = follow xs (stringLiteral t ts) := by
  refine ⟨?_, ?_, ?_⟩
  · unfold intLiteral
    split <;> rfl
  · unfold floatLiteral
    split <;> rfl
  · unfold stringLiteral
    split <;> rfl

/-! ## Nothing but line breaks -/

theorem chain_idle (fuel : Nat) (l : Level) (left : Expr) {ts : List Token} (h : Blank ts) :
    Idle (chain fuel l left ts) := by
  cases fuel with
  | zero => exact Or.inr rfl
  | succ fuel =>
    cases ts with
    | nil => exact h
    | cons t ts =>
      have ht := h t List.mem_cons_self
      have ho : l.operator? t.kind = none := by rw [ht]; rfl
      simp only [chain, ho]
      exact h

theorem calls_idle (fuel : Nat) (callee : Expr) {ts : List Token} (h : Blank ts) :
    Idle (calls fuel callee ts) := by
  cases fuel with
  | zero => exact Or.inr rfl
  | succ fuel =>
    cases ts with
    | nil => exact h
    | cons t ts =>
      have ht : t.kind ≠ .leftParen := by simp [h t List.mem_cons_self]
      simp only [calls, if_neg ht]
      exact h

theorem unary_nil_idle (fuel : Nat) : Idle (unary fuel []) := by
  cases fuel with
  | zero => exact Or.inr rfl
  | succ fuel => exact Or.inl ⟨_, rfl⟩

theorem arguments_nil_idle (fuel : Nat) : Idle (arguments fuel []) := by
  cases fuel with
  | zero => exact Or.inr rfl
  | succ fuel => exact Or.inl ⟨_, rfl⟩

theorem moreArguments_nil_idle (fuel : Nat) : Idle (moreArguments fuel []) := by
  cases fuel with
  | zero => exact Or.inr rfl
  | succ fuel => exact Or.inl ⟨_, rfl⟩

theorem block_nil_idle (fuel : Nat) : Idle (block fuel []) := by
  cases fuel with
  | zero => exact Or.inr rfl
  | succ fuel => exact Or.inl ⟨_, rfl⟩

theorem branches_idle (fuel : Nat) {ts : List Token} (h : Blank ts) : Idle (branches fuel ts) := by
  cases fuel with
  | zero => exact Or.inr rfl
  | succ fuel =>
    simp only [branches, skipNewlines_of_blank h]
    exact h

theorem operand_idle (fuel : Nat) (l : Option Level) {ts : List Token} (h : Blank ts) :
    Idle (operand fuel l ts) := by
  induction fuel generalizing l with
  | zero => exact Or.inr rfl
  | succ fuel ih =>
    cases l with
    | none =>
      simp only [operand, skipNewlines_of_blank h]
      exact unary_nil_idle fuel
    | some l =>
      exact (ih l.tighter).bind (fun _ hf => hf) fun left rest hr => chain_idle fuel l left hr

/-- An idle read followed by a step that keeps the tokens is idle. -/
theorem Idle.bind {α β : Type} {x : Except Fault (Read α)} {k : Read α → Except Fault (Read β)}
    (h : Idle x) (hk : ∀ v rest, Blank rest → Idle (k ⟨v, rest⟩)) : Idle (x >>= k) :=
  Ensures.bind h (fun _ hf => hf) hk

theorem not_settled_of_end {α : Type} {xs : List Token} {r : Except Fault (Read α)} (h : Idle r)
    (he : ∀ v, r ≠ .ok v) (hx : xs ≠ []) : ¬ Settled xs r := by
  cases r with
  | ok r => exact absurd rfl (he r)
  | error f =>
    rcases h with ⟨what, rfl⟩ | rfl
    · rintro (hn | hn)
      · exact hx hn
      · exact hn rfl
    · exact id

/-! ## Expressions -/

/-- What every reading function does with `xs` behind its tokens and more fuel. -/
def SeamLaw (xs : List Token) (extra fuel : Nat) : Prop :=
  ∀ (p : Phrase) (ts : List Token),
    Carries xs (p.read fuel ts) (p.read (extra + fuel) (ts ++ xs))

theorem carries_outOfFuel {α : Type} (xs : List Token) (r : Except Fault (Read α)) :
    Carries xs (.error .outOfFuel) r := fun hs => False.elim hs

/-- There is no first token to start with. -/
theorem primary_nil_seam (xs : List Token) (extra fuel : Nat) :
    Carries xs (Phrase.primary.read fuel []) (Phrase.primary.read (extra + fuel) ([] ++ xs)) :=
  carries_end fun hx => by rw [hx]; rfl

theorem seamLaw_zero (xs : List Token) (extra : Nat) : SeamLaw xs extra 0 := by
  intro p ts
  cases p with
  | primary =>
    cases ts with
    | nil => exact primary_nil_seam xs extra 0
    | cons t ts => exact carries_outOfFuel xs _
  | parameters => exact (parameters_firm xs ts).carries
  | _ => exact carries_outOfFuel xs _

section Step

variable {xs : List Token} {extra fuel : Nat} (ih : SeamLaw xs extra fuel)
include ih

theorem unary_skipNewlines_seam (ts : List Token) :
    Carries xs (unary fuel (skipNewlines ts)) (unary (extra + fuel) (skipNewlines (ts ++ xs))) :=
  carries_dropWhile _ ts (ih .unary)
    (not_settled_of_end (unary_nil_idle fuel) (by cases fuel <;> simp [unary]))

theorem moreArguments_skipNewlines_seam (ts : List Token) :
    Carries xs (moreArguments fuel (skipNewlines ts))
      (moreArguments (extra + fuel) (skipNewlines (ts ++ xs))) :=
  carries_dropWhile _ ts (ih .moreArguments)
    (not_settled_of_end (moreArguments_nil_idle fuel) (by cases fuel <;> simp [moreArguments]))

theorem block_skipSeparators_seam (ts : List Token) :
    Carries xs (block fuel (skipSeparators ts))
      (block (extra + fuel) (skipSeparators (ts ++ xs))) :=
  carries_dropWhile _ ts (ih .block)
    (not_settled_of_end (block_nil_idle fuel) (by cases fuel <;> simp [block]))

theorem operand_seam (l : Option Level) (ts : List Token) :
    Carries xs (operand (fuel + 1) l ts) (operand (extra + (fuel + 1)) l (ts ++ xs)) := by
  cases l with
  | none => exact unary_skipNewlines_seam ih ts
  | some l =>
    exact (ih (.operand l.tighter) ts).bind (fun left rest => ih (.chain l left) rest)
      fun left rest hb => chain_idle fuel l left hb

theorem chain_seam (l : Level) (left : Expr) (ts : List Token) :
    Carries xs (chain (fuel + 1) l left ts) (chain (extra + (fuel + 1)) l left (ts ++ xs)) := by
  cases ts with
  | nil =>
    rintro (hs | hb)
    · rcases hs with rfl | ⟨t, us, rfl, ht, -⟩
      · rfl
      · have ho : l.operator? t.kind = none := by rw [ht]; rfl
        show chain (extra + fuel + 1) l left (t :: us) = _
        simp only [chain, ho]
        rfl
    · exact absurd blank_nil hb
  | cons t ts =>
    show Carries xs _ (chain (extra + fuel + 1) l left (t :: (ts ++ xs)))
    simp only [chain]
    split
    · exact carries_of_eq rfl
    · refine (ih (.operand l.right) ts).bind (fun right rest => ih (.chain l _) rest) ?_
      intro right rest hb
      exact chain_idle fuel l _ hb

theorem unary_seam (ts : List Token) :
    Carries xs (unary (fuel + 1) ts) (unary (extra + (fuel + 1)) (ts ++ xs)) := by
  cases ts with
  | nil => exact carries_end fun hx => by rw [hx]; rfl
  | cons t ts =>
    show Carries xs _ (unary (extra + fuel + 1) (t :: (ts ++ xs)))
    simp only [unary]
    split
    · refine (unary_skipNewlines_seam ih ts).bind (fun e rest => carries_of_eq rfl) ?_
      intro e rest hb
      exact hb
    · refine (ih .primary (t :: ts)).bind (fun callee rest => ih (.calls callee) rest) ?_
      intro callee rest hb
      exact calls_idle fuel callee hb

theorem calls_seam (callee : Expr) (ts : List Token) :
    Carries xs (calls (fuel + 1) callee ts)
      (calls (extra + (fuel + 1)) callee (ts ++ xs)) := by
  cases ts with
  | nil =>
    rintro (hs | hb)
    · rcases hs with rfl | ⟨t, us, rfl, ht, -⟩
      · rfl
      · have hp : t.kind ≠ .leftParen := by simp [ht]
        show calls (extra + fuel + 1) callee (t :: us) = _
        simp only [calls, if_neg hp]
        rfl
    · exact absurd blank_nil hb
  | cons t ts =>
    show Carries xs _ (calls (extra + fuel + 1) callee (t :: (ts ++ xs)))
    simp only [calls]
    split
    · have ha : Carries xs (arguments fuel (skipNewlines ts))
          (arguments (extra + fuel) (skipNewlines (ts ++ xs))) :=
        carries_dropWhile _ ts (ih .arguments)
          (not_settled_of_end (arguments_nil_idle fuel) (by cases fuel <;> simp [arguments]))
      refine ha.bind (fun args rest => ih (.calls _) rest) ?_
      intro args rest hb
      exact calls_idle fuel _ hb
    · exact carries_of_eq rfl

theorem arguments_seam (ts : List Token) :
    Carries xs (arguments (fuel + 1) ts) (arguments (extra + (fuel + 1)) (ts ++ xs)) := by
  cases ts with
  | nil => exact carries_end fun hx => by rw [hx]; rfl
  | cons t ts =>
    show Carries xs _ (arguments (extra + fuel + 1) (t :: (ts ++ xs)))
    simp only [arguments]
    split
    · exact carries_of_eq rfl
    · refine (ih (.operand (some .or)) (t :: ts)).bind (fun e rest => ?_) fun e rest hb => ?_
      · exact (moreArguments_skipNewlines_seam ih rest).bind (fun es r => carries_of_eq rfl)
          fun es r hb => hb
      · simp only [skipNewlines_of_blank hb]
        exact (moreArguments_nil_idle fuel).bind fun es r hr => hr

theorem moreArguments_seam (ts : List Token) :
    Carries xs (moreArguments (fuel + 1) ts) (moreArguments (extra + (fuel + 1)) (ts ++ xs)) := by
  cases ts with
  | nil => exact carries_end fun hx => by rw [hx]; rfl
  | cons t ts =>
    show Carries xs _ (moreArguments (extra + fuel + 1) (t :: (ts ++ xs)))
    simp only [moreArguments]
    split
    · refine (ih (.operand (some .or)) ts).bind (fun e rest => ?_) fun e rest hb => ?_
      · exact (moreArguments_skipNewlines_seam ih rest).bind (fun es r => carries_of_eq rfl)
          fun es r hb => hb
      · simp only [skipNewlines_of_blank hb]
        exact (moreArguments_nil_idle fuel).bind fun es r hr => hr
    · split <;> exact carries_of_eq rfl

theorem primary_seam (t : Token) (ts : List Token) :
    Carries xs (primary (fuel + 1) t ts) (primary (extra + (fuel + 1)) t (ts ++ xs)) := by
  show Carries xs _ (primary (extra + fuel + 1) t (ts ++ xs))
  simp only [primary]
  split
  · apply (expect_firm xs .identifier .variableName ts).bind
    intro name r₁
    apply (expect_firm xs .assign .assignment r₁).bind
    intro _ r₂
    refine (ih (.operand (some .or)) r₂).bind (fun items r₃ => ?_) fun items r₃ hb => ?_
    · exact (ih (.operand (some .or)) r₃).bind (fun body r₄ => carries_of_eq rfl)
        fun body r₄ hb => hb
    · exact (operand_idle fuel (some .or) hb).bind fun body r₄ hr => hr
  · refine (ih (.operand (some .or)) ts).bind (fun test r₁ => ?_) fun test r₁ hb => ?_
    · refine (ih (.operand (some .or)) r₁).bind (fun yes r₂ => ?_) fun yes r₂ hb => ?_
      · exact (ih .branches r₂).bind (fun no r₃ => carries_of_eq rfl) fun no r₃ hb => hb
      · exact (branches_idle fuel hb).bind fun no r₃ hr => hr
    · apply (operand_idle fuel (some .or) hb).bind
      intro yes r₂ hr
      exact (branches_idle fuel hr).bind fun no r₃ hr => hr
  · cases ts with
    | nil =>
      rintro (hs | hb)
      · rcases hs with rfl | ⟨u, us, rfl, hu, -⟩
        · rfl
        · have ha : u.kind ≠ .assign := by simp [hu]
          simp only [List.nil_append, if_neg ha]
          rfl
      · exact absurd blank_nil hb
    | cons u us =>
      simp only [List.cons_append]
      split
      · exact (ih (.operand (some .or)) us).bind (fun value r₁ => carries_of_eq rfl)
          fun value r₁ hb => hb
      · exact carries_of_eq rfl
  · exact (block_skipSeparators_seam ih ts).bind (fun body r₁ => carries_of_eq rfl)
      fun body r₁ hb => hb
  · apply (parameters_firm xs ts).bind
    intro params r₁
    exact (ih (.operand (some .or)) r₁).bind (fun body r₂ => carries_of_eq rfl)
      fun body r₂ hb => hb
  · exact carries_of_eq rfl
  · exact carries_of_eq rfl
  · exact carries_of_eq (literal_carries xs t ts).1
  · exact carries_of_eq (literal_carries xs t ts).2.1
  · exact carries_of_eq (literal_carries xs t ts).2.2
  · refine (ih (.operand (some .or)) ts).bind (fun inner r₁ => ?_) fun inner r₁ hb => ?_
    · have he : Carries xs (expect .rightParen .groupEnd (skipNewlines r₁))
          (expect .rightParen .groupEnd (skipNewlines (r₁ ++ xs))) :=
        carries_dropWhile _ r₁ (fun us => (expect_firm xs .rightParen .groupEnd us).carries)
          (not_settled_of_end (Or.inl ⟨_, rfl⟩) (by simp [expect]))
      exact he.bind (fun _ r₂ => carries_of_eq rfl) fun _ r₂ hb => hb
    · simp only [skipNewlines_of_blank hb]
      exact Or.inl ⟨_, rfl⟩
  · exact carries_of_eq rfl

theorem branches_seam (ts : List Token) :
    Carries xs (branches (fuel + 1) ts) (branches (extra + (fuel + 1)) (ts ++ xs)) := by
  show Carries xs _ (branches (extra + fuel + 1) (ts ++ xs))
  simp only [branches]
  cases hd : skipNewlines ts with
  | nil =>
    rintro (hs | hb)
    · rcases hs with rfl | ⟨t, us, rfl, ht, he⟩
      · rw [List.append_nil, hd]
        simp [follow]
      · have hk : skipNewlines (ts ++ t :: us) = skipNewlines us := by
          rw [skipNewlines, List.dropWhile_append, ← skipNewlines, hd]
          simp [skipNewlines, ht]
        rw [hk]
        cases hu : skipNewlines us with
        | nil => rfl
        | cons u vs => simp only [if_neg (he u vs hu), follow]
    · exact absurd (blank_of_skipNewlines hd) hb
  | cons t rest =>
    have hk : skipNewlines (ts ++ xs) = t :: (rest ++ xs) := by
      rw [skipNewlines, List.dropWhile_append, ← skipNewlines, hd]
      rfl
    rw [hk]
    simp only
    split
    · cases rest with
      | nil => exact carries_end fun hx => by simp [hx]
      | cons u us =>
        simp only [List.cons_append]
        split
        · refine (ih (.operand (some .or)) us).bind (fun test r₁ => ?_) fun test r₁ hb => ?_
          · refine (ih (.operand (some .or)) r₁).bind (fun yes r₂ => ?_) fun yes r₂ hb => ?_
            · exact (ih .branches r₂).bind (fun no r₃ => carries_of_eq rfl) fun no r₃ hb => hb
            · exact (branches_idle fuel hb).bind fun no r₃ hr => hr
          · apply (operand_idle fuel (some .or) hb).bind
            intro yes r₂ hr
            exact (branches_idle fuel hr).bind fun no r₃ hr => hr
        · exact (ih (.operand (some .or)) (u :: us)).bind (fun body r₁ => carries_of_eq rfl)
            fun body r₁ hb => hb
    · exact carries_of_eq rfl

theorem block_seam (ts : List Token) :
    Carries xs (block (fuel + 1) ts) (block (extra + (fuel + 1)) (ts ++ xs)) := by
  cases ts with
  | nil => exact carries_end fun hx => by rw [hx]; rfl
  | cons t ts =>
    show Carries xs _ (block (extra + fuel + 1) (t :: (ts ++ xs)))
    simp only [block]
    split
    · exact carries_of_eq rfl
    · refine (ih (.operand (some .or)) (t :: ts)).bind (fun e rest => ?_) fun e rest hb => ?_
      · exact (block_skipSeparators_seam ih rest).bind (fun es r => carries_of_eq rfl)
          fun es r hb => hb
      · simp only [skipSeparators_of_blank hb]
        exact (block_nil_idle fuel).bind fun es r hr => hr

theorem seamLaw_succ : SeamLaw xs extra (fuel + 1) := by
  intro p ts
  cases p with
  | operand l => exact operand_seam ih l ts
  | chain l left => exact chain_seam ih l left ts
  | unary => exact unary_seam ih ts
  | calls callee => exact calls_seam ih callee ts
  | arguments => exact arguments_seam ih ts
  | moreArguments => exact moreArguments_seam ih ts
  | primary =>
    cases ts with
    | nil => exact primary_nil_seam xs extra (fuel + 1)
    | cons t ts => exact primary_seam ih t ts
  | parameters => exact (parameters_firm xs ts).carries
  | branches => exact branches_seam ih ts
  | block => exact block_seam ih ts

end Step

theorem seamLaw (xs : List Token) (extra fuel : Nat) : SeamLaw xs extra fuel := by
  induction fuel with
  | zero => exact seamLaw_zero xs extra
  | succ fuel ih => exact seamLaw_succ ih

end ExprLang.Parser

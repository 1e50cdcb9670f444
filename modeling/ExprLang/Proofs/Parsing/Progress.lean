import ExprLang.Proofs.Parsing.Rules

/-!
# Reading makes progress

What a reading function returns can be derived by the rules, so it leaves a suffix of the tokens it
was given. A fault keeps a suffix too. So sixteen units of fuel for each token, and a few more for
the levels above the first one, are always enough.
-/

namespace ExprLang.Parser

/-! ## Promises of a read -/

/-- What a read promises: `Q` about the value and the tokens after it, or `F` about the fault. -/
def Ensures {α : Type} (Q : α → List Token → Prop) (F : Fault → Prop) :
    Except Fault (Read α) → Prop
  | .ok r => Q r.value r.rest
  | .error f => F f

theorem Ensures.bind {α β : Type} {Q : α → List Token → Prop} {Q' : β → List Token → Prop}
    {F F' : Fault → Prop} {x : Except Fault (Read α)} {k : Read α → Except Fault (Read β)}
    (h : Ensures Q F x) (hf : ∀ f, F f → F' f)
    (hk : ∀ v rest, Q v rest → Ensures Q' F' (k ⟨v, rest⟩)) : Ensures Q' F' (x >>= k) := by
  cases x with
  | error f => exact hf f h
  | ok r => exact hk r.value r.rest h

theorem Ensures.mono {α : Type} {Q Q' : α → List Token → Prop} {F F' : Fault → Prop}
    {x : Except Fault (Read α)} (h : Ensures Q F x) (hq : ∀ v rest, Q v rest → Q' v rest)
    (hf : ∀ f, F f → F' f) : Ensures Q' F' x := by
  cases x with
  | error f => exact hf f h
  | ok r => exact hq _ _ h

/-- The place a fault was found at lies within the tokens that were given, and a token whose text is
at fault is of a kind that has one. -/
def Fault.Within (ts : List Token) : Fault → Prop
  | .unexpected _ left => left <:+ ts
  | .invalidNumber t left => t :: left <:+ ts ∧ (t.kind = .int ∨ t.kind = .float)
  | .malformed t => t ∈ ts ∧ t.kind = .string ∧ t.text? = none
  | .outOfFuel => True

theorem Fault.Within.trans {f : Fault} {us ts : List Token} (h : f.Within us) (hs : us <:+ ts) :
    f.Within ts := by
  cases f with
  | unexpected what left => exact List.IsSuffix.trans h hs
  | invalidNumber t left => exact ⟨h.1.trans hs, h.2⟩
  | malformed t => exact ⟨hs.subset h.1, h.2⟩
  | outOfFuel => trivial

/-- A fault of a read of `ts` that was given `fuel` and needs `need`. -/
def Stuck (fuel need : Nat) (ts : List Token) (f : Fault) : Prop :=
  f.Within ts ∧ (need ≤ fuel → f ≠ .outOfFuel)

theorem Stuck.of_suffix {fuel fuel' need need' : Nat} {us ts : List Token} {f : Fault}
    (h : Stuck fuel need us f) (hs : us <:+ ts) (hn : need' ≤ fuel' → need ≤ fuel) :
    Stuck fuel' need' ts f :=
  ⟨h.1.trans hs, fun hle => h.2 (hn hle)⟩

/-! ## Single tokens -/

theorem expect_ensures (fuel need : Nat) (kind : TokenKind) (what : Expected) (ts : List Token) :
    Ensures (fun t rest => t.kind = kind ∧ ts = t :: rest) (Stuck fuel need ts)
      (expect kind what ts) := by
  cases ts with
  | nil => exact ⟨List.suffix_refl _, fun _ => by simp⟩
  | cons t ts =>
    simp only [expect]
    split
    · exact ⟨by assumption, rfl⟩
    · exact ⟨List.suffix_refl _, fun _ => by simp⟩

theorem parameters_ensures (fuel need : Nat) (ts : List Token) :
    Ensures (Derives .parameters ts) (Stuck fuel need ts) (parameters ts) := by
  induction ts with
  | nil => exact ⟨List.suffix_refl _, fun _ => by simp⟩
  | cons t ts ih =>
    simp only [parameters]
    split
    · exact .parametersEnd (by assumption)
    · split
      · apply ih.bind (fun f hf => hf.of_suffix (List.suffix_cons t ts) id)
        intro names rest h
        exact .parameter (by assumption) h
      · exact ⟨List.suffix_refl _, fun _ => by simp⟩

theorem intLiteral_ensures (fuel need : Nat) {t : Token} (ts : List Token) (hk : t.kind = .int) :
    Ensures (Derives .primary (t :: ts)) (Stuck fuel need (t :: ts)) (intLiteral t ts) := by
  unfold intLiteral
  split
  · rename_i n hn
    exact .literal (by simp [Token.literal?, hk, hn])
  · exact ⟨⟨List.suffix_refl _, .inl hk⟩, fun _ => by simp⟩

theorem floatLiteral_ensures (fuel need : Nat) {t : Token} (ts : List Token)
    (hk : t.kind = .float) :
    Ensures (Derives .primary (t :: ts)) (Stuck fuel need (t :: ts)) (floatLiteral t ts) := by
  unfold floatLiteral
  split
  · rename_i x hx
    exact .literal (by simp [Token.literal?, hk, hx])
  · exact ⟨⟨List.suffix_refl _, .inr hk⟩, fun _ => by simp⟩

theorem stringLiteral_ensures (fuel need : Nat) {t : Token} (ts : List Token)
    (hk : t.kind = .string) :
    Ensures (Derives .primary (t :: ts)) (Stuck fuel need (t :: ts)) (stringLiteral t ts) := by
  unfold stringLiteral
  split
  · rename_i s hs
    exact .literal (by simp [Token.literal?, hk, hs])
  · rename_i ht
    exact ⟨⟨List.mem_cons_self, hk, ht⟩, fun _ => by simp⟩

/-! ## Expressions -/

/-- How many functions are entered before an operand of a level reads its first token. -/
def rank : Option Level → Nat
  | none => 2
  | some .multiplicative => 3
  | some .additive => 4
  | some .range => 5
  | some .comparison => 6
  | some .equality => 7
  | some .and => 8
  | some .or => 9

theorem rank_tighter (l : Level) : rank l.tighter + 1 = rank (some l) := by cases l <;> rfl

theorem rank_pos (l : Option Level) : 0 < rank l := by
  rcases l with _ | l
  · decide
  · cases l <;> decide

theorem rank_le (l : Option Level) : rank l ≤ 9 := by
  rcases l with _ | l
  · decide
  · cases l <;> decide

/-- How much fuel a phrase needs. -/
def Phrase.need (p : Phrase) (ts : List Token) : Nat :=
  match p with
  | .operand l => 16 * ts.length + rank l
  | .arguments | .block => 16 * ts.length + 10
  | .primary => 16 * ts.length - 2
  | .parameters => 0
  | _ => 16 * ts.length + 1

/-- What a reading function promises with some fuel. -/
def Progress (fuel : Nat) : Prop :=
  ∀ (p : Phrase) (ts : List Token),
    Ensures (Derives p ts) (Stuck fuel (p.need ts) ts) (p.read fuel ts)

theorem stuck_outOfFuel (need : Nat) (ts : List Token) (h : 0 < need) :
    Stuck 0 need ts .outOfFuel :=
  ⟨trivial, fun hle => by omega⟩

theorem progress_zero : Progress 0 := by
  intro p ts
  cases p with
  | operand l => exact stuck_outOfFuel _ ts (Nat.lt_add_left _ (rank_pos l))
  | primary =>
    cases ts with
    | nil => exact ⟨List.suffix_refl _, fun _ => by simp⟩
    | cons t ts => exact stuck_outOfFuel _ _ (by simp only [Phrase.need, List.length_cons]; omega)
  | parameters => exact parameters_ensures 0 0 ts
  | _ => cases ts <;> exact stuck_outOfFuel _ _ (Nat.succ_pos _)

section Step

variable {fuel : Nat} (ih : Progress fuel)
include ih

theorem operand_progress (l : Option Level) (ts : List Token) :
    Ensures (Derives (.operand l) ts) (Stuck (fuel + 1) (16 * ts.length + rank l) ts)
      (operand (fuel + 1) l ts) := by
  cases l with
  | none =>
    simp only [operand]
    have hs := skipNewlines_suffix ts
    have hl := hs.length_le
    apply (ih .unary (skipNewlines ts)).mono (fun _ _ => .unaryOperand)
    intro f hf
    exact hf.of_suffix hs (by simp only [Phrase.need, rank]; omega)
  | some l =>
    simp only [operand]
    have hr := rank_tighter l
    apply (ih (.operand l.tighter) ts).bind
      (fun f hf => hf.of_suffix (List.suffix_refl ts) (by simp only [Phrase.need]; omega))
    intro left rest h
    have hl := h.leaves.2
    apply (ih (.chain l left) rest).mono (fun _ _ => .level h)
    intro f hf
    exact hf.of_suffix h.suffix (by simp only [Phrase.need]; omega)

theorem chain_progress (l : Level) (left : Expr) (ts : List Token) :
    Ensures (Derives (.chain l left) ts) (Stuck (fuel + 1) (16 * ts.length + 1) ts)
      (chain (fuel + 1) l left ts) := by
  cases ts with
  | nil => exact .chainEnd (by simp)
  | cons t ts =>
    simp only [chain]
    have hs := List.suffix_cons t ts
    have hr := rank_le l.right
    split
    · exact .chainEnd (by simpa)
    · rename_i op hop
      apply (ih (.operand l.right) ts).bind
        (fun f hf => hf.of_suffix hs (by simp only [Phrase.need, List.length_cons]; omega))
      intro right rest h
      have hl := h.leaves.2
      apply (ih (.chain l (.binary left op t.lexeme t.line right)) rest).mono
        (fun _ _ => .operator hop h)
      intro f hf
      exact hf.of_suffix (h.suffix.trans hs) (by simp only [Phrase.need, List.length_cons]; omega)

theorem unary_progress (ts : List Token) :
    Ensures (Derives .unary ts) (Stuck (fuel + 1) (16 * ts.length + 1) ts)
      (unary (fuel + 1) ts) := by
  cases ts with
  | nil => exact ⟨List.suffix_refl _, fun _ => by simp⟩
  | cons t ts =>
    simp only [unary]
    split
    · rename_i op hop
      have hs := (skipNewlines_suffix ts).trans (List.suffix_cons t ts)
      have hl := (skipNewlines_suffix ts).length_le
      apply (ih .unary (skipNewlines ts)).bind
        (fun f hf => hf.of_suffix hs (by simp only [Phrase.need, List.length_cons]; omega))
      intro e rest h
      exact .sign hop h
    · rename_i hop
      apply (ih .primary (t :: ts)).bind
        (fun f hf => hf.of_suffix (List.suffix_refl _)
          (by simp only [Phrase.need, List.length_cons]; omega))
      intro callee rest h
      have hl := h.leaves.2
      apply (ih (.calls callee) rest).mono (fun _ _ => .unsigned hop h)
      intro f hf
      exact hf.of_suffix h.suffix (by simp only [Phrase.need]; omega)

theorem calls_progress (callee : Expr) (ts : List Token) :
    Ensures (Derives (.calls callee) ts) (Stuck (fuel + 1) (16 * ts.length + 1) ts)
      (calls (fuel + 1) callee ts) := by
  cases ts with
  | nil => exact .callsEnd (by simp)
  | cons t ts =>
    simp only [calls]
    have hs := (skipNewlines_suffix ts).trans (List.suffix_cons t ts)
    have hl := (skipNewlines_suffix ts).length_le
    split
    · rename_i ht
      apply (ih .arguments (skipNewlines ts)).bind
        (fun f hf => hf.of_suffix hs (by simp only [Phrase.need, List.length_cons]; omega))
      intro args rest h
      have hr := h.leaves.2
      apply (ih (.calls (.call callee t.line args)) rest).mono (fun _ _ => .call ht h)
      intro f hf
      exact hf.of_suffix (h.suffix.trans hs) (by simp only [Phrase.need, List.length_cons]; omega)
    · exact .callsEnd (by simpa)

theorem arguments_progress (ts : List Token) :
    Ensures (Derives .arguments ts) (Stuck (fuel + 1) (16 * ts.length + 10) ts)
      (arguments (fuel + 1) ts) := by
  cases ts with
  | nil => exact ⟨List.suffix_refl _, fun _ => by simp⟩
  | cons t ts =>
    simp only [arguments]
    split
    · exact .noArguments (by assumption)
    · rename_i ht
      apply (ih (.operand (some .or)) (t :: ts)).bind
        (fun f hf => hf.of_suffix (List.suffix_refl _) (by simp only [Phrase.need, rank]; omega))
      intro e rest h
      have hs := (skipNewlines_suffix rest).trans h.suffix
      have hl := (skipNewlines_suffix rest).length_le
      have hr := h.leaves.2
      apply (ih .moreArguments (skipNewlines rest)).bind
        (fun f hf => hf.of_suffix hs (by simp only [Phrase.need]; omega))
      intro es rest' h'
      exact .firstArgument ht h h'

theorem moreArguments_progress (ts : List Token) :
    Ensures (Derives .moreArguments ts) (Stuck (fuel + 1) (16 * ts.length + 1) ts)
      (moreArguments (fuel + 1) ts) := by
  cases ts with
  | nil => exact ⟨List.suffix_refl _, fun _ => by simp⟩
  | cons t ts =>
    simp only [moreArguments]
    have ht := List.suffix_cons t ts
    split
    · rename_i hcomma
      apply (ih (.operand (some .or)) ts).bind
        (fun f hf => hf.of_suffix ht (by simp only [Phrase.need, rank, List.length_cons]; omega))
      intro e rest h
      have hs := ((skipNewlines_suffix rest).trans h.suffix).trans ht
      have hl := (skipNewlines_suffix rest).length_le
      have hr := h.leaves.2
      apply (ih .moreArguments (skipNewlines rest)).bind
        (fun f hf => hf.of_suffix hs (by simp only [Phrase.need, List.length_cons]; omega))
      intro es rest' h'
      exact .nextArgument hcomma h h'
    · split
      · exact .argumentsEnd (by assumption)
      · exact ⟨List.suffix_refl _, fun _ => by simp⟩

/-- An expression read behind the first token of a construct. -/
theorem operand_progress_behind (t : Token) {us ts : List Token} (hs : us <:+ ts) :
    Ensures (Derives (.operand (some .or)) us)
      (Stuck (fuel + 1) (16 * ts.length + 14) (t :: ts)) (operand fuel (some .or) us) := by
  have hl := hs.length_le
  apply (ih (.operand (some .or)) us).mono (fun _ _ h => h)
  intro f hf
  exact hf.of_suffix (hs.trans (List.suffix_cons t ts)) (by simp only [Phrase.need, rank]; omega)

theorem primary_progress (t : Token) (ts : List Token) :
    Ensures (Derives .primary (t :: ts))
      (Stuck (fuel + 1) (16 * ts.length + 14) (t :: ts)) (primary (fuel + 1) t ts) := by
  have ht := List.suffix_cons t ts
  have hmono : ∀ f, Stuck (fuel + 1) (16 * ts.length + 14) (t :: ts) f →
      Stuck (fuel + 1) (16 * ts.length + 14) (t :: ts) f := fun _ h => h
  simp only [primary]
  split
  · rename_i hk
    apply (expect_ensures (fuel + 1) (16 * ts.length + 14) .identifier .variableName ts).bind
      (fun f hf => hf.of_suffix ht id)
    rintro name r₁ ⟨hname, rfl⟩
    have s₁ := List.suffix_cons name r₁
    apply (expect_ensures (fuel + 1) _ .assign .assignment r₁).bind
      (fun f hf => hf.of_suffix (s₁.trans ht) id)
    rintro sign r₂ ⟨hsign, rfl⟩
    have s₂ := (List.suffix_cons sign r₂).trans s₁
    apply (operand_progress_behind ih t s₂).bind hmono
    intro items r₃ hitems
    apply (operand_progress_behind ih t (hitems.suffix.trans s₂)).bind hmono
    intro body r₄ hbody
    exact .loop hk hname hsign hitems hbody
  · rename_i hk
    apply (operand_progress_behind ih t (List.suffix_refl ts)).bind hmono
    intro test r₁ htest
    apply (operand_progress_behind ih t htest.suffix).bind hmono
    intro yes r₂ hyes
    have s₂ := hyes.suffix.trans htest.suffix
    have l₁ := htest.leaves.2
    have l₂ := hyes.leaves.2
    apply (ih .branches r₂).bind
      (fun f hf => hf.of_suffix (s₂.trans ht) (by simp only [Phrase.need]; omega))
    intro no r₃ hno
    exact .conditional hk htest hyes hno
  · rename_i hk
    split
    · exact .reference hk (by simp)
    · rename_i u us
      split
      · rename_i hu
        apply (operand_progress_behind ih t (List.suffix_cons u us)).bind hmono
        intro value r₁ h
        exact .assignment hk hu h
      · exact .reference hk (by simpa)
  · rename_i hk
    have hs := skipSeparators_suffix ts
    have hl := hs.length_le
    apply (ih .block (skipSeparators ts)).bind
      (fun f hf => hf.of_suffix (hs.trans ht) (by simp only [Phrase.need]; omega))
    intro body r₁ h
    exact .braces hk h
  · rename_i hk
    apply (parameters_ensures (fuel + 1) (16 * ts.length + 14) ts).bind
      (fun f hf => hf.of_suffix ht id)
    intro params r₁ hparams
    apply (operand_progress_behind ih t hparams.suffix).bind hmono
    intro body r₂ hbody
    exact .function hk hparams hbody
  · exact .literal (by simp [Token.literal?, *])
  · exact .literal (by simp [Token.literal?, *])
  · exact intLiteral_ensures _ _ ts (by assumption)
  · exact floatLiteral_ensures _ _ ts (by assumption)
  · exact stringLiteral_ensures _ _ ts (by assumption)
  · rename_i hk
    apply (operand_progress_behind ih t (List.suffix_refl ts)).bind hmono
    intro inner r₁ h
    have hs := (skipNewlines_suffix r₁).trans h.suffix
    apply (expect_ensures (fuel + 1) (16 * ts.length + 14) .rightParen .groupEnd
      (skipNewlines r₁)).bind (fun f hf => hf.of_suffix (hs.trans ht) id)
    rintro close r₂ ⟨hclose, hrest⟩
    exact .grouping hk h hclose hrest
  · exact ⟨List.suffix_refl _, fun _ => by simp⟩

theorem branches_progress (ts : List Token) :
    Ensures (Derives .branches ts) (Stuck (fuel + 1) (16 * ts.length + 1) ts)
      (branches (fuel + 1) ts) := by
  have hs := skipNewlines_suffix ts
  have hl := hs.length_le
  simp only [branches]
  split
  · rename_i hts
    exact .noElse (by simp [hts])
  · rename_i t rest hts
    rw [hts] at hs hl
    split
    · rename_i ht
      have hr := (List.suffix_cons t rest).trans hs
      split
      · exact ⟨List.nil_suffix, fun _ => by simp⟩
      · rename_i u us
        simp only [List.length_cons] at hl
        split
        · rename_i hif
          have hu := (List.suffix_cons u us).trans hr
          apply (ih (.operand (some .or)) us).bind
            (fun f hf => hf.of_suffix hu (by simp only [Phrase.need, rank]; omega))
          intro test r₁ htest
          have l₁ := htest.leaves.2
          apply (ih (.operand (some .or)) r₁).bind (fun f hf =>
            hf.of_suffix (htest.suffix.trans hu) (by simp only [Phrase.need, rank]; omega))
          intro yes r₂ hyes
          have l₂ := hyes.leaves.2
          have s₂ := (hyes.suffix.trans htest.suffix).trans hu
          apply (ih .branches r₂).bind
            (fun f hf => hf.of_suffix s₂ (by simp only [Phrase.need]; omega))
          intro no r₃ hno
          exact .elseIf hts ht hif htest hyes hno
        · rename_i hif
          apply (ih (.operand (some .or)) (u :: us)).bind (fun f hf =>
            hf.of_suffix hr (by simp only [Phrase.need, rank, List.length_cons]; omega))
          intro body r₁ hbody
          exact .otherwise hts ht (by simpa) hbody
    · exact .noElse (by simpa [hts])

theorem block_progress (ts : List Token) :
    Ensures (Derives .block ts) (Stuck (fuel + 1) (16 * ts.length + 10) ts)
      (block (fuel + 1) ts) := by
  cases ts with
  | nil => exact ⟨List.suffix_refl _, fun _ => by simp⟩
  | cons t ts =>
    simp only [block]
    split
    · exact .blockEnd (by assumption)
    · rename_i ht
      apply (ih (.operand (some .or)) (t :: ts)).bind
        (fun f hf => hf.of_suffix (List.suffix_refl _) (by simp only [Phrase.need, rank]; omega))
      intro e rest h
      have hs := (skipSeparators_suffix rest).trans h.suffix
      have hl := (skipSeparators_suffix rest).length_le
      have hr := h.leaves.2
      apply (ih .block (skipSeparators rest)).bind
        (fun f hf => hf.of_suffix hs (by simp only [Phrase.need]; omega))
      intro es rest' h'
      exact .statement ht h h'

theorem progress_succ : Progress (fuel + 1) := by
  intro p ts
  cases p with
  | operand l => exact operand_progress ih l ts
  | chain l left => exact chain_progress ih l left ts
  | unary => exact unary_progress ih ts
  | calls callee => exact calls_progress ih callee ts
  | arguments => exact arguments_progress ih ts
  | moreArguments => exact moreArguments_progress ih ts
  | primary =>
    cases ts with
    | nil => exact ⟨List.suffix_refl _, fun _ => by simp⟩
    | cons t ts => exact primary_progress ih t ts
  | parameters => exact parameters_ensures _ 0 ts
  | branches => exact branches_progress ih ts
  | block => exact block_progress ih ts

end Step

theorem progress (fuel : Nat) : Progress fuel := by
  induction fuel with
  | zero => exact progress_zero
  | succ fuel ih => exact progress_succ ih

/-! ## Answers -/

theorem derives_of_read (p : Phrase) (fuel : Nat) (ts : List Token) {v : p.Value}
    {rest : List Token} (h : p.read fuel ts = .ok ⟨v, rest⟩) : Derives p ts v rest := by
  have hp := progress fuel p ts
  rwa [h] at hp

theorem derives_of_statement {ts rest : List Token} {e : Expr}
    (h : statement ts = .ok ⟨e, rest⟩) : Derives (.operand (some .or)) ts e rest :=
  derives_of_read (.operand (some .or)) (fuelFor ts) ts h

end ExprLang.Parser

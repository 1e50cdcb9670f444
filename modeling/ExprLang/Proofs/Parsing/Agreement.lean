import ExprLang.Proofs.Parsing.Places

/-!
# The cursor reads as from a list

At every place the cursor reads the expression that the parser on lists reads there. The proof
goes by the fuel, with one lemma for each reading function.
-/

namespace ExprLang.Cursor

open ExprLang.Parser (Fault Read Ensures Shorter progress rank rank_tighter)

/-! ## Literals and names -/

section Leaves

variable {i : Input} {extra ts : List Token} {t : Token}

theorem agrees_number_int (hs : t :: ts <:+ i.body) (ht : t.kind = .int) :
    Agrees i ts (number (i.tokens extra)) (Parser.intLiteral t ts) := by
  refine (gives_previous hs).andThen ?_
  simp only [ht, reduceCtorEq, ↓reduceIte, Parser.intLiteral]
  cases Number.readInt? t.lexeme with
  | none => exact fun _ _ => rfl
  | some n => exact agrees_pure _

theorem agrees_number_float (hs : t :: ts <:+ i.body) (ht : t.kind = .float) :
    Agrees i ts (number (i.tokens extra)) (Parser.floatLiteral t ts) := by
  refine (gives_previous hs).andThen ?_
  simp only [ht, ↓reduceIte, Parser.floatLiteral]
  cases Number.readFloat? t.lexeme with
  | none => exact fun _ _ => rfl
  | some x => exact agrees_pure _

theorem agrees_string (hs : t :: ts <:+ i.body) :
    Agrees i ts (string (i.tokens extra)) (Parser.stringLiteral t ts) := by
  refine (gives_previous hs).andThen ?_
  simp only [Parser.stringLiteral]
  cases t.text? with
  | none => exact fun _ _ => rfl
  | some s => exact agrees_pure _

theorem gives_seesAssignment_other (hs : ts <:+ i.body)
    (h : ∀ t ∈ ts.head?, t.kind ≠ .identifier) :
    Gives i ts (seesAssignment (i.tokens extra)) false ts :=
  (gives_sees_other hs h).bind (gives_pure false)

theorem gives_seesAssignment (hs : t :: ts <:+ i.body) (ht : t.kind = .identifier) :
    Gives i (t :: ts) (seesAssignment (i.tokens extra))
      ((ts.head?.getD i.stop).kind == .assign) (t :: ts) :=
  (gives_sees_kind hs ht).bind ((gives_peekAt [t] hs).bind (gives_pure _))

end Leaves

/-! ## Choices -/

section Choices

variable {β : Type} {i : Input} {extra ts : List Token} {t : Token} {k : Bool → Action β}
  {r : Except Fault (Read β)} {kind : TokenKind}

theorem agrees_accept_nil :
    Agrees i [] (accept (i.tokens extra) kind >>= k) r ↔ Agrees i [] (k false) r :=
  (gives_accept_other List.nil_suffix (by simp)).agrees_iff

theorem agrees_accept_cons (hs : t :: ts <:+ i.body) :
    Agrees i (t :: ts) (accept (i.tokens extra) kind >>= k) r ↔
      if t.kind = kind then Agrees i ts (k true) r else Agrees i (t :: ts) (k false) r := by
  split
  · exact (gives_accept hs (by assumption)).agrees_iff
  · exact (gives_accept_other hs (by simpa)).agrees_iff

theorem agrees_seesAssignment_nil :
    Agrees i [] (seesAssignment (i.tokens extra) >>= k) r ↔ Agrees i [] (k false) r :=
  (gives_seesAssignment_other List.nil_suffix (by simp)).agrees_iff

theorem agrees_seesAssignment_cons (hs : t :: ts <:+ i.body) :
    Agrees i (t :: ts) (seesAssignment (i.tokens extra) >>= k) r ↔
      if t.kind = .identifier ∧ (ts.head?.getD i.stop).kind = .assign then
        Agrees i (t :: ts) (k true) r
      else Agrees i (t :: ts) (k false) r := by
  by_cases ht : t.kind = .identifier
  · rw [(gives_seesAssignment hs ht).agrees_iff]
    by_cases hu : (ts.head?.getD i.stop).kind = .assign
    · simp [ht, hu]
    · rw [if_neg (fun h => hu h.2), beq_eq_false_iff_ne.mpr hu]
  · rw [(gives_seesAssignment_other hs (by simpa)).agrees_iff]
    simp [ht]

end Choices

/-! ## Expressions -/

section AtEnd

variable {i : Input} {extra : List Token}

theorem agrees_primary_nil {fuel : Nat} (hf : 0 < fuel) :
    Agrees i [] (primary (i.tokens extra) fuel) (.error (.unexpected .expression [])) := by
  obtain ⟨fuel, rfl⟩ : ∃ n, fuel = n + 1 := ⟨fuel - 1, by omega⟩
  simp only [primary, agrees_accept_nil, agrees_seesAssignment_nil, Bool.false_eq_true,
    ↓reduceIte]
  exact agrees_fail List.nil_suffix .expression

/-- Where an expression is due at the end, the error is found at the bottom of the levels. -/
theorem agrees_operand_nil {l : Option Level} {fuel : Nat} (hf : rank l < fuel) :
    Agrees i [] (operand (i.tokens extra) fuel l) (.error (.unexpected .expression [])) := by
  induction fuel generalizing l with
  | zero => omega
  | succ fuel ih =>
    cases l with
    | none =>
      simp only [rank] at hf
      obtain ⟨fuel, rfl⟩ : ∃ n, fuel = n + 1 := ⟨fuel - 1, by omega⟩
      simp only [operand, unary]
      refine (gives_skipNewlines List.nil_suffix).andThen ?_
      refine (gives_acceptAs_none List.nil_suffix (by simp)).andThen ?_
      exact (agrees_primary_nil (by omega)).error_bind
    | some l =>
      have hr := rank_tighter l
      simp only [operand]
      exact (ih (by omega)).error_bind

end AtEnd

/-- The cursor with `n` units of fuel does what the parser on lists does with `fuel` units. -/
structure Agreement (i : Input) (extra : List Token) (n fuel : Nat) : Prop where
  operand : ∀ l ts, ts <:+ i.body →
    Agrees i ts (operand (i.tokens extra) n l) (Parser.operand fuel l ts)
  chain : ∀ l left ts, ts <:+ i.body →
    Agrees i ts (chain (i.tokens extra) n l left) (Parser.chain fuel l left ts)
  unary : ∀ ts, ts <:+ i.body →
    Agrees i ts (unary (i.tokens extra) n) (Parser.unary fuel (Parser.skipNewlines ts))
  calls : ∀ callee ts, ts <:+ i.body →
    Agrees i ts (calls (i.tokens extra) n callee) (Parser.calls fuel callee ts)
  arguments : ∀ ts, ts <:+ i.body → Agrees i ts (arguments (i.tokens extra) n)
    (Parser.arguments fuel (Parser.skipNewlines ts))
  moreArguments : ∀ ts, ts <:+ i.body → Agrees i ts (moreArguments (i.tokens extra) n)
    (Parser.moreArguments fuel (Parser.skipNewlines ts))
  primary : ∀ t ts, t :: ts <:+ i.body →
    Agrees i (t :: ts) (primary (i.tokens extra) n) (Parser.primary fuel t ts)
  branches : ∀ ts, ts <:+ i.body →
    Agrees i ts (branches (i.tokens extra) n) (Parser.branches fuel ts)
  block : ∀ ts, ts <:+ i.body →
    Agrees i ts (block (i.tokens extra) n) (Parser.block fuel ts)

theorem agrees_outOfFuel {α : Type} {i : Input} {ts : List Token} {x : Action α} :
    Agrees i ts x (.error .outOfFuel) := fun h => absurd rfl h

theorem agreement_zero (i : Input) (extra : List Token) (n : Nat) : Agreement i extra n 0 where
  operand l ts _ := agrees_outOfFuel
  chain l left ts _ := by cases ts <;> exact agrees_outOfFuel
  unary ts _ := by cases Parser.skipNewlines ts <;> exact agrees_outOfFuel
  calls callee ts _ := by cases ts <;> exact agrees_outOfFuel
  arguments ts _ := by cases Parser.skipNewlines ts <;> exact agrees_outOfFuel
  moreArguments ts _ := by cases Parser.skipNewlines ts <;> exact agrees_outOfFuel
  primary t ts _ := agrees_outOfFuel
  branches ts _ := agrees_outOfFuel
  block ts _ := by cases ts <;> exact agrees_outOfFuel

section Step

variable {i : Input} {extra : List Token} {n fuel : Nat} (ih : Agreement i extra n fuel)
include ih

theorem operand_agrees {l : Option Level} {ts : List Token} (hs : ts <:+ i.body) :
    Agrees i ts (operand (i.tokens extra) (n + 1) l) (Parser.operand (fuel + 1) l ts) := by
  cases l with
  | none =>
    simp only [operand, Parser.operand]
    exact ih.unary ts hs
  | some l =>
    simp only [operand, Parser.operand]
    apply (ih.operand l.tighter ts hs).bind (progress fuel (.operand l.tighter) ts)
    intro left rest h
    exact ih.chain l left rest (h.suffix.trans hs)

theorem chain_agrees {l : Level} {left : Expr} {ts : List Token} (hs : ts <:+ i.body) :
    Agrees i ts (chain (i.tokens extra) (n + 1) l left)
      (Parser.chain (fuel + 1) l left ts) := by
  simp only [chain]
  refine (gives_position i ts).andThen ?_
  cases ts with
  | nil => exact (gives_acceptAs_none hs (by simp)).andThen (agrees_pure left)
  | cons t ts =>
    have hts := (List.suffix_cons t ts).trans hs
    simp only [Parser.chain]
    cases hop : l.operator? t.kind with
    | none => exact (gives_acceptAs_none hs (by simpa)).andThen (agrees_pure left)
    | some op =>
      refine (gives_acceptAs hs hop).andThen ((gives_previous hs).andThen ?_)
      apply (ih.operand l.right ts hts).bind (progress fuel (.operand l.right) ts)
      intro right rest h
      refine (gives_progressed hs (Parser.shorter_cons t h.suffix)).andThen ?_
      exact ih.chain l _ rest (h.suffix.trans hts)

theorem unary_agrees (hn : 9 < n) {ts : List Token} (hs : ts <:+ i.body) :
    Agrees i ts (unary (i.tokens extra) (n + 1))
      (Parser.unary (fuel + 1) (Parser.skipNewlines ts)) := by
  simp only [unary]
  refine (gives_skipNewlines hs).andThen ?_
  have hs := (Parser.skipNewlines_suffix ts).trans hs
  cases hd : Parser.skipNewlines ts with
  | nil =>
    rw [hd] at hs
    refine (gives_acceptAs_none hs (by simp)).andThen ?_
    exact (agrees_primary_nil (by omega)).error_bind
  | cons t ts =>
    rw [hd] at hs
    have hts := (List.suffix_cons t ts).trans hs
    simp only [Parser.unary]
    cases hop : UnaryOp.ofKind? t.kind with
    | some op =>
      refine (gives_acceptAs hs hop).andThen ((gives_previous hs).andThen ?_)
      apply (ih.unary ts hts).bind (progress fuel .unary (Parser.skipNewlines ts))
      intro e rest _
      exact agrees_pure _
    | none =>
      refine (gives_acceptAs_none hs (by simpa)).andThen ?_
      apply (ih.primary t ts hs).bind (progress fuel .primary (t :: ts))
      intro callee rest h
      exact ih.calls callee rest (h.suffix.trans hs)

theorem calls_agrees {callee : Expr} {ts : List Token} (hs : ts <:+ i.body) :
    Agrees i ts (calls (i.tokens extra) (n + 1) callee)
      (Parser.calls (fuel + 1) callee ts) := by
  simp only [calls]
  refine (gives_position i ts).andThen ?_
  cases ts with
  | nil => exact (gives_accept_other hs (by simp)).andThen (agrees_pure callee)
  | cons t ts =>
    have hts := (List.suffix_cons t ts).trans hs
    simp only [Parser.calls, agrees_accept_cons hs]
    split
    · refine (gives_previous hs).andThen ?_
      apply (ih.arguments ts hts).bind (progress fuel .arguments (Parser.skipNewlines ts))
      intro args rest h
      have hrest := h.suffix.trans (Parser.skipNewlines_suffix ts)
      refine (gives_progressed hs (Parser.shorter_cons t hrest)).andThen ?_
      exact ih.calls _ rest (hrest.trans hts)
    · exact agrees_pure callee

theorem arguments_agrees (hn : 9 < n) {ts : List Token} (hs : ts <:+ i.body) :
    Agrees i ts (arguments (i.tokens extra) (n + 1))
      (Parser.arguments (fuel + 1) (Parser.skipNewlines ts)) := by
  simp only [arguments]
  refine (gives_skipNewlines hs).andThen ?_
  have hs := (Parser.skipNewlines_suffix ts).trans hs
  cases hd : Parser.skipNewlines ts with
  | nil =>
    rw [hd] at hs
    refine (gives_sees_other hs (by simp)).andThen ?_
    exact (agrees_operand_nil hn).error_bind
  | cons t ts =>
    rw [hd] at hs
    simp only [Parser.arguments]
    split
    · rename_i ht
      refine (gives_sees_kind hs ht).andThen ?_
      exact (gives_expect .argumentsEnd hs ht).andThen (agrees_pure [])
    · refine (gives_sees_other hs (by simpa)).andThen ?_
      apply (ih.operand (some .or) _ hs).bind (progress fuel (.operand (some .or)) (t :: ts))
      intro e rest h
      apply (ih.moreArguments rest (h.suffix.trans hs)).bind
        (progress fuel .moreArguments (Parser.skipNewlines rest))
      intro es rest _
      exact agrees_pure _

theorem moreArguments_agrees {ts : List Token} (hs : ts <:+ i.body) :
    Agrees i ts (moreArguments (i.tokens extra) (n + 1))
      (Parser.moreArguments (fuel + 1) (Parser.skipNewlines ts)) := by
  simp only [moreArguments]
  refine (gives_skipNewlines hs).andThen ?_
  have hs := (Parser.skipNewlines_suffix ts).trans hs
  refine (gives_position i _).andThen ?_
  cases hd : Parser.skipNewlines ts with
  | nil =>
    rw [hd] at hs
    refine (gives_accept_other hs (by simp)).andThen ?_
    exact (agrees_expect_other .argumentsEnd hs (by simp)).error_bind
  | cons t ts =>
    rw [hd] at hs
    have hts := (List.suffix_cons t ts).trans hs
    simp only [Parser.moreArguments, agrees_accept_cons hs]
    split
    · apply (ih.operand (some .or) ts hts).bind (progress fuel (.operand (some .or)) ts)
      intro e rest h
      refine (gives_progressed hs (Parser.shorter_cons t h.suffix)).andThen ?_
      apply (ih.moreArguments rest (h.suffix.trans hts)).bind
        (progress fuel .moreArguments (Parser.skipNewlines rest))
      intro es rest _
      exact agrees_pure _
    · by_cases ht : t.kind = .rightParen
      · rw [if_pos ht]
        exact (gives_expect .argumentsEnd hs ht).andThen (agrees_pure [])
      · rw [if_neg ht]
        exact (agrees_expect_other .argumentsEnd hs (by simpa)).error_bind

theorem primary_agrees {t : Token} {ts : List Token} (hs : t :: ts <:+ i.body) :
    Agrees i (t :: ts) (primary (i.tokens extra) (n + 1)) (Parser.primary (fuel + 1) t ts) := by
  have hts := (List.suffix_cons t ts).trans hs
  have hexpr := progress fuel (.operand (some .or))
  rw [primary]
  simp only [Parser.primary]
  split
  case h_12 =>
    simp only [imp_false] at *
    simp only [agrees_accept_cons hs, agrees_seesAssignment_cons hs, *, false_and,
      Bool.false_eq_true, ↓reduceIte]
    exact agrees_fail hs .expression
  -- The choices before that of the token's own kind fail.
  all_goals
    rename_i ht
    simp only [agrees_accept_cons hs, agrees_seesAssignment_cons hs, ht, reduceCtorEq, false_and,
      true_and, Bool.false_eq_true, ↓reduceIte]
  · refine (gives_previous hs).andThen ?_
    apply (agrees_expect .identifier .variableName hts).bind (Parser.expect_ensures 0 0 _ _ ts)
    rintro name r₁ ⟨-, rfl⟩
    have s₁ := (List.suffix_cons name r₁).trans hts
    apply (agrees_expect .assign .assignment s₁).bind (Parser.expect_ensures 0 0 _ _ r₁)
    rintro sign r₂ ⟨-, rfl⟩
    have s₂ := (List.suffix_cons sign r₂).trans s₁
    apply (ih.operand (some .or) r₂ s₂).bind (hexpr r₂)
    intro items r₃ h₃
    have s₃ := h₃.suffix.trans s₂
    apply (ih.operand (some .or) r₃ s₃).bind (hexpr r₃)
    intro body r₄ _
    exact agrees_pure _
  · refine (gives_previous hs).andThen ?_
    apply (ih.operand (some .or) ts hts).bind (hexpr ts)
    intro test r₁ h₁
    have s₁ := h₁.suffix.trans hts
    apply (ih.operand (some .or) r₁ s₁).bind (hexpr r₁)
    intro yes r₂ h₂
    apply (ih.branches r₂ (h₂.suffix.trans s₁)).bind (progress fuel .branches r₂)
    intro no r₃ _
    exact agrees_pure _
  · cases ts with
    | nil =>
      simp only [List.head?_nil, Option.getD_none, i.stop_kind, reduceCtorEq, ↓reduceIte]
      exact (gives_previous hs).andThen (agrees_pure _)
    | cons u us =>
      simp only [List.head?_cons, Option.getD_some]
      split
      · refine (gives_advance hs).andThen ((gives_advance hts).andThen ?_)
        have hus := (List.suffix_cons u us).trans hts
        apply (ih.operand (some .or) us hus).bind (hexpr us)
        intro value r₁ _
        exact agrees_pure _
      · exact (gives_previous hs).andThen (agrees_pure _)
  · refine (gives_previous hs).andThen ((gives_skipSeparators hts).andThen ?_)
    have hskip := (Parser.skipSeparators_suffix ts).trans hts
    apply (ih.block (Parser.skipSeparators ts) hskip).bind (progress fuel .block _)
    intro body r₁ _
    exact agrees_pure _
  · refine (gives_previous hs).andThen ?_
    apply (agrees_parameters hts (lt_rounds hts.length_le)).bind (Parser.parameters_ensures 0 0 ts)
    intro params r₁ h₁
    apply (ih.operand (some .or) r₁ (h₁.suffix.trans hts)).bind (hexpr r₁)
    intro body r₂ _
    exact agrees_pure _
  · exact agrees_pure _
  · exact agrees_pure _
  · exact agrees_number_int hs ht
  · exact agrees_number_float hs ht
  · exact agrees_string hs
  · apply (ih.operand (some .or) ts hts).bind (hexpr ts)
    intro inner r₁ h₁
    have s₁ := h₁.suffix.trans hts
    have hskip := (Parser.skipNewlines_suffix r₁).trans s₁
    refine (gives_skipNewlines s₁).andThen ?_
    apply (agrees_expect .rightParen .groupEnd hskip).bind (Parser.expect_ensures 0 0 _ _ _)
    intro _ r₂ _
    exact agrees_pure _

theorem branches_agrees (hn : 9 < n) {ts : List Token} (hs : ts <:+ i.body) :
    Agrees i ts (branches (i.tokens extra) (n + 1)) (Parser.branches (fuel + 1) ts) := by
  have hexpr := progress fuel (.operand (some .or))
  simp only [branches, Parser.branches]
  refine (gives_position i ts).andThen ?_
  cases hd : Parser.skipNewlines ts with
  | nil =>
    exact (gives_acceptAfterNewlines_other hs (by simp [hd, i.stop_kind])).andThen (agrees_pure _)
  | cons t rest =>
    have hcons : t :: rest <:+ ts := hd ▸ Parser.skipNewlines_suffix ts
    have hrest := (List.suffix_cons t rest).trans (hcons.trans hs)
    by_cases helse : t.kind = .elseWord
    · simp only [helse, ↓reduceIte]
      refine (gives_acceptAfterNewlines hs hd helse).andThen ?_
      cases rest with
      | nil =>
        refine (gives_accept_other hrest (by simp)).andThen ?_
        exact (agrees_operand_nil hn).error_bind
      | cons u us =>
        have hus := (List.suffix_cons u us).trans hrest
        simp only [↓reduceIte, agrees_accept_cons hrest]
        split
        · apply (ih.operand (some .or) us hus).bind (hexpr us)
          intro test r₁ h₁
          apply (ih.operand (some .or) r₁ (h₁.suffix.trans hus)).bind (hexpr r₁)
          intro yes r₂ h₂
          have s₂ := h₂.suffix.trans h₁.suffix
          have hshort := (Parser.shorter_cons t (s₂.trans (List.suffix_cons u us))).of_suffix hcons
          refine (gives_progressed hs hshort).andThen ?_
          apply (ih.branches r₂ (s₂.trans hus)).bind (progress fuel .branches r₂)
          intro no r₃ _
          exact agrees_pure _
        · apply (ih.operand (some .or) (u :: us) hrest).bind (hexpr (u :: us))
          intro body r₁ _
          exact agrees_pure _
    · simp only [helse, ↓reduceIte]
      exact (gives_acceptAfterNewlines_other hs (by simpa [hd])).andThen (agrees_pure _)

theorem block_agrees {ts : List Token} (hs : ts <:+ i.body) :
    Agrees i ts (block (i.tokens extra) (n + 1)) (Parser.block (fuel + 1) ts) := by
  simp only [block]
  refine (gives_position i ts).andThen ?_
  cases ts with
  | nil =>
    refine (gives_sees_other hs (by simp)).andThen ((gives_atEnd hs).andThen ?_)
    exact (agrees_expect_other .blockEnd hs (by simp)).error_bind
  | cons t ts =>
    simp only [Parser.block]
    by_cases ht : t.kind = .rightBrace
    · rw [if_pos ht]
      refine (gives_sees_kind hs ht).andThen ((gives_atEnd hs).andThen ?_)
      exact (gives_expect .blockEnd hs ht).andThen (agrees_pure [])
    · rw [if_neg ht]
      refine (gives_sees_other hs (by simpa)).andThen ((gives_atEnd hs).andThen ?_)
      apply (ih.operand (some .or) _ hs).bind (progress fuel (.operand (some .or)) (t :: ts))
      intro e rest h
      have hrest := h.suffix.trans hs
      have hskip := Parser.skipSeparators_suffix rest
      have hshort : Shorter (Parser.skipSeparators rest) (t :: ts) := h.leaves.then_suffix hskip
      refine (gives_skipSeparators hrest).andThen ((gives_progressed hs hshort).andThen ?_)
      apply (ih.block _ (hskip.trans hrest)).bind (progress fuel .block _)
      intro es rest _
      exact agrees_pure _

end Step

/-- The cursor needs ten units more: where nothing is left it goes down all levels to find that
out, and the parser on lists stops at once. -/
theorem agreement (i : Input) (extra : List Token) (fuel : Nat) :
    Agreement i extra (fuel + 10) fuel := by
  induction fuel with
  | zero => exact agreement_zero i extra 10
  | succ fuel ih =>
    have hn : 9 < fuel + 10 := by omega
    exact ⟨fun _ _ hs => operand_agrees ih hs, fun _ _ _ hs => chain_agrees ih hs,
      fun _ hs => unary_agrees ih hn hs, fun _ _ hs => calls_agrees ih hs,
      fun _ hs => arguments_agrees ih hn hs, fun _ hs => moreArguments_agrees ih hs,
      fun _ _ hs => primary_agrees ih hs, fun _ hs => branches_agrees ih hn hs,
      fun _ hs => block_agrees ih hs⟩

end ExprLang.Cursor

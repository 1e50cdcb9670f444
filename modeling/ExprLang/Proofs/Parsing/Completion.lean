import ExprLang.Proofs.Printing.Reading

/-!
# Completing what was cut off

A read that ran into the end of its tokens can be completed behind a line break, by a value for an
operand that is due and by the closing tokens of everything that is still open. The exception are
the header of a loop and a list of parameters: no line break is skipped there, so whatever comes
behind one, the read fails at it.
-/

namespace ExprLang

/-- Due at the end of tokens that stop where no line break is skipped: in the header of a loop or in
a list of parameters. -/
def Expected.inHeader : Expected → Bool
  | .variableName | .assignment | .parametersEnd => true
  | _ => false

namespace Parser

/-! ## Closers -/

/-- What completes an open construct: a value for an operand, or a closing token. -/
inductive Closer
  | value | parenthesis | brace
  deriving DecidableEq, Repr

def Closer.kind : Closer → TokenKind
  | value => .trueWord
  | parenthesis => .rightParen
  | brace => .rightBrace

/-- Tokens of the closers, with any lexemes and lines. -/
def AreClosers (cs : List Closer) (ts : List Token) : Prop :=
  ts.map Token.kind = cs.map Closer.kind

theorem areClosers_nil {ts : List Token} (h : AreClosers [] ts) : ts = [] := by
  simpa [AreClosers] using h

theorem areClosers_singleton {c : Closer} {ts : List Token} (h : AreClosers [c] ts) :
    ∃ t, ts = [t] ∧ t.kind = c.kind := by
  simpa [AreClosers, List.map_eq_singleton_iff] using h

theorem areClosers_append {cs cs' : List Closer} {ts : List Token}
    (h : AreClosers (cs ++ cs') ts) :
    ∃ us us', ts = us ++ us' ∧ AreClosers cs us ∧ AreClosers cs' us' := by
  rw [AreClosers, List.map_append, List.map_eq_append_iff] at h
  exact h

theorem ends_closers {cs : List Closer} {ts xs : List Token} (h : AreClosers cs ts)
    (hxs : Ends xs) : Ends (ts ++ xs) := by
  cases ts with
  | nil => exact hxs
  | cons t ts =>
    cases cs with
    | nil => cases h
    | cons c cs =>
      have hk : t.kind = c.kind := (List.cons.inj h).1
      rw [List.cons_append]
      cases c <;> exact ends_cons _ (by simp [hk, Closer.kind]) (by simp [hk, Closer.kind])
        (by rw [hk]; rfl) (by simp [hk, Closer.kind]) (by simp [hk, Closer.kind])

theorem seam_of_ends {n : Token} (hn : n.kind = .newline) {xs : List Token} (h : Ends xs) :
    Seam (n :: xs) := .inr ⟨n, xs, rfl, hn, h.2⟩

/-! ## Extensions of a read -/

section Extensions

variable {α β : Type}

/-- Some closers behind a line break complete the read, and it stops right behind them. -/
def Completes (F : List Token → Except Fault (Read α)) (ts : List Token) : Prop :=
  ∃ cs, ∀ n toks xs, n.kind = .newline → AreClosers cs toks → Ends xs →
    ∃ v, F (ts ++ n :: (toks ++ xs)) = .ok ⟨v, xs⟩

/-- What becomes of a read that ran out of tokens when something else was due. -/
structure Extends (F : List Token → Except Fault (Read α)) (ts : List Token) (what : Expected) :
    Prop where
  blocked : what.inHeader = true → ∀ n xs, n.kind = .newline →
    ∃ due left, F (ts ++ n :: xs) = .error (.unexpected due left)
  completes : what.inHeader = false → Completes F ts

/-- The closers complete what is behind a value. -/
def FinishedBy (cs : List Closer) (K : Read α → Except Fault (Read β)) : Prop :=
  ∀ v toks xs, AreClosers cs toks → Ends xs → ∃ w, K ⟨v, toks ++ xs⟩ = .ok ⟨w, xs⟩

/-- The read goes on from other tokens, whatever is behind them. -/
theorem Extends.shift {F G : List Token → Except Fault (Read α)} {ts us : List Token}
    {what : Expected} (h : Extends G us what) (heq : ∀ ys, F (ts ++ ys) = G (us ++ ys)) :
    Extends F ts what where
  blocked hheader n xs hn := by
    rw [heq]
    exact h.blocked hheader n xs hn
  completes hheader := by
    obtain ⟨cs, hcs⟩ := h.completes hheader
    refine ⟨cs, fun n toks xs hn htoks hxs => ?_⟩
    rw [heq]
    exact hcs n toks xs hn htoks hxs

/-- The first part of a read was cut off. -/
theorem Extends.bind_error {X : List Token → Except Fault (Read α)}
    {K : Read α → Except Fault (Read β)} {ts : List Token} {what : Expected}
    (h : Extends X ts what) {cs : List Closer} (hfinish : FinishedBy cs K) :
    Extends (fun us => X us >>= K) ts what where
  blocked hheader n xs hn := by
    obtain ⟨due, left, hx⟩ := h.blocked hheader n xs hn
    exact ⟨due, left, by rw [hx]; rfl⟩
  completes hheader := by
    obtain ⟨cs', hcs⟩ := h.completes hheader
    refine ⟨cs' ++ cs, fun n toks xs hn htoks hxs => ?_⟩
    obtain ⟨first, second, rfl, hfirst, hsecond⟩ := areClosers_append htoks
    obtain ⟨v, hv⟩ := hcs n first (second ++ xs) hn hfirst (ends_closers hsecond hxs)
    obtain ⟨w, hw⟩ := hfinish v second xs hsecond hxs
    refine ⟨w, ?_⟩
    beta_reduce
    rw [List.append_assoc, hv, ok_bind, hw]

/-- The first part of a read was cut off inside a header. -/
theorem Extends.bind_header {X : List Token → Except Fault (Read α)}
    {K : Read α → Except Fault (Read β)} {ts : List Token} {what : Expected}
    (h : Extends X ts what) (hheader : what.inHeader = true) :
    Extends (fun us => X us >>= K) ts what where
  blocked _ n xs hn := by
    obtain ⟨due, left, hx⟩ := h.blocked hheader n xs hn
    exact ⟨due, left, by rw [hx]; rfl⟩
  completes hother := by
    rw [hheader] at hother
    cases hother

/-- The second part was cut off, behind a first part that does not look at what follows. -/
theorem Extends.bind_firm {X : List Token → Except Fault (Read α)}
    {K : Read α → Except Fault (Read β)} {ts rest : List Token} {v : α} {what : Expected}
    (hx : ∀ ys, X (ts ++ ys) = .ok ⟨v, rest ++ ys⟩)
    (h : Extends (fun us => K ⟨v, us⟩) rest what) : Extends (fun us => X us >>= K) ts what :=
  h.shift fun ys => by rw [hx, ok_bind]

/-- The second part was cut off, behind a first part that line breaks end. -/
theorem Extends.bind_ok {X : List Token → Except Fault (Read α)}
    {K : Read α → Except Fault (Read β)} {ts rest : List Token} {v : α} {what : Expected}
    (hx : ∀ ys, Seam ys ∨ ¬ Blank rest → X (ts ++ ys) = .ok ⟨v, rest ++ ys⟩)
    (h : Extends (fun us => K ⟨v, us⟩) rest what) (hblank : Blank rest → what.inHeader = false) :
    Extends (fun us => X us >>= K) ts what where
  blocked hheader n xs hn := by
    have hrest : ¬ Blank rest := by
      intro hb
      rw [hblank hb] at hheader
      cases hheader
    obtain ⟨due, left, hk⟩ := h.blocked hheader n xs hn
    exact ⟨due, left, by rw [hx _ (.inr hrest), ok_bind, hk]⟩
  completes hheader := by
    obtain ⟨cs, hcs⟩ := h.completes hheader
    refine ⟨cs, fun n toks xs hn htoks hxs => ?_⟩
    beta_reduce
    rw [hx _ (.inl (seam_of_ends hn (ends_closers htoks hxs))), ok_bind]
    exact hcs n toks xs hn htoks hxs

/-- A read and the same read with some fuel, of which either part was cut off. -/
theorem Extends.bind {x : Except Fault (Read α)} {k : Read α → Except Fault (Read β)}
    {X : List Token → Except Fault (Read α)} {K : Read α → Except Fault (Read β)}
    {ts : List Token} {what : Expected} (h : x >>= k = .error (.unexpected what []))
    (herror : x = .error (.unexpected what []) → Extends X ts what) {cs : List Closer}
    (hfinish : FinishedBy cs K)
    (hok : ∀ v rest, x = .ok ⟨v, rest⟩ →
      ∀ ys, Seam ys ∨ ¬ Blank rest → X (ts ++ ys) = .ok ⟨v, rest ++ ys⟩)
    (hrest : ∀ v rest, k ⟨v, rest⟩ = .error (.unexpected what []) →
      Extends (fun us => K ⟨v, us⟩) rest what ∧ (Blank rest → what.inHeader = false)) :
    Extends (fun us => X us >>= K) ts what := by
  cases x with
  | error fault =>
    cases h
    exact (herror rfl).bind_error hfinish
  | ok r =>
    obtain ⟨hk, hblank⟩ := hrest r.value r.rest h
    exact Extends.bind_ok (hok r.value r.rest rfl) hk hblank

end Extensions

/-! ## Reads that were answered -/

/-- An answer given with some fuel is the answer without fuel, also with more tokens behind. -/
theorem Phrase.answered (p : Phrase) {fuel : Nat} (ts : List Token) {v : p.Value}
    {rest : List Token} (h : p.read fuel ts = .ok ⟨v, rest⟩) {ys : List Token}
    (hys : Seam ys ∨ ¬ Blank rest) :
    p.read (fuelFor (ts ++ ys)) (ts ++ ys) = .ok ⟨v, rest ++ ys⟩ := by
  have hcarries := seamLaw ys (p.need (ts ++ ys)) fuel p ts
  rw [h, p.read_eq (Nat.le_add_right _ _)] at hcarries
  exact hcarries hys

theorem operand_answered {fuel : Nat} {l : Option Level} {ts rest : List Token} {v : Expr}
    (h : operand fuel l ts = .ok ⟨v, rest⟩) {ys : List Token} (hys : Seam ys ∨ ¬ Blank rest) :
    readOperand l (ts ++ ys) = .ok ⟨v, rest ++ ys⟩ :=
  (Phrase.operand l).answered ts h hys

theorem primary_answered {fuel : Nat} {t : Token} {ts rest : List Token} {v : Expr}
    (h : primary fuel t ts = .ok ⟨v, rest⟩) {ys : List Token} (hys : Seam ys ∨ ¬ Blank rest) :
    readPrimary t (ts ++ ys) = .ok ⟨v, rest ++ ys⟩ :=
  (read_primary t (ts ++ ys)).symm.trans (Phrase.primary.answered (t :: ts) h hys)

theorem arguments_answered {fuel : Nat} {ts rest : List Token} {v : List Expr}
    (h : arguments fuel ts = .ok ⟨v, rest⟩) {ys : List Token} (hys : Seam ys ∨ ¬ Blank rest) :
    readArguments (ts ++ ys) = .ok ⟨v, rest ++ ys⟩ :=
  Phrase.arguments.answered ts h hys

theorem expect_answered {kind : TokenKind} {what : Expected} {ts rest : List Token} {v : Token}
    (h : expect kind what ts = .ok ⟨v, rest⟩) (ys : List Token) :
    expect kind what (ts ++ ys) = .ok ⟨v, rest ++ ys⟩ := by
  have hfirm := expect_firm ys kind what ts
  rw [h] at hfirm
  exact hfirm (.inr ⟨_, rfl⟩)

theorem parameters_answered {ts rest : List Token} {v : List Bytes}
    (h : parameters ts = .ok ⟨v, rest⟩) (ys : List Token) :
    parameters (ts ++ ys) = .ok ⟨v, rest ++ ys⟩ := by
  have hfirm := parameters_firm ys ts
  rw [h] at hfirm
  exact hfirm (.inr ⟨_, rfl⟩)

/-! ## Values and what ends an expression -/

theorem skipNewlines_of_cons {t : Token} {ts rest : List Token} (h : skipNewlines ts = t :: rest)
    (ys : List Token) : skipNewlines (ts ++ ys) = t :: (rest ++ ys) := by
  rw [skipNewlines, List.dropWhile_append, ← skipNewlines, h]
  rfl

theorem skipNewlines_blank_append {ts : List Token} (h : Blank ts) {n : Token}
    (hn : n.kind = .newline) (ys : List Token) :
    skipNewlines (ts ++ n :: ys) = skipNewlines ys := by
  rw [skipNewlines, List.dropWhile_append, ← skipNewlines, skipNewlines_of_blank h]
  simp [skipNewlines, hn]

theorem readUnary_value {t : Token} (ht : t.kind = .trueWord) {xs : List Token} (h : Ends xs) :
    readUnary (t :: xs) = .ok ⟨.literal (.bool true), xs⟩ := by
  rw [readUnary_primary (by rw [ht]; rfl) (readPrimary_true ht xs), readCalls_apart h.1]

theorem skipNewlines_value {t : Token} (ht : t.kind = .trueWord) (xs : List Token) :
    skipNewlines (t :: xs) = t :: xs := by
  simp [skipNewlines, ht]

/-- A value is read as an operand of any level, also behind line breaks. -/
theorem readOperand_skip (l : Option Level) {t : Token} (ht : t.kind = .trueWord)
    {ts xs : List Token} (hs : skipNewlines ts = t :: xs) (h : Ends xs) :
    readOperand l ts = .ok ⟨.literal (.bool true), xs⟩ := by
  refine readOperand_of_unary ?_ (quiet_of_apart h.1 l)
  rw [hs, readUnary_value ht h]

theorem readOperand_value (l : Option Level) {t : Token} (ht : t.kind = .trueWord)
    {xs : List Token} (h : Ends xs) :
    readOperand l (t :: xs) = .ok ⟨.literal (.bool true), xs⟩ :=
  readOperand_skip l ht (skipNewlines_value ht xs) h

theorem readBranches_ends {xs : List Token} (h : Ends xs) :
    readBranches xs = .ok ⟨.done, xs⟩ := by
  rw [readBranches_eq]
  cases hs : skipNewlines xs with
  | nil => rfl
  | cons u vs =>
    simp only
    rw [if_neg (h.2 u vs hs)]

section Finished

variable {α : Type}

theorem chain_finished (l : Level) (f : α → Expr) :
    FinishedBy [] fun r : Read α => readChain l (f r.value) r.rest := by
  intro v toks xs htoks hxs
  rw [areClosers_nil htoks]
  exact ⟨f v, readChain_quiet (f v) fun t us ht => operator?_eq_none l (hxs.1 t us ht).2.2⟩

theorem calls_finished (f : α → Expr) :
    FinishedBy [] fun r : Read α => readCalls (f r.value) r.rest := by
  intro v toks xs htoks hxs
  rw [areClosers_nil htoks]
  exact ⟨f v, readCalls_apart hxs.1 (f v)⟩

theorem answer_finished {β : Type} (f : α → β) :
    FinishedBy [] fun r : Read α => .ok ⟨f r.value, r.rest⟩ := by
  intro v toks xs htoks hxs
  rw [areClosers_nil htoks]
  exact ⟨f v, rfl⟩

/-- A value is enough for another operand. -/
theorem operand_finished {β : Type} (f : α → Expr → β) :
    FinishedBy [.value] fun r : Read α =>
      readOperand (some .or) r.rest >>= fun s => .ok ⟨f r.value s.value, s.rest⟩ := by
  intro v toks xs htoks hxs
  obtain ⟨t, rfl, ht⟩ := areClosers_singleton htoks
  refine ⟨f v (.literal (.bool true)), ?_⟩
  simp only [List.singleton_append, readOperand_value (some .or) ht hxs, ok_bind]

theorem branches_finished {β : Type} (f : α → Branches → β) :
    FinishedBy [] fun r : Read α =>
      readBranches r.rest >>= fun s => .ok ⟨f r.value s.value, s.rest⟩ := by
  intro v toks xs htoks hxs
  rw [areClosers_nil htoks]
  refine ⟨f v .done, ?_⟩
  simp only [List.nil_append, readBranches_ends hxs, ok_bind]

/-- A value is enough for the first branch of a conditional. -/
theorem conditional_finished {β : Type} (f : α → Expr → Branches → β) :
    FinishedBy [.value] fun r : Read α =>
      readOperand (some .or) r.rest >>= fun s =>
        readBranches s.rest >>= fun b => .ok ⟨f r.value s.value b.value, b.rest⟩ := by
  intro v toks xs htoks hxs
  obtain ⟨t, rfl, ht⟩ := areClosers_singleton htoks
  refine ⟨f v (.literal (.bool true)) .done, ?_⟩
  simp only [List.singleton_append, readOperand_value (some .or) ht hxs, readBranches_ends hxs,
    ok_bind]

theorem group_finished (f : α → Expr) :
    FinishedBy [.parenthesis] fun r : Read α =>
      expect .rightParen .groupEnd (skipNewlines r.rest) >>= fun s =>
        .ok ⟨f r.value, s.rest⟩ := by
  intro v toks xs htoks hxs
  obtain ⟨t, rfl, ht⟩ := areClosers_singleton htoks
  have hk : t.kind = .rightParen := ht
  have hs : skipNewlines (t :: xs) = t :: xs := by simp [skipNewlines, hk]
  refine ⟨f v, ?_⟩
  simp only [List.singleton_append, hs, expect, if_pos hk, ok_bind]

/-- Behind an argument a closing parenthesis is enough. -/
theorem moreArguments_finished :
    FinishedBy [.parenthesis] fun r : Read Expr =>
      readMoreArguments (skipNewlines r.rest) >>= fun s => .ok ⟨r.value :: s.value, s.rest⟩ := by
  intro v toks xs htoks hxs
  obtain ⟨t, rfl, ht⟩ := areClosers_singleton htoks
  have hs : skipNewlines (t :: xs) = t :: xs := by simp [skipNewlines, ht, Closer.kind]
  refine ⟨[v], ?_⟩
  simp only [List.singleton_append, hs, readMoreArguments_cons, ht, Closer.kind]
  rfl

/-- Behind a statement a closing brace is enough. -/
theorem block_finished :
    FinishedBy [.brace] fun r : Read Expr =>
      readBlock (skipSeparators r.rest) >>= fun s => .ok ⟨r.value :: s.value, s.rest⟩ := by
  intro v toks xs htoks hxs
  obtain ⟨t, rfl, ht⟩ := areClosers_singleton htoks
  have hs : skipSeparators (t :: xs) = t :: xs := by
    simp [skipSeparators, TokenKind.isSeparator, ht, Closer.kind]
  refine ⟨[v], ?_⟩
  simp only [List.singleton_append, hs, readBlock_cons, ht, Closer.kind]
  rfl

end Finished

/-! ## Expressions -/

/-- The read was cut off, and not inside a header if there are nothing but line breaks. -/
def CutOff {α : Type} (F : List Token → Except Fault (Read α)) (ts : List Token)
    (what : Expected) : Prop :=
  Extends F ts what ∧ (Blank ts → what.inHeader = false)

/-- One closer is enough. -/
theorem cutOff_closer {α : Type} {F : List Token → Except Fault (Read α)} {ts : List Token}
    {what : Expected} (hwhat : what.inHeader = false) (c : Closer)
    (h : ∀ n t xs, n.kind = .newline → t.kind = c.kind → Ends xs →
      ∃ v, F (ts ++ n :: t :: xs) = .ok ⟨v, xs⟩) : CutOff F ts what := by
  refine ⟨⟨fun hheader => ?_, fun _ => ⟨[c], ?_⟩⟩, fun _ => hwhat⟩
  · rw [hwhat] at hheader
    cases hheader
  · intro n toks xs hn htoks hxs
    obtain ⟨t, rfl, ht⟩ := areClosers_singleton htoks
    exact h n t xs hn ht hxs

/-- A read that only packs up what another one gives. -/
theorem CutOff.answer {α β : Type} {f : α → β} {x : Except Fault (Read α)}
    {X : List Token → Except Fault (Read α)} {ts : List Token} {what : Expected}
    (h : (x >>= fun r => Except.ok (Read.mk (f r.value) r.rest)) = .error (.unexpected what []))
    (hx : x = .error (.unexpected what []) → CutOff X ts what) :
    CutOff (fun us => X us >>= fun r => .ok ⟨f r.value, r.rest⟩) ts what := by
  cases x with
  | error fault =>
    cases h
    exact ⟨(hx rfl).1.bind_error (answer_finished f), (hx rfl).2⟩
  | ok r => cases h

/-- The closing parenthesis of a group is due. -/
theorem groupEnd_extends (inner : Expr) (ts : List Token) (what : Expected)
    (h : (expect .rightParen .groupEnd (skipNewlines ts) >>= fun r =>
      Except.ok (Read.mk (Expr.grouping inner) r.rest)) = .error (.unexpected what [])) :
    CutOff (fun us => expect .rightParen .groupEnd (skipNewlines us) >>= fun r =>
      Except.ok (Read.mk (Expr.grouping inner) r.rest)) ts what := by
  cases hs : skipNewlines ts with
  | nil =>
    have hblank := blank_of_skipNewlines hs
    rw [hs] at h
    cases h
    refine cutOff_closer rfl .parenthesis fun n t xs hn ht hxs => ⟨Expr.grouping inner, ?_⟩
    have hk : t.kind = .rightParen := ht
    have hs' : skipNewlines (t :: xs) = t :: xs := by simp [skipNewlines, hk]
    rw [skipNewlines_blank_append hblank hn, hs', expect, if_pos hk, ok_bind]
  | cons t rest =>
    simp only [hs, expect] at h
    split at h <;> cases h

/-! ## Headers -/

theorem expect_extends {kind : TokenKind} {what due : Expected} {ts : List Token}
    (hkind : kind ≠ .newline) (hwhat : what.inHeader = true)
    (h : expect kind what ts = .error (.unexpected due [])) :
    Extends (expect kind what) ts due ∧ due.inHeader = true := by
  cases ts with
  | nil =>
    cases h
    refine ⟨⟨fun _ n xs hn => ?_, fun hother => ?_⟩, hwhat⟩
    · have hne : n.kind ≠ kind := fun hk => hkind (hk.symm.trans hn)
      exact ⟨what, n :: xs, by rw [List.nil_append, expect, if_neg hne]⟩
    · rw [hwhat] at hother
      cases hother
  | cons t ts =>
    simp only [expect] at h
    split at h <;> cases h

theorem parameters_extends {ts : List Token} {due : Expected}
    (h : parameters ts = .error (.unexpected due [])) :
    Extends parameters ts due ∧ due.inHeader = true := by
  induction ts with
  | nil =>
    cases h
    refine ⟨⟨fun _ n xs hn => ?_, fun hother => ?_⟩, rfl⟩
    · exact ⟨.parameterName, n :: xs, by simp [parameters, hn]⟩
    · cases hother
  | cons t ts ih =>
    simp only [parameters] at h
    split at h
    · cases h
    · split at h
      · rename_i hbar hname
        cases hp : parameters ts with
        | error fault =>
          rw [hp] at h
          cases h
          obtain ⟨hx, hheader⟩ := ih hp
          refine ⟨Extends.shift (hx.bind_header (K := fun r =>
            .ok ⟨t.lexeme :: r.value, r.rest⟩) hheader) fun ys => ?_, hheader⟩
          rw [List.cons_append, parameters, if_neg hbar, if_pos hname]
        | ok r =>
          rw [hp] at h
          cases h
      · cases h

/-! ## All reading functions -/

/-- What every reading function with some fuel says about the one without when it runs into the end
of its tokens. -/
structure ExtensionLaw (fuel : Nat) : Prop where
  operand : ∀ l ts what, operand fuel l ts = .error (.unexpected what []) →
    CutOff (readOperand l) ts what
  chain : ∀ l left ts what, chain fuel l left ts = .error (.unexpected what []) →
    CutOff (readChain l left) ts what
  unary : ∀ ts what, unary fuel (skipNewlines ts) = .error (.unexpected what []) →
    CutOff (fun us => readUnary (skipNewlines us)) ts what
  calls : ∀ callee ts what, calls fuel callee ts = .error (.unexpected what []) →
    CutOff (readCalls callee) ts what
  arguments : ∀ ts what, arguments fuel (skipNewlines ts) = .error (.unexpected what []) →
    CutOff (fun us => readArguments (skipNewlines us)) ts what
  moreArguments : ∀ ts what, moreArguments fuel (skipNewlines ts) = .error (.unexpected what []) →
    CutOff (fun us => readMoreArguments (skipNewlines us)) ts what
  primary : ∀ t ts what, primary fuel t ts = .error (.unexpected what []) →
    Extends (readPrimary t) ts what
  branches : ∀ ts what, branches fuel ts = .error (.unexpected what []) →
    CutOff readBranches ts what
  block : ∀ ts what, block fuel (skipSeparators ts) = .error (.unexpected what []) →
    CutOff (fun us => readBlock (skipSeparators us)) ts what

theorem extensionLaw_zero : ExtensionLaw 0 where
  operand _ _ _ h := by cases h
  chain _ _ _ _ h := by cases h
  unary _ _ h := by cases h
  calls _ _ _ h := by cases h
  arguments _ _ h := by cases h
  moreArguments _ _ h := by cases h
  primary _ _ _ h := by cases h
  branches _ _ h := by cases h
  block _ _ h := by cases h

section Step

variable {fuel : Nat} (ih : ExtensionLaw fuel)
include ih

/-- An operand and what is behind it, of which either part was cut off. -/
theorem operand_then {β : Type} {l : Option Level} {ts : List Token} {what : Expected}
    {k K : Read Expr → Except Fault (Read β)}
    (h : operand fuel l ts >>= k = .error (.unexpected what [])) {cs : List Closer}
    (hfinish : FinishedBy cs K)
    (hrest : ∀ v rest, k ⟨v, rest⟩ = .error (.unexpected what []) →
      CutOff (fun us => K ⟨v, us⟩) rest what) :
    CutOff (fun us => readOperand l us >>= K) ts what := by
  constructor
  · exact Extends.bind h (fun hx => (ih.operand l ts what hx).1) hfinish
      (fun v rest hx ys => operand_answered hx) hrest
  · intro hblank
    cases hx : operand fuel l ts with
    | error fault =>
      rw [hx] at h
      cases h
      exact (ih.operand l ts what hx).2 hblank
    | ok r =>
      have hs := (derives_of_read (.operand l) fuel ts hx).suffix
      rw [hx] at h
      exact (hrest r.value r.rest h).2 fun t ht => hblank t (hs.subset ht)

theorem operand_extends (l : Option Level) (ts : List Token) (what : Expected)
    (h : operand (fuel + 1) l ts = .error (.unexpected what [])) :
    CutOff (readOperand l) ts what := by
  cases l with
  | none =>
    have hread : readOperand none = fun us => readUnary (skipNewlines us) :=
      funext readOperand_none
    rw [hread]
    exact ih.unary ts what h
  | some l =>
    have hread : readOperand (some l) = fun us =>
        readOperand l.tighter us >>= fun r => readChain l r.value r.rest :=
      funext (readOperand_some l)
    rw [hread]
    exact operand_then ih h (chain_finished l id) fun left rest => ih.chain l left rest what

theorem chain_extends (l : Level) (left : Expr) (ts : List Token) (what : Expected)
    (h : chain (fuel + 1) l left ts = .error (.unexpected what [])) :
    CutOff (readChain l left) ts what := by
  cases ts with
  | nil => cases h
  | cons t ts =>
    simp only [chain] at h
    cases hop : l.operator? t.kind with
    | none =>
      simp only [hop] at h
      cases h
    | some op =>
      simp only [hop] at h
      constructor
      · have hbind := operand_then ih h
          (chain_finished l fun right => .binary left op t.lexeme t.line right)
          fun right rest => ih.chain l _ rest what
        refine hbind.1.shift fun ys => ?_
        rw [List.cons_append, readChain_cons, hop]
      · intro hblank
        rw [hblank t List.mem_cons_self] at hop
        cases hop

theorem unary_extends (ts : List Token) (what : Expected)
    (h : unary (fuel + 1) (skipNewlines ts) = .error (.unexpected what [])) :
    CutOff (fun us => readUnary (skipNewlines us)) ts what := by
  cases hs : skipNewlines ts with
  | nil =>
    have hblank := blank_of_skipNewlines hs
    rw [hs] at h
    cases h
    refine cutOff_closer rfl .value fun n t xs hn ht hxs => ⟨.literal (.bool true), ?_⟩
    rw [skipNewlines_blank_append hblank hn, skipNewlines_value ht, readUnary_value ht hxs]
  | cons t rest =>
    rw [hs] at h
    simp only [unary] at h
    refine ⟨?_, fun hblank => ?_⟩
    · cases hop : UnaryOp.ofKind? t.kind with
      | some op =>
        simp only [hop] at h
        have hbind := CutOff.answer (f := fun e => Expr.unary op t.lexeme t.line e) h
          (ih.unary rest what)
        refine hbind.1.shift fun ys => ?_
        rw [skipNewlines_of_cons hs, readUnary_cons, hop]
      | none =>
        simp only [hop] at h
        have hbind : Extends (fun us => readPrimary t us >>= fun r =>
            readCalls r.value r.rest) rest what :=
          Extends.bind h (ih.primary t rest what) (calls_finished id)
            (fun v rest hx ys => primary_answered hx) (fun callee rest => ih.calls callee rest what)
        refine hbind.shift fun ys => ?_
        rw [skipNewlines_of_cons hs, readUnary_cons, hop]
    · rw [skipNewlines_of_blank hblank] at hs
      cases hs

theorem calls_extends (callee : Expr) (ts : List Token) (what : Expected)
    (h : calls (fuel + 1) callee ts = .error (.unexpected what [])) :
    CutOff (readCalls callee) ts what := by
  cases ts with
  | nil => cases h
  | cons t ts =>
    simp only [calls] at h
    by_cases ht : t.kind = .leftParen
    · rw [if_pos ht] at h
      refine ⟨?_, fun hblank => ?_⟩
      · have hbind : Extends (fun us => readArguments (skipNewlines us) >>= fun r =>
            readCalls (.call callee t.line r.value) r.rest) ts what := by
          refine Extends.bind h (fun hx => (ih.arguments ts what hx).1)
            (calls_finished fun args => .call callee t.line args) ?_
            (fun args rest => ih.calls _ rest what)
          intro args rest hx ys hys
          have hne : skipNewlines ts ≠ [] := by
            intro hs
            rw [hs] at hx
            cases fuel <;> cases hx
          obtain ⟨u, us, hs⟩ := List.exists_cons_of_ne_nil hne
          rw [hs] at hx
          rw [skipNewlines_of_cons hs, ← List.cons_append]
          exact arguments_answered hx hys
        refine hbind.shift fun ys => ?_
        rw [List.cons_append, readCalls_cons, if_pos ht]
      · rw [hblank t List.mem_cons_self] at ht
        cases ht
    · rw [if_neg ht] at h
      cases h

/-- An expression and the arguments behind it. -/
theorem argument_extends (ts : List Token) (what : Expected)
    (h : (do
      let ⟨e, ts⟩ ← operand fuel (some .or) ts
      let ⟨es, ts⟩ ← moreArguments fuel (skipNewlines ts)
      .ok ⟨e :: es, ts⟩ : Except Fault (Read (List Expr))) = .error (.unexpected what [])) :
    CutOff (fun us => readOperand (some .or) us >>= fun r =>
      readMoreArguments (skipNewlines r.rest) >>= fun s => .ok ⟨r.value :: s.value, s.rest⟩)
      ts what := by
  refine operand_then ih h moreArguments_finished fun e rest hmore => ?_
  exact CutOff.answer (f := fun es => e :: es) hmore (ih.moreArguments rest what)

theorem arguments_extends (ts : List Token) (what : Expected)
    (h : arguments (fuel + 1) (skipNewlines ts) = .error (.unexpected what [])) :
    CutOff (fun us => readArguments (skipNewlines us)) ts what := by
  cases hs : skipNewlines ts with
  | nil =>
    have hblank := blank_of_skipNewlines hs
    rw [hs] at h
    cases h
    refine cutOff_closer rfl .parenthesis fun n t xs hn ht hxs => ⟨[], ?_⟩
    have hk : t.kind = .rightParen := ht
    have hs' : skipNewlines (t :: xs) = t :: xs := by simp [skipNewlines, hk]
    rw [skipNewlines_blank_append hblank hn, hs', readArguments_cons, if_pos hk]
  | cons t rest =>
    rw [hs] at h
    simp only [arguments] at h
    by_cases ht : t.kind = .rightParen
    · rw [if_pos ht] at h
      cases h
    · rw [if_neg ht] at h
      refine ⟨(argument_extends ih (t :: rest) what h).1.shift fun ys => ?_, fun hblank => ?_⟩
      · rw [skipNewlines_of_cons hs, readArguments_cons, if_neg ht]
        rfl
      · rw [skipNewlines_of_blank hblank] at hs
        cases hs

theorem moreArguments_extends (ts : List Token) (what : Expected)
    (h : moreArguments (fuel + 1) (skipNewlines ts) = .error (.unexpected what [])) :
    CutOff (fun us => readMoreArguments (skipNewlines us)) ts what := by
  cases hs : skipNewlines ts with
  | nil =>
    have hblank := blank_of_skipNewlines hs
    rw [hs] at h
    cases h
    refine cutOff_closer rfl .parenthesis fun n t xs hn ht hxs => ⟨[], ?_⟩
    have hk : t.kind = .rightParen := ht
    have hs' : skipNewlines (t :: xs) = t :: xs := by simp [skipNewlines, hk]
    have hcomma : t.kind ≠ .comma := by simp [hk]
    rw [skipNewlines_blank_append hblank hn, hs', readMoreArguments_cons, if_neg hcomma, if_pos hk]
  | cons t rest =>
    rw [hs] at h
    simp only [moreArguments] at h
    by_cases ht : t.kind = .comma
    · rw [if_pos ht] at h
      refine ⟨(argument_extends ih rest what h).1.shift fun ys => ?_, fun hblank => ?_⟩
      · rw [skipNewlines_of_cons hs, readMoreArguments_cons, if_pos ht]
      · rw [skipNewlines_of_blank hblank] at hs
        cases hs
    · rw [if_neg ht] at h
      split at h <;> cases h

theorem block_extends (ts : List Token) (what : Expected)
    (h : block (fuel + 1) (skipSeparators ts) = .error (.unexpected what [])) :
    CutOff (fun us => readBlock (skipSeparators us)) ts what := by
  cases hs : skipSeparators ts with
  | nil =>
    rw [hs] at h
    cases h
    refine cutOff_closer rfl .brace fun n t xs hn ht hxs => ⟨[], ?_⟩
    have hk : t.kind = .rightBrace := ht
    have hs' : skipSeparators (t :: xs) = t :: xs := by
      simp [skipSeparators, TokenKind.isSeparator, hk]
    rw [skipSeparators_append_of_nil hs, skipSeparators_newline hn, hs', readBlock_cons, if_pos hk]
  | cons t rest =>
    rw [hs] at h
    simp only [block] at h
    by_cases ht : t.kind = .rightBrace
    · rw [if_pos ht] at h
      cases h
    · rw [if_neg ht] at h
      refine ⟨?_, fun hblank => ?_⟩
      · have hbind := operand_then ih h block_finished fun e rest hmore =>
          CutOff.answer (f := fun es => e :: es) hmore (ih.block rest what)
        refine hbind.1.shift fun ys => ?_
        have hne : skipSeparators ts ≠ [] := by simp [hs]
        rw [skipSeparators_append_of_ne_nil hne, hs, List.cons_append, readBlock_cons, if_neg ht]
      · rw [skipSeparators_of_blank hblank] at hs
        cases hs

/-- A condition and what follows it. -/
theorem conditional_extends {β : Type} (f : Expr → Expr → Branches → β) (ts : List Token)
    (what : Expected)
    (h : (do
      let ⟨test, ts⟩ ← operand fuel (some .or) ts
      let ⟨yes, ts⟩ ← operand fuel (some .or) ts
      let ⟨no, ts⟩ ← branches fuel ts
      .ok ⟨f test yes no, ts⟩ : Except Fault (Read β)) = .error (.unexpected what [])) :
    CutOff (fun us => readOperand (some .or) us >>= fun r =>
      readOperand (some .or) r.rest >>= fun s =>
        readBranches s.rest >>= fun b => .ok ⟨f r.value s.value b.value, b.rest⟩) ts what := by
  refine operand_then ih h (conditional_finished f) fun test r₁ hyes => ?_
  refine operand_then ih hyes (branches_finished (f test)) fun yes r₂ hno => ?_
  exact CutOff.answer (f := f test yes) hno (ih.branches r₂ what)

theorem branches_extends (ts : List Token) (what : Expected)
    (h : branches (fuel + 1) ts = .error (.unexpected what [])) :
    CutOff readBranches ts what := by
  simp only [branches] at h
  cases hs : skipNewlines ts with
  | nil =>
    simp only [hs] at h
    cases h
  | cons t rest =>
    simp only [hs] at h
    by_cases ht : t.kind = .elseWord
    · rw [if_pos ht] at h
      have hblank : Blank ts → what.inHeader = false := by
        intro hblank
        rw [skipNewlines_of_blank hblank] at hs
        cases hs
      cases rest with
      | nil =>
        cases h
        refine cutOff_closer rfl .value fun n u xs hn hu hxs => ?_
        have hif : n.kind ≠ .ifWord := by simp [hn]
        refine ⟨.otherwise (.literal (.bool true)), ?_⟩
        rw [readBranches_eq, skipNewlines_of_cons hs]
        have hskip : skipNewlines (n :: u :: xs) = u :: xs := by
          rw [← List.nil_append (n :: u :: xs), skipNewlines_blank_append blank_nil hn,
            skipNewlines_value hu]
        simp only [List.nil_append, if_pos ht, if_neg hif,
          readOperand_skip (some .or) hu hskip hxs, ok_bind]
      | cons u us =>
        simp only at h
        by_cases hif : u.kind = .ifWord
        · rw [if_pos hif] at h
          refine ⟨(conditional_extends ih _ us what h).1.shift fun ys => ?_, hblank⟩
          rw [readBranches_eq, skipNewlines_of_cons hs]
          simp only [List.cons_append, if_pos ht, if_pos hif]
        · rw [if_neg hif] at h
          have hbody := CutOff.answer (f := Branches.otherwise) h
            (ih.operand (some .or) (u :: us) what)
          refine ⟨hbody.1.shift fun ys => ?_, hblank⟩
          rw [readBranches_eq, skipNewlines_of_cons hs]
          simp only [List.cons_append, if_pos ht, if_neg hif]
    · rw [if_neg ht] at h
      cases h

theorem primary_extends (t : Token) (ts : List Token) (what : Expected)
    (h : primary (fuel + 1) t ts = .error (.unexpected what [])) :
    Extends (readPrimary t) ts what := by
  simp only [primary] at h
  split at h
  · rename_i hk
    rw [funext (readPrimary_for hk)]
    cases h₁ : expect .identifier .variableName ts with
    | error fault =>
      rw [h₁] at h
      cases h
      obtain ⟨hx, hheader⟩ := expect_extends (by decide) rfl h₁
      exact hx.bind_header hheader
    | ok r₁ =>
      rw [h₁] at h
      refine Extends.bind_firm (expect_answered h₁) ?_
      cases h₂ : expect .assign .assignment r₁.rest with
      | error fault =>
        simp only [ok_bind, h₂] at h
        cases h
        obtain ⟨hx, hheader⟩ := expect_extends (by decide) rfl h₂
        exact hx.bind_header hheader
      | ok r₂ =>
        simp only [ok_bind, h₂] at h
        refine Extends.bind_firm (expect_answered h₂) ?_
        refine (operand_then ih h (operand_finished _) fun items r₃ hbody => ?_).1
        exact CutOff.answer (f := Expr.each t.line r₁.value.lexeme items) hbody
          (ih.operand (some .or) r₃ what)
  · rename_i hk
    rw [funext (readPrimary_if hk)]
    exact (conditional_extends ih _ ts what h).1
  · rename_i hk
    split at h
    · cases h
    · rename_i u us
      split at h
      · rename_i hassign
        have hvalue := CutOff.answer (f := Expr.assign t.lexeme t.line) h
          (ih.operand (some .or) us what)
        refine hvalue.1.shift fun ys => ?_
        rw [List.cons_append, readPrimary_name_cons hk, if_pos hassign]
      · cases h
  · rename_i hk
    rw [funext (readPrimary_brace hk)]
    exact (CutOff.answer (f := Expr.block t.line) h (ih.block ts what)).1
  · rename_i hk
    rw [funext (readPrimary_bar hk)]
    cases h₁ : parameters ts with
    | error fault =>
      rw [h₁] at h
      cases h
      obtain ⟨hx, hheader⟩ := parameters_extends h₁
      exact hx.bind_header hheader
    | ok r₁ =>
      simp only [ok_bind, h₁] at h
      refine Extends.bind_firm (parameters_answered h₁) ?_
      exact (CutOff.answer (f := Expr.function t.line r₁.value) h
        (ih.operand (some .or) r₁.rest what)).1
  · cases h
  · cases h
  · unfold intLiteral at h
    split at h <;> cases h
  · unfold floatLiteral at h
    split at h <;> cases h
  · unfold stringLiteral at h
    split at h <;> cases h
  · rename_i hk
    rw [funext (readPrimary_paren hk)]
    exact (operand_then ih h (group_finished _) fun inner r₁ hclose =>
      groupEnd_extends inner r₁ what hclose).1
  · cases h

end Step

theorem extensionLaw (fuel : Nat) : ExtensionLaw fuel := by
  induction fuel with
  | zero => exact extensionLaw_zero
  | succ fuel ih =>
    exact ⟨operand_extends ih, chain_extends ih, unary_extends ih, calls_extends ih,
      arguments_extends ih, moreArguments_extends ih, primary_extends ih, branches_extends ih,
      block_extends ih⟩

/-! ## Programs -/

/-- What becomes of a program that is cut off, with more behind a line break. -/
structure ProgramExtends (ts : List Token) (what : Expected) : Prop where
  blocked : what.inHeader = true → ∀ stop n xs, n.kind = .newline →
    (readProgram stop (ts ++ n :: xs)).errors ≠ []
  completes : what.inHeader = false → ∃ cs, ∀ stop n toks, n.kind = .newline →
    AreClosers cs toks → (readProgram stop (ts ++ n :: toks)).errors = []

theorem ProgramExtends.of_read {ts left : List Token} {what : Expected} {e : Expr}
    (h : ProgramExtends left what) (hleft : ¬ Blank left)
    (hr : statement (skipSeparators ts) = .ok ⟨e, left⟩) : ProgramExtends ts what := by
  have hne : skipSeparators ts ≠ [] := by
    intro hd
    rw [hd] at hr
    cases hr
  have hread : ∀ stop ys, readProgram stop (ts ++ ys) =
      (readProgram stop (left ++ ys)).addStatement e := by
    intro stop ys
    apply readProgram_ok
    rw [skipSeparators_append_of_ne_nil hne]
    exact statement_follow hr (.inr hleft)
  constructor
  · intro hheader stop n xs hn
    rw [hread]
    exact h.blocked hheader stop n xs hn
  · intro hheader
    obtain ⟨cs, hcs⟩ := h.completes hheader
    refine ⟨cs, fun stop n toks hn htoks => ?_⟩
    rw [hread]
    exact hcs stop n toks hn htoks

theorem ProgramExtends.of_cutOff {ts : List Token} {what : Expected}
    (hne : skipSeparators ts ≠ [])
    (hr : statement (skipSeparators ts) = .error (.unexpected what [])) :
    ProgramExtends ts what := by
  have hcut := ((extensionLaw _).operand (some .or) _ what hr).1
  constructor
  · intro hheader stop n xs hn
    obtain ⟨due, left, hblocked⟩ := hcut.blocked hheader n xs hn
    rw [← skipSeparators_append_of_ne_nil hne] at hblocked
    have hne' : skipSeparators (ts ++ n :: xs) ≠ [] := by
      rw [skipSeparators_append_of_ne_nil hne]
      simp
    rw [readProgram_unexpected hne' hblocked]
    simp [Program.addError]
  · intro hheader
    obtain ⟨cs, hcs⟩ := hcut.completes hheader
    refine ⟨cs, fun stop n toks hn htoks => ?_⟩
    obtain ⟨e, hread⟩ := hcs n toks [] hn htoks ends_nil
    rw [List.append_nil, ← skipSeparators_append_of_ne_nil hne] at hread
    rw [readProgram_ok hread, readProgram_nil rfl]
    rfl

/-- If the only error of a program is at its end, something was due there. -/
theorem program_cutOff {stop : Token} {ts : List Token} (hts : ∀ t ∈ ts, t.kind ≠ .eof)
    {e : SyntaxError} (herr : (readProgram stop ts).errors = [e]) (hend : e.atEnd = true) :
    ∃ what, e.cause = .unexpectedToken what ∧ ProgramExtends ts what := by
  induction ts using readProgram_induct with
  | blank ts hd =>
    rw [readProgram_nil hd] at herr
    cases herr
  | read ts v left hr ih =>
    have hs := statement_ensures (skipSeparators ts)
    rw [hr] at hs
    have hsub := hs.1.trans (skipSeparators_suffix ts)
    rw [readProgram_ok hr] at herr
    obtain ⟨what, hcause, hleft⟩ := ih (fun t ht => hts t (hsub.subset ht)) herr
    refine ⟨what, hcause, hleft.of_read ?_ hr⟩
    intro hblank
    have hempty : readProgram stop left = .empty :=
      readProgram_nil (skipSeparators_of_blank hblank)
    rw [Program.addStatement, hempty] at herr
    cases herr
  | unexpected ts what left hne hr ih =>
    rw [readProgram_unexpected hne hr] at herr
    obtain ⟨he, -⟩ := List.cons.inj herr
    cases left with
    | nil =>
      refine ⟨what, ?_, .of_cutOff hne hr⟩
      rw [← he]
      rfl
    | cons t left =>
      have hs := statement_ensures (skipSeparators ts)
      rw [hr] at hs
      have hsuffix : t :: left <:+ ts := hs.1.trans (skipSeparators_suffix ts)
      have ht := hts t (hsuffix.subset List.mem_cons_self)
      rw [← he] at hend
      simp [SyntaxError.ofToken, ht] at hend
  | invalidNumber ts number left hr ih =>
    rw [readProgram_invalidNumber hr] at herr
    obtain ⟨he, -⟩ := List.cons.inj herr
    have hs := statement_ensures (skipSeparators ts)
    rw [hr] at hs
    have hkind : number.kind ≠ .eof := by
      rcases hs.1.2 with hk | hk <;> simp [hk]
    rw [← he] at hend
    simp [SyntaxError.ofToken, hkind] at hend
  | malformed ts token hr =>
    rw [readProgram_malformed hr] at herr
    cases herr

end Parser

end ExprLang

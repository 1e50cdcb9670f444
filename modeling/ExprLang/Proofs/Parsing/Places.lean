import ExprLang.Proofs.Parsing.Cursor

/-!
# Places of the cursor

A place of the cursor is a suffix of the tokens before the first end token. From such a place an
action goes on to another one (`Gives`) or does what a read from the list does (`Agrees`). Here
are the actions on single tokens and the loops over them.
-/

namespace ExprLang.Cursor

open ExprLang.Parser (Fault Read Ensures Shorter)

/-! ## Places -/

/-- Tokens up to and including the first end token. -/
structure Input where
  body : List Token
  stop : Token
  body_kind : ∀ t ∈ body, t.kind ≠ .eof
  stop_kind : stop.kind = .eof

namespace Input

def tokens (i : Input) (extra : List Token) : List Token := i.body ++ i.stop :: extra

/-- The cursor in front of some last tokens of the body. -/
def stateAt (i : Input) (rest : List Token) (errors : List SyntaxError) : State :=
  ⟨i.body.length - rest.length, errors⟩

/-- What a read from a list is for the cursor. -/
def outcome {α : Type} (i : Input) (errors : List SyntaxError) :
    Except Fault (Read α) → Outcome α
  | .ok r => .done r.value (i.stateAt r.rest errors)
  | .error (.unexpected what left) =>
    .failed (i.stateAt left
      (errors ++ [.ofToken (.unexpectedToken what) (left.head?.getD i.stop)]))
  | .error (.invalidNumber t left) =>
    .failed (i.stateAt left (errors ++ [.ofToken .invalidNumber t]))
  | .error (.malformed t) => .crashed (.noText t)
  | .error .outOfFuel => .crashed .outOfFuel

end Input

/-- At `ts` the action gives `a` and leaves the cursor at `us`. -/
def Gives {α : Type} (i : Input) (ts : List Token) (x : Action α) (a : α) (us : List Token) :
    Prop :=
  ∀ errors, x (i.stateAt ts errors) = .done a (i.stateAt us errors)

/-- At `ts` the action does what the read of a list does, unless that lacks fuel. -/
def Agrees {α : Type} (i : Input) (ts : List Token) (x : Action α) (r : Except Fault (Read α)) :
    Prop :=
  r ≠ .error .outOfFuel → ∀ errors, x (i.stateAt ts errors) = i.outcome errors r

section Rules

variable {α β : Type} {i : Input} {ts us vs : List Token} {x : Action α} {k : α → Action β}

theorem bind_apply (s : State) : (x >>= k) s =
    match x s with
    | .done a s => k a s
    | .failed s => .failed s
    | .crashed reason => .crashed reason := rfl

theorem bind_done {s s' : State} {a : α} (h : x s = .done a s') : (x >>= k) s = k a s' := by
  rw [bind_apply, h]

theorem gives_pure (a : α) : Gives i ts (pure a) a ts := fun _ => rfl

theorem Gives.bind {a : α} {b : β} (hx : Gives i ts x a us) (hk : Gives i us (k a) b vs) :
    Gives i ts (x >>= k) b vs := by
  intro errors
  rw [bind_apply, hx errors]
  exact hk errors

theorem Gives.agrees_iff {a : α} {r : Except Fault (Read β)} (hx : Gives i ts x a us) :
    Agrees i ts (x >>= k) r ↔ Agrees i us (k a) r := by
  simp only [Agrees, bind_apply, hx _]

theorem Gives.andThen {a : α} {r : Except Fault (Read β)} (hx : Gives i ts x a us)
    (hk : Agrees i us (k a) r) : Agrees i ts (x >>= k) r := hx.agrees_iff.mpr hk

theorem agrees_pure (a : α) : Agrees i ts (pure a) (.ok ⟨a, ts⟩) := fun _ _ => rfl

theorem Agrees.error_bind {fault : Fault} (hx : Agrees i ts x (.error fault)) :
    Agrees i ts (x >>= k) (.error fault) := by
  intro hne errors
  have hfuel : Except.error fault ≠ (.error .outOfFuel : Except Fault (Read α)) := by
    rintro ⟨⟩
    exact hne rfl
  rw [bind_apply, hx hfuel errors]
  cases fault <;> rfl

theorem Agrees.bind {Q : α → List Token → Prop} {F : Fault → Prop} {r : Except Fault (Read α)}
    {f : Read α → Except Fault (Read β)} (hx : Agrees i ts x r) (hr : Ensures Q F r)
    (hk : ∀ v rest, Q v rest → Agrees i rest (k v) (f ⟨v, rest⟩)) :
    Agrees i ts (x >>= k) (r >>= f) := by
  cases r with
  | error fault => exact hx.error_bind
  | ok v =>
    have hv : Gives i ts x v.value v.rest := hx (by simp)
    exact hv.andThen (hk v.value v.rest hr)

end Rules

/-! ## Single tokens -/

section Tokens

variable {i : Input} {extra ts us : List Token} {t : Token}

theorem length_lt_tokens (i : Input) (extra : List Token) :
    i.body.length < (i.tokens extra).length := by
  simp only [Input.tokens, List.length_append, List.length_cons]
  omega

/-- The tokens from a place on. -/
theorem drop_tokens (extra : List Token) (hs : ts <:+ i.body) :
    (i.tokens extra).drop (i.body.length - ts.length) = ts ++ i.stop :: extra := by
  obtain ⟨front, hf⟩ := hs
  have hl : i.body.length - ts.length = front.length := by
    simp only [← hf, List.length_append]
    omega
  rw [hl, Input.tokens, ← hf, List.append_assoc, List.drop_left]

theorem getElem?_tokens (extra us : List Token) (hs : us ++ ts <:+ i.body) :
    (i.tokens extra)[i.body.length - (us ++ ts).length + us.length]? =
      some (ts.head?.getD i.stop) := by
  rw [← List.getElem?_drop, drop_tokens extra hs, List.append_assoc,
    List.getElem?_append_right (Nat.le_refl _)]
  cases ts <;> simp

theorem gives_position (i : Input) (ts : List Token) :
    Gives i ts position (i.body.length - ts.length) ts := fun _ => rfl

theorem gives_tokenAt {n : Nat} (h : (i.tokens extra)[n]? = some t) :
    Gives i ts (tokenAt (i.tokens extra) n) t ts := by
  intro errors
  simp only [tokenAt, h]
  rfl

theorem gives_peek (hs : ts <:+ i.body) :
    Gives i ts (peek (i.tokens extra)) (ts.head?.getD i.stop) ts :=
  (gives_position i ts).bind (gives_tokenAt (getElem?_tokens extra [] hs))

theorem gives_peekAt (us : List Token) (hs : us ++ ts <:+ i.body) :
    Gives i (us ++ ts) (peekAt (i.tokens extra) us.length) (ts.head?.getD i.stop) (us ++ ts) := by
  have hb := length_lt_tokens i extra
  have hl := hs.length_le
  have hle : (us ++ ts).length = us.length + ts.length := List.length_append
  refine (gives_position i _).bind ?_
  rw [if_neg (by omega)]
  exact gives_tokenAt (getElem?_tokens extra us hs)

theorem gives_previous (hs : t :: ts <:+ i.body) :
    Gives i ts (previous (i.tokens extra)) t ts := by
  have hl := hs.length_le
  have hp : i.body.length - ts.length = i.body.length - (t :: ts).length + 1 := by
    simp only [List.length_cons] at hl ⊢
    omega
  refine (gives_position i ts).bind ?_
  rw [hp]
  exact gives_tokenAt (getElem?_tokens extra [] hs)

theorem gives_move (us : List Token) (hs : us ++ ts <:+ i.body) :
    Gives i (us ++ ts) (move (i.tokens extra) us.length) () ts := by
  have hl := hs.length_le
  intro errors
  have hp : i.body.length - (us ++ ts).length + us.length = i.body.length - ts.length := by
    simp only [List.length_append] at hl ⊢
    omega
  have hend : ∀ t ∈ (i.tokens extra).take (i.body.length - ts.length), t.kind ≠ .eof := by
    intro t ht
    rw [Input.tokens, List.take_append_of_le_length (by omega)] at ht
    exact i.body_kind t (List.mem_of_mem_take ht)
  simp only [move, Input.stateAt, hp]
  rw [if_pos hend]

theorem gives_move_one (hs : t :: ts <:+ i.body) :
    Gives i (t :: ts) (move (i.tokens extra) 1) () ts :=
  gives_move [t] hs

theorem gives_progressed (hs : us <:+ i.body) (h : Shorter ts us) :
    Gives i ts (progressed (i.body.length - us.length)) () ts := by
  have hl := hs.length_le
  have hlt := h.2
  refine (gives_position i ts).bind ?_
  rw [if_pos (by omega)]
  exact gives_pure ()

theorem gives_atEnd (hs : ts <:+ i.body) :
    Gives i ts (atEnd (i.tokens extra)) ts.isEmpty ts := by
  refine (gives_peek hs).bind ?_
  cases ts with
  | nil =>
    simp only [List.head?_nil, Option.getD_none, i.stop_kind]
    exact gives_pure true
  | cons t ts =>
    have ht : (t.kind == TokenKind.eof) = false := by
      simpa using i.body_kind t (hs.subset List.mem_cons_self)
    simp only [List.head?_cons, Option.getD_some, ht]
    exact gives_pure false

theorem gives_atEnd_of_ne_nil (hs : ts <:+ i.body) (hne : ts ≠ []) :
    Gives i ts (atEnd (i.tokens extra)) false ts := by
  obtain ⟨t, us, rfl⟩ := List.exists_cons_of_ne_nil hne
  exact gives_atEnd hs

theorem gives_sees {b : Bool} (p : TokenKind → Bool) (hs : ts <:+ i.body)
    (hb : (ts.head?.any fun t => p t.kind) = b) :
    Gives i ts (sees (i.tokens extra) p) b ts := by
  subst hb
  refine (gives_atEnd hs).bind ?_
  cases ts with
  | nil => exact gives_pure false
  | cons t ts => exact (gives_peek hs).bind (gives_pure _)

theorem gives_advance (hs : t :: ts <:+ i.body) :
    Gives i (t :: ts) (advance (i.tokens extra)) t ts :=
  (gives_atEnd hs).bind ((gives_move_one hs).bind (gives_previous hs))

/-- At the end the cursor stays, and there is a token behind it. -/
theorem gives_advance_nil (h : i.body ≠ []) :
    ∃ t, Gives i [] (advance (i.tokens extra)) t [] := by
  refine ⟨i.body.getLast h, (gives_atEnd List.nil_suffix).bind (gives_previous ?_)⟩
  exact ⟨i.body.dropLast, List.dropLast_concat_getLast h⟩

theorem gives_sees_kind {kind : TokenKind} (hs : t :: ts <:+ i.body) (ht : t.kind = kind) :
    Gives i (t :: ts) (sees (i.tokens extra) (· == kind)) true (t :: ts) :=
  gives_sees _ hs (beq_iff_eq.mpr ht)

theorem gives_sees_other {kind : TokenKind} (hs : ts <:+ i.body)
    (h : ∀ t ∈ ts.head?, t.kind ≠ kind) :
    Gives i ts (sees (i.tokens extra) (· == kind)) false ts := by
  refine gives_sees _ hs ?_
  cases ts with
  | nil => rfl
  | cons t ts => simpa using h t rfl

theorem gives_accept {kind : TokenKind} (hs : t :: ts <:+ i.body) (ht : t.kind = kind) :
    Gives i (t :: ts) (accept (i.tokens extra) kind) true ts :=
  (gives_sees_kind hs ht).bind ((gives_move_one hs).bind (gives_pure true))

theorem gives_accept_other {kind : TokenKind} (hs : ts <:+ i.body)
    (h : ∀ t ∈ ts.head?, t.kind ≠ kind) :
    Gives i ts (accept (i.tokens extra) kind) false ts :=
  (gives_sees_other hs h).bind (gives_pure false)

theorem gives_acceptAs {β : Type} {f : TokenKind → Option β} {b : β} (hs : t :: ts <:+ i.body)
    (h : f t.kind = some b) : Gives i (t :: ts) (acceptAs (i.tokens extra) f) (some b) ts := by
  refine (gives_atEnd hs).bind ((gives_peek hs).bind ?_)
  simp only [List.head?_cons, Option.getD_some, h]
  exact (gives_move_one hs).bind (gives_pure (some b))

theorem gives_acceptAs_none {β : Type} {f : TokenKind → Option β} (hs : ts <:+ i.body)
    (h : ∀ t ∈ ts.head?, f t.kind = none) :
    Gives i ts (acceptAs (i.tokens extra) f) none ts := by
  refine (gives_atEnd hs).bind ?_
  cases ts with
  | nil => exact gives_pure none
  | cons t ts =>
    refine (gives_peek hs).bind ?_
    simp only [List.head?_cons, Option.getD_some, h t rfl]
    exact gives_pure none

theorem agrees_fail {α : Type} (hs : ts <:+ i.body) (what : Expected) :
    Agrees i ts (do
        let t ← peek (i.tokens extra)
        (fail (.unexpectedToken what) t : Action α))
      (.error (.unexpected what ts)) :=
  (gives_peek hs).andThen fun _ _ => rfl

theorem gives_expect {kind : TokenKind} (what : Expected) (hs : t :: ts <:+ i.body)
    (ht : t.kind = kind) : Gives i (t :: ts) (expect (i.tokens extra) kind what) t ts :=
  (gives_sees_kind hs ht).bind (gives_advance hs)

theorem agrees_expect_other {kind : TokenKind} (what : Expected) (hs : ts <:+ i.body)
    (h : ∀ t ∈ ts.head?, t.kind ≠ kind) :
    Agrees i ts (expect (i.tokens extra) kind what) (.error (.unexpected what ts)) :=
  (gives_sees_other hs h).andThen (agrees_fail hs what)

theorem agrees_expect (kind : TokenKind) (what : Expected) (hs : ts <:+ i.body) :
    Agrees i ts (expect (i.tokens extra) kind what) (Parser.expect kind what ts) := by
  cases ts with
  | nil => exact agrees_expect_other what hs (by simp)
  | cons t ts =>
    simp only [Parser.expect]
    split
    · exact fun _ => gives_expect what hs (by assumption)
    · exact agrees_expect_other what hs (by simpa)

/-! ## Loops over single tokens -/

theorem gives_skipWhile (p : TokenKind → Bool) {fuel : Nat} (hs : ts <:+ i.body)
    (hf : ts.length < fuel) :
    Gives i ts (skipWhile (i.tokens extra) p fuel) () (ts.dropWhile fun t => p t.kind) := by
  induction fuel generalizing ts with
  | zero => omega
  | succ fuel ih =>
    cases ts with
    | nil => exact (gives_sees _ hs rfl).bind (gives_pure ())
    | cons t ts =>
      simp only [List.length_cons] at hf
      cases ht : p t.kind with
      | true =>
        rw [List.dropWhile_cons, if_pos ht]
        exact (gives_sees p hs ht).bind
          ((gives_move_one hs).bind (ih ((List.suffix_cons t ts).trans hs) (by omega)))
      | false =>
        rw [List.dropWhile_cons, if_neg (by simp [ht])]
        exact (gives_sees p hs ht).bind (gives_pure ())

theorem lt_rounds {n : Nat} (hl : n ≤ i.body.length) : n < rounds (i.tokens extra) := by
  have hb := length_lt_tokens i extra
  simp only [rounds]
  omega

theorem gives_skipNewlines (hs : ts <:+ i.body) :
    Gives i ts (skipNewlines (i.tokens extra)) () (Parser.skipNewlines ts) :=
  gives_skipWhile _ hs (lt_rounds hs.length_le)

theorem gives_skipSeparators (hs : ts <:+ i.body) :
    Gives i ts (skipSeparators (i.tokens extra)) () (Parser.skipSeparators ts) :=
  gives_skipWhile _ hs (lt_rounds hs.length_le)

/-- The look ahead stops at the first token that is no line break. -/
theorem gives_newlinesAhead {fuel : Nat} (us blank : List Token)
    (hs : us ++ (blank ++ ts) <:+ i.body) (hblank : ∀ t ∈ blank, t.kind = .newline)
    (hts : (ts.head?.getD i.stop).kind ≠ .newline) (hf : blank.length < fuel) :
    Gives i (us ++ (blank ++ ts)) (newlinesAhead (i.tokens extra) fuel us.length)
      (us ++ blank).length (us ++ (blank ++ ts)) := by
  -- The cursor stays where it is; what moves is the boundary between `us` and `blank`.
  induction fuel generalizing us blank with
  | zero => omega
  | succ fuel ih =>
    cases blank with
    | nil =>
      refine (gives_peekAt us hs).bind ?_
      rw [List.nil_append, if_neg hts, List.append_nil]
      exact gives_pure _
    | cons t blank =>
      have hp : Gives i _ (peekAt (i.tokens extra) us.length) t _ := gives_peekAt us hs
      have hmoved : us ++ (t :: blank ++ ts) = us ++ [t] ++ (blank ++ ts) := by simp
      have hcount : us ++ t :: blank = us ++ [t] ++ blank := by simp
      refine hp.bind ?_
      rw [if_pos (hblank t List.mem_cons_self), hmoved, hcount]
      rw [hmoved] at hs
      simp only [List.length_cons] at hf
      have h := ih (us ++ [t]) blank hs (fun b hb => hblank b (List.mem_cons_of_mem t hb))
        (by omega)
      rwa [show (us ++ [t]).length = us.length + 1 from List.length_append] at h

/-- The line breaks in front of some tokens. -/
theorem exists_blank (i : Input) (ts : List Token) :
    ∃ blank, blank ++ Parser.skipNewlines ts = ts ∧ (∀ b ∈ blank, b.kind = .newline) ∧
      ((Parser.skipNewlines ts).head?.getD i.stop).kind ≠ .newline := by
  refine ⟨ts.takeWhile fun t => t.kind == .newline, List.takeWhile_append_dropWhile, ?_, ?_⟩
  · intro b hb
    simpa using List.mem_takeWhile_imp hb
  · have h := List.head?_dropWhile_not (fun t : Token => t.kind == .newline) ts
    rw [← Parser.skipNewlines] at h
    cases hd : Parser.skipNewlines ts with
    | nil => simp [i.stop_kind]
    | cons t rest =>
      rw [hd] at h
      simpa using h

theorem gives_acceptAfterNewlines {kind : TokenKind} {rest : List Token} (hs : ts <:+ i.body)
    (hd : Parser.skipNewlines ts = t :: rest) (ht : t.kind = kind) :
    Gives i ts (acceptAfterNewlines (i.tokens extra) kind) true rest := by
  obtain ⟨blank, he, hblank, hfirst⟩ := exists_blank i ts
  rw [hd] at he hfirst
  rw [← he] at hs ⊢
  have hlen : blank.length ≤ i.body.length :=
    (List.prefix_append blank (t :: rest)).length_le.trans hs.length_le
  have hp : Gives i _ (peekAt (i.tokens extra) blank.length) t _ := gives_peekAt blank hs
  have hmove : Gives i (blank ++ t :: rest) (move (i.tokens extra) (blank.length + 1)) () rest := by
    have happ : blank ++ t :: rest = blank ++ [t] ++ rest := by simp
    have hlast : blank.length + 1 = (blank ++ [t]).length := by simp
    rw [happ] at hs ⊢
    rw [hlast]
    exact gives_move (blank ++ [t]) hs
  refine (gives_newlinesAhead [] blank hs hblank hfirst (lt_rounds hlen)).bind (hp.bind ?_)
  rw [if_pos ht]
  exact hmove.bind (gives_pure true)

theorem gives_acceptAfterNewlines_other {kind : TokenKind} (hs : ts <:+ i.body)
    (h : ((Parser.skipNewlines ts).head?.getD i.stop).kind ≠ kind) :
    Gives i ts (acceptAfterNewlines (i.tokens extra) kind) false ts := by
  obtain ⟨blank, he, hblank, hfirst⟩ := exists_blank i ts
  generalize Parser.skipNewlines ts = rest at he hfirst h
  subst he
  have hlen : blank.length ≤ i.body.length :=
    (List.prefix_append blank rest).length_le.trans hs.length_le
  refine (gives_newlinesAhead [] blank hs hblank hfirst (lt_rounds hlen)).bind
    ((gives_peekAt blank hs).bind ?_)
  rw [if_neg h]
  exact gives_pure false

theorem agrees_parameters {fuel : Nat} (hs : ts <:+ i.body) (hf : ts.length < fuel) :
    Agrees i ts (parameters (i.tokens extra) fuel) (Parser.parameters ts) := by
  induction fuel generalizing ts with
  | zero => omega
  | succ fuel ih =>
    refine (gives_position i ts).andThen ?_
    cases ts with
    | nil =>
      refine (gives_sees_other hs (by simp)).andThen ((gives_atEnd hs).andThen ?_)
      exact (agrees_expect_other .parametersEnd hs (by simp)).error_bind
    | cons t ts =>
      have hts := (List.suffix_cons t ts).trans hs
      simp only [List.length_cons] at hf
      simp only [Parser.parameters]
      split
      · rename_i hbar
        refine (gives_sees_kind hs hbar).andThen ((gives_atEnd hs).andThen ?_)
        exact (gives_expect .parametersEnd hs hbar).andThen (agrees_pure [])
      · rename_i hbar
        refine (gives_sees_other hs (by simpa)).andThen ((gives_atEnd hs).andThen ?_)
        by_cases hname : t.kind = .identifier
        · rw [if_pos hname]
          refine (gives_expect .parameterName hs hname).andThen ?_
          refine (gives_progressed hs (Parser.shorter_cons t (List.suffix_refl ts))).andThen ?_
          exact (ih hts (by omega)).bind (Parser.parameters_ensures 0 0 ts)
            fun names rest _ => agrees_pure _
        · rw [if_neg hname]
          exact (agrees_expect_other .parameterName hs (by simpa)).error_bind

end Tokens

end ExprLang.Cursor

import ExprLang.Proofs.Parsing.Grammar
import ExprLang.Proofs.Parsing.Respacing
import ExprLang.Proofs.Printing.Reading

/-!
# Tokens that are joined

A binary operator, an assignment sign and a list of arguments go on with what stands directly in
front of them, and so does `if` behind `else`. A parse without errors joins all tokens that can be
joined and no others, so a tree tells how many there are. Hence a line break between two tokens that
would join cannot be taken away without changing the tree, and all others can.
-/

namespace ExprLang

/-! ## In a tree -/

mutual

/-- How many tokens of a tree go on with the one in front of them. -/
def Expr.joints : Expr → Nat
  | .literal _ | .variable .. => 0
  | .grouping inner => inner.joints
  | .unary _ _ _ e => e.joints
  | .binary left _ _ _ right => left.joints + (1 + right.joints)
  | .assign _ _ value => 1 + value.joints
  | .block _ body => Expr.jointsAll body
  | .cond _ test yes no => test.joints + yes.joints + no.joints
  | .each _ _ items body => 1 + (items.joints + body.joints)
  | .function _ _ body => body.joints
  | .call callee _ args => callee.joints + (1 + Expr.jointsAll args)

def Expr.jointsAll : List Expr → Nat
  | [] => 0
  | e :: es => e.joints + Expr.jointsAll es

def Branches.joints : Branches → Nat
  | .done => 0
  | .otherwise body => body.joints
  | .elseIf test yes no => 1 + (test.joints + yes.joints + no.joints)

end

theorem Expr.jointsAll_mapLines {f : Int → Int} {es : List Expr}
    (h : ∀ e ∈ es, (e.mapLine f).joints = e.joints) :
    Expr.jointsAll (Expr.mapLines f es) = Expr.jointsAll es := by
  induction es with
  | nil => rfl
  | cons e es ih =>
    obtain ⟨he, hes⟩ := List.forall_mem_cons.mp h
    rw [Expr.mapLines, Expr.jointsAll, Expr.jointsAll, he, ih hes]

theorem Expr.joints_mapLine_compositional (f : Int → Int) :
    Compositional (fun e => (e.mapLine f).joints = e.joints)
      (fun b => (b.mapLine f).joints = b.joints) where
  literal _ := rfl
  var _ _ := rfl
  grouping _ hi := by simp only [Expr.mapLine, Expr.joints, hi]
  unary _ _ _ _ he := by simp only [Expr.mapLine, Expr.joints, he]
  binary _ _ _ _ _ hl hr := by simp only [Expr.mapLine, Expr.joints, hl, hr]
  assign _ _ _ hv := by simp only [Expr.mapLine, Expr.joints, hv]
  block _ _ hb := by simp only [Expr.mapLine, Expr.joints, Expr.jointsAll_mapLines hb]
  cond _ _ _ _ ht hy hn := by simp only [Expr.mapLine, Expr.joints, ht, hy, hn]
  each _ _ _ _ hi hb := by simp only [Expr.mapLine, Expr.joints, hi, hb]
  function _ _ _ hb := by simp only [Expr.mapLine, Expr.joints, hb]
  call _ _ _ hc ha := by simp only [Expr.mapLine, Expr.joints, hc, Expr.jointsAll_mapLines ha]
  done := rfl
  otherwise _ hb := by simp only [Branches.mapLine, Branches.joints, hb]
  elseIf _ _ _ ht hy hn := by simp only [Branches.mapLine, Branches.joints, ht, hy, hn]

/-- Lines do not count. -/
theorem Expr.jointsAll_unlined (es : List Expr) :
    Expr.jointsAll (es.map Expr.unlined) = Expr.jointsAll es := by
  have hlines := @Expr.jointsAll_mapLines _ es fun e _ =>
    (Expr.joints_mapLine_compositional fun _ => 0).expr e
  rwa [Expr.mapLines_eq] at hlines

namespace TokenKind

theorem joins_of_not_goesOn (left : TokenKind) {right : TokenKind} (h : right.goesOn = false)
    (hif : right ≠ .ifWord) : joins left right = false := by
  simp [joins, h, hif]

theorem joins_of_not_ends {left : TokenKind} (right : TokenKind) (h : left.endsOperand = false)
    (helse : left ≠ .elseWord) : joins left right = false := by
  simp [joins, h, helse]

theorem joins_of_ends {left right : TokenKind} (hl : left.endsOperand = true)
    (hr : right.goesOn = true) : joins left right = true := by
  simp [joins, hl, hr]

theorem not_joins_separator {kind : TokenKind} (h : kind.isSeparator = true) (other : TokenKind) :
    joins other kind = false ∧ joins kind other = false := by
  constructor
  · exact joins_of_not_goesOn other (by cases kind <;> first | rfl | cases h)
      (by rintro rfl; cases h)
  · exact joins_of_not_ends other (by cases kind <;> first | rfl | cases h)
      (by rintro rfl; cases h)

theorem not_joins_of_operator {kind : TokenKind} {l : Level} {op : BinaryOp}
    (h : l.operator? kind = some op) (right : TokenKind) : joins kind right = false := by
  obtain ⟨-, rfl⟩ := Parser.operator?_eq_some h
  cases op <;> exact joins_of_not_ends right rfl (by decide)

theorem not_joins_unary {kind : TokenKind} {op : UnaryOp} (h : UnaryOp.ofKind? kind = some op)
    (right : TokenKind) : joins kind right = false := by
  rw [Parser.ofKind?_eq_some h]
  cases op <;> exact joins_of_not_ends right rfl (by decide)

end TokenKind

namespace Parser

open TokenKind (joins)

/-! ## In a list of tokens -/

/-- How many of the tokens go on with the one directly in front of them. -/
def joints : TokenKind → List Token → Nat
  | _, [] => 0
  | before, t :: ts => (joins before t.kind).toNat + joints t.kind ts

theorem not_joins_token {t : Token} {kind : TokenKind} (hk : t.kind = kind)
    (hgoes : kind.goesOn = false) (hif : kind ≠ .ifWord) (before : TokenKind) :
    joins before t.kind = false := by
  subst hk
  exact TokenKind.joins_of_not_goesOn before hgoes hif

theorem joints_apart {before : TokenKind} {t : Token} (ts : List Token)
    (h : joins before t.kind = false) : joints before (t :: ts) = joints t.kind ts := by
  simp [joints, h]

theorem joints_joined {before : TokenKind} {t : Token} (ts : List Token)
    (h : joins before t.kind = true) : joints before (t :: ts) = 1 + joints t.kind ts := by
  simp [joints, h]

/-- No token that an expression can start with would go on with what stands in front. -/
def Fresh (before : TokenKind) (ts : List Token) : Prop :=
  ∀ t ∈ ts.head?, opens t.kind = true → joins before t.kind = false

theorem fresh_of_not_joins {before : TokenKind} (h : ∀ right, joins before right = false)
    (ts : List Token) : Fresh before ts := fun t _ _ => h t.kind

theorem Fresh.start {before : TokenKind} {t : Token} {ts : List Token}
    (h : Fresh before (t :: ts)) (ht : opens t.kind = true) : joins before t.kind = false :=
  h t rfl ht

/-- Behind a token that ends no operand. -/
theorem fresh_behind {t : Token} {kind : TokenKind} (hk : t.kind = kind)
    (hends : kind.endsOperand = false) (helse : kind ≠ .elseWord) (ts : List Token) :
    Fresh t.kind ts := by
  subst hk
  exact fresh_of_not_joins (fun right => TokenKind.joins_of_not_ends right hends helse) ts

theorem fresh_operator {kind : TokenKind} {l : Level} {op : BinaryOp}
    (h : l.operator? kind = some op) (ts : List Token) : Fresh kind ts :=
  fresh_of_not_joins (TokenKind.not_joins_of_operator h) ts

/-- Between `ts` and `rest` so many tokens go on with the one in front of them, and the last one
ends an operand. -/
def Tallies (n : Nat) (before : TokenKind) (ts rest : List Token) : Prop :=
  ∃ last : TokenKind, last.endsOperand = true ∧ joints before ts = n + joints last rest

/-- No list of arguments comes next, and no minus where one would have been read. -/
def Finished (height : Nat) (rest : List Token) : Prop :=
  ∀ t ∈ rest.head?, t.kind ≠ .leftParen ∧ (height ≤ Level.additive.height → t.kind ≠ .minus)

theorem tallies_last {t : Token} (ts : List Token) (h : t.kind.endsOperand = true) :
    Tallies 0 t.kind ts ts := ⟨t.kind, h, (Nat.zero_add _).symm⟩

theorem Tallies.apart {n : Nat} {before : TokenKind} {t : Token} {ts rest : List Token}
    (h : Tallies n t.kind ts rest) (hj : joins before t.kind = false) :
    Tallies n before (t :: ts) rest := by
  obtain ⟨last, hlast, hcount⟩ := h
  exact ⟨last, hlast, by rw [joints_apart ts hj, hcount]⟩

theorem Tallies.joined {n : Nat} {before : TokenKind} {t : Token} {ts rest : List Token}
    (h : Tallies n t.kind ts rest) (hj : joins before t.kind = true) :
    Tallies (1 + n) before (t :: ts) rest := by
  obtain ⟨last, hlast, hcount⟩ := h
  exact ⟨last, hlast, by rw [joints_joined ts hj, hcount, Nat.add_assoc]⟩

theorem Tallies.trans {m n : Nat} {before : TokenKind} {ts us rest : List Token}
    (h : Tallies m before ts us)
    (h' : ∀ last, last.endsOperand = true → Tallies n last us rest) :
    Tallies (m + n) before ts rest := by
  obtain ⟨last, hlast, hcount⟩ := h
  obtain ⟨last', hlast', hcount'⟩ := h' last hlast
  exact ⟨last', hlast', by rw [hcount, hcount', Nat.add_assoc]⟩

/-- Separators neither join nor are joined. -/
theorem exists_skipped {p : Token → Bool} (hp : ∀ t, p t = true → t.kind.isSeparator = true)
    (before : TokenKind) (ts : List Token) :
    ∃ last, (∀ n rest, Tallies n last (ts.dropWhile p) rest → Tallies n before ts rest) ∧
      (Fresh before ts → Fresh last (ts.dropWhile p)) := by
  induction ts generalizing before with
  | nil => exact ⟨before, fun _ _ => id, id⟩
  | cons t ts ih =>
    by_cases ht : p t = true
    · obtain ⟨last, htallies, hfresh⟩ := ih t.kind
      have hjoins := TokenKind.not_joins_separator (hp t ht)
      rw [List.dropWhile_cons_of_pos ht]
      refine ⟨last, fun n rest h => (htallies n rest h).apart (hjoins before).1, fun _ => hfresh ?_⟩
      exact fresh_of_not_joins (fun right => (hjoins right).2) ts
    · rw [List.dropWhile_cons_of_neg ht]
      exact ⟨before, fun _ _ => id, id⟩

theorem exists_skipNewlines (before : TokenKind) (ts : List Token) :
    ∃ last, (∀ n rest, Tallies n last (skipNewlines ts) rest → Tallies n before ts rest) ∧
      (Fresh before ts → Fresh last (skipNewlines ts)) :=
  exists_skipped (fun t ht => by simp [TokenKind.isSeparator, beq_iff_eq.mp ht]) before ts

theorem exists_skipSeparators (before : TokenKind) (ts : List Token) :
    ∃ last, (∀ n rest, Tallies n last (skipSeparators ts) rest → Tallies n before ts rest) ∧
      (Fresh before ts → Fresh last (skipSeparators ts)) :=
  exists_skipped (fun _ ht => ht) before ts

theorem tallies_skipNewlines {n : Nat} {before : TokenKind} {ts rest : List Token}
    (hf : Fresh before ts)
    (h : ∀ last, Fresh last (skipNewlines ts) → Tallies n last (skipNewlines ts) rest) :
    Tallies n before ts rest := by
  obtain ⟨last, htallies, hfresh⟩ := exists_skipNewlines before ts
  exact htallies n rest (h last (hfresh hf))

theorem tallies_skipSeparators {n : Nat} {before : TokenKind} {ts rest : List Token}
    (hf : Fresh before ts)
    (h : ∀ last, Fresh last (skipSeparators ts) → Tallies n last (skipSeparators ts) rest) :
    Tallies n before ts rest := by
  obtain ⟨last, htallies, hfresh⟩ := exists_skipSeparators before ts
  exact htallies n rest (h last (hfresh hf))

theorem finished_fresh {last : TokenKind} {rest : List Token} (h : Finished 0 rest)
    (hlast : last.endsOperand = true) : Fresh last rest := by
  intro t ht hopen
  obtain ⟨hparen, hminus⟩ := h t ht
  have hgoes : ∀ k, opens k = true → k ≠ .leftParen → k ≠ .minus → k.goesOn = false := by
    intro k hk hp hm
    cases k <;> first | rfl | exact absurd rfl hp | exact absurd rfl hm | cases hk
  have helse : last ≠ .elseWord := by
    rintro rfl
    cases hlast
  simp [joins, hgoes t.kind hopen hparen (hminus (Nat.zero_le _)), helse]

theorem finished_nil (height : Nat) : Finished height [] := by
  intro t ht
  cases ht

theorem Finished.right {l : Level} {rest : List Token} (h : Finished (heightOf l.right) rest) :
    Finished (l.height + 1) rest := by
  have hle : l.height + 1 ≤ Level.additive.height → heightOf l.right ≤ Level.additive.height := by
    cases l <;> decide
  exact fun t ht => ⟨(h t ht).1, fun hlevel => (h t ht).2 (hle hlevel)⟩

/-- The operators of a level have been looked for. -/
theorem finished_chain {l : Level} {t : Token} {ts : List Token}
    (h : Finished (l.height + 1) (t :: ts)) (hop : l.operator? t.kind = none) :
    Finished l.height (t :: ts) := by
  rintro u ⟨⟩
  refine ⟨(h t rfl).1, fun hle hminus => ?_⟩
  rw [hminus] at hop
  cases l with
  | additive => cases hop
  | multiplicative => exact absurd hle (by decide)
  | _ => exact (h t rfl).2 (by decide) hminus

/-! ## Single tokens -/

/-- A single token that is an operand. -/
theorem tallies_single {before : TokenKind} {t : Token} {ts : List Token}
    (hf : Fresh before (t :: ts)) (hopen : opens t.kind = true)
    (hend : t.kind.endsOperand = true) : Tallies 0 before (t :: ts) ts :=
  (tallies_last ts hend).apart (hf.start hopen)

theorem tallies_literal {before : TokenKind} {t : Token} {ts : List Token} {value : Literal}
    (hf : Fresh before (t :: ts)) (h : t.literal? = some value) :
    Tallies 0 before (t :: ts) ts := by
  have hopens : ∀ kind ∈ TokenKind.literals, opens kind = true := by decide
  exact tallies_single hf (hopens _ (Token.kind_mem_of_literal? h)) (endsOperand_of_literal? h)

/-- A closing token ends a list. -/
theorem tallies_close {close before : TokenKind} {t : Token} (ts : List Token) (hk : t.kind = close)
    (hclose : close.goesOn = false) (hif : close ≠ .ifWord) (hend : close.endsOperand = true) :
    Tallies 0 before (t :: ts) ts := by
  have hlast : t.kind.endsOperand = true := by rw [hk, hend]
  exact (tallies_last ts hlast).apart (not_joins_token hk hclose hif before)

/-! ## Phrases -/

/-- What does not come next once a phrase has been read. -/
def Phrase.Finishes : Phrase → List Token → List Token → Prop
  | .operand l, _, rest => Finished (heightOf l) rest
  | .chain l _, ts, rest => Finished (l.height + 1) ts → Finished l.height rest
  | .unary, _, rest | .calls _, _, rest => Finished 7 rest
  | _, _, _ => True

theorem Derives.finishes {p : Phrase} {ts rest : List Token} {v : p.Value}
    (h : Derives p ts v rest) : p.Finishes ts rest := by
  induction h with
  | unaryOperand _ ih | sign _ _ ih => exact ih
  | level _ _ hfirst hmore =>
    rw [Phrase.Finishes, heightOf_tighter] at hfirst
    exact hmore hfirst
  | @chainEnd l _ ts hend =>
    cases ts with
    | nil => exact fun _ => finished_nil _
    | cons t ts => exact fun h => finished_chain h (hend t rfl)
  | operator hop _ _ hsecond hmore =>
    obtain ⟨rfl, -⟩ := operator?_eq_some hop
    exact fun _ => hmore (Finished.right hsecond)
  | unsigned _ _ _ _ hmore | call _ _ _ _ hmore => exact hmore
  | callsEnd hend => exact fun t ht => ⟨hend t ht, fun hle => absurd hle (by decide)⟩
  | _ => trivial

/-- An expression behind what ends with an operand. -/
theorem Tallies.next {m n : Nat} {before : TokenKind} {ts us rest : List Token}
    (h : Tallies m before ts us) (hfinished : Finished 0 us)
    (h' : ∀ last, Fresh last us → Tallies n last us rest) : Tallies (m + n) before ts rest :=
  h.trans fun last hlast => h' last (finished_fresh hfinished hlast)

/-- How many tokens of a phrase are joined if it stands behind a token of kind `before`, or if it
goes on from what does. -/
def Phrase.Joined : (p : Phrase) → TokenKind → List Token → p.Value → List Token → Prop
  | .operand _, before, ts, e, rest | .unary, before, ts, e, rest | .primary, before, ts, e, rest =>
    Fresh before ts → Tallies e.joints before ts rest
  | .chain _ left, before, ts, e, rest | .calls left, before, ts, e, rest =>
    ∀ start, Tallies left.joints before start ts → Tallies e.joints before start rest
  | .arguments, before, ts, es, rest | .moreArguments, before, ts, es, rest
  | .block, before, ts, es, rest => Fresh before ts → Tallies (Expr.jointsAll es) before ts rest
  | .parameters, before, ts, _, rest => joints before ts = joints .bar rest
  | .branches, before, ts, b, rest =>
    ∀ n start, Tallies n before start ts → Tallies (n + b.joints) before start rest

theorem Tallies.then_skipNewlines {m n : Nat} {before : TokenKind} {ts us rest : List Token}
    (h : Tallies m before ts us) (h' : ∀ last, Tallies n last (skipNewlines us) rest) :
    Tallies (m + n) before ts rest := by
  refine h.trans fun last _ => ?_
  obtain ⟨last', htallies, -⟩ := exists_skipNewlines last us
  exact htallies n rest (h' last')

/-- The line breaks before `else` are read with it. -/
theorem Tallies.then_else {m n : Nat} {before : TokenKind} {t : Token}
    {start ts us rest : List Token} (h : Tallies m before start ts)
    (hts : skipNewlines ts = t :: us) (hk : t.kind = .elseWord) (h' : Tallies n t.kind us rest) :
    Tallies (m + n) before start rest := by
  refine h.then_skipNewlines fun last => ?_
  rw [hts]
  exact h'.apart (not_joins_token hk rfl (by decide) last)

/-- The trees that can be derived join all tokens that can be joined. -/
theorem Derives.joined {p : Phrase} {ts rest : List Token} {v : p.Value}
    (h : Derives p ts v rest) (before : TokenKind) : p.Joined before ts v rest := by
  induction h generalizing before with
  | unaryOperand _ ih => exact fun hf => tallies_skipNewlines hf ih
  | level _ _ hfirst hmore => exact fun hf => hmore before _ (hfirst before hf)
  | chainEnd | callsEnd => exact fun _ => id
  | @operator l op t ts _ _ _ _ _ hop _ _ hsecond hmore =>
    intro start h
    refine hmore before start (h.trans fun last hlast => ?_)
    exact (hsecond t.kind (fresh_operator hop ts)).joined
      (TokenKind.joins_of_ends hlast (goesOn_of_operator? hop))
  | @sign op t ts _ _ hop _ ih =>
    intro hf
    have hopen : opens t.kind = true := by
      rw [ofKind?_eq_some hop]
      cases op <;> rfl
    have hbehind := fresh_of_not_joins (TokenKind.not_joins_unary hop) ts
    exact (tallies_skipNewlines hbehind ih).apart (hf.start hopen)
  | unsigned _ _ _ hfirst hmore => exact fun hf => hmore before _ (hfirst before hf)
  | @call _ _ _ ts _ _ _ hk _ _ hlist hmore =>
    intro start h
    refine hmore before start (h.trans fun last hlast => ?_)
    exact (tallies_skipNewlines (fresh_behind hk rfl (by decide) ts) hlist).joined
      (TokenKind.joins_of_ends hlast (by rw [hk]; rfl))
  | noArguments hk | argumentsEnd hk | blockEnd hk =>
    exact fun _ => tallies_close _ hk rfl (by decide) rfl
  | firstArgument _ first _ hfirst hmore =>
    intro hf
    exact (hfirst before hf).next first.finishes fun last hl => tallies_skipNewlines hl hmore
  | @nextArgument t ts _ _ _ _ hk first _ hfirst hmore =>
    intro _
    have hlist := (hfirst t.kind (fresh_behind hk rfl (by decide) ts)).next first.finishes
      fun last hl => tallies_skipNewlines hl hmore
    exact hlist.apart (not_joins_token hk rfl (by decide) before)
  | statement _ first _ hfirst hmore =>
    intro hf
    exact (hfirst before hf).next first.finishes fun last hl => tallies_skipSeparators hl hmore
  | literal ht => exact fun hf => tallies_literal hf ht
  | reference hk => exact fun hf => tallies_single hf (by rw [hk]; rfl) (by rw [hk]; rfl)
  | @assignment t sign ts _ _ hk hsign _ ih =>
    intro hf
    have hvalue := ih sign.kind (fresh_behind hsign rfl (by decide) ts)
    exact (hvalue.joined (by rw [hk, hsign]; rfl)).apart (hf.start (by rw [hk]; rfl))
  | @grouping t close ts us rest _ hk _ hclose hrest ih =>
    intro hf
    have hend : ∀ last, Tallies 0 last (skipNewlines us) rest := by
      intro last
      rw [hrest]
      exact tallies_close rest hclose rfl (by decide) rfl
    have hinner := ih t.kind (fresh_behind hk rfl (by decide) ts)
    exact (hinner.then_skipNewlines hend).apart (hf.start (by rw [hk]; rfl))
  | @braces _ ts _ _ hk _ ih =>
    intro hf
    exact (tallies_skipSeparators (fresh_behind hk rfl (by decide) ts) ih).apart
      (hf.start (by rw [hk]; rfl))
  | @function t ts us rest _ body hk _ _ hlist ih =>
    intro hf
    have hbar : Fresh .bar us := fresh_of_not_joins (fun right =>
      TokenKind.joins_of_not_ends right rfl (by decide)) us
    obtain ⟨last, hlast, hcount⟩ := ih .bar hbar
    have hparts : Tallies body.joints t.kind ts rest := ⟨last, hlast, (hlist t.kind).trans hcount⟩
    exact hparts.apart (hf.start (by rw [hk]; rfl))
  | @loop t name sign ts _ _ _ _ hk hname hsign first _ hfirst hsecond =>
    intro hf
    have hparts := (hfirst sign.kind (fresh_behind hsign rfl (by decide) ts)).next first.finishes
      hsecond
    exact ((hparts.joined (by rw [hname, hsign]; rfl)).apart (by rw [hk, hname]; rfl)).apart
      (hf.start (by rw [hk]; rfl))
  | @conditional t ts _ _ _ _ _ _ hk first _ _ hfirst hsecond hmore =>
    intro hf
    have hparts := (hfirst t.kind (fresh_behind hk rfl (by decide) ts)).next first.finishes hsecond
    exact (hmore t.kind _ ts hparts).apart (hf.start (by rw [hk]; rfl))
  | @parametersEnd t ts hk =>
    show joints before (t :: ts) = joints .bar ts
    rw [joints_apart ts (not_joins_token hk rfl (by decide) before), hk]
  | @parameter t ts rest _ hk _ ih =>
    show joints before (t :: ts) = joints .bar rest
    rw [joints_apart ts (not_joins_token hk rfl (by decide) before)]
    exact ih t.kind
  | noElse => exact fun _ _ => id
  | @otherwise t ts us _ _ hts hk hother _ ih =>
    intro n start h
    have hbody : Fresh t.kind us := fun u hu _ => by
      simp [joins, hk, hother u hu, TokenKind.endsOperand]
    exact h.then_else hts hk (ih t.kind hbody)
  | @elseIf t u ts us _ _ _ _ _ _ hts hk hif first _ _ hfirst hsecond hmore =>
    intro n start h
    have hparts := (hfirst u.kind (fresh_behind hif rfl (by decide) us)).next first.finishes hsecond
    have htail := hmore u.kind _ us hparts
    exact h.then_else hts hk (htail.joined (by rw [hk, hif]; rfl))

/-! ## Programs -/

theorem statement_joints {before : TokenKind} {ts rest : List Token} {e : Expr}
    (h : statement ts = .ok ⟨e, rest⟩) (hf : Fresh before ts) :
    Tallies e.joints before ts rest ∧ Finished 0 rest :=
  ⟨(derives_of_statement h).joined before hf, (derives_of_statement h).finishes⟩

/-- The trees of a program without errors join all tokens that can be joined. -/
theorem readProgram_joints {stop : Token} {before : TokenKind} {ts : List Token}
    (hf : Fresh before ts) (herr : (readProgram stop ts).errors = [])
    (hmal : (readProgram stop ts).malformed = none) :
    joints before ts = Expr.jointsAll (readProgram stop ts).statements := by
  induction ts using readProgram_induct generalizing before with
  | blank ts hd =>
    obtain ⟨last, htallies, -⟩ := exists_skipSeparators before ts
    have hnone : Tallies 0 last (skipSeparators ts) [] := by
      rw [hd]
      exact ⟨.identifier, rfl, rfl⟩
    obtain ⟨last', -, hcount⟩ := htallies 0 [] hnone
    rw [hcount, readProgram_nil hd]
    rfl
  | read ts e left hr ih =>
    rw [readProgram_ok hr] at herr hmal ⊢
    obtain ⟨last, htallies, hfresh⟩ := exists_skipSeparators before ts
    obtain ⟨hstatement, hleft⟩ := statement_joints hr (hfresh hf)
    obtain ⟨last', hlast', hcount⟩ := htallies _ _ hstatement
    rw [hcount, ih (finished_fresh hleft hlast') herr hmal]
    rfl
  | unexpected ts what left hne hr ih =>
    rw [readProgram_unexpected hne hr] at herr
    cases herr
  | invalidNumber ts number left hr ih =>
    rw [readProgram_invalidNumber hr] at herr
    cases herr
  | malformed ts token hr =>
    rw [readProgram_malformed hr] at hmal
    cases hmal

/-! ## Line breaks taken away -/

def withoutBreaks (ts : List Token) : List Token := ts.filter fun t => t.kind != .newline

/-- Every line break stands between tokens that would not join without it. -/
def BreaksApart : TokenKind → List Token → Prop
  | _, [] => True
  | before, t :: ts =>
    (t.kind = .newline → ∀ u ∈ (skipNewlines ts).head?, joins before u.kind = false) ∧
      BreaksApart t.kind ts

instance decidableBreaksApart : (before : TokenKind) → (ts : List Token) →
    Decidable (BreaksApart before ts)
  | _, [] => inferInstanceAs (Decidable True)
  | _, t :: ts =>
    have := decidableBreaksApart t.kind ts
    inferInstanceAs (Decidable (_ ∧ _))

theorem head?_withoutBreaks (ts : List Token) :
    (withoutBreaks ts).head? = (skipNewlines ts).head? := by
  have hfind := List.find?_not_eq_head?_dropWhile (p := fun t : Token => t.kind == .newline)
    (l := ts)
  rw [withoutBreaks, List.head?_filter, skipNewlines, ← hfind]
  rfl

theorem withoutBreaks_newline {t : Token} (ht : t.kind = .newline) (ts : List Token) :
    withoutBreaks (t :: ts) = withoutBreaks ts := List.filter_cons_of_neg (by simp [ht])

theorem withoutBreaks_cons {t : Token} (ht : t.kind ≠ .newline) (ts : List Token) :
    withoutBreaks (t :: ts) = t :: withoutBreaks ts := List.filter_cons_of_pos (by simpa using ht)

/-- Behind a line break it does not matter what stood in front of it. -/
theorem BreaksApart.behind {before : TokenKind} {ts : List Token}
    (hgap : ∀ u ∈ (skipNewlines ts).head?, joins before u.kind = false)
    (h : BreaksApart .newline ts) : BreaksApart before ts := by
  cases ts with
  | nil => trivial
  | cons t ts =>
    refine ⟨fun ht => ?_, h.2⟩
    have hskip : skipNewlines (t :: ts) = skipNewlines ts :=
      List.dropWhile_cons_of_pos (by simp [ht])
    rwa [hskip] at hgap

theorem BreaksApart.respaced {before : TokenKind} {ts : List Token} (h : BreaksApart before ts) :
    Respaced before ts (withoutBreaks ts) := by
  induction ts generalizing before with
  | nil => exact .nil before
  | cons t ts ih =>
    by_cases ht : t.kind = .newline
    · rw [withoutBreaks_newline ht]
      have hbehind := h.2
      rw [ht] at hbehind
      exact .delete ht (h.1 ht) (ih (hbehind.behind (h.1 ht)))
    · rw [withoutBreaks_cons ht]
      exact .keep t (ih h.2)

theorem joints_newline_le (before : TokenKind) (ts : List Token) :
    joints .newline ts ≤ joints before ts := by
  cases ts with
  | nil => exact Nat.le_refl _
  | cons t ts =>
    rw [joints_apart ts (TokenKind.not_joins_separator rfl t.kind).2]
    exact Nat.le_add_left _ _

theorem joints_newline {before : TokenKind} {t : Token} (ht : t.kind = .newline)
    (ts : List Token) : joints before (t :: ts) = joints .newline ts := by
  rw [joints_apart ts (not_joins_token ht rfl (by decide) before), ht]

theorem joints_le_withoutBreaks (before : TokenKind) (ts : List Token) :
    joints before ts ≤ joints before (withoutBreaks ts) := by
  induction ts generalizing before with
  | nil => exact Nat.le_refl _
  | cons t ts ih =>
    by_cases ht : t.kind = .newline
    · rw [withoutBreaks_newline ht, joints_newline ht]
      exact Nat.le_trans (joints_newline_le before ts) (ih before)
    · rw [withoutBreaks_cons ht]
      exact Nat.add_le_add_left (ih t.kind) _

/-- Without the line breaks more tokens join, unless none of them kept two apart. -/
theorem breaksApart_of_joints {before : TokenKind} {ts : List Token}
    (h : joints before (withoutBreaks ts) = joints before ts) : BreaksApart before ts := by
  induction ts generalizing before with
  | nil => trivial
  | cons t ts ih =>
    by_cases ht : t.kind = .newline
    · rw [withoutBreaks_newline ht, joints_newline ht] at h
      have hle := joints_le_withoutBreaks .newline ts
      have hle' := joints_newline_le before (withoutBreaks ts)
      refine ⟨fun _ u hu => ?_, ?_⟩
      · rw [← head?_withoutBreaks] at hu
        obtain ⟨us, hus⟩ := List.head?_eq_some_iff.mp hu
        rw [hus] at h hle hle'
        rw [joints_apart us (TokenKind.not_joins_separator rfl u.kind).2] at hle hle'
        by_contra hjoin
        rw [joints_joined us (by simpa using hjoin)] at h
        omega
      · rw [ht]
        exact ih (by omega)
    · rw [withoutBreaks_cons ht] at h
      exact ⟨fun hn => absurd hn ht, ih (Nat.add_left_cancel h)⟩

/-- The line breaks can be taken out of a program without errors exactly if none of them keeps two
tokens apart that would join. -/
theorem readProgram_withoutBreaks_iff {stop : Token} (stop' : Token) {ts : List Token}
    (herr : (readProgram stop ts).errors = []) (hmal : (readProgram stop ts).malformed = none) :
    BreaksApart .newline ts ↔
      (readProgram stop' (withoutBreaks ts)).errors = [] ∧
        (readProgram stop' (withoutBreaks ts)).malformed = none ∧
        (readProgram stop' (withoutBreaks ts)).statements.map Expr.unlined =
          (readProgram stop ts).statements.map Expr.unlined := by
  constructor
  · intro h
    have hsame : readProgram stop' (withoutBreaks ts) = readProgram stop ts :=
      readProgram_respaced h.respaced herr hmal
    rw [hsame]
    exact ⟨herr, hmal, rfl⟩
  · rintro ⟨herr', hmal', hsame⟩
    have hfresh : ∀ us, Fresh .newline us := fresh_of_not_joins fun right =>
      (TokenKind.not_joins_separator rfl right).2
    have hcount := congrArg Expr.jointsAll hsame
    rw [Expr.jointsAll_unlined, Expr.jointsAll_unlined, ← readProgram_joints (hfresh _) herr hmal,
      ← readProgram_joints (hfresh _) herr' hmal'] at hcount
    exact breaksApart_of_joints hcount

end Parser

end ExprLang

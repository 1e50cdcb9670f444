import ExprLang.Proofs.Parsing.Scanned
import ExprLang.Proofs.Printing.Reading

/-!
# Printing and reading back

Each construct is read back from its tokens, given that its parts are, so a printed program is read
as the normal forms of its statements.
-/

namespace ExprLang

namespace Parser

/-! ## Operands and branches in place -/

def operandTokens (e : Expr) : List Token := bareTokens (e.operandPieces e.pieces)

def branchTokens (e : Expr) : List Token := bareTokens (e.branchPieces e.pieces)

theorem operandTokens_closed {e : Expr} (h : e.isClosed = true) :
    operandTokens e = bareTokens e.pieces := by
  rw [operandTokens, Expr.operandPieces, if_pos h]

theorem operandTokens_open {e : Expr} (h : ¬e.isClosed = true) :
    operandTokens e =
      markToken .leftParen "(" :: (bareTokens e.pieces ++ [markToken .rightParen ")"]) := by
  rw [operandTokens, Expr.operandPieces, if_neg h, List.cons_append, bareTokens_mark,
    bareTokens_append]
  rfl

theorem branchTokens_block {e : Expr} (h : e.isBlock = true) :
    branchTokens e = bareTokens e.pieces := by
  rw [branchTokens, Expr.branchPieces, if_pos h]

theorem branchTokens_bare {e : Expr} (h : ¬e.isBlock = true) :
    branchTokens e =
      markToken .leftBrace "\x7b" :: (bareTokens e.pieces ++ [markToken .rightBrace "\x7d"]) := by
  rw [branchTokens, Expr.branchPieces, if_neg h, bareTokens_append, bareTokens_append]
  rfl

theorem ReadsBack.opens_operand {e : Expr} (h : ReadsBack e) : Opens (operandTokens e) := by
  by_cases hc : e.isClosed = true
  · rw [operandTokens_closed hc]
    exact h.opens
  · rw [operandTokens_open hc]
    exact ⟨_, _, rfl, rfl⟩

theorem ReadsBack.readUnary_operand {e : Expr} (h : ReadsBack e) {rest : List Token}
    (hr : NoAssign rest) :
    readUnary (operandTokens e ++ rest) = readCalls (groupedNormal e) rest := by
  by_cases hc : e.isClosed = true
  · rw [operandTokens_closed hc, h.closed hc rest hr, groupedNormal, Expr.grouped, if_pos hc]
    rfl
  · rw [operandTokens_open hc, List.cons_append, List.append_assoc, List.singleton_append,
      readUnary_primary rfl (readPrimary_group h.whole rest), groupedNormal, Expr.grouped,
      if_neg hc]
    rfl

/-- An operand is read where no call, no assignment and no operator of its level follows. -/
theorem ReadsBack.readOperand_operand {e : Expr} (h : ReadsBack e) {l : Option Level} {t : Token}
    {us : List Token} (hp : t.kind ≠ .leftParen) (ha : t.kind ≠ .assign) (hq : Quiet l (t :: us)) :
    readOperand l (operandTokens e ++ t :: us) = .ok ⟨groupedNormal e, t :: us⟩ := by
  refine readOperand_of_unary ?_ hq
  rw [(h.opens_operand.append _).skipNewlines, h.readUnary_operand (noAssign_cons us ha),
    readCalls_cons, if_neg hp]

theorem ReadsBack.readOperand_last {e : Expr} (h : ReadsBack e) {rest : List Token}
    (hr : Apart rest) (l : Option Level) :
    readOperand l (operandTokens e ++ rest) = .ok ⟨groupedNormal e, rest⟩ := by
  refine readOperand_of_unary ?_ (quiet_of_apart hr l)
  rw [(h.opens_operand.append _).skipNewlines, h.readUnary_operand hr.noAssign, readCalls_apart hr]

theorem exists_branchTokens (e : Expr) :
    ∃ us, branchTokens e = markToken .leftBrace "\x7b" :: us := by
  by_cases hb : e.isBlock = true
  · rw [branchTokens_block hb]
    cases e with
    | block line body => cases body <;> exact ⟨_, rfl⟩
    | _ => cases hb
  · exact ⟨_, branchTokens_bare hb⟩

theorem ReadsBack.readOperand_branch {e : Expr} (h : ReadsBack e) {rest : List Token}
    (hr : Apart rest) :
    readOperand (some .or) (branchTokens e ++ rest) = .ok ⟨bracedNormal e, rest⟩ := by
  have hunary : readUnary (branchTokens e ++ rest) = readCalls (bracedNormal e) rest := by
    by_cases hb : e.isBlock = true
    · have hc : e.isClosed = true := by
        cases e with
        | block line body => rfl
        | _ => cases hb
      rw [branchTokens_block hb, h.closed hc rest hr.noAssign, bracedNormal, Expr.braced, if_pos hb]
      rfl
    · have hblock : readBlock (bareTokens e.pieces ++ markToken .rightBrace "\x7d" :: rest) =
          .ok ⟨[normal e], rest⟩ := readBlock_statements h (List.forall_mem_nil _) rest
      rw [branchTokens_bare hb, List.cons_append, List.append_assoc, List.singleton_append,
        readUnary_primary rfl (readPrimary_block (h.opens.append _).skipSeparators hblock),
        bracedNormal, Expr.braced, if_neg hb]
      rfl
  obtain ⟨us, hus⟩ := exists_branchTokens e
  have ho : Opens (branchTokens e ++ rest) := by
    rw [hus]
    exact ⟨_, _, rfl, rfl⟩
  refine whole_of_unary ho ?_ hr
  rw [hunary, readCalls_apart hr]

/-- The operand before a branch. -/
theorem ReadsBack.readOperand_test {e : Expr} (h : ReadsBack e) (yes : Expr) (rest : List Token) :
    readOperand (some .or) (operandTokens e ++ (branchTokens yes ++ rest)) =
      .ok ⟨groupedNormal e, branchTokens yes ++ rest⟩ := by
  obtain ⟨us, hus⟩ := exists_branchTokens yes
  rw [hus]
  exact h.readOperand_last (apart_cons _ (by decide) (by decide) rfl) _

/-! ## Constructs -/

theorem readsBack_literal {value : Literal} (h : value.isWellFormed = true) :
    ReadsBack (.literal value) := by
  cases value with
  | bool b =>
    cases b with
    | false =>
      apply ReadsBack.of_closed ⟨_, _, rfl, rfl⟩
      intro rest _
      exact readUnary_primary rfl (readPrimary_false rfl rest)
    | true =>
      apply ReadsBack.of_closed ⟨_, _, rfl, rfl⟩
      intro rest _
      exact readUnary_primary rfl (readPrimary_true rfl rest)
  | int n =>
    have hn : 0 ≤ n := by simpa [Literal.isWellFormed] using h
    apply ReadsBack.of_closed ⟨_, _, rfl, rfl⟩
    intro rest _
    refine readUnary_primary rfl ?_
    rw [readPrimary_int rfl, intLiteral, Number.readInt?_intText hn]
    rfl
  | float x =>
    obtain ⟨ds, fs, -, -, -, hread⟩ := Number.floatText_eq h
    apply ReadsBack.of_closed ⟨_, _, rfl, rfl⟩
    intro rest _
    refine readUnary_primary rfl ?_
    rw [readPrimary_float rfl, floatLiteral, hread]
    rfl
  | string s =>
    apply ReadsBack.of_closed ⟨_, _, rfl, rfl⟩
    intro rest _
    exact readUnary_primary rfl (readPrimary_string rfl rest)

theorem readsBack_variable (name : Bytes) (line : Int) : ReadsBack (.variable name line) := by
  apply ReadsBack.of_closed ⟨_, _, rfl, rfl⟩
  intro rest hr
  refine readUnary_primary rfl ?_
  cases rest with
  | nil => exact readPrimary_name_nil rfl
  | cons t us => exact (readPrimary_name_cons rfl t us).trans (if_neg (hr t us rfl))

theorem readsBack_grouping {inner : Expr} (h : ReadsBack inner) : ReadsBack (.grouping inner) := by
  have htokens : bareTokens (Expr.grouping inner).pieces =
      markToken .leftParen "(" :: (bareTokens inner.pieces ++ [markToken .rightParen ")"]) := by
    rw [Expr.pieces, List.cons_append, bareTokens_mark, bareTokens_append]
    rfl
  apply ReadsBack.of_closed ⟨_, _, htokens, rfl⟩
  intro rest _
  rw [htokens, List.cons_append, List.append_assoc]
  exact readUnary_primary rfl (readPrimary_group h.whole rest)

theorem readsBack_unary {op : UnaryOp} {spelling : Bytes} {line : Int} {e : Expr}
    (h : ReadsBack e) : ReadsBack (.unary op spelling line e) := by
  have htokens : bareTokens (Expr.unary op spelling line e).pieces =
      ⟨op.kind, spelling, none, 0⟩ :: operandTokens e := rfl
  apply ReadsBack.of_open rfl ⟨_, _, htokens, by cases op <;> rfl⟩
  intro rest hr
  have hop : UnaryOp.ofKind? op.kind = some op := by cases op <;> rfl
  rw [htokens, List.cons_append, readUnary_cons, hop]
  simp only
  rw [(h.opens_operand.append rest).skipNewlines, h.readUnary_operand hr.1.noAssign,
    readCalls_apart hr.1, ok_bind]
  rfl

theorem kind_ne (op : BinaryOp) : op.kind ≠ .leftParen ∧ op.kind ≠ .assign := by
  cases op <;> decide

theorem operator?_kind (l : Level) (op : BinaryOp) :
    l.operator? op.kind = if op.level = l then some op else none := by
  have hk : BinaryOp.ofKind? op.kind = some op := by cases op <;> rfl
  simp [Level.operator?, hk, Option.filter]

theorem quiet_operator {op : BinaryOp} {t : Token} (ht : t.kind = op.kind) (us : List Token) :
    Quiet op.level.tighter (t :: us) := by
  intro u vs hu m hm
  have hrank := rank_tighter op.level
  have hne : op.level ≠ m := by
    rintro rfl
    omega
  rw [← (List.cons.inj hu).1, ht, operator?_kind, if_neg hne]

theorem readsBack_binary {left right : Expr} {op : BinaryOp} {spelling : Bytes} {line : Int}
    (hl : ReadsBack left) (hr : ReadsBack right) :
    ReadsBack (.binary left op spelling line right) where
  opens := by
    rw [Expr.pieces, bareTokens_append, bareTokens_append]
    exact (hl.opens_operand.append _).append _
  whole rest hrest := by
    have htokens : bareTokens (Expr.binary left op spelling line right).pieces ++ rest =
        operandTokens left ++ ⟨op.kind, spelling, none, 0⟩ :: (operandTokens right ++ rest) := by
      rw [Expr.pieces, bareTokens_append, bareTokens_append, List.append_assoc, List.append_assoc]
      rfl
    obtain ⟨hparen, hassign⟩ := kind_ne op
    have hleft : readOperand op.level.tighter (operandTokens left ++
        ⟨op.kind, spelling, none, 0⟩ :: (operandTokens right ++ rest)) =
        .ok ⟨groupedNormal left, ⟨op.kind, spelling, none, 0⟩ :: (operandTokens right ++ rest)⟩ :=
      hl.readOperand_operand hparen hassign (quiet_operator rfl _)
    have hop : op.level.operator? op.kind = some op := by rw [operator?_kind, if_pos rfl]
    have hread : readOperand (some op.level) (operandTokens left ++
        ⟨op.kind, spelling, none, 0⟩ :: (operandTokens right ++ rest)) =
        .ok ⟨normal (.binary left op spelling line right), rest⟩ := by
      rw [readOperand_some, hleft, ok_bind]
      dsimp only
      rw [readChain_cons, hop]
      dsimp only
      rw [hr.readOperand_last hrest.1, ok_bind]
      exact readChain_quiet _ fun t us ht => operator?_eq_none _ (hrest.1 t us ht).2.2
    rw [htokens]
    exact readOperand_or hread hrest.1
  closed hc := by cases hc

theorem readsBack_assign {name : Bytes} {line : Int} {value : Expr} (h : ReadsBack value) :
    ReadsBack (.assign name line value) := by
  have htokens : bareTokens (Expr.assign name line value).pieces =
      nameToken name :: markToken .assign ":=" :: bareTokens value.pieces := rfl
  apply ReadsBack.of_open rfl ⟨_, _, htokens, rfl⟩
  intro rest hr
  have hprimary : readPrimary (nameToken name)
      (markToken .assign ":=" :: (bareTokens value.pieces ++ rest)) =
      .ok ⟨normal (.assign name line value), rest⟩ := by
    have hassign : (markToken .assign ":=").kind = .assign := rfl
    rw [readPrimary_name_cons rfl, if_pos hassign, h.whole rest hr, ok_bind]
    rfl
  rw [htokens, List.cons_append, List.cons_append, readUnary_primary rfl hprimary,
    readCalls_apart hr.1]

theorem map_unlined_norm (es : List Expr) :
    Expr.mapLines (fun _ => 0) (Expr.normAll es) = es.map normal := by
  rw [Expr.mapLines_eq, Expr.normAll_eq, List.map_map]
  rfl

theorem readsBack_block {line : Int} {body : List Expr} (h : ∀ e ∈ body, ReadsBack e) :
    ReadsBack (.block line body) := by
  cases body with
  | nil =>
    apply ReadsBack.of_closed ⟨_, _, rfl, rfl⟩
    intro rest _
    exact readUnary_primary rfl (readPrimary_block rfl (readBlock_cons _ _))
  | cons e es =>
    obtain ⟨he, hes⟩ := List.forall_mem_cons.mp h
    have htokens : bareTokens (Expr.block line (e :: es)).pieces =
        markToken .leftBrace "\x7b" :: (bareTokens e.pieces ++
          (moreStatements es ++ [markToken .rightBrace "\x7d"])) := by
      rw [Expr.pieces, Expr.piecesAll_eq, bareTokens_append, bareTokens_append,
        bareTokens_intercalate, List.flatMap_map, List.append_assoc, List.append_assoc]
      rfl
    apply ReadsBack.of_closed ⟨_, _, htokens, rfl⟩
    intro rest _
    rw [htokens, List.cons_append, List.append_assoc, List.append_assoc, List.singleton_append]
    have hblock := readBlock_statements he hes rest
    rw [readUnary_primary rfl (readPrimary_block (he.opens.append _).skipSeparators hblock)]
    simp only [normal, Expr.norm, Expr.unlined, Expr.mapLine, map_unlined_norm]
    rfl

/-- How the tokens of the branches behind the first one are read. -/
structure BranchesReadBack (b : Branches) : Prop where
  apart : ∀ rest, Apart rest → Apart (bareTokens b.pieces ++ rest)
  whole : ∀ rest, Ends rest →
    readBranches (bareTokens b.pieces ++ rest) = .ok ⟨b.norm.mapLine fun _ => 0, rest⟩

theorem branchesReadBack_done : BranchesReadBack .done where
  apart _ hr := hr
  whole rest hr := by
    have htokens : bareTokens Branches.done.pieces ++ rest = rest := rfl
    rw [htokens, readBranches_eq]
    cases hs : skipNewlines rest with
    | nil => rfl
    | cons t us =>
      dsimp only
      rw [if_neg (hr.2 t us hs)]
      rfl

/-- Behind `else`. -/
theorem readBranches_else (t : Token) (us : List Token) :
    readBranches (markToken .elseWord "else" :: t :: us) =
      (if t.kind = .ifWord then do
        let ⟨test, us⟩ ← readOperand (some .or) us
        let ⟨yes, us⟩ ← readOperand (some .or) us
        let ⟨no, us⟩ ← readBranches us
        .ok ⟨.elseIf test yes no, us⟩
      else do
        let ⟨body, us⟩ ← readOperand (some .or) (t :: us)
        .ok ⟨.otherwise body, us⟩) := readBranches_eq _

theorem branchesReadBack_otherwise {body : Expr} (h : ReadsBack body) :
    BranchesReadBack (.otherwise body) where
  apart rest _ := apart_cons _ (by decide) (by decide) rfl
  whole rest hr := by
    have htokens : bareTokens (Branches.otherwise body).pieces =
        markToken .elseWord "else" :: branchTokens body := rfl
    have hread := h.readOperand_branch hr.1
    obtain ⟨us, hus⟩ := exists_branchTokens body
    have hbrace : (markToken .leftBrace "\x7b").kind ≠ .ifWord := by decide
    rw [htokens, List.cons_append]
    rw [hus, List.cons_append] at hread ⊢
    rw [readBranches_else, if_neg hbrace, hread, ok_bind]
    rfl

theorem branchesReadBack_elseIf {test yes : Expr} {no : Branches} (ht : ReadsBack test)
    (hy : ReadsBack yes) (hn : BranchesReadBack no) :
    BranchesReadBack (.elseIf test yes no) where
  apart rest _ := by
    rw [Branches.pieces, bareTokens_append, bareTokens_append, bareTokens_append, bareTokens_append]
    exact apart_cons _ (by decide) (by decide) rfl
  whole rest hr := by
    have htokens : bareTokens (Branches.elseIf test yes no).pieces ++ rest =
        markToken .elseWord "else" :: markToken .ifWord "if" :: (operandTokens test ++
          (branchTokens yes ++ (bareTokens no.pieces ++ rest))) := by
      rw [Branches.pieces, bareTokens_append, bareTokens_append, bareTokens_append,
        bareTokens_append, List.append_assoc, List.append_assoc, List.append_assoc,
        List.append_assoc]
      rfl
    have hif : (markToken .ifWord "if").kind = .ifWord := rfl
    rw [htokens, readBranches_else, if_pos hif, ht.readOperand_test, ok_bind]
    dsimp only
    rw [hy.readOperand_branch (hn.apart rest hr.1), ok_bind]
    dsimp only
    rw [hn.whole rest hr, ok_bind]
    rfl

theorem readsBack_cond {line : Int} {test yes : Expr} {no : Branches} (ht : ReadsBack test)
    (hy : ReadsBack yes) (hn : BranchesReadBack no) : ReadsBack (.cond line test yes no) := by
  have htokens : bareTokens (Expr.cond line test yes no).pieces =
      markToken .ifWord "if" :: (operandTokens test ++
        (branchTokens yes ++ bareTokens no.pieces)) := by
    rw [Expr.pieces, bareTokens_append, bareTokens_append, bareTokens_append, bareTokens_append,
      List.append_assoc, List.append_assoc, List.append_assoc]
    rfl
  apply ReadsBack.of_open rfl ⟨_, _, htokens, rfl⟩
  intro rest hr
  have hprimary : readPrimary (markToken .ifWord "if")
      (operandTokens test ++ (branchTokens yes ++ (bareTokens no.pieces ++ rest))) =
      .ok ⟨normal (.cond line test yes no), rest⟩ := by
    rw [readPrimary_if rfl, ht.readOperand_test, ok_bind]
    dsimp only
    rw [hy.readOperand_branch (hn.apart rest hr.1), ok_bind]
    dsimp only
    rw [hn.whole rest hr, ok_bind]
    rfl
  rw [htokens, List.cons_append, List.append_assoc, List.append_assoc,
    readUnary_primary rfl hprimary, readCalls_apart hr.1]

theorem readsBack_each {line : Int} {name : Bytes} {items body : Expr} (hi : ReadsBack items)
    (hb : ReadsBack body) : ReadsBack (.each line name items body) := by
  have htokens : bareTokens (Expr.each line name items body).pieces =
      markToken .forWord "for" :: nameToken name :: markToken .assign ":=" ::
        (operandTokens items ++ branchTokens body) := by
    rw [Expr.pieces, bareTokens_append, bareTokens_append, bareTokens_append, List.append_assoc,
      List.append_assoc]
    rfl
  apply ReadsBack.of_open rfl ⟨_, _, htokens, rfl⟩
  intro rest hr
  have hprimary : readPrimary (markToken .forWord "for")
      (nameToken name :: markToken .assign ":=" ::
        (operandTokens items ++ (branchTokens body ++ rest))) =
      .ok ⟨normal (.each line name items body), rest⟩ := by
    have hname : ∀ us, expect .identifier .variableName (nameToken name :: us) =
        .ok ⟨nameToken name, us⟩ := fun us => rfl
    have hassign : ∀ us, expect .assign .assignment (markToken .assign ":=" :: us) =
        .ok ⟨markToken .assign ":=", us⟩ := fun us => rfl
    rw [readPrimary_for rfl, hname, ok_bind]
    dsimp only
    rw [hassign, ok_bind]
    dsimp only
    rw [hi.readOperand_test, ok_bind]
    dsimp only
    rw [hb.readOperand_branch hr.1, ok_bind]
    rfl
  rw [htokens, List.cons_append, List.cons_append, List.cons_append, List.append_assoc,
    readUnary_primary rfl hprimary, readCalls_apart hr.1]

theorem readsBack_function {line : Int} {params : List Bytes} {body : Expr} (h : ReadsBack body) :
    ReadsBack (.function line params body) := by
  have htokens : bareTokens (Expr.function line params body).pieces =
      markToken .bar "|" ::
        (bareTokens ([.space].intercalate (params.map fun name => [.named name])) ++
          markToken .bar "|" :: bareTokens body.pieces) := by
    rw [Expr.pieces, bareTokens_append, bareTokens_append, bareTokens_append, List.append_assoc,
      List.append_assoc]
    rfl
  apply ReadsBack.of_open rfl ⟨_, _, htokens, rfl⟩
  intro rest hr
  rw [htokens, List.cons_append, List.append_assoc, List.cons_append]
  have hprimary : readPrimary (markToken .bar "|")
      (bareTokens ([.space].intercalate (params.map fun name => [.named name])) ++
        markToken .bar "|" :: (bareTokens body.pieces ++ rest)) =
      .ok ⟨normal (.function line params body), rest⟩ := by
    rw [readPrimary_bar rfl, parameters_tokens, ok_bind]
    dsimp only
    rw [h.whole rest hr, ok_bind]
    rfl
  rw [readUnary_primary rfl hprimary, readCalls_apart hr.1]

theorem readsBack_call {callee : Expr} {line : Int} {args : List Expr} (hc : ReadsBack callee)
    (ha : ∀ e ∈ args, ReadsBack e) : ReadsBack (.call callee line args) := by
  have htokens : bareTokens (Expr.call callee line args).pieces =
      operandTokens callee ++ markToken .leftParen "(" ::
        (bareTokens ([.mark .comma ",", .space].intercalate (args.map Expr.pieces)) ++
          [markToken .rightParen ")"]) := by
    rw [Expr.pieces, Expr.piecesAll_eq, bareTokens_append, bareTokens_append, bareTokens_append,
      List.append_assoc, List.append_assoc]
    rfl
  refine .of_closed ?_ fun rest hr => ?_
  · rw [htokens]
    exact hc.opens_operand.append _
  · have hparen : (markToken .leftParen "(").kind = .leftParen := rfl
    rw [htokens, List.append_assoc, List.cons_append, List.append_assoc, List.singleton_append,
      hc.readUnary_operand (noAssign_cons _ (by decide)), readCalls_cons, if_pos hparen,
      readArguments_tokens ha rest, ok_bind]
    simp only [normal, Expr.norm, Expr.unlined, Expr.mapLine, map_unlined_norm]
    rfl

theorem readsBack_compositional :
    Compositional (fun e => e.isWellFormed = true → ReadsBack e)
      (fun b => b.isWellFormed = true → BranchesReadBack b) where
  literal _ h := readsBack_literal h
  var name line _ := readsBack_variable name line
  grouping _ ih h := readsBack_grouping (ih h)
  unary op spelling line e ih h := by
    simp only [Expr.isWellFormed, Bool.and_eq_true] at h
    exact readsBack_unary (ih h.2)
  binary left op spelling line right hl hr h := by
    simp only [Expr.isWellFormed, Bool.and_eq_true] at h
    exact readsBack_binary (hl h.2.1) (hr h.2.2)
  assign name line value ih h := by
    simp only [Expr.isWellFormed, Bool.and_eq_true] at h
    exact readsBack_assign (ih h.2)
  block line body ih h :=
    readsBack_block fun e he => ih e he (Expr.areWellFormed_iff.mp h e he)
  cond line test yes no ht hy hn h := by
    simp only [Expr.isWellFormed, Bool.and_eq_true] at h
    exact readsBack_cond (ht h.1) (hy h.2.1) (hn h.2.2)
  each line name items body hi hb h := by
    simp only [Expr.isWellFormed, Bool.and_eq_true] at h
    exact readsBack_each (hi h.2.1) (hb h.2.2)
  function line params body ih h := by
    simp only [Expr.isWellFormed, Bool.and_eq_true] at h
    exact readsBack_function (ih h.2)
  call callee line args hc ha h := by
    simp only [Expr.isWellFormed, Bool.and_eq_true] at h
    exact readsBack_call (hc h.1) fun e he => ha e he (Expr.areWellFormed_iff.mp h.2 e he)
  done _ := branchesReadBack_done
  otherwise body ih h := branchesReadBack_otherwise (ih h)
  elseIf test yes no ht hy hn h := by
    simp only [Branches.isWellFormed, Bool.and_eq_true] at h
    exact branchesReadBack_elseIf (ht h.1) (hy h.2.1) (hn h.2.2)

/-! ## Programs -/

/-- The statements behind the first one, each behind a line break. -/
def moreLines (es : List Expr) : List Token :=
  es.flatMap fun e => Token.lineBreak 0 :: bareTokens e.pieces

theorem ends_moreLines {es : List Expr} (h : ∀ e ∈ es, ReadsBack e) : Ends (moreLines es) := by
  cases es with
  | nil => exact ends_nil
  | cons e es =>
    obtain ⟨t, us, hts, ht⟩ := (h e List.mem_cons_self).opens
    refine ⟨apart_cons _ (by simp [Token.lineBreak]) (by simp [Token.lineBreak]) rfl, ?_⟩
    intro u vs hu
    have hskip : skipNewlines (moreLines (e :: es)) = bareTokens e.pieces ++ moreLines es :=
      ((h e List.mem_cons_self).opens.append _).skipNewlines
    rw [hskip, hts, List.cons_append] at hu
    rw [← (List.cons.inj hu).1]
    exact ne_of_opens ht rfl

theorem readProgram_moreLines (stop : Token) {es : List Expr} (h : ∀ e ∈ es, ReadsBack e) :
    readProgram stop (moreLines es) = ⟨es.map normal, [], none⟩ := by
  induction es with
  | nil => exact readProgram_nil rfl
  | cons e es ih =>
    obtain ⟨he, hes⟩ := List.forall_mem_cons.mp h
    have hskip : skipSeparators (moreLines (e :: es)) = bareTokens e.pieces ++ moreLines es :=
      (he.opens.append _).skipSeparators
    have hread : statement (skipSeparators (moreLines (e :: es))) =
        .ok ⟨normal e, moreLines es⟩ := by
      rw [hskip]
      exact he.whole _ (ends_moreLines hes)
    rw [readProgram_ok hread, ih hes]
    rfl

theorem readProgram_printed (stop : Token) {es : List Expr} (h : ∀ e ∈ es, ReadsBack e) :
    readProgram stop (bareTokens (Expr.programPieces es)) = ⟨es.map normal, [], none⟩ := by
  cases es with
  | nil => exact readProgram_nil rfl
  | cons e es =>
    have htokens : bareTokens (Expr.programPieces (e :: es)) =
        bareTokens e.pieces ++ moreLines es := by
      rw [Expr.programPieces, List.map_cons, bareTokens_intercalate, List.flatMap_map]
      rfl
    rw [← readProgram_moreLines stop h]
    refine readProgram_congr stop ?_
    rw [htokens, ((h e List.mem_cons_self).opens.append _).skipSeparators]
    exact ((h e List.mem_cons_self).opens.append _).skipSeparators.symm

end Parser

open ExprLang.Parser

/-- A printed program is read as the normal forms of its statements. -/
theorem parse_formatProgram {es : List Expr} (h : ∀ e ∈ es, e.isWellFormed = true) :
    ∃ es', parse (scan (Expr.formatProgram es)).tokens = ⟨es', [], none⟩ ∧
      es'.map Expr.unlined = es.map fun e => e.norm.unlined := by
  have hbare : (bodyTokens (Expr.formatProgram es)).map (Token.mapLine fun _ => 0) =
      bareTokens (Expr.programPieces es) := by
    rw [bodyTokens, Expr.split_formatProgram h, bareTokens_tokensFrom]
  have hread := readProgram_map (fun _ => 0) (.eof (1 + Text.newlines (Expr.formatProgram es)))
    (bodyTokens (Expr.formatProgram es))
  rw [hbare, readProgram_printed _ fun e he => readsBack_compositional.expr e (h e he),
    ← parse_scan] at hread
  generalize parse (scan (Expr.formatProgram es)).tokens = program at hread ⊢
  obtain ⟨statements, errors, malformed⟩ := program
  simp only [Program.mapLine, Program.mk.injEq] at hread
  obtain ⟨hstatements, herrors, hmalformed⟩ := hread
  obtain rfl := List.map_eq_nil_iff.mp herrors.symm
  obtain rfl := Option.map_eq_none_iff.mp hmalformed.symm
  exact ⟨statements, rfl, hstatements.symm⟩

/-! ## Lines are not printed -/

namespace Expr

variable (f : Int → Int)

theorem isClosed_mapLine (e : Expr) : (e.mapLine f).isClosed = e.isClosed := by cases e <;> rfl

theorem isBlock_mapLine (e : Expr) : (e.mapLine f).isBlock = e.isBlock := by cases e <;> rfl

theorem map_format_mapLine {es : List Expr} (h : ∀ e ∈ es, (e.mapLine f).format = e.format) :
    formatAll (mapLines f es) = formatAll es := by
  rw [mapLines_eq, formatAll_eq, formatAll_eq, List.map_map]
  exact List.map_congr_left h

theorem format_mapLine_compositional :
    Compositional (fun e => (e.mapLine f).format = e.format)
      (fun b => (b.mapLine f).format = b.format) where
  literal _ := rfl
  var _ _ := rfl
  grouping inner h := by simp only [mapLine, format, h]
  unary op spelling line e h := by simp only [mapLine, format, asOperand, isClosed_mapLine, h]
  binary left op spelling line right hl hr := by
    simp only [mapLine, format, asOperand, isClosed_mapLine, hl, hr]
  assign name line value h := by simp only [mapLine, format, h]
  block line body h := by
    cases body with
    | nil => rfl
    | cons e es =>
      obtain ⟨he, hes⟩ := List.forall_mem_cons.mp h
      simp only [mapLine, mapLines, format, he, map_format_mapLine f hes]
  cond line test yes no ht hy hn := by
    simp only [mapLine, format, asOperand, asBranch, isClosed_mapLine, isBlock_mapLine, ht, hy, hn]
  each line name items body hi hb := by
    simp only [mapLine, format, asOperand, asBranch, isClosed_mapLine, isBlock_mapLine, hi, hb]
  function line params body h := by simp only [mapLine, format, h]
  call callee line args hc ha := by
    simp only [mapLine, format, asOperand, isClosed_mapLine, hc, map_format_mapLine f ha]
  done := rfl
  otherwise body h := by
    simp only [Branches.mapLine, Branches.format, asBranch, isBlock_mapLine, h]
  elseIf test yes no ht hy hn := by
    simp only [Branches.mapLine, Branches.format, asOperand, asBranch, isClosed_mapLine,
      isBlock_mapLine, ht, hy, hn]

theorem format_unlined (e : Expr) : e.unlined.format = e.format :=
  (format_mapLine_compositional fun _ => 0).expr e

end Expr

/-- The text of a well-formed expression, in particular of every statement of a source, is scanned
and parsed without errors as one statement, which is the normal form of the expression up to lines
and has the same text again. -/
theorem format_round_trip (e : Expr)
    (h : e.isWellFormed = true ∨ ∃ s, e ∈ (parse (scan s).tokens).statements) :
    (scan e.format).errors = [] ∧
      ∃ e', parse (scan e.format).tokens = ⟨[e'], [], none⟩ ∧ e'.unlined = e.norm.unlined ∧
        e.norm.format = e.format ∧ e'.format = e.format := by
  have hwell : ∀ d ∈ [e], d.isWellFormed = true := by
    intro d hd
    rw [List.mem_singleton.mp hd]
    rcases h with h | ⟨s, hs⟩
    · exact h
    · exact statements_areWellFormed s e hs
  have htext : Expr.formatProgram [e] = e.format := List.intercalate_singleton
  obtain ⟨es', hparse, hnorm⟩ := parse_formatProgram hwell
  have herrors := Expr.scan_formatProgram_errors hwell
  rw [htext] at hparse herrors
  obtain ⟨e', rfl, he'⟩ := List.map_eq_singleton_iff.mp hnorm
  have hformat : e'.format = e.format := by
    rw [← e'.format_unlined, he', Expr.format_unlined, Expr.format_norm]
  exact ⟨herrors, e', hparse, he', e.format_norm, hformat⟩

/-- A conditional as an operand, with branches that are not blocks. -/
def Expr.negatedChoice : Expr :=
  .unary .minus (bytes "-") 1 (.cond 1
    (.binary (.variable (bytes "a") 1) .equal (bytes "==") 1 (.literal (.float 2.5)))
    (.assign (bytes "b") 1 (.literal (.int 7)))
    (.otherwise (.function 1 [bytes "x"] (.literal (.string (bytes "else"))))))

theorem format_round_trip_negatedChoice :
    Expr.negatedChoice.isWellFormed = true ∧
      (scan Expr.negatedChoice.format).errors = [] ∧
      ∃ e', parse (scan Expr.negatedChoice.format).tokens = ⟨[e'], [], none⟩ ∧
        e'.unlined = Expr.negatedChoice.norm.unlined ∧
        Expr.negatedChoice.norm.format = Expr.negatedChoice.format ∧
        e'.format = Expr.negatedChoice.format := by
  have hwell : Expr.negatedChoice.isWellFormed = true := by decide +kernel
  exact ⟨hwell, format_round_trip Expr.negatedChoice (Or.inl hwell)⟩

end ExprLang

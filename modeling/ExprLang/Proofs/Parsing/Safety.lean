import ExprLang.Proofs.Parsing.Agreement

/-!
# The cursor is safe

A parse with a cursor always ends: each round of its main loop reads a statement or reports one
error and recovers, and the only crash is a string token without a text. It gives what `parse`
gives, and nothing behind the first end token has a part in it.
-/

namespace ExprLang

namespace Cursor

open ExprLang.Parser (Fault Shorter rank find?_eof takeWhile_body stopToken_body)

/-! ## Statements and recovery -/

section Programs

variable {i : Input} {extra ts : List Token} {t : Token}

theorem agrees_statement (hs : ts <:+ i.body) :
    Agrees i ts (statement (i.tokens extra)) (Parser.statement ts) := by
  have hl := hs.length_le
  have hb := length_lt_tokens i extra
  obtain ⟨fuel, hf⟩ : ∃ fuel, 16 * rounds (i.tokens extra) = fuel + 10 :=
    ⟨16 * rounds (i.tokens extra) - 10, by simp only [rounds]; omega⟩
  have heq : Parser.operand fuel (some .or) ts = Parser.statement ts := by
    refine Parser.operand_eq ?_
    simp only [rounds] at hf
    simp only [rank]
    omega
  rw [statement, hf, ← heq]
  exact (agreement i extra fuel).operand (some .or) ts hs

theorem gives_synchronizeLoop {fuel : Nat} (hs : t :: ts <:+ i.body) (hf : ts.length < fuel) :
    Gives i ts (synchronizeLoop (i.tokens extra) fuel) () (Parser.recover (t :: ts)) := by
  induction fuel generalizing t ts with
  | zero => omega
  | succ fuel ih =>
    have hts := (List.suffix_cons t ts).trans hs
    refine (gives_position i ts).bind ((gives_atEnd hts).bind ?_)
    cases ts with
    | nil =>
      have hr : Parser.recover [t] = [] := by simp [Parser.recover]
      rw [hr]
      exact gives_pure ()
    | cons u us =>
      simp only [List.length_cons] at hf
      refine (gives_previous hs).bind ?_
      have hp : Gives i (u :: us) (peek (i.tokens extra)) u (u :: us) := gives_peek hts
      simp only [Parser.recover]
      cases t.kind.isSeparator with
      | true => exact gives_pure ()
      | false =>
        refine hp.bind ?_
        by_cases hu : u.kind = .typeWord ∨ u.kind = .ifWord
        · simp only [hu, ↓reduceIte]
          exact gives_pure ()
        · simp only [hu, ↓reduceIte]
          refine (gives_advance hts).bind ?_
          refine (gives_progressed hts (Parser.shorter_cons u (List.suffix_refl us))).bind ?_
          exact ih hts (by omega)

/-- The recovery looks at the token behind the cursor, so there has to be one. -/
theorem gives_synchronize (hs : ts <:+ i.body) (hne : i.body ≠ []) :
    Gives i ts (synchronize (i.tokens extra)) () (Parser.recover ts) := by
  cases ts with
  | nil =>
    obtain ⟨t, ht⟩ := gives_advance_nil hne
    have hr : 0 < rounds (i.tokens extra) := lt_rounds (Nat.zero_le _)
    obtain ⟨n, hn⟩ : ∃ n, rounds (i.tokens extra) = n + 1 := ⟨_, (Nat.succ_pred hr.ne').symm⟩
    refine ht.bind ?_
    rw [hn]
    exact (gives_position i []).bind ((gives_atEnd hs).bind (gives_pure ()))
  | cons t ts =>
    have hts := (List.suffix_cons t ts).trans hs
    exact (gives_advance hs).bind (gives_synchronizeLoop hs (lt_rounds hts.length_le))

theorem attempt_done {e : Expr} {left : List Token} (hs : ts <:+ i.body)
    (h : Parser.statement ts = .ok ⟨e, left⟩) :
    Gives i ts (attempt (i.tokens extra)) (some e) left := by
  intro errors
  have hst : Agrees i ts (statement (i.tokens extra)) (Parser.statement ts) := agrees_statement hs
  rw [h] at hst
  simp only [attempt, hst (by simp) errors, Input.outcome]

/-- The error that a fault adds to those before it. -/
def Input.report? (i : Input) : Fault → Option SyntaxError
  | .unexpected what left => some (.ofToken (.unexpectedToken what) (left.head?.getD i.stop))
  | .invalidNumber t _ => some (.ofToken .invalidNumber t)
  | .malformed _ | .outOfFuel => none

theorem attempt_fault {fault : Fault} {left : List Token} {error : SyntaxError}
    (hs : t :: ts <:+ i.body) (h : Parser.statement (t :: ts) = .error fault)
    (hleft : fault.resume? = some left) (herror : i.report? fault = some error)
    (errors : List SyntaxError) :
    attempt (i.tokens extra) (i.stateAt (t :: ts) errors) =
      .done none (i.stateAt left (errors ++ [error])) := by
  have hne : i.body ≠ [] := by
    intro hnil
    simpa [hnil] using hs.length_le
  have hst : Agrees i (t :: ts) (statement (i.tokens extra)) (Parser.statement (t :: ts)) :=
    agrees_statement hs
  have hwithin := Parser.statement_ensures (t :: ts)
  rw [h] at hst hwithin
  have hst := hst (by simpa using hwithin.2) errors
  cases fault with
  | unexpected what us =>
    cases hleft
    cases herror
    have hsync : Gives i us (synchronize (i.tokens extra)) () _ :=
      gives_synchronize (hwithin.1.trans hs) hne
    simp only [attempt, hst, Input.outcome, hsync _]
  | invalidNumber number us =>
    cases hleft
    cases herror
    have hus : us <:+ i.body := ((List.suffix_cons number us).trans hwithin.1.1).trans hs
    have hsync : Gives i us (synchronize (i.tokens extra)) () _ := gives_synchronize hus hne
    simp only [attempt, hst, Input.outcome, hsync _]
  | malformed token => cases hleft
  | outOfFuel => cases hleft

theorem attempt_malformed {token : Token} (hs : ts <:+ i.body)
    (h : Parser.statement ts = .error (.malformed token)) (errors : List SyntaxError) :
    attempt (i.tokens extra) (i.stateAt ts errors) = .crashed (.noText token) := by
  have hst : Agrees i ts (statement (i.tokens extra)) (Parser.statement ts) := agrees_statement hs
  rw [h] at hst
  simp only [attempt, hst (by simp) errors, Input.outcome]

end Programs

/-! ## The main loop -/

namespace Attempt

/-- An attempt reads at least one token and none behind the end, and reports one error if it
fails. -/
structure Sound (bound : Nat) (a : Attempt) : Prop where
  moves : a.start < a.stop
  inside : a.stop ≤ bound
  reports : a.errors.length = if a.statement?.isSome then 0 else 1

end Attempt

/-- The end of a parse of `p` that made the given attempts. -/
def Input.finish (i : Input) (history : List Attempt) (p : Program) (errors : List SyntaxError) :
    Outcome (List Attempt) :=
  match p.malformed with
  | some t => .crashed (.noText t)
  | none => .done history (i.stateAt [] (errors ++ p.errors))

/-- The attempts of a parse of `ts`, which gives `p`. -/
structure Records (i : Input) (ts : List Token) (p : Program) (history : List Attempt) : Prop where
  run : ∀ extra fuel errors, ts.length < fuel →
    attempts (i.tokens extra) fuel (i.stateAt (Parser.skipSeparators ts) errors) =
      i.finish history p errors
  sound : ∀ a ∈ history, a.Sound i.body.length
  statements : history.filterMap (·.statement?) = p.statements
  errors : history.flatMap (·.errors) = p.errors

section Records

variable {i : Input} {ts left : List Token} {p : Program} {history : List Attempt}

theorem state_apply (s : State) : state s = .done s s := rfl

theorem Records.nil (h : Parser.skipSeparators ts = []) :
    Records i ts .empty [] where
  run extra fuel errors hf := by
    obtain ⟨fuel, rfl⟩ : ∃ n, fuel = n + 1 := ⟨fuel - 1, by omega⟩
    have hend : Gives i [] (atEnd (i.tokens extra)) true [] := gives_atEnd List.nil_suffix
    rw [h, attempts, bind_apply, hend errors]
    show Outcome.done [] (i.stateAt [] errors) = .done [] (i.stateAt [] (errors ++ []))
    rw [List.append_nil]
  sound := by simp
  statements := rfl
  errors := rfl

/-- A round of the main loop from the first token that is no separator, up to `left`. -/
theorem Records.cons (result : Option Expr) (reported : List SyntaxError) (hs : ts <:+ i.body)
    (hround : ∀ extra errors,
      attempt (i.tokens extra) (i.stateAt (Parser.skipSeparators ts) errors) =
        .done result (i.stateAt left (errors ++ reported)))
    (hreported : reported.length = if result.isSome then 0 else 1)
    (hshort : Shorter left (Parser.skipSeparators ts)) (hrest : Records i left p history) :
    Records i ts ⟨result.toList ++ p.statements, reported ++ p.errors, p.malformed⟩
      (⟨i.body.length - (Parser.skipSeparators ts).length, i.body.length - left.length, result,
        reported⟩ :: history) := by
  have hskip := (Parser.skipSeparators_suffix ts).trans hs
  have hleft := hshort.1.trans hskip
  have hlt := hshort.2
  have hle := hskip.length_le
  have hlen := (Parser.skipSeparators_suffix ts).length_le
  refine ⟨?_, ?_, ?_, ?_⟩
  · intro extra fuel errors hf
    obtain ⟨fuel, rfl⟩ : ∃ n, fuel = n + 1 := ⟨fuel - 1, by omega⟩
    have hend : Gives i (Parser.skipSeparators ts) (atEnd (i.tokens extra)) false
        (Parser.skipSeparators ts) :=
      gives_atEnd_of_ne_nil hskip (List.ne_nil_of_length_pos (by omega))
    have hsep : Gives i left (skipSeparators (i.tokens extra)) () (Parser.skipSeparators left) :=
      gives_skipSeparators hleft
    have hnext := hrest.run extra fuel (errors ++ reported) (by omega)
    have hprog : Gives i (Parser.skipSeparators left)
        (progressed (i.stateAt (Parser.skipSeparators ts) errors).position) ()
        (Parser.skipSeparators left) := by
      have hsuf := Parser.skipSeparators_suffix left
      exact gives_progressed hskip ⟨hsuf.trans hshort.1, Nat.lt_of_le_of_lt hsuf.length_le hlt⟩
    rw [attempts, bind_done (hend errors), if_neg Bool.false_ne_true, bind_done (state_apply _),
      bind_done (hround extra errors), bind_done (state_apply _), bind_done (hsep _),
      bind_done (hprog _), bind_apply, hnext]
    cases hm : p.malformed with
    | some t => simp only [Input.finish, hm]
    | none =>
      simp only [Input.finish, hm, Input.stateAt, List.drop_left, ← List.append_assoc]
      rfl
  · refine List.forall_mem_cons.mpr ⟨⟨?_, ?_, hreported⟩, hrest.sound⟩
    · simp only
      omega
    · simp only
      omega
  · rw [List.filterMap_cons, ← hrest.statements]
    cases result <;> rfl
  · rw [List.flatMap_cons, hrest.errors]

theorem shorter_of_fault {fault : Fault} (hne : Parser.skipSeparators ts ≠ [])
    (hr : Parser.statement (Parser.skipSeparators ts) = .error fault)
    (hleft : fault.resume? = some left) : Shorter left (Parser.skipSeparators ts) := by
  obtain ⟨t, us, ht⟩ := List.exists_cons_of_ne_nil hne
  have hwithin := Parser.statement_ensures (Parser.skipSeparators ts)
  rw [hr] at hwithin
  rw [ht] at hwithin ⊢
  exact Parser.resume_shorter hwithin.1 hleft

theorem Records.fault {fault : Fault} {error : SyntaxError} (hrest : Records i left p history)
    (hs : ts <:+ i.body) (hne : Parser.skipSeparators ts ≠ [])
    (hr : Parser.statement (Parser.skipSeparators ts) = .error fault)
    (hleft : fault.resume? = some left) (herror : i.report? fault = some error) :
    Records i ts (p.addError error)
      (⟨i.body.length - (Parser.skipSeparators ts).length, i.body.length - left.length, none,
        [error]⟩ :: history) := by
  have hskip := (Parser.skipSeparators_suffix ts).trans hs
  have hshort := shorter_of_fault hne hr hleft
  refine Records.cons none [error] hs (fun extra errors => ?_) rfl hshort hrest
  obtain ⟨t, us, ht⟩ := List.exists_cons_of_ne_nil hne
  rw [ht] at hskip hr ⊢
  exact attempt_fault hskip hr hleft herror errors

theorem Records.malformed {token : Token} (hs : ts <:+ i.body)
    (hr : Parser.statement (Parser.skipSeparators ts) = .error (.malformed token)) :
    Records i ts ⟨[], [], some token⟩ [] where
  run extra fuel errors hf := by
    obtain ⟨fuel, rfl⟩ : ∃ n, fuel = n + 1 := ⟨fuel - 1, by omega⟩
    have hskip := (Parser.skipSeparators_suffix ts).trans hs
    have hne : Parser.skipSeparators ts ≠ [] := by
      intro h
      rw [h] at hr
      cases hr
    rw [attempts, bind_done (gives_atEnd_of_ne_nil hskip hne errors), if_neg Bool.false_ne_true,
      bind_done (state_apply _), bind_apply, attempt_malformed hskip hr errors]
    rfl
  sound := by simp
  statements := rfl
  errors := rfl

end Records

/-- Each case of the parse on lists is one round of the main loop. -/
theorem exists_records (i : Input) (ts : List Token) (hs : ts <:+ i.body) :
    ∃ history, Records i ts (Parser.readProgram i.stop ts) history := by
  induction ts using Parser.readProgram_induct with
  | blank ts hd =>
    rw [Parser.readProgram_nil hd]
    exact ⟨[], Records.nil hd⟩
  | read ts e left hr ih =>
    have hskip := (Parser.skipSeparators_suffix ts).trans hs
    have he := Parser.statement_ensures (Parser.skipSeparators ts)
    rw [hr] at he
    obtain ⟨history, hrest⟩ := ih (he.1.trans hskip)
    rw [Parser.readProgram_ok hr]
    refine ⟨_, Records.cons (some e) [] hs ?_ rfl he hrest⟩
    intro extra errors
    rw [List.append_nil]
    exact attempt_done hskip hr errors
  | unexpected ts what left hne hr ih =>
    have hskip := (Parser.skipSeparators_suffix ts).trans hs
    obtain ⟨history, hrest⟩ := ih ((shorter_of_fault hne hr rfl).1.trans hskip)
    rw [Parser.readProgram_unexpected hne hr]
    exact ⟨_, hrest.fault hs hne hr rfl rfl⟩
  | invalidNumber ts number left hr ih =>
    have hskip := (Parser.skipSeparators_suffix ts).trans hs
    have hne : Parser.skipSeparators ts ≠ [] := by
      intro h
      rw [h] at hr
      cases hr
    obtain ⟨history, hrest⟩ := ih ((shorter_of_fault hne hr rfl).1.trans hskip)
    rw [Parser.readProgram_invalidNumber hr]
    exact ⟨_, hrest.fault hs hne hr rfl rfl⟩
  | malformed ts token hr =>
    rw [Parser.readProgram_malformed hr]
    exact ⟨[], Records.malformed hs hr⟩

/-! ## Whole lists -/

theorem kind_of_mem_takeWhile {ts : List Token} {t : Token}
    (h : t ∈ ts.takeWhile fun t => t.kind != .eof) : t.kind ≠ .eof := by
  simpa using List.mem_takeWhile_imp h

theorem stopToken_kind (ts : List Token) : (stopToken ts).kind = .eof := by
  rw [stopToken]
  cases h : ts.find? fun t => t.kind == .eof with
  | none => rfl
  | some t => simpa using List.find?_some h

/-- The tokens before the first end token of a list, and that token. -/
def Input.ofTokens (ts : List Token) : Input where
  body := ts.takeWhile fun t => t.kind != .eof
  stop := stopToken ts
  body_kind _ ht := kind_of_mem_takeWhile ht
  stop_kind := stopToken_kind ts

theorem Input.ofTokens_tokens (i : Input) (extra : List Token) :
    Input.ofTokens (i.tokens extra) = i := by
  obtain ⟨body, stop, hbody, hstop⟩ := i
  simp only [ofTokens, tokens, takeWhile_body hbody hstop, stopToken_body hbody hstop]

theorem exists_complete (ts : List Token) :
    ∃ extra, complete ts = (Input.ofTokens ts).tokens extra := by
  have hsplit := List.takeWhile_append_dropWhile (p := fun t => t.kind != .eof) (l := ts)
  cases hd : ts.dropWhile fun t => t.kind != .eof with
  | nil =>
    rw [hd, List.append_nil] at hsplit
    have hkinds : ∀ t ∈ ts, t.kind ≠ .eof := fun t ht => kind_of_mem_takeWhile (hsplit ▸ ht)
    have hlast : ts.getLast?.map Token.kind ≠ some .eof := by
      intro hl
      obtain ⟨t, ht, hk⟩ := Option.map_eq_some_iff.mp hl
      exact hkinds t (List.mem_of_getLast? ht) hk
    refine ⟨[], ?_⟩
    show complete ts = (ts.takeWhile fun t => t.kind != .eof) ++ [stopToken ts]
    rw [complete, if_neg hlast, hsplit, stopToken, find?_eof hkinds, Option.getD_none]
  | cons stop extra =>
    have hstop : stop.kind = .eof := by
      have h := List.head?_dropWhile_not (fun t : Token => t.kind != .eof) ts
      rw [hd] at h
      simpa using h
    rw [hd] at hsplit
    let i : Input := ⟨ts.takeWhile fun t => t.kind != .eof, stop,
      fun _ ht => kind_of_mem_takeWhile ht, hstop⟩
    have hi : i.tokens extra = ts := hsplit
    rw [← hi, Input.ofTokens_tokens, complete]
    split
    · exact ⟨extra, rfl⟩
    · exact ⟨_, List.append_assoc ..⟩

/-- A run depends on the tokens up to the first end token only. -/
theorem run_eq {i : Input} {ts : List Token} {p : Program} {history : List Attempt}
    (hi : Input.ofTokens ts = i) (h : Records i i.body p history) :
    run ts = i.finish history p [] := by
  obtain ⟨extra, hc⟩ := exists_complete ts
  rw [hi] at hc
  have hstart : (⟨0, []⟩ : State) = i.stateAt i.body [] := by rw [Input.stateAt, Nat.sub_self]
  have hskip : Gives i i.body (skipSeparators (i.tokens extra)) () _ :=
    gives_skipSeparators (List.suffix_refl i.body)
  rw [run, hc, hstart]
  simp only [bind_done (hskip [])]
  exact h.run extra _ [] (lt_rounds (Nat.le_refl _))

end Cursor

open Cursor

/-- A parse of tokens whose strings all have a text ends with the cursor at the first end token.
Each of its attempts moves forward, and reports one error if and only if it gives no statement;
together they give what `parse` gives. Whatever stands behind the first end token, the run is the
same. -/
theorem parse_safe :
    (∀ ts : List Token, (∀ t ∈ ts, t.kind = .string → t.text? ≠ none) →
      ∃ history : List Attempt,
        Cursor.run ts = .done history
          ⟨(ts.takeWhile fun t => t.kind != .eof).length, (parse ts).errors⟩ ∧
        (∀ a ∈ history, a.Sound (ts.takeWhile fun t => t.kind != .eof).length) ∧
        history.filterMap (·.statement?) = (parse ts).statements ∧
        history.flatMap (·.errors) = (parse ts).errors ∧ (parse ts).malformed = none) ∧
    ∀ (ts extra : List Token) (stop : Token), (∀ t ∈ ts, t.kind ≠ .eof) → stop.kind = .eof →
      Cursor.run (ts ++ stop :: extra) = Cursor.run (ts ++ [stop]) ∧
        parse (ts ++ stop :: extra) = parse (ts ++ [stop]) := by
  constructor
  · intro ts htext
    obtain ⟨history, h⟩ : ∃ history,
        Records (.ofTokens ts) (Input.ofTokens ts).body (parse ts) history :=
      exists_records (.ofTokens ts) _ (List.suffix_refl _)
    have hmal : (parse ts).malformed = none := by
      refine Parser.readProgram_malformed_eq_none _ fun t ht => htext t ?_
      exact (List.takeWhile_sublist _).subset ht
    refine ⟨history, ?_, h.sound, h.statements, h.errors, hmal⟩
    rw [run_eq rfl h, Input.finish, hmal]
    rfl
  · intro ts extra stop hts hstop
    let i : Input := ⟨ts, stop, hts, hstop⟩
    obtain ⟨history, h⟩ := exists_records i i.body (List.suffix_refl _)
    have hextra : Input.ofTokens (ts ++ stop :: extra) = i := i.ofTokens_tokens extra
    have hbare : Input.ofTokens (ts ++ [stop]) = i := i.ofTokens_tokens []
    rw [run_eq hextra h, run_eq hbare h, Parser.parse_body hts hstop, Parser.parse_body hts hstop]
    exact ⟨rfl, rfl⟩

/-- Tokens that no text has: an unknown kind, a number that is none, an end token in the middle
and none at the end. -/
def brokenTokens : List Token :=
  let token (kind : TokenKind) (lexeme : String) : Token := ⟨kind, bytes lexeme, none, 1⟩
  [⟨.string, bytes "\"s\"", some (.text (bytes "s")), 1⟩, token (.unknown 99) "?",
    token .semicolon ";", token .int "1x", token .newline "", token .identifier "a",
    token .leftParen "(", token .leftBrace "\x7b", token .eof "", token .elseWord "else",
    token .eof "", token .bar "|"]

theorem parse_safe_brokenTokens :
    (∀ t ∈ brokenTokens, t.kind = .string → t.text? ≠ none) ∧
      (∃ history : List Attempt,
        Cursor.run brokenTokens = .done history ⟨8, (parse brokenTokens).errors⟩ ∧
        (∀ a ∈ history, a.Sound 8) ∧
        history.filterMap (·.statement?) = (parse brokenTokens).statements ∧
        history.flatMap (·.errors) = (parse brokenTokens).errors ∧
        (parse brokenTokens).malformed = none) ∧
      (parse brokenTokens).statements.length = 1 ∧ (parse brokenTokens).errors.length = 3 ∧
      Cursor.run brokenTokens = Cursor.run (brokenTokens.take 9) ∧
      parse brokenTokens = parse (brokenTokens.take 9) := by
  have htext : ∀ t ∈ brokenTokens, t.kind = .string → t.text? ≠ none := by decide
  have hrest := parse_safe.2 (brokenTokens.take 8) (brokenTokens.drop 9) ⟨.eof, [], none, 1⟩
    (by decide) rfl
  exact ⟨htext, parse_safe.1 brokenTokens htext, by decide +kernel, by decide +kernel, hrest⟩

end ExprLang

import ExprLang.Proofs.Parsing.Equations

/-!
# Programs, chunk by chunk

A program is read statement by statement, and after an error the parser goes on at the next place
where a statement may start. So a program that does not break off in the middle of a statement can
be read chunk by chunk, and an error that is not at the end of the tokens is there to stay.
-/

namespace ExprLang.Parser

/-- The statements of tokens that end with `stop`. -/
def readProgram (stop : Token) (ts : List Token) : Program := program stop (ts.length + 1) ts

/-! ## The amount of fuel -/

theorem recover_suffix (ts : List Token) : recover ts <:+ ts := by
  induction ts with
  | nil => exact List.suffix_refl _
  | cons t ts ih =>
    cases ts with
    | nil => simp [recover]
    | cons u us =>
      simp only [recover] at ih ⊢
      split
      · exact List.suffix_cons t _
      · split
        · exact List.suffix_cons t _
        · exact ih.trans (List.suffix_cons t _)

theorem recover_shorter (t : Token) (ts : List Token) : Shorter (recover (t :: ts)) (t :: ts) := by
  cases ts with
  | nil =>
    refine shorter_cons t ?_
    simp [recover]
  | cons u us =>
    rw [recover]
    split
    · exact shorter_cons t (List.suffix_refl _)
    · split
      · exact shorter_cons t (List.suffix_refl _)
      · exact shorter_cons t (recover_suffix (u :: us))

theorem recover_shorter_of_suffix {left : List Token} {t : Token} {ts : List Token}
    (h : left <:+ t :: ts) : Shorter (recover left) (t :: ts) := by
  cases left with
  | nil => exact ⟨List.nil_suffix, Nat.succ_pos _⟩
  | cons u us => exact (recover_shorter u us).of_suffix h

/-- The tokens still to be read after a fault that does not end the parse. -/
def Fault.resume? : Fault → Option (List Token)
  | .unexpected _ left | .invalidNumber _ left => some (recover left)
  | .malformed _ | .outOfFuel => none

theorem statement_ensures (ts : List Token) :
    Ensures (fun _ rest => Shorter rest ts) (fun f => f.Within ts ∧ f ≠ .outOfFuel)
      (statement ts) := by
  apply (progress (fuelFor ts) (.operand (some .or)) ts).mono (fun _ _ h => h.leaves)
  intro f hf
  exact ⟨hf.1, hf.2 (Phrase.need_le _ ts)⟩

theorem resume_shorter {t : Token} {ts left : List Token} {f : Fault} (h : f.Within (t :: ts))
    (hr : f.resume? = some left) : Shorter left (t :: ts) := by
  cases f with
  | unexpected what us =>
    cases hr
    exact recover_shorter_of_suffix h
  | invalidNumber number us =>
    cases hr
    exact recover_shorter_of_suffix ((List.suffix_cons number us).trans h.1)
  | malformed token => cases hr
  | outOfFuel => cases hr

theorem program_fuel (stop : Token) (fuel fuel' : Nat) (ts : List Token) (h : ts.length < fuel)
    (h' : ts.length < fuel') : program stop fuel ts = program stop fuel' ts := by
  induction fuel generalizing fuel' ts with
  | zero => omega
  | succ fuel ih =>
    obtain ⟨fuel', rfl⟩ : ∃ n, fuel' = n + 1 := ⟨fuel' - 1, by omega⟩
    simp only [program]
    cases hs : skipSeparators ts with
    | nil => rfl
    | cons t rest =>
      have hl := (skipSeparators_suffix ts).length_le
      rw [hs] at hl
      have he := statement_ensures (t :: rest)
      cases hr : statement (t :: rest) with
      | ok r =>
        rw [hr] at he
        have hlt := he.2
        simp only [hr]
        rw [ih fuel' r.rest (by omega) (by omega)]
      | error f =>
        rw [hr] at he
        cases f with
        | unexpected what left =>
          have hlt := (resume_shorter he.1 rfl).2
          simp only [hr]
          rw [ih fuel' (recover left) (by omega) (by omega)]
        | invalidNumber number left =>
          have hlt := (resume_shorter he.1 rfl).2
          simp only [hr]
          rw [ih fuel' (recover left) (by omega) (by omega)]
        | malformed token => simp only [hr]
        | outOfFuel => simp only [hr]

theorem program_eq {stop : Token} {fuel : Nat} {ts : List Token} (h : ts.length < fuel) :
    program stop fuel ts = readProgram stop ts :=
  program_fuel stop fuel _ ts h (Nat.lt_succ_self _)

/-! ## Equations -/

theorem readProgram_nil {stop : Token} {ts : List Token} (h : skipSeparators ts = []) :
    readProgram stop ts = .empty := by
  simp only [readProgram, program, h]

theorem readProgram_ok {stop : Token} {ts left : List Token} {e : Expr}
    (h : statement (skipSeparators ts) = .ok ⟨e, left⟩) :
    readProgram stop ts = (readProgram stop left).addStatement e := by
  have hs := (skipSeparators_suffix ts).length_le
  have he := statement_ensures (skipSeparators ts)
  rw [h] at he
  have hlt : left.length < (skipSeparators ts).length := he.2
  rw [readProgram, program]
  cases hd : skipSeparators ts with
  | nil => simp [hd] at hlt
  | cons t rest =>
    rw [hd] at h
    simp only [h]
    rw [program_eq (by omega)]

theorem readProgram_unexpected {stop : Token} {ts left : List Token} {what : Expected}
    (hne : skipSeparators ts ≠ [])
    (h : statement (skipSeparators ts) = .error (.unexpected what left)) :
    readProgram stop ts = (readProgram stop (recover left)).addError
      (.ofToken (.unexpectedToken what) (left.head?.getD stop)) := by
  have hs := (skipSeparators_suffix ts).length_le
  have he := statement_ensures (skipSeparators ts)
  rw [readProgram, program]
  cases hd : skipSeparators ts with
  | nil => exact absurd hd hne
  | cons t rest =>
    rw [hd] at h he hs
    rw [h] at he
    have hlt := (resume_shorter he.1 rfl).2
    simp only [h]
    rw [program_eq (by omega)]

theorem readProgram_invalidNumber {stop : Token} {ts left : List Token} {number : Token}
    (h : statement (skipSeparators ts) = .error (.invalidNumber number left)) :
    readProgram stop ts = (readProgram stop (recover left)).addError
      (.ofToken .invalidNumber number) := by
  have hs := (skipSeparators_suffix ts).length_le
  have he := statement_ensures (skipSeparators ts)
  rw [readProgram, program]
  cases hd : skipSeparators ts with
  | nil =>
    rw [hd] at h
    cases h
  | cons t rest =>
    rw [hd] at h he hs
    rw [h] at he
    have hlt := (resume_shorter he.1 rfl).2
    simp only [h]
    rw [program_eq (by omega)]

theorem readProgram_malformed {stop : Token} {ts : List Token} {token : Token}
    (h : statement (skipSeparators ts) = .error (.malformed token)) :
    readProgram stop ts = { Program.empty with malformed := some token } := by
  rw [readProgram, program]
  cases hd : skipSeparators ts with
  | nil =>
    rw [hd] at h
    cases h
  | cons t rest =>
    rw [hd] at h
    simp only [h]

/-- A program is empty, or its first statement is read or fails and the rest is a program. -/
theorem readProgram_induct {P : List Token → Prop}
    (blank : ∀ ts, skipSeparators ts = [] → P ts)
    (read : ∀ ts e left, statement (skipSeparators ts) = .ok ⟨e, left⟩ → P left → P ts)
    (unexpected : ∀ ts what left, skipSeparators ts ≠ [] →
      statement (skipSeparators ts) = .error (.unexpected what left) → P (recover left) → P ts)
    (invalidNumber : ∀ ts number left,
      statement (skipSeparators ts) = .error (.invalidNumber number left) → P (recover left) →
      P ts)
    (malformed : ∀ ts token, statement (skipSeparators ts) = .error (.malformed token) → P ts)
    (ts : List Token) : P ts := by
  induction hn : ts.length using Nat.strongRecOn generalizing ts with
  | ind n ih =>
    subst hn
    have hl := (skipSeparators_suffix ts).length_le
    have he := statement_ensures (skipSeparators ts)
    cases hd : skipSeparators ts with
    | nil => exact blank ts hd
    | cons t rest =>
      have hne : skipSeparators ts ≠ [] := by simp [hd]
      rw [hd] at he hl
      cases hr : statement (t :: rest) with
      | ok r =>
        rw [hr] at he
        exact read ts r.value r.rest (by rw [hd, hr])
          (ih _ (Nat.lt_of_lt_of_le he.2 hl) r.rest rfl)
      | error f =>
        rw [hr] at he
        cases f with
        | unexpected what left =>
          have hlt := (resume_shorter he.1 rfl).2
          exact unexpected ts what left hne (by rw [hd, hr])
            (ih _ (Nat.lt_of_lt_of_le hlt hl) (recover left) rfl)
        | invalidNumber number left =>
          have hlt := (resume_shorter he.1 rfl).2
          exact invalidNumber ts number left (by rw [hd, hr])
            (ih _ (Nat.lt_of_lt_of_le hlt hl) (recover left) rfl)
        | malformed token => exact malformed ts token (by rw [hd, hr])
        | outOfFuel => exact absurd rfl he.2

/-! ## Separators in front -/

theorem readProgram_congr (stop : Token) {ts us : List Token}
    (h : skipSeparators ts = skipSeparators us) : readProgram stop ts = readProgram stop us := by
  have hf : ∀ fuel, program stop (fuel + 1) ts = program stop (fuel + 1) us := by
    intro fuel
    simp only [program, h]
  have ht : ts.length < ts.length + us.length + 1 := by omega
  rw [← program_eq ht, hf, program_eq (by omega)]

theorem skipSeparators_append_of_nil {ts : List Token} (h : skipSeparators ts = [])
    (us : List Token) : skipSeparators (ts ++ us) = skipSeparators us := by
  rw [skipSeparators, List.dropWhile_append, ← skipSeparators, h]
  rfl

theorem skipSeparators_append_of_ne_nil {ts : List Token} (h : skipSeparators ts ≠ [])
    (us : List Token) : skipSeparators (ts ++ us) = skipSeparators ts ++ us := by
  rw [skipSeparators, List.dropWhile_append, ← skipSeparators]
  simp [h]

theorem skipSeparators_newline {t : Token} (ht : t.kind = .newline) (ts : List Token) :
    skipSeparators (t :: ts) = skipSeparators ts := by
  simp [skipSeparators, TokenKind.isSeparator, ht]

/-- After an error the parser finds a line break behind the tokens at the latest. -/
theorem skipSeparators_recover_append (left : List Token) {t : Token} (ht : t.kind = .newline)
    (us : List Token) :
    skipSeparators (recover (left ++ t :: us)) = skipSeparators (recover left ++ t :: us) := by
  have hsep : t.kind.isSeparator = true := by simp [TokenKind.isSeparator, ht]
  have hend : skipSeparators (recover (t :: us)) = skipSeparators (t :: us) := by
    cases us <;> simp [recover, hsep, skipSeparators_newline ht]
  induction left with
  | nil => exact hend
  | cons a left ih =>
    cases left with
    | nil =>
      have hword : ¬ (t.kind = .typeWord ∨ t.kind = .ifWord) := by simp [ht]
      simp only [List.cons_append, List.nil_append, recover, ite_self, if_neg hword]
      split
      · rfl
      · exact hend
    | cons b left =>
      simp only [List.cons_append] at ih ⊢
      rw [recover, recover]
      split
      · rfl
      · split
        · rfl
        · exact ih

/-! ## Chunks -/

namespace Program

/-- One program after another, the first of which was read to its end. -/
def append (p q : Program) : Program :=
  ⟨p.statements ++ q.statements, p.errors ++ q.errors, q.malformed⟩

theorem empty_append (p : Program) : empty.append p = p := rfl

theorem addStatement_append (e : Expr) (p q : Program) :
    (p.addStatement e).append q = (p.append q).addStatement e := rfl

theorem addError_append (e : SyntaxError) (p q : Program) :
    (p.addError e).append q = (p.append q).addError e := rfl

end Program

theorem statement_follow {xs ts : List Token} {r : Except Fault (Read Expr)}
    (h : statement ts = r) (hs : Settled xs r) : statement (ts ++ xs) = follow xs r := by
  subst h
  have hf : fuelFor (ts ++ xs) = 16 * xs.length + fuelFor ts := by
    simp only [fuelFor, List.length_append]
    omega
  rw [statement, hf]
  exact seamLaw xs (16 * xs.length) (fuelFor ts) (.operand (some .or)) ts hs

/-- A program that does not break off is read independently of the lines behind it. -/
theorem readProgram_append {stop stop' t : Token} {us : List Token} (hstop : stop.kind = .eof)
    (ht : t.kind = .newline) (hseam : Seam (t :: us)) (ts : List Token)
    (herr : ∀ e ∈ (readProgram stop ts).errors, e.atEnd = false)
    (hmal : (readProgram stop ts).malformed = none) :
    readProgram stop' (ts ++ t :: us) =
      (readProgram stop ts).append (readProgram stop' us) := by
  induction ts using readProgram_induct with
  | blank ts hd =>
    rw [readProgram_nil hd, Program.empty_append]
    refine readProgram_congr stop' ?_
    rw [skipSeparators_append_of_nil hd, skipSeparators_newline ht]
  | read ts e left hr ih =>
    have hne : skipSeparators ts ≠ [] := by
      intro hd
      rw [hd] at hr
      cases hr
    rw [readProgram_ok hr] at herr hmal ⊢
    have hr' : statement (skipSeparators (ts ++ t :: us)) = .ok ⟨e, left ++ t :: us⟩ := by
      rw [skipSeparators_append_of_ne_nil hne]
      exact statement_follow hr (Or.inl hseam)
    rw [readProgram_ok hr', ih herr hmal, Program.addStatement_append]
  | unexpected ts what left hne hr ih =>
    rw [readProgram_unexpected hne hr] at herr hmal ⊢
    have hleft : left ≠ [] := by
      rintro rfl
      have h := herr _ List.mem_cons_self
      simp [SyntaxError.ofToken, hstop] at h
    have hd := skipSeparators_append_of_ne_nil hne (t :: us)
    have hr' : statement (skipSeparators (ts ++ t :: us)) =
        .error (.unexpected what (left ++ t :: us)) := by
      rw [hd]
      exact statement_follow hr (Or.inr hleft)
    have hne' : skipSeparators (ts ++ t :: us) ≠ [] := by simp [hd]
    rw [readProgram_unexpected hne' hr',
      readProgram_congr stop' (skipSeparators_recover_append left ht us),
      ih (fun e he => herr e (List.mem_cons_of_mem _ he)) hmal, Program.addError_append]
    cases left with
    | nil => exact absurd rfl hleft
    | cons a left => rfl
  | invalidNumber ts number left hr ih =>
    have hne : skipSeparators ts ≠ [] := by
      intro hd
      rw [hd] at hr
      cases hr
    rw [readProgram_invalidNumber hr] at herr hmal ⊢
    have hr' : statement (skipSeparators (ts ++ t :: us)) =
        .error (.invalidNumber number (left ++ t :: us)) := by
      rw [skipSeparators_append_of_ne_nil hne]
      exact statement_follow hr trivial
    rw [readProgram_invalidNumber hr',
      readProgram_congr stop' (skipSeparators_recover_append left ht us),
      ih (fun e he => herr e (List.mem_cons_of_mem _ he)) hmal, Program.addError_append]
  | malformed ts token hr =>
    rw [readProgram_malformed hr] at hmal
    cases hmal

/-- With an error that is not at the end, more tokens do not help. -/
theorem readProgram_errors_persist {stop stop' : Token} (hstop : stop.kind = .eof)
    (xs ts : List Token) {e : SyntaxError}
    (hlast : (readProgram stop ts).errors.getLast? = some e) (hend : e.atEnd = false) :
    (readProgram stop' (ts ++ xs)).errors ≠ [] := by
  induction ts using readProgram_induct with
  | blank ts hd =>
    rw [readProgram_nil hd] at hlast
    cases hlast
  | read ts s left hr ih =>
    have hne : skipSeparators ts ≠ [] := by
      intro hd
      rw [hd] at hr
      cases hr
    rw [readProgram_ok hr] at hlast
    have hblank : ¬ Blank left := by
      intro hb
      rw [Program.addStatement, readProgram_nil (skipSeparators_of_blank hb)] at hlast
      cases hlast
    have hr' : statement (skipSeparators (ts ++ xs)) = .ok ⟨s, left ++ xs⟩ := by
      rw [skipSeparators_append_of_ne_nil hne]
      exact statement_follow hr (Or.inr hblank)
    rw [readProgram_ok hr']
    exact ih hlast
  | unexpected ts what left hne hr ih =>
    have hleft : left ≠ [] := by
      rintro rfl
      rw [readProgram_unexpected hne hr, readProgram_nil rfl] at hlast
      have he : SyntaxError.ofToken (.unexpectedToken what) stop = e := Option.some.inj hlast
      simp [← he, SyntaxError.ofToken, hstop] at hend
    have hd := skipSeparators_append_of_ne_nil hne xs
    have hr' : statement (skipSeparators (ts ++ xs)) = .error (.unexpected what (left ++ xs)) := by
      rw [hd]
      exact statement_follow hr (Or.inr hleft)
    have hne' : skipSeparators (ts ++ xs) ≠ [] := by simp [hd, hne]
    rw [readProgram_unexpected hne' hr']
    simp [Program.addError]
  | invalidNumber ts number left hr ih =>
    have hne : skipSeparators ts ≠ [] := by
      intro hd
      rw [hd] at hr
      cases hr
    have hr' : statement (skipSeparators (ts ++ xs)) =
        .error (.invalidNumber number (left ++ xs)) := by
      rw [skipSeparators_append_of_ne_nil hne]
      exact statement_follow hr trivial
    rw [readProgram_invalidNumber hr']
    simp [Program.addError]
  | malformed ts token hr =>
    rw [readProgram_malformed hr] at hlast
    cases hlast

/-- Only a string token without a text ends a parse early. -/
theorem readProgram_malformed_eq_none {stop : Token} (ts : List Token)
    (h : ∀ t ∈ ts, t.kind = .string → t.text? ≠ none) : (readProgram stop ts).malformed = none := by
  induction ts using readProgram_induct with
  | blank ts hd =>
    rw [readProgram_nil hd]
    rfl
  | read ts e left hr ih =>
    have he := statement_ensures (skipSeparators ts)
    rw [hr] at he
    rw [readProgram_ok hr]
    exact ih fun t ht => h t ((he.1.trans (skipSeparators_suffix ts)).subset ht)
  | unexpected ts what left hne hr ih =>
    have he := statement_ensures (skipSeparators ts)
    rw [hr] at he
    rw [readProgram_unexpected hne hr]
    exact ih fun t ht =>
      h t (((recover_suffix left).trans (he.1.trans (skipSeparators_suffix ts))).subset ht)
  | invalidNumber ts number left hr ih =>
    have he := statement_ensures (skipSeparators ts)
    rw [hr] at he
    have hs : left <:+ skipSeparators ts := (List.suffix_cons number left).trans he.1.1
    rw [readProgram_invalidNumber hr]
    exact ih fun t ht =>
      h t (((recover_suffix left).trans (hs.trans (skipSeparators_suffix ts))).subset ht)
  | malformed ts token hr =>
    have he := statement_ensures (skipSeparators ts)
    rw [hr] at he
    obtain ⟨⟨hm, hk, ht⟩, -⟩ := he
    exact absurd ht (h token ((skipSeparators_suffix ts).subset hm) hk)

/-! ## The first end token -/

theorem find?_eof {ts : List Token} (h : ∀ t ∈ ts, t.kind ≠ .eof) :
    ts.find? (fun t => t.kind == .eof) = none := by
  rw [List.find?_eq_none]
  intro t ht
  simpa using h t ht

section Body

variable {body : List Token} {stop : Token} (hbody : ∀ t ∈ body, t.kind ≠ .eof)
  (hstop : stop.kind = .eof) (extra : List Token)
include hbody hstop

theorem takeWhile_body :
    (body ++ stop :: extra).takeWhile (fun t => t.kind != .eof) = body := by
  rw [List.takeWhile_append_of_pos fun t ht => by simpa using hbody t ht,
    List.takeWhile_cons_of_neg (by simp [hstop]), List.append_nil]

theorem stopToken_body : stopToken (body ++ stop :: extra) = stop := by
  simp [stopToken, List.find?_append, find?_eof hbody, hstop]

theorem parse_body : parse (body ++ stop :: extra) = readProgram stop body := by
  simp only [parse, readProgram, takeWhile_body hbody hstop, stopToken_body hbody hstop]

end Body

end ExprLang.Parser

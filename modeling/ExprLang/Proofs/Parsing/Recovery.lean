import ExprLang.Proofs.Parsing.Safety
import ExprLang.Token.Scan

/-!
# Recovery

After a syntax error the parser goes on where a statement may start: at `if` or `type`, behind a
separator, or at the end. It never looks at the first token that is still to be read. That token is
the reported one, except after a number that cannot be read: the number itself is read already, and
an `if` or `type` right behind it is passed over.
-/

namespace ExprLang

namespace Parser

/-! ## Boundaries -/

/-- A statement may start at index `j`. -/
def Boundary (ts : List Token) (j : Nat) : Prop :=
  (∃ t, ts[j]? = some t ∧ (t.kind = .eof ∨ t.kind = .typeWord ∨ t.kind = .ifWord)) ∨
    0 < j ∧ ∃ t, ts[j - 1]? = some t ∧ t.kind.isSeparator = true

/-- The least boundary behind index `k`. -/
structure NextBoundary (ts : List Token) (k j : Nat) : Prop where
  behind : k < j
  boundary : Boundary ts j
  least : ∀ i, k < i → i < j → ¬ Boundary ts i

variable {ts left place extra : List Token} {t stop : Token} {j k : Nat}

theorem boundary_drop (h : 0 < j) : Boundary (ts.drop k) j ↔ Boundary ts (k + j) := by
  have hprev : k + j - 1 = k + (j - 1) := by omega
  have hpos : 0 < k + j := by omega
  simp only [Boundary, List.getElem?_drop, hprev, h, hpos]

theorem boundary_cons (h : 0 < j) : Boundary (t :: ts) (j + 1) ↔ Boundary ts j := by
  have hdrop : ts = (t :: ts).drop 1 := rfl
  rw [Nat.add_comm, ← boundary_drop h, ← hdrop]

theorem NextBoundary.of_drop (h : NextBoundary (ts.drop k) 0 j) : NextBoundary ts k (k + j) where
  behind := by
    have := h.behind
    omega
  boundary := (boundary_drop h.behind).mp h.boundary
  least i hk hi hb := by
    obtain ⟨n, rfl⟩ := Nat.exists_eq_add_of_lt hk
    have hn : 0 < n + 1 := Nat.succ_pos n
    exact h.least (n + 1) hn (by omega) ((boundary_drop hn).mpr hb)

theorem nextBoundary_one (h : Boundary ts 1) : NextBoundary ts 0 1 where
  behind := Nat.one_pos
  boundary := h
  least i h0 h1 := by omega

/-- No boundary is missed by starting one index later. -/
theorem NextBoundary.of_succ (h : NextBoundary ts (k + 1) j) (hk : ¬ Boundary ts (k + 1)) :
    NextBoundary ts k j where
  behind := Nat.lt_of_succ_lt h.behind
  boundary := h.boundary
  least i hi hj := by
    rcases Nat.eq_or_lt_of_le (Nat.succ_le_of_lt hi) with rfl | hlt
    · exact hk
    · exact h.least i hlt hj

/-! ## Dropping tokens -/

theorem recover_separator (h : t.kind.isSeparator = true) : recover (t :: ts) = ts := by
  cases ts <;> simp [recover, h]

/-- The tokens left after an error, dropped one by one up to the next boundary. -/
theorem exists_nextBoundary (hstop : stop.kind = .eof) (extra : List Token)
    (hleft : ∀ t ∈ left, t.kind ≠ .eof) (hne : left ≠ []) :
    ∃ n, NextBoundary (left ++ stop :: extra) 0 n ∧
      (left ++ stop :: extra).drop n = recover left ++ stop :: extra := by
  induction left with
  | nil => exact absurd rfl hne
  | cons t ts ih =>
    by_cases ht : t.kind.isSeparator = true
    · refine ⟨1, nextBoundary_one (.inr ⟨Nat.one_pos, t, rfl, ht⟩), ?_⟩
      rw [recover_separator ht]
      rfl
    · cases ts with
      | nil =>
        refine ⟨1, nextBoundary_one (.inl ⟨stop, rfl, .inl hstop⟩), ?_⟩
        simp [recover]
      | cons u us =>
        obtain ⟨-, hts⟩ := List.forall_mem_cons.mp hleft
        by_cases hu : u.kind = .typeWord ∨ u.kind = .ifWord
        · refine ⟨1, nextBoundary_one (.inl ⟨u, rfl, .inr hu⟩), ?_⟩
          rw [recover, if_neg ht]
          simp only [if_pos hu]
          rfl
        · obtain ⟨n, hn, hdrop⟩ := ih hts (List.cons_ne_nil u us)
          refine ⟨n + 1, ⟨Nat.succ_pos n, (boundary_cons hn.behind).mpr hn.boundary, ?_⟩, ?_⟩
          · -- The token at index 1 is not one that a statement starts at.
            rintro (_ | _ | i) h0 hi hb
            · omega
            · rcases hb with ⟨v, hv, hk⟩ | ⟨-, v, hv, hk⟩
              · cases hv
                exact hk.elim (hts u List.mem_cons_self) hu
              · cases hv
                exact ht hk
            · exact hn.least (i + 1) (Nat.succ_pos i) (by omega)
                ((boundary_cons (Nat.succ_pos i)).mp hb)
          · rw [recover, if_neg ht]
            simp only [if_neg hu]
            exact hdrop

/-! ## Errors -/

/-- What a fault is reported as, and the tokens from the reported one on. -/
def Fault.place? : Fault → Option (SyntaxCause × List Token)
  | .unexpected what left => some (.unexpectedToken what, left)
  | .invalidNumber t left => some (.invalidNumber, t :: left)
  | .malformed _ | .outOfFuel => none

/-- The tokens before the first end token. -/
def body (ts : List Token) : List Token := ts.takeWhile fun t => t.kind != .eof

/-- The error of the first attempt at a statement, if there is one, and the tokens from the reported
one on. -/
def firstFault? (ts : List Token) : Option (SyntaxCause × List Token) :=
  match skipSeparators (body ts) with
  | [] => none
  | t :: rest =>
    match statement (t :: rest) with
    | .ok _ => none
    | .error fault => fault.place?

/-- The error at index `k` is a number that cannot be read, with `type` or `if` right behind it. -/
def NumberBeforeWord (ts : List Token) (cause : SyntaxCause) (k : Nat) : Prop :=
  cause = .invalidNumber ∧
    ∃ t, ts[k + 1]? = some t ∧ (t.kind = .typeWord ∨ t.kind = .ifWord)

/-- Where a parse goes on after an error at index `k`. -/
def ResumesAt (ts : List Token) (k j : Nat) : Prop :=
  (j = k ∧ ∃ t, ts[k]? = some t ∧ t.kind = .eof) ∨
    NextBoundary ts k j ∧ ∀ t, ts[k]? = some t → t.kind ≠ .eof

/-! ## Whole lists -/

theorem exists_stop (h : ∃ t ∈ ts, t.kind = .eof) :
    ∃ stop extra, stop.kind = .eof ∧ ts = body ts ++ stop :: extra := by
  have hsplit := List.takeWhile_append_dropWhile (p := fun t : Token => t.kind != .eof) (l := ts)
  cases hd : ts.dropWhile fun t => t.kind != .eof with
  | nil =>
    obtain ⟨t, ht, hk⟩ := h
    simpa [hk] using List.dropWhile_eq_nil_iff.mp hd t ht
  | cons stop extra =>
    have hstop := List.head?_dropWhile_not (fun t : Token => t.kind != .eof) ts
    rw [hd] at hstop hsplit
    exact ⟨stop, extra, by simpa using hstop, hsplit.symm⟩

theorem body_kind (h : t ∈ body ts) : t.kind ≠ .eof := Cursor.kind_of_mem_takeWhile h

/-- The place of a fault lies at the end of the tokens that were given. -/
theorem place_suffix {fault : Fault} {cause : SyntaxCause} (hfault : fault.Within ts)
    (hplace : fault.place? = some (cause, place)) : place <:+ ts := by
  cases fault with
  | unexpected what left =>
    cases hplace
    exact hfault
  | invalidNumber t left =>
    cases hplace
    exact hfault.1
  | malformed t => cases hplace
  | outOfFuel => cases hplace

/-- What follows the tokens dropped after an error with `left` still to be read at index `k`. -/
theorem exists_resume (hstop : stop.kind = .eof) (hleft : ∀ t ∈ left, t.kind ≠ .eof)
    (hk : ts.drop k = left ++ stop :: extra) :
    ∃ j, (left = [] ∧ j = k ∨ left ≠ [] ∧ NextBoundary ts k j) ∧
      parse (ts.drop j) = readProgram stop (recover left) := by
  by_cases hne : left = []
  · subst hne
    refine ⟨k, .inl ⟨rfl, rfl⟩, ?_⟩
    rw [hk]
    exact parse_body hleft hstop extra
  · obtain ⟨n, hn, hdrop⟩ := exists_nextBoundary hstop extra hleft hne
    rw [← hk] at hn hdrop
    refine ⟨k + n, .inr ⟨hne, hn.of_drop⟩, ?_⟩
    rw [← List.drop_drop, hdrop]
    exact parse_body (fun t ht => hleft t ((recover_suffix left).subset ht)) hstop extra

theorem exists_fault {cause : SyntaxCause} (h : firstFault? ts = some (cause, place)) :
    ∃ fault, skipSeparators (body ts) ≠ [] ∧
      statement (skipSeparators (body ts)) = .error fault ∧ fault.place? = some (cause, place) := by
  unfold firstFault? at h
  split at h
  · cases h
  · rename_i t rest hs
    split at h
    · cases h
    · rename_i fault hf
      exact ⟨fault, by simp [hs], hs ▸ hf, h⟩

theorem getElem?_of_drop (h : ts.drop k = t :: left) : ts[k]? = some t := by
  rw [← List.head?_drop, h]
  rfl

/-- The reported token is the first one still to be read. -/
theorem resumes_unexpected (hstop : stop.kind = .eof) (hplace : ∀ t ∈ place, t.kind ≠ .eof)
    (hk : ts.drop k = place ++ stop :: extra) :
    ∃ j, ResumesAt ts k j ∧ parse (ts.drop j) = readProgram stop (recover place) := by
  obtain ⟨j, hj, hparse⟩ := exists_resume hstop hplace hk
  refine ⟨j, ?_, hparse⟩
  rcases hj with ⟨rfl, rfl⟩ | ⟨hne, hnext⟩
  · exact .inl ⟨rfl, stop, getElem?_of_drop hk, hstop⟩
  · obtain ⟨t, us, rfl⟩ := List.exists_cons_of_ne_nil hne
    refine .inr ⟨hnext, fun u hu => ?_⟩
    rw [getElem?_of_drop hk] at hu
    cases hu
    exact hplace t List.mem_cons_self

/-- The reported token is a number, which is read already. -/
theorem resumes_invalidNumber (hstop : stop.kind = .eof) (hleft : ∀ t ∈ left, t.kind ≠ .eof)
    (hnumber : t.kind = .int ∨ t.kind = .float) (hk : ts.drop k = t :: left ++ stop :: extra) :
    ∃ j, (¬ NumberBeforeWord ts .invalidNumber k → ResumesAt ts k j) ∧
      (NumberBeforeWord ts .invalidNumber k → NextBoundary ts (k + 1) j) ∧
      parse (ts.drop j) = readProgram stop (recover left) := by
  have ht : ts[k]? = some t := getElem?_of_drop hk
  have hnoEnd : ∀ u, ts[k]? = some u → u.kind ≠ .eof := by
    intro u hu
    rw [ht] at hu
    cases hu
    rcases hnumber with h | h <;> simp [h]
  have hrest : ts.drop (k + 1) = left ++ stop :: extra := by
    rw [← List.drop_drop, hk]
    rfl
  obtain ⟨j, hj, hparse⟩ := exists_resume hstop hleft hrest
  refine ⟨j, ?_, ?_, hparse⟩
  · intro hword
    refine .inr ⟨?_, hnoEnd⟩
    rcases hj with ⟨rfl, rfl⟩ | ⟨hne, hnext⟩
    · have hb : Boundary ts (k + 1) := .inl ⟨stop, getElem?_of_drop hrest, .inl hstop⟩
      exact ⟨Nat.lt_succ_self k, hb, fun i hi hj => by omega⟩
    · obtain ⟨u, us, rfl⟩ := List.exists_cons_of_ne_nil hne
      have hu : ts[k + 1]? = some u := getElem?_of_drop hrest
      refine hnext.of_succ ?_
      rintro (⟨v, hv, hend | hkind⟩ | ⟨-, v, hv, hsep⟩)
      · rw [hu] at hv
        cases hv
        exact hleft u List.mem_cons_self hend
      · exact hword ⟨rfl, v, hv, hkind⟩
      · -- A number separates no statements.
        rw [Nat.add_sub_cancel, ht] at hv
        cases hv
        rcases hnumber with h | h <;> simp [h, TokenKind.isSeparator] at hsep
  · rintro ⟨-, u, hu, hkind⟩
    rcases hj with ⟨rfl, -⟩ | ⟨-, hnext⟩
    · rw [getElem?_of_drop hrest] at hu
      cases hu
      simp [hstop] at hkind
    · exact hnext

end Parser

open ExprLang.Parser in
/-- After the first error a parse goes on as if the tokens began at the next boundary behind the
reported token, or at the end if the error is there. The one exception is a number that cannot be
read right before `type` or `if`: the boundary between the two is missed. -/
theorem parse_resumes {ts place : List Token} {cause : SyntaxCause}
    (hend : ∃ t ∈ ts, t.kind = .eof) (hfirst : firstFault? ts = some (cause, place)) :
    ∃ k offending j, k + place.length = (body ts).length ∧ place <+: ts.drop k ∧
      ts[k]? = some offending ∧
      (¬ NumberBeforeWord ts cause k → ResumesAt ts k j) ∧
      (NumberBeforeWord ts cause k → NextBoundary ts (k + 1) j) ∧
      parse ts = (parse (ts.drop j)).addError (.ofToken cause offending) := by
  obtain ⟨stop, extra, hstop, hts⟩ := exists_stop hend
  obtain ⟨fault, hattempt, hfail, hplace⟩ := exists_fault hfirst
  have hwithin := statement_ensures (skipSeparators (body ts))
  rw [hfail] at hwithin
  obtain ⟨read, hread⟩ := (place_suffix hwithin.1 hplace).trans (skipSeparators_suffix (body ts))
  have hkinds : ∀ t ∈ place, t.kind ≠ .eof := by
    intro t ht
    have hmem : t ∈ body ts := hread ▸ List.mem_append_right read ht
    exact body_kind hmem
  have hparse : parse ts = readProgram stop (body ts) := by
    have h := parse_body (fun t (ht : t ∈ body ts) => body_kind ht) hstop extra
    rwa [← hts] at h
  have hk : ts.drop read.length = place ++ stop :: extra := by
    rw [hts, ← hread, List.append_assoc, List.drop_left]
  have hlen : read.length + place.length = (body ts).length := by
    rw [← hread, List.length_append]
  -- Only a number has been passed when it is reported; other faults are in front of the cursor.
  cases fault with
  | unexpected what left =>
    cases hplace
    obtain ⟨j, hj, hresume⟩ := resumes_unexpected hstop hkinds hk
    refine ⟨read.length, place.head?.getD stop, j, hlen, ⟨_, hk.symm⟩, ?_, fun _ => hj, ?_, ?_⟩
    · rw [← List.head?_drop, hk]
      cases place <;> rfl
    · rintro ⟨hcause, -⟩
      cases hcause
    · rw [hparse, readProgram_unexpected hattempt hfail, hresume]
  | invalidNumber number left =>
    cases hplace
    obtain ⟨j, hj, hmissed, hresume⟩ := resumes_invalidNumber hstop
      (List.forall_mem_cons.mp hkinds).2 hwithin.1.2 hk
    refine ⟨read.length, number, j, hlen, ⟨_, hk.symm⟩, getElem?_of_drop hk, hj, hmissed, ?_⟩
    rw [hparse, readProgram_invalidNumber hfail, hresume]
  | malformed t => cases hplace
  | outOfFuel => cases hplace

/-- A closing parenthesis that nothing opens, and a statement in the next line. -/
def strayParenthesis : List Token := (scan (bytes "1 + )\nx")).tokens

open ExprLang.Parser in
theorem parse_resumes_strayParenthesis :
    (∃ t ∈ strayParenthesis, t.kind = .eof) ∧
      firstFault? strayParenthesis =
        some (.unexpectedToken .expression, (body strayParenthesis).drop 2) ∧
      ∃ k offending j, k + 3 = 5 ∧ strayParenthesis[k]? = some offending ∧
        ResumesAt strayParenthesis k j ∧
        parse strayParenthesis = (parse (strayParenthesis.drop j)).addError
          (.ofToken (.unexpectedToken .expression) offending) := by
  have hend : ∃ t ∈ strayParenthesis, t.kind = .eof := by decide +kernel
  have hfirst : firstFault? strayParenthesis =
      some (.unexpectedToken .expression, (body strayParenthesis).drop 2) := by decide +kernel
  have hplace : ((body strayParenthesis).drop 2).length = 3 := by decide +kernel
  have hbody : (body strayParenthesis).length = 5 := by decide +kernel
  obtain ⟨k, offending, j, hk, -, hoffending, hj, -, hparse⟩ := parse_resumes hend hfirst
  rw [hplace, hbody] at hk
  refine ⟨hend, hfirst, k, offending, j, hk, hoffending, hj ?_, hparse⟩
  rintro ⟨hcause, -⟩
  cases hcause

/-- A number too large for an integer, and a conditional right behind it. -/
def numberBeforeIf : List Token := (scan (bytes "99999999999999999999 if true 1")).tokens

open ExprLang.Parser in
/-- The conditional starts at the next boundary behind the number, and it is passed over. -/
theorem conditional_lost :
    firstFault? numberBeforeIf = some (.invalidNumber, body numberBeforeIf) ∧
      NextBoundary numberBeforeIf 0 1 ∧ (parse numberBeforeIf).statements = [] ∧
      (parse (numberBeforeIf.drop 1)).statements.length = 1 := by
  have hword : (numberBeforeIf[1]?).map Token.kind = some .ifWord := by decide +kernel
  obtain ⟨t, ht, hk⟩ := Option.map_eq_some_iff.mp hword
  exact ⟨by decide +kernel, nextBoundary_one (.inl ⟨t, ht, .inr (.inr hk)⟩), by decide +kernel,
    by decide +kernel⟩

end ExprLang

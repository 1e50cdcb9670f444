import ExprLang.Proofs.Evaluation.Collections
import ExprLang.Proofs.Running.Steps
import ExprLang.Proofs.Text.Decoding

/-!
# Characters of strings

The items of a string are the parts of its text, each as the string it is decoded to. A function
that adds two strings reduces them to one, which is the string itself if its text is well-formed.
-/

namespace ExprLang

open Eval Text.Utf8

/-! ## Items -/

theorem items?_string {s : Bytes} {ps : List Part} (h : Decoding s ps) :
    (Value.string s).items? = some (.values (ps.map fun p => .string p.shown)) := by
  obtain ⟨qs, hqs, hchars⟩ := exists_division s
  obtain rfl := h.division.unique hqs
  simp only [Value.items?, Items.ofString, hchars, List.map_map]
  refine congrArg (fun vs => some (Items.values vs)) (List.map_congr_left fun p _ => ?_)
  simp only [Function.comp_apply, Part.encode_decoded]

/-! ## Adding them up -/

/-- The call `reduce(|a b| a + b, s)`. -/
def additionCall : Bytes := bytes "reduce(|a b| a + b, s)"

/-- The expression `a + b`. -/
def additionBody : Expr :=
  .binary (.variable (bytes "a") 1) .plus (bytes "+") 1 (.variable (bytes "b") 1)

/-- The function `|a b| a + b`. -/
def addition : Callable := .function [bytes "a", bytes "b"] additionBody

/-- The tokens of the call. -/
def additionTokens : List Token :=
  [⟨.identifier, bytes "reduce", none, 1⟩, ⟨.leftParen, bytes "(", none, 1⟩,
    ⟨.bar, bytes "|", none, 1⟩, ⟨.identifier, bytes "a", none, 1⟩,
    ⟨.identifier, bytes "b", none, 1⟩, ⟨.bar, bytes "|", none, 1⟩,
    ⟨.identifier, bytes "a", none, 1⟩, ⟨.plus, bytes "+", none, 1⟩,
    ⟨.identifier, bytes "b", none, 1⟩, ⟨.comma, bytes ",", none, 1⟩,
    ⟨.identifier, bytes "s", none, 1⟩, ⟨.rightParen, bytes ")", none, 1⟩, .eof 1]

theorem scan_additionCall : scan additionCall = ⟨additionTokens, []⟩ := by decide +kernel

theorem parse_additionTokens : parse additionTokens =
    ⟨[.call (.variable Builtin.reduce.name 1) 1
      [.function 1 [bytes "a", bytes "b"] additionBody, .variable (bytes "s") 1]], [], none⟩ := by
  rfl

theorem check_additionCall : check additionCall = [] := by
  simp only [check, scan_additionCall, parse_additionTokens, List.append_nil]

theorem statements_additionCall : statements additionCall =
    [.call (.variable Builtin.reduce.name 1) 1
      [.function 1 [bytes "a", bytes "b"] additionBody, .variable (bytes "s") 1]] := by
  rw [statements, scan_additionCall, parse_additionTokens]

theorem eval_additionBody {fuel : Nat} {x y : Bytes} {m : Machine}
    (ha : m.scope.lookup (bytes "a") = some (.string x))
    (hb : m.scope.lookup (bytes "b") = some (.string y)) :
    eval (fuel + 2) additionBody m = .ok (.string (x ++ y)) m := by
  have hleft : eval (fuel + 1) (.variable (bytes "a") 1) m = .ok (.string x) m := by
    rw [eval, lookup_some ha]
  have hright : eval (fuel + 1) (.variable (bytes "b") 1) m = .ok (.string y) m := by
    rw [eval, lookup_some hb]
  rw [additionBody, eval, bind_ok hleft, bind_ok hright]
  rfl

theorem callOn_addition (fuel : Nat) (line : Int) (x y : Bytes) (m : Machine) :
    callOn (fuel + 3) addition line [.string x, .string y] m = .ok (.string (x ++ y)) m := by
  have hcheck : checkArity addition line 2 m = .ok () m := rfl
  have hinvoke : invoke (fuel + 3) addition line [.string x, .string y] m =
      .ok (.string (x ++ y)) m := by
    rw [addition, invoke]
    exact inFrame_ok (eval_additionBody rfl rfl)
  exact (bind_ok hcheck _).trans hinvoke

theorem foldlM_addition (fuel : Nat) (line : Int) (x : Bytes) (ps : List Part) (m : Machine) :
    (ps.map fun p => Value.string p.shown).foldlM
        (fun a i => callOn (fuel + 3) addition line [a, i]) (.string x) m =
      .ok (.string (x ++ ps.flatMap Part.shown)) m := by
  induction ps generalizing x with
  | nil =>
    rw [List.flatMap_nil, List.append_nil]
    rfl
  | cons p ps ih =>
    rw [List.map_cons, List.foldlM_cons, bind_ok (callOn_addition fuel line x p.shown m), ih,
      List.append_assoc, List.flatMap_cons]

theorem evalAll_additionCall (fuel : Nat) {s : Bytes} {m : Machine}
    (hstring : m.scope.lookup (bytes "s") = some (.string s)) :
    evalAll (eval (fuel + 1))
        [.function 1 [bytes "a", bytes "b"] additionBody, .variable (bytes "s") 1] m =
      .ok [.function m.fresh [bytes "a", bytes "b"] additionBody, .string s]
        { m with fresh := m.fresh + 1 } := by
  have hfunction : eval (fuel + 1) (.function 1 [bytes "a", bytes "b"] additionBody) m =
      .ok (.function m.fresh [bytes "a", bytes "b"] additionBody)
        { m with fresh := m.fresh + 1 } := by
    rw [eval]
    rfl
  have hvariable : eval (fuel + 1) (.variable (bytes "s") 1) { m with fresh := m.fresh + 1 } =
      .ok (.string s) { m with fresh := m.fresh + 1 } := by
    rw [eval]
    exact lookup_some (m := { m with fresh := m.fresh + 1 }) hstring 1
  rw [evalAll, bind_ok hfunction, evalAll, bind_assoc, bind_ok hvariable]
  rfl

/-- All items of a string are added up, from the first to the last. -/
theorem eval_additionCall {fuel : Nat} {s : Bytes} {ps : List Part} {m : Machine} {root : Root}
    (hs : s ≠ []) (h : Decoding s ps)
    (hreduce : m.scope.lookup Builtin.reduce.name = some (.builtin .reduce root))
    (hstring : m.scope.lookup (bytes "s") = some (.string s)) :
    eval (fuel + 5) (.call (.variable Builtin.reduce.name 1) 1
      [.function 1 [bytes "a", bytes "b"] additionBody, .variable (bytes "s") 1]) m =
      .ok (.string (ps.flatMap Part.shown)) { m with fresh := m.fresh + 1 } := by
  rw [eval_builtin_call hreduce rfl, bind_ok (evalAll_additionCall (fuel + 3) hstring),
    invoke_reduce rfl (items?_string h)]
  cases ps with
  | nil => exact absurd h.text.symm hs
  | cons p ps => exact foldlM_addition fuel 1 p.shown ps _

theorem run_additionCall (fuel : Nat) {i : Interpreter} {s : Bytes} {ps : List Part}
    {root : Root} (hs : s ≠ []) (h : Decoding s ps)
    (hreduce : i.global? (bytes "reduce") = some (.builtin .reduce root))
    (hstring : i.global? (bytes "s") = some (.string s)) :
    (i.run (fuel + 5) additionCall).outcome = .value (.string (ps.flatMap Part.shown)) := by
  have hlookup (e : Expr) (name : Bytes) :
      (i.cleared.announce e).machine.scope.lookup name = i.global? name := by
    unfold Interpreter.announce
    split <;> rfl
  obtain ⟨houtcome, -⟩ := Interpreter.run_checked (fuel + 5) i check_additionCall
  rw [houtcome, statements_additionCall, Interpreter.runStatements, Machine.evaluate,
    eval_additionCall hs h ((hlookup _ _).trans hreduce) ((hlookup _ _).trans hstring)]
  rfl

/-- The items of a string are the parts of its text: its characters, and in the place of each byte
that belongs to no sequence the character U+FFFD. There is one way to see it like this, with one
item for each sequence and for each other byte. Adding up the items of a string that is not empty
gives all of them in order, and the string itself if it is well-formed. -/
theorem string_items (s : Bytes) :
    ∃ ps, Decoding s ps ∧ (∀ qs, Decoding s qs → qs = ps) ∧
      (Value.string s).items? = some (.values (ps.map fun p => .string p.shown)) ∧
      (∀ p ∈ ps, ∃! c, encode c = p.shown) ∧
      ps.length = {i | ∃ w, SequenceAt s i w}.ncard +
        {i | i < s.length ∧ ¬ InSequence s i}.ncard ∧
      ∀ (fuel : Nat) (i : Interpreter) (root : Root), s ≠ [] →
        i.global? (bytes "reduce") = some (.builtin .reduce root) →
        i.global? (bytes "s") = some (.string s) →
        let run := i.run (fuel + 5) (bytes "reduce(|a b| a + b, s)")
        run.outcome = .value (.string (ps.flatMap Part.shown)) ∧
          (WellFormed s → run.outcome = .value (.string s)) := by
  obtain ⟨ps, hdivision, -⟩ := exists_division s
  have h := hdivision.decoding
  refine ⟨ps, h, fun qs hqs => hqs.unique h, items?_string h, fun p _ => ?_, h.length, ?_⟩
  · refine ⟨p.decoded, p.encode_decoded, fun c hc => ?_⟩
    have hsame : encode c ++ [] = encode p.decoded ++ [] := by rw [hc, p.encode_decoded]
    exact (encode_append_inj hsame).1
  · intro fuel i root hs hreduce hstring
    have hrun := run_additionCall fuel hs h hreduce hstring
    exact ⟨hrun, fun hvalid => hrun.trans (by rw [h.shown_eq hvalid])⟩

/-- A text with characters of one, two and four bytes, and one with a surrogate and a sequence cut
short. -/
theorem string_items_broken :
    let whole := bytes "aé😀"
    let broken : Bytes := [0xED, 0xA0, 0x80, 0xC3, 0xA9, 0xF0, 0x9F]
    let mark : Bytes := [0xEF, 0xBF, 0xBD]
    let i (s : Bytes) : Interpreter :=
      ⟨⟨⟨(bytes "s", .string s) :: Frame.globals ⟨0, false⟩, []⟩, [], 1⟩, false⟩
    let bound (s : Bytes) := s ≠ [] ∧
      (i s).global? (bytes "reduce") = some (.builtin .reduce ⟨0, false⟩) ∧
      (i s).global? (bytes "s") = some (.string s)
    let outcome (s : Bytes) := ((i s).run 20 (bytes "reduce(|a b| a + b, s)")).outcome
    (bound whole ∧ WellFormed whole ∧ outcome whole = .value (.string whole)) ∧
      bound broken ∧
      outcome broken = .value (.string (mark ++ mark ++ mark ++ bytes "é" ++ mark ++ mark)) := by
  intro whole broken mark i bound outcome
  have hwhole : bound whole := ⟨by decide, rfl, rfl⟩
  have hbroken : bound broken := ⟨by decide, rfl, rfl⟩
  have hvalid : WellFormed whole := by
    refine ⟨['a', 'é', '😀'].map encode, fun w hw => ?_, rfl⟩
    obtain ⟨c, -, rfl⟩ := List.mem_map.mp hw
    exact sequence_encode c
  obtain ⟨ps, -, -, -, -, -, hsum⟩ := string_items whole
  obtain ⟨qs, -, -, hitems, -, -, hsum'⟩ := string_items broken
  have hchars : chars broken = [replacement, replacement, replacement, 'é', replacement,
      replacement] := by decide
  have hlist : (Value.string broken).items? = some (.values
      [.string mark, .string mark, .string mark, .string (bytes "é"), .string mark,
        .string mark]) := by
    simp only [Value.items?, Items.ofString, hchars]
    rfl
  have hshown : qs.flatMap Part.shown = mark ++ mark ++ mark ++ bytes "é" ++ mark ++ mark := by
    have hvalues := Items.values.inj (Option.some.inj (hitems.symm.trans hlist))
    have htext := congrArg (List.flatMap Value.text) hvalues
    rwa [List.flatMap_map] at htext
  refine ⟨⟨hwhole, hvalid, ?_⟩, hbroken, ?_⟩
  · exact (hsum 15 (i whole) _ hwhole.1 hwhole.2.1 hwhole.2.2).2 hvalid
  · rw [← hshown]
    exact (hsum' 15 (i broken) _ hbroken.1 hbroken.2.1 hbroken.2.2).1

end ExprLang

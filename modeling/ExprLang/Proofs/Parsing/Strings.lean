import ExprLang.Proofs.Parsing.Grammar
import ExprLang.Proofs.Parsing.Scanned

/-!
# Strings in trees

Every string token of a program without errors is a literal of its trees. So programs with the same
trees have the same strings, wherever their lines break.
-/

namespace ExprLang

open ExprLang.Parser

/-! ## In a tree -/

/-- Not a mark or an operator that a string token would fit. -/
def Leaf.isProper : Leaf → Bool
  | .mark kind _ | .operator kind _ _ => kind != .string
  | _ => true

theorem Leaf.literal_of_fits {leaf : Leaf} {t : Token} (hproper : leaf.isProper = true)
    (h : leaf.fits t = true) (hk : t.kind = .string) :
    ∃ value, leaf = .literal value ∧ t.literal? = some value := by
  cases leaf with
  | mark kind line =>
    simp only [fits, hk, Bool.and_eq_true, beq_iff_eq] at h
    simp [isProper, ← h.1] at hproper
  | name text line => simp [fits, hk] at h
  | operator kind spelling line =>
    simp only [fits, hk, Bool.and_eq_true, beq_iff_eq] at h
    simp [isProper, ← h.1] at hproper
  | literal value => exact ⟨value, rfl, by simpa [fits] using h⟩

theorem proper_leavesAll {es : List Expr}
    (h : ∀ e ∈ es, ∀ leaf ∈ e.leaves, leaf.isProper = true) :
    ∀ leaf ∈ Expr.leavesAll es, leaf.isProper = true := by
  induction es with
  | nil => simp [Expr.leavesAll]
  | cons e es ih =>
    obtain ⟨he, hes⟩ := List.forall_mem_cons.mp h
    rw [Expr.leavesAll, List.forall_mem_append]
    exact ⟨he, ih hes⟩

theorem proper_moreArguments {es : List Expr}
    (h : ∀ e ∈ es, ∀ leaf ∈ e.leaves, leaf.isProper = true) :
    ∀ leaf ∈ Expr.moreArgumentLeaves es, leaf.isProper = true := by
  induction es with
  | nil => simp [Expr.moreArgumentLeaves]
  | cons e es ih =>
    obtain ⟨he, hes⟩ := List.forall_mem_cons.mp h
    rw [Expr.moreArgumentLeaves, List.forall_mem_cons, List.forall_mem_append]
    exact ⟨rfl, he, ih hes⟩

theorem proper_arguments {es : List Expr}
    (h : ∀ e ∈ es, ∀ leaf ∈ e.leaves, leaf.isProper = true) :
    ∀ leaf ∈ Expr.argumentLeaves es, leaf.isProper = true := by
  cases es with
  | nil => simp [Expr.argumentLeaves]
  | cons e es =>
    obtain ⟨he, hes⟩ := List.forall_mem_cons.mp h
    rw [Expr.argumentLeaves, List.forall_mem_append]
    exact ⟨he, proper_moreArguments hes⟩

theorem proper_leaves_compositional :
    Compositional (fun e => ∀ leaf ∈ e.leaves, leaf.isProper = true)
      (fun b => ∀ leaf ∈ b.leaves, leaf.isProper = true) where
  literal _ := by simp [Expr.leaves, Leaf.isProper]
  var _ _ := by simp [Expr.leaves, Leaf.isProper]
  grouping _ hi := by
    simp only [Expr.leaves, List.forall_mem_cons, List.forall_mem_append]
    exact ⟨rfl, hi, rfl, by simp⟩
  unary op _ _ _ he := by
    simp only [Expr.leaves, List.forall_mem_cons]
    exact ⟨by cases op <;> rfl, he⟩
  binary _ op _ _ _ hl hr := by
    simp only [Expr.leaves, List.forall_mem_cons, List.forall_mem_append]
    exact ⟨hl, by cases op <;> rfl, hr⟩
  assign _ _ _ hv := by
    simp only [Expr.leaves, List.forall_mem_cons]
    exact ⟨rfl, rfl, hv⟩
  block _ _ hb := by
    simp only [Expr.leaves, List.forall_mem_cons, List.forall_mem_append]
    exact ⟨rfl, proper_leavesAll hb, rfl, by simp⟩
  cond _ _ _ _ ht hy hn := by
    simp only [Expr.leaves, List.forall_mem_cons, List.forall_mem_append]
    exact ⟨rfl, ht, hy, hn⟩
  each _ _ _ _ hi hb := by
    simp only [Expr.leaves, List.forall_mem_cons, List.forall_mem_append]
    exact ⟨rfl, rfl, rfl, hi, hb⟩
  function _ _ _ hb := by
    simp only [Expr.leaves, List.forall_mem_cons, List.forall_mem_append, List.forall_mem_map]
    exact ⟨rfl, fun _ _ => rfl, rfl, hb⟩
  call _ _ _ hc ha := by
    simp only [Expr.leaves, List.forall_mem_cons, List.forall_mem_append]
    exact ⟨hc, rfl, proper_arguments ha, rfl, by simp⟩
  done := by simp [Branches.leaves]
  otherwise _ hb := by
    simp only [Branches.leaves, List.forall_mem_cons]
    exact ⟨rfl, hb⟩
  elseIf _ _ _ ht hy hn := by
    simp only [Branches.leaves, List.forall_mem_cons, List.forall_mem_append]
    exact ⟨rfl, rfl, ht, hy, hn⟩

/-! ## In a program -/

theorem exists_left_of_mem {α β : Type} {R : α → β → Prop} {xs : List α} {ys : List β}
    (h : List.Forall₂ R xs ys) {y : β} (hy : y ∈ ys) : ∃ x ∈ xs, R x y := by
  induction h with
  | nil => cases hy
  | cons hxy _ ih =>
    rcases List.mem_cons.mp hy with rfl | hy
    · exact ⟨_, List.mem_cons_self, hxy⟩
    · obtain ⟨x, hx, hxy⟩ := ih hy
      exact ⟨x, List.mem_cons_of_mem _ hx, hxy⟩

theorem readProgram_unlined_spans {stop : Token} {ts : List Token}
    (herr : (readProgram stop ts).errors = []) (hmal : (readProgram stop ts).malformed = none) :
    List.Forall₂ (fun leaf t => leaf.fits t = true)
      (((readProgram stop ts).statements.map Expr.unlined).flatMap Expr.leaves)
      ((ts.map (Token.mapLine fun _ => 0)).filter fun t => !t.kind.isSeparator) := by
  have hread := readProgram_map (fun _ => 0) stop ts
  have hspans := readProgram_spans (stop.mapLine fun _ => 0) (ts.map (Token.mapLine fun _ => 0))
    (by simp [hread, Program.mapLine, herr]) (by simp [hread, Program.mapLine, hmal])
  rw [hread] at hspans
  obtain ⟨used, hused, hfits⟩ := hspans
  rw [List.append_nil] at hused
  rw [hused]
  exact hfits

/-- Programs with the same trees have the same strings. -/
theorem exists_string_of_statements {stop stop' : Token} {ts us : List Token}
    (herr : (readProgram stop ts).errors = []) (hmal : (readProgram stop ts).malformed = none)
    (herr' : (readProgram stop' us).errors = []) (hmal' : (readProgram stop' us).malformed = none)
    (hsame : (readProgram stop' us).statements.map Expr.unlined =
      (readProgram stop ts).statements.map Expr.unlined) {t : Token} (ht : t ∈ ts)
    (hk : t.kind = .string) : ∃ u ∈ us, u.literal? = t.literal? := by
  have hfits := readProgram_unlined_spans herr hmal
  have hfits' := readProgram_unlined_spans herr' hmal'
  rw [hsame] at hfits'
  have hmem : t.mapLine (fun _ => 0) ∈
      (ts.map (Token.mapLine fun _ => 0)).filter fun t => !t.kind.isSeparator :=
    List.mem_filter.mpr ⟨List.mem_map_of_mem ht, by simp [Token.mapLine, hk, TokenKind.isSeparator]⟩
  obtain ⟨leaf, hleaf, hfit⟩ := exists_left_of_mem hfits hmem
  obtain ⟨u, hu, hfit'⟩ := exists_left_of_mem hfits'.flip hleaf
  obtain ⟨e, -, he⟩ := List.mem_flatMap.mp hleaf
  obtain ⟨value, rfl, hvalue⟩ :=
    Leaf.literal_of_fits (proper_leaves_compositional.expr e leaf he) hfit hk
  obtain ⟨u, hu', rfl⟩ := List.mem_map.mp (List.mem_filter.mp hu).1
  exact ⟨u, hu', (beq_iff_eq.mp hfit').trans hvalue.symm⟩

end ExprLang

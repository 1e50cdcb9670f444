import Mathlib.Data.List.Infix
import ExprLang.Repl

/-!
# How the loop cuts its input

The input of the interactive loop falls apart into stretches: the lines of a chunk, or lines that an
interrupt drops. A chunk is the shortest run of lines from the first unread one on whose text is not
merely cut short; lines that are still collected at the end are in no chunk. Each read is announced
by the prompt of the session if no line is collected, and by the continuation prompt otherwise.

The text of the collected lines is all the loop keeps. It is never empty unless there are no such
lines, since the empty text is not cut short.
-/

namespace ExprLang.Repl

/-! ## Stretches -/

def joined (lines : List Bytes) : Bytes := [Text.newline].intercalate lines

def CutShort (source : Bytes) : Prop := SyntaxError.incomplete (check source) = true

instance (source : Bytes) : Decidable (CutShort source) := inferInstanceAs (Decidable (_ = true))

/-- Lines that are all collected: the text is cut short after each of them. -/
def Collected (lines : List Bytes) : Prop :=
  ∀ first, first <+: lines → first ≠ [] → CutShort (joined first)

/-- Inputs that belong together: collected lines, and the line or the interrupt that ends them. -/
inductive Stretch
  | chunk (pending : List Bytes) (final : Bytes)
  | dropped (pending : List Bytes)
  deriving DecidableEq, Repr

namespace Stretch

def pending : Stretch → List Bytes
  | chunk pending _ | dropped pending => pending

def inputs : Stretch → List Input
  | chunk pending final => pending.map .line ++ [.line final]
  | dropped pending => pending.map .line ++ [.interrupt]

def source? : Stretch → Option Bytes
  | chunk pending final => some (joined (pending ++ [final]))
  | dropped _ => none

/-- No shorter run of lines would have been a chunk, and the last line completes one. -/
def Minimal : Stretch → Prop
  | chunk pending final => Collected pending ∧ ¬ CutShort (joined (pending ++ [final]))
  | dropped pending => Collected pending

end Stretch

/-- An input cut into stretches, the lines collected at its end, and what ends it. -/
structure Division (inputs : List Input) (stretches : List Stretch) (last : List Bytes)
    (ending : List Input) : Prop where
  covers : inputs = stretches.flatMap Stretch.inputs ++ (last.map .line ++ ending)
  minimal : ∀ s ∈ stretches, s.Minimal
  collected : Collected last
  ends : ∀ i ∈ ending.head?, i = .stop

/-! ## The collected lines -/

theorem joined_nil : joined [] = [] := rfl

theorem joined_append (lines : List Bytes) (line : Bytes) (h : lines ≠ []) :
    joined (lines ++ [line]) = joined lines ++ Text.newline :: line := by
  induction lines with
  | nil => exact absurd rfl h
  | cons first lines ih =>
    cases lines with
    | nil => simp [joined]
    | cons second lines =>
      have hstep := ih (by simp)
      simp only [joined, List.intercalate_cons_cons, List.cons_append] at hstep ⊢
      rw [hstep]
      simp

theorem not_cutShort_nil : ¬ CutShort [] := by decide +kernel

theorem Collected.nil : Collected [] := by
  intro first hfirst hne
  exact absurd (List.prefix_nil.mp hfirst) hne

theorem Collected.of_prefix {first lines : List Bytes} (h : Collected lines)
    (hfirst : first <+: lines) : Collected first :=
  fun shorter hshorter => h shorter (hshorter.trans hfirst)

theorem Collected.append {lines : List Bytes} {line : Bytes} (h : Collected lines)
    (hline : CutShort (joined (lines ++ [line]))) : Collected (lines ++ [line]) := by
  intro first hfirst hne
  rcases List.prefix_concat_iff.mp hfirst with rfl | hshorter
  · exact hline
  · exact h first hshorter hne

theorem Collected.joined_eq_nil {lines : List Bytes} (h : Collected lines) :
    joined lines = [] ↔ lines = [] := by
  constructor
  · intro hempty
    by_contra hne
    have hcut := h lines (List.prefix_refl lines) hne
    rw [hempty] at hcut
    exact not_cutShort_nil hcut
  · rintro rfl
    rfl

/-- The empty text stands for no lines, so a line is added the same way every time. -/
theorem Collected.add {lines : List Bytes} (h : Collected lines) (line : Bytes) :
    Pending.add (joined lines) line = joined (lines ++ [line]) := by
  by_cases hne : lines = []
  · subst hne
    simp [Pending.add, joined]
  · have hjoined : joined lines ≠ [] := fun hempty => hne (h.joined_eq_nil.mp hempty)
    rw [joined_append lines line hne, Pending.add, if_neg (by simpa using hjoined)]

theorem Collected.read_line {lines : List Bytes} (h : Collected lines) (line : Bytes) :
    Pending.read (joined lines) (.line line) =
      if CutShort (joined (lines ++ [line])) then .pending (joined (lines ++ [line]))
      else .chunk (joined (lines ++ [line])) := by
  simp only [Pending.read, h.add line]
  rfl

/-! ## Chunks -/

theorem chunks_collect (lines : List Bytes) {more : List Bytes}
    (h : Collected (lines ++ more)) (rest : List Input) :
    chunks (joined lines) (more.map .line ++ rest) = chunks (joined (lines ++ more)) rest := by
  induction more generalizing lines with
  | nil => simp
  | cons line more ih =>
    have hlines := h.of_prefix (List.prefix_append lines _)
    rw [List.append_cons] at h ⊢
    have hcut := h (lines ++ [line]) (List.prefix_append _ more) (by simp)
    simp only [List.map_cons, List.cons_append, chunks, hlines.read_line, if_pos hcut]
    exact ih _ h

theorem chunks_stretch {s : Stretch} (h : s.Minimal) (rest : List Input) :
    chunks [] (s.inputs ++ rest) = s.source?.toList ++ chunks [] rest := by
  cases s with
  | chunk pending final =>
    have hpending := chunks_collect [] h.1 (.line final :: rest)
    simp only [Stretch.inputs, List.append_assoc, List.cons_append, List.nil_append] at hpending ⊢
    rw [joined_nil] at hpending
    simp only [hpending, chunks, h.1.read_line, if_neg h.2]
    rfl
  | dropped pending =>
    have hpending := chunks_collect [] h (.interrupt :: rest)
    simp only [Stretch.inputs, List.append_assoc, List.cons_append, List.nil_append] at hpending ⊢
    rw [joined_nil] at hpending
    simp only [hpending, chunks, Pending.read]
    rfl

theorem chunks_division {inputs ending : List Input} {stretches : List Stretch}
    {last : List Bytes} (h : Division inputs stretches last ending) :
    chunks [] inputs = stretches.filterMap Stretch.source? := by
  obtain ⟨rfl, hminimal, hlast, hends⟩ := h
  induction stretches with
  | nil =>
    have hpending := chunks_collect [] hlast ending
    rw [joined_nil] at hpending
    simp only [List.flatMap_nil, List.nil_append, List.filterMap_nil] at hpending ⊢
    rw [hpending]
    cases ending with
    | nil => rfl
    | cons i rest =>
      cases hends i rfl
      rfl
  | cons s stretches ih =>
    obtain ⟨hs, hmore⟩ := List.forall_mem_cons.mp hminimal
    rw [List.flatMap_cons, List.append_assoc, chunks_stretch hs, ih hmore]
    cases hsource : s.source? <;> simp [hsource]

/-! ## Prompts -/

/-- The prompt for the next read when these lines are collected. -/
def promptWith (primary : Bytes) (lines : List Bytes) : Bytes :=
  if lines.isEmpty then primary else continuationPrompt

/-- The prompts of the reads that collect these lines and of the read behind them. -/
def readPrompts (primary : Bytes) (lines : List Bytes) : List Bytes :=
  lines.inits.map (promptWith primary)

def isQuit (source : Bytes) : Bool :=
  (Text.trim source).head? == some (byte ':') &&
    quitCommands.contains (Text.lower (Text.trim source))

/-- The prompts of a conversation, which a command to quit ends. -/
def promptsOf (primary : Bytes) : List Stretch → List Bytes → List Bytes
  | [], last => readPrompts primary last
  | s :: stretches, last =>
    readPrompts primary s.pending ++
      if s.source?.any isQuit then [] else promptsOf primary stretches last

def prompts (events : List Event) : List Bytes := events.filterMap Event.prompt?

namespace Session

theorem submit_prompts (fuel : Nat) (s : Session) (source : Bytes) :
    prompts (s.submit fuel source).1 = [] := by
  simp only [submit]
  split
  · rfl
  · split
    · split <;> rfl
    · rfl

/-- A session goes on with the same prompt unless it is told to quit. -/
theorem submit_after (fuel : Nat) (s : Session) (source : Bytes) :
    (isQuit source = true ∧ (s.submit fuel source).2 = none) ∨
      (isQuit source = false ∧
        ∃ s', (s.submit fuel source).2 = some s' ∧ s'.prompt = s.prompt) := by
  by_cases hempty : Text.trim source = []
  · right
    simp [submit, isQuit, hempty]
  · by_cases hcolon : (Text.trim source).head? = some (byte ':')
    · by_cases hquit : Text.lower (Text.trim source) ∈ quitCommands
      · left
        simp [submit, isQuit, hempty, hcolon, hquit]
      · right
        simp [submit, isQuit, hempty, hcolon, hquit]
    · right
      simp [submit, isQuit, hempty, hcolon]

theorem promptFor_joined {s : Session} {lines : List Bytes} (h : Collected lines) :
    s.promptFor (joined lines) = promptWith s.prompt lines := by
  unfold promptFor promptWith
  by_cases hne : lines = []
  · subst hne
    rfl
  · have hjoined : joined lines ≠ [] := fun hempty => hne (h.joined_eq_nil.mp hempty)
    rw [if_neg (by simpa using hjoined), if_neg (by simpa using hne)]

theorem converse_cons (fuel : Nat) (s : Session) (p : Pending) (inputs : List Input) :
    prompts (s.converse fuel p inputs).1 =
      s.promptFor p :: prompts (s.converse fuel p inputs).1.tail := by
  cases inputs <;> rfl

theorem converse_collect (fuel : Nat) (s : Session) (lines : List Bytes) {more : List Bytes}
    (h : Collected (lines ++ more)) (rest : List Input) :
    prompts (s.converse fuel (joined lines) (more.map .line ++ rest)).1 =
      more.inits.map (fun read => promptWith s.prompt (lines ++ read)) ++
        prompts (s.converse fuel (joined (lines ++ more)) rest).1.tail := by
  have hlines := h.of_prefix (List.prefix_append lines _)
  induction more generalizing lines with
  | nil =>
    rw [converse_cons, promptFor_joined hlines]
    simp
  | cons line more ih =>
    rw [List.append_cons] at h ⊢
    have hprefix := List.prefix_append (lines ++ [line]) more
    have hcut := h (lines ++ [line]) hprefix (by simp)
    have hmore := ih _ h (h.of_prefix hprefix)
    rw [converse_cons, promptFor_joined hlines]
    simp only [List.map_cons, List.cons_append, converse, hlines.read_line, if_pos hcut,
      List.tail_cons, hmore, List.inits_cons, List.map_map, List.append_nil]
    simp [Function.comp_def]

/-- What happens from a chunk on. -/
theorem converse_chunk {fuel : Nat} {s : Session} {p : Pending} {i : Input} {source : Bytes}
    (h : p.read i = .chunk source) (rest : List Input) :
    (s.converse fuel p (i :: rest)).1.tail =
      (s.submit fuel source).1 ++
        ((s.submit fuel source).2.map fun s' => (s'.converse fuel [] rest).1).getD [] := by
  simp only [converse, h, List.tail_cons]
  obtain ⟨events, after⟩ := s.submit fuel source
  cases after <;> simp

/-- The prompts of a stretch, and of what follows unless the stretch is a command to quit. -/
theorem converse_stretch (fuel : Nat) (s : Session) {stretch : Stretch} (h : stretch.Minimal)
    (rest : List Input) :
    ∃ s' : Session, s'.prompt = s.prompt ∧
      prompts (s.converse fuel [] (stretch.inputs ++ rest)).1 =
        readPrompts s.prompt stretch.pending ++
          if stretch.source?.any isQuit then [] else prompts (s'.converse fuel [] rest).1 := by
  cases stretch with
  | chunk pending final =>
    have hcollect := converse_collect fuel s [] h.1
      (.line final :: rest)
    have hread : Pending.read (joined pending) (.line final) =
        .chunk (joined (pending ++ [final])) := by
      rw [h.1.read_line, if_neg h.2]
    simp only [joined_nil, List.nil_append, converse_chunk hread, prompts, List.filterMap_append]
      at hcollect
    simp only [Stretch.inputs, Stretch.pending, Stretch.source?, Option.any_some, prompts,
      readPrompts, List.append_assoc, List.cons_append, List.nil_append, hcollect]
    have hprompts := submit_prompts fuel s (joined (pending ++ [final]))
    rw [prompts] at hprompts
    rcases submit_after fuel s (joined (pending ++ [final])) with
      ⟨hquit, hafter⟩ | ⟨hquit, s', hafter, hsame⟩
    · refine ⟨s, rfl, ?_⟩
      simp [hquit, hafter, hprompts]
    · refine ⟨s', hsame, ?_⟩
      simp [hquit, hafter, hprompts]
  | dropped pending =>
    have hcollect := converse_collect fuel s [] h
      (.interrupt :: rest)
    simp only [joined_nil, List.nil_append] at hcollect
    refine ⟨s, rfl, ?_⟩
    simp only [Stretch.inputs, Stretch.pending, readPrompts, List.append_assoc,
      List.cons_append, List.nil_append, hcollect]
    rfl

theorem converse_prompts {fuel : Nat} {s : Session} {inputs ending : List Input}
    {stretches : List Stretch} {last : List Bytes}
    (h : Division inputs stretches last ending) :
    prompts (s.converse fuel [] inputs).1 = promptsOf s.prompt stretches last := by
  obtain ⟨rfl, hminimal, hlast, hends⟩ := h
  induction stretches generalizing s with
  | nil =>
    have hcollect := converse_collect fuel s [] hlast ending
    rw [joined_nil] at hcollect
    simp only [List.flatMap_nil, List.nil_append, promptsOf, readPrompts] at hcollect ⊢
    rw [hcollect]
    cases ending with
    | nil => simp [converse, prompts, farewell, Event.prompt?]
    | cons i rest =>
      cases hends i rfl
      simp [converse, Pending.read, prompts, farewell, Event.prompt?]
  | cons stretch stretches ih =>
    obtain ⟨hstretch, hmore⟩ := List.forall_mem_cons.mp hminimal
    rw [List.flatMap_cons, List.append_assoc]
    obtain ⟨s', hsame, hprompts⟩ := converse_stretch fuel s hstretch
      (stretches.flatMap Stretch.inputs ++ (last.map .line ++ ending))
    rw [hprompts, ih hmore, hsame, promptsOf]

end Session

/-! ## Every input -/

theorem exists_division {lines : List Bytes} (h : Collected lines) (inputs : List Input) :
    ∃ stretches last ending, Division (lines.map .line ++ inputs) stretches last ending := by
  induction inputs generalizing lines with
  | nil => exact ⟨[], lines, [], rfl, by simp, h, by simp⟩
  | cons i inputs ih =>
    cases i with
    | line line =>
      by_cases hcut : CutShort (joined (lines ++ [line]))
      · obtain ⟨stretches, last, ending, hmore⟩ := ih (h.append hcut)
        refine ⟨stretches, last, ending, ?_, hmore.minimal, hmore.collected, hmore.ends⟩
        rw [← hmore.covers]
        simp
      · obtain ⟨stretches, last, ending, hmore⟩ := ih Collected.nil
        refine ⟨.chunk lines line :: stretches, last, ending, ?_, ?_, hmore.collected, hmore.ends⟩
        · have hcovers := hmore.covers
          simp only [List.map_nil, List.nil_append] at hcovers
          rw [hcovers]
          simp [Stretch.inputs]
        · exact List.forall_mem_cons.mpr ⟨⟨h, hcut⟩, hmore.minimal⟩
    | interrupt =>
      obtain ⟨stretches, last, ending, hmore⟩ := ih Collected.nil
      refine ⟨.dropped lines :: stretches, last, ending, ?_, ?_, hmore.collected, hmore.ends⟩
      · have hcovers := hmore.covers
        simp only [List.map_nil, List.nil_append] at hcovers
        rw [hcovers]
        simp [Stretch.inputs]
      · exact List.forall_mem_cons.mpr ⟨h, hmore.minimal⟩
    | stop => exact ⟨[], lines, .stop :: inputs, rfl, by simp, h, by simp⟩

/-- Every input is cut into such stretches, the chunks of the loop are those of the stretches, and
it shows the prompts that go with them, whatever the programs in the chunks do. -/
theorem chunks_shortest (inputs : List Input) :
    ∃ stretches last ending, Division inputs stretches last ending ∧
      chunks [] inputs = stretches.filterMap Stretch.source? ∧
      ∀ fuel (s : Session),
        prompts (s.converse fuel [] inputs).1 = promptsOf s.prompt stretches last := by
  obtain ⟨stretches, last, ending, h⟩ := exists_division Collected.nil inputs
  refine ⟨stretches, last, ending, h, chunks_division h, ?_⟩
  intro fuel s
  exact Session.converse_prompts h

end ExprLang.Repl

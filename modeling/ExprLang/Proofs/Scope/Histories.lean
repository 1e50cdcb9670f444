import Mathlib.Data.List.Basic
import ExprLang.Scope.Store

/-!
# Histories of a store

What a host finds in a store of frames depends only on what it did before. From every frame the
parents lead outwards to a frame without one, since a frame is put on one that was there before, and
a name means what it was last defined as in the first frame on this way that defines it at all. A
definition is seen from a frame only if it is on the way and no frame before it defines the name,
whether the frames between were made before or after. A frame that a host has made bare, without a
place for definitions, is as good as an empty one.

The step lemma is `exists_frame`: a frame of the store has the parent it was made with and shows the
last definition of every name.
-/

namespace ExprLang

/-! ## Frames of a host -/

/-- A frame as a host holds it. A bare one has no place for definitions yet. -/
structure HostFrame where
  values? : Option Frame
  parent : Option Nat

namespace HostFrame

/-- Nothing is found where there is no place for it. -/
def lookup (f : HostFrame) (name : Bytes) : Option Value :=
  f.values?.bind fun values => List.lookup name values

/-- Define a name, in a new place if there was none. -/
def define (name : Bytes) (value : Value) (f : HostFrame) : HostFrame :=
  match f.values? with
  | none => { f with values? := some (Frame.define name value []) }
  | some values => { f with values? := some (values.define name value) }

/-- The frame in a store. -/
def stored (f : HostFrame) : StoredFrame := ⟨f.values?.getD [], f.parent⟩

theorem lookup_stored (f : HostFrame) (name : Bytes) :
    List.lookup name f.stored.frame = f.lookup name := by
  obtain ⟨values?, parent⟩ := f
  cases values? <;> rfl

theorem stored_define (name : Bytes) (value : Value) (f : HostFrame) :
    (f.define name value).stored = { f.stored with frame := f.stored.frame.define name value } := by
  obtain ⟨values?, parent⟩ := f
  cases values? <;> rfl

/-- Look a name up in the given frame, in the one around it and so on, at most `fuel` of them. -/
def lookupIn (frames : List HostFrame) : Nat → Option Nat → Bytes → Option Value
  | 0, _, _ => none
  | _, none, _ => none
  | fuel + 1, some n, name =>
    match frames[n]? with
    | none => none
    | some f =>
      match f.lookup name with
      | some value => some value
      | none => lookupIn frames fuel f.parent name

/-- Frames that are stored find what the store finds. -/
theorem lookupIn_stored {frames : List HostFrame} {s : Store} (hs : s.frames = frames.map stored)
    (fuel n : Nat) (name : Bytes) :
    lookupIn frames fuel (some n) name =
      (s.chainUpTo fuel n).findSome? fun frame => List.lookup name frame := by
  induction fuel generalizing n with
  | zero => rfl
  | succ fuel ih =>
    rw [lookupIn, Store.chainUpTo, hs, List.getElem?_map]
    cases frames[n]? with
    | none => rfl
    | some f =>
      simp only [Option.map_some, List.findSome?_cons, lookup_stored]
      cases f.lookup name with
      | some value => rfl
      | none =>
        rw [stored]
        cases f.parent with
        | none => cases fuel <;> rfl
        | some n => exact ih n

end HostFrame

/-! ## Histories -/

/-- The number of the frame around a frame. -/
def Store.parent? (s : Store) (f : Nat) : Option Nat := s.frames[f]?.bind StoredFrame.parent

/-- The frames on the way from a frame outwards, the last of which has no parent. -/
inductive Way (parent? : Nat → Option Nat) : Nat → List Nat → Prop
  | root {f : Nat} (h : parent? f = none) : Way parent? f [f]
  | outwards {f g : Nat} {path : List Nat} (h : parent? f = some g) (rest : Way parent? g path) :
    Way parent? f (f :: path)

/-- What a host has done to a store that has `n` frames now. A frame is made on one of the frames
there are, or on none, and definitions go into frames there are. A bare frame has no place for
definitions until the first one, and no parent. -/
inductive History : Nat → Type
  | start : History 0
  | newFrame {n : Nat} (h : History n) (parent : Option (Fin n)) : History (n + 1)
  | bareFrame {n : Nat} (h : History n) : History (n + 1)
  | define {n : Nat} (h : History n) (frame : Fin n) (name : Bytes) (value : Value) : History n

namespace History

/-- The frames as the host holds them. -/
def held : {n : Nat} → History n → List HostFrame
  | _, .start => []
  | _, .newFrame h parent => h.held ++ [⟨some [], parent.map Fin.val⟩]
  | _, .bareFrame h => h.held ++ [⟨none, none⟩]
  | _, .define h frame name value => h.held.modify frame (HostFrame.define name value)

/-- The store as it is now. A bare frame shows as little as a new one. -/
def store : {n : Nat} → History n → Store
  | _, .start => .empty
  | _, .newFrame h parent => h.store.newFrame (parent.map Fin.val)
  | _, .bareFrame h => h.store.newFrame none
  | _, .define h frame name value => h.store.define frame name value

/-- The parent a frame was made with. -/
def parent? : {n : Nat} → History n → Nat → Option Nat
  | _, .start, _ => none
  | n + 1, .newFrame h parent, f => if f = n then parent.map Fin.val else h.parent? f
  | n + 1, .bareFrame h, f => if f = n then none else h.parent? f
  | _, .define h _ _ _, f => h.parent? f

/-- What a name was last defined as in a frame. -/
def last? : {n : Nat} → History n → Nat → Bytes → Option Value
  | _, .start, _, _ => none
  | _, .newFrame h _, f, name => h.last? f name
  | _, .bareFrame h, f, name => h.last? f name
  | _, .define h frame key value, f, name =>
    if f = frame ∧ name = key then some value else h.last? f name

/-- A frame on the way, and no frame before it defines the name. -/
def Unshadowed {n : Nat} (h : History n) (path : List Nat) (g : Nat) (name : Bytes) : Prop :=
  ∃ nearer rest, path = nearer ++ g :: rest ∧ ∀ k ∈ nearer, h.last? k name = none

/-! ## Frames -/

theorem last?_of_le {n : Nat} (h : History n) {f : Nat} (hf : n ≤ f) (name : Bytes) :
    h.last? f name = none := by
  induction h with
  | start => rfl
  | newFrame h parent ih => exact ih (by omega)
  | bareFrame h ih => exact ih (by omega)
  | define h frame key value ih =>
    rw [last?, if_neg fun hframe => ?_]
    · exact ih hf
    · have := frame.isLt
      omega

theorem length_frames {n : Nat} (h : History n) : h.store.frames.length = n := by
  induction h with
  | start => rfl
  | newFrame h parent ih => simp [store, Store.newFrame, Store.add, ih]
  | bareFrame h ih => simp [store, Store.newFrame, Store.add, ih]
  | define h frame key value ih => simp [store, Store.define, ih]

/-- The store has the frames that the host holds. -/
theorem frames_store {n : Nat} (h : History n) :
    h.store.frames = h.held.map HostFrame.stored := by
  induction h with
  | start => rfl
  | newFrame h parent ih =>
    rw [store, Store.newFrame, Store.add, held, List.map_append, ih]
    rfl
  | bareFrame h ih =>
    rw [store, Store.newFrame, Store.add, held, List.map_append, ih]
    rfl
  | define h frame key value ih =>
    rw [store, Store.define, held, ih]
    refine List.ext_getElem? fun f => ?_
    simp only [List.getElem?_modify, List.getElem?_map]
    cases h.held[f]? with
    | none => rfl
    | some held =>
      by_cases hf : frame = f
      · simp [hf, HostFrame.stored_define]
      · simp [hf]

/-- A new frame is the last one of its store. -/
theorem getElem?_newFrame {n : Nat} (h : History n) (parent : Option Nat) (f : Nat) :
    (h.store.newFrame parent).frames[f]? =
      if f = n then some ⟨[], parent⟩ else h.store.frames[f]? := by
  have hlength := h.length_frames
  rw [Store.newFrame, Store.add]
  rcases Nat.lt_trichotomy f n with hf | rfl | hf
  · rw [if_neg (by omega), List.getElem?_append_left (by omega)]
  · rw [if_pos rfl, List.getElem?_append_right (by omega), hlength, Nat.sub_self]
    rfl
  · rw [if_neg (by omega), List.getElem?_eq_none (by simp; omega),
      List.getElem?_eq_none (by omega)]

/-- A frame of a store that grows by a frame. -/
theorem exists_frame_newFrame {n : Nat} (h : History n) (parent : Option Nat) {f : Nat}
    (hf : f < n + 1)
    (ih : f < n → ∃ frame, h.store.frames[f]? = some ⟨frame, h.parent? f⟩ ∧
      ∀ name, List.lookup name frame = h.last? f name) :
    ∃ frame, (h.store.newFrame parent).frames[f]? =
        some ⟨frame, if f = n then parent else h.parent? f⟩ ∧
      ∀ name, List.lookup name frame = h.last? f name := by
  rw [getElem?_newFrame]
  by_cases hn : f = n
  · subst hn
    refine ⟨[], by rw [if_pos rfl, if_pos rfl], fun name => ?_⟩
    exact (h.last?_of_le (Nat.le_refl f) name).symm
  · rw [if_neg hn, if_neg hn]
    exact ih (by omega)

/-- A frame has the parent it was made with and shows what was last defined in it. -/
theorem exists_frame {n : Nat} (h : History n) {f : Nat} (hf : f < n) :
    ∃ frame, h.store.frames[f]? = some ⟨frame, h.parent? f⟩ ∧
      ∀ name, List.lookup name frame = h.last? f name := by
  induction h with
  | start => cases hf
  | newFrame h parent ih => exact h.exists_frame_newFrame (parent.map Fin.val) hf ih
  | bareFrame h ih => exact h.exists_frame_newFrame none hf ih
  | define h g key value ih =>
    obtain ⟨frame, hframe, hlast⟩ := ih hf
    by_cases hg : g = f
    · refine ⟨frame.define key value, ?_, fun name => ?_⟩
      · simp [store, Store.define, hg, hframe, parent?]
      · rw [Frame.define, List.lookup_cons, hlast, last?]
        by_cases hname : name = key
        · simp [hname, hg]
        · have hbeq : (name == key) = false := beq_false_of_ne hname
          simp [hbeq, hname]
    · refine ⟨frame, ?_, fun name => ?_⟩
      · simp [store, Store.define, hg, hframe, parent?]
      · rw [last?, if_neg fun h => hg h.1.symm, hlast]

/-- Parents were there before. -/
theorem parent?_lt {n : Nat} (h : History n) {f g : Nat} (hg : h.parent? f = some g) :
    g < f ∧ f < n := by
  induction h with
  | start => cases hg
  | newFrame h parent ih =>
    rw [parent?] at hg
    split at hg
    · obtain ⟨g, -, rfl⟩ := Option.map_eq_some_iff.mp hg
      have := g.isLt
      omega
    · have := ih hg
      omega
  | bareFrame h ih =>
    rw [parent?] at hg
    split at hg
    · cases hg
    · have := ih hg
      omega
  | define h frame key value ih => exact ih hg

theorem store_parent? {n : Nat} (h : History n) (f : Nat) : h.store.parent? f = h.parent? f := by
  by_cases hf : f < n
  · obtain ⟨frame, hframe, -⟩ := h.exists_frame hf
    rw [Store.parent?, hframe]
    rfl
  · rw [Store.parent?, List.getElem?_eq_none (by rw [length_frames]; omega)]
    cases hg : h.parent? f with
    | none => rfl
    | some g => exact absurd (h.parent?_lt hg).2 hf

/-! ## Ways outwards -/

theorem exists_way {n : Nat} (h : History n) (f : Nat) : ∃ path, Way h.parent? f path := by
  induction f using Nat.strongRecOn with
  | ind f ih =>
    cases hg : h.parent? f with
    | none => exact ⟨[f], .root hg⟩
    | some g =>
      obtain ⟨path, hpath⟩ := ih g (h.parent?_lt hg).1
      exact ⟨f :: path, .outwards hg hpath⟩

/-- A way leads to earlier and earlier frames. -/
theorem way_descends {n : Nat} (h : History n) {f : Nat} {path : List Nat}
    (hpath : Way h.parent? f path) : path.Pairwise (· > ·) ∧ ∀ g ∈ path, g ≤ f := by
  induction hpath with
  | root => simp
  | outwards hg _ ih =>
    obtain ⟨hsorted, hle⟩ := ih
    have hlt := (h.parent?_lt hg).1
    refine ⟨List.pairwise_cons.mpr ⟨fun k hk => ?_, hsorted⟩, List.forall_mem_cons.mpr ⟨?_, ?_⟩⟩
    · have := hle k hk
      omega
    · exact Nat.le_refl _
    · intro k hk
      have := hle k hk
      omega

/-- Going outwards ends before the fuel does. -/
theorem findSome?_chainUpTo {n : Nat} (h : History n) {f fuel : Nat} {path : List Nat}
    (hpath : Way h.parent? f path) (hf : f < n) (hfuel : f < fuel) (name : Bytes) :
    (h.store.chainUpTo fuel f).findSome? (fun frame => List.lookup name frame) =
      path.findSome? fun g => h.last? g name := by
  induction hpath generalizing fuel with
  | @root f hparent =>
    obtain ⟨frame, hframe, hlast⟩ := h.exists_frame hf
    obtain ⟨fuel, rfl⟩ := Nat.exists_eq_succ_of_ne_zero (Nat.ne_zero_of_lt hfuel)
    simp [Store.chainUpTo, hframe, hparent, hlast]
  | @outwards f g path hparent _ ih =>
    obtain ⟨frame, hframe, hlast⟩ := h.exists_frame hf
    obtain ⟨fuel, rfl⟩ := Nat.exists_eq_succ_of_ne_zero (Nat.ne_zero_of_lt hfuel)
    obtain ⟨hlt, hg⟩ := h.parent?_lt hparent
    have hrest := ih (show g < n by omega) (show g < fuel by omega)
    simp [Store.chainUpTo, hframe, hparent, List.findSome?_cons, hlast, hrest]

/-- A name means its last definition in the first frame on the way that has one. -/
theorem lookup_eq {n : Nat} (h : History n) {f : Nat} (hf : f < n) {path : List Nat}
    (hpath : Way h.parent? f path) (name : Bytes) :
    h.store.lookup f name = path.findSome? fun g => h.last? g name :=
  h.findSome?_chainUpTo hpath hf (Nat.lt_succ_self f) name

/-! ## Lookup -/

theorem lookup_eq_some_iff {n : Nat} (h : History n) {f : Nat} (hf : f < n) {path : List Nat}
    (hpath : Way h.parent? f path) (name : Bytes) (value : Value) :
    h.store.lookup f name = some value ↔
      ∃ g, h.Unshadowed path g name ∧ h.last? g name = some value := by
  rw [h.lookup_eq hf hpath, List.findSome?_eq_some_iff]
  constructor
  · rintro ⟨nearer, g, rest, rfl, hg, hnearer⟩
    exact ⟨g, ⟨nearer, rest, rfl, hnearer⟩, hg⟩
  · rintro ⟨g, ⟨nearer, rest, rfl, hnearer⟩, hg⟩
    exact ⟨nearer, g, rest, rfl, hg, hnearer⟩

theorem last?_define_other {n : Nat} (h : History n) {g : Fin n} {key name : Bytes}
    {value : Value} {k : Nat} (hk : ¬ (k = g ∧ name = key)) :
    (h.define g key value).last? k name = h.last? k name := by
  rw [last?, if_neg hk]

/-- A first result that depends on one place only stands at that place or behind it. -/
theorem exists_split_of_findSome?_ne {path : List Nat} {p q : Nat → Option Value} {g : Nat}
    (hpq : ∀ k, k ≠ g → p k = q k) (hne : path.findSome? p ≠ path.findSome? q) :
    ∃ nearer rest, path = nearer ++ g :: rest ∧ ∀ k ∈ nearer, q k = none := by
  induction path with
  | nil => exact absurd rfl hne
  | cons k path ih =>
    by_cases hk : k = g
    · exact ⟨[], path, by rw [hk, List.nil_append], List.forall_mem_nil _⟩
    · rw [List.findSome?_cons, List.findSome?_cons, hpq k hk] at hne
      cases hq : q k with
      | some value =>
        rw [hq] at hne
        exact absurd rfl hne
      | none =>
        rw [hq] at hne
        obtain ⟨nearer, rest, hpath, hnearer⟩ := ih hne
        exact ⟨k :: nearer, rest, by rw [hpath, List.cons_append],
          List.forall_mem_cons.mpr ⟨hq, hnearer⟩⟩

/-- A definition that changes what a frame shows is on its way, and nothing nearer hides it. -/
theorem unshadowed_of_lookup_ne {n : Nat} (h : History n) {f : Nat} (hf : f < n) {path : List Nat}
    (hpath : Way h.parent? f path) {g : Fin n} {key name : Bytes} {value : Value}
    (hne : (h.define g key value).store.lookup f name ≠ h.store.lookup f name) :
    name = key ∧ h.Unshadowed path g key := by
  rw [(h.define g key value).lookup_eq hf hpath, h.lookup_eq hf hpath] at hne
  obtain ⟨nearer, rest, hsplit, hnearer⟩ := exists_split_of_findSome?_ne (g := g)
    (fun k hk => h.last?_define_other fun hkg => hk hkg.1) hne
  have hname : name = key := by
    by_contra hname
    exact hne (by simp only [h.last?_define_other fun hkg => hname hkg.2])
  subst hname
  exact ⟨rfl, nearer, rest, hsplit, hnearer⟩

/-- Such a definition is what the frame shows then. -/
theorem lookup_define_of_unshadowed {n : Nat} (h : History n) {f : Nat} (hf : f < n)
    {path : List Nat} (hpath : Way h.parent? f path) {g : Fin n} {key : Bytes} (value : Value)
    (hg : h.Unshadowed path g key) :
    (h.define g key value).store.lookup f key = some value := by
  obtain ⟨nearer, rest, rfl, hnearer⟩ := hg
  refine ((h.define g key value).lookup_eq_some_iff hf hpath key value).mpr
    ⟨g, ⟨nearer, rest, rfl, fun k hk => ?_⟩, if_pos ⟨rfl, rfl⟩⟩
  have hkg : k > g := by
    obtain ⟨-, -, hbefore⟩ := List.pairwise_append.mp (h.way_descends hpath).1
    exact hbefore k hk g List.mem_cons_self
  rw [h.last?_define_other fun h => Nat.ne_of_gt hkg h.1, hnearer k hk]

end History

/-- The way from every frame outwards ends, by the parents the frames were made with. A name means
its last definition in the first frame on the way that defines it and nothing if none does, and a
definition changes only the meaning of its name, in the frames from which it is seen. The frames of
the host, bare ones among them, find the same as those of the store. -/
theorem lookup_nearest_last {n : Nat} (h : History n) (f : Fin n) :
    h.store.parent? = h.parent? ∧
    (∀ name, HostFrame.lookupIn h.held (f + 1) (some f) name = h.store.lookup f name) ∧
    ∃ path, Way h.store.parent? f path ∧ path.Pairwise (· > ·) ∧
      (∀ name value, h.store.lookup f name = some value ↔
        ∃ g, h.Unshadowed path g name ∧ h.last? g name = some value) ∧
      (∀ name, h.store.lookup f name = none ↔ ∀ g ∈ path, h.last? g name = none) ∧
      ∀ (g : Fin n) (key : Bytes) (value : Value),
        (h.Unshadowed path g key → (h.define g key value).store.lookup f key = some value) ∧
        ∀ name, (h.define g key value).store.lookup f name ≠ h.store.lookup f name →
          name = key ∧ h.Unshadowed path g key := by
  have hparent : h.store.parent? = h.parent? := funext h.store_parent?
  obtain ⟨path, hpath⟩ := h.exists_way f
  refine ⟨hparent, HostFrame.lookupIn_stored h.frames_store (f + 1) f, path, by rwa [hparent],
    (h.way_descends hpath).1, ?_, ?_, ?_⟩
  · exact h.lookup_eq_some_iff f.isLt hpath
  · intro name
    rw [h.lookup_eq f.isLt hpath, List.findSome?_eq_none_iff]
  · intro g key value
    exact ⟨h.lookup_define_of_unshadowed f.isLt hpath value, fun _ hne =>
      h.unshadowed_of_lookup_ne f.isLt hpath hne⟩

end ExprLang

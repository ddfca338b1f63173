import Mathlib.Data.List.Basic

namespace PageWalk

open List

inductive Verdict
  | absent
  | invalid
  | good
  deriving DecidableEq

-- What a walk does at one level: the addresses `V` that are translated select an entry `E` at an
-- address `A` in a table at a base `B`. The walk gathers `C` from the entries, and a leaf holds `I`.
structure Level (V B A E C I : Type*) where
  slot : B → V → A
  check : E → Verdict
  marks : Bool
  gather : C → E → C
  leaf : E → Option I
  next : E → B

inductive Outcome (A C I : Type*)
  | absent
  | invalid
  | leaf (addr : A) (gathered : C) (info : I)

variable {V B A E C I M F : Type*}

def Level.marksAt (l : Level V B A E C I) (a : A) : List A :=
  if l.marks then [a] else []

def walk (read : A → E) (v : V) : List (Level V B A E C I) → B → C → List A × Outcome A C I
  | [],      _, _ => ([], .absent)
  | l :: ls, b, c =>
    let a := l.slot b v
    let e := read a
    match l.check e with
    | .absent  => ([], .absent)
    | .invalid => ([], .invalid)
    | .good    =>
      match l.leaf e with
      | some i => (l.marksAt a, .leaf a (l.gather c e) i)
      | none   =>
        let r := walk read v ls (l.next e) (l.gather c e)
        (l.marksAt a ++ r.1, r.2)

structure Memory (M A E F : Type*) where
  read : M → A → E
  mark : F → M → A → M
  marked : F → E → E

namespace Memory

def walkMark (mem : Memory M A E F) (f : F) (v : V) :
    List (Level V B A E C I) → B → C → M → Outcome A C I × M
  | [],      _, _, m => (.absent, m)
  | l :: ls, b, c, m =>
    let a := l.slot b v
    let e := mem.read m a
    match l.check e with
    | .absent  => (.absent, m)
    | .invalid => (.invalid, m)
    | .good    =>
      let m := if l.marks then mem.mark f m a else m
      let e := if l.marks then mem.marked f e else e
      match l.leaf e with
      | some i => (.leaf a (l.gather c e) i, m)
      | none   => mem.walkMark f v ls (l.next e) (l.gather c e) m

def markAll (mem : Memory M A E F) (f : F) (m : M) (path : List A) : M :=
  path.foldl (mem.mark f) m

def Has (mem : Memory M A E F) (f : F) (e : E) : Prop :=
  mem.marked f e = e

-- The laws hold at `valid` addresses. `le e e'` says that `e'` is `e` with further marks.
structure Lawful (mem : Memory M A E F) (valid : A → Prop) (le : E → E → Prop) : Prop where
  refl : ∀ e, le e e
  trans : ∀ {e₁ e₂ e₃}, le e₁ e₂ → le e₂ e₃ → le e₁ e₃
  le_marked : ∀ f e, le e (mem.marked f e)
  has_marked : ∀ f e, mem.Has f (mem.marked f e)
  has_mono : ∀ {f e e'}, le e e' → mem.Has f e → mem.Has f e'
  read_mark_self : ∀ f m {a}, valid a → mem.read (mem.mark f m a) a = mem.marked f (mem.read m a)
  read_mark_ne : ∀ f m {a b}, valid a → valid b → a ≠ b →
    mem.read (mem.mark f m a) b = mem.read m b
  mark_of_has : ∀ {f m a}, valid a → mem.Has f (mem.read m a) → mem.mark f m a = m

end Memory

-- The walk cannot tell an entry from the same entry with further marks.
structure Level.Blind (le : E → E → Prop) (l : Level V B A E C I) : Prop where
  check : ∀ {e e'}, le e e' → l.check e' = l.check e
  gather : ∀ {e e'} c, le e e' → l.gather c e' = l.gather c e
  leaf : ∀ {e e'}, le e e' → l.leaf e' = l.leaf e
  next : ∀ {e e'}, le e e' → l.next e' = l.next e

structure Level.Sound (validBase : B → Prop) (valid : A → Prop) (l : Level V B A E C I) : Prop where
  slot : ∀ {b} v, validBase b → valid (l.slot b v)
  next : ∀ e, validBase (l.next e)

section Walk

variable {l : Level V B A E C I} {ls : List (Level V B A E C I)} {read read' : A → E}
variable {v v' : V} {b : B} {i : I}

theorem walk_congr (hblind : ∀ l ∈ ls, l.Blind le) (hsound : ∀ l ∈ ls, l.Sound validBase valid)
    (hb : validBase b) (hle : ∀ a, valid a → le (read a) (read' a)) :
    walk read' v ls b c = walk read v ls b c := by
  induction ls generalizing b c
  case nil => rfl
  case cons l ls ih =>
    have hl := hblind l mem_cons_self
    have hs := hsound l mem_cons_self
    have ha := hle _ (hs.slot v hb)
    have hrec := fun c => ih (c := c) (fun l h => hblind l (mem_cons_of_mem _ h))
      (fun l h => hsound l (mem_cons_of_mem _ h)) (hs.next (read (l.slot b v)))
    simp only [walk, hl.check ha, hl.leaf ha, hl.gather c ha, hl.next ha, hrec]

theorem walk_cons_leaf (hw : walk read v (l :: ls) b c = (path, .leaf a g i)) :
    l.check (read (l.slot b v)) = .good ∧
      (l.leaf (read (l.slot b v)) = some i ∧ path = l.marksAt a ∧ a = l.slot b v ∧
          g = l.gather c (read a) ∨
        l.leaf (read (l.slot b v)) = none ∧ ∃ rest, path = l.marksAt (l.slot b v) ++ rest ∧
          walk read v ls (l.next (read (l.slot b v))) (l.gather c (read (l.slot b v))) =
            (rest, .leaf a g i)) := by
  simp only [walk] at hw
  cases hcheck : l.check (read (l.slot b v))
  case absent => simp [hcheck] at hw
  case invalid => simp [hcheck] at hw
  case good =>
    refine ⟨rfl, ?_⟩
    cases hleaf : l.leaf (read (l.slot b v))
    case some i' =>
      simp only [hcheck, hleaf, Prod.mk.injEq] at hw
      obtain ⟨rfl, rfl, rfl, rfl⟩ := hw
      exact .inl ⟨rfl, rfl, rfl, rfl⟩
    case none =>
      simp only [hcheck, hleaf, Prod.mk.injEq] at hw
      exact .inr ⟨rfl, _, hw.1.symm, Prod.ext rfl hw.2⟩

theorem walk_congr_path (hblind : ∀ l ∈ ls, l.Blind le) (hmarks : ∀ l ∈ ls, l.marks)
    (hw : walk read v ls b c = (path, .leaf a g i)) (hle : ∀ a ∈ path, le (read a) (read' a)) :
    walk read' v ls b c = (path, .leaf a g i) := by
  induction ls generalizing b c path
  case nil => simp [walk] at hw
  case cons l ls ih =>
    have hl := hblind l mem_cons_self
    have hm : ∀ a, l.marksAt a = [a] := fun a => if_pos (hmarks l mem_cons_self)
    have ⟨hgood, hw⟩ := walk_cons_leaf hw
    cases hw
    case inl hw =>
      obtain ⟨hleaf, rfl, rfl, rfl⟩ := hw
      have ha := hle (l.slot b v) (by simp [hm])
      simp only [walk, hl.check ha, hl.leaf ha, hl.gather c ha, hgood, hleaf]
    case inr hw =>
      obtain ⟨hleaf, rest, rfl, hrest⟩ := hw
      have ha := hle (l.slot b v) (by simp [hm])
      have hrec := ih (fun l h => hblind l (mem_cons_of_mem _ h))
        (fun l h => hmarks l (mem_cons_of_mem _ h)) hrest
        (fun a h => hle a (mem_append_right _ h))
      simp only [walk, hl.check ha, hl.leaf ha, hl.gather c ha, hl.next ha, hgood, hleaf, hrec]

def LeafOf (ls : List (Level V B A E C I)) (info : I) : Prop :=
  ∃ l ∈ ls, ∃ e, l.leaf e = some info

inductive Coherent (samePage : I → V → V → Prop) : List (Level V B A E C I) → Prop
  | nil : Coherent samePage []
  | cons {l : Level V B A E C I} {ls : List (Level V B A E C I)} :
    (∀ {i v v'}, LeafOf (l :: ls) i → samePage i v v' → ∀ b, l.slot b v' = l.slot b v) →
    Coherent samePage ls → Coherent samePage (l :: ls)

theorem leafOf_of_walk (hw : walk read v ls b c = (path, .leaf a g i)) : LeafOf ls i := by
  induction ls generalizing b c path
  case nil => simp [walk] at hw
  case cons l ls ih =>
    cases (walk_cons_leaf hw).2
    case inl hw => exact ⟨l, mem_cons_self, _, hw.1⟩
    case inr hw =>
      obtain ⟨_, rest, _, hw⟩ := hw
      have ⟨l', hl', h⟩ := ih hw
      exact ⟨l', mem_cons_of_mem _ hl', h⟩

theorem walk_samePage (hc : Coherent samePage ls) (hw : walk read v ls b c = (path, .leaf a g i))
    (hp : samePage i v v') : walk read v' ls b c = (path, .leaf a g i) := by
  induction hc generalizing b c path
  case nil => simp [walk] at hw
  case cons l ls hslot _ ih =>
    have hs := hslot (leafOf_of_walk hw) hp b
    have ⟨hgood, hw⟩ := walk_cons_leaf hw
    cases hw
    case inl hw =>
      obtain ⟨hleaf, rfl, rfl, rfl⟩ := hw
      simp only [walk, hs, hgood, hleaf]
    case inr hw =>
      obtain ⟨hleaf, rest, rfl, hrest⟩ := hw
      simp only [walk, hs, hgood, hleaf, ih hrest]

theorem mem_path_of_leaf (hmarks : ∀ l ∈ ls, l.marks)
    (hw : walk read v ls b c = (path, .leaf a g i)) : a ∈ path := by
  induction ls generalizing b c path
  case nil => simp [walk] at hw
  case cons l ls ih =>
    have hm : ∀ a, l.marksAt a = [a] := fun a => if_pos (hmarks l mem_cons_self)
    cases (walk_cons_leaf hw).2
    case inl hw => simp [hw.2.1, hm]
    case inr hw =>
      obtain ⟨_, rest, rfl, hrest⟩ := hw
      exact mem_append_right _ (ih (fun l h => hmarks l (mem_cons_of_mem _ h)) hrest)

theorem valid_of_mem_walk (hsound : ∀ l ∈ ls, l.Sound validBase valid) (hb : validBase b)
    (ha : a ∈ (walk read v ls b c).1) : valid a := by
  induction ls generalizing b c
  case nil => simp [walk] at ha
  case cons l ls ih =>
    have hs := hsound l mem_cons_self
    have hhere : a ∈ l.marksAt (l.slot b v) → valid a := by
      intro h
      rw [Level.marksAt] at h
      split at h
      case isTrue => exact mem_singleton.mp h ▸ hs.slot v hb
      case isFalse => simp at h
    simp only [walk] at ha
    cases hcheck : l.check (read (l.slot b v))
    case absent => simp [hcheck] at ha
    case invalid => simp [hcheck] at ha
    case good =>
      cases hleaf : l.leaf (read (l.slot b v))
      case some i =>
        simp only [hcheck, hleaf] at ha
        exact hhere ha
      case none =>
        simp only [hcheck, hleaf] at ha
        cases mem_append.mp ha
        case inl h => exact hhere h
        case inr h => exact ih (fun l h => hsound l (mem_cons_of_mem _ h)) (hs.next _) h

end Walk

namespace Memory.Lawful

variable {mem : Memory M A E F}
variable {ls : List (Level V B A E C I)}

theorem le_mark (h : mem.Lawful valid le) (f : F) (m : M) {a b : A} (ha : valid a) (hb : valid b) :
    le (mem.read m b) (mem.read (mem.mark f m a) b) := by
  by_cases hab : a = b
  case pos =>
    subst hab
    rw [h.read_mark_self f m ha]
    exact h.le_marked f _
  case neg =>
    rw [h.read_mark_ne f m ha hb hab]
    exact h.refl _

theorem le_markAll (h : mem.Lawful valid le) (hp : ∀ x ∈ path, valid x) (ha : valid a) :
    le (mem.read m a) (mem.read (mem.markAll f m path) a) := by
  induction path generalizing m
  case nil => exact h.refl _
  case cons x path ih =>
    have hx := hp x mem_cons_self
    exact h.trans (h.le_mark f m hx ha) (ih fun y hy => hp y (mem_cons_of_mem _ hy))

theorem has_markAll (h : mem.Lawful valid le) (hp : ∀ x ∈ path, valid x) (ha : a ∈ path) :
    mem.Has f (mem.read (mem.markAll f m path) a) := by
  induction path generalizing m
  case nil => simp at ha
  case cons x path ih =>
    have hx := hp x mem_cons_self
    have hp' : ∀ y ∈ path, valid y := fun y hy => hp y (mem_cons_of_mem _ hy)
    cases mem_cons.mp ha
    case inl hax =>
      subst hax
      apply h.has_mono (h.le_markAll hp' hx)
      rw [h.read_mark_self f m hx]
      exact h.has_marked f _
    case inr hap => exact ih hp' hap

theorem markAll_of_has (h : mem.Lawful valid le) (hp : ∀ x ∈ path, valid x)
    (hhas : ∀ x ∈ path, mem.Has f (mem.read m x)) : mem.markAll f m path = m := by
  induction path
  case nil => rfl
  case cons x path ih =>
    rw [markAll, foldl_cons, h.mark_of_has (hp x mem_cons_self)
      (hhas x mem_cons_self)]
    exact ih (fun y hy => hp y (mem_cons_of_mem _ hy))
      (fun y hy => hhas y (mem_cons_of_mem _ hy))

-- The walk that marks as it goes is the walk through the memory before it. The first level is read
-- before anything is marked, so it may see marks if it sets none.
theorem walkMark_eq (h : mem.Lawful valid le) (hsound : ∀ l ∈ ls, l.Sound validBase valid)
    (hblind : ∀ l ∈ ls.tail, l.Blind le) (hmarks : ∀ l ∈ ls, l.marks → l.Blind le)
    (hb : validBase b) :
    mem.walkMark f v ls b c m =
      ((walk (mem.read m) v ls b c).2, mem.markAll f m (walk (mem.read m) v ls b c).1) := by
  induction ls generalizing b c m
  case nil => rfl
  case cons l ls ih =>
    have hs := hsound l mem_cons_self
    have ha := hs.slot v hb
    have hsound' : ∀ l ∈ ls, l.Sound validBase valid :=
      fun l h => hsound l (mem_cons_of_mem _ h)
    have hrec := fun c m e => ih (c := c) (m := m) hsound'
      (fun l h => hblind l (mem_of_mem_tail h))
      (fun l h => hmarks l (mem_cons_of_mem _ h)) (hs.next e)
    rw [walkMark, walk]
    simp only [Level.marksAt]
    cases l.check (mem.read m (l.slot b v))
    case absent => rfl
    case invalid => rfl
    case good =>
      by_cases hm : l.marks
      case pos =>
        have hl := hmarks l mem_cons_self hm
        have hle := h.le_marked f (mem.read m (l.slot b v))
        -- what is read after the mark is the same up to marks
        have hrest : ∀ c e, walk (mem.read (mem.mark f m (l.slot b v))) v ls (l.next e) c =
            walk (mem.read m) v ls (l.next e) c := fun c e =>
          walk_congr hblind hsound' (hs.next e) (fun x hx => h.le_mark f m ha hx)
        simp only [hm, if_true, hl.leaf hle, hl.gather c hle, hl.next hle]
        cases l.leaf (mem.read m (l.slot b v))
        case some i => rfl
        case none =>
          simp only [hrec]
          rw [hrest]
          rfl
      case neg =>
        simp only [hm, Bool.false_eq_true, if_false]
        cases l.leaf (mem.read m (l.slot b v))
        case some i => rfl
        case none => exact hrec _ _ _

end Memory.Lawful

end PageWalk

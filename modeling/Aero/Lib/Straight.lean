import Mathlib.Data.List.Basic

namespace Straight

open List

variable {I I' S S' E : Type*}

def execList (exec : I → S → S × Option E) : List I → S → S × Option E
  | [],      s => (s, none)
  | i :: is, s =>
    match exec i s with
    | (s', some e) => (s', some e)
    | (s', none)   => execList exec is s'

-- Runs `body` until it exits, at most `n` times. Code that does not repeat is left with the exit
-- `done` at the end of its first run, and running out of iterations gives the exit `limit`.
def runLoop (exec : I → S → S × Option E) (body : List I) (repeats : Bool) (done limit : E) :
    Nat → S → S × E
  | 0,     s => (s, limit)
  | n + 1, s =>
    match execList exec body s with
    | (s', some e) => (s', e)
    | (s', none)   => if repeats then runLoop exec body repeats done limit n s' else (s', done)

def run (exec : I → S → S × Option E) (prologue body : List I) (repeats : Bool) (done limit : E)
    (n : Nat) (s : S) : S × E :=
  match execList exec prologue s with
  | (s', some e) => (s', e)
  | (s', none)   => runLoop exec body repeats done limit n s'

inductive Related (R O : S → S' → Prop) : S × Option E → S' × Option E → Prop
  | running {s s'} : R s s' → Related R O (s, none) (s', none)
  | exited {s s' e} : O s s' → Related R O (s, some e) (s', some e)

namespace Related

variable {R R₁ R₂ O O₁ O₂ : S → S' → Prop} {r : S × Option E} {r' : S' × Option E}

theorem mono (h : Related R₁ O₁ r r') (hr : ∀ s s', R₁ s s' → R₂ s s')
    (ho : ∀ s s', O₁ s s' → O₂ s s') : Related R₂ O₂ r r' := by
  cases h
  case running h => exact .running (hr _ _ h)
  case exited h => exact .exited (ho _ _ h)

theorem running_iff : Related R O (s, (none : Option E)) (s', none) ↔ R s s' where
  mp := fun | .running h => h
  mpr := .running

theorem comp {r'' : S'' × Option E} (h : Related R O r r') (h' : Related R' O' r' r'') :
    Related (fun s s'' => ∃ s', R s s' ∧ R' s' s'') (fun s s'' => ∃ s', O s s' ∧ O' s' s'')
      r r'' := by
  cases h
  case running h =>
    cases h'
    case running h' => exact .running ⟨_, h, h'⟩
  case exited h =>
    cases h'
    case exited h' => exact .exited ⟨_, h, h'⟩

theorem diag (h : Related R O r r') (P : S → S → Prop) (hp : ∀ s s', R s s' → P s s)
    (Q : S → S → Prop) (hq : ∀ s, Q s s) : Related P Q r r := by
  cases h
  case running h => exact .running (hp _ _ h)
  case exited => exact .exited (hq _)

theorem exit_eq (h : Related R O r r') : r.2 = r'.2 := by
  cases h <;> rfl

theorem with_runs (h : Related R O r r') :
    Related (fun s s' => R s s' ∧ r = (s, none) ∧ r' = (s', none)) O r r' := by
  cases h
  case running h => exact .running ⟨h, rfl, rfl⟩
  case exited h => exact .exited h

end Related

section Single

variable (exec : I → S → S × Option E)

@[simp]
theorem execList_nil (s : S) : execList exec [] s = (s, none) := rfl

theorem execList_cons_running (h : exec i s = (s', none)) :
    execList exec (i :: is) s = execList exec is s' := by
  simp [execList, h]

theorem execList_cons_exited (h : exec i s = (s', some e)) :
    execList exec (i :: is) s = (s', some e) := by
  simp [execList, h]

theorem execList_singleton (i : I) (s : S) : execList exec [i] s = exec i s := by
  match h : exec i s with
  | (_, some _) => exact execList_cons_exited _ h
  | (_, none)   => exact execList_cons_running _ h

theorem execList_append_running (h : execList exec is s = (s', none)) :
    execList exec (is ++ js) s = execList exec js s' := by
  induction is generalizing s
  case nil => simp_all
  case cons i is ih =>
    match he : exec i s with
    | (_, some _) => simp [execList_cons_exited _ he] at h
    | (_, none)   =>
      rw [execList_cons_running _ he] at h
      rw [cons_append, execList_cons_running _ he, ih h]

theorem execList_append_exited (h : execList exec is s = (s', some e)) :
    execList exec (is ++ js) s = (s', some e) := by
  induction is generalizing s
  case nil => simp at h
  case cons i is ih =>
    match he : exec i s with
    | (_, some _) =>
      rw [execList_cons_exited _ he] at h
      rw [cons_append, execList_cons_exited _ he, h]
    | (_, none)   =>
      rw [execList_cons_running _ he] at h
      rw [cons_append, execList_cons_running _ he, ih h]

theorem execList_preserves {P : S → Prop} (h : ∀ i ∈ is, ∀ s, P s → P (exec i s).1) (hs : P s) :
    P (execList exec is s).1 := by
  induction is generalizing s
  case nil => exact hs
  case cons i is ih =>
    have hi := h i mem_cons_self s hs
    match he : exec i s with
    | (_, some _) => simpa [execList_cons_exited _ he, he] using hi
    | (_, none)   =>
      rw [execList_cons_running _ he]
      rw [he] at hi
      exact ih (fun j hj => h j (mem_cons_of_mem _ hj)) hi

theorem execList_exit_ne (h : ∀ i s, (exec i s).2 ≠ some e) (is : List I) (s : S) :
    (execList exec is s).2 ≠ some e := by
  induction is generalizing s
  case nil => simp
  case cons i is ih =>
    match he : exec i s with
    | (_, some _) =>
      rw [execList_cons_exited _ he]
      simpa [he] using h i s
    | (_, none)   =>
      rw [execList_cons_running _ he]
      exact ih _

theorem execList_exits (hi : i ∈ is) (h : ∀ s, ∃ s' e, exec i s = (s', some e)) (s : S) :
    ∃ s' e, execList exec is s = (s', some e) := by
  induction is generalizing s
  case nil => simp at hi
  case cons j is ih =>
    match he : exec j s with
    | (s', some e) => exact ⟨s', e, execList_cons_exited _ he⟩
    | (s', none)   =>
      rw [execList_cons_running _ he]
      cases hi
      case head =>
        have ⟨_, _, h⟩ := h s
        simp [he] at h
      case tail hi => exact ih hi _

end Single

section Simulation

variable {exec : I → S → S × Option E} {exec' : I' → S' → S' × Option E}
variable {R R' O : S → S' → Prop}

theorem execList_append_related (h : Related R O (execList exec is s) (execList exec' is' s'))
    (hj : ∀ t t', R t t' → Related R' O (execList exec js t) (execList exec' js' t')) :
    Related R' O (execList exec (is ++ js) s) (execList exec' (is' ++ js') s') := by
  match h₁ : execList exec is s, h₂ : execList exec' is' s' with
  | (_, none), (_, none) =>
    rw [h₁, h₂] at h
    rw [execList_append_running _ h₁, execList_append_running _ h₂]
    exact hj _ _ (Related.running_iff.mp h)
  | (_, some _), (_, some _) =>
    rw [h₁, h₂] at h
    rw [execList_append_exited _ h₁, execList_append_exited _ h₂]
    cases h
    case exited h => exact .exited h
  | (_, none), (_, some _) => rw [h₁, h₂] at h; cases h
  | (_, some _), (_, none) => rw [h₁, h₂] at h; cases h

theorem execList_cons_related (h : Related R O (exec i s) (execList exec' is' s'))
    (hj : ∀ t t', R t t' → Related R' O (execList exec is t) (execList exec' js' t')) :
    Related R' O (execList exec (i :: is) s) (execList exec' (is' ++ js') s') := by
  rw [← execList_singleton exec] at h
  exact @execList_append_related _ _ _ _ _ _ _ _ _ _ [i] _ _ _ _ _ h hj

theorem execList_related {exec' : I → S' → S' × Option E}
    (h : ∀ i s s', R s s' → Related R O (exec i s) (exec' i s')) (hs : R s s') :
    Related R O (execList exec is s) (execList exec' is s') := by
  induction is generalizing s s'
  case nil => exact .running hs
  case cons i is ih =>
    have hi := h i s s' hs
    rw [← execList_singleton exec'] at hi
    exact execList_cons_related hi fun _ _ => ih

-- The loop rule. The relation `R` between the states at the heads of the loops is established again
-- by one run of the bodies, behind which `R'` holds.
theorem runLoop_related
    (hb : ∀ s s', R s s' → Related R' O (execList exec body s) (execList exec' body' s'))
    (hr : ∀ s s', R' s s' → repeats = repeats' ∧ (repeats = true → R s s') ∧ O s s') (n : Nat)
    (hs : R s s') (hn : n = 0 → O s s') :
    (runLoop exec body repeats done limit n s).2 =
      (runLoop exec' body' repeats' done limit n s').2 ∧
    O (runLoop exec body repeats done limit n s).1
      (runLoop exec' body' repeats' done limit n s').1 := by
  induction n generalizing s s'
  case zero => exact ⟨rfl, hn rfl⟩
  case succ n ih =>
    have hb := hb s s' hs
    match h₁ : execList exec body s, h₂ : execList exec' body' s' with
    | (t, none), (t', none) =>
      rw [h₁, h₂, Related.running_iff] at hb
      have ⟨hk, hs, ho⟩ := hr _ _ hb
      subst hk
      cases repeats
      case false => simpa [runLoop, h₁, h₂] using ho
      case true => simpa [runLoop, h₁, h₂] using ih (hs rfl) fun _ => ho
    | (t, some _), (t', some _) =>
      rw [h₁, h₂] at hb
      cases hb
      case exited hb => simpa [runLoop, h₁, h₂] using hb
    | (_, none), (_, some _) => rw [h₁, h₂] at hb; cases hb
    | (_, some _), (_, none) => rw [h₁, h₂] at hb; cases hb

theorem run_related (hp : Related R O (execList exec prologue s) (execList exec' prologue' s'))
    (hb : ∀ s s', R s s' → Related R' O (execList exec body s) (execList exec' body' s'))
    (hr : ∀ s s', R' s s' → repeats = repeats' ∧ (repeats = true → R s s') ∧ O s s')
    (hn : n = 0 → ∀ s s', R s s' → O s s') :
    (run exec prologue body repeats done limit n s).2 =
      (run exec' prologue' body' repeats' done limit n s').2 ∧
    O (run exec prologue body repeats done limit n s).1
      (run exec' prologue' body' repeats' done limit n s').1 := by
  unfold run
  match h₁ : execList exec prologue s, h₂ : execList exec' prologue' s' with
  | (_, none), (_, none) =>
    rw [h₁, h₂, Related.running_iff] at hp
    exact runLoop_related hb hr n hp fun h => hn h _ _ hp
  | (_, some _), (_, some _) =>
    rw [h₁, h₂] at hp
    cases hp
    case exited hp => exact ⟨rfl, hp⟩
  | (_, none), (_, some _) => rw [h₁, h₂] at hp; cases hp
  | (_, some _), (_, none) => rw [h₁, h₂] at hp; cases hp

end Simulation

def InScope {D : Type*} (ok : D → I → Prop) (extend : D → I → D) : D → List I → Prop
  | _, []      => True
  | d, i :: is => ok d i ∧ InScope ok extend (extend d i) is

section InScope

variable {D : Type*} {ok : D → I → Prop} {extend : D → I → D}

@[simp]
theorem inScope_nil (d : D) : InScope ok extend d [] := trivial

@[simp]
theorem inScope_cons :
    InScope ok extend d (i :: is) ↔ ok d i ∧ InScope ok extend (extend d i) is := Iff.rfl

@[simp]
theorem inScope_append :
    InScope ok extend d (is ++ js) ↔
      InScope ok extend d is ∧ InScope ok extend (is.foldl extend d) js := by
  induction is generalizing d
  case nil => simp
  case cons i is ih => simp [ih, and_assoc]

theorem inScope_and_forall {p : I → Prop} (h : InScope ok extend d is) (hp : ∀ i ∈ is, p i) :
    InScope (fun d i => ok d i ∧ p i) extend d is := by
  induction is generalizing d
  case nil => trivial
  case cons i is ih =>
    exact ⟨⟨h.1, hp i mem_cons_self⟩, ih h.2 fun j hj => hp j (mem_cons_of_mem _ hj)⟩

end InScope

-- A rewriting of a list from its head to its end, which replaces each instruction by a list of
-- instructions and passes on a record `F` of what is known about the code so far. It can stop at
-- an instruction, which drops the rest of the list (`cut` updates the record when that happens).
structure Rewritten (I F : Type*) where
  out : List I
  facts : F
  stop : Bool := false

section Rewrite

variable {F : Type*} (step : F → I → Rewritten I' F) (cut : F → List I → F)

def rewrite : F → List I → Rewritten I' F
  | f, []      => { out := [], facts := f }
  | f, i :: is =>
    let r := step f i
    if r.stop then { out := r.out, facts := cut r.facts is, stop := true }
    else
      let rest := rewrite r.facts is
      { rest with out := r.out ++ rest.out }

@[simp]
theorem rewrite_nil (f : F) : rewrite step cut f [] = { out := [], facts := f } := rfl

theorem rewrite_cons_stop (is : List I) (h : (step f i).stop = true) :
    rewrite step cut f (i :: is) =
      { out := (step f i).out, facts := cut (step f i).facts is, stop := true } := by
  simp [rewrite, h]

theorem rewrite_cons (is : List I) (h : (step f i).stop = false) :
    rewrite step cut f (i :: is) =
      { rewrite step cut (step f i).facts is with
        out := (step f i).out ++ (rewrite step cut (step f i).facts is).out } := by
  simp [rewrite, h]

variable {step cut} {exec : I → S → S × Option E} {exec' : I' → S' → S' × Option E}
variable {O : S → S' → Prop} {D : Type*} {ok : D → I → Prop} {extend : D → I → D}

-- The rule for such a rewriting. The invariant speaks about a static context `D` (what is in scope
-- at a point of the code), which each instruction extends, and about the record `F`. Where the
-- rewriting stops, both sides have to exit.
theorem execList_rewrite {Inv : D → F → S → S' → Prop} (h : ∀ d f i s s', ok d i → Inv d f s s' →
      Related (fun t t' => (step f i).stop = false ∧ Inv (extend d i) (step f i).facts t t') O
        (exec i s) (execList exec' (step f i).out s')) (hs : InScope ok extend d is)
    (hi : Inv d f s s') :
    Related (fun t t' => (rewrite step cut f is).stop = false ∧
        Inv (is.foldl extend d) (rewrite step cut f is).facts t t') O
      (execList exec is s) (execList exec' (rewrite step cut f is).out s') := by
  induction is generalizing d f s s'
  case nil => exact .running ⟨rfl, hi⟩
  case cons i is ih =>
    cases hst : (step f i).stop
    case false =>
      rw [rewrite_cons step cut is hst]
      exact execList_cons_related (h d f i s s' hs.1 hi) fun t t' ht => ih hs.2 ht.2
    case true =>
      rw [rewrite_cons_stop step cut is hst]
      rw [← append_nil (step f i).out]
      exact execList_cons_related (h d f i s s' hs.1 hi) fun t t' ht => by simp [hst] at ht

theorem inScope_rewrite {P : D → D' → F → Prop}
    (h : ∀ d d' f i, ok d i → P d d' f → InScope ok' extend' d' (step f i).out ∧
      P (extend d i) ((step f i).out.foldl extend' d') (step f i).facts)
    (hs : InScope ok extend d is) (hp : P d d' f) :
    InScope ok' extend' d' (rewrite step cut f is).out ∧
    ((rewrite step cut f is).stop = false →
      P (is.foldl extend d) ((rewrite step cut f is).out.foldl extend' d')
        (rewrite step cut f is).facts) := by
  induction is generalizing d d' f
  case nil => exact ⟨trivial, fun _ => hp⟩
  case cons i is ih =>
    have ⟨ho, hp⟩ := h d d' f i hs.1 hp
    cases hst : (step f i).stop
    case false =>
      have ⟨hr, hf⟩ := ih hs.2 hp
      rw [rewrite_cons step cut is hst]
      refine ⟨inScope_append.mpr ⟨ho, hr⟩, fun hst' => ?_⟩
      rw [foldl_append]
      exact hf hst'
    case true =>
      rw [rewrite_cons_stop step cut is hst]
      exact ⟨ho, fun h => by simp at h⟩

theorem mem_out_rewrite (h : j ∈ (rewrite step cut f is).out) :
    ∃ i ∈ is, ∃ g, j ∈ (step g i).out := by
  induction is generalizing f
  case nil => simp at h
  case cons i is ih =>
    cases hst : (step f i).stop
    case false =>
      rw [rewrite_cons step cut is hst] at h
      rcases mem_append.mp h with h | h
      · exact ⟨i, mem_cons_self, f, h⟩
      · have ⟨i', hi, hg⟩ := ih h
        exact ⟨i', mem_cons_of_mem _ hi, hg⟩
    case true =>
      rw [rewrite_cons_stop step cut is hst] at h
      exact ⟨i, mem_cons_self, f, h⟩

theorem stop_of_rewrite (h : (rewrite step cut f is).stop = false) :
    ∀ i ∈ is, ∃ g, (step g i).stop = false := by
  induction is generalizing f
  case nil => simp
  case cons i is ih =>
    cases hst : (step f i).stop
    case false =>
      rw [rewrite_cons step cut is hst] at h
      exact forall_mem_cons.mpr ⟨⟨f, hst⟩, ih h⟩
    case true =>
      rw [rewrite_cons_stop step cut is hst] at h
      cases h

end Rewrite

end Straight

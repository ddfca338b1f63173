import Aero.Shared.Seqlock

namespace Aero.Shared

open List BitVec Record

theorem generationBusyBit_eq_twoPow : generationBusyBit = twoPow 32 31 := by
  decide

theorem isBusy_eq_getLsbD (g : U32) : isBusy g = g.getLsbD 31 := by
  rw [isBusy, generationBusyBit_eq_twoPow, and_twoPow]
  cases g.getLsbD 31 <;> decide

theorem isBusy_or_generationBusyBit (g : U32) : isBusy (g ||| generationBusyBit) = true := by
  rw [isBusy_eq_getLsbD, generationBusyBit_eq_twoPow]
  simp

def generationOf (n : Nat) : U32 :=
  BitVec.ofNat 32 (n % 2 ^ 31)

theorem toNat_generationOf (n : Nat) : (generationOf n).toNat = n % 2 ^ 31 := by
  rw [generationOf, toNat_ofNat]
  omega

theorem isBusy_generationOf (n : Nat) : isBusy (generationOf n) = false := by
  rw [isBusy_eq_getLsbD, getLsbD, toNat_generationOf]
  exact Nat.testBit_lt_two_pow (Nat.mod_lt _ (by decide))

theorem nextGeneration_generationOf (n : Nat) :
    nextGeneration (generationOf n) = generationOf (n + 1) := by
  have hmask : (~~~generationBusyBit).toNat = 2 ^ 31 - 1 := by decide
  apply eq_of_toNat_eq
  rw [nextGeneration, toNat_and, hmask, Nat.and_two_pow_sub_one_eq_mod, toNat_add,
    toNat_generationOf, toNat_generationOf]
  change (n % 2 ^ 31 + 1) % 2 ^ 32 % 2 ^ 31 = (n + 1) % 2 ^ 31
  omega

theorem generationOf_inj (hle : m ≤ n) (hlt : n - m < 2 ^ 31) (h : generationOf m = generationOf n) :
    m = n := by
  have hmod := congrArg BitVec.toNat h
  rw [toNat_generationOf, toNat_generationOf] at hmod
  omega

variable {α ι ρ : Type} [Record α]

namespace Publisher

def Holds : Publisher α → Prop
  | .store .. => True
  | _         => False

end Publisher

namespace Reader

-- If no publish has completed since the first load and none is under way, then the loaded values
-- are the fields as they are.
def Ok (cell : Cell α) (history : List (Snapshot α)) : Reader α → Prop
  | .load _ gen0 values seen =>
    gen0 = generationOf seen ∧ seen + 1 ≤ history.length ∧
    (history.length = seen + 1 → isBusy cell.generation = false →
      values = (List.ofFn cell.fields).take values.length)
  | _ => True

def horizon (published : Nat) : Reader α → Nat
  | .load _ _ _ seen => seen
  | _                => published

end Reader

namespace System

-- No publish is under way, and the cell has the last one.
structure Free (s : System α ι ρ) : Prop where
  generation : s.cell.generation = generationOf s.published
  fields : ∃ last, s.history[s.published]? = some last ∧
    s.cell.fields = Record.words last.update
  publishers : ∀ p, ¬(s.publishers p).Holds

-- One publisher stores its fields.
structure Held (s : System α ι ρ) (p : ι) (update : α) (stored : Nat) : Prop where
  generation : s.cell.generation = generationOf s.published ||| generationBusyBit
  publisher : s.publishers p = .store update (generationOf s.published) stored
  fields : ∀ k : Fin (Record.count α), k.val < stored → s.cell.fields k = Record.words update k
  others : ∀ q, q ≠ p → ¬(s.publishers q).Holds

def Ordered (s : System α ι ρ) (r : ρ) (bound : Nat) : Prop :=
  ∃ publishes : List Nat, publishes.Pairwise (· ≤ ·) ∧
    List.Forall₂ (fun snapshot i => s.history[i]? = some snapshot) (s.returned r) publishes ∧
    ∀ i ∈ publishes, i ≤ bound

structure Inv (initial : α) (s : System α ι ρ) : Prop where
  first : s.history[0]? = some ⟨0, initial⟩
  generations : ∀ i snapshot, s.history[i]? = some snapshot →
    snapshot.generation = generationOf i
  lock : s.Free ∨ ∃ p update stored, s.Held p update stored
  readers : ∀ r, (s.readers r).Ok s.cell s.history
  ordered : ∀ r, s.Ordered r ((s.readers r).horizon s.published)

variable {s : System α ι ρ}

theorem Held.isBusy (h : s.Held p update stored) : isBusy s.cell.generation = true := by
  rw [h.generation, isBusy_or_generationBusyBit]

theorem Inv.nonempty (hi : s.Inv initial) : 0 < s.history.length :=
  (List.getElem?_eq_some_iff.mp hi.first).1

theorem Inv.free_of_not_isBusy (hi : s.Inv initial) (h : isBusy s.cell.generation = false) : s.Free := by
  rcases hi.lock with hfree | ⟨p, update, stored, hheld⟩
  · exact hfree
  · rw [hheld.isBusy] at h
    cases h

theorem Inv.held_of_store (hi : s.Inv initial) (hp : s.publishers p = .store update start stored) :
    s.Held p update stored ∧ start = generationOf s.published := by
  have hholds : (s.publishers p).Holds := by
    rw [hp]
    trivial
  rcases hi.lock with hfree | ⟨q, u, k, hheld⟩
  · exact absurd hholds (hfree.publishers p)
  · by_cases hq : p = q
    · subst hq
      have heq := hheld.publisher
      rw [hp] at heq
      cases heq
      exact ⟨hheld, rfl⟩
    · exact absurd hholds (hheld.others p hq)

theorem published_add_one (hi : 0 < s.history.length) : s.published + 1 = s.history.length := by
  rw [published]
  omega

theorem Ordered.mono (h : s.Ordered r b) (hb : b ≤ b') : s.Ordered r b' := by
  obtain ⟨is, hs, hf, hle⟩ := h
  exact ⟨is, hs, hf, fun i hmem => (hle i hmem).trans hb⟩

theorem Inv.horizon_le (hi : s.Inv initial) (r : ρ) :
    (s.readers r).horizon s.published ≤ s.published := by
  have hr := hi.readers r
  have hlen := published_add_one hi.nonempty
  cases h : s.readers r
  case load spins gen0 values seen =>
    rw [h] at hr
    have hle := hr.2.1
    change seen ≤ s.published
    omega
  all_goals exact le_rfl

theorem Inv.init (initial : α) : (System.init initial : System α ι ρ).Inv initial where
  first := rfl
  generations := by
    intro i snapshot h
    cases i
    case zero =>
      cases h
      rfl
    case succ => cases h
  lock := .inl ⟨rfl, ⟨_, rfl, rfl⟩, fun _ => id⟩
  readers := fun _ => trivial
  ordered := fun _ => ⟨[], .nil, .nil, by simp⟩

theorem Ordered.append (h : s.Ordered r b) (snapshot : Snapshot α) {s' : System α ι ρ}
    (hh : s'.history = s.history ++ [snapshot]) (hr : s'.returned r = s.returned r) :
    s'.Ordered r b := by
  obtain ⟨is, hs, hf, hle⟩ := h
  refine ⟨is, hs, ?_, hle⟩
  rw [hr, hh]
  refine hf.imp fun a i ha => ?_
  rw [List.getElem?_append_left (List.getElem?_eq_some_iff.mp ha).1]
  exact ha

theorem ofValues_ofFn_words (update : α) : ofValues (ofFn (words update)) = update := by
  refine Eq.trans (congrArg ofWords (funext fun k => ?_)) (ofWords_words update)
  simp

-- Equal generations around the loads: no publish has completed in between.
theorem Inv.snapshot_eq (hi : s.Inv initial) (hr : s.readers r = .load spins gen0 values seen)
    (hall : ¬values.length < count α) (hfew : s.published - seen < 2 ^ 31)
    (hgen : gen0 = s.cell.generation) :
    seen = s.published ∧ s.history[seen]? = some ⟨gen0, ofValues values⟩ := by
  have hlen := published_add_one hi.nonempty
  obtain ⟨hgen0, hseen, hvalues⟩ := hr ▸ hi.readers r
  have hidle : isBusy s.cell.generation = false := by
    rw [← hgen, hgen0, isBusy_generationOf]
  have hfree := hi.free_of_not_isBusy hidle
  have heq := generationOf_inj (by omega) hfew (hgen0.symm.trans (hgen.trans hfree.generation))
  obtain ⟨last, hlast, hfields⟩ := hfree.fields
  have hval : values = ofFn (words last.update) := by
    have h := hvalues (by omega) hidle
    rwa [take_of_length_le (by simpa using hall), hfields] at h
  refine ⟨heq, ?_⟩
  rw [hval, ofValues_ofFn_words, heq, hlast, hgen0, heq, ← hi.generations _ _ hlast]

theorem Inv.loadField (hi : s.Inv initial) (hr : s.readers r = .load spins gen0 values seen)
    (h : values.length < count α) :
    (Reader.load spins gen0 (values ++ [s.cell.fields ⟨values.length, h⟩]) seen : Reader α).Ok
      s.cell s.history := by
  obtain ⟨hgen0, hseen, hvalues⟩ := hr ▸ hi.readers r
  refine ⟨hgen0, hseen, fun hlen hidle => ?_⟩
  have hlt : values.length < (List.ofFn s.cell.fields).length := by simpa using h
  calc values ++ [s.cell.fields ⟨values.length, h⟩]
    _ = (List.ofFn s.cell.fields).take values.length ++ [(List.ofFn s.cell.fields)[values.length]] := by
      rw [← hvalues hlen hidle, List.getElem_ofFn]
    _ = (List.ofFn s.cell.fields).take (values.length + 1) := List.take_concat_get' _ _ hlt
    _ = _ := by rw [List.length_append, List.length_singleton]

section Publishers

variable [DecidableEq ι]

theorem Inv.setPublisher (hi : s.Inv initial) (hold : ¬(s.publishers p).Holds) (hnew : ¬state.Holds) :
    (s.setPublisher p state).Inv initial where
  __ := hi
  lock := by
    have hupd : ∀ q, ¬(s.publishers q).Holds →
        ¬(Function.update s.publishers p state q).Holds := by
      intro q hq
      by_cases hqp : q = p
      · subst hqp
        rwa [Function.update_self]
      · rwa [Function.update_of_ne hqp]
    rcases hi.lock with hfree | ⟨q, update, stored, hheld⟩
    · exact .inl ⟨hfree.generation, hfree.fields, fun q => hupd q (hfree.publishers q)⟩
    · have hqp : q ≠ p := by
        rintro rfl
        rw [hheld.publisher] at hold
        exact hold trivial
      refine .inr ⟨q, update, stored, hheld.generation, ?_, hheld.fields,
        fun q' hq' => hupd q' (hheld.others q' hq')⟩
      exact (Function.update_of_ne hqp ..).trans hheld.publisher

theorem Inv.lock_step (hi : s.Inv initial) (hstart : isBusy start = false)
    (heq : s.cell.generation = start) : (s.lock p update start).Inv initial := by
  subst heq
  have hfree := hi.free_of_not_isBusy hstart
  refine ⟨hi.first, hi.generations, .inr ⟨p, update, 0, ?_, ?_, ?_, ?_⟩, fun r => ?_, hi.ordered⟩
  · exact congrArg (· ||| generationBusyBit) hfree.generation
  · refine (Function.update_self ..).trans ?_
    rw [hfree.generation]
    rfl
  · exact fun k hk => absurd hk (Nat.not_lt_zero _)
  · intro q hq
    change ¬(Function.update s.publishers p _ q).Holds
    rw [Function.update_of_ne hq]
    exact hfree.publishers q
  · -- the busy bit is set: nothing is said about the loaded values
    have hr := hi.readers r
    change (s.readers r).Ok _ _
    cases h : s.readers r
    case load spins gen0 values seen =>
      rw [h] at hr
      refine ⟨hr.1, hr.2.1, fun _ hbusy => ?_⟩
      change isBusy (s.cell.generation ||| generationBusyBit) = false at hbusy
      rw [isBusy_or_generationBusyBit] at hbusy
      cases hbusy
    all_goals trivial

theorem Inv.storeField (hi : s.Inv initial) {k : Fin (count α)}
    (hp : s.publishers p = .store update start k) :
    (s.storeField p update start k).Inv initial := by
  obtain ⟨hheld, rfl⟩ := hi.held_of_store hp
  have hbusy := hheld.isBusy
  refine ⟨hi.first, hi.generations, .inr ⟨p, update, k + 1, hheld.generation, ?_, ?_, ?_⟩,
    fun r => ?_, hi.ordered⟩
  · exact Function.update_self ..
  · intro j hj
    change Function.update s.cell.fields k _ j = _
    by_cases hjk : j = k
    · subst hjk
      rw [Function.update_self]
    · rw [Function.update_of_ne hjk]
      exact hheld.fields j (by have := Fin.val_ne_of_ne hjk; omega)
  · intro q hq
    change ¬(Function.update s.publishers p _ q).Holds
    rw [Function.update_of_ne hq]
    exact hheld.others q hq
  · have hr := hi.readers r
    change (s.readers r).Ok _ _
    cases h : s.readers r
    case load spins gen0 values seen =>
      rw [h] at hr
      refine ⟨hr.1, hr.2.1, fun _ hfree => ?_⟩
      change isBusy s.cell.generation = false at hfree
      rw [hbusy] at hfree
      cases hfree
    all_goals trivial

theorem Inv.storeGeneration (hi : s.Inv initial) (hp : s.publishers p = .store update start stored)
    (hk : ¬stored < count α) : (s.storeGeneration p update start).Inv initial := by
  obtain ⟨hheld, rfl⟩ := hi.held_of_store hp
  have hlen := published_add_one hi.nonempty
  have hpub : (s.storeGeneration p update (generationOf s.published)).published =
      s.history.length := by
    simp [System.storeGeneration, published]
  refine ⟨?_, ?_, .inl ⟨?_, ?_, ?_⟩, fun r => ?_, fun r => ?_⟩
  · exact (List.getElem?_append_left hi.nonempty).trans hi.first
  · intro i snapshot h
    rcases List.getElem?_append .. ▸ h with h
    split at h
    case isTrue => exact hi.generations i snapshot h
    case isFalse hge =>
      obtain ⟨hi', heq⟩ := List.getElem?_eq_some_iff.mp h
      have hi0 : i = s.history.length := by
        simp only [List.length_singleton] at hi'
        omega
      simp only [List.getElem_singleton] at heq
      rw [← heq, hi0, ← hlen]
      exact nextGeneration_generationOf _
  · rw [hpub, ← hlen]
    exact nextGeneration_generationOf _
  · refine ⟨⟨nextGeneration (generationOf s.published), update⟩, ?_, ?_⟩
    · rw [hpub]
      exact List.getElem?_concat_length ..
    · funext k
      exact hheld.fields k (by omega)
  · intro q
    change ¬(Function.update s.publishers p _ q).Holds
    by_cases hq : q = p
    · subst hq
      rw [Function.update_self]
      exact id
    · rw [Function.update_of_ne hq]
      exact hheld.others q hq
  · -- a publish has completed: nothing is said about the loaded values
    have hr := hi.readers r
    change (s.readers r).Ok _ (s.history ++ _)
    cases h : s.readers r
    case load spins gen0 values seen =>
      rw [h] at hr
      refine ⟨hr.1, ?_, fun heq => ?_⟩
      · rw [List.length_append]
        exact hr.2.1.trans (Nat.le_add_right ..)
      · rw [List.length_append, List.length_singleton] at heq
        have := hr.2.1
        omega
    all_goals trivial
  · refine Ordered.append ((hi.ordered r).mono ?_) _ rfl rfl
    change (s.readers r).horizon _ ≤ (s.readers r).horizon _
    cases s.readers r
    case load => exact le_rfl
    all_goals
      rw [hpub, ← hlen]
      exact Nat.le_succ _

theorem Inv.stepPublisher (hi : s.Inv initial) (p : ι) (spurious : Bool) :
    (s.stepPublisher p spurious).Inv initial := by
  rw [System.stepPublisher]
  split
  case h_1 | h_2 => exact hi
  case h_3 hp => exact hi.setPublisher (by rw [hp]; exact id) id
  case h_4 hp => exact hi.setPublisher (by rw [hp]; exact id) id
  case h_5 hp =>
    split_ifs with hbusy hcas
    · exact hi.setPublisher (by rw [hp]; exact id) id
    · exact hi.lock_step (Bool.not_eq_true _ ▸ hbusy) hcas.1
    · exact hi.setPublisher (by rw [hp]; exact id) id
  case h_6 hp =>
    split
    case isTrue => exact hi.storeField hp
    case isFalse h => exact hi.storeGeneration hp h

end Publishers

section Readers

variable [DecidableEq ρ]

theorem Inv.setReader (hi : s.Inv initial) (hok : state.Ok s.cell s.history)
    (hh : (s.readers r).horizon s.published ≤ state.horizon s.published) :
    (s.setReader r state).Inv initial := by
  refine ⟨hi.first, hi.generations, ?_, fun q => ?_, fun q => ?_⟩
  · rcases hi.lock with hfree | ⟨p, update, stored, hheld⟩
    · exact .inl ⟨hfree.generation, hfree.fields, hfree.publishers⟩
    · exact .inr ⟨p, update, stored, hheld.generation, hheld.publisher, hheld.fields, hheld.others⟩
  · change (Function.update s.readers r state q).Ok _ _
    by_cases hq : q = r
    · subst hq
      rwa [Function.update_self]
    · rw [Function.update_of_ne hq]
      exact hi.readers q
  · change s.Ordered q ((Function.update s.readers r state q).horizon s.published)
    by_cases hq : q = r
    · subst hq
      rw [Function.update_self]
      exact (hi.ordered q).mono hh
    · rw [Function.update_of_ne hq]
      exact hi.ordered q

theorem Inv.return (hi : s.Inv initial) (hlast : s.history[s.published]? = some snapshot) :
    (s.return r snapshot).Inv initial := by
  refine ⟨hi.first, hi.generations, ?_, fun q => ?_, fun q => ?_⟩
  · rcases hi.lock with hfree | ⟨p, update, stored, hheld⟩
    · exact .inl ⟨hfree.generation, hfree.fields, hfree.publishers⟩
    · exact .inr ⟨p, update, stored, hheld.generation, hheld.publisher, hheld.fields, hheld.others⟩
  · change (Function.update s.readers r _ q).Ok _ _
    by_cases hq : q = r
    · subst hq
      rw [Function.update_self]
      trivial
    · rw [Function.update_of_ne hq]
      exact hi.readers q
  · change Ordered _ q ((Function.update s.readers r _ q).horizon s.published)
    by_cases hq : q = r
    · subst hq
      obtain ⟨is, hs, hf, hle⟩ := (hi.ordered q).mono (hi.horizon_le q)
      rw [Function.update_self]
      refine ⟨is ++ [s.published], ?_, ?_, ?_⟩
      · rw [pairwise_append]
        refine ⟨hs, pairwise_singleton .., ?_⟩
        intro i hmem j hj
        rw [mem_singleton] at hj
        exact hj ▸ hle i hmem
      · change List.Forall₂ _ (Function.update s.returned q _ q) _
        rw [Function.update_self]
        exact rel_append hf (.cons hlast .nil)
      · intro i hmem
        rw [mem_append, mem_singleton] at hmem
        rcases hmem with hmem | rfl
        · exact hle i hmem
        · exact le_rfl
    · obtain ⟨is, hs, hf, hle⟩ := hi.ordered q
      rw [Function.update_of_ne hq]
      refine ⟨is, hs, ?_, hle⟩
      change List.Forall₂ _ (Function.update s.returned r _ q) _
      rw [Function.update_of_ne hq]
      exact hf

theorem Inv.stepReader (hi : s.Inv initial) (r : ρ) (hfew : s.FewPublishes (.reader r)) :
    (s.stepReader r).Inv initial := by
  rw [System.stepReader]
  split
  case h_1 | h_2 => exact hi
  case h_3 => exact hi.setReader trivial (hi.horizon_le r)
  case h_4 hr =>
    split_ifs with hbusy
    · exact hi.setReader trivial (hi.horizon_le r)
    · have hfree := hi.free_of_not_isBusy (Bool.not_eq_true _ ▸ hbusy)
      refine hi.setReader ⟨hfree.generation, (published_add_one hi.nonempty).le, fun _ _ => ?_⟩
        (hi.horizon_le r)
      rfl
  case h_5 spins gen0 values seen hr =>
    rw [FewPublishes, hr] at hfew
    split_ifs with h hgen
    · exact hi.setReader (hi.loadField hr h) (by rw [hr]; exact le_rfl)
    · obtain ⟨rfl, hlast⟩ := hi.snapshot_eq hr h hfew hgen
      exact hi.return hlast
    · exact hi.setReader trivial (hi.horizon_le r)

end Readers

section Steps

variable [DecidableEq ι] [DecidableEq ρ]

theorem Inv.step (hi : s.Inv initial) (hfew : s.FewPublishes a) : (s.step a).Inv initial := by
  cases a
  case publish p update =>
    rw [System.step]
    split
    case h_1 hp => exact hi.setPublisher (by rw [hp]; exact id) id
    case h_2 hp => exact hi.setPublisher (by rw [hp]; exact id) id
    case h_3 => exact hi
  case publisher p spurious => exact hi.stepPublisher p spurious
  case snapshot r =>
    rw [System.step]
    split
    case h_1 => exact hi.setReader trivial (hi.horizon_le r)
    case h_2 => exact hi.setReader trivial (hi.horizon_le r)
    case h_3 => exact hi
  case reader r => exact hi.stepReader r hfew

theorem Reachable.inv (h : Reachable initial s) : s.Inv initial := by
  induction h
  case start => exact .init initial
  case step _ hfew ih => exact ih.step hfew

end Steps

end System

end Aero.Shared

import Aero.Shared.Theorems.Seqlock

namespace Aero.Shared

open List Record

namespace System

variable {α ι ρ : Type} [Record α] {initial : α}

structure Snapshots (initial : α) (s : System α ι ρ) : Prop where
  first : s.history[0]? = some ⟨0, initial⟩
  generations : ∀ i publish, s.history[i]? = some publish →
    publish.generation = BitVec.ofNat 32 (i % 2 ^ 31)
  ofPublish : ∀ r, ∃ publishes : List Nat, publishes.Pairwise (· ≤ ·) ∧
    List.Forall₂ (fun snapshot i => s.history[i]? = some snapshot) (s.returned r) publishes
  idle : ∀ r, ∀ snapshot ∈ s.returned r, isBusy snapshot.generation = false
  increasing : s.published < 2 ^ 31 → ∀ r,
    (s.returned r).Pairwise fun a b => a.generation ≤ b.generation

theorem Inv.generation_of_forall₂ {s : System α ι ρ} {l : List (Snapshot α)}
    (hi : s.Inv initial) (h : Forall₂ (fun snapshot i => s.history[i]? = some snapshot) l is)
    (hk : k < l.length) :
    ∃ hk' : k < is.length, is[k] < s.history.length ∧ l[k].generation = generationOf is[k] := by
  obtain ⟨hlength, hget⟩ := forall₂_iff_get.mp h
  have hsome : s.history[is[k]]? = some l[k] := hget k hk (hlength ▸ hk)
  exact ⟨hlength ▸ hk, (List.getElem?_eq_some_iff.mp hsome).1, hi.generations _ _ hsome⟩

theorem Inv.snapshots {s : System α ι ρ} (hi : s.Inv initial) : s.Snapshots initial where
  __ := hi
  ofPublish r := by
    obtain ⟨is, hs, hf, -⟩ := hi.ordered r
    exact ⟨is, hs, hf⟩
  idle r snapshot hmem := by
    obtain ⟨is, -, hf, -⟩ := hi.ordered r
    obtain ⟨k, hk, rfl⟩ := getElem_of_mem hmem
    obtain ⟨_, -, hgeneration⟩ := hi.generation_of_forall₂ hf hk
    rw [hgeneration, isBusy_generationOf]
  increasing hlt r := by
    obtain ⟨is, hs, hf, hle⟩ := hi.ordered r
    have hlen := published_add_one hi.nonempty
    refine pairwise_iff_getElem.mpr fun k l hk hl hkl => ?_
    obtain ⟨hk', -, hgeneration⟩ := hi.generation_of_forall₂ hf hk
    obtain ⟨hl', hpublished, hgeneration'⟩ := hi.generation_of_forall₂ hf hl
    have hij := pairwise_iff_getElem.mp hs k l hk' hl' hkl
    rw [hgeneration, hgeneration', BitVec.le_def, toNat_generationOf, toNat_generationOf]
    omega

end System

def Publisher.Ready : Publisher α → Prop
  | .idle   => True
  | .done _ => True
  | _       => False

def Reader.Ready : Reader α → Prop
  | .idle   => True
  | .done _ => True
  | _       => False

namespace System

variable {α ι ρ : Type} [Record α]

structure Quiet (s : System α ι ρ) (p : ι) (r : ρ) : Prop where
  generation : isBusy s.cell.generation = false
  publisher : (s.publishers p).Ready
  reader : (s.readers r).Ready

theorem Quiet.init (initial : α) (p : ι) (r : ρ) : (System.init initial).Quiet p r :=
  ⟨isBusy_generationOf 0, trivial, trivial⟩

variable [DecidableEq ι] [DecidableEq ρ] {s : System α ι ρ}

theorem step_publish (h : (s.publishers p).Ready) :
    s.step (.publish p update) = s.setPublisher p (.loadStart update) := by
  rw [step]
  split
  case h_1 | h_2 => rfl
  case h_3 hidle hdone =>
    cases hp : s.publishers p
    case idle => exact absurd hp hidle
    case done result => exact absurd hp (hdone result)
    all_goals
      rw [hp] at h
      cases h

theorem step_snapshot (h : (s.readers r).Ready) :
    s.step (.snapshot r) = s.setReader r (.loadFirst maxSpins) := by
  rw [step]
  split
  case h_1 | h_2 => rfl
  case h_3 hidle hdone =>
    cases hr : s.readers r
    case idle => exact absurd hr hidle
    case done result => exact absurd hr (hdone result)
    all_goals
      rw [hr] at h
      cases h

theorem Reachable.stores (h : Reachable initial s) {start : U32}
    (hp : s.publishers p = .store update start k) :
    ∃ s', Reachable initial s' ∧ (s'.publishers p).Ready ∧ s'.readers = s.readers ∧
      s'.returned = s.returned ∧ s'.cell.generation = nextGeneration start ∧
      s'.history = s.history ++ [⟨nextGeneration start, update⟩] := by
  obtain ⟨n, hn⟩ : ∃ n, n = count α - k := ⟨_, rfl⟩
  have h' := h.step (.publisher p false) trivial
  rw [System.step, stepPublisher, hp] at h'
  induction n generalizing s k
  case zero =>
    have hk : ¬k < count α := by omega
    simp only [hk, dite_false] at h'
    refine ⟨_, h', ?_, rfl, rfl, rfl, rfl⟩
    have hdone : (s.storeGeneration p update start).publishers p =
      .done (some (nextGeneration start)) := Function.update_self ..
    rw [hdone]
    trivial
  case succ n ih =>
    have hk : k < count α := by omega
    simp only [hk, dite_true] at h'
    have hnext : (s.storeField p update start ⟨k, hk⟩).publishers p =
      .store update start (k + 1) := Function.update_self ..
    have h'' := h'.step (.publisher p false) trivial
    rw [System.step, stepPublisher, hnext] at h''
    exact ih (s := s.storeField p update start ⟨k, hk⟩) h' hnext (by omega) h''

theorem Reachable.publish (h : Reachable initial s) (hq : s.Quiet p r) (update : α) :
    ∃ s', Reachable initial s' ∧ s'.Quiet p r ∧ s'.returned = s.returned ∧
      s'.history = s.history ++ [⟨nextGeneration s.cell.generation, update⟩] := by
  have h₁ := h.step (.publish p update) trivial
  rw [step_publish hq.publisher] at h₁
  have h₂ := h₁.step (.publisher p false) trivial
  rw [System.step, stepPublisher, setPublisher_publishers_self] at h₂
  have h₃ := h₂.step (.publisher p false) trivial
  rw [System.step, stepPublisher, setPublisher_publishers_self] at h₃
  simp only [maxSpins, setPublisher_cell, hq.generation, and_self] at h₃
  obtain ⟨s', hs', hready, hreaders, hret, hgen, hhist⟩ := h₃.stores (Function.update_self ..)
  refine ⟨s', hs', ⟨?_, hready, ?_⟩, hret, hhist⟩
  · have hfree := h.inv.free_of_not_isBusy hq.generation
    rw [hgen, hfree.generation, nextGeneration_generationOf, isBusy_generationOf]
  · rw [hreaders]
    exact hq.reader

theorem Reachable.loads (h : Reachable initial s)
    (hr : s.readers r = .load spins s.cell.generation values s.published) :
    ∃ s' snapshot, Reachable initial s' ∧ s'.cell = s.cell ∧ s'.publishers = s.publishers ∧
      s'.history = s.history ∧ (s'.readers r).Ready ∧ snapshot.generation = s.cell.generation ∧
      s'.returned r = s.returned r ++ [snapshot] := by
  obtain ⟨n, hn⟩ : ∃ n, n = count α - values.length := ⟨_, rfl⟩
  induction n generalizing s values
  all_goals
    have hfew : s.FewPublishes (.reader r) := by simp [FewPublishes, hr]
    have h' := h.step (.reader r) hfew
    rw [System.step, stepReader, hr] at h'
  case zero =>
    have hk : ¬values.length < count α := by omega
    simp only [hk, dite_false, if_true] at h'
    refine ⟨_, ⟨s.cell.generation, ofValues values⟩, h', rfl, rfl, rfl, ?_, rfl, ?_⟩
    · have hdone : (s.return r ⟨s.cell.generation, ofValues values⟩).readers r = .done _ :=
        Function.update_self ..
      rw [hdone]
      trivial
    · exact Function.update_self ..
  case succ n ih =>
    have hk : values.length < count α := by omega
    simp only [hk] at h'
    refine ih (s := s.setReader r _) h' (setReader_readers_self ..) ?_
    rw [length_append, length_singleton]
    omega

theorem Reachable.snapshot (h : Reachable initial s) (hq : s.Quiet p r) :
    ∃ s' snapshot, Reachable initial s' ∧ s'.Quiet p r ∧ s'.history = s.history ∧
      snapshot.generation = s.cell.generation ∧ s'.returned r = s.returned r ++ [snapshot] := by
  have h₁ := h.step (.snapshot r) trivial
  rw [step_snapshot hq.reader] at h₁
  have h₂ := h₁.step (.reader r) (by simp [FewPublishes])
  rw [System.step, stepReader, setReader_readers_self] at h₂
  simp only [setReader_cell, hq.generation, Bool.false_eq_true] at h₂
  obtain ⟨s', snapshot, hs', hcell, hpub, hhist, hready, hgen, hret⟩ :=
    h₂.loads (setReader_readers_self ..)
  refine ⟨s', snapshot, hs', ⟨?_, ?_, hready⟩, hhist, hgen, hret⟩
  · rw [hcell]
    exact hq.generation
  · rw [hpub]
    exact hq.publisher

theorem Reachable.publishes (h : Reachable initial s) (hq : s.Quiet p r) (n : Nat) :
    ∃ s', Reachable initial s' ∧ s'.Quiet p r ∧ s'.returned = s.returned ∧
      s'.published = s.published + n := by
  induction n
  case zero => exact ⟨s, h, hq, rfl, rfl⟩
  case succ n ih =>
    obtain ⟨s₁, h₁, hq₁, hret₁, hn₁⟩ := ih
    obtain ⟨s₂, h₂, hq₂, hret₂, hhist⟩ := h₁.publish hq₁ initial
    refine ⟨s₂, h₂, hq₂, hret₂.trans hret₁, ?_⟩
    have hlen := published_add_one h₁.inv.nonempty
    rw [published, hhist, length_append, length_singleton]
    omega

-- Each snapshot is of one publish with its generation, without the busy bit, and later snapshots
-- of a reader are not of earlier publishes.
theorem snapshot_of_publish {ι ρ : Type} [DecidableEq ι] [DecidableEq ρ] :
    (∀ s : System ScanoutStateUpdate ι ρ, Reachable .new s → s.Snapshots .new) ∧
    (∀ s : System CursorStateUpdate ι ρ, Reachable .new s → s.Snapshots .new) :=
  ⟨fun _ h => h.inv.snapshots, fun _ h => h.inv.snapshots⟩

theorem snapshot_of_publish_first : ∃ s : System ScanoutStateUpdate Unit Unit,
    Reachable .new s ∧ s.Snapshots .new ∧ s.published = 1 ∧
      (s.returned ()).map Snapshot.generation = [1] := by
  have h₀ : Reachable .new (init ScanoutStateUpdate.new : System _ Unit Unit) := .start
  obtain ⟨s₁, h₁, hq₁, hret₁, hn₁⟩ := h₀.publishes (.init _ () ()) 1
  obtain ⟨s₂, snapshot, h₂, -, hhist, hgen, hret⟩ := h₁.snapshot hq₁
  refine ⟨s₂, h₂, snapshot_of_publish.1 s₂ h₂, ?_, ?_⟩
  · rw [published, hhist]
    exact hn₁
  · have hfree := h₁.inv.free_of_not_isBusy hq₁.generation
    rw [hret, hret₁, map_append, map_singleton, hgen, hfree.generation, hn₁]
    rfl

-- After `2 ^ 31` publishes the generation starts again from zero.
theorem generation_decreases : ∃ s : System ScanoutStateUpdate Unit Unit,
    Reachable .new s ∧
      (s.returned ()).map Snapshot.generation = [0x7FFF_FFFF, 0] := by
  have h₀ : Reachable .new (init ScanoutStateUpdate.new : System _ Unit Unit) := .start
  obtain ⟨s₁, h₁, hq₁, hret₁, hn₁⟩ := h₀.publishes (.init _ () ()) (2 ^ 31 - 1)
  obtain ⟨s₂, a, h₂, hq₂, hhist₂, hgen₂, hret₂⟩ := h₁.snapshot hq₁
  obtain ⟨s₃, h₃, hq₃, hret₃, hn₃⟩ := h₂.publishes hq₂ 1
  obtain ⟨s₄, b, h₄, -, -, hgen₄, hret₄⟩ := h₃.snapshot hq₃
  have hn₂ : s₂.published = s₁.published := by rw [published, hhist₂, published]
  have hfree₁ := h₁.inv.free_of_not_isBusy hq₁.generation
  have hfree₃ := h₃.inv.free_of_not_isBusy hq₃.generation
  refine ⟨s₄, h₄, ?_⟩
  rw [hret₄, hret₃, hret₂, hret₁, map_append, map_append, map_singleton,
    map_singleton, hgen₂, hgen₄, hfree₁.generation, hfree₃.generation, hn₃, hn₂, hn₁]
  rfl

end System

end Aero.Shared

import Aero.Time.Theorems.Advance

namespace Aero.Time

open TimerScheduler

variable {s : TimerScheduler} {σ : Schedule} {op : Op}

section Arming

variable {id : Nat} {a : Arming}

def TimerScheduler.stepArming (s : TimerScheduler) (id : Nat) :
    Except TimerError Arming → Except Panic (Result × TimerScheduler)
  | .error e => .ok (s.settle (.error e))
  | .ok a    => (s.arm id (a.state 0)).map s.settle

theorem stepArming_rational (base first num denom : Nat) :
    s.stepArming id (Op.arming.rational base first num denom) =
      (s.armPeriodicRationalFromBaseNs id base first num denom).map s.settle := by
  rw [armPeriodicRationalFromBaseNs, Op.arming.rational]
  split_ifs
  · rfl
  · rfl

theorem step_of_arming (h : op.arming = some (id, r)) : s.step op = s.stepArming id r := by
  cases op <;> simp only [Op.arming] at h
  all_goals obtain ⟨rfl, rfl⟩ := h
  case armOneShot => rfl
  case armPeriodic =>
    rw [step, armPeriodic]
    split_ifs
    · rfl
    · rw [stepArming, Arming.state, Nat.zero_mul, Nat.add_zero]
  case armPeriodicRationalNs => exact (stepArming_rational ..).symm
  case armPeriodicRationalFromBaseNs => exact (stepArming_rational ..).symm
  case armPeriodicRationalFromNowNs => exact (stepArming_rational ..).symm

theorem proper_of_rational {base i num denom : U64}
    (h : Op.arming.rational base.toNat i.toNat num.toNat denom.toNat = .ok a) :
    a.Proper ∧ ∀ d, (a.state 0).deadlineNs = .ok d → d = a.time 0 ∧ a.Fits 0 := by
  rw [Op.arming.rational] at h
  split_ifs at h with hzero
  cases h
  have hnum := Nat.pos_of_ne_zero fun h => hzero (.inl h)
  have hdenom := Nat.pos_of_ne_zero fun h => hzero (.inr h)
  refine ⟨⟨base.isLt, hnum, num.isLt, hdenom, denom.isLt⟩, fun d hd => ?_⟩
  obtain ⟨hlt, rfl⟩ := rationalDeadlineNs_eq_ok_iff.mp hd
  refine ⟨rfl, hlt, rfl, fun _ _ _ _ heq => ?_⟩
  cases heq
  exact i.isLt

theorem proper_of_arming (h : op.arming = some (id, .ok a)) :
    a.Proper ∧ ∀ d, (a.state 0).deadlineNs = .ok d → d = a.time 0 ∧ a.Fits 0 := by
  cases op <;> simp only [Op.arming, Option.some.injEq, Prod.mk.injEq, reduceCtorEq] at h
  case armOneShot timerId deadline =>
    obtain ⟨-, h⟩ := h
    cases h
    refine ⟨deadline.isLt, fun d hd => ?_⟩
    cases hd
    exact ⟨rfl, deadline.isLt, rfl, fun _ _ _ _ ha => by cases ha⟩
  case armPeriodic timerId first period =>
    obtain ⟨-, h⟩ := h
    split_ifs at h with hzero
    cases h
    refine ⟨⟨Nat.pos_of_ne_zero hzero, period.isLt⟩, fun d hd => ?_⟩
    have htime : (Arming.periodic first.toNat period.toNat).time 0 = first.toNat := by
      rw [Arming.time, Nat.zero_mul, Nat.add_zero]
    have hd' := Except.ok.inj hd
    exact ⟨hd'.symm, htime.trans_lt first.isLt, rfl, fun _ _ _ _ ha => by cases ha⟩
  case armPeriodicRationalNs timerId first num denom =>
    exact proper_of_rational (i := 0) h.2
  case armPeriodicRationalFromBaseNs => exact proper_of_rational h.2
  case armPeriodicRationalFromNowNs timerId now num denom =>
    exact proper_of_rational (i := 1) h.2

end Arming

abbrev Fired := Except Panic (List (Nat × Nat) × (Nat → Option (Arming × Nat)))

def Op.nowNs : Op → Nat
  | .advanceTo nowNs => nowNs.toNat
  | _                => 0

def Schedule.answerArming (σ : Schedule) (timerId : Nat) :
    Except TimerError Arming → Except Panic Result
  | .error e => .ok (.done (.error e))
  | .ok a    =>
    if σ.known timerId then (a.state 0).deadlineNs.map fun _ => .done (.ok ())
    else .ok (.done (.error (.unknownTimer timerId)))

-- What an operation answers, as the schedule has it. The events are told by the firing.
def Schedule.answer (σ : Schedule) (fired : Fired) (op : Op) : Except Panic Result :=
  match op, op.arming with
  | .allocTimer, _ => (checkedAdd σ.nextTimerId 1 "timer id overflowed u64::MAX").map .timer
  | .disarm timerId, _ =>
    .ok (.done (if σ.known timerId.toNat then .ok () else .error (.unknownTimer timerId.toNat)))
  | .advanceTo _, _ => fired.map fun p => .events (p.1.map fun e => ⟨e.1, e.2⟩)
  | _, some (timerId, r) => σ.answerArming timerId r
  | _, none => .ok (.done (.ok ()))

theorem Schedule.record_arming {id : Nat} (hop : op.arming = some (id, .ok a)) :
    σ.record op (.done (.ok ())) =
      { σ with armed := Function.update σ.armed id (some (a, 0)) } := by
  simp only [record, hop]

theorem Schedule.answer_of_arming {id : Nat} (hop : op.arming = some (id, r)) :
    σ.answer fired op = σ.answerArming id r := by
  cases op <;> simp only [Op.arming, reduceCtorEq] at hop
  all_goals
    obtain ⟨rfl, rfl⟩ := hop
    rfl

inductive Steps (σ : Schedule) (op : Op) :
    Except Panic (Result × TimerScheduler) → Except Panic Result → Prop
  | error (e : Panic) : Steps σ op (.error e) (.error e)
  | ok {s : TimerScheduler} {result : Result} (h : Refines s (σ.observe op result)) :
    Steps σ op (.ok (result, s)) (.ok result)

namespace Refines

section

variable (h : Refines s σ)
include h

theorem armed_of_not_known {id : Nat} (hk : σ.known id = false) : σ.armed id = none := by
  cases hp : σ.armed id
  case none => rfl
  case some p =>
    rw [h.armed_known id p hp] at hk
    cases hk

theorem setNextTimerId {id : Nat} (hle : σ.nextTimerId ≤ id) (hlt : id < 2 ^ 64) :
    Refines { s with nextTimerId := id } { σ with nextTimerId := id } :=
  { h with
    nextTimerId := rfl
    nextTimerId_lt := hlt
    known_le := fun j hj => (h.known_le j hj).trans hle }

theorem call (hlt : σ.calls + 1 < 2 ^ 63) : Refines s σ.call :=
  { h with
    calls_lt := hlt
    generation := fun id slot hslot =>
      Nat.le_trans (h.generation id slot hslot) (Nat.mul_le_mul_left 2 (Nat.le_succ _)) }

theorem allocTimer (fired : Fired) (hlt : σ.calls + 1 < 2 ^ 63) :
    Steps σ .allocTimer (s.step .allocTimer) (σ.answer fired .allocTimer) := by
  have hknown : σ.known (σ.nextTimerId + 1) = false := by
    by_contra hk
    have hle := h.known_le _ (Bool.of_not_eq_false hk)
    omega
  simp only [step, TimerScheduler.allocTimer, Schedule.answer, h.nextTimerId]
  by_cases hid : σ.nextTimerId + 1 < 2 ^ 64
  · simp only [checkedAdd_of_lt hid, bind, Except.bind, h.lookup_of_not_known hknown]
    refine .ok ?_
    have hset := ((h.call hlt).setNextTimerId (Nat.le_succ _) hid).clear (g := 0) le_rfl
      (Nat.zero_le _) fun e he hid => absurd hid (h.not_mem_of_not_known hknown he)
    have harmed : Function.update σ.call.armed σ.call.nextTimerId.succ none = σ.call.armed :=
      Function.update_eq_self_iff.mpr (h.armed_of_not_known hknown).symm
    simp only [Schedule.set, harmed] at hset
    exact hset
  · simp only [checkedAdd, if_neg hid, bind]
    exact .error _

theorem stepArming (fired : Fired) (hlt : σ.calls + 1 < 2 ^ 63) {id : Nat} (hop : op.arming = some (id, r)) :
    Steps σ op (s.step op) (σ.answer fired op) := by
  rw [Schedule.answer_of_arming hop, step_of_arming hop]
  cases r
  case error e => exact .ok (h.call hlt)
  case ok a =>
    obtain ⟨ha, hfits⟩ := proper_of_arming hop
    rw [TimerScheduler.stepArming, TimerScheduler.arm, Schedule.answerArming]
    cases hk : σ.known id
    case false =>
      rw [h.lookup_of_not_known hk]
      exact .ok (h.call hlt)
    case true =>
      obtain ⟨slot, hslot⟩ := h.lookup_of_known hk
      rw [hslot]
      cases hd : (a.state 0).deadlineNs
      case error e =>
        exact .error e
      case ok d =>
        obtain ⟨rfl, hfits⟩ := hfits d hd
        refine .ok ?_
        obtain ⟨hgen, hg⟩ := h.fresh_generation hslot
        have hset := (h.call hlt).arm (h.known_le id hk) hgen hg ha hfits
        rw [Schedule.set_of_known (σ := σ.call) hk] at hset
        rw [Schedule.observe, Schedule.record_arming hop]
        exact hset

theorem stepDisarm (fired : Fired) (hlt : σ.calls + 1 < 2 ^ 63) (id : U64) :
    Steps σ (.disarm id) (s.step (.disarm id)) (σ.answer fired (.disarm id)) := by
  rw [step, disarm, Schedule.answer]
  cases hk : σ.known id.toNat
  case false =>
    rw [h.lookup_of_not_known hk]
    exact .ok (h.call hlt)
  case true =>
    obtain ⟨slot, hslot⟩ := h.lookup_of_known hk
    rw [hslot]
    refine .ok ?_
    obtain ⟨hgen, hg⟩ := h.fresh_generation hslot
    have hset := (h.call hlt).clear (h.known_le _ hk) (Nat.le_of_succ_le hgen) hg
    rwa [Schedule.set_of_known (σ := σ.call) hk] at hset

theorem stepAdvanceTo (nowNs : U64) (hlt : σ.calls + 1 < 2 ^ 63) {fired : Fired}
    (hfired : Firing.Advances source nowNs.toNat σ.armed fired) :
    Steps σ (.advanceTo nowNs) (s.step (.advanceTo nowNs)) (σ.answer fired (.advanceTo nowNs)) := by
  obtain ⟨r, hadv, hsim⟩ := h.advanceTo nowNs.toNat
  obtain rfl := hfired.unique hadv
  rw [step]
  generalize s.advanceTo nowNs.toNat = c at hsim
  cases hsim
  case error e => exact .error e
  case ok s' events armed hs =>
    refine .ok ?_
    have harmed : armed = fun id => (σ.armed id).bind fun p => p.1.remaining
        (p.2 + ((events.map fun p => (⟨p.1, p.2⟩ : TimerEvent)).filter (·.timerId = id)).length) := by
      funext id
      rw [h.armed_of_advances hadv id, List.filter_map, List.length_map]
      rfl
    rw [harmed] at hs
    exact hs.call hlt

theorem step (hlt : σ.calls + 1 < 2 ^ 63) {fired : Fired} (hfired : Firing.Advances source op.nowNs σ.armed fired) :
    Steps σ op (s.step op) (σ.answer fired op) := by
  cases op
  case allocTimer => exact h.allocTimer fired hlt
  case disarm id => exact h.stepDisarm fired hlt id
  case advanceTo nowNs => exact h.stepAdvanceTo nowNs hlt hfired
  all_goals exact h.stepArming fired hlt rfl

end

end Refines

theorem Schedule.calls_observe (σ : Schedule) (op : Op) (result : Result) :
    (σ.observe op result).calls = σ.calls + 1 := by
  unfold observe record
  split
  case h_3 => split <;> rfl
  all_goals rfl

theorem Steps.congr (h : Steps σ op c answer) (h' : Steps σ op c' answer) :
    (∃ e, c = .error e ∧ c' = .error e) ∨
    ∃ result s s', c = .ok (result, s) ∧ c' = .ok (result, s') ∧
      Refines s (σ.observe op result) ∧ Refines s' (σ.observe op result) := by
  cases h
  case error e =>
    cases h'
    exact .inl ⟨e, rfl, rfl⟩
  case ok hs =>
    cases h' with
    | ok hs' => exact .inr ⟨_, _, _, rfl, rfl, hs, hs'⟩

namespace Refines

theorem run_congr (h : Refines s σ) (h' : Refines t σ) (ops : List Op)
    (hcalls : σ.calls + ops.length < 2 ^ 63) :
    (s.run ops).map (·.1) = (t.run ops).map (·.1) := by
  induction ops generalizing s t σ
  case nil => rfl
  case cons op ops ih =>
    obtain ⟨fired, hfired, -⟩ := h.advanceTo op.nowNs
    rw [List.length_cons] at hcalls
    have hlt : σ.calls + 1 < 2 ^ 63 := by omega
    rw [run, run]
    rcases (h.step hlt hfired).congr (h'.step hlt hfired) with ⟨e, hs, ht⟩ | ⟨result, s', t', hs, ht, hs', ht'⟩
    · rw [hs, ht]
    · have hrest := ih hs' ht' (by rw [Schedule.calls_observe]; omega)
      simp only [hs, ht, bind, Except.bind]
      cases hrs : s'.run ops <;> cases hrt : t'.run ops <;> rw [hrs, hrt] at hrest
      case error.error =>
        cases hrest
        rfl
      case error.ok => cases hrest
      case ok.error => cases hrest
      case ok.ok =>
        exact congrArg (fun results => (.ok (result :: results) : Except Panic _))
          (Except.ok.inj hrest)

theorem run (h : Refines s σ) (hcalls : σ.calls + ops.length < 2 ^ 63)
    (hrun : s.run ops = .ok (results, s')) : Refines s' (σ.observeAll ops results) ∧
      (σ.observeAll ops results).calls = σ.calls + ops.length := by
  induction ops generalizing s σ results
  case nil =>
    cases hrun
    exact ⟨h, rfl⟩
  case cons op ops ih =>
    obtain ⟨fired, hfired, -⟩ := h.advanceTo op.nowNs
    obtain ⟨⟨result, t⟩, hstep, hrun⟩ := Except.bind_eq_ok_iff.mp hrun
    obtain ⟨⟨rest, t'⟩, hrest, hok⟩ := Except.bind_eq_ok_iff.mp hrun
    cases hok
    rw [List.length_cons] at hcalls ⊢
    have hs := h.step (by omega) hfired
    generalize σ.answer fired op = answer at hs
    rw [hstep] at hs
    cases hs with
    | ok ht =>
      have hc := σ.calls_observe op result
      obtain ⟨hs', hcount⟩ := ih ht (by omega) hrest
      exact ⟨hs', by rw [Schedule.observeAll, hcount]; omega⟩

theorem answerArming_error {id : Nat} (he : σ.answerArming id r = .error e) : e.IsOverflow := by
  cases r
  case error => cases he
  case ok a =>
    rw [Schedule.answerArming] at he
    split_ifs at he
    cases hd : (a.state 0).deadlineNs <;> rw [hd] at he <;> cases he
    exact deadlineNs_error hd

theorem answer_error (h : Refines s σ) {fired : Fired}
    (hfired : Firing.Advances source op.nowNs σ.armed fired) (he : σ.answer fired op = .error e) :
    e.IsOverflow := by
  cases op
  case allocTimer =>
    rw [Schedule.answer] at he
    cases hid : checkedAdd σ.nextTimerId 1 "timer id overflowed u64::MAX" <;> rw [hid] at he <;>
      cases he
    exact checkedAdd_error hid
  case disarm => cases he
  case advanceTo nowNs =>
    cases fired <;> cases he
    exact (h.overflow_of_advances hfired).1
  all_goals
    rw [Schedule.answer_of_arming rfl] at he
    exact answerArming_error he

theorem run_error (h : Refines s σ) (hcalls : σ.calls + ops.length < 2 ^ 63) (hrun : s.run ops = .error e) : e.IsOverflow := by
  induction ops generalizing s σ
  case nil => cases hrun
  case cons op ops ih =>
    obtain ⟨fired, hfired, -⟩ := h.advanceTo op.nowNs
    rw [List.length_cons] at hcalls
    have hs := h.step (by omega) hfired
    rw [TimerScheduler.run] at hrun
    generalize hanswer : σ.answer fired op = answer at hs
    generalize s.step op = c at hs hrun
    cases hs
    case error =>
      cases hrun
      exact h.answer_error hfired hanswer
    case ok t result ht =>
      simp only [bind, Except.bind] at hrun
      cases hrest : t.run ops <;> rw [hrest] at hrun <;> cases hrun
      exact ih ht (by rw [Schedule.calls_observe]; omega) hrest

end Refines

end Aero.Time

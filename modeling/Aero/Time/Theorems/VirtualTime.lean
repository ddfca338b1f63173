import Aero.Time.Theorems.Restore

namespace Aero.Time

open LeBytes Parse IoSnapshot SnapshotReader
open BitVec (ofNat)
open VirtualTime (deviceId deviceVersion saveState)

variable {rest : List U8}

def TimerKindState.Encodable : TimerKindState → Prop
  | .oneShot deadlineNs => deadlineNs < 2 ^ 64
  | .periodic nextDeadlineNs periodNs => nextDeadlineNs < 2 ^ 64 ∧ 0 < periodNs ∧ periodNs < 2 ^ 64
  | .periodicRational baseDeadlineNs nextIndex periodNumNs periodDenom =>
    baseDeadlineNs < 2 ^ 64 ∧ nextIndex < 2 ^ 64 ∧ (0 < periodNumNs ∧ periodNumNs < 2 ^ 64) ∧
      0 < periodDenom ∧ periodDenom < 2 ^ 64

structure TimerState.Encodable (timer : TimerState) : Prop where
  timerId : timer.timerId < 2 ^ 64
  kind : ∀ kind, timer.kind = some kind → kind.Encodable

theorem Arming.encodable_state {a : Arming} (ha : a.Proper) (hn : a.Fits n) :
    (a.state n).Encodable := by
  cases a
  case oneShot => exact ha
  case periodic => exact ⟨hn.time_lt, ha⟩
  case periodicRational =>
    obtain ⟨hbase, hnum, hnum', hdenom, hdenom'⟩ := ha
    exact ⟨hbase, hn.index_lt _ _ _ _ rfl, ⟨hnum, hnum'⟩, hdenom, hdenom'⟩

theorem run_decodeU64_ofNat (h : v < 2 ^ 64) :
    decodeU64.run (toLe 8 v ++ rest) = .ok (ofNat 64 v, rest) := by
  have hrun : decodeU64.run (toLe 8 (ofNat 64 v).toNat ++ rest) = _ := run_decodeU64 _
  rwa [toNat_ofNat_of_lt h] at hrun

theorem ofNat_ne_zero (h : v < 2 ^ 64) (hpos : 0 < v) : ofNat 64 v ≠ 0 := by
  intro hzero
  have hv := toNat_ofNat_of_lt h
  rw [hzero] at hv
  exact absurd hv.symm hpos.ne'

section Kinds

theorem run_decodeOneShot (h : deadline < 2 ^ 64) :
    (decodeTimerKind timerKindOneShot).run (toLe 8 deadline ++ rest) =
      .ok (some (.oneShot deadline), rest) := by
  rw [decodeTimerKind, if_neg (by decide), if_pos rfl, run_bind_of_ok (run_decodeU64_ofNat h),
    toNat_ofNat_of_lt h]
  rfl

theorem run_decodePeriodic (hnext : next < 2 ^ 64) (hpos : 0 < period) (hperiod : period < 2 ^ 64) :
    (decodeTimerKind timerKindPeriodic).run (toLe 8 next ++ (toLe 8 period ++ rest)) =
      .ok (some (.periodic next period), rest) := by
  rw [decodeTimerKind, if_neg (by decide), if_neg (by decide), if_pos rfl,
    run_bind_of_ok (run_decodeU64_ofNat hnext), run_bind_of_ok (run_decodeU64_ofNat hperiod),
    if_neg (ofNat_ne_zero hperiod hpos), toNat_ofNat_of_lt hnext, toNat_ofNat_of_lt hperiod]
  rfl

theorem run_decodePeriodicRational (hbase : base < 2 ^ 64) (hindex : index < 2 ^ 64)
    (hnum : 0 < num ∧ num < 2 ^ 64) (hdenom : 0 < denom ∧ denom < 2 ^ 64) :
    (decodeTimerKind timerKindPeriodicRational).run
      (toLe 8 base ++ (toLe 8 index ++ (toLe 8 num ++ (toLe 8 denom ++ rest)))) =
      .ok (some (.periodicRational base index num denom), rest) := by
  have hzero := not_or.mpr ⟨ofNat_ne_zero hnum.2 hnum.1, ofNat_ne_zero hdenom.2 hdenom.1⟩
  rw [decodeTimerKind, if_neg (by decide), if_neg (by decide), if_neg (by decide), if_pos rfl,
    run_bind_of_ok (run_decodeU64_ofNat hbase), run_bind_of_ok (run_decodeU64_ofNat hindex),
    run_bind_of_ok (run_decodeU64_ofNat hnum.2), run_bind_of_ok (run_decodeU64_ofNat hdenom.2),
    if_neg hzero, toNat_ofNat_of_lt hbase, toNat_ofNat_of_lt hindex, toNat_ofNat_of_lt hnum.2, toNat_ofNat_of_lt hdenom.2]
  rfl

end Kinds

theorem run_decodeTimer (h : timer.Encodable) :
    decodeTimer.run (encodeTimer timer ++ rest) = .ok (timer, rest) := by
  obtain ⟨id, kind⟩ := timer
  obtain ⟨hid, hkind⟩ := h
  rw [decodeTimer, encodeTimer, List.append_assoc, run_bind_of_ok (run_decodeU64_ofNat hid),
    toNat_ofNat_of_lt hid]
  cases kind
  case none => rfl
  case some kind =>
    have hkind := hkind kind rfl
    cases kind
    case oneShot =>
      rw [List.cons_append, run_bind_of_ok (run_decodeU8 _),
        run_bind_of_ok (run_decodeOneShot hkind)]
      rfl
    case periodic =>
      obtain ⟨hnext, hpos, hperiod⟩ := hkind
      simp only [List.cons_append, List.append_assoc]
      rw [run_bind_of_ok (run_decodeU8 _), run_bind_of_ok (run_decodePeriodic hnext hpos hperiod)]
      rfl
    case periodicRational =>
      obtain ⟨hbase, hindex, hnum, hdenom⟩ := hkind
      simp only [List.cons_append, List.append_assoc]
      rw [run_bind_of_ok (run_decodeU8 _),
        run_bind_of_ok (run_decodePeriodicRational hbase hindex hnum hdenom)]
      rfl

theorem run_decodeTimers {timers : List TimerState} (h : ∀ timer ∈ timers, timer.Encodable) :
    (decodeTimers timers.length).run (timers.flatMap encodeTimer ++ rest) = .ok (timers, rest) := by
  induction timers
  case nil => rfl
  case cons timer timers ih =>
    obtain ⟨htimer, htimers⟩ := List.forall_mem_cons.mp h
    rw [List.length_cons, decodeTimers, List.flatMap_cons, List.append_assoc,
      run_bind_of_ok (run_decodeTimer htimer), run_bind_of_ok (ih htimers)]
    rfl

section Snapshot

theorem length_encodeTimer_le (timer : TimerState) : (encodeTimer timer).length ≤ 41 := by
  obtain ⟨id, _ | _ | _ | _⟩ := timer <;>
    simp only [encodeTimer, List.length_append, List.length_cons, List.length_nil, length_toLe] <;>
    omega

theorem length_encodeTimers_le (timers : List TimerState) :
    (timers.flatMap encodeTimer).length ≤ timers.length * 41 := by
  induction timers
  case nil => simp
  case cons timer timers ih =>
    have htimer := length_encodeTimer_le timer
    rw [List.flatMap_cons, List.length_append, List.length_cons]
    omega

theorem decode_encode (hnext : state.nextTimerId < 2 ^ 64)
    (hcount : state.timers.length ≤ maxSnapshotTimers)
    (htimers : ∀ timer ∈ state.timers, timer.Encodable) :
    ∃ bytes, encodeTimerSchedulerState state = .ok bytes ∧ bytes.length < 2 ^ 32 ∧
      decodeTimerSchedulerState bytes = .ok state := by
  rw [maxSnapshotTimers] at hcount
  have hlt : state.timers.length < 2 ^ 32 := by omega
  have hlen := toNat_ofNat_of_lt hlt
  refine ⟨_, if_pos hlt, ?_, ?_⟩
  · have hle := length_encodeTimers_le state.timers
    rw [List.length_append, List.length_append, length_toLe, length_toLe]
    omega
  · have htimers : (decodeTimers state.timers.length).run (state.timers.flatMap encodeTimer ++ []) =
        .ok (state.timers, []) := run_decodeTimers htimers
    rw [List.append_nil] at htimers
    rw [decodeTimerSchedulerState, decodeState, List.append_assoc,
      run_bind_of_ok (run_decodeU64_ofNat hnext), toNat_ofNat_of_lt hnext, ← hlen,
      run_bind_of_ok (run_decodeU32 _), hlen, maxSnapshotTimers, if_neg (by omega),
      run_bind_of_ok htimers]
    rfl

end Snapshot

namespace Refines

variable {s : TimerScheduler}

theorem encodable (h : Refines s σ) : ∀ timer ∈ s.saveState.timers, timer.Encodable := by
  intro timer hmem
  have hknown := (h.saved.known timer.timerId).mp (List.mem_map_of_mem hmem)
  refine ⟨(h.known_le _ hknown).trans_lt h.nextTimerId_lt, fun kind hkind => ?_⟩
  rw [h.saved.kind timer hmem, Option.map_eq_some_iff] at hkind
  obtain ⟨⟨a, n⟩, hp, rfl⟩ := hkind
  obtain ⟨ha, hn⟩ := h.armed_fits _ a n hp
  exact Arming.encodable_state ha hn

theorem length_saveState : s.saveState.timers.length = s.timers.entries.length := by
  rw [TimerScheduler.saveState, List.length_mergeSort, List.length_map]

def snapshotFields (nowNs : U64) (buf : List U8) : Fields :=
  [(tagNowNs, toLe 8 nowNs.toNat), (tagTimerScheduler, buf)]

theorem parse_snapshot (hlen : buf.length < 2 ^ 32) :
    parse (SnapshotWriter.finish ⟨deviceId, deviceVersion, snapshotFields nowNs buf⟩) deviceId =
      .ok ⟨deviceVersion, snapshotFields nowNs buf⟩ := by
  have hcount : (snapshotFields nowNs buf).length ≤ maxFields := (by decide : 2 ≤ maxFields)
  have hnodup : ((snapshotFields nowNs buf).map (·.1)).Nodup :=
    (by decide : [tagNowNs, tagTimerScheduler].Nodup)
  have hfields : ∀ field ∈ snapshotFields nowNs buf, field.2.length < 2 ^ 32 := by
    intro field hmem
    rw [snapshotFields, List.mem_pair] at hmem
    rcases hmem with rfl | rfl
    · rw [length_toLe]
      decide
    · exact hlen
  exact parse_finish rfl hcount hfields hnodup

theorem loadState (h : Refines s σ) (hcount : s.timers.entries.length ≤ maxSnapshotTimers)
    (nowNs : U64) (v : VirtualTime) :
    ∃ bytes t, (⟨nowNs, s⟩ : VirtualTime).saveState = .ok bytes ∧
      v.loadState bytes = .ok (.ok (), ⟨nowNs, t⟩) ∧ Refines t σ := by
  have hnext := h.nextTimerId.trans_lt h.nextTimerId_lt
  obtain ⟨buf, hencode, hlen, hdecode⟩ := decode_encode hnext
    (length_saveState.trans_le hcount) h.encodable
  obtain ⟨t, hrestore, ht⟩ := h.restoreState h.saved
  refine ⟨SnapshotWriter.finish ⟨deviceId, deviceVersion, snapshotFields nowNs buf⟩, t, ?_, ?_, ht⟩
  · rw [saveState, hencode]
    rfl
  · have hnow : ofNat 64 (ofLe (toLe 8 nowNs.toNat)) = nowNs := by
      rw [ofLe_toLe nowNs.isLt, BitVec.ofNat_toNat, BitVec.setWidth_eq]
    have hu64 : u64 ⟨deviceVersion, snapshotFields nowNs buf⟩ tagNowNs =
        .ok (some nowNs) := by
      have hfield : bytes ⟨deviceVersion, snapshotFields nowNs buf⟩
          tagNowNs = some (toLe 8 nowNs.toNat) := rfl
      rw [u64, hfield]
      dsimp only
      rw [if_neg (not_not.mpr (length_toLe ..)), hnow]
    have hbytes : bytes ⟨deviceVersion, snapshotFields nowNs buf⟩
        tagTimerScheduler = some buf := rfl
    have hmajor : ensureDeviceMajor ⟨deviceVersion, snapshotFields nowNs buf⟩
      deviceVersion.major = .ok () := rfl
    rw [VirtualTime.loadState, parse_snapshot hlen]
    simp only [bind, Except.bind, pure, Except.pure, hmajor, hu64, hbytes, hdecode, hrestore]
    rfl

end Refines

end Aero.Time

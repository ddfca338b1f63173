import Aero.Audio.Ring
import Aero.Lib.WrapRing
import Aero.Lib.Runs

namespace Aero.Audio

open Runs ByteStore
open BitVec (add_comm add_zero ofNat ofNat_add sub_self toNat_ofNat)
open List (append_nil drop_eq_nil_of_le drop_zero length_append length_drop length_replicate
  mem_cons replicate take_of_length_le)

theorem clamp_bounds (value : Nat) (h : lo ≤ hi) :
    lo ≤ clamp value lo hi ∧ clamp value lo hi ≤ hi := by
  rw [clamp]
  split
  · omega
  · split <;> omega

theorem frames_le (h : n ≤ len % 2 ^ 32 / cc) : n * cc ≤ len :=
  calc n * cc ≤ len % 2 ^ 32 / cc * cc := Nat.mul_le_mul_right cc h
    _ ≤ len % 2 ^ 32 := Nat.div_mul_le_self ..
    _ ≤ len := Nat.mod_le ..

section Copies

theorem copyIn_eq : copyIn c cc pos count storage samples =
    WrapRing.put (c * cc) (pos * cc) storage (samples.take (count * cc)) := by
  rw [copyIn, WrapRing.put, ← Nat.sub_mul, List.take_take, List.drop_take]
  by_cases hfit : count ≤ c - pos
  case pos =>
    have hle := Nat.mul_le_mul_right cc hfit
    rw [Nat.min_eq_left hfit, Nat.sub_self, if_neg (Nat.lt_irrefl 0), Nat.min_eq_right hle,
      Nat.sub_eq_zero_of_le hle, List.take_zero, write_nil]
  case neg =>
    have hle : (c - pos) * cc ≤ count * cc := Nat.mul_le_mul_right cc (by omega)
    rw [Nat.min_eq_right (by omega), if_pos (by omega), Nat.min_eq_left hle, ← Nat.sub_mul]

theorem copyOut_eq :
    copyOut c cc pos count storage = WrapRing.get (c * cc) (pos * cc) (count * cc) storage := by
  rw [copyOut, WrapRing.get, ← Nat.sub_mul, ← Nat.sub_mul, Nat.mul_min_mul_right]
  by_cases hfit : count ≤ c - pos
  case pos =>
    rw [Nat.min_eq_left hfit, Nat.sub_self, Nat.sub_eq_zero_of_le hfit, Nat.zero_mul]
    rfl
  case neg => rw [Nat.min_eq_right (by omega), if_pos (by omega)]

theorem copyIn_zero : copyIn c cc pos 0 storage samples = storage := by
  rw [copyIn, Nat.zero_min, Nat.zero_mul, List.take_zero, write_nil, if_neg (Nat.lt_irrefl 0)]

theorem copyOut_zero : copyOut c cc pos 0 storage = [] := by
  rw [copyOut, Nat.zero_min, Nat.zero_mul]
  rfl

end Copies

def Tracks (c cc : Nat) (readIdx writeIdx : U32) (storage : Nat → Sample) (q : List Sample) :
    Prop :=
  ∃ r level, readIdx = BitVec.ofNat 32 r ∧ writeIdx = BitVec.ofNat 32 (r + level) ∧ level ≤ c ∧
    q.length = level * cc ∧ WrapRing.Holds (c * cc) (r * cc) storage q

namespace Tracks

theorem empty : Tracks c cc 0 0 storage [] :=
  ⟨0, 0, rfl, rfl, Nat.zero_le c, (Nat.zero_mul cc).symm, .nil⟩

theorem available (h : Tracks c cc readIdx writeIdx storage q) (hcc : 0 < cc) (hlt : c < 2 ^ 32) :
    (writeIdx - readIdx).toNat = q.length / cc ∧ q.length / cc ≤ c := by
  obtain ⟨r, level, rfl, rfl, hlevel, hlen, -⟩ := h
  rw [hlen, Nat.mul_div_cancel level hcc]
  refine ⟨?_, hlevel⟩
  rw [BitVec.toNat_sub, toNat_ofNat, toNat_ofNat]
  omega

theorem position (hdvd : c ∣ 2 ^ 32) (k : Nat) :
    (ofNat 32 k).toNat % c * cc = k * cc % (c * cc) := by
  rw [toNat_ofNat, Nat.mod_mod_of_dvd k hdvd, Nat.mul_mod_mul_right]

theorem put (h : Tracks c cc readIdx writeIdx storage q) (hc : 0 < c) (hcc : 0 < cc)
    (hdvd : c ∣ 2 ^ 32) (hfree : q.length / cc + n ≤ c) (hlen : n * cc ≤ samples.length) :
    Tracks c cc readIdx (writeIdx + ofNat 32 n)
      (copyIn c cc (writeIdx.toNat % c) n storage samples) (q ++ samples.take (n * cc)) := by
  obtain ⟨r, level, rfl, rfl, hlevel, hq, hholds⟩ := h
  rw [hq, Nat.mul_div_cancel level hcc] at hfree
  have htake : (samples.take (n * cc)).length = n * cc := by
    rw [List.length_take, Nat.min_eq_left hlen]
  refine ⟨r, level + n, rfl, ?_, hfree, ?_, ?_⟩
  · rw [← ofNat_add, Nat.add_assoc]
  · rw [length_append, hq, htake, Nat.add_mul]
  · rw [copyIn_eq, position hdvd, Nat.add_mul, ← hq]
    refine hholds.put (Nat.mul_pos hc hcc) ?_
    rw [hq, htake, ← Nat.add_mul]
    exact Nat.mul_le_mul_right cc hfree

theorem get (h : Tracks c cc readIdx writeIdx storage q) (hc : 0 < c) (hcc : 0 < cc)
    (hdvd : c ∣ 2 ^ 32) (hn : n ≤ q.length / cc) :
    copyOut c cc (readIdx.toNat % c) n storage = q.take (n * cc) ∧
      Tracks c cc (readIdx + ofNat 32 n) writeIdx storage (q.drop (n * cc)) := by
  obtain ⟨r, level, rfl, rfl, hlevel, hq, hholds⟩ := h
  rw [hq, Nat.mul_div_cancel level hcc] at hn
  constructor
  · rw [copyOut_eq, position hdvd]
    refine hholds.get (Nat.mul_pos hc hcc) ?_ ?_
    · rw [hq]
      exact Nat.mul_le_mul_right cc hlevel
    · rw [hq]
      exact Nat.mul_le_mul_right cc hn
  · refine ⟨r + n, level - n, (ofNat_add r n).symm, ?_, by omega, ?_, ?_⟩
    · rw [Nat.add_assoc, Nat.add_sub_cancel' hn]
    · rw [length_drop, hq, Nat.sub_mul]
    · rw [Nat.add_mul]
      exact hholds.drop (n * cc)

end Tracks

namespace InterleavedRingBuffer

variable {ring : InterleavedRingBuffer} {queue : Queue}

-- The early exits of the calls are those without frames.
theorem writeInterleaved_eq (ring : InterleavedRingBuffer) (samples : List Sample)
    (hn : n = min (samples.length % 2 ^ 32 / ring.channelCount)
      (framesFree ring.readIdx ring.writeIdx ring.capacityFrames)) :
    ring.writeInterleaved samples =
      ({ ring with
        storage := copyIn ring.capacityFrames ring.channelCount
          (ring.writeIdx.toNat % ring.capacityFrames) n ring.storage samples
        writeIdx := ring.writeIdx + ofNat 32 n }, n) := by
  simp only [writeInterleaved, ← hn]
  by_cases hzero : n = 0
  case pos =>
    rw [if_pos hzero, ite_self, hzero, copyIn_zero, add_zero]
  case neg =>
    rw [if_neg (by omega), if_neg hzero]

theorem readInterleaved_eq (ring : InterleavedRingBuffer) (out : List Sample)
    (hn : n = min (out.length % 2 ^ 32 / ring.channelCount)
      (framesAvailableClamped ring.readIdx ring.writeIdx ring.capacityFrames)) :
    ring.readInterleaved out =
      ({ ring with readIdx := ring.readIdx + ofNat 32 n },
        copyOut ring.capacityFrames ring.channelCount
          (ring.readIdx.toNat % ring.capacityFrames) n ring.storage ++
            out.drop (n * ring.channelCount), n) := by
  simp only [readInterleaved, ← hn]
  by_cases hzero : n = 0
  case pos =>
    rw [if_pos hzero, ite_self, hzero, copyOut_zero, add_zero, Nat.zero_mul, drop_zero,
      List.nil_append]
  case neg =>
    rw [if_neg (by omega), if_neg hzero]

structure Refines (ring : InterleavedRingBuffer) (queue : Queue) : Prop where
  capacity : ring.capacityFrames = queue.capacity
  channels : ring.channelCount = queue.channels
  keeps : queue.keepsNewest = false
  pos : 0 < queue.capacity
  lt : queue.capacity < 2 ^ 32
  channels_pos : 0 < queue.channels
  dvd : queue.capacity ∣ 2 ^ 32
  tracks : Tracks queue.capacity queue.channels ring.readIdx ring.writeIdx ring.storage
    queue.samples

theorem Refines.available (h : ring.Refines queue) :
    framesAvailableClamped ring.readIdx ring.writeIdx ring.capacityFrames = queue.level := by
  obtain ⟨havail, hle⟩ := h.tracks.available h.channels_pos h.lt
  rw [framesAvailableClamped, framesAvailable, havail, h.capacity, Nat.min_eq_left hle, Queue.level]

theorem Refines.apply (h : ring.Refines queue) (op : Op) :
    (ring.apply op).2 = (queue.apply op).2 ∧ (ring.apply op).1.Refines (queue.apply op).1 := by
  cases op with
  | write block =>
    have hlevel : queue.level ≤ queue.capacity :=
      (h.tracks.available h.channels_pos h.lt).2
    obtain ⟨n, hn⟩ : ∃ n, n = min (block.length % 2 ^ 32 / queue.channels)
        (queue.capacity - queue.level) := ⟨_, rfl⟩
    have hring := ring.writeInterleaved_eq (n := n) block
      (by rw [framesFree, h.available, h.channels, h.capacity, hn])
    have hlen : n * queue.channels ≤ block.length := frames_le (by omega)
    have hput := h.tracks.put h.pos h.channels_pos h.dvd (by
      rw [← Queue.level]
      omega) hlen
    simp only [InterleavedRingBuffer.apply, Queue.apply, hring, ← hn, Queue.accepted, h.keeps, true_and]
    exact ⟨h.capacity, h.channels, rfl, h.pos, h.lt, h.channels_pos, h.dvd,
      by simp only [h.capacity, h.channels]; exact hput⟩
  | read out =>
    obtain ⟨n, hn⟩ : ∃ n, n = min (out.length % 2 ^ 32 / queue.channels) queue.level := ⟨_, rfl⟩
    have hring := ring.readInterleaved_eq (n := n) out
      (by rw [h.available, h.channels, hn])
    obtain ⟨hout, hget⟩ := h.tracks.get h.pos h.channels_pos h.dvd (n := n) (by
      rw [← Queue.level]
      omega)
    simp only [InterleavedRingBuffer.apply, Queue.apply, hring, ← hn, h.capacity, h.channels, hout, true_and]
    exact ⟨rfl, rfl, h.keeps, h.pos, h.lt, h.channels_pos, h.dvd, hget⟩

end InterleavedRingBuffer

namespace MonoRingBuffer

variable {ring : MonoRingBuffer} {queue : Queue}

theorem write_eq (ring : MonoRingBuffer) (samples : List Sample)
    (hused : samplesAvailable ring.readPos ring.writePos ≤ ring.capacitySamples)
    (hn : n = min (samples.length % 2 ^ 32)
      (ring.capacitySamples - samplesAvailable ring.readPos ring.writePos)) :
    ∃ dropped, ring.write samples =
      ({ ring with
        droppedSamples := dropped
        storage := copyIn ring.capacitySamples 1 (ring.writePos.toNat % ring.capacitySamples) n
          ring.storage (samples.drop (samples.length % 2 ^ 32 - n))
        writePos := ring.writePos + ofNat 32 n }, n) := by
  rw [write]
  by_cases hzero : n = 0
  case pos =>
    rw [hzero, copyIn_zero, add_zero]
    split
    · exact ⟨ring.droppedSamples, rfl⟩
    · rw [if_neg (by omega), if_pos (by omega)]
      exact ⟨_, rfl⟩
  case neg =>
    rw [if_neg (by omega), if_neg (by omega), if_neg (by omega)]
    simp only [← hn]
    refine ⟨saturatingAdd ring.droppedSamples (samples.length % 2 ^ 32 - n), ?_⟩
    split
    · rfl
    · rw [show samples.length % 2 ^ 32 - n = 0 by omega]
      rfl

theorem read_eq (ring : MonoRingBuffer) (out : List Sample) (hn : n = min (out.length % 2 ^ 32)
      (samplesAvailableClamped ring.readPos ring.writePos ring.capacitySamples)) :
    ring.read out =
      ({ ring with readPos := ring.readPos + ofNat 32 n },
        copyOut ring.capacitySamples 1 (ring.readPos.toNat % ring.capacitySamples) n
          ring.storage ++ out.drop n, n) := by
  simp only [read, ← hn]
  by_cases hzero : n = 0
  case pos =>
    rw [if_pos hzero, ite_self, hzero, copyOut_zero, add_zero, drop_zero, List.nil_append]
  case neg =>
    rw [if_neg (by omega), if_neg hzero]

structure Refines (ring : MonoRingBuffer) (queue : Queue) : Prop where
  capacity : ring.capacitySamples = queue.capacity
  channels : queue.channels = 1
  keeps : queue.keepsNewest = true
  pos : 0 < queue.capacity
  lt : queue.capacity < 2 ^ 32
  dvd : queue.capacity ∣ 2 ^ 32
  tracks : Tracks queue.capacity 1 ring.readPos ring.writePos ring.storage queue.samples

def Countable : Op → Prop
  | .write samples => samples.length < 2 ^ 32
  | .read _        => True

theorem Refines.available (h : ring.Refines queue) :
    samplesAvailable ring.readPos ring.writePos = queue.level ∧ queue.level ≤ queue.capacity := by
  rw [Queue.level, h.channels]
  exact h.tracks.available Nat.one_pos h.lt

theorem Refines.apply (h : ring.Refines queue) (hop : Countable op) :
    (ring.apply op).2 = (queue.apply op).2 ∧ (ring.apply op).1.Refines (queue.apply op).1 := by
  obtain ⟨havail, hlevel⟩ := h.available
  have hlen : queue.level = queue.samples.length / 1 := by rw [Queue.level, h.channels]
  cases op with
  | write block =>
    have hmod := Nat.mod_eq_of_lt hop
    obtain ⟨n, hn⟩ : ∃ n, n = min block.length (queue.capacity - queue.level) := ⟨_, rfl⟩
    obtain ⟨dropped, hring⟩ := ring.write_eq (n := n) block
      (by rw [havail, h.capacity]; exact hlevel) (by rw [havail, h.capacity, hmod, hn])
    have hput := h.tracks.put h.pos Nat.one_pos h.dvd (by omega)
      (show n * 1 ≤ (block.drop (block.length - n)).length by rw [length_drop]; omega)
    rw [take_of_length_le (by rw [length_drop]; omega)] at hput
    simp only [MonoRingBuffer.apply, Queue.apply, hring, h.channels, Nat.div_one, hmod, ← hn,
      Queue.accepted, h.keeps, Nat.mul_one, true_and]
    exact ⟨h.capacity, rfl, rfl, h.pos, h.lt, h.dvd, by simp only [h.capacity]; exact hput⟩
  | read out =>
    obtain ⟨n, hn⟩ : ∃ n, n = min (out.length % 2 ^ 32) queue.level := ⟨_, rfl⟩
    have hring := ring.read_eq (n := n) out
      (by rw [samplesAvailableClamped, havail, h.capacity, Nat.min_eq_left hlevel, hn])
    obtain ⟨hout, hget⟩ := h.tracks.get h.pos Nat.one_pos h.dvd (n := n) (by omega)
    rw [Nat.mul_one] at hout hget
    simp only [MonoRingBuffer.apply, Queue.apply, hring, h.channels, Nat.div_one, ← hn, h.capacity,
      hout, Nat.mul_one, true_and]
    exact ⟨rfl, rfl, h.keeps, h.pos, h.lt, h.dvd, hget⟩

end MonoRingBuffer

section Jump

structure Core where
  readIdx : U32
  writeIdx : U32
  storage : Nat → Sample

-- What the two rings have in common: `m` frames that fit are copied in, and `m` frames that are
-- there are copied out.
structure Copies {σ : Type} (c cc : Nat) (apply : σ → Op → σ × Result) (core : σ → Core)
    (valid : σ → Prop) : Prop where
  write : ∀ s m block, valid s → m ≤ 2 → block.length = m * cc →
    ((core s).writeIdx - (core s).readIdx).toNat + m ≤ c →
      valid (apply s (.write block)).1 ∧ (apply s (.write block)).2 = .written m ∧
        core (apply s (.write block)).1 =
          { core s with
            writeIdx := (core s).writeIdx + BitVec.ofNat 32 m
            storage := copyIn c cc ((core s).writeIdx.toNat % c) m (core s).storage block }
  read : ∀ s out, valid s → out.length = cc →
    0 < ((core s).writeIdx - (core s).readIdx).toNat →
    ((core s).writeIdx - (core s).readIdx).toNat ≤ c →
      valid (apply s (.read out)).1 ∧
        (apply s (.read out)).2 =
          .read (copyOut c cc ((core s).readIdx.toNat % c) 1 (core s).storage) 1 ∧
        core (apply s (.read out)).1 = { core s with readIdx := (core s).readIdx + 1 }

def round (cc : Nat) : List Op :=
  [.write (List.replicate cc 0), .read (List.replicate cc 0)]

def rounds (cc n : Nat) : List Op :=
  (List.replicate n (round cc)).flatten

def roundResults (cc n : Nat) : List Result :=
  (List.replicate n [.written 1, .read (List.replicate cc 0) 1]).flatten

def jump (cc : Nat) : List Op :=
  [.write (List.replicate cc 0 ++ List.replicate cc 1), .read (List.replicate cc 0),
    .read (List.replicate cc 0)]

variable {σ : Type} {c cc n : Nat}
variable {s : σ}

theorem copyIn_of_fits (hfits : pos + n ≤ c) (hlen : samples.length = n * cc) :
    copyIn c cc pos n storage samples = write storage (pos * cc) samples := by
  rw [copyIn, Nat.min_eq_left (by omega), Nat.sub_self, if_neg (Nat.lt_irrefl 0),
    take_of_length_le hlen.le]

theorem copyOut_of_fits (hfits : pos < c) :
    copyOut c cc pos 1 storage = read storage (pos * cc) cc := by
  rw [copyOut, Nat.min_eq_left (by omega), if_neg (Nat.lt_irrefl 0), Nat.one_mul, append_nil]

namespace Copies

theorem round (h : Copies c cc apply core valid) (hc : 0 < c) (hlt : c < 2 ^ 32) (hs : valid s)
    (hcore : core s = ⟨x, x, fun _ => 0⟩) :
    outputs apply s (round cc) = [.written 1, .read (replicate cc 0) 1] ∧
      valid (final apply s (round cc)) ∧
      core (final apply s (round cc)) = ⟨x + 1, x + 1, fun _ => 0⟩ := by
  have hx := Nat.mod_lt x.toNat hc
  have havail : (x - x).toNat = 0 := by rw [sub_self]; rfl
  have hone : (x + 1 - x).toNat = 1 := by rw [add_comm, BitVec.add_sub_cancel]; rfl
  obtain ⟨hs₁, hout₁, hcore₁⟩ := h.write s 1 (replicate cc 0) hs (by omega)
    (by rw [length_replicate, Nat.one_mul]) (by rw [hcore, havail]; omega)
  have hstored : core (apply s (.write (replicate cc 0))).1 = ⟨x, x + 1, fun _ => 0⟩ := by
    rw [hcore₁, hcore, copyIn_of_fits (by dsimp only; omega)
      (by rw [length_replicate, Nat.one_mul]), write_const]
    rfl
  obtain ⟨hs₂, hout₂, hcore₂⟩ := h.read _ (replicate cc 0) hs₁ length_replicate
    (by rw [hstored, hone]; omega) (by rw [hstored, hone]; omega)
  rw [hstored, copyOut_of_fits hx, read_const] at hout₂
  rw [hstored] at hcore₂
  refine ⟨?_, hs₂, hcore₂⟩
  rw [Audio.round, outputs, outputs, hout₁, hout₂, outputs]

theorem rounds (h : Copies c cc apply core valid) (hc : 0 < c) (hlt : c < 2 ^ 32) (hs : valid s)
    (hcore : core s = ⟨x, x, fun _ => 0⟩) (n : Nat) :
    outputs apply s (rounds cc n) = roundResults cc n ∧
      valid (final apply s (rounds cc n)) ∧
      core (final apply s (rounds cc n)) =
        ⟨x + ofNat 32 n, x + ofNat 32 n, fun _ => 0⟩ := by
  induction n generalizing s x with
  | zero =>
    rw [add_zero]
    exact ⟨rfl, hs, hcore⟩
  | succ n ih =>
    obtain ⟨hout₁, hs₁, hcore₁⟩ := h.round hc hlt hs hcore
    obtain ⟨hout, hs', hcore'⟩ := ih hs₁ hcore₁
    have hsplit : rounds cc (n + 1) = Audio.round cc ++ rounds cc n := by
      rw [rounds, List.replicate_succ, List.flatten_cons, rounds]
    have hcount : x + ofNat 32 (n + 1) = x + 1 + ofNat 32 n := by
      rw [Nat.add_comm, ofNat_add, ← BitVec.add_assoc]
      rfl
    rw [hsplit, outputs_append, hout₁, hout, hcount]
    exact ⟨rfl, hs', hcore'⟩

-- The second frame is read from the begin of the storage, where it was not written.
theorem jump (h : Copies c cc apply core valid) (hc : 0 < c) (hlt : c < 2 ^ 32)
    (hdvd : ¬c ∣ 2 ^ 32) (hs : valid s)
    (hcore : core s = ⟨ofNat 32 (2 ^ 32 - 1), ofNat 32 (2 ^ 32 - 1), fun _ => 0⟩) :
    outputs apply s (jump cc) =
      [.written 2, .read (replicate cc 0) 1, .read (replicate cc 0) 1] := by
  obtain ⟨x, hx⟩ : ∃ x : U32, x = ofNat 32 (2 ^ 32 - 1) := ⟨_, rfl⟩
  rw [← hx] at hcore
  have hxnat : x.toNat = 2 ^ 32 - 1 := by rw [hx]; rfl
  -- the two frames do not reach the end of the storage
  have hfits : x.toNat % c + 2 ≤ c := by
    have hlast : x.toNat % c ≠ c - 1 := by
      intro heq
      refine hdvd (Nat.dvd_of_mod_eq_zero ?_)
      rw [show 2 ^ 32 = 2 ^ 32 - 1 + 1 by rfl, ← Nat.mod_add_mod, ← hxnat, heq,
        Nat.sub_add_cancel hc, Nat.mod_self]
    have := Nat.mod_lt x.toNat hc
    omega
  have havail : (x - x).toNat = 0 := by rw [sub_self]; rfl
  have htwo : (x + 2 - x).toNat = 2 := by rw [add_comm, BitVec.add_sub_cancel]; rfl
  have hone : (x + 2 - (x + 1)).toNat = 1 := by rw [hx]; rfl
  have hlen : (replicate cc (0 : Sample) ++ replicate cc 1).length = 2 * cc := by
    rw [length_append, length_replicate, length_replicate, Nat.two_mul]
  obtain ⟨hs₁, hout₁, hcore₁⟩ := h.write s 2 _ hs le_rfl hlen (by rw [hcore, havail]; omega)
  obtain ⟨storage, hstorage⟩ : ∃ storage : Nat → Sample, storage =
      ByteStore.write (fun _ => 0) (x.toNat % c * cc + cc) (replicate cc 1) := ⟨_, rfl⟩
  have hzeros {pos : Nat} (hpos : pos ≤ x.toNat % c) :
      copyOut c cc pos 1 storage = replicate cc 0 := by
    have hle := Nat.mul_le_mul_right cc hpos
    rw [copyOut_of_fits (by omega), hstorage, ByteStore.read_write_of_disjoint (.inl (by omega)),
      ByteStore.read_const]
  have hstored : core (apply s (.write (replicate cc 0 ++ replicate cc 1))).1 =
      ⟨x, x + 2, storage⟩ := by
    rw [hcore₁, hcore, copyIn_of_fits hfits hlen, ByteStore.write_append, ByteStore.write_const,
      length_replicate, ← hstorage]
    rfl
  obtain ⟨hs₂, hout₂, hcore₂⟩ := h.read _ (replicate cc 0) hs₁ length_replicate
    (by rw [hstored, htwo]; omega) (by rw [hstored, htwo]; omega)
  rw [hstored, hzeros le_rfl] at hout₂
  rw [hstored] at hcore₂
  obtain ⟨-, hout₃, -⟩ := h.read _ (replicate cc 0) hs₂ length_replicate
    (by rw [hcore₂, hone]; omega) (by rw [hcore₂, hone]; omega)
  have hwrap : (x + 1).toNat % c = 0 := by rw [hx]; exact Nat.zero_mod c
  rw [hcore₂, hwrap, hzeros (Nat.zero_le _)] at hout₃
  rw [Audio.jump, outputs, outputs, outputs, hout₁, hout₂, hout₃, outputs]

end Copies

section Queue

theorem queue_write (hcc : 0 < cc) (hlevel : samples.length = level * cc)
    (hlen : block.length = m * cc) (hlt : m * cc < 2 ^ 32) (hfree : level + m ≤ c) :
    Queue.apply ⟨c, cc, k, samples⟩ (.write block) =
      (⟨c, cc, k, samples ++ block⟩, .written m) := by
  have hcount : min (block.length % 2 ^ 32 / cc) (c - samples.length / cc) = m := by
    rw [hlen, Nat.mod_eq_of_lt hlt, hlevel, Nat.mul_div_cancel m hcc, Nat.mul_div_cancel level hcc]
    omega
  have hall : (if k = true then block.drop (block.length - m * cc)
      else block.take (m * cc)) = block := by
    rw [← hlen, Nat.sub_self, drop_zero, List.take_length, ite_self]
  simp only [Queue.apply, Queue.level, Queue.accepted, hcount, hall]

theorem queue_read (hcc : 0 < cc) (hlt : cc < 2 ^ 32) (hout : out.length = cc)
    (hlevel : cc ≤ samples.length) :
    Queue.apply ⟨c, cc, k, samples⟩ (.read out) =
      (⟨c, cc, k, samples.drop cc⟩, .read (samples.take cc) 1) := by
  have hcount : min (out.length % 2 ^ 32 / cc) (samples.length / cc) = 1 := by
    have := (Nat.one_le_div_iff hcc).mpr hlevel
    rw [hout, Nat.mod_eq_of_lt hlt, Nat.div_self hcc]
    omega
  simp only [Queue.apply, Queue.level, hcount, Nat.one_mul, drop_eq_nil_of_le hout.le, append_nil]

theorem queue_rounds (hc : 0 < c) (hcc : 0 < cc) (hlt : cc < 2 ^ 32) (n : Nat) :
    outputs Queue.apply ⟨c, cc, k, []⟩ (rounds cc n) = roundResults cc n ∧
      final Queue.apply ⟨c, cc, k, []⟩ (rounds cc n) = ⟨c, cc, k, []⟩ := by
  have hlen : (replicate cc (0 : Sample)).length = cc := length_replicate
  have hnil : ([] : List Sample).length = 0 * cc := (Nat.zero_mul cc).symm
  have hwrite : Queue.apply ⟨c, cc, k, []⟩ (.write (replicate cc 0)) =
      (⟨c, cc, k, replicate cc 0⟩, .written 1) :=
    queue_write hcc hnil (hlen.trans (Nat.one_mul cc).symm) (by omega) (by omega)
  have hread : Queue.apply ⟨c, cc, k, replicate cc 0⟩ (.read (replicate cc 0)) =
      (⟨c, cc, k, []⟩, .read (replicate cc 0) 1) := by
    rw [queue_read hcc hlt hlen hlen.ge, drop_eq_nil_of_le hlen.le, take_of_length_le hlen.le]
  induction n with
  | zero => exact ⟨rfl, rfl⟩
  | succ n ih =>
    have hsplit : rounds cc (n + 1) = round cc ++ rounds cc n := by
      rw [rounds, List.replicate_succ, List.flatten_cons, rounds]
    have hround : outputs Queue.apply ⟨c, cc, k, []⟩ (round cc) =
          [.written 1, .read (replicate cc 0) 1] ∧
        final Queue.apply ⟨c, cc, k, []⟩ (round cc) = ⟨c, cc, k, []⟩ := by
      rw [round, outputs, outputs, final, final, hwrite, hread]
      exact ⟨rfl, rfl⟩
    rw [hsplit, outputs_append, final_append, hround.1, hround.2, ih.1, ih.2]
    exact ⟨rfl, rfl⟩

theorem queue_jump (hc : 2 ≤ c) (hcc : 0 < cc) (hlt : 2 * cc < 2 ^ 32) :
    outputs Queue.apply ⟨c, cc, k, []⟩ (jump cc) =
      [.written 2, .read (replicate cc 0) 1, .read (replicate cc 1) 1] := by
  have hnil : ([] : List Sample).length = 0 * cc := (Nat.zero_mul cc).symm
  have hlen (x : Sample) : (replicate cc x).length = cc := length_replicate
  have hboth : (replicate cc (0 : Sample) ++ replicate cc 1).length = 2 * cc := by
    rw [length_append, hlen, hlen, Nat.two_mul]
  have hwrite : Queue.apply ⟨c, cc, k, []⟩
      (.write (replicate cc 0 ++ replicate cc 1)) =
        (⟨c, cc, k, replicate cc 0 ++ replicate cc 1⟩, .written 2) :=
    queue_write hcc hnil hboth hlt (by omega)
  have hfirst : Queue.apply ⟨c, cc, k, replicate cc 0 ++ replicate cc 1⟩
      (.read (replicate cc 0)) =
        (⟨c, cc, k, replicate cc 1⟩, .read (replicate cc 0) 1) := by
    rw [queue_read hcc (by omega) (hlen 0) (by omega), List.drop_left' (hlen 0),
      List.take_left' (hlen 0)]
  have hsecond : Queue.apply ⟨c, cc, k, replicate cc 1⟩ (.read (replicate cc 0)) =
      (⟨c, cc, k, []⟩, .read (replicate cc 1) 1) := by
    rw [queue_read hcc (by omega) (hlen 0) (hlen 1).ge, drop_eq_nil_of_le (hlen 1).le,
      take_of_length_le (hlen 1).le]
  rw [jump, outputs, outputs, outputs, outputs, hwrite, hfirst, hsecond]

end Queue

def lastCounter : Nat := 2 ^ 32 - 1

def jumpOps (cc : Nat) : List Op :=
  rounds cc lastCounter ++ jump cc

theorem Copies.outputs_jumpOps (h : Copies c cc apply core valid) (hc : 0 < c) (hlt : c < 2 ^ 32)
    (hdvd : ¬c ∣ 2 ^ 32) (hs : valid s) (hcore : core s = ⟨0, 0, fun _ => 0⟩) :
    outputs apply s (jumpOps cc) = roundResults cc lastCounter ++
      [.written 2, .read (replicate cc 0) 1, .read (replicate cc 0) 1] := by
  obtain ⟨hout, hs', hcore'⟩ := h.rounds hc hlt hs hcore lastCounter
  rw [jumpOps, outputs_append, hout, h.jump hc hlt hdvd hs' hcore']

theorem queue_jumpOps (hc : 2 ≤ c) (hcc : 0 < cc) (hlt : 2 * cc < 2 ^ 32) :
    outputs Queue.apply ⟨c, cc, k, []⟩ (jumpOps cc) = roundResults cc lastCounter ++
      [.written 2, .read (replicate cc 0) 1, .read (replicate cc 1) 1] := by
  obtain ⟨hqueue, hfinal⟩ := queue_rounds (show 0 < c by omega) hcc (by omega) lastCounter
  rw [jumpOps, outputs_append, hqueue, hfinal, queue_jump hc hcc hlt]

-- A ring whose size does not divide the number of counters is not a queue.
theorem Copies.outputs_ne (h : Copies c cc apply core valid) (hc : 0 < c) (hlt : c < 2 ^ 32)
    (hcc : 0 < cc) (hcc' : cc ≤ 2) (hdvd : ¬c ∣ 2 ^ 32) (hs : valid s)
    (hcore : core s = ⟨0, 0, fun _ => 0⟩) :
    outputs apply s (jumpOps cc) ≠
      outputs Queue.apply ⟨c, cc, k, []⟩ (jumpOps cc) := by
  have hc2 : 2 ≤ c := by
    by_contra hone
    have heq : c = 1 := by omega
    exact hdvd (heq ▸ Nat.one_dvd _)
  rw [h.outputs_jumpOps hc hlt hdvd hs hcore, queue_jumpOps hc2 hcc (by omega)]
  intro heq
  injection List.append_cancel_left heq with _ hreads
  injection hreads with _ hreads
  injection hreads with hread
  injection hread with hframe
  rcases (List.replicate_inj.mp hframe).2 with hzero | hval
  · omega
  · cases hval

end Jump

namespace InterleavedRingBuffer

def queue (capacityFrames channelCount : Nat) : Queue where
  capacity := clamp capacityFrames 1 maxRingCapacityFrames
  channels := clamp channelCount 1 maxRingChannelCount
  keepsNewest := false
  samples := []

theorem copies (c : Nat) (hcc : 0 < cc) (hcc' : cc ≤ 2) :
    Copies c cc apply (fun ring => ⟨ring.readIdx, ring.writeIdx, ring.storage⟩)
      fun ring => ring.capacityFrames = c ∧ ring.channelCount = cc := by
  constructor
  case write =>
    rintro ring m block ⟨rfl, rfl⟩ hm hlen hfree
    have hle := Nat.mul_le_mul hm hcc'
    dsimp only at hfree
    have hring := ring.writeInterleaved_eq (n := m) block (by
      rw [hlen, Nat.mod_eq_of_lt (by omega), Nat.mul_div_cancel m hcc, framesFree,
        framesAvailableClamped, framesAvailable]
      omega)
    simp [apply, hring]
  case read =>
    rintro ring out ⟨rfl, rfl⟩ hlen hpos hle
    dsimp only at hpos hle
    have hring := ring.readInterleaved_eq (n := 1) out (by
      rw [hlen, Nat.mod_eq_of_lt (by omega), Nat.div_self hcc, framesAvailableClamped,
        framesAvailable]
      omega)
    rw [Nat.one_mul, drop_eq_nil_of_le hlen.le, append_nil] at hring
    simp only [apply, hring, and_self]
    exact ⟨trivial, trivial, rfl⟩

theorem fifo_iff (capacityFrames channelCount : Nat) :
    (∀ ops, outputs apply (new capacityFrames channelCount) ops =
        outputs Queue.apply (queue capacityFrames channelCount) ops) ↔
      clamp capacityFrames 1 maxRingCapacityFrames ∣ 2 ^ 32 := by
  obtain ⟨hc, hlt⟩ := clamp_bounds capacityFrames
    (show 1 ≤ maxRingCapacityFrames by decide)
  obtain ⟨hcc, hcc'⟩ := clamp_bounds channelCount
    (show 1 ≤ maxRingChannelCount by decide)
  have hlt' := Nat.lt_of_le_of_lt hlt (show maxRingCapacityFrames < 2 ^ 32 by decide)
  constructor
  · intro hfifo
    by_contra hdvd
    exact (copies _ hcc hcc').outputs_ne hc hlt' hcc hcc' hdvd ⟨rfl, rfl⟩ rfl (hfifo _)
  · intro hdvd ops
    have hstart : (new capacityFrames channelCount).Refines (queue capacityFrames channelCount) :=
      ⟨rfl, rfl, rfl, hc, hlt', hcc, hdvd, .empty⟩
    exact outputs_eq (fun _ _ op h _ => h.apply op) hstart fun _ _ => trivial

end InterleavedRingBuffer

namespace MonoRingBuffer

def queue (capacitySamples : Nat) : Queue where
  capacity := clamp capacitySamples 1 maxRingCapacitySamples
  channels := 1
  keepsNewest := true
  samples := []

theorem copies (c : Nat) :
    Copies c 1 apply (fun ring => ⟨ring.readPos, ring.writePos, ring.storage⟩)
      fun ring => ring.capacitySamples = c := by
  constructor
  case write =>
    rintro ring m block rfl hm hlen hfree
    rw [Nat.mul_one] at hlen
    dsimp only at hfree
    have hmod : block.length % 2 ^ 32 = m := by rw [hlen, Nat.mod_eq_of_lt (by omega)]
    obtain ⟨dropped, hring⟩ := ring.write_eq (n := m) block
      (by rw [samplesAvailable]; omega) (by rw [samplesAvailable]; omega)
    rw [hmod, Nat.sub_self] at hring
    simp [apply, hring]
  case read =>
    rintro ring out rfl hlen hpos hle
    dsimp only at hpos hle
    have hring := ring.read_eq (n := 1) out (by
      rw [samplesAvailableClamped, samplesAvailable]
      omega)
    rw [drop_eq_nil_of_le hlen.le, append_nil] at hring
    simp only [apply, hring]
    exact ⟨trivial, trivial, rfl⟩

theorem jumpOps_countable : ∀ op ∈ jumpOps 1, Countable op := by
  intro op hop
  rw [jumpOps, List.mem_append, rounds, List.mem_flatten] at hop
  rcases hop with ⟨ops, hops, hop⟩ | hop
  · rw [List.eq_of_mem_replicate hops, round, mem_cons, List.mem_singleton] at hop
    rcases hop with rfl | rfl
    · exact (by decide : 1 < 2 ^ 32)
    · trivial
  · rw [jump, mem_cons, mem_cons, List.mem_singleton] at hop
    rcases hop with rfl | rfl | rfl
    · exact (by decide : 2 < 2 ^ 32)
    · trivial
    · trivial

theorem fifo_iff (capacitySamples : Nat) :
    (∀ ops, (∀ op ∈ ops, Countable op) → outputs apply (new capacitySamples) ops =
        outputs Queue.apply (queue capacitySamples) ops) ↔
      clamp capacitySamples 1 maxRingCapacitySamples ∣ 2 ^ 32 := by
  obtain ⟨hc, hlt⟩ := clamp_bounds capacitySamples
    (show 1 ≤ maxRingCapacitySamples by decide)
  have hlt' := Nat.lt_of_le_of_lt hlt (show maxRingCapacitySamples < 2 ^ 32 by decide)
  constructor
  · intro hfifo
    by_contra hdvd
    exact (copies _).outputs_ne hc hlt' Nat.one_pos (by decide) hdvd rfl rfl
      (hfifo _ jumpOps_countable)
  · intro hdvd ops hops
    have hstart : (new capacitySamples).Refines (queue capacitySamples) :=
      ⟨rfl, rfl, rfl, hc, hlt', hdvd, .empty⟩
    exact outputs_eq (fun _ _ _ h hop => h.apply hop) hstart hops

end MonoRingBuffer

-- The audio rings are bounded queues exactly when their size divides the number of counters, that
-- is, when it is a power of two.
theorem audio_rings_fifo_iff (capacity channelCount : Nat) :
    ((∀ ops, Runs.outputs InterleavedRingBuffer.apply (.new capacity channelCount) ops =
        Runs.outputs Queue.apply (InterleavedRingBuffer.queue capacity channelCount) ops) ↔
      clamp capacity 1 maxRingCapacityFrames ∣ 2 ^ 32) ∧
    ((∀ ops, (∀ op ∈ ops, MonoRingBuffer.Countable op) →
        Runs.outputs MonoRingBuffer.apply (.new capacity) ops =
          Runs.outputs Queue.apply (MonoRingBuffer.queue capacity) ops) ↔
      clamp capacity 1 maxRingCapacitySamples ∣ 2 ^ 32) :=
  ⟨InterleavedRingBuffer.fifo_iff capacity channelCount, MonoRingBuffer.fifo_iff capacity⟩

-- A ring of three frames: the last frame comes back as silence.
theorem stale_frame_returned :
    Runs.outputs InterleavedRingBuffer.apply (.new 3 1) (jumpOps 1) =
        roundResults 1 lastCounter ++ [.written 2, .read [0] 1, .read [0] 1] ∧
      Runs.outputs Queue.apply (InterleavedRingBuffer.queue 3 1) (jumpOps 1) =
        roundResults 1 lastCounter ++ [.written 2, .read [0] 1, .read [1] 1] := by
  have hring := (InterleavedRingBuffer.copies 3 Nat.one_pos (by decide)).outputs_jumpOps
    (s := .new 3 1) (by decide) (by decide) (by decide) ⟨rfl, rfl⟩ rfl
  have hqueue : outputs Queue.apply (InterleavedRingBuffer.queue 3 1) (jumpOps 1) = _ :=
    queue_jumpOps (by decide) Nat.one_pos (by decide)
  exact ⟨hring, hqueue⟩

end Aero.Audio

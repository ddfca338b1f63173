import Aero.Ipc.Protocol

namespace Aero.Ipc

open LeBytes Parse List

section Fields

variable {bs rest : List U8}

@[simp]
theorem run_readU8 : readU8.run bs = .ok (v, rest) ↔ bs = v :: rest :=
  run_byte_eq_ok_iff

@[simp]
theorem run_readU16 : readU16.run bs = .ok (v, rest) ↔ bs = pushU16 v ++ rest :=
  run_word_eq_ok_iff (by decide)

@[simp]
theorem run_readU32 : readU32.run bs = .ok (v, rest) ↔ bs = pushU32 v ++ rest :=
  run_word_eq_ok_iff (by decide)

@[simp]
theorem run_readU64 : readU64.run bs = .ok (v, rest) ↔ bs = pushU64 v ++ rest :=
  run_word_eq_ok_iff (by decide)

@[simp]
theorem run_readBytes32 :
    readBytes32.run bs = .ok (data, rest) ↔ bs = pushBytes data ++ rest ∧ data.length < 2 ^ 32 := by
  rw [readBytes32, run_bind_eq_ok_iff]
  simp only [run_readU32, run_take_eq_ok_iff, pushBytes]
  constructor
  · rintro ⟨len, mid, rfl, rfl, hlen⟩
    refine ⟨?_, hlen ▸ len.isLt⟩
    rw [hlen, BitVec.ofNat_toNat, BitVec.setWidth_eq, append_assoc]
  · rintro ⟨rfl, hlen⟩
    refine ⟨_, _, append_assoc .., rfl, ?_⟩
    rw [BitVec.toNat_ofNat, Nat.mod_eq_of_lt hlen]

theorem toByteArray_asBytes (s : String) :
    ((asBytes s).map UInt8.ofBitVec).toByteArray = s.toByteArray := by
  have hmap : (asBytes s).map UInt8.ofBitVec = s.toByteArray.data.toList := by
    rw [asBytes, map_map]
    exact map_id _
  apply ByteArray.ext
  rw [hmap, ← Array.toList_inj, toList_data_toByteArray]

theorem run_fromUtf8 (s : String) (bs : List U8) :
    (fromUtf8 (asBytes s)).run bs = .ok (s, bs) := by
  have hs : String.fromUTF8? (((asBytes s).map UInt8.ofBitVec).toByteArray) = some s := by
    rw [toByteArray_asBytes, String.fromUTF8?, dif_pos s.isValidUTF8]
    rfl
  rw [fromUtf8, hs]
  rfl

end Fields

-- What is decoded after a field depends on the value that was written and the bytes behind it.
section Continuations

variable {rest : List U8}

@[simp]
theorem run_bind_readU8 {v : U8} : (readU8 >>= f).run (v :: rest) = (f v).run rest :=
  run_bind_of_ok (run_readU8.mpr rfl)

@[simp]
theorem run_bind_readU16 : (readU16 >>= f).run (pushU16 v ++ rest) = (f v).run rest :=
  run_bind_of_ok (run_readU16.mpr rfl)

@[simp]
theorem run_bind_readU32 : (readU32 >>= f).run (pushU32 v ++ rest) = (f v).run rest :=
  run_bind_of_ok (run_readU32.mpr rfl)

@[simp]
theorem run_bind_readU64 : (readU64 >>= f).run (pushU64 v ++ rest) = (f v).run rest :=
  run_bind_of_ok (run_readU64.mpr rfl)

@[simp]
theorem run_bind_readBytes32 (h : data.length < 2 ^ 32) :
    (readBytes32 >>= f).run (pushBytes data ++ rest) = (f data).run rest :=
  run_bind_of_ok (run_readBytes32.mpr ⟨rfl, h⟩)

@[simp]
theorem run_bind_fromU8 : (LogLevel.fromU8 level.toU8 >>= f).run rest = (f level).run rest :=
  run_bind_of_ok (by cases level <;> rfl)

@[simp]
theorem run_bind_fromUtf8 : (fromUtf8 (asBytes message) >>= f).run rest = (f message).run rest :=
  run_bind_of_ok (run_fromUtf8 ..)

@[simp]
theorem run_pure_eq : (pure x : Decode α).run rest = .ok (x, rest) := rfl

end Continuations

theorem decodeMessage_eq_ok_iff {read : U16 → Decode α} :
    decodeMessage read bytes = .ok msg ↔
      bytes.length ≤ maxMessageBytes ∧ (readU16 >>= read).run bytes = .ok (msg, []) := by
  rw [decodeMessage]
  split
  case isTrue h =>
    constructor
    · rintro ⟨⟩
    · intro ⟨hle, _⟩
      omega
  case isFalse h =>
    cases hr : (readU16 >>= read).run bytes
    case error e => simp
    case ok p =>
      obtain ⟨m, rest⟩ := p
      cases rest
      case nil =>
        simp only [Except.ok.injEq, Prod.mk.injEq, and_true]
        exact ⟨fun he => ⟨Nat.not_lt.mp h, he⟩, fun he => he.2⟩
      case cons => simp

section Commands

theorem encodes_of_run {bytes : List U8}
    (hrun : (readU16 >>= readCommand).run bytes = .ok (c, [])) : bytes = encodeCommand c := by
  obtain ⟨tag, body, hb, h⟩ := run_bind_eq_ok_iff.mp hrun
  obtain rfl := run_readU16.mp hb
  simp only [readCommand, run_ite_eq_ok_iff, run_bind_eq_ok_iff, run_readU16, run_readU32,
    run_readU64, run_readBytes32] at h
  rcases h with ⟨rfl, seq, _, rfl, rfl, rfl⟩ | ⟨-, h⟩
  · simp [encodeCommand]
  rcases h with ⟨rfl, rfl, rfl⟩ | ⟨-, h⟩
  · simp [encodeCommand]
  rcases h with ⟨rfl, id, _, rfl, addr, _, rfl, size, _, rfl, rfl, rfl⟩ | ⟨-, h⟩
  · simp [encodeCommand]
  rcases h with ⟨rfl, id, _, rfl, addr, _, rfl, data, _, ⟨rfl, -⟩, rfl, rfl⟩ | ⟨-, h⟩
  · simp [encodeCommand]
  rcases h with ⟨rfl, id, _, rfl, port, _, rfl, size, _, rfl, rfl, rfl⟩ | ⟨-, h⟩
  · simp [encodeCommand]
  rcases h with ⟨rfl, id, _, rfl, port, _, rfl, size, _, rfl, value, _, rfl, rfl, rfl⟩ | ⟨-, h⟩
  · simp [encodeCommand]
  rcases h with ⟨rfl, id, _, rfl, offset, _, rfl, len, _, rfl, guest, _, rfl, rfl, rfl⟩ | ⟨-, h⟩
  · simp [encodeCommand]
  rcases h with ⟨rfl, id, _, rfl, offset, _, rfl, len, _, rfl, guest, _, rfl, rfl, rfl⟩ | ⟨-, h⟩
  · simp [encodeCommand]
  · exact absurd h run_throw_ne_ok

theorem run_encodeCommand (h : (encodeCommand c).length < 2 ^ 32) (rest : List U8) :
    (readU16 >>= readCommand).run (encodeCommand c ++ rest) = .ok (c, rest) := by
  cases c
  case mmioWrite id addr data =>
    have hdata : data.length < 2 ^ 32 := by
      simp only [encodeCommand, pushBytes, length_append] at h
      omega
    simp +decide only [encodeCommand, readCommand, append_assoc, run_bind_readU16,
      ↓reduceIte, run_bind_readU32, run_bind_readU64, run_bind_readBytes32 hdata, run_pure_eq]
  all_goals
    simp +decide only [encodeCommand, readCommand, append_assoc, run_bind_readU16,
      ↓reduceIte, run_bind_readU32, run_bind_readU64, run_pure_eq]

theorem decodeCommand_eq_ok_iff : decodeCommand bytes = .ok c ↔
    bytes = encodeCommand c ∧ bytes.length ≤ maxMessageBytes := by
  rw [decodeCommand, decodeMessage_eq_ok_iff]
  constructor
  · rintro ⟨hlen, h⟩
    exact ⟨encodes_of_run h, hlen⟩
  · rintro ⟨rfl, hlen⟩
    refine ⟨hlen, ?_⟩
    have hrun := run_encodeCommand (hlen.trans_lt (by decide)) []
    rwa [append_nil] at hrun

end Commands

section Events

-- A disk response carries an error code exactly when it is not ok.
def Event.Canonical : Event → Prop
  | diskReadResp _ ok _ errorCode  => errorCode.isSome = !ok
  | diskWriteResp _ ok _ errorCode => errorCode.isSome = !ok
  | _                              => True

theorem run_readDiskResp {id bytes : U32} (h : errorCode.isSome = !ok) (rest : List U8) :
    (readDiskResp resp).run (pushDiskResp id ok bytes errorCode ++ rest) =
      .ok (resp id ok bytes errorCode, rest) := by
  rw [readDiskResp, pushDiskResp]
  simp only [run_bind_eq_ok_iff, run_readU32]
  refine ⟨id, _, by simp only [append_assoc]; rfl, if ok then 1 else 0, _, rfl, bytes, _, rfl, ?_⟩
  cases ok
  case true =>
    obtain rfl : errorCode = none := by simpa using h
    rfl
  case false =>
    obtain ⟨code, rfl⟩ := Option.isSome_iff_exists.mp h
    simp only [run_bind_eq_ok_iff, run_readU32, run_pure_eq_ok_iff, bne_self_eq_false,
      Bool.false_eq_true, if_false]
    exact ⟨code, rest, rfl, rfl, rfl⟩

-- The bytes or the text at the end of an event fit their length field.
theorem run_encodeEvent (hc : e.Canonical) (h : (encodeEvent e).length < 2 ^ 32) (rest : List U8) :
    (readU16 >>= readEvent).run (encodeEvent e ++ rest) = .ok (e, rest) := by
  cases e
  case diskReadResp | diskWriteResp =>
    simp only [encodeEvent, append_assoc, run_bind_readU16]
    exact run_readDiskResp hc rest
  case a20Set enabled =>
    cases enabled <;> rfl
  case mmioReadResp | log | serialOutput | panic =>
    simp only [encodeEvent, pushBytes, length_append] at h
    simp +decide only [encodeEvent, readEvent, append_assoc, cons_append, nil_append,
      run_bind_readU16, ↓reduceIte, run_bind_readU8, run_bind_readU32, run_bind_fromU8]
    rw [run_bind_readBytes32 (by omega)]
    simp only [run_bind_fromUtf8, run_pure_eq]
  all_goals
    simp +decide only [encodeEvent, readEvent, append_assoc, cons_append, nil_append,
      run_bind_readU16, ↓reduceIte, run_bind_readU8, run_bind_readU32, run_bind_readU64,
      run_pure_eq]

theorem decodeEvent_encodeEvent (hc : e.Canonical) (h : (encodeEvent e).length ≤ maxMessageBytes) :
    decodeEvent (encodeEvent e) = .ok e := by
  have hrun := run_encodeEvent hc (h.trans_lt (by decide)) []
  rw [append_nil] at hrun
  exact decodeMessage_eq_ok_iff.mpr ⟨h, hrun⟩

end Events

theorem codec_exact :
    (∀ bytes c, decodeCommand bytes = .ok c ↔
      bytes = encodeCommand c ∧ bytes.length ≤ maxMessageBytes) ∧
    (∀ e : Event, e.Canonical → (encodeEvent e).length ≤ maxMessageBytes →
      decodeEvent (encodeEvent e) = .ok e) :=
  ⟨fun _ _ => decodeCommand_eq_ok_iff, fun _ hc h => decodeEvent_encodeEvent hc h⟩

theorem codec_exact_messages :
    decodeCommand [0x01, 0x01, 7, 0, 0, 0, 0, 0, 0, 0xE0, 0, 0, 0, 0, 2, 0, 0, 0, 0xAB, 0xCD] =
      .ok (.mmioWrite 7 0xE0000000 [0xAB, 0xCD]) ∧
    decodeEvent (encodeEvent (.diskReadResp 7 false 512 (some 5))) =
      .ok (.diskReadResp 7 false 512 (some 5)) :=
  ⟨(codec_exact.1 _ _).mpr ⟨by decide, by decide⟩, codec_exact.2 _ rfl (by decide)⟩

end Aero.Ipc

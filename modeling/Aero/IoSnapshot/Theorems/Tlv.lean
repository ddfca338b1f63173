import Aero.IoSnapshot.Tlv

namespace Aero.IoSnapshot

open LeBytes Parse List

variable {bs rest : List U8}

theorem run_decodeU8 (v : U8) : decodeU8.run (v :: rest) = .ok (v, rest) := rfl

theorem run_decodeU16 (v : U16) : decodeU16.run (toLe 2 v.toNat ++ rest) = .ok (v, rest) :=
  (run_word_eq_ok_iff (by decide)).mpr rfl

theorem run_decodeU32 (v : U32) : decodeU32.run (toLe 4 v.toNat ++ rest) = .ok (v, rest) :=
  (run_word_eq_ok_iff (by decide)).mpr rfl

theorem run_decodeU64 (v : U64) : decodeU64.run (toLe 8 v.toNat ++ rest) = .ok (v, rest) :=
  (run_word_eq_ok_iff (by decide)).mpr rfl

theorem run_take {e : SnapshotError} (data : List U8) :
    (take e data.length).run (data ++ rest) = .ok (data, rest) :=
  run_take_eq_ok_iff.mpr ⟨rfl, rfl⟩

namespace SnapshotReader

open SnapshotWriter

theorem run_decodeField (h : field.2.length < 2 ^ 32) :
    decodeField.run (encodeField field ++ rest) = .ok (field, rest) := by
  have hlen := BitVec.toNat_ofNat .. ▸ Nat.mod_eq_of_lt h
  rw [encodeField, append_assoc, append_assoc, ← hlen, decodeField,
    run_bind_of_ok (run_decodeU16 _), run_bind_of_ok (run_decodeU32 _), hlen,
    run_bind_of_ok (run_take _)]
  rfl

theorem length_encodeField (field : U16 × List U8) :
    (encodeField field).length = 6 + field.2.length := by
  simp only [encodeField, length_append, length_toLe]

theorem lookup_eq_none {fields : Fields} (h : tag ∉ fields.map (·.1)) :
    fields.lookup tag = none := by
  rw [lookup_eq_none_iff]
  intro p hp
  rw [bne_iff_ne]
  rintro rfl
  exact h (mem_map_of_mem hp)

theorem parseFields_flatMap {acc fields : Fields}
    (hrounds : (fields.flatMap encodeField).length ≤ rounds)
    (hcount : acc.length + fields.length ≤ maxFields)
    (hlen : ∀ field ∈ fields, field.2.length < 2 ^ 32) (hnodup : ((acc ++ fields).map (·.1)).Nodup) :
    parseFields rounds acc (fields.flatMap encodeField) = .ok (acc ++ fields) := by
  induction fields generalizing rounds acc
  case nil =>
    rw [append_nil]
    cases rounds <;> rfl
  case cons field fields ih =>
    obtain ⟨hfield, hfields⟩ := forall_mem_cons.mp hlen
    have hacc : field.1 ∉ acc.map (·.1) := by
      intro hmem
      rw [map_append, nodup_append] at hnodup
      exact hnodup.2.2 _ hmem _ mem_cons_self rfl
    rw [flatMap_cons] at hrounds ⊢
    rw [length_append, length_encodeField] at hrounds
    rw [length_cons] at hcount
    obtain ⟨rounds, rfl⟩ : ∃ n, rounds = n + 1 := ⟨rounds - 1, by omega⟩
    have hne : encodeField field ++ fields.flatMap encodeField ≠ [] := by
      intro hnil
      have hzero := congrArg length hnil
      rw [length_append, length_encodeField, length_nil] at hzero
      omega
    have hnodup' : ((acc ++ [field] ++ fields).map (·.1)).Nodup := by
      rwa [append_assoc, singleton_append]
    have hcount' : (acc ++ [field]).length + fields.length ≤ maxFields := by
      rw [length_append, length_singleton]
      omega
    have hrounds' : (fields.flatMap encodeField).length ≤ rounds := by omega
    have hrest := ih hrounds' hcount' hfields hnodup'
    rw [parseFields, run_decodeField hfield]
    · simp only [bind, Except.bind]
      rw [if_neg (by omega), lookup_eq_none hacc, if_neg (by decide), hrest, append_assoc,
        singleton_append]
    · exact hne

variable {w : SnapshotWriter}

theorem run_decodeHeader (hid : w.deviceId.length = 4) :
    (decodeHeader w.deviceId).run w.finish =
      .ok (w.deviceVersion, w.fields.flatMap encodeField) := by
  have hmagic {rest : List U8} :
      (take SnapshotError.unexpectedEof 4).run (magic ++ rest) = .ok (magic, rest) := run_take magic
  have hdevice {rest : List U8} : (take SnapshotError.unexpectedEof 4).run (w.deviceId ++ rest) =
      .ok (w.deviceId, rest) := hid ▸ run_take w.deviceId
  simp only [finish, append_assoc]
  rw [decodeHeader, run_bind_of_ok hmagic]
  simp only [ne_eq, not_true_eq_false, if_false]
  rw [run_bind_of_ok (run_decodeU16 _), run_bind_of_ok (run_decodeU16 _)]
  simp only [not_true_eq_false, if_false]
  rw [run_bind_of_ok hdevice]
  simp only [not_true_eq_false, if_false]
  rw [run_bind_of_ok (run_decodeU16 _), run_bind_of_ok (run_decodeU16 _)]
  rfl

theorem parse_finish (hid : w.deviceId.length = 4) (hcount : w.fields.length ≤ maxFields)
    (hlen : ∀ field ∈ w.fields, field.2.length < 2 ^ 32) (hnodup : (w.fields.map (·.1)).Nodup) :
    parse w.finish w.deviceId = .ok ⟨w.deviceVersion, w.fields⟩ := by
  have hheader : ¬w.finish.length < headerLen := by
    simp only [finish, length_append, length_toLe, headerLen]
    simp only [magic, length_cons]
    omega
  rw [parse, if_neg hheader, run_decodeHeader hid]
  simp only [bind, Except.bind]
  have hfields : parseFields (w.fields.flatMap encodeField).length [] (w.fields.flatMap encodeField) =
      .ok ([] ++ w.fields) := parseFields_flatMap le_rfl (by simpa using hcount) hlen hnodup
  rw [hfields, nil_append]

section Written

variable {writes fields : Fields} {data deviceId : List U8} {w₀ : SnapshotWriter}

theorem mem_insertField (h : f ∈ insertField tag data fields) : f = (tag, data) ∨ f ∈ fields := by
  fun_induction insertField tag data fields <;> grind

theorem lookup_insertField :
    (insertField tag data fields).lookup t = if t = tag then some data else fields.lookup t := by
  fun_induction insertField tag data fields <;> grind

theorem pairwise_insertField (h : fields.Pairwise (·.1 < ·.1)) :
    (insertField tag data fields).Pairwise (·.1 < ·.1) := by
  fun_induction insertField tag data fields
  case case4 t b fields hlt hne ih =>
    obtain ⟨hhead, htail⟩ := pairwise_cons.mp h
    refine pairwise_cons.mpr ⟨fun f hf => ?_, ih htail⟩
    rcases mem_insertField hf with rfl | hf
    · bv_omega
    · exact hhead f hf
  all_goals grind [pairwise_cons]

structure Written (w₀ : SnapshotWriter) (writes : Fields) (w : SnapshotWriter) : Prop where
  deviceId : w.deviceId = w₀.deviceId
  deviceVersion : w.deviceVersion = w₀.deviceVersion
  sorted : w.fields.Pairwise (·.1 < ·.1)
  mem : ∀ f ∈ w.fields, f ∈ writes
  lookup : ∀ tag, w.fields.lookup tag = writes.reverse.lookup tag

theorem Written.fieldBytes (h : Written w₀ writes w) (f : U16 × List U8) :
    Written w₀ (writes ++ [f]) (w.fieldBytes f.1 f.2) where
  deviceId := h.deviceId
  deviceVersion := h.deviceVersion
  sorted := pairwise_insertField h.sorted
  mem g hg := by
    rcases mem_insertField hg with rfl | hg
    · exact mem_append_right _ mem_cons_self
    · exact mem_append_left _ (h.mem g hg)
  lookup tag := by
    rw [SnapshotWriter.fieldBytes, lookup_insertField, reverse_append, h.lookup]
    grind

theorem Written.writeAll (h : Written w₀ writes w) (more : Fields) :
    Written w₀ (writes ++ more) (w.writeAll more) := by
  induction more generalizing writes w
  case nil => rwa [append_nil]
  case cons f more ih =>
    rw [← singleton_append, ← append_assoc]
    exact ih (h.fieldBytes f)

-- The reader finds the last value written for every tag, and no tag that was not written.
theorem parse_writeAll (hid : deviceId.length = 4) (version : SnapshotVersion) (writes : Fields)
    (hcount : writes.length ≤ maxFields) (hlen : ∀ f ∈ writes, f.2.length < 2 ^ 32) :
    ∃ r, parse ((new deviceId version).writeAll writes).finish deviceId = .ok r ∧
      r.deviceVersion = version ∧ ∀ tag, r.bytes tag = writes.reverse.lookup tag := by
  have hnew : Written (new deviceId version) [] (new deviceId version) :=
    ⟨rfl, rfl, .nil, fun _ h => h, fun _ => rfl⟩
  have h := hnew.writeAll writes
  generalize (new deviceId version).writeAll writes = w at h
  have hnodup : (w.fields.map (·.1)).Nodup := (pairwise_map.mpr h.sorted).imp BitVec.ne_of_lt
  have hdevice : w.deviceId = deviceId := h.deviceId
  have hlength : w.fields.length ≤ writes.length := ((hnodup.of_map _).subperm h.mem).length_le
  have hparse := parse_finish (hdevice ▸ hid) (hlength.trans hcount)
    (fun f hf => hlen f (h.mem f hf)) hnodup
  exact ⟨⟨w.deviceVersion, w.fields⟩, hdevice ▸ hparse, h.deviceVersion, h.lookup⟩

theorem parse_writeAll_twice :
    ∃ r, parse ((new [80, 73, 84, 48] ⟨1, 0⟩).writeAll [(7, [1]), (7, [2])]).finish
      [80, 73, 84, 48] = .ok r ∧ r.deviceVersion = ⟨1, 0⟩ ∧
      ∀ tag, r.bytes tag = [(7, [2]), (7, [1])].lookup tag :=
  parse_writeAll rfl ⟨1, 0⟩ [(7, [1]), (7, [2])] (by decide) (by decide)

end Written

end SnapshotReader

end Aero.IoSnapshot

import Aero.Usb.EventDriver

namespace Aero.Usb

open SegmentRing BitVec LeBytes ByteStore EventRingProducer

namespace Trb

variable (trb : Trb)

@[simp]
theorem length_toBytes : trb.toBytes.length = trbLen := by
  simp [toBytes, trbLen]

theorem fromDwords_dwords : fromDwords trb.dword0 trb.dword1 trb.dword2 trb.dword3 = trb := by
  obtain ⟨p, s, c⟩ := trb
  simp only [fromDwords, dword0, dword1, dword2, dword3, mk.injEq, and_true]
  apply eq_of_getLsbD_eq
  intro i hi
  by_cases h : i < 32
  case pos => simp [hi, h]
  case neg =>
    have hd : i - 32 < 32 := by omega
    have hs : 32 + (i - 32) = i := by omega
    simp [hi, h, hd, hs]

theorem dwordAt_zero (d : U32) (rest : List U8) :
    dwordAt (toLe 4 d.toNat ++ rest) 0 = d := by
  rw [dwordAt, List.drop_zero, List.take_left' (length_toLe 4 _),
    ofLe_toLe d.isLt, ofNat_toNat, setWidth_eq]

theorem dwordAt_succ (d : U32) (rest : List U8) (i : Nat) :
    dwordAt (toLe 4 d.toNat ++ rest) (i + 1) = dwordAt rest i := by
  rw [dwordAt, Nat.mul_succ, Nat.add_comm, ← List.drop_drop,
    List.drop_left' (length_toLe 4 _), dwordAt]

@[simp]
theorem fromBytes_toBytes : fromBytes trb.toBytes = trb := by
  have hb : trb.toBytes = toLe 4 trb.dword0.toNat ++ (toLe 4 trb.dword1.toNat ++
      (toLe 4 trb.dword2.toNat ++ (toLe 4 trb.dword3.toNat ++ []))) := by
    simp [toBytes]
  simp only [fromBytes, hb, dwordAt_zero, dwordAt_succ, fromDwords_dwords]

theorem getLsbD_setCycle (on : Bool) (i : Nat) :
    (trb.setCycle on).control.getLsbD i = if i = 0 then on else trb.control.getLsbD i := by
  by_cases h : i = 0
  case pos =>
    subst h
    simp [setCycle, controlCycleBit]
  case neg =>
    have hbit : controlCycleBit.getLsbD i = false := by
      have h1 : controlCycleBit = 1#32 := rfl
      rw [h1, getLsbD_one, decide_eq_false h, Bool.and_false]
    have hon : (ofBool on).getLsbD i = false := getLsbD_of_ge _ _ (by omega)
    by_cases hi : i < 32
    · simp only [setCycle, getLsbD_or, getLsbD_and, getLsbD_not, getLsbD_setWidth, hbit, hon, hi, h]
      simp
    · rw [if_neg h, getLsbD_of_ge _ _ (by omega), getLsbD_of_ge _ _ (by omega)]

theorem cycle_eq : trb.cycle = trb.control.getLsbD 0 := by
  rw [cycle, controlCycleBit]
  have h1 : 1 = 1#32 := rfl
  rw [h1, and_one_eq_setWidth_ofBool_getLsbD]
  cases trb.control.getLsbD 0 with
  | false => rfl
  | true => rfl

@[simp]
theorem cycle_setCycle (on : Bool) : (trb.setCycle on).cycle = on := by
  rw [cycle_eq, getLsbD_setCycle, if_pos rfl]

@[simp]
theorem setCycle_setCycle (b b' : Bool) : (trb.setCycle b).setCycle b' = trb.setCycle b' := by
  have h : ((trb.setCycle b).setCycle b').control = (trb.setCycle b').control := by
    apply eq_of_getLsbD_eq
    intro i _
    simp only [getLsbD_setCycle]
    split <;> rfl
  exact congrArg (mk trb.parameter trb.status) h

theorem read_writeTo_self : read (trb.writeTo mem paddr) paddr trbLen = trb.toBytes := by
  rw [writeTo, ← trb.length_toBytes, read_write_self]

theorem readFrom_writeTo_self : readFrom (trb.writeTo mem paddr) paddr = trb := by
  rw [readFrom, read_writeTo_self, fromBytes_toBytes]

theorem readFrom_writeTo_of_disjoint (h : a + trbLen ≤ paddr ∨ paddr + trbLen ≤ a) :
    readFrom (trb.writeTo mem paddr) a = readFrom mem a := by
  rw [readFrom, writeTo, read_write_of_disjoint (by rw [length_toBytes]; exact h),
    readFrom]

end Trb

namespace InterrupterRegs

variable (intr : InterrupterRegs)

@[simp]
theorem writeErdp_erstsz (value : Nat) : (intr.writeErdp value).erstsz = intr.erstsz := by
  rw [writeErdp]
  split <;> rfl

@[simp]
theorem writeErdp_erstba (value : Nat) : (intr.writeErdp value).erstba = intr.erstba := by
  rw [writeErdp]
  split <;> rfl

@[simp]
theorem writeErdp_erstGen (value : Nat) : (intr.writeErdp value).erstGen = intr.erstGen := by
  rw [writeErdp]
  split <;> rfl

theorem erdpPtr_writeErdp (flags : Fin 16) (h : ptr % 16 = 0) :
    (intr.writeErdp (ptr + flags)).erdpPtr = ptr := by
  rw [writeErdp]
  split
  · simp only [erdpPtr]
    omega
  · simp only [erdpPtr]
    omega

end InterrupterRegs

namespace SegmentTable

variable {t : SegmentTable} {p q : RingPos} {ring : EventRingProducer}

section

variable (h : Valid t.size t.count p)
include h

theorem addr_add_le : t.addr p + trbLen ≤ t.base p.seg + t.size p.seg * trbLen := by
  have hle := Nat.mul_le_mul_right trbLen (Nat.succ_le_of_lt h.2)
  rw [Nat.succ_mul] at hle
  rw [addr]
  omega

theorem addr_lt : t.addr p < t.base p.seg + t.size p.seg * trbLen := by
  have hle := addr_add_le h
  have hlen : 0 < trbLen := by decide
  omega

theorem addr_mod : t.addr p % 16 = 0 := by
  have ha := t.base_aligned p.seg h.1
  rw [addr, trbLen]
  omega

theorem addr_pos : 0 < t.addr p :=
  Nat.lt_of_lt_of_le (t.base_pos p.seg h.1) (Nat.le_add_right ..)

end

theorem addr_disjoint (hp : Valid t.size t.count p) (hq : Valid t.size t.count q) (h : q ≠ p) :
    t.addr q + trbLen ≤ t.addr p ∨ t.addr p + trbLen ≤ t.addr q := by
  by_cases hs : q.seg = p.seg
  case neg =>
    have hple := addr_add_le hp
    have hqle := addr_add_le hq
    have hpbase : t.base p.seg ≤ t.addr p := Nat.le_add_right ..
    have hqbase : t.base q.seg ≤ t.addr q := Nat.le_add_right ..
    have hd := t.disjoint q.seg p.seg hq.1 hp.1 hs
    omega
  case pos =>
    have ho : q.off ≠ p.off := by
      intro ho
      apply h
      obtain ⟨s', o'⟩ := q
      dsimp only at hs ho
      rw [hs, ho]
    simp only [addr, hs, trbLen]
    omega

section

variable (hst : t.Stored mem)
include hst

theorem read_entry (h : i < t.count) :
    ErstEntry.read mem t.erstba i = some ⟨t.base i, t.size i⟩ := by
  obtain ⟨hb, hs⟩ := hst i h
  have hend := t.table_end
  have hpos := t.base_pos i h
  have hal := t.base_aligned i h
  have hroom : ¬2 ^ 64 ≤ t.erstba + i * 16 := by omega
  have hok : ¬(t.size i ≠ 0 ∧ (t.base i = 0 ∨ t.base i % 16 ≠ 0)) := by omega
  simp only [ErstEntry.read, hb, hs, if_neg hroom, if_neg hok]
  rw [hal, Nat.sub_zero]

theorem Stored.writeTo (trb : Trb) (h : Valid t.size t.count p) :
    t.Stored (trb.writeTo mem (t.addr p)) := by
  intro i hi
  have hle := addr_add_le h
  have hbase : t.base p.seg ≤ t.addr p := Nat.le_add_right ..
  have hd := t.table_disjoint p.seg h.1
  have hlen := trb.length_toBytes
  rw [Mem.readU64, Mem.readU32, Trb.writeTo, read_write_of_disjoint (by omega),
    read_write_of_disjoint (by omega)]
  exact hst i hi

theorem posToPaddr_eq (hba : ring.erstba = t.erstba) (h : Valid t.size t.count p) :
    ring.posToPaddr mem p = .ok (t.addr p) := by
  have hpos := t.size_pos p.seg h.1
  have hend := t.segment_end p.seg h.1
  have hlt := addr_lt h
  rw [addr] at hlt
  have h0 : ¬t.size p.seg = 0 := by omega
  have hoff := Nat.not_le.mpr h.2
  have hroom : ¬2 ^ 64 ≤ t.base p.seg + p.off * trbLen := by omega
  rw [posToPaddr, hba, read_entry hst h.1]
  simp only [if_neg h0, if_neg hoff, if_neg hroom, addr]

theorem mapPtrFrom_eq (hba : ring.erstba = t.erstba) (h : Valid t.size t.count p)
    (hn : seg + n = t.count) (hseg : seg ≤ p.seg) :
    ring.mapPtrFrom mem (t.addr p) n seg = some p := by
  induction n generalizing seg with
  | zero =>
    have := h.1
    omega
  | succ n ih =>
    have hlt : seg < t.count := by omega
    have hcount := t.count_le
    have hscan : ¬erstScanLimit < seg + 1 := by omega
    have h0 := Nat.pos_iff_ne_zero.mp (t.size_pos seg hlt)
    have hroom := Nat.not_le.mpr (t.segment_end seg hlt)
    rw [mapPtrFrom, if_neg hscan, hba, read_entry hst hlt]
    simp only [if_neg h0, if_neg hroom]
    have hple := addr_lt h
    have hpbase : t.base p.seg ≤ t.addr p := Nat.le_add_right ..
    by_cases hs : seg = p.seg
    case neg =>
      have hd := t.disjoint seg p.seg hlt h.1 hs
      rw [if_pos (by omega)]
      exact ih (by omega) (by omega)
    case pos =>
      subst hs
      have hrel : t.addr p - t.base p.seg = p.off * trbLen := by
        rw [addr]
        omega
      rw [if_neg (by omega), hrel, if_neg (by simp), Nat.mul_div_cancel _ (by decide)]

theorem mapPtrToPos_eq (hba : ring.erstba = t.erstba) (hsz : ring.erstsz = t.count)
    (h : Valid t.size t.count p) : ring.mapPtrToPos mem (t.addr p) = some p := by
  rw [mapPtrToPos, hsz]
  exact mapPtrFrom_eq hst hba h (Nat.zero_add _) (Nat.zero_le _)

end

theorem total_pos (t : SegmentTable) : 0 < t.total :=
  Valid.total_pos (p := ⟨0, 0⟩) ⟨t.count_pos, t.size_pos 0 t.count_pos⟩

theorem at_place (h : At t.size t.count c k) (i : Nat) :
    At t.size t.count (t.place c i) (k + i) := by
  induction i with
  | zero => exact h
  | succ i ih => exact ih.advance t.size_pos

end SegmentTable

end Aero.Usb

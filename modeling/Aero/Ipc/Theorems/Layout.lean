import Aero.Ipc.Layout
import Aero.Lib.Except
import Aero.Lib.Intervals

namespace Aero.Ipc

open LeBytes List BitVec Option IpcQueueInfo Nat

variable {width : PointerWidth} {bytes bytes' : Bytes} {offset stop i n : Nat} {specs : List IpcQueueSpec}
  {q : IpcQueueInfo} {queues : List IpcQueueInfo} {w : Nat × U32} {ws : List (Nat × U32)}

section Words

def wordBytes (w : Nat × U32) : Nat × List U8 :=
  (w.1, toLe 4 w.2.toNat)

theorem length_wordBytes : (wordBytes w).2.length = 4 :=
  length_toLe ..

-- A word that is in the buffer.
def Bytes.Has (width : PointerWidth) (bytes : Bytes) (w : Nat × U32) : Prop :=
  readU32Le width bytes w.1 = .ok w.2

theorem foldlM_writeU32Le (h : ws.foldlM writeU32Le bytes = some bytes') :
    (∀ w ∈ ws, w.1 + 4 ≤ bytes.len) ∧
      bytes' = ⟨bytes.len, ByteStore.writeAll bytes.data (ws.map wordBytes)⟩ := by
  induction ws generalizing bytes
  case nil =>
    cases h
    exact ⟨fun _ hw => (not_mem_nil hw).elim, rfl⟩
  case cons w ws ih =>
    obtain ⟨bytes₁, hstep, hrest⟩ := bind_eq_some_iff.mp h
    rw [writeU32Le] at hstep
    split at hstep
    case isFalse => cases hstep
    case isTrue hroom =>
      cases hstep
      obtain ⟨hws, rfl⟩ := ih hrest
      exact ⟨forall_mem_cons.mpr ⟨hroom, hws⟩, rfl⟩

-- The places of two words do not overlap.
def WordsApart (v w : Nat × U32) : Prop :=
  v.1 + 4 ≤ w.1 ∨ w.1 + 4 ≤ v.1

theorem readU32Le_eq (hroom : offset + 4 ≤ bytes.len) (hlen : bytes.len ≤ width.usizeMax) :
    readU32Le width bytes offset =
      .ok (BitVec.ofNat 32 (ofLe (ByteStore.read bytes.data offset 4))) := by
  rw [readU32Le, PointerWidth.checkedAdd, if_pos (by omega)]
  simp only [if_pos hroom]

-- Words that do not overlap are all in the buffer once they are written.
theorem has_of_foldlM (h : ws.foldlM writeU32Le bytes = some bytes')
    (hlen : bytes.len ≤ width.usizeMax) (hapart : ws.Pairwise WordsApart) :
    ∀ w ∈ ws, bytes'.Has width w := by
  obtain ⟨hroom, rfl⟩ := foldlM_writeU32Le h
  intro w hw
  have hpairwise : (ws.map wordBytes).Pairwise ByteStore.Apart := by
    rw [pairwise_map]
    refine hapart.imp fun hvw => ?_
    exact hvw
  have hread := ByteStore.read_writeAll_of_mem (f := bytes.data) hpairwise
    (mem_map_of_mem hw)
  rw [length_wordBytes] at hread
  rw [Bytes.Has, readU32Le_eq (by exact hroom w hw) (by exact hlen)]
  simp only [wordBytes] at hread
  simp only [hread]
  rw [ofLe_toLe w.2.isLt, ofNat_toNat, setWidth_eq]

end Words

section Placement

-- The end of the region of a queue.
def IpcQueueInfo.regionEnd (q : IpcQueueInfo) : Nat :=
  q.offsetBytes + ringCtrl.bytes + q.capacityBytes

def IpcQueueInfo.spec (q : IpcQueueInfo) : IpcQueueSpec :=
  ⟨q.kind, q.capacityBytes⟩

-- The regions of the queues lie one after the other between two offsets.
structure Placed (offset : Nat) (queues : List IpcQueueInfo) (stop : Nat) : Prop where
  le       : offset ≤ stop
  from_le  : ∀ q ∈ queues, offset ≤ q.offsetBytes
  le_stop  : ∀ q ∈ queues, q.regionEnd ≤ stop
  aligned  : ∀ q ∈ queues, q.offsetBytes % recordAlign = 0 ∧ q.capacityBytes % recordAlign = 0
  apart    : queues.Pairwise fun p q => p.regionEnd ≤ q.offsetBytes

theorem Placed.cons (hq : q.offsetBytes % recordAlign = 0 ∧ q.capacityBytes % recordAlign = 0)
    (hoffset : offset ≤ q.offsetBytes) (h : Placed q.regionEnd queues stop) :
    Placed offset (q :: queues) stop := by
  have hle : q.offsetBytes ≤ q.regionEnd := by
    rw [regionEnd]
    omega
  refine ⟨hoffset.trans (hle.trans h.le), forall_mem_cons.mpr ⟨hoffset, fun p hp => ?_⟩,
    forall_mem_cons.mpr ⟨h.le, h.le_stop⟩, forall_mem_cons.mpr ⟨hq, h.aligned⟩,
    pairwise_cons.mpr ⟨h.from_le, h.apart⟩⟩
  exact hoffset.trans (hle.trans (h.from_le p hp))

theorem placeQueues_spec (h : placeQueues width offset specs = some (queues, stop)) :
    queues.map spec = specs := by
  induction specs generalizing offset queues
  case nil =>
    cases h
    rfl
  case cons spec specs ih =>
    rw [placeQueues] at h
    split at h
    case isFalse => cases h
    case isTrue =>
      obtain ⟨⟨queues, stop⟩, hrest, heq⟩ := map_eq_some_iff.mp h
      cases heq
      rw [map_cons, ih hrest]
      rfl

def ringBytes (spec : IpcQueueSpec) : Nat :=
  ringCtrl.bytes + spec.capacityBytes

def layoutBytes (specs : List IpcQueueSpec) : Nat :=
  ipcHeader.bytes + specs.length * queueDesc.bytes + (specs.map ringBytes).sum

theorem PointerWidth.wrappingAdd_eq (h : a + b ≤ width.usizeMax) : width.wrappingAdd a b = a + b :=
  mod_eq_of_lt (lt_succ_of_le h)

theorem alignUp_eq (haligned : offset % recordAlign = 0) (h : offset ≤ width.usizeMax) :
    alignUp width offset recordAlign = offset := by
  have hroom : offset + 3 ≤ width.usizeMax := by
    rw [recordAlign] at haligned
    cases width <;> rw [PointerWidth.usizeMax] at h ⊢ <;> omega
  rw [alignUp, recordAlign, PointerWidth.wrappingAdd_eq hroom]
  rw [recordAlign] at haligned
  omega

-- As long as the rings fit into the address space, no offset wraps around.
theorem placeQueues_placed (h : placeQueues width offset specs = some (queues, stop))
    (haligned : offset % recordAlign = 0)
    (hroom : offset + (specs.map ringBytes).sum ≤ width.usizeMax) : Placed offset queues stop := by
  induction specs generalizing offset queues
  case nil =>
    cases h
    exact ⟨le_rfl, fun _ hq => (not_mem_nil hq).elim, fun _ hq => (not_mem_nil hq).elim,
      fun _ hq => (not_mem_nil hq).elim, .nil⟩
  case cons spec specs ih =>
    rw [map_cons, sum_cons] at hroom
    rw [placeQueues] at h
    split at h
    case isFalse => cases h
    case isTrue hspec =>
      obtain ⟨⟨queues, stop⟩, hrest, heq⟩ := map_eq_some_iff.mp h
      cases heq
      have hnext : offset + ringBytes spec ≤ width.usizeMax := by omega
      rw [alignUp_eq haligned (by omega), ← ringBytes, PointerWidth.wrappingAdd_eq hnext] at hrest
      rw [alignUp_eq haligned (by omega)]
      have hend : regionEnd ⟨spec.kind, offset, spec.capacityBytes⟩ = offset + ringBytes spec :=
        Nat.add_assoc ..
      refine Placed.cons ⟨haligned, hspec.1⟩ le_rfl ?_
      rw [hend]
      refine ih hrest ?_ (by omega)
      rw [ringBytes, ringCtrl.bytes]
      rw [recordAlign] at haligned hspec ⊢
      omega

theorem placeQueues_capacity (h : placeQueues width offset specs = some (queues, stop)) :
    ∀ spec ∈ specs, spec.capacityBytes < 2 ^ 32 := by
  induction specs generalizing offset queues
  case nil => exact fun _ hspec => (not_mem_nil hspec).elim
  case cons spec specs ih =>
    rw [placeQueues] at h
    split at h
    case isFalse => cases h
    case isTrue hspec =>
      obtain ⟨⟨queues, stop⟩, hrest, heq⟩ := map_eq_some_iff.mp h
      cases heq
      exact forall_mem_cons.mpr ⟨hspec.2, ih hrest⟩

end Placement

section Table

theorem headerWords_bounds (hw : w ∈ headerWords stop n) : w.1 + 4 ≤ 16 := by
  simp only [headerWords, mem_cons, not_mem_nil, or_false] at hw
  obtain rfl | rfl | rfl | rfl := hw <;>
    simp [ipcHeader.magic, ipcHeader.version, ipcHeader.totalBytes, ipcHeader.queueCount]

theorem queueWords_bounds (hw : w ∈ queueWords i q) :
    16 + i * 16 ≤ w.1 ∧ w.1 + 4 ≤ 32 + i * 16 ∨
      q.offsetBytes ≤ w.1 ∧ w.1 + 4 ≤ q.offsetBytes + 16 := by
  simp only [queueWords, ipcHeader.bytes, queueDesc.bytes, queueDesc.kind, queueDesc.offsetBytes,
    queueDesc.capacityBytes, queueDesc.reserved, ringCtrl.head, ringCtrl.tailReserve,
    ringCtrl.tailCommit, ringCtrl.capacity, mem_cons, not_mem_nil, or_false] at hw
  obtain rfl | rfl | rfl | rfl | rfl | rfl | rfl | rfl := hw <;> simp only <;> omega

theorem pairwise_queueWords (h : 32 + i * 16 ≤ q.offsetBytes) :
    (queueWords i q).Pairwise WordsApart := by
  simp only [queueWords, ipcHeader.bytes, queueDesc.bytes, queueDesc.kind, queueDesc.offsetBytes,
    queueDesc.capacityBytes, queueDesc.reserved, ringCtrl.head, ringCtrl.tailReserve,
    ringCtrl.tailCommit, ringCtrl.capacity, pairwise_cons, forall_mem_cons, WordsApart,
    not_mem_nil, false_imp_iff, implies_true, List.Pairwise.nil, and_true]
  omega

theorem pairwise_bufferWords (h : Placed (16 + queues.length * 16) queues stop) :
    (bufferWords stop queues).Pairwise WordsApart := by
  have hget : ∀ x ∈ queues.zipIdx, x.1 ∈ queues ∧ x.2 < queues.length := by
    intro x hx
    obtain ⟨hlt, heq⟩ := mem_zipIdx' hx
    exact ⟨heq ▸ getElem_mem _, hlt⟩
  rw [bufferWords, pairwise_append, pairwise_flatMap]
  refine ⟨?head, ⟨?one, ?two⟩, ?both⟩
  case head =>
    simp [headerWords, WordsApart, ipcHeader.magic, ipcHeader.version, ipcHeader.totalBytes,
      ipcHeader.queueCount]
  case one =>
    intro x hx
    obtain ⟨hmem, hlt⟩ := hget x hx
    have := h.from_le x.1 hmem
    exact pairwise_queueWords (by omega)
  case two =>
    rw [pairwise_iff_getElem]
    intro a b ha hb hab v hv w hw
    rw [length_zipIdx] at ha hb
    rw [getElem_zipIdx] at hv hw
    have hapart := pairwise_iff_getElem.mp h.apart a b ha hb hab
    have hfrom := h.from_le _ (getElem_mem ha)
    have hvb := queueWords_bounds hv
    have hwb := queueWords_bounds hw
    rw [regionEnd, ringCtrl.bytes] at hapart
    rw [WordsApart]
    omega
  case both =>
    intro v hv w hw
    obtain ⟨x, hx, hw⟩ := mem_flatMap.mp hw
    obtain ⟨hmem, hlt⟩ := hget x hx
    have hfrom := h.from_le x.1 hmem
    have hvb := headerWords_bounds hv
    have hwb := queueWords_bounds hw
    rw [WordsApart]
    omega

end Table

section Parse

-- The words of a queue give the queue back.
theorem parseQueue_eq (hwords : ∀ w ∈ queueWords i q, bytes.Has width w)
    (haligned : q.offsetBytes % recordAlign = 0 ∧ q.capacityBytes % recordAlign = 0)
    (hend : q.regionEnd ≤ bytes.len) (hlen : bytes.len < 2 ^ 32)
    (hfits : bytes.len ≤ width.usizeMax) : parseQueue width bytes i = .ok q := by
  rw [regionEnd, ringCtrl.bytes] at hend
  have hoffset : (BitVec.ofNat 32 q.offsetBytes).toNat = q.offsetBytes :=
    (BitVec.toNat_ofNat ..).trans (mod_eq_of_lt (by omega))
  have hcapacity : (BitVec.ofNat 32 q.capacityBytes).toNat = q.capacityBytes :=
    (BitVec.toNat_ofNat ..).trans (mod_eq_of_lt (by omega))
  simp only [queueWords, forall_mem_cons, Bytes.Has] at hwords
  obtain ⟨hkind, hoff, hcap, hres, -, -, -, hring, -⟩ := hwords
  simp only [parseQueue, hkind, hoff, hcap, hres, hring, hoffset, hcapacity, haligned.1, haligned.2,
    PointerWidth.checkedAdd, ringCtrl.bytes, ne_eq, not_true_eq_false, if_false, Except.ok_bind]
  rw [if_pos (by omega), Option.bind_some, if_pos (by omega)]
  simp only [if_neg (show ¬q.offsetBytes + 16 + q.capacityBytes > bytes.len by omega)]
  rfl

theorem parseQueues_eq
    (h : ∀ k q, queues[k]? = some q → parseQueue width bytes (i + k) = .ok q) :
    parseQueues width bytes i queues.length = .ok queues := by
  induction queues generalizing i
  case nil => rfl
  case cons q queues ih =>
    have hhead : parseQueue width bytes i = .ok q := h 0 q rfl
    have htail := ih fun k p hp => by rw [← h (k + 1) p hp, show i + 1 + k = i + (k + 1) by omega]
    rw [length_cons, parseQueues, hhead, htail]
    rfl

theorem mem_bufferWords (hq : queues[i]? = some q) (hw : w ∈ queueWords i q) :
    w ∈ bufferWords stop queues := by
  refine mem_append_right _ (mem_flatMap.mpr ⟨(q, i), ?_, hw⟩)
  rw [mk_mem_zipIdx_iff_getElem?]
  exact hq

-- The header and the descriptors are written inside of the buffer.
theorem table_le_of_words (hroom : ∀ w ∈ bufferWords stop queues, w.1 + 4 ≤ bytes.len) :
    16 + queues.length * 16 ≤ bytes.len := by
  cases hn : queues.length
  case zero =>
    have hcount : (3 * 4, BitVec.ofNat 32 queues.length) ∈ headerWords stop queues.length := by
      simp [headerWords, ipcHeader.queueCount]
    exact hroom _ (mem_append_left _ hcount)
  case succ n =>
    obtain ⟨q, hq⟩ : ∃ q, queues[n]? = some q :=
      ⟨_, getElem?_eq_getElem (by omega)⟩
    have hreserved : (16 + n * 16 + 3 * 4, 0) ∈ queueWords n q := by
      simp [queueWords, ipcHeader.bytes, queueDesc.bytes, queueDesc.reserved]
    have := hroom _ (mem_bufferWords hq hreserved)
    omega

theorem parseIpcBuffer_eq (hwords : ∀ w ∈ bufferWords bytes.len queues, bytes.Has width w)
    (hplaced : Placed (16 + queues.length * 16) queues bytes.len) (hlen : bytes.len < 2 ^ 32)
    (hfits : bytes.len ≤ width.usizeMax) :
    parseIpcBuffer width bytes = .ok ⟨bytes.len, queues⟩ := by
  have hle := hplaced.le
  have hqueues : parseQueues width bytes 0 queues.length = .ok queues := by
    refine parseQueues_eq fun k q hq => ?_
    have hmem := mem_of_getElem? hq
    rw [zero_add]
    exact parseQueue_eq (fun w hw => hwords w (mem_bufferWords hq hw)) (hplaced.aligned q hmem)
      (hplaced.le_stop q hmem) hlen hfits
  have hheader : ∀ w ∈ headerWords bytes.len queues.length, bytes.Has width w :=
    fun w hw => hwords w (mem_append_left _ hw)
  simp only [headerWords, forall_mem_cons, Bytes.Has] at hheader
  obtain ⟨hmagic, hversion, htotal, hcount, -⟩ := hheader
  have hlen' : (BitVec.ofNat 32 bytes.len).toNat = bytes.len :=
    (BitVec.toNat_ofNat ..).trans (mod_eq_of_lt hlen)
  have hcount' : (BitVec.ofNat 32 queues.length).toNat = queues.length :=
    (BitVec.toNat_ofNat ..).trans (mod_eq_of_lt (by omega))
  simp only [parseIpcBuffer, hmagic, hversion, htotal, hcount, hlen', hcount', hqueues,
    PointerWidth.checkedAdd, ipcHeader.bytes, queueDesc.bytes, ne_eq, not_true_eq_false, if_false, Except.ok_bind]
  rw [if_neg (by omega), if_pos (by omega)]
  simp only [if_neg (show ¬bytes.len < 16 + queues.length * 16 by omega)]
  rfl

end Parse

-- What a layout has to be for the queues of `specs` in a buffer of `len` bytes.
structure IpcLayout.Describes (layout : IpcLayout) (specs : List IpcQueueSpec) (len : Nat) :
    Prop where
  spec_eq  : layout.queues.map spec = specs
  aligned  : ∀ q ∈ layout.queues, q.offsetBytes % recordAlign = 0
  inside   : ∀ q ∈ layout.queues, ipcHeader.bytes + specs.length * queueDesc.bytes ≤ q.offsetBytes ∧
    q.regionEnd ≤ len
  disjoint : layout.queues.Pairwise fun p q =>
    p.regionEnd ≤ q.offsetBytes ∨ q.regionEnd ≤ p.offsetBytes

-- The header, the descriptors and the rings take up room of their own.
theorem IpcLayout.Describes.layoutBytes_le {layout : IpcLayout}
    (h : layout.Describes specs bytes.len) (hroom : 16 + specs.length * 16 ≤ bytes.len) :
    layoutBytes specs ≤ bytes.len := by
  have hsum := Intervals.sum_le_of_disjoint h.disjoint h.inside
  have hring : layout.queues.map (fun q => q.regionEnd - q.offsetBytes) = specs.map ringBytes := by
    rw [← h.spec_eq, List.map_map]
    refine map_congr_left fun q _ => ?_
    rw [regionEnd, add_assoc, Nat.add_sub_cancel_left]
    rfl
  rw [hring] at hsum
  rw [layoutBytes]
  rw [ipcHeader.bytes, queueDesc.bytes] at hsum ⊢
  omega

theorem layoutBytes_lt (hcapacity : ∀ spec ∈ specs, spec.capacityBytes < 2 ^ 32)
    (hcount : specs.length < 2 ^ 28) : layoutBytes specs < 2 ^ 64 := by
  have hsum : (specs.map ringBytes).sum ≤ specs.length * (16 + 2 ^ 32) := by
    clear hcount
    induction specs
    case nil => exact le_rfl
    case cons spec specs ih =>
      obtain ⟨hspec, hspecs⟩ := forall_mem_cons.mp hcapacity
      have hle := ih hspecs
      rw [map_cons, sum_cons, length_cons, ringBytes, ringCtrl.bytes]
      omega
  rw [layoutBytes, ipcHeader.bytes, queueDesc.bytes]
  omega

-- The parser finds the queues that the buffer was made for, each in a region of its own, exactly when
-- the header, the descriptors and the rings fit into the address space. With 64-bit pointers they do.
theorem parse_create_iff (h : createIpcBuffer width specs = some bytes) :
    ((∃ layout, parseIpcBuffer width bytes = .ok layout ∧ layout.Describes specs bytes.len) ↔
      layoutBytes specs ≤ width.usizeMax) ∧
    (width = .bits64 → layoutBytes specs ≤ width.usizeMax) := by
  rw [createIpcBuffer] at h
  split at h
  case isFalse => cases h
  split at h
  case h_1 => cases h
  case h_2 queues stop hplace =>
    split at h
    case isFalse => cases h
    case isTrue hstop =>
      have hspecs := placeQueues_spec hplace
      have hcount : queues.length = specs.length := by rw [← hspecs, length_map]
      obtain ⟨hroom, hbytes⟩ := foldlM_writeU32Le h
      have hlen : bytes.len = stop := by rw [hbytes]
      have htable := table_le_of_words hroom
      have hfits : stop ≤ width.usizeMax := hstop.2.trans (Nat.div_le_self ..)
      rw [hcount] at htable
      refine ⟨⟨fun ⟨layout, _, hlayout⟩ => ?_, fun hsize => ?_⟩, fun hwidth => ?_⟩
      · rw [← hlen] at hfits htable
        exact (hlayout.layoutBytes_le htable).trans hfits
      · have hinit : ipcHeader.bytes + specs.length * queueDesc.bytes ≤ width.usizeMax :=
          (Nat.le_add_right ..).trans hsize
        rw [PointerWidth.wrappingAdd_eq hinit] at hplace
        have hplaced := placeQueues_placed hplace (by
          rw [ipcHeader.bytes, queueDesc.bytes, recordAlign]; omega) hsize
        rw [← hcount] at hplaced
        have hwords : ∀ w ∈ bufferWords stop queues, bytes.Has width w :=
          has_of_foldlM h hfits (pairwise_bufferWords hplaced)
        rw [← hlen] at hwords hplaced hfits hstop
        refine ⟨_, parseIpcBuffer_eq hwords hplaced hstop.1 hfits, hspecs,
          fun q hq => (hplaced.aligned q hq).1, fun q hq => ⟨?_, hplaced.le_stop q hq⟩,
          hplaced.apart.imp .inl⟩
        rw [← hcount]
        exact hplaced.from_le q hq
      · rw [hwidth]
        have hfew : specs.length < 2 ^ 28 := by
          dsimp only at htable
          omega
        exact Nat.le_pred_of_lt (layoutBytes_lt (placeQueues_capacity hplace) hfew)

theorem parse_create_iff_two_queues : ∃ bytes,
    createIpcBuffer .bits32 [⟨0, 8⟩, ⟨1, 16⟩] = some bytes ∧
    ∃ layout, parseIpcBuffer .bits32 bytes = .ok layout ∧
      layout.Describes [⟨0, 8⟩, ⟨1, 16⟩] bytes.len := by
  have hcreated : (createIpcBuffer .bits32 [⟨0, 8⟩, ⟨1, 16⟩]).isSome = true := by decide +kernel
  obtain ⟨bytes, hbytes⟩ := isSome_iff_exists.mp hcreated
  exact ⟨bytes, hbytes, (parse_create_iff hbytes).1.mpr (by decide)⟩

-- The second ring ends behind the address space of wasm32, so that the third one begins inside of it
-- and the buffer ends before it does.
theorem create_wraps : ∃ bytes,
    createIpcBuffer .bits32 [⟨0, 4⟩, ⟨1, 0xfffffffc⟩, ⟨2, 0⟩] = some bytes ∧ bytes.len = 112 ∧
    parseIpcBuffer .bits32 bytes = .error (.queueOutOfBounds 1 84 0xfffffffc 112) :=
  ⟨_, rfl, rfl, rfl⟩

end Aero.Ipc

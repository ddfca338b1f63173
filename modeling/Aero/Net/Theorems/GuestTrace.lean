import Aero.Net.Theorems.GuestStream

namespace Aero.Net

open List Net.Action TcpConn
open NetworkStack (call_effect emitChunks emitIpv4 exampleConfig exampleSegment isSegment_unique
  lookup_of_insert lookup_of_replace mem_of_findKey new_opened)

-- The segment of a call for an open connection, unless it resets the connection.
def NetworkStack.segmentOf (s : NetworkStack) : StackOp → Option (TcpKey × TcpConn × TcpSegment)
  | .frame (some ⟨_, .ipv4 ⟨_, dstIp, .tcp tcp⟩⟩) _ =>
    if s.ipAssigned && !tcp.flags.contains TcpFlags.rst then
      (s.tcp.lookup ⟨tcp.srcPort, dstIp, tcp.dstPort⟩).map fun conn =>
        (⟨tcp.srcPort, dstIp, tcp.dstPort⟩, conn, tcp)
    else none
  | _ => none

-- A run of the stack, with all actions that the calls have returned.
structure TcpTrace where
  stack : NetworkStack
  log : List Action

namespace TcpTrace

def start (cfg : StackConfig) : TcpTrace :=
  ⟨.new cfg, []⟩

def step (t : TcpTrace) (op : StackOp) : TcpTrace :=
  ⟨(t.stack.call op).1, t.log ++ (t.stack.call op).2⟩

def sentTo (t : TcpTrace) (id : U32) : List U8 :=
  bytesFor id (t.log.filterMap Action.tcpSend?)

-- The number of connections that the run has opened.
def opened (t : TcpTrace) : Nat :=
  connects t.log

-- The number of bytes that were taken from the guest.
def taken (t : TcpTrace) (conn : TcpConn) : Nat :=
  (t.sentTo conn.id ++ conn.bufferedToProxy.flatten).length

-- The segments of the connections are parts of the streams of the guest.
def FromGuest (guest : U32 → List U8) (t : TcpTrace) (op : StackOp) : Prop :=
  ∀ r ∈ t.stack.segmentOf op,
    TcpConn.Genuine (guest r.2.1.id) r.2.1 (t.taken r.2.1) (afterSyn r.2.2)

-- No SYN with data for an open connection.
def WithoutSynData (t : TcpTrace) (op : StackOp) : Prop :=
  ∀ r ∈ t.stack.segmentOf op, BareSyn r.2.2

-- What was sent on a tunnel is the begin of the stream of its connection. For an open connection,
-- it is the stream up to the next sequence number but for the bytes that wait for the proxy.
structure Exact (guest : U32 → List U8) (t : TcpTrace) : Prop where
  sent : ∀ id, t.sentTo id <+: guest id
  conns : ∀ key conn, t.stack.tcp.lookup key = some conn →
    ∃ n, TcpConn.Taken (guest conn.id) (t.sentTo conn.id) conn n

-- A segment with the next byte of an open connection moves the connection to its end.
def Advances (t : TcpTrace) (op : StackOp) : Prop :=
  ∀ r ∈ t.stack.segmentOf op, r.2.1.Contains r.2.2 →
    ∀ conn' ∈ (t.step op).stack.tcp.lookup r.1, conn'.Reaches r.2.2

-- No segment that overlaps with bytes that were taken, and that has the next byte, reaches the end
-- of the sequence numbers.
def WithoutCrossing (t : TcpTrace) (op : StackOp) : Prop :=
  ∀ r ∈ t.stack.segmentOf op, r.2.1.Contains r.2.2 → ¬r.2.1.Crosses r.2.2

instance decidableFromGuest (guest : U32 → List U8) (t : TcpTrace) (op : StackOp) :
    Decidable (t.FromGuest guest op) :=
  inferInstanceAs (Decidable (∀ r ∈ t.stack.segmentOf op,
    TcpConn.Genuine (guest r.2.1.id) r.2.1 (t.taken r.2.1) (afterSyn r.2.2)))

instance decidableWithoutSynData (t : TcpTrace) (op : StackOp) : Decidable (t.WithoutSynData op) :=
  inferInstanceAs (Decidable (∀ r ∈ t.stack.segmentOf op, BareSyn r.2.2))

instance decidableAdvances (t : TcpTrace) (op : StackOp) : Decidable (t.Advances op) :=
  inferInstanceAs (Decidable (∀ r ∈ t.stack.segmentOf op,
    (r.2.1.guestNextSeq - r.2.2.seqNumber).toNat < r.2.2.payload.length →
      ∀ conn' ∈ (t.step op).stack.tcp.lookup r.1,
        (conn'.guestNextSeq - (r.2.2.seqNumber + BitVec.ofNat 32 r.2.2.payload.length)).toNat ≤ 1))

instance decidableWithoutCrossing (t : TcpTrace) (op : StackOp) :
    Decidable (t.WithoutCrossing op) :=
  inferInstanceAs (Decidable (∀ r ∈ t.stack.segmentOf op,
    (r.2.1.guestNextSeq - r.2.2.seqNumber).toNat < r.2.2.payload.length →
      ¬(r.2.2.seqNumber ≠ r.2.1.guestNextSeq ∧
        2 ^ 32 ≤ r.2.2.seqNumber.toNat + r.2.2.payload.length)))

section Invariant

variable {guest : U32 → List U8} {t : TcpTrace}

structure Sound (guest : U32 → List U8) (t : TcpTrace) : Prop extends t.Exact guest where
  valid : t.stack.Opened t.opened
  bound : ∀ id, t.stack.nextTcpId ≤ id → t.sentTo id = []

theorem sentTo_append (s' : NetworkStack) (out : List Action) (id : U32) :
    sentTo ⟨s', t.log ++ out⟩ id = t.sentTo id ++ bytesFor id (out.filterMap tcpSend?) := by
  rw [sentTo, filterMap_append, bytesFor_append]
  rfl

theorem Sound.idle (h : t.Sound guest) (hv : s'.Opened (opened ⟨s', t.log ++ out⟩))
    (hid : t.stack.nextTcpId ≤ s'.nextTcpId)
    (hout : out.filterMap tcpSend? = [])
    (htable : ∀ key conn, s'.tcp.lookup key = some conn → t.stack.tcp.lookup key = some conn ∨
      ∃ tcp ourIsn, conn = .fresh t.stack.nextTcpId key tcp ourIsn) :
    Sound guest ⟨s', t.log ++ out⟩ := by
  have hsent id : sentTo ⟨s', t.log ++ out⟩ id = t.sentTo id := by
    rw [sentTo_append, hout]
    exact append_nil _
  refine ⟨⟨fun id => ?_, fun key conn hl => ?_⟩, hv, fun id hle => ?_⟩
  · rw [hsent]
    exact h.sent id
  · rw [hsent]
    rcases htable key conn hl with hold | ⟨seq, isn, rfl⟩
    · exact h.conns key conn hold
    · have hnil := h.bound _ (BitVec.le_refl _)
      refine ⟨0, ?_⟩
      rw [show (fresh t.stack.nextTcpId key seq isn).id = t.stack.nextTcpId from rfl, hnil]
      exact .fresh
  · rw [hsent]
    exact h.bound id (BitVec.le_trans hid hle)

theorem Sound.update (h : t.Sound guest) (hv : s'.Opened (opened ⟨s', t.log ++ out⟩))
    (hid : t.stack.nextTcpId ≤ s'.nextTcpId)
    (hpres : t.stack.tcp.lookup key = some conn) (hsame : conn.Same conn')
    (hsends : ∀ d ∈ out.filterMap tcpSend?, d.1 = conn.id)
    (htaken : TcpConn.Taken (guest conn.id)
      (t.sentTo conn.id ++ bytesFor conn.id (out.filterMap tcpSend?)) conn' n)
    (htable : ∀ key' c, s'.tcp.lookup key' = some c →
      (key' = key ∧ c = conn') ∨ (key' ≠ key ∧ t.stack.tcp.lookup key' = some c)) :
    Sound guest ⟨s', t.log ++ out⟩ := by
  have hother {id : U32} (hne : id ≠ conn.id) :
      sentTo ⟨s', t.log ++ out⟩ id = t.sentTo id := by
    rw [sentTo_append, bytesFor_of_ne hne hsends, append_nil]
  refine ⟨⟨fun id => ?_, fun key' c hl => ?_⟩, hv, fun id hle => ?_⟩
  · by_cases heq : id = conn.id
    case pos =>
      rw [heq, sentTo_append]
      exact htaken.isPrefix
    case neg =>
      rw [hother heq]
      exact h.sent id
  · rcases htable key' c hl with ⟨rfl, rfl⟩ | ⟨hne, hold⟩
    · rw [hsame.id, sentTo_append]
      exact ⟨n, htaken⟩
    · have hdiff : c.id ≠ conn.id := fun heq => hne (h.valid.ids_inj _ _ _ _ hold hpres heq)
      rw [hother hdiff]
      exact h.conns key' c hold
  · have hlt := h.valid.ids_lt key conn hpres
    have hle' := BitVec.le_trans hid hle
    rw [hother (by bv_omega)]
    exact h.bound id hle'

theorem payloadSends_id (conn : TcpConn) (tcp : TcpSegment) :
    ∀ d ∈ conn.payloadSends tcp, d.1 = conn.id := by
  intro d hd
  rw [payloadSends] at hd
  split at hd
  · rw [sends] at hd
    split at hd
    · rw [mem_singleton.mp hd]
    · exact (not_mem_nil hd).elim
  · exact (not_mem_nil hd).elim

theorem segmentOf_of_isSegment {s : NetworkStack} (h : op.IsSegment key tcp)
    (hpres : s.tcp.lookup key = some conn) (hrst : tcp.flags.contains TcpFlags.rst = false)
    (hassigned : s.ipAssigned = true) : s.segmentOf op = some (key, conn, tcp) := by
  cases h
  simp [NetworkStack.segmentOf, hrst, hassigned, hpres]

theorem isSegment_of_segmentOf {s : NetworkStack} (h : s.segmentOf op = some r) :
    op.IsSegment r.1 r.2.2 ∧ s.tcp.lookup r.1 = some r.2.1 ∧
      r.2.2.flags.contains TcpFlags.rst = false ∧ s.ipAssigned = true := by
  unfold NetworkStack.segmentOf at h
  split at h
  · split at h
    case isTrue hcond =>
      obtain ⟨conn, hl, rfl⟩ := Option.map_eq_some_iff.mp h
      rw [Bool.and_eq_true, Bool.not_eq_true'] at hcond
      exact ⟨.mk, hl, hcond.2, hcond.1⟩
    case isFalse => cases h
  · cases h

theorem emitChunks_sends (s : NetworkStack) (conn : TcpConn) (start rounds : Nat)
    (data : List U8) : (s.emitChunks conn start rounds data).2.filterMap tcpSend? = [] := by
  refine filterMap_eq_nil_iff.mpr fun a ha => ?_
  obtain ⟨frame, rfl⟩ := s.emitChunks_frames conn start rounds data a ha
  rfl

theorem Sound.quiet (h : t.Sound guest) (hv : s'.Opened (opened ⟨s', t.log ++ out⟩))
    (hid : t.stack.nextTcpId ≤ s'.nextTcpId)
    (hpres : t.stack.tcp.lookup key = some conn) (hsame : conn.Same conn')
    (hstream : conn.SameStream conn') (hout : out.filterMap tcpSend? = [])
    (htable : ∀ key' c, s'.tcp.lookup key' = some c →
      (key' = key ∧ c = conn') ∨ (key' ≠ key ∧ t.stack.tcp.lookup key' = some c)) :
    Sound guest ⟨s', t.log ++ out⟩ := by
  obtain ⟨n, hn⟩ := h.conns key conn hpres
  refine h.update (n := n) hv hid hpres hsame ?_ ?_ htable
  · rw [hout]
    exact fun _ hd => (not_mem_nil hd).elim
  · rw [hout, show bytesFor conn.id [] = [] from rfl, append_nil]
    exact hn.congr hstream

theorem Sound.effect (h : t.Sound guest) (hop : t.FromGuest guest op) (hsyn : t.WithoutSynData op)
    (heff : t.stack.CallEffect op s' out) (hopened : opened ⟨s', t.log ++ out⟩ < 2 ^ 32 - 1) :
    Sound guest ⟨s', t.log ++ out⟩ := by
  have hmore : opened ⟨s', t.log ++ out⟩ = t.opened + connects out := connects_append ..
  rw [hmore] at hopened
  obtain ⟨hv, hid⟩ := h.valid.effect heff hopened
  rw [← hmore] at hv
  have hremoved {key : TcpKey} {conn : TcpConn} (hpres : t.stack.tcp.lookup key = some conn)
      (htable : s'.tcp = t.stack.tcp.erase key) (hquiet : ∀ a ∈ out, a.isQuiet = true) :
      Sound guest ⟨s', t.log ++ out⟩ := by
    refine h.quiet hv hid hpres (.refl conn) ⟨rfl, rfl, rfl, rfl, rfl⟩ (sends_of_quiet hquiet) ?_
    intro key' c hl
    rw [htable] at hl
    exact .inr (NetworkStack.lookup_of_erase hl)
  cases heff with
  | idle keeps tcp quiet =>
    refine h.idle hv hid (sends_of_quiet quiet) fun key conn hl => .inl ?_
    rw [tcp] at hl
    exact hl
  | opened isSegment absent nextTcpId guestMac table quiet =>
    refine h.idle hv hid ((filterMap_cons_none rfl).trans (sends_of_quiet quiet))
      fun key conn hl => ?_
    rw [table] at hl
    rcases lookup_of_insert hl with ⟨rfl, rfl⟩ | ⟨-, hold⟩
    · exact .inr ⟨_, _, rfl⟩
    · exact .inl hold
  | reset isSegment present rst keeps table quiet => exact hremoved present table quiet
  | aborted isSegment present rst accepts keeps table quiet => exact hremoved present table quiet
  | dropped found op_eq keeps table quiet =>
    exact hremoved (mem_of_findKey found).1 table quiet
  | segment isSegment present rst assigned keeps table confined =>
    rename_i key conn tcp
    obtain ⟨n, hn⟩ := h.conns key conn present
    have hseg := segmentOf_of_isSegment isSegment present rst assigned
    have hgen := (hop _ hseg).of_bareSyn (hsyn _ hseg)
    rw [taken, hn.length_eq] at hgen
    obtain ⟨n', hn'⟩ := hn.onSegment hgen
    refine h.update hv hid present (conn.onSegment_same tcp) ?_ (n := n') ?_ ?_
    · rw [confined.sends_eq]
      exact payloadSends_id conn tcp
    · rw [confined.sends_eq]
      exact hn'
    · intro key' c hl
      rw [table] at hl
      exact lookup_of_replace hl
  | connected found keeps table confined =>
    rename_i key conn _
    have hpres := (mem_of_findKey found).1
    obtain ⟨n, hn⟩ := h.conns key conn hpres
    refine h.update hv hid hpres conn.connect_same ?_ (n := n) ?_ ?_
    · rw [confined.sends_eq]
      intro d hd
      obtain ⟨chunk, -, rfl⟩ := mem_map.mp hd
      rfl
    · rw [confined.sends_eq]
      exact hn.connect
    · intro key' c hl
      rw [table] at hl
      exact lookup_of_insert hl
  | finished found keeps table confined =>
    rename_i key conn _
    refine h.quiet hv hid (mem_of_findKey found).1 conn.onFinSent_same
      conn.onFinSent_sameStream confined.sends_eq ?_
    intro key' c hl
    rw [table] at hl
    exact lookup_of_replace hl
  | data found synAcked finSent keeps table chunks =>
    rename_i connId key conn bytes nowMs
    obtain ⟨s₀, -, rfl⟩ := chunks
    refine h.quiet hv hid (mem_of_findKey found).1 (conn.onData_same bytes)
      ⟨rfl, rfl, rfl, rfl, rfl⟩ (emitChunks_sends ..) ?_
    intro key' c hl
    rw [table] at hl
    exact lookup_of_insert hl

theorem start_sound (cfg : StackConfig) : (start cfg).Sound guest :=
  ⟨⟨fun _ => List.nil_prefix, fun key conn h => by cases h⟩, new_opened cfg, fun _ _ => rfl⟩

theorem segment_table {s s' : NetworkStack} (heff : s.CallEffect op s' out)
    (hseg : op.IsSegment key tcp) (hpres : s.tcp.lookup key = some conn)
    (hrst : tcp.flags.contains TcpFlags.rst = false) (hassigned : s.ipAssigned = true) :
    (s'.tcp.lookup key = none ∧ conn.accepts tcp = true) ∨
      s'.tcp.lookup key =
        if (conn.onSegment tcp).shouldRemove then none else some (conn.onSegment tcp) := by
  have hne := NetworkStack.isSegment_ne_tcpEvent hseg
  have hunique {key' : TcpKey} {tcp' : TcpSegment} {conn' : TcpConn}
      (hseg' : op.IsSegment key' tcp') (hpres' : s.tcp.lookup key' = some conn') :
      key' = key ∧ tcp' = tcp ∧ conn' = conn := by
    obtain ⟨rfl, rfl⟩ := isSegment_unique hseg hseg'
    rw [hpres, Option.some.injEq] at hpres'
    exact ⟨rfl, rfl, hpres'.symm⟩
  cases heff with
  | idle keeps tcp quiet data closing segment =>
    have := segment _ _ _ hseg hpres
    rw [hassigned] at this
    cases this
  | opened isSegment absent =>
    rw [(isSegment_unique hseg isSegment).1, hpres] at absent
    cases absent
  | reset isSegment present rst =>
    obtain ⟨-, rfl, -⟩ := hunique isSegment present
    rw [hrst] at rst
    cases rst
  | aborted isSegment present rst accepts keeps table =>
    obtain ⟨rfl, rfl, rfl⟩ := hunique isSegment present
    rw [table, AList.lookup_erase]
    exact .inl ⟨rfl, accepts⟩
  | segment isSegment present rst assigned keeps table =>
    obtain ⟨rfl, rfl, rfl⟩ := hunique isSegment present
    rw [table]
    refine .inr ?_
    split
    · exact AList.lookup_erase ..
    · exact AList.lookup_insert ..
  | connected => exact absurd rfl (hne _ _)
  | finished => exact absurd rfl (hne _ _)
  | data => exact absurd rfl (hne _ _)
  | dropped found op_eq =>
    rcases op_eq with rfl | rfl
    · exact absurd rfl (hne _ _)
    · exact absurd rfl (hne _ _)

theorem Sound.advances_iff (h : t.Sound guest) (hop : t.FromGuest guest op)
    (hsyn : t.WithoutSynData op) :
    t.Advances op ↔ t.WithoutCrossing op := by
  refine forall₂_congr fun r hr => ?_
  obtain ⟨key, conn, tcp⟩ := r
  obtain ⟨hseg, hpres, hrst, hassigned⟩ := isSegment_of_segmentOf hr
  obtain ⟨n, hn⟩ := h.conns key conn hpres
  have hgen := (hop _ hr).of_bareSyn (hsyn _ hr)
  rw [taken, hn.length_eq] at hgen
  refine imp_congr_right fun hcont => ?_
  have hreach := reaches_iff hn hgen hcont
  rcases segment_table (call_effect h.valid.toValid op) hseg hpres hrst hassigned with
    ⟨hnone, hacc⟩ | hlookup
  · -- the connection was aborted, so that it had taken the segment
    rw [step, hnone]
    refine iff_of_true (fun _ hmem => by cases hmem) ?_
    exact ((accepts_iff hgen.length_le).mp hacc).2
  · rw [step, hlookup, ← hreach]
    by_cases hcross : conn.Crosses tcp
    case pos =>
      rw [hn.not_removed hgen hcont hcross]
      exact ⟨fun hall => hall _ rfl, fun hr conn' hmem => Option.mem_some_iff.mp hmem ▸ hr⟩
    case neg =>
      refine iff_of_true (fun conn' hmem => ?_) (hreach.mpr hcross)
      split at hmem
      · cases hmem
      · rw [← Option.mem_some_iff.mp hmem]
        exact hreach.mpr hcross

end Invariant

theorem opened_le_step (t : TcpTrace) (op : StackOp) : t.opened ≤ (t.step op).opened := by
  rw [opened, opened, step, connects_append]
  exact Nat.le_add_right _ _

-- Along every run in which the segments of the connections are parts of the guest's streams, what
-- the proxy gets is exact; and every segment with the next byte is taken, exactly when none of them
-- overlaps and crosses the end of the sequence numbers. The identifiers are used once only.
theorem guest_stream_exact (cfg : StackConfig) (guest : U32 → List U8) (ops : List StackOp)
    (h : Runs.Each step (FromGuest guest) (start cfg) ops)
    (hsyn : Runs.Each step WithoutSynData (start cfg) ops)
    (hopened : (ops.foldl step (start cfg)).opened < 2 ^ 32 - 1) :
    Runs.Always step (Exact guest) (start cfg) ops ∧
      (Runs.Each step Advances (start cfg) ops ↔
        Runs.Each step WithoutCrossing (start cfg) ops) := by
  have hboth := h.and hsyn
  have hsound :=
    Runs.always_of_each
      (fun t op ht hop => ht.effect hop.1.1 hop.1.2 (call_effect ht.valid.toValid op) hop.2)
      (start_sound cfg) (hboth.and (Runs.each_lt opened_le_step hopened))
  exact ⟨hsound.mono fun _ ht => ht.toExact,
    hsound.each_iff hboth fun _ _ ht hop => ht.advances_iff hop.1 hop.2⟩

section Example

-- Eight bytes from the sequence number 0xfffffffd on, the first two of which are sent twice.
def exampleOps (retransmitted rest : StackOp) : List StackOp :=
  [NetworkStack.exampleDhcp, NetworkStack.exampleSegment 0xfffffffc 0 TcpFlags.syn [],
    NetworkStack.exampleSegment 0xfffffffd 1000005 TcpFlags.ack [1, 2], retransmitted,
    .tcpEvent (.connected 1) 0, rest]

-- The first two bytes alone are sent again, and the rest crosses the end in order.
theorem guest_stream_exact_across_end :
    Runs.Each step (FromGuest fun _ => [1, 2, 3, 4, 5, 6, 7, 8]) (start exampleConfig)
        (exampleOps (exampleSegment 0xfffffffd 1000005 TcpFlags.ack [1, 2])
          (exampleSegment 0xffffffff 1000005 TcpFlags.ack [3, 4, 5, 6, 7, 8])) ∧
      Runs.Always step (Exact fun _ => [1, 2, 3, 4, 5, 6, 7, 8]) (start exampleConfig)
        (exampleOps (exampleSegment 0xfffffffd 1000005 TcpFlags.ack [1, 2])
          (exampleSegment 0xffffffff 1000005 TcpFlags.ack [3, 4, 5, 6, 7, 8])) ∧
      Runs.Each step Advances (start exampleConfig)
        (exampleOps (exampleSegment 0xfffffffd 1000005 TcpFlags.ack [1, 2])
          (exampleSegment 0xffffffff 1000005 TcpFlags.ack [3, 4, 5, 6, 7, 8])) := by
  have hgen : Runs.Each step (FromGuest fun _ => [1, 2, 3, 4, 5, 6, 7, 8])
      (start exampleConfig)
      (exampleOps (exampleSegment 0xfffffffd 1000005 TcpFlags.ack [1, 2])
        (exampleSegment 0xffffffff 1000005 TcpFlags.ack [3, 4, 5, 6, 7, 8])) := by
    decide +kernel
  obtain ⟨hexact, hiff⟩ := guest_stream_exact exampleConfig _ _ hgen (by decide +kernel)
    (by decide +kernel)
  exact ⟨hgen, hexact, hiff.mpr (by decide +kernel)⟩

-- The retransmission carries all eight bytes. Its end is 5, which compares as a byte that was
-- taken long ago, so that the stack drops it.
theorem retransmission_across_end_dropped :
    Runs.Each step (FromGuest fun _ => [1, 2, 3, 4, 5, 6, 7, 8]) (start exampleConfig)
        (exampleOps (exampleSegment 0xfffffffd 1000005 TcpFlags.ack [1, 2, 3, 4, 5, 6, 7, 8])
          (exampleSegment 0xfffffffd 1000005 TcpFlags.ack [1, 2, 3, 4, 5, 6, 7, 8])) ∧
      ¬Runs.Each step Advances (start exampleConfig)
        (exampleOps (exampleSegment 0xfffffffd 1000005 TcpFlags.ack [1, 2, 3, 4, 5, 6, 7, 8])
          (exampleSegment 0xfffffffd 1000005 TcpFlags.ack [1, 2, 3, 4, 5, 6, 7, 8])) := by
  decide +kernel

-- A retransmitted SYN carries the first three bytes. The stack takes them to begin at the SYN.
example :
    let ops := [NetworkStack.exampleDhcp, exampleSegment 100 0 TcpFlags.syn [],
      exampleSegment 100 0 TcpFlags.syn [1, 2, 3], .tcpEvent (.connected 1) 0]
    Runs.Each step (FromGuest fun _ => [1, 2, 3]) (start exampleConfig) ops ∧
      (ops.foldl step (start exampleConfig)).sentTo 1 = [2, 3] := by
  decide +kernel

end Example

end TcpTrace

end Aero.Net

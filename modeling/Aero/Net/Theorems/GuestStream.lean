import Aero.Net.Theorems.StackCalls

namespace Aero.Net

open List BitVec
open BitVec (add_assoc ofNat ofNat_add toNat toNat_add toNat_ofNat)

def bytesFor (id : U32) (sends : List (U32 × List U8)) : List U8 :=
  sends.flatMap fun d => if d.1 = id then d.2 else []

namespace TcpConn

-- The connection has taken the first `n` bytes of `stream`, and `sent` are those of them that were
-- given to the proxy.
structure Taken (stream sent : List U8) (conn : TcpConn) (n : Nat) : Prop where
  le : n ≤ stream.length
  bytes : sent ++ conn.bufferedToProxy.flatten = stream.take n
  next : conn.guestNextSeq =
    conn.guestIsn + 1 + BitVec.ofNat 32 (n + if conn.guestFinReceived then 1 else 0)
  fin : conn.guestFinReceived = true → n = stream.length
  flushed : conn.proxyConnected = true → conn.bufferedToProxy = []

-- The segment carries the bytes of the stream from the place `p` on, which is not more than 65535
-- bytes away from the place `n`. A FIN is at the end of the stream.
structure Carries (stream : List U8) (conn : TcpConn) (n : Nat) (tcp : TcpSegment) (p : Nat) :
    Prop where
  seq : tcp.seqNumber = conn.guestIsn + 1 + BitVec.ofNat 32 p
  le : p + tcp.payload.length ≤ stream.length
  payload : tcp.payload = (stream.drop p).take tcp.payload.length
  length_le : tcp.payload.length ≤ 65535
  ahead : p ≤ n + 65535
  behind : n ≤ p + 65535
  fin : tcp.flags.contains TcpFlags.fin = true → p + tcp.payload.length = stream.length

def Genuine (stream : List U8) (conn : TcpConn) (n : Nat) (tcp : TcpSegment) : Prop :=
  (tcp.payload = [] ∧ tcp.flags.contains TcpFlags.fin = false) ∨ ∃ p, Carries stream conn n tcp p

-- The data of a segment with SYN begins at the sequence number after it.
def afterSyn (tcp : TcpSegment) : TcpSegment :=
  if tcp.flags.contains TcpFlags.syn then { tcp with seqNumber := tcp.seqNumber + 1 } else tcp

-- A SYN comes without data and without FIN.
def BareSyn (tcp : TcpSegment) : Prop :=
  tcp.flags.contains TcpFlags.syn = true →
    tcp.payload = [] ∧ tcp.flags.contains TcpFlags.fin = false
  deriving Decidable

theorem Genuine.of_bareSyn (h : Genuine stream conn n (afterSyn tcp)) (hbare : BareSyn tcp) :
    Genuine stream conn n tcp := by
  rw [afterSyn] at h
  split at h
  case isTrue hsyn => exact .inl (hbare hsyn)
  case isFalse => exact h

theorem Genuine.length_le (h : Genuine stream conn n tcp) : tcp.payload.length ≤ 65535 := by
  rcases h with ⟨hempty, -⟩ | ⟨p, hc⟩
  · rw [hempty]
    exact Nat.zero_le _
  · exact hc.length_le

-- The segment contains the next byte that the connection expects.
def Contains (conn : TcpConn) (tcp : TcpSegment) : Prop :=
  (conn.guestNextSeq - tcp.seqNumber).toNat < tcp.payload.length

-- The segment begins before the next byte and reaches the end of the sequence numbers.
def Crosses (conn : TcpConn) (tcp : TcpSegment) : Prop :=
  tcp.seqNumber ≠ conn.guestNextSeq ∧ 2 ^ 32 ≤ tcp.seqNumber.toNat + tcp.payload.length

variable {stream sent : List U8} {conn : TcpConn} {n p : Nat} {tcp : TcpSegment}

theorem toNat_place (isn : U32) (k : Nat) :
    (isn + 1 + ofNat 32 k).toNat = (isn.toNat + 1 + k) % 2 ^ 32 := by
  have h1 : (1 : U32).toNat = 1 := rfl
  rw [toNat_add, toNat_add, toNat_ofNat]
  omega

theorem toNat_distance (a b : U32) : (a - b).toNat = (2 ^ 32 - b.toNat + a.toNat) % 2 ^ 32 :=
  toNat_sub a b

theorem contains_iff (h : Taken stream sent conn n) (hc : Carries stream conn n tcp p) :
    conn.Contains tcp ↔
      conn.guestFinReceived = false ∧ p ≤ n ∧ n < p + tcp.payload.length := by
  have hseq := congrArg toNat hc.seq
  have hnext := congrArg toNat h.next
  rw [toNat_place] at hseq hnext
  have hle := hc.le
  have hlen := hc.length_le
  have hahead := hc.ahead
  have hbehind := hc.behind
  rw [Contains, toNat_distance]
  cases hfin : conn.guestFinReceived with
  | false =>
    rw [hfin] at hnext
    simp only [Bool.false_eq_true, if_false, true_and] at hnext ⊢
    omega
  | true =>
    have hn := h.fin hfin
    rw [hfin] at hnext
    simp only [if_true] at hnext ⊢
    omega

-- The stack takes the segments with the next byte, but for those that cross the end of the
-- sequence numbers.
theorem accepts_iff (hlen : tcp.payload.length ≤ 65535) :
    conn.accepts tcp = true ↔ conn.Contains tcp ∧ ¬conn.Crosses tcp := by
  have hempty : (!tcp.payload.isEmpty) = true ↔ 0 < tcp.payload.length := by
    rw [Bool.not_eq_true', ← Bool.not_eq_true, List.isEmpty_iff]
    exact List.length_pos_iff.symm
  have heq : tcp.seqNumber = conn.guestNextSeq ↔
      tcp.seqNumber.toNat = conn.guestNextSeq.toNat := BitVec.toNat_inj.symm
  rw [accepts, Bool.and_eq_true, hempty, Bool.or_eq_true, beq_iff_eq, Bool.and_eq_true,
    Bool.not_eq_true', decide_eq_false_iff_not, decide_eq_true_iff, BitVec.le_def, BitVec.lt_def,
    Contains, Crosses, toNat_distance, toNat_add, toNat_ofNat, ne_eq, heq]
  omega

section

variable (h : Taken stream sent conn n) (hc : Carries stream conn n tcp p)
  (hcont : conn.Contains tcp)
include h hc hcont

theorem distance_eq : (conn.guestNextSeq - tcp.seqNumber).toNat = n - p := by
  obtain ⟨hfin, hle, hlt⟩ := (contains_iff h hc).mp hcont
  have hseq := congrArg toNat hc.seq
  have hnext := congrArg toNat h.next
  have hlen := hc.length_le
  rw [toNat_place] at hseq hnext
  rw [hfin] at hnext
  simp only [Bool.false_eq_true, if_false] at hnext
  rw [toNat_distance]
  omega

theorem newBytes_eq : conn.newBytes tcp = (stream.drop n).take (p + tcp.payload.length - n) := by
  obtain ⟨-, hle, hlt⟩ := (contains_iff h hc).mp hcont
  rw [newBytes, distance_eq h hc hcont, hc.payload, drop_take, drop_drop, length_take, length_drop]
  congr 1
  · have := hc.le
    omega
  · rw [Nat.add_sub_cancel' hle]

end

theorem bytesFor_sends (data : List U8) (hflush : conn.proxyConnected = true →
    conn.bufferedToProxy = []) :
    sent ++ bytesFor conn.id (conn.sends data) ++ (conn.take data).bufferedToProxy.flatten =
      sent ++ conn.bufferedToProxy.flatten ++ data := by
  rw [sends, take]
  by_cases hproxy : conn.proxyConnected = true
  case pos => simp [hproxy, hflush hproxy, bytesFor]
  case neg => simp [hproxy, bytesFor]

theorem Taken.take (h : Taken stream sent conn n) (hc : Carries stream conn n tcp p)
    (hcont : conn.Contains tcp) :
    Taken stream (sent ++ bytesFor conn.id (conn.sends (conn.newBytes tcp)))
      (conn.take (conn.newBytes tcp)) (p + tcp.payload.length) := by
  obtain ⟨hfin, hle, hlt⟩ := (contains_iff h hc).mp hcont
  have hlen : (conn.newBytes tcp).length = p + tcp.payload.length - n := by
    rw [newBytes_eq h hc hcont, length_take, length_drop]
    have := hc.le
    omega
  have hkeep : (conn.take (conn.newBytes tcp)).guestFinReceived = false ∧
      (conn.take (conn.newBytes tcp)).guestIsn = conn.guestIsn ∧
      (conn.take (conn.newBytes tcp)).guestNextSeq =
        conn.guestNextSeq + ofNat 32 (conn.newBytes tcp).length := by
    rw [TcpConn.take]
    split
    · exact ⟨hfin, rfl, rfl⟩
    · exact ⟨hfin, rfl, rfl⟩
  obtain ⟨hfin', hisn, hnext⟩ := hkeep
  refine ⟨hc.le, ?_, ?_, fun hf => ?_, fun hp => ?_⟩
  · rw [bytesFor_sends _ h.flushed, h.bytes, newBytes_eq h hc hcont, ← take_add]
    congr 1
    omega
  · rw [hnext, hisn, h.next, hfin', hfin]
    rw [add_assoc, ← ofNat_add]
    congr 2
    omega
  · rw [hfin'] at hf
    cases hf
  · rw [TcpConn.take] at hp ⊢
    split at hp
    case isTrue hproxy =>
      rw [if_pos hproxy]
      exact h.flushed hproxy
    case isFalse hproxy => exact absurd hp hproxy

theorem Taken.onPayload (h : Taken stream sent conn n) (hc : Carries stream conn n tcp p) :
    ∃ n', Taken stream (sent ++ bytesFor conn.id (conn.payloadSends tcp)) (conn.onPayload tcp) n' ∧
      (n' = n ∨ n' = p + tcp.payload.length) ∧
      (conn.Contains tcp ∧ ¬conn.Crosses tcp → n' = p + tcp.payload.length) ∧
      (¬(conn.Contains tcp ∧ ¬conn.Crosses tcp) → n' = n) := by
  rw [payloadSends, TcpConn.onPayload]
  by_cases hacc : conn.Contains tcp ∧ ¬conn.Crosses tcp
  case pos =>
    rw [if_pos ((accepts_iff hc.length_le).mpr hacc), if_pos ((accepts_iff hc.length_le).mpr hacc)]
    exact ⟨_, h.take hc hacc.1, .inr rfl, fun _ => rfl, fun hn => absurd hacc hn⟩
  case neg =>
    have hna := mt (accepts_iff hc.length_le).mp hacc
    rw [if_neg hna, if_neg hna]
    refine ⟨n, ?_, .inl rfl, fun hy => absurd hy hacc, fun _ => rfl⟩
    simpa [bytesFor] using h

structure SameStream (conn conn' : TcpConn) : Prop where
  bufferedToProxy : conn'.bufferedToProxy = conn.bufferedToProxy
  guestIsn : conn'.guestIsn = conn.guestIsn
  guestNextSeq : conn'.guestNextSeq = conn.guestNextSeq
  guestFinReceived : conn'.guestFinReceived = conn.guestFinReceived
  proxyConnected : conn'.proxyConnected = conn.proxyConnected

theorem Taken.congr (h : Taken stream sent conn n) (hs : conn.SameStream conn') :
    Taken stream sent conn' n := by
  refine ⟨h.le, ?_, ?_, ?_, ?_⟩
  · rw [hs.bufferedToProxy]
    exact h.bytes
  · rw [hs.guestNextSeq, hs.guestIsn, hs.guestFinReceived]
    exact h.next
  · rw [hs.guestFinReceived]
    exact h.fin
  · rw [hs.proxyConnected, hs.bufferedToProxy]
    exact h.flushed

theorem onAck_sameStream (conn : TcpConn) (tcp : TcpSegment) :
    conn.SameStream (conn.onAck tcp) := by
  rw [onAck]
  split
  · exact ⟨rfl, rfl, rfl, rfl, rfl⟩
  · exact ⟨rfl, rfl, rfl, rfl, rfl⟩

theorem onFinSent_sameStream (conn : TcpConn) : conn.SameStream conn.onFinSent := by
  rw [onFinSent]
  split
  · exact ⟨rfl, rfl, rfl, rfl, rfl⟩
  · exact ⟨rfl, rfl, rfl, rfl, rfl⟩

-- The guest's FIN is taken when all of the stream was.
theorem Taken.onGuestFin (h : Taken stream sent conn n)
    (hseq : tcp.seqNumber = conn.guestIsn + 1 + ofNat 32 p)
    (hend : p + tcp.payload.length = stream.length) (hnear : stream.length ≤ n + 131070) :
    Taken stream sent (conn.onGuestFin tcp) n := by
  rw [TcpConn.onGuestFin]
  by_cases heq : tcp.seqNumber + ofNat 32 tcp.payload.length = conn.guestNextSeq
  case neg =>
    rw [if_neg heq]
    exact h
  case pos =>
    rw [if_pos heq]
    have hle := h.le
    have hnat := congrArg toNat heq
    rw [hseq, h.next, add_assoc, ← ofNat_add, toNat_place, toNat_place] at hnat
    have hopen : conn.guestFinReceived = false := by
      cases hfin : conn.guestFinReceived with
      | false => rfl
      | true =>
        have hn := h.fin hfin
        rw [hfin] at hnat
        simp only [if_true] at hnat
        omega
    rw [hopen] at hnat
    simp only [Bool.false_eq_true, if_false] at hnat
    have hn : n = stream.length := by omega
    refine ⟨h.le, h.bytes, ?_, fun _ => hn, h.flushed⟩
    rw [h.next, hopen]
    simp only [Bool.false_eq_true, if_false]
    rw [add_assoc, Nat.add_zero, ofNat_add]
    rfl

theorem Taken.onFin (h : Taken stream sent conn n)
    (hfin : tcp.flags.contains TcpFlags.fin = true → ∃ p,
      tcp.seqNumber = conn.guestIsn + 1 + ofNat 32 p ∧
        p + tcp.payload.length = stream.length ∧ stream.length ≤ n + 131070) :
    Taken stream sent (conn.onFin tcp) n := by
  rw [TcpConn.onFin]
  split
  case isTrue hflag =>
    obtain ⟨p, hseq, hend, hnear⟩ := hfin hflag
    exact (h.onGuestFin hseq hend hnear).congr (onFinSent_sameStream _)
  case isFalse => exact h

theorem onAck_payloadSends (conn : TcpConn) (tcp : TcpSegment) :
    (conn.onAck tcp).payloadSends tcp = conn.payloadSends tcp := by
  rw [onAck]
  split <;> rfl

theorem Taken.onSegment_of_carries (h : Taken stream sent conn n)
    (hc : Carries stream conn n tcp p) :
    ∃ n', Taken stream (sent ++ bytesFor conn.id (conn.payloadSends tcp)) (conn.onSegment tcp) n' ∧
      (conn.Contains tcp ∧ ¬conn.Crosses tcp → n' = p + tcp.payload.length) ∧
      (¬(conn.Contains tcp ∧ ¬conn.Crosses tcp) → n' = n) := by
  have hs := onAck_sameStream conn tcp
  have hc' : Carries stream (conn.onAck tcp) n tcp p :=
    ⟨by rw [hs.guestIsn]; exact hc.seq, hc.le, hc.payload, hc.length_le, hc.ahead, hc.behind,
      hc.fin⟩
  obtain ⟨n', hn', hor, hyes, hno⟩ := (h.congr hs).onPayload hc'
  rw [onAck_payloadSends, (onAck_same conn tcp).id] at hn'
  rw [Contains, Crosses, hs.guestNextSeq] at hyes hno
  refine ⟨n', hn'.onFin fun hflag => ⟨p, ?_, hc.fin hflag, ?_⟩, hyes, hno⟩
  · rw [(onPayload_same _ tcp).guestIsn, hs.guestIsn]
    exact hc.seq
  · have hend := hc.fin hflag
    have hlen := hc.length_le
    have hahead := hc.ahead
    omega

theorem onSegment_of_empty (conn : TcpConn) (hempty : tcp.payload = [])
    (hfin : tcp.flags.contains TcpFlags.fin = false) :
    conn.onSegment tcp = conn.onAck tcp ∧ conn.payloadSends tcp = [] := by
  have hacc (c : TcpConn) : c.accepts tcp = false := by
    rw [accepts, hempty]
    rfl
  rw [onSegment, onPayload, onFin, payloadSends, hacc, hacc, hfin]
  exact ⟨rfl, rfl⟩

theorem Taken.onSegment (h : Taken stream sent conn n) (hg : Genuine stream conn n tcp) :
    ∃ n', Taken stream (sent ++ bytesFor conn.id (conn.payloadSends tcp)) (conn.onSegment tcp)
      n' := by
  rcases hg with ⟨hempty, hfin⟩ | ⟨p, hc⟩
  · obtain ⟨hseg, hsends⟩ := onSegment_of_empty conn hempty hfin
    rw [hseg, hsends]
    have hsame := h.congr (onAck_sameStream conn tcp)
    exact ⟨n, by simpa [bytesFor] using hsame⟩
  · obtain ⟨n', hn', -, -⟩ := h.onSegment_of_carries hc
    exact ⟨n', hn'⟩

def Reaches (conn : TcpConn) (tcp : TcpSegment) : Prop :=
  (conn.guestNextSeq - (tcp.seqNumber + BitVec.ofNat 32 tcp.payload.length)).toNat ≤ 1

section

variable (h : Taken stream sent conn n)
include h

-- A connection that missed the next byte is not at the end of the guest's stream.
theorem Taken.not_removed (hg : Genuine stream conn n tcp) (hcont : conn.Contains tcp)
    (hcross : conn.Crosses tcp) : (conn.onSegment tcp).shouldRemove = false := by
  rcases hg with ⟨hempty, -⟩ | ⟨p, hc⟩
  · rw [Contains, hempty] at hcont
    cases hcont
  · obtain ⟨n', hn', -, hno⟩ := h.onSegment_of_carries hc
    obtain ⟨-, -, hlt⟩ := (contains_iff h hc).mp hcont
    have hn := hno fun hand => hand.2 hcross
    have hend := hc.le
    have hopen : (conn.onSegment tcp).guestFinReceived = false := by
      cases hfin : (conn.onSegment tcp).guestFinReceived with
      | false => rfl
      | true =>
        have := hn'.fin hfin
        omega
    rw [shouldRemove, hopen, Bool.false_and, Bool.false_and]

theorem reaches_iff (hg : Genuine stream conn n tcp) (hcont : conn.Contains tcp) :
    (conn.onSegment tcp).Reaches tcp ↔ ¬conn.Crosses tcp := by
  rcases hg with ⟨hempty, -⟩ | ⟨p, hc⟩
  · rw [Contains, hempty] at hcont
    cases hcont
  · obtain ⟨n', hn', hyes, hno⟩ := h.onSegment_of_carries hc
    obtain ⟨-, hle, hlt⟩ := (contains_iff h hc).mp hcont
    have hnext := congrArg toNat hn'.next
    have hisn := (onSegment_same conn tcp).guestIsn
    rw [toNat_place, hisn] at hnext
    have hlen := hc.length_le
    have hend := hc.le
    rw [Reaches, toNat_distance, hc.seq, add_assoc, ← ofNat_add, toNat_place]
    by_cases hcross : conn.Crosses tcp
    case pos =>
      have hn := hno fun hand => hand.2 hcross
      refine iff_of_false ?_ (not_not.mpr hcross)
      cases hfin : (conn.onSegment tcp).guestFinReceived with
      | true =>
        have := hn'.fin hfin
        omega
      | false =>
        rw [hfin] at hnext
        simp only [Bool.false_eq_true, if_false] at hnext
        omega
    case neg =>
      have hn := hyes ⟨hcont, hcross⟩
      refine iff_of_true ?_ hcross
      split at hnext
      · omega
      · omega

theorem Taken.isPrefix : sent <+: stream :=
  (prefix_append sent _).trans (h.bytes ▸ take_prefix n stream)

theorem Taken.length_eq : (sent ++ conn.bufferedToProxy.flatten).length = n := by
  rw [h.bytes, length_take, Nat.min_eq_left h.le]

end

theorem Taken.fresh {id : U32} {guestIsn ourIsn : U32} :
    Taken stream [] (.fresh id key guestIsn ourIsn) 0 :=
  ⟨Nat.zero_le _, rfl, (add_zero (guestIsn + 1)).symm, Bool.noConfusion, Bool.noConfusion⟩

theorem bytesFor_map (id : U32) (chunks : List (List U8)) :
    bytesFor id (chunks.map fun chunk => (id, chunk)) = chunks.flatten := by
  induction chunks with
  | nil => rfl
  | cons chunk chunks ih =>
    rw [bytesFor] at ih
    rw [bytesFor, map_cons, flatMap_cons, ih, if_pos rfl, flatten_cons]

theorem Taken.connect (h : Taken stream sent conn n) :
    Taken stream (sent ++ bytesFor conn.id (conn.bufferedToProxy.map fun chunk => (conn.id, chunk)))
      conn.connect n := by
  refine ⟨h.le, ?_, h.next, h.fin, fun _ => rfl⟩
  rw [bytesFor_map, h.bytes]
  exact append_nil _

instance decidableCarries (stream : List U8) (conn : TcpConn) (n : Nat) (tcp : TcpSegment)
    (p : Nat) : Decidable (Carries stream conn n tcp p) :=
  decidable_of_iff
    (tcp.seqNumber = conn.guestIsn + 1 + BitVec.ofNat 32 p ∧
      p + tcp.payload.length ≤ stream.length ∧
      tcp.payload = (stream.drop p).take tcp.payload.length ∧ tcp.payload.length ≤ 65535 ∧
      p ≤ n + 65535 ∧ n ≤ p + 65535 ∧
      (tcp.flags.contains TcpFlags.fin = true → p + tcp.payload.length = stream.length))
    ⟨fun h => ⟨h.1, h.2.1, h.2.2.1, h.2.2.2.1, h.2.2.2.2.1, h.2.2.2.2.2.1, h.2.2.2.2.2.2⟩,
      fun h => ⟨h.seq, h.le, h.payload, h.length_le, h.ahead, h.behind, h.fin⟩⟩

instance decidableGenuine (stream : List U8) (conn : TcpConn) (n : Nat) (tcp : TcpSegment) :
    Decidable (Genuine stream conn n tcp) :=
  decidable_of_iff
    ((tcp.payload = [] ∧ tcp.flags.contains TcpFlags.fin = false) ∨
      ∃ p < stream.length + 1, Carries stream conn n tcp p)
    (or_congr Iff.rfl (exists_congr fun _ => and_iff_right_of_imp fun hc =>
      Nat.lt_succ_of_le (Nat.le_of_add_right_le hc.le)))

end TcpConn

theorem bytesFor_append (id : U32) (ds ds' : List (U32 × List U8)) :
    bytesFor id (ds ++ ds') = bytesFor id ds ++ bytesFor id ds' :=
  flatMap_append

theorem bytesFor_of_ne {id connId : U32} (hne : id ≠ connId) (h : ∀ d ∈ ds, d.1 = connId) :
    bytesFor id ds = [] := by
  refine flatMap_eq_nil_iff.mpr fun d hd => ?_
  rw [if_neg (h d hd ▸ Ne.symm hne)]

theorem sends_of_quiet {out : List Action} (h : ∀ a ∈ out, a.isQuiet = true) :
    out.filterMap Action.tcpSend? = [] := by
  refine filterMap_eq_nil_iff.mpr fun a ha => ?_
  have hq := h a ha
  cases a with
  | tcpProxySend => cases hq
  | emitFrame => rfl
  | tcpProxyClose => rfl
  | tcpProxyConnect => rfl
  | udpProxySend => rfl
  | dnsResolve => rfl

end Aero.Net

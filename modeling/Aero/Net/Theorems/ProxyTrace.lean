import Aero.Net.Theorems.ProxyStream

namespace Aero.Net

open List Option Bool TcpConn Net.Action
open NetworkStack (call_effect exampleConfig exampleSegment lookup_of_insert lookup_of_replace mem_of_findKey
  new_opened)

namespace NetworkStack

-- What belongs to the connection that has the identifier.
def ownedBy {α : Type} (s : NetworkStack) (id : U32) (items : List (TcpKey × α)) : List α :=
  items.filterMap fun item =>
    if (s.tcp.lookup item.1).any (·.id == id) then some item.2 else none

-- The guest sends such a segment for the connection that has the identifier.
def segmentFor (s : NetworkStack) (id : U32) (p : TcpSegment → Bool) : StackOp → Bool
  | .frame (some ⟨_, .ipv4 ⟨_, dstIp, .tcp tcp⟩⟩) _ =>
    s.ipAssigned && p tcp && (s.tcp.lookup ⟨tcp.srcPort, dstIp, tcp.dstPort⟩).any (·.id == id)
  | _ => false

-- The guest sends a FIN or a reset, or the proxy closes the connection or reports an error.
def closes (s : NetworkStack) (id : U32) : StackOp → Bool
  | .tcpEvent (.closed connectionId) _ => connectionId == id && (s.findKey id).isSome
  | .tcpEvent (.error connectionId) _  => connectionId == id && (s.findKey id).isSome
  | .frame frame nowMs => s.segmentFor id
    (fun tcp => tcp.flags.contains TcpFlags.fin || tcp.flags.contains TcpFlags.rst)
    (.frame frame nowMs)
  | _ => false

end NetworkStack

-- The segment acknowledges the SYN with the sequence number `isn`, and maybe bytes after it.
def acknowledges (isn : U32) (tcp : TcpSegment) : Bool :=
  tcp.flags.contains TcpFlags.ack && (tcp.ackNumber - (isn + 1)).toNat < 2 ^ 31 - 1

-- A run of the stack with its history: the number of connections that were opened, and for each
-- identifier the initial sequence number of the connection, whether the guest has acknowledged it,
-- whether it was closed by either side, the data of the proxy until then, and the segments to the
-- guest with data and with FIN.
structure ProxyTrace where
  stack : NetworkStack
  opened : Nat
  ourIsn : U32 → U32
  acked : U32 → Bool
  closed : U32 → Bool
  received : U32 → List U8
  delivered : U32 → List (U32 × List U8)
  fins : U32 → List U32

namespace ProxyTrace

def start (cfg : StackConfig) : ProxyTrace :=
  ⟨.new cfg, 0, fun _ => 0, fun _ => false, fun _ => false, fun _ => [], fun _ => [], fun _ => []⟩

def receives (t : ProxyTrace) (id : U32) : StackOp → List U8
  | .tcpEvent (.data connectionId data) _ =>
    if connectionId == id && (t.stack.findKey id).isSome && !t.closed id then data else []
  | _ => []

def acks (t : ProxyTrace) (id : U32) (op : StackOp) : Bool :=
  t.stack.segmentFor id (acknowledges (t.ourIsn id)) op

def record (t : ProxyTrace) (op : StackOp) (s' : NetworkStack) (out : List Action) :
    ProxyTrace where
  stack := s'
  opened := t.opened + connects out
  ourIsn id := (s'.findKey id).elim (t.ourIsn id) (·.2.ourIsn)
  acked id := t.acked id || t.acks id op
  closed id := t.closed id || t.stack.closes id op
  received id := t.received id ++ t.receives id op
  delivered id := t.delivered id ++ t.stack.ownedBy id (out.filterMap Action.data?)
  fins id := t.fins id ++ t.stack.ownedBy id (out.filterMap Action.fin?)

def step (t : ProxyTrace) (op : StackOp) : ProxyTrace :=
  t.record op (t.stack.call op).1 (t.stack.call op).2

-- Every connection has delivered what it has received, in order and without gaps, and its next
-- sequence number comes after it and after the FIN.
structure Exact (t : ProxyTrace) : Prop where
  sequenced : ∀ id, Sequenced (t.ourIsn id) (t.delivered id) (t.fins id)
  received : ∀ id, bytesOf (t.delivered id) = t.received id
  next : ∀ key conn, t.stack.tcp.lookup key = some conn →
    conn.ourIsn = t.ourIsn conn.id ∧
      conn.ourNextSeq = conn.ourIsn + 1 +
        BitVec.ofNat 32 ((t.received conn.id).length + (t.fins conn.id).length)

-- Data for an open connection does not come before the guest has acknowledged the SYN.
def AfterHandshake (t : ProxyTrace) : StackOp → Prop
  | .tcpEvent (.data connectionId data) _ =>
    (t.stack.findKey connectionId).isSome = true → t.closed connectionId = false → data ≠ [] →
      t.acked connectionId = true
  | _ => True

instance decidableAfterHandshake (t : ProxyTrace) (op : StackOp) :
    Decidable (t.AfterHandshake op) := by
  unfold AfterHandshake
  split
  · infer_instance
  · infer_instance

structure Sound (t : ProxyTrace) : Prop where
  valid : t.stack.Opened t.opened
  sequenced : ∀ id, Sequenced (t.ourIsn id) (t.delivered id) (t.fins id)
  isn : ∀ key conn, t.stack.tcp.lookup key = some conn → conn.ourIsn = t.ourIsn conn.id
  next : ∀ key conn, t.stack.tcp.lookup key = some conn →
    conn.ourNextSeq = conn.ourIsn + 1 +
      BitVec.ofNat 32 ((bytesOf (t.delivered conn.id)).length + (t.fins conn.id).length)
  fin : ∀ key conn, t.stack.tcp.lookup key = some conn → conn.finSent = false →
    t.fins conn.id = []
  closed : ∀ key conn, t.stack.tcp.lookup key = some conn → t.closed conn.id = conn.finSent
  acked : ∀ key conn, t.stack.tcp.lookup key = some conn → t.acked conn.id = conn.synAcked
  unused : ∀ id, t.stack.nextTcpId ≤ id →
    t.delivered id = [] ∧ t.fins id = [] ∧ t.closed id = false ∧ t.acked id = false

-- The segments that a connection adds, and what becomes of its sequence number.
inductive Emits (conn : TcpConn) : TcpConn → List (U32 × List U8) → List U32 → Prop
  | quiet {conn' : TcpConn} (next : conn'.ourNextSeq = conn.ourNextSeq)
      (finSent : conn'.finSent = conn.finSent) : Emits conn conn' [] []
  | data {conn' : TcpConn} {payloads : List (List U8)} (isOpen : conn.finSent = false)
      (size : ∀ p ∈ payloads, p.length ≤ 1460)
      (next : conn'.ourNextSeq =
        conn.ourNextSeq + BitVec.ofNat 32 payloads.flatten.length)
      (finSent : conn'.finSent = false) : Emits conn conn' (layout conn.ourNextSeq payloads) []
  | fin {conn' : TcpConn} (isOpen : conn.finSent = false)
      (next : conn'.ourNextSeq = conn.ourNextSeq + 1) (finSent : conn'.finSent = true) :
      Emits conn conn' [] [conn.ourNextSeq]

section Ghost

variable {s s' : NetworkStack} {t : ProxyTrace}

theorem findKey_eq (hv : s.Valid) (h : s.tcp.lookup key = some conn) :
    s.findKey conn.id = some (key, conn) := by
  obtain ⟨key', conn', hf⟩ := NetworkStack.findKey_of_lookup h
  obtain ⟨hl, hid⟩ := mem_of_findKey hf
  have hkey := hv.ids_inj _ _ _ _ hl h hid
  subst hkey
  rw [h, some.injEq] at hl
  rw [hf, hl]

theorem ownedBy_nil (id : U32) : s.ownedBy id ([] : List (TcpKey × α)) = [] :=
  rfl

theorem ownedBy_map (h : s.tcp.lookup key = some conn) (id : U32) (xs : List α) :
    s.ownedBy id (xs.map fun x => (key, x)) = if conn.id = id then xs else [] := by
  rw [NetworkStack.ownedBy]
  by_cases hid : conn.id = id
  case pos =>
    simp [h, hid]
  case neg =>
    simp [h, hid]

theorem record_closed (id : U32) :
    (t.record op s' out).closed id = (t.closed id || t.stack.closes id op) :=
  rfl

theorem record_acked (id : U32) :
    (t.record op s' out).acked id = (t.acked id || t.acks id op) :=
  rfl

theorem record_received (id : U32) :
    (t.record op s' out).received id = t.received id ++ t.receives id op :=
  rfl

theorem record_delivered (id : U32) : (t.record op s' out).delivered id =
    t.delivered id ++ t.stack.ownedBy id (out.filterMap data?) :=
  rfl

theorem record_fins (id : U32) : (t.record op s' out).fins id =
    t.fins id ++ t.stack.ownedBy id (out.filterMap fin?) :=
  rfl

theorem record_ourIsn (id : U32) : (t.record op s' out).ourIsn id =
    (s'.findKey id).elim (t.ourIsn id) (·.2.ourIsn) :=
  rfl

theorem ourIsn_of_tracked (hv : s'.Valid) (h : s'.tcp.lookup key = some conn) :
    conn.ourIsn = (t.record op s' out).ourIsn conn.id := by
  rw [record_ourIsn, findKey_eq hv h]
  rfl

theorem ourIsn_kept {id : U32} (h : ∀ key conn, s'.tcp.lookup key = some conn → conn.id = id →
    conn.ourIsn = t.ourIsn id) : (t.record op s' out).ourIsn id = t.ourIsn id := by
  rw [record_ourIsn]
  cases hf : s'.findKey id with
  | none => rfl
  | some found =>
    obtain ⟨hl, hid⟩ := mem_of_findKey hf
    exact h found.1 found.2 hl hid

theorem Emits.sequenced {fs fins : List U32} (h : Emits conn conn' ds fs)
    (hs : Sequenced isn segments fins) (hfin : conn.finSent = false → fins = [])
    (hnext : conn.ourNextSeq =
      isn + 1 + BitVec.ofNat 32 ((bytesOf segments).length + fins.length)) :
    Sequenced isn (segments ++ ds) (fins ++ fs) ∧
      conn'.ourNextSeq = isn + 1 +
        BitVec.ofNat 32 ((bytesOf (segments ++ ds)).length + (fins ++ fs).length) ∧
      (conn'.finSent = false → fins ++ fs = []) := by
  cases h with
  | quiet next finSent =>
    rw [append_nil, append_nil, next, finSent]
    exact ⟨hs, hnext, hfin⟩
  | data isOpen size next finSent =>
    have hnil := hfin isOpen
    subst hnil
    rw [length_nil, Nat.add_zero] at hnext
    refine ⟨hs.data hnext size, ?_, fun _ => rfl⟩
    rw [next, bytesOf_append, bytesOf_layout, append_nil, length_nil, Nat.add_zero,
      length_append, BitVec.ofNat_add, ← BitVec.add_assoc, ← hnext]
  | fin isOpen next finSent =>
    have hnil := hfin isOpen
    subst hnil
    rw [length_nil, Nat.add_zero] at hnext
    rw [append_nil]
    refine ⟨hs.finish hnext, ?_, fun h => ?_⟩
    · rw [next, hnext, BitVec.ofNat_add, ← BitVec.add_assoc]
      rfl
    · rw [finSent] at h
      cases h

theorem Sound.idle (h : t.Sound) (hv : s'.Opened (t.opened + connects out))
    (hid : t.stack.nextTcpId ≤ s'.nextTcpId)
    (hdata : out.filterMap data? = []) (hfin : out.filterMap fin? = [])
    (hclose : ∀ id, t.stack.closes id op = false) (hack : ∀ id, t.acks id op = false)
    (htable : ∀ key conn, s'.tcp.lookup key = some conn → t.stack.tcp.lookup key = some conn ∨
      ∃ tcp ourIsn, conn = .fresh t.stack.nextTcpId key tcp ourIsn) :
    (t.record op s' out).Sound := by
  have hdelivered id : (t.record op s' out).delivered id = t.delivered id := by
    rw [record_delivered, hdata, ownedBy_nil, append_nil]
  have hfins id : (t.record op s' out).fins id = t.fins id := by
    rw [record_fins, hfin, ownedBy_nil, append_nil]
  have hclosed id : (t.record op s' out).closed id = t.closed id := by
    rw [record_closed, hclose, Bool.or_false]
  have hacked id : (t.record op s' out).acked id = t.acked id := by
    rw [record_acked, hack, Bool.or_false]
  -- a new connection has sent nothing
  obtain ⟨hd₀, hf₀, hc₀, ha₀⟩ := h.unused _ (BitVec.le_refl _)
  refine ⟨hv, fun id => ?_, fun key conn hl => ourIsn_of_tracked hv.toValid hl,
    fun key conn hl => ?_, fun key conn hl hopen => ?_, fun key conn hl => ?_,
    fun key conn hl => ?_, fun id hle => ?_⟩
  · rw [hdelivered, hfins]
    by_cases hlt : t.stack.nextTcpId ≤ id
    case pos =>
      obtain ⟨hd, hf, -⟩ := h.unused id hlt
      rw [hd, hf]
      exact .nil
    case neg =>
      rw [ourIsn_kept fun key conn hl heq => ?_]
      · exact h.sequenced id
      · rcases htable key conn hl with hold | ⟨_, _, rfl⟩
        · rw [h.isn key conn hold, heq]
        · exact absurd (BitVec.le_of_eq heq) hlt
  · rw [hdelivered, hfins]
    rcases htable key conn hl with hold | ⟨_, isn, rfl⟩
    · exact h.next key conn hold
    · rw [show (fresh t.stack.nextTcpId key _ isn).id = t.stack.nextTcpId from rfl, hd₀, hf₀]
      exact (BitVec.add_zero (isn + 1)).symm
  · rw [hfins]
    rcases htable key conn hl with hold | ⟨_, _, rfl⟩
    · exact h.fin key conn hold hopen
    · exact hf₀
  · rw [hclosed]
    rcases htable key conn hl with hold | ⟨_, _, rfl⟩
    · exact h.closed key conn hold
    · exact hc₀
  · rw [hacked]
    rcases htable key conn hl with hold | ⟨_, _, rfl⟩
    · exact h.acked key conn hold
    · exact ha₀
  · rw [hdelivered, hfins, hclosed, hacked]
    exact h.unused id (BitVec.le_trans hid hle)

theorem Sound.update (h : t.Sound) (hv : s'.Opened (t.opened + connects out))
    (hid : t.stack.nextTcpId ≤ s'.nextTcpId)
    (hpres : t.stack.tcp.lookup key = some conn) (hsame : conn.Same conn')
    (hemits : Emits conn conn' ds fs)
    (hdata : out.filterMap data? = ds.map fun d => (key, d))
    (hfins : out.filterMap fin? = fs.map fun f => (key, f))
    (hclose : ∀ id, t.stack.closes id op = (closing && conn.id == id))
    (hack : ∀ id, t.acks id op = (acking && conn.id == id))
    (htable : ∀ key' c, s'.tcp.lookup key' = some c →
      (key' = key ∧ c = conn' ∧ conn'.finSent = (conn.finSent || closing) ∧
        conn'.synAcked = (conn.synAcked || acking)) ∨
        (key' ≠ key ∧ t.stack.tcp.lookup key' = some c)) : (t.record op s' out).Sound := by
  have hdelivered id : (t.record op s' out).delivered id =
      t.delivered id ++ if conn.id = id then ds else [] := by
    rw [record_delivered, hdata, ownedBy_map hpres]
  have hfins id : (t.record op s' out).fins id =
      t.fins id ++ if conn.id = id then fs else [] := by
    rw [record_fins, hfins, ownedBy_map hpres]
  -- nothing changes for the other connections
  have hother {id : U32} (hne : conn.id ≠ id) :
      (t.record op s' out).delivered id = t.delivered id ∧
        (t.record op s' out).fins id = t.fins id ∧
        (t.record op s' out).closed id = t.closed id ∧
        (t.record op s' out).acked id = t.acked id := by
    rw [hdelivered, hfins, record_closed, record_acked, hclose, hack, if_neg hne, if_neg hne,
      beq_false_of_ne hne, Bool.and_false, Bool.and_false, Bool.or_false, Bool.or_false,
      append_nil, append_nil]
    exact ⟨rfl, rfl, rfl, rfl⟩
  have hdiff {key' : TcpKey} {c : TcpConn} (hne : key' ≠ key)
      (hold : t.stack.tcp.lookup key' = some c) : conn.id ≠ c.id :=
    fun heq => hne (h.valid.ids_inj _ _ _ _ hold hpres heq.symm)
  have hisn id : (t.record op s' out).ourIsn id = t.ourIsn id := by
    refine ourIsn_kept fun key' c hl heq => ?_
    rcases htable key' c hl with ⟨-, rfl, -⟩ | ⟨-, hold⟩
    · rw [hsame.ourIsn, h.isn key conn hpres, ← hsame.id, heq]
    · rw [h.isn key' c hold, heq]
  -- the connection itself
  have hnext := h.next key conn hpres
  rw [h.isn key conn hpres] at hnext
  obtain ⟨hseq, hnext', hfin'⟩ :=
    hemits.sequenced (h.sequenced conn.id) (h.fin key conn hpres) hnext
  have hself : (t.record op s' out).delivered conn'.id = t.delivered conn.id ++ ds ∧
      (t.record op s' out).fins conn'.id = t.fins conn.id ++ fs := by
    rw [hsame.id, hdelivered, hfins, if_pos rfl, if_pos rfl]
    exact ⟨rfl, rfl⟩
  refine ⟨hv, fun id => ?_, fun key' c hl => ourIsn_of_tracked hv.toValid hl,
    fun key' c hl => ?_, fun key' c hl hopen => ?_, fun key' c hl => ?_, fun key' c hl => ?_,
    fun id hle => ?_⟩
  · rw [hisn]
    by_cases heq : conn.id = id
    case pos =>
      subst heq
      rw [← hsame.id, hself.1, hself.2, hsame.id]
      exact hseq
    case neg =>
      rw [(hother heq).1, (hother heq).2.1]
      exact h.sequenced id
  · rcases htable key' c hl with ⟨-, rfl, -⟩ | ⟨hne, hold⟩
    · rw [hself.1, hself.2, hnext', hsame.ourIsn, h.isn key conn hpres]
    · rw [(hother (hdiff hne hold)).1, (hother (hdiff hne hold)).2.1]
      exact h.next key' c hold
  · rcases htable key' c hl with ⟨-, rfl, -⟩ | ⟨hne, hold⟩
    · rw [hself.2]
      exact hfin' hopen
    · rw [(hother (hdiff hne hold)).2.1]
      exact h.fin key' c hold hopen
  · rcases htable key' c hl with ⟨-, rfl, hfinSent, -⟩ | ⟨hne, hold⟩
    · rw [record_closed, hclose, hsame.id, h.closed key conn hpres, hfinSent, beq_self_eq_true,
        Bool.and_true]
    · rw [(hother (hdiff hne hold)).2.2.1]
      exact h.closed key' c hold
  · rcases htable key' c hl with ⟨-, rfl, -, hsynAcked⟩ | ⟨hne, hold⟩
    · rw [record_acked, hack, hsame.id, h.acked key conn hpres, hsynAcked, beq_self_eq_true,
        Bool.and_true]
    · rw [(hother (hdiff hne hold)).2.2.2]
      exact h.acked key' c hold
  · have hlt := h.valid.ids_lt key conn hpres
    have hle' := BitVec.le_trans hid hle
    obtain ⟨hd, hf, hc, ha⟩ := hother (show conn.id ≠ id by bv_omega)
    rw [hd, hf, hc, ha]
    exact h.unused id hle'

end Ghost

section Calls

variable {s : NetworkStack} {t : ProxyTrace}
variable {conn : TcpConn}

def finSeqs (conn : TcpConn) : List U32 :=
  if conn.finSent then [] else [conn.ourNextSeq]

theorem fins_eq (hv : s.Valid) (h : s.tcp.lookup key = some conn) :
    conn.fins = (finSeqs conn).map fun f => (key, f) := by
  rw [TcpConn.fins, finSeqs, hv.keyed key conn h]
  split <;> rfl

theorem onFinSent_emits (conn : TcpConn) : Emits conn conn.onFinSent [] (finSeqs conn) := by
  rw [onFinSent, finSeqs]
  by_cases hfin : conn.finSent = true
  case pos =>
    rw [if_pos hfin, if_pos hfin]
    exact .quiet rfl rfl
  case neg =>
    rw [if_neg hfin, if_neg hfin]
    exact .fin (eq_false_iff.mpr hfin) rfl rfl

theorem onFinSent_finSent (conn : TcpConn) : conn.onFinSent.finSent = true := by
  rw [onFinSent]
  split
  case isTrue hfin => exact hfin
  case isFalse => rfl

theorem onFinSent_synAcked (conn : TcpConn) : conn.onFinSent.synAcked = conn.synAcked := by
  rw [onFinSent]
  split <;> rfl

-- What a segment of the guest without an acknowledgement leaves alone.
structure SameOut (conn conn' : TcpConn) : Prop where
  ourNextSeq : conn'.ourNextSeq = conn.ourNextSeq
  finSent : conn'.finSent = conn.finSent
  synAcked : conn'.synAcked = conn.synAcked

theorem onPayload_sameOut (conn : TcpConn) (tcp : TcpSegment) :
    SameOut conn (conn.onPayload tcp) := by
  rw [TcpConn.onPayload]
  split
  · rw [TcpConn.take]
    split <;> exact ⟨rfl, rfl, rfl⟩
  · exact ⟨rfl, rfl, rfl⟩

theorem onGuestFin_sameOut (conn : TcpConn) (tcp : TcpSegment) :
    SameOut conn (conn.onGuestFin tcp) := by
  rw [TcpConn.onGuestFin]
  split <;> exact ⟨rfl, rfl, rfl⟩

theorem onAck_out (conn : TcpConn) (tcp : TcpSegment) :
    (conn.onAck tcp).ourNextSeq = conn.ourNextSeq ∧ (conn.onAck tcp).finSent = conn.finSent := by
  rw [onAck]
  split <;> exact ⟨rfl, rfl⟩

theorem Emits.congr (h : Emits c conn' ds fs) (hnext : c.ourNextSeq = conn.ourNextSeq)
    (hfin : c.finSent = conn.finSent) : Emits conn conn' ds fs := by
  cases h with
  | quiet next finSent => exact .quiet (next.trans hnext) (finSent.trans hfin)
  | data isOpen size next finSent =>
    rw [hnext] at next ⊢
    exact .data (hfin ▸ isOpen) size next finSent
  | fin isOpen next finSent =>
    rw [hnext] at next ⊢
    exact .fin (hfin ▸ isOpen) next finSent

theorem onSegment_emits (conn : TcpConn) (tcp : TcpSegment) :
    Emits conn (conn.onSegment tcp) []
        (if tcp.flags.contains TcpFlags.fin then finSeqs conn else []) ∧
      (conn.onSegment tcp).finSent = (conn.finSent || tcp.flags.contains TcpFlags.fin) := by
  have hpayload := onPayload_sameOut (conn.onAck tcp) tcp
  have hguest := onGuestFin_sameOut ((conn.onAck tcp).onPayload tcp) tcp
  have hnext₂ := hpayload.ourNextSeq.trans (onAck_out conn tcp).1
  have hfin₂ := hpayload.finSent.trans (onAck_out conn tcp).2
  have hnext₁ := hguest.ourNextSeq.trans hnext₂
  have hfin₁ := hguest.finSent.trans hfin₂
  rw [onSegment, onFin]
  by_cases hflag : tcp.flags.contains TcpFlags.fin = true
  case pos =>
    have hemits := onFinSent_emits (((conn.onAck tcp).onPayload tcp).onGuestFin tcp)
    rw [show finSeqs (((conn.onAck tcp).onPayload tcp).onGuestFin tcp) = finSeqs conn by
      rw [finSeqs, hnext₁, hfin₁, finSeqs]] at hemits
    rw [hflag, Bool.or_true]
    exact ⟨hemits.congr hnext₁ hfin₁, onFinSent_finSent _⟩
  case neg =>
    rw [Bool.eq_false_iff.mpr hflag, Bool.or_false]
    exact ⟨.quiet hnext₂ hfin₂, hfin₂⟩

theorem seqAfter_eq (ack isn : U32) :
    seqAfter ack isn = decide ((ack - (isn + 1)).toNat < 2 ^ 31 - 1) := by
  rw [Bool.eq_iff_iff, seqAfter, and_eq_true, bne_iff_ne, decide_eq_true_iff, decide_eq_true_iff]
  bv_omega

theorem onAck_synAcked (conn : TcpConn) (tcp : TcpSegment) :
    (conn.onAck tcp).synAcked = (conn.synAcked || acknowledges conn.ourIsn tcp) := by
  rw [onAck, acknowledges, ← seqAfter_eq]
  split
  case isTrue hflag => rw [hflag, Bool.true_and, onGuestAck]
  case isFalse hflag => rw [Bool.eq_false_iff.mpr hflag, Bool.false_and, Bool.or_false]

theorem onSegment_synAcked (conn : TcpConn) (tcp : TcpSegment) :
    (conn.onSegment tcp).synAcked = (conn.synAcked || acknowledges conn.ourIsn tcp) := by
  have hfin (c : TcpConn) : (c.onFin tcp).synAcked = c.synAcked := by
    rw [onFin]
    split
    · rw [onFinSent_synAcked, (onGuestFin_sameOut c tcp).synAcked]
    · rfl
  rw [onSegment, hfin, (onPayload_sameOut _ tcp).synAcked, onAck_synAcked]

theorem segmentFor_of_isSegment (h : op.IsSegment key tcp)
    (hpres : s.tcp.lookup key = some conn) (id : U32) (p : TcpSegment → Bool) :
    s.segmentFor id p op = ((s.ipAssigned && p tcp) && conn.id == id) := by
  cases h
  rw [NetworkStack.segmentFor, hpres]
  rfl

theorem segmentFor_of_absent (h : op.IsSegment key tcp) (habs : s.tcp.lookup key = none)
    (id : U32) (p : TcpSegment → Bool) : s.segmentFor id p op = false := by
  cases h
  rw [NetworkStack.segmentFor, habs]
  exact and_false _

theorem segmentFor_of_idle
    (hsegment : ∀ key tcp conn, op.IsSegment key tcp → s.tcp.lookup key = some conn →
      s.ipAssigned = false) (id : U32) (p : TcpSegment → Bool) : s.segmentFor id p op = false := by
  unfold NetworkStack.segmentFor
  split
  case h_1 mac srcIp dstIp tcp nowMs =>
    cases hl : s.tcp.lookup ⟨tcp.srcPort, dstIp, tcp.dstPort⟩ with
    | none => exact Bool.and_false _
    | some conn => rw [hsegment _ _ conn .mk hl, Bool.false_and, Bool.false_and]
  case h_2 => rfl

theorem acks_of_isSegment (h : op.IsSegment key tcp) (hpres : t.stack.tcp.lookup key = some conn)
    (id : U32) : t.acks id op =
      ((t.stack.ipAssigned && acknowledges (t.ourIsn conn.id) tcp) && conn.id == id) := by
  rw [acks, segmentFor_of_isSegment h hpres]
  by_cases heq : conn.id = id
  case pos => rw [heq]
  case neg => rw [beq_false_of_ne heq, Bool.and_false, Bool.and_false]

theorem acks_of_event (id : U32) (event : TcpProxyEvent) (nowMs : Millis) (conn : TcpConn) :
    t.acks id (.tcpEvent event nowMs) = (false && conn.id == id) :=
  rfl

theorem closes_of_isSegment (h : op.IsSegment key tcp) (hpres : s.tcp.lookup key = some conn)
    (id : U32) : s.closes id op =
      ((s.ipAssigned && (tcp.flags.contains TcpFlags.fin || tcp.flags.contains TcpFlags.rst)) &&
        conn.id == id) := by
  cases h
  rw [NetworkStack.closes, segmentFor_of_isSegment .mk hpres]

theorem closes_of_absent (h : op.IsSegment key tcp) (habs : s.tcp.lookup key = none) (id : U32) :
    s.closes id op = false := by
  cases h
  rw [NetworkStack.closes, segmentFor_of_absent .mk habs]

theorem closes_of_idle
    (hclosing : ∀ id nowMs,
      op = .tcpEvent (.closed id) nowMs ∨ op = .tcpEvent (.error id) nowMs → s.findKey id = none)
    (hsegment : ∀ key tcp conn, op.IsSegment key tcp → s.tcp.lookup key = some conn →
      s.ipAssigned = false) (id : U32) : s.closes id op = false := by
  have hnone {cid : U32} (h : s.findKey cid = none) :
      (cid == id && (s.findKey id).isSome) = false := by
    by_cases heq : cid = id
    case pos => rw [← heq, h, isSome_none, Bool.and_false]
    case neg => rw [beq_false_of_ne heq, Bool.false_and]
  unfold NetworkStack.closes
  split
  case h_1 cid nowMs => exact hnone (hclosing cid nowMs (.inl rfl))
  case h_2 cid nowMs => exact hnone (hclosing cid nowMs (.inr rfl))
  case h_3 => exact segmentFor_of_idle hsegment id _
  case h_4 => rfl

theorem closes_of_event (hfound : s.findKey cid = some (key, conn))
    (hop : op = .tcpEvent (.closed cid) nowMs ∨ op = .tcpEvent (.error cid) nowMs) (id : U32) :
    s.closes id op = (true && conn.id == id) := by
  have hid := (mem_of_findKey hfound).2
  have hsome : (cid == id && (s.findKey id).isSome) = (true && conn.id == id) := by
    by_cases heq : cid = id
    case pos => rw [← heq, hfound, hid, isSome_some, Bool.and_true, Bool.true_and]
    case neg => rw [hid, beq_false_of_ne heq, Bool.false_and, Bool.and_false]
  rcases hop with rfl | rfl
  · exact hsome
  · exact hsome

theorem Sound.effect (h : t.Sound) (heff : t.stack.CallEffect op s' out)
    (hopened : (t.record op s' out).opened < 2 ^ 32 - 1) : (t.record op s' out).Sound := by
  obtain ⟨hv, hid⟩ := h.valid.effect heff hopened
  have hremoved {key : TcpKey} {conn : TcpConn} {closing acking : Bool}
      (hpres : t.stack.tcp.lookup key = some conn)
      (hclose : ∀ id, t.stack.closes id op = (closing && conn.id == id))
      (hack : ∀ id, t.acks id op = (acking && conn.id == id))
      (htable : s'.tcp = t.stack.tcp.erase key) (hquiet : ∀ a ∈ out, a.isQuiet = true) :
      (t.record op s' out).Sound := by
    obtain ⟨hdata, hfins⟩ := quiet_none hquiet
    refine h.update hv hid hpres (.refl conn) (.quiet rfl rfl) hdata hfins hclose hack ?_
    intro key' c hl
    rw [htable] at hl
    exact .inr (NetworkStack.lookup_of_erase hl)
  cases heff with
  | idle keeps tcp quiet data closing segment =>
    obtain ⟨hdata, hfins⟩ := quiet_none quiet
    refine h.idle hv hid hdata hfins (closes_of_idle closing segment)
      (fun id => segmentFor_of_idle segment id _) fun key conn hl => .inl ?_
    rw [tcp] at hl
    exact hl
  | opened isSegment absent nextTcpId guestMac table quiet =>
    obtain ⟨hdata, hfins⟩ := quiet_none quiet
    refine h.idle hv hid ((filterMap_cons_none rfl).trans hdata)
      ((filterMap_cons_none rfl).trans hfins) (closes_of_absent isSegment absent)
      (fun id => segmentFor_of_absent isSegment absent id _) fun key conn hl => ?_
    rw [table] at hl
    rcases lookup_of_insert hl with ⟨rfl, rfl⟩ | ⟨-, hold⟩
    · exact .inr ⟨_, _, rfl⟩
    · exact .inl hold
  | reset isSegment present rst keeps table quiet =>
    exact hremoved present (closes_of_isSegment isSegment present)
      (acks_of_isSegment isSegment present) table quiet
  | aborted isSegment present rst accepts keeps table quiet =>
    exact hremoved present (closes_of_isSegment isSegment present)
      (acks_of_isSegment isSegment present) table quiet
  | dropped found op_eq keeps table quiet =>
    rename_i _ _ conn _
    have hack id : t.acks id op = (false && conn.id == id) := by
      rcases op_eq with rfl | rfl
      · exact acks_of_event id _ _ conn
      · exact acks_of_event id _ _ conn
    exact hremoved (mem_of_findKey found).1 (closes_of_event found op_eq) hack table quiet
  | segment isSegment present rst assigned keeps table confined =>
    rename_i key conn tcp
    obtain ⟨hemits, hfinSent⟩ := onSegment_emits conn tcp
    refine h.update hv hid present (conn.onSegment_same tcp) hemits confined.data_eq ?_
      (closes_of_isSegment isSegment present) (acks_of_isSegment isSegment present)
      fun key' c hl => ?_
    · rw [confined.fins_eq, fins_eq h.valid.toValid present]
      split <;> rfl
    · rw [table] at hl
      rw [assigned, rst, Bool.or_false, Bool.true_and, Bool.true_and, ← hfinSent,
        ← h.isn key conn present, ← onSegment_synAcked]
      exact (lookup_of_replace hl).imp_left fun he => ⟨he.1, he.2, rfl, rfl⟩
  | connected found keeps table confined =>
    rename_i connId key conn nowMs
    have hclose id : t.stack.closes id (.tcpEvent (.connected connId) nowMs) =
        (false && conn.id == id) := rfl
    refine h.update hv hid (mem_of_findKey found).1 conn.connect_same
      (.quiet rfl rfl) confined.data_eq confined.fins_eq hclose
      (fun id => acks_of_event id _ _ conn) fun key' c hl => ?_
    rw [table] at hl
    rw [Bool.or_false, Bool.or_false]
    exact (lookup_of_insert hl).imp_left fun he => ⟨he.1, he.2, rfl, rfl⟩
  | finished found keeps table confined =>
    rename_i key conn _
    have hpres := (mem_of_findKey found).1
    refine h.update hv hid hpres conn.onFinSent_same (onFinSent_emits conn)
      confined.data_eq ?_ (closes_of_event found (.inl rfl)) (fun id => acks_of_event id _ _ conn)
      fun key' c hl => ?_
    · rw [confined.fins_eq, fins_eq h.valid.toValid hpres]
    · rw [table] at hl
      rw [Bool.or_true, Bool.or_false, ← onFinSent_finSent conn]
      exact (lookup_of_replace hl).imp_left fun he =>
        ⟨he.1, he.2, rfl, onFinSent_synAcked conn⟩
  | data found synAcked finSent keeps table chunks =>
    rename_i connId key conn bytes nowMs
    have hpres := (mem_of_findKey found).1
    obtain ⟨s₀, hmac, rfl⟩ := chunks
    obtain ⟨hfin, payloads, hbytes, hsize, hsegments⟩ :=
      emitChunks_data hmac conn 0 bytes.length bytes le_rfl
    rw [h.valid.keyed key conn hpres, show conn.ourNextSeq + BitVec.ofNat 32 0 = conn.ourNextSeq
      from BitVec.add_zero _] at hsegments
    have hemits : Emits conn (conn.onData bytes) (layout conn.ourNextSeq payloads) [] :=
      .data finSent (fun p hp => (hsize p hp).2) (by rw [hbytes]; rfl) finSent
    have hclose id : t.stack.closes id (.tcpEvent (.data connId bytes) nowMs) =
        (false && conn.id == id) := rfl
    refine h.update hv hid hpres (conn.onData_same bytes) hemits hsegments hfin hclose
      (fun id => acks_of_event id _ _ conn) fun key' c hl => ?_
    rw [table] at hl
    rw [Bool.or_false, Bool.or_false]
    exact (lookup_of_insert hl).imp_left fun he => ⟨he.1, he.2, rfl, rfl⟩

theorem start_sound (cfg : StackConfig) : (start cfg).Sound := by
  have hnone key conn :
      (start cfg).stack.tcp.lookup key ≠ some conn := fun h => by cases h
  exact ⟨new_opened cfg, fun _ => .nil, fun _ _ h => absurd h (hnone _ _),
    fun _ _ h => absurd h (hnone _ _), fun _ _ h => absurd h (hnone _ _),
    fun _ _ h => absurd h (hnone _ _), fun _ _ h => absurd h (hnone _ _),
    fun _ _ => ⟨rfl, rfl, rfl, rfl⟩⟩

theorem receives_of_not_data (hop : ∀ id bytes nowMs, op ≠ .tcpEvent (.data id bytes) nowMs) :
    (∀ id, t.receives id op = []) ∧ t.AfterHandshake op := by
  constructor
  · intro id
    unfold receives
    split
    · exact absurd rfl (hop _ _ _)
    · rfl
  · unfold AfterHandshake
    split
    · exact absurd rfl (hop _ _ _)
    · trivial

theorem Sound.receives_iff (h : t.Sound)
    (hdata : ∀ id bytes nowMs, op = .tcpEvent (.data id bytes) nowMs →
      ∀ found, t.stack.findKey id = some found →
        found.2.finSent = true ∨ found.2.synAcked = false) :
    (∀ id, [] = t.receives id op) ↔ t.AfterHandshake op := by
  by_cases hop : ∃ id bytes nowMs, op = .tcpEvent (.data id bytes) nowMs
  case neg =>
    have hne := receives_of_not_data (t := t) fun id bytes nowMs heq =>
      hop ⟨id, bytes, nowMs, heq⟩
    exact iff_of_true (fun id => (hne.1 id).symm) hne.2
  case pos =>
    obtain ⟨connId, bytes, nowMs, rfl⟩ := hop
    have hearly {found : TcpKey × TcpConn} (hf : t.stack.findKey connId = some found)
        (hclosed : t.closed connId = false) : t.acked connId = false := by
      obtain ⟨hl, hid⟩ := mem_of_findKey hf
      have hfin := h.closed _ _ hl
      rw [hid, hclosed] at hfin
      rcases hdata _ _ _ rfl found hf with hsent | hack
      · rw [hsent] at hfin
        cases hfin
      · rw [← hid, h.acked _ _ hl, hack]
    constructor
    · intro hall hsome hclosed hne
      have hnil := hall connId
      rw [receives, hclosed, hsome, beq_self_eq_true] at hnil
      exact absurd hnil.symm hne
    · intro hafter id
      rw [receives]
      split
      case isFalse => rfl
      case isTrue hcond =>
        rw [and_eq_true, and_eq_true, beq_iff_eq, not_eq_true'] at hcond
        obtain ⟨⟨rfl, hsome⟩, hclosed⟩ := hcond
        obtain ⟨found, hf⟩ := isSome_iff_exists.mp hsome
        by_contra hne
        have hack := hafter hsome hclosed fun hb => hne hb.symm
        rw [hearly hf hclosed] at hack
        cases hack

-- A call delivers what it receives, unless it is data that comes too early.
theorem Sound.delivers_iff (h : t.Sound) (heff : t.stack.CallEffect op s' out) :
    (∀ id, bytesOf (t.stack.ownedBy id (out.filterMap data?)) = t.receives id op) ↔
      t.AfterHandshake op := by
  have hother (hop : ∀ id bytes nowMs, op ≠ .tcpEvent (.data id bytes) nowMs)
      (hdata : out.filterMap data? = []) :
      (∀ id, bytesOf (t.stack.ownedBy id (out.filterMap data?)) = t.receives id op) ↔
        t.AfterHandshake op := by
    obtain ⟨hnil, hafter⟩ := receives_of_not_data hop
    rw [hdata]
    exact iff_of_true (fun id => (hnil id).symm) hafter
  have hseg {key : TcpKey} {tcp : TcpSegment} (hop : op.IsSegment key tcp) id
      bytes nowMs : op ≠ .tcpEvent (.data id bytes) nowMs :=
    NetworkStack.isSegment_ne_tcpEvent hop _ _
  cases heff with
  | idle keeps tcp quiet data =>
    rw [(quiet_none quiet).1]
    exact h.receives_iff data
  | opened isSegment absent nextTcpId guestMac table quiet =>
    exact hother (hseg isSegment) ((filterMap_cons_none rfl).trans (quiet_none quiet).1)
  | reset isSegment present rst keeps table quiet =>
    exact hother (hseg isSegment) (quiet_none quiet).1
  | aborted isSegment present rst accepts keeps table quiet =>
    exact hother (hseg isSegment) (quiet_none quiet).1
  | segment isSegment present rst assigned keeps table confined =>
    exact hother (hseg isSegment) confined.data_eq
  | connected found keeps table confined =>
    exact hother (fun _ _ _ h => by cases h) confined.data_eq
  | finished found keeps table confined =>
    exact hother (fun _ _ _ h => by cases h) confined.data_eq
  | dropped found op_eq keeps table quiet =>
    refine hother (fun _ _ _ h => ?_) (quiet_none quiet).1
    rw [h] at op_eq
    rcases op_eq with heq | heq
    · cases heq
    · cases heq
  | data found synAcked finSent keeps table chunks =>
    rename_i connId key conn bytes nowMs
    obtain ⟨hpres, hid⟩ := mem_of_findKey found
    have hclosed := h.closed key conn hpres
    rw [finSent, hid] at hclosed
    obtain ⟨s₀, hmac, rfl⟩ := chunks
    obtain ⟨-, payloads, hbytes, -, hsegments⟩ :=
      emitChunks_data hmac conn 0 bytes.length bytes le_rfl
    rw [h.valid.keyed key conn hpres] at hsegments
    refine iff_of_true (fun id => ?_) fun _ _ _ => ?_
    · rw [hsegments, ownedBy_map hpres, receives, hid]
      by_cases heq : connId = id
      case pos =>
        subst heq
        rw [if_pos rfl, bytesOf_layout, hbytes, found, hclosed, beq_self_eq_true]
        rfl
      case neg =>
        rw [if_neg heq, beq_false_of_ne heq]
        rfl
    · rw [← hid, h.acked key conn hpres, synAcked]

theorem exact_step_iff (h : t.Sound) (hsound : (t.step op).Sound) (hexact : t.Exact) :
    (t.step op).Exact ↔ t.AfterHandshake op := by
  have heff := call_effect h.valid.toValid op
  rw [← h.delivers_iff heff]
  constructor
  · intro hstep id
    have hrec := hstep.received id
    rw [step, record_delivered, bytesOf_append, hexact.received id] at hrec
    exact append_cancel_left hrec
  · intro hdeliver
    have hrec id : bytesOf ((t.step op).delivered id) = (t.step op).received id := by
      rw [step, record_delivered, record_received, bytesOf_append, hexact.received id, hdeliver id]
    refine ⟨hsound.sequenced, hrec, fun key conn hl => ⟨hsound.isn key conn hl, ?_⟩⟩
    rw [← hrec]
    exact hsound.next key conn hl

theorem start_exact (cfg : StackConfig) : (start cfg).Exact :=
  ⟨fun _ => .nil, fun _ => rfl, fun _ _ h => by cases h⟩

end Calls

-- The data of the proxy reaches the guest exactly in every state of a run, if and only if no data
-- for an open connection comes before the guest has acknowledged the SYN. The identifiers are used
-- once only.
theorem proxy_stream_exact_iff (cfg : StackConfig) (ops : List StackOp)
    (hopened : (ops.foldl step (start cfg)).opened < 2 ^ 32 - 1) :
    Runs.Always step Exact (start cfg) ops ↔ Runs.Each step AfterHandshake (start cfg) ops := by
  have hroom := Runs.each_lt (fun _ _ => Nat.le_add_right _ _) hopened
  have hsound :=
    Runs.always_of_each (fun t op (h : t.Sound) hlt => h.effect (call_effect h.valid.toValid op) hlt)
      (start_sound cfg) hroom
  exact hsound.iff_each (fun _ _ => exact_step_iff) (start_exact cfg)

-- The guest acknowledges the SYN before the proxy sends three bytes.
theorem proxy_stream_exact_iff_late_data :
    let ops := [NetworkStack.exampleDhcp, exampleSegment 100 0 TcpFlags.syn [],
      exampleSegment 101 1000004 TcpFlags.ack [], .tcpEvent (.connected 1) 0,
      .tcpEvent (.data 1 [1, 2, 3]) 0]
    (ops.foldl step (start exampleConfig)).delivered 1 = [(1000004, [1, 2, 3])] ∧
      Runs.Always step Exact (start exampleConfig) ops :=
  ⟨by decide +kernel, (proxy_stream_exact_iff exampleConfig _ (by decide +kernel)).mpr
    (by decide +kernel)⟩

-- The proxy sends three bytes before the guest has acknowledged the SYN.
def earlyData : List StackOp :=
  [NetworkStack.exampleDhcp, exampleSegment 100 0 TcpFlags.syn [], .tcpEvent (.connected 1) 0,
    .tcpEvent (.data 1 [1, 2, 3]) 0]

theorem early_data_lost :
    (earlyData.foldl step (start exampleConfig)).received 1 = [1, 2, 3] ∧
      (earlyData.foldl step (start exampleConfig)).delivered 1 = [] ∧
      ¬Runs.Always step Exact (start exampleConfig) earlyData := by
  have hreceived :
      (earlyData.foldl step (start exampleConfig)).received 1 = [1, 2, 3] := by
    decide +kernel
  have hdelivered : (earlyData.foldl step (start exampleConfig)).delivered 1 = [] := by
    decide +kernel
  refine ⟨hreceived, hdelivered, fun h => ?_⟩
  have hlast := h.last.received 1
  cases hlast

end ProxyTrace

end Aero.Net

import Virie.Levin.Connection

/-! # Packets on the way

The bytes that an end has received and those that are on the way to it are packets one after the
other, of which the first may have lost its head already. Handling what has arrived handles packets
in order, however the bytes were cut. -/

open Foundation Foundation.Reader

namespace Virie.Levin

variable {W Call : Type} {A : CommandsHandler W Call} {maxPacketSize : Nat}

/-! ## Heads -/

theorem BucketHead2.length_bytes (head : BucketHead2) : head.bytes.length = bucketHead2Size := by
  simp only [bytes, List.length_append, length_writeUint]
  rfl

/-- A head is read as it was written. -/
theorem BucketHead2.read_bytes (head : BucketHead2) (rest : List UInt8) :
    BucketHead2.read (head.bytes ++ rest) = some (head, rest) := by
  have signature := (@reads_uint 8 _ (UInt64.toNat_lt head.signature)).returns trivial
  have cb := (@reads_uint 8 _ (UInt64.toNat_lt head.cb)).returns trivial
  have haveToReturnData := (@reads_uint 1 _ (UInt8.toNat_lt head.haveToReturnData)).returns trivial
  have command := (@reads_uint 4 _ (UInt32.toNat_lt head.command)).returns trivial
  have returnCode := (@reads_uint 4 _ (UInt32.toNat_lt head.returnCode)).returns trivial
  have flags := (@reads_uint 4 _ (UInt32.toNat_lt head.flags)).returns trivial
  have protocolVersion := (@reads_uint 4 _ (UInt32.toNat_lt head.protocolVersion)).returns trivial
  simp only [read, bytes, List.append_assoc, bind, StateT.bind, signature, cb, haveToReturnData,
    command, returnCode, flags, protocolVersion, Option.bind_some, UInt64.ofNat_toNat,
    UInt32.ofNat_toNat, UInt8.ofNat_toNat]
  rfl

/-! ## Packets -/

structure Packet where
  head : BucketHead2
  body : Buffer

namespace Packet

def bytes (packet : Packet) : List UInt8 := packet.head.bytes ++ packet.body.val

/-- The packets that an end sends. -/
structure Valid (packet : Packet) : Prop where
  signature : packet.head.signature = levinSignature
  cb : packet.head.cb = packet.body.size
  protocolVersion : packet.head.protocolVersion = levinProtocolVer1

theorem Valid.size {packet : Packet} (valid : packet.Valid) :
    packet.head.cb.toNat = packet.body.val.length := by
  rw [valid.cb, Buffer.size]
  exact UInt64.toNat_ofNat_of_lt packet.body.property

end Packet

/-- What is on the way to an end and what it has not handled are some packets; where a head was
taken already it is that of the first. -/
def Pending (currentHead : Option BucketHead2) (bytes : List UInt8) (packets : List Packet) : Prop :=
  match currentHead with
  | none => bytes = packets.flatMap Packet.bytes
  | some head => ∃ packet rest, packets = packet :: rest ∧ packet.head = head ∧
      bytes = packet.body.val ++ rest.flatMap Packet.bytes

theorem Pending.append {currentHead : Option BucketHead2} {bytes : List UInt8}
    {packets : List Packet} (pending : Pending currentHead bytes packets) (packet : Packet) :
    Pending currentHead (bytes ++ packet.bytes) (packets ++ [packet]) := by
  cases currentHead with
  | none =>
    unfold Pending at pending ⊢
    rw [pending, List.flatMap_append, List.flatMap_singleton]
  | some head =>
    obtain ⟨first, rest, rfl, isHead, rfl⟩ := pending
    refine ⟨first, rest ++ [packet], rfl, isHead, ?_⟩
    rw [List.flatMap_append, List.flatMap_singleton, List.append_assoc]

/-- No whole packet waits, and the head that was taken is of the known version. -/
def Handler.Settled (handler : Handler W Call) : Prop :=
  match handler.currentHead with
  | none => handler.cacheInBuffer.length < bucketHead2Size
  | some head => handler.cacheInBuffer.length < head.cb.toNat ∧
      handler.session.oponentProtocolVer = levinProtocolVer1

/-- What was handled of some packets: what is left is on the way, unless one of them is too
large. -/
def Handled (I : Session W Call → List Packet → Prop) (maxPacketSize : Nat) (behind : List UInt8)
    (packets : List Packet) (handler : Handler W Call) : Prop :=
  ∃ left, I handler.session left ∧
    (handler.closed = false →
      Pending handler.currentHead (handler.cacheInBuffer ++ behind) left ∧ handler.Settled) ∧
    (handler.closed = true → ∃ packet ∈ packets, maxPacketSize < packet.head.cb.toNat)

theorem Handled.of_tail {I : Session W Call → List Packet → Prop} {behind : List UInt8}
    {packet : Packet} {rest : List Packet} {handler : Handler W Call}
    (handled : Handled I maxPacketSize behind rest handler) :
    Handled I maxPacketSize behind (packet :: rest) handler := by
  obtain ⟨left, holds, going, ended⟩ := handled
  refine ⟨left, holds, going, fun closed => ?_⟩
  obtain ⟨large, member, exceeds⟩ := ended closed
  exact ⟨large, .tail _ member, exceeds⟩

theorem front_of_append {cache behind front back : List UInt8}
    (same : cache ++ behind = front ++ back) (long : front.length ≤ cache.length) :
    cache.take front.length = front ∧ cache.drop front.length ++ behind = back := by
  constructor
  · have taken := congrArg (List.take front.length) same
    rwa [List.take_append_of_le_length long, List.take_left] at taken
  · have dropped := congrArg (List.drop front.length) same
    rwa [List.drop_append_of_le_length long, List.drop_left] at dropped

/-- Bytes that are there begin with a packet. -/
theorem Pending.first {cache behind : List UInt8} {packets : List Packet}
    (pending : Pending none (cache ++ behind) packets) (some : 0 < cache.length) :
    ∃ packet rest, packets = packet :: rest ∧ cache ++ behind =
      packet.head.bytes ++ (packet.body.val ++ rest.flatMap Packet.bytes) := by
  cases packets with
  | nil =>
    have none : cache ++ behind = [] := pending
    rw [List.append_eq_nil_iff] at none
    rw [none.1] at some
    exact absurd some (Nat.lt_irrefl 0)
  | cons packet rest =>
    refine ⟨packet, rest, rfl, ?_⟩
    rw [← List.append_assoc]
    exact pending

theorem Pending.head {cache behind : List UInt8} {packets : List Packet}
    (pending : Pending none (cache ++ behind) packets) (long : bucketHead2Size ≤ cache.length) :
    ∃ packet rest, packets = packet :: rest ∧
      BucketHead2.read (cache.take bucketHead2Size) = some (packet.head, []) ∧
      cache.drop bucketHead2Size ++ behind = packet.body.val ++ rest.flatMap Packet.bytes := by
  obtain ⟨packet, rest, isFirst, bytes⟩ :=
    pending.first (Nat.lt_of_lt_of_le (by decide : 0 < bucketHead2Size) long)
  obtain ⟨taken, dropped⟩ := front_of_append bytes (by rwa [packet.head.length_bytes])
  rw [packet.head.length_bytes] at taken dropped
  have read := packet.head.read_bytes []
  rw [List.append_nil, ← taken] at read
  exact ⟨packet, rest, isFirst, read, dropped⟩

/-- What is kept when the first packet, whose version is known, is handled is kept when all packets
that have arrived are. -/
theorem handleLoop_keeps {I : Session W Call → List Packet → Prop}
    (valid : ∀ {session packet rest}, I session (packet :: rest) → packet.Valid)
    (version : ∀ {session packets}, I session packets → ∀ ver,
      I { session with oponentProtocolVer := ver } packets)
    (receives : ∀ {session packet rest}, I session (packet :: rest) →
      session.oponentProtocolVer = levinProtocolVer1 →
      (session.handlePacket A packet.head packet.body).2 = true ∧
        I (session.handlePacket A packet.head packet.body).1 rest)
    (cache : List UInt8) (currentHead : Option BucketHead2) (session : Session W Call)
    {behind : List UInt8} {packets : List Packet} (holds : I session packets)
    (pending : Pending currentHead (cache ++ behind) packets)
    (known : currentHead.isSome → session.oponentProtocolVer = levinProtocolVer1) :
    Handled I maxPacketSize behind packets
      (handleLoop A maxPacketSize cache currentHead session) := by
  fun_induction handleLoop A maxPacketSize cache currentHead session generalizing packets with
  | case1 cache session head short =>
    exact ⟨packets, holds, fun _ => ⟨pending, short, known rfl⟩, fun closed => by cases closed⟩
  | case2 =>
    rename_i cache session head long result goes ih
    obtain ⟨packet, rest, rfl, rfl, bytes⟩ := pending
    have size := (valid holds).size
    obtain ⟨taken, dropped⟩ := front_of_append bytes (by omega)
    rw [← size] at taken dropped
    have isBody : bodyOf packet.head cache = packet.body := Subtype.ext taken
    have kept := (receives holds (known rfl)).2
    rw [← isBody] at kept
    exact (ih kept dropped (fun absurd => by cases absurd)).of_tail
  | case3 =>
    rename_i cache session head long result stops
    obtain ⟨packet, rest, rfl, rfl, bytes⟩ := pending
    have size := (valid holds).size
    obtain ⟨taken, dropped⟩ := front_of_append bytes (by omega)
    rw [← size] at taken
    have isBody : bodyOf packet.head cache = packet.body := Subtype.ext taken
    have goes := (receives holds (known rfl)).1
    rw [← isBody] at goes
    exact absurd goes stops
  | case4 cache session short =>
    refine ⟨packets, holds, fun _ => ⟨pending, short⟩, fun closed => ?_⟩
    obtain ⟨eight, differ⟩ := of_decide_eq_true closed
    obtain ⟨packet, rest, rfl, bytes⟩ := pending.first (by omega)
    rw [BucketHead2.bytes, List.append_assoc, (valid holds).signature] at bytes
    obtain ⟨taken, _⟩ := front_of_append bytes (by rwa [length_writeUint])
    rw [length_writeUint] at taken
    exact absurd taken.symm differ
  | case5 cache session long unread =>
    obtain ⟨packet, rest, _, read, _⟩ := pending.head (Nat.le_of_not_lt long)
    rw [unread] at read
    cases read
  | case6 cache session long head behindHead isRead mismatch =>
    obtain ⟨packet, rest, rfl, read, _⟩ := pending.head (Nat.le_of_not_lt long)
    rw [isRead] at read
    cases read
    exact absurd (valid holds).signature mismatch
  | case7 =>
    rename_i cache session long head behindHead isRead good next large
    obtain ⟨packet, rest, rfl, read, _⟩ := pending.head (Nat.le_of_not_lt long)
    rw [isRead] at read
    cases read
    refine ⟨_, version holds _, fun going => ?_, fun _ => ⟨packet, .head _, large⟩⟩
    cases going
  | case8 =>
    rename_i cache session long head behindHead isRead good next fits ih
    obtain ⟨packet, rest, rfl, read, bytes⟩ := pending.head (Nat.le_of_not_lt long)
    rw [isRead] at read
    cases read
    exact ih (version holds _) ⟨packet, rest, rfl, rfl, bytes⟩
      fun _ => (valid holds).protocolVersion

/-- A whole packet that arrives alone is handled at once. -/
theorem handleRecv_packet {handler : Handler W Call} (opened : handler.closed = false)
    (empty : handler.cacheInBuffer = []) (noHead : handler.currentHead = none) {packet : Packet}
    (valid : packet.Valid) (fits : packet.bytes.length ≤ maxPacketSize)
    (goes : ({ handler.session with oponentProtocolVer := levinProtocolVer1 }.handlePacket A
      packet.head packet.body).2 = true) :
    handler.handleRecv A maxPacketSize packet.bytes = ⟨[], none,
      ({ handler.session with oponentProtocolVer := levinProtocolVer1 }.handlePacket A packet.head
        packet.body).1, false⟩ := by
  have long : packet.head.bytes.length ≤ packet.bytes.length := by
    rw [Packet.bytes, List.length_append]
    exact Nat.le_add_right _ _
  have small : packet.body.val.length ≤ maxPacketSize := by
    rw [Packet.bytes, List.length_append] at fits
    omega
  obtain ⟨taken, dropped⟩ := @front_of_append packet.bytes [] packet.head.bytes packet.body.val
    (List.append_nil packet.bytes) long
  rw [packet.head.length_bytes] at taken dropped long
  rw [List.append_nil] at dropped
  have read := packet.head.read_bytes []
  rw [List.append_nil, ← taken] at read
  have isBody : bodyOf packet.head packet.body.val = packet.body := by
    refine Subtype.ext ?_
    rw [bodyOf]
    dsimp only
    rw [valid.size, List.take_length]
  rw [Handler.handleRecv, opened, empty, noHead, List.nil_append, List.length_nil, Nat.zero_add,
    if_neg Bool.false_ne_true, if_neg (Nat.not_lt_of_le fits), handleLoop,
    if_neg (Nat.not_lt_of_le long), read]
  dsimp only
  rw [if_neg (fun differ => differ valid.signature), valid.size,
    if_neg (Nat.not_lt_of_le small), valid.protocolVersion, dropped, handleLoop, valid.size,
    if_neg (Nat.lt_irrefl _), isBody]
  dsimp only
  rw [if_pos goes, List.drop_length, handleLoop]
  rfl

end Virie.Levin

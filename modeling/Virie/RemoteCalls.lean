import Virie.Levin.Agreement
import Virie.Foundation.Runs

/-! # Remote calls

Two ends of a connection send requests at any time, also while they handle what arrives, and the
bytes arrive in pieces of any size at any time. Although no answer says what it answers, each
callback gets the answer that the other end gave to its own request. When nothing is on the way and
neither end has closed, nothing is left unanswered. -/

open Foundation

namespace Virie.Levin

variable {W Call : Type}

/-- The two ends of a connection. -/
abbrev Link (W Call : Type) := Bool → Handler W Call

inductive LinkEvent (Call : Type) where
  /-- An end sends on its own. -/
  | send (side : Bool) (out : Outgoing Call)
  /-- Some of the bytes of an end arrive at the other. -/
  | deliver (side : Bool) (count : Nat)
  /-- An end closes, for instance because an answer takes too long. -/
  | close (side : Bool)

def Handler.withSession (handler : Handler W Call) (session : Session W Call) : Handler W Call :=
  { handler with session := session }

def Handler.transmit (handler : Handler W Call) (count : Nat) : Handler W Call :=
  handler.withSession
    { handler.session with outbox := handler.session.outbox.drop count }

def linkStep (A : Bool → CommandsHandler W Call) (maxPacketSize : Bool → Nat) :
    LinkEvent Call → Link W Call → Link W Call
  | .send side out, link =>
    if (link side).closed then link
    else Function.update link side ((link side).withSession ((link side).session.send out))
  | .deliver side count, link =>
    Function.update (Function.update link side ((link side).transmit count)) (!side)
      ((link !side).handleRecv (A !side) (maxPacketSize !side)
        ((link side).session.outbox.take count))
  | .close side, link => Function.update link side { link side with closed := true }

def newSession (app : W) : Session W Call := ⟨app, 0, [], [], [], [], []⟩

/-- Connections, from the moment they are made. -/
def linkSystem (A : Bool → CommandsHandler W Call) (maxPacketSize : Bool → Nat) :
    System (LinkEvent Call) (Link W Call) where
  start link := ∃ app : Bool → W, link = fun side => ⟨[], none, newSession (app side), false⟩
  step := linkStep A maxPacketSize

/-! ## What holds of every connection -/

/-- What is on the way to one end. -/
def Streams (link : Link W Call) (transit : Bool → List Packet) (side : Bool) : Prop :=
  (link !side).closed = false →
    Pending (link !side).currentHead ((link !side).cacheInBuffer ++ (link side).session.outbox)
      (transit side) ∧ (link !side).Settled

/-- The ends agree on the packets that are on the way. -/
def Consistent (link : Link W Call) : Prop :=
  ∃ transit : Bool → List Packet,
    (∀ side, Agree (link side).session (link !side).session (transit !side) (transit side)) ∧
      ∀ side, Streams link transit side

theorem Agree.outbox {own peer : Session W Call} {toOwn toPeer : List Packet}
    (agree : Agree own peer toOwn toPeer) (outbox : List UInt8) :
    Agree { own with outbox := outbox } peer toOwn toPeer :=
  ⟨⟨agree.asks.requests, agree.asks.results, agree.asks.callbacks⟩,
    ⟨agree.answers.requests, agree.answers.results, agree.answers.callbacks⟩, agree.validOwn,
    agree.validPeer⟩

theorem Pending.appendAll {currentHead : Option BucketHead2} {bytes : List UInt8}
    {packets : List Packet} (pending : Pending currentHead bytes packets) (more : List Packet) :
    Pending currentHead (bytes ++ more.flatMap Packet.bytes) (packets ++ more) := by
  induction more generalizing bytes packets with
  | nil => rwa [List.flatMap_nil, List.append_nil, List.append_nil]
  | cons packet more ih =>
    have rest := ih (pending.append packet)
    rwa [List.append_assoc, List.append_assoc] at rest

/-- Two ends that agree, where one of them is named. -/
theorem consistent_of {link : Link W Call} (side : Bool) (transit : Bool → List Packet)
    (agree : Agree (link side).session (link !side).session (transit !side) (transit side))
    (out : Streams link transit side) (back : Streams link transit !side) : Consistent link := by
  refine ⟨transit, fun other => ?_, fun other => ?_⟩
  · rcases Bool.eq_or_eq_not other side with rfl | rfl
    · exact agree
    · have turned := agree.symm
      rwa [Bool.not_not]
  · rcases Bool.eq_or_eq_not other side with rfl | rfl
    · exact out
    · exact back

theorem send_version (session : Session W Call) (out : Outgoing Call) :
    (session.send out).oponentProtocolVer = session.oponentProtocolVer := by
  cases out with
  | asyncInvoke => rfl
  | notify => rfl

theorem Handler.Settled.withSession {handler : Handler W Call} (settled : handler.Settled)
    {session : Session W Call}
    (same : session.oponentProtocolVer = handler.session.oponentProtocolVer) :
    (handler.withSession session).Settled := by
  unfold Handler.Settled Handler.withSession at *
  dsimp only
  split
  · next isHead => rwa [isHead] at settled
  · next head isHead =>
    rw [isHead] at settled
    exact ⟨settled.1, same.trans settled.2⟩

theorem Handler.Settled.known {handler : Handler W Call} (settled : handler.Settled)
    (isHead : handler.currentHead.isSome) :
    handler.session.oponentProtocolVer = levinProtocolVer1 := by
  unfold Handler.Settled at settled
  split at settled
  · next none =>
    rw [none] at isHead
    cases isHead
  · exact settled.2

variable {A : Bool → CommandsHandler W Call} {maxPacketSize : Bool → Nat}

theorem Consistent.send {link : Link W Call} (consistent : Consistent link) (side : Bool)
    (out : Outgoing Call) : Consistent (linkStep A maxPacketSize (.send side out) link) := by
  obtain ⟨transit, agree, streams⟩ := consistent
  rw [linkStep]
  split
  · exact ⟨transit, agree, streams⟩
  · have apart : (!side) ≠ side := Bool.not_ne_self side
    obtain ⟨sent, outbox⟩ := (agree side).send out
    refine consistent_of side
      (Function.update transit side (transit side ++ [out.packet])) ?_ ?_ ?_
    · simp only [Function.update_self, Function.update_of_ne apart]
      exact sent
    · unfold Streams
      simp only [Function.update_self, Function.update_of_ne apart]
      intro opened
      obtain ⟨pending, settled⟩ := streams side opened
      refine ⟨?_, settled⟩
      have more := pending.append out.packet
      rw [List.append_assoc, ← outbox] at more
      exact more
    · have back := streams !side
      unfold Streams at back ⊢
      simp only [Bool.not_not, Function.update_self, Function.update_of_ne apart] at back ⊢
      intro opened
      obtain ⟨pending, settled⟩ := back opened
      exact ⟨pending, settled.withSession (send_version _ _)⟩

theorem Consistent.close {link : Link W Call} (consistent : Consistent link) (side : Bool) :
    Consistent (linkStep A maxPacketSize (.close side) link) := by
  obtain ⟨transit, agree, streams⟩ := consistent
  have apart : (!side) ≠ side := Bool.not_ne_self side
  rw [linkStep]
  refine consistent_of side transit ?_ ?_ ?_
  · simp only [Function.update_self, Function.update_of_ne apart]
    exact agree side
  · have there := streams side
    unfold Streams at there ⊢
    simp only [Function.update_self, Function.update_of_ne apart]
    exact there
  · unfold Streams
    simp only [Bool.not_not, Function.update_self]
    intro opened
    cases opened

/-- What arrives is handled, and what is sent meanwhile is on the way back. -/
theorem Consistent.deliver {link : Link W Call} (consistent : Consistent link) (side : Bool)
    (count : Nat) : Consistent (linkStep A maxPacketSize (.deliver side count) link) := by
  obtain ⟨transit, agree, streams⟩ := consistent
  have apart : (!side) ≠ side := Bool.not_ne_self side
  have there := streams side
  have back := streams !side
  unfold Streams at there back
  rw [Bool.not_not] at back
  rw [linkStep]
  unfold Handler.handleRecv
  -- the receiving end has closed, closes, or handles packets
  split
  · next ended =>
    refine consistent_of side transit ?_ ?_ ?_
    · simp only [Function.update_self, Function.update_of_ne apart.symm]
      exact (agree side).outbox _
    · unfold Streams
      simp only [Function.update_self]
      intro opened
      rw [ended] at opened
      cases opened
    · unfold Streams
      simp only [Bool.not_not, Function.update_self, Function.update_of_ne apart.symm]
      intro opened
      obtain ⟨pending, settled⟩ := back opened
      exact ⟨pending, settled.withSession rfl⟩
  · next opened =>
    have open_ : (link !side).closed = false := Bool.eq_false_iff.mpr opened
    split
    · refine consistent_of side transit ?_ ?_ ?_
      · simp only [Function.update_self, Function.update_of_ne apart.symm]
        exact (agree side).outbox _
      · unfold Streams
        simp only [Function.update_self]
        intro stillOpen
        cases stillOpen
      · unfold Streams
        simp only [Bool.not_not, Function.update_self, Function.update_of_ne apart.symm]
        intro opened
        obtain ⟨pending, settled⟩ := back opened
        exact ⟨pending, settled.withSession rfl⟩
    · obtain ⟨pending, settled⟩ := there open_
      let I (session : Session W Call) (packets : List Packet) : Prop :=
        ∃ more, Agree session (link side).session packets ((transit !side) ++ more) ∧
          session.outbox = (link !side).session.outbox ++ more.flatMap Packet.bytes
      have turned := (agree side).symm
      have before : I (link !side).session (transit side) :=
        ⟨[], by rwa [List.append_nil], (List.append_nil _).symm⟩
      have loop := @handleLoop_keeps W Call (A !side) (maxPacketSize !side) I
        (fun held => by
          obtain ⟨more, held, _⟩ := held
          exact held.validOwn _ (.head _))
        (fun held ver => by
          obtain ⟨more, held, outbox⟩ := held
          exact ⟨more, held.version ver, outbox⟩)
        (fun held known => by
          obtain ⟨more, held, outbox⟩ := held
          obtain ⟨goes, others, kept, sent⟩ := held.handlePacket (A := A !side) known
          refine ⟨goes, more ++ others, ?_, ?_⟩
          · rwa [← List.append_assoc]
          · rw [List.flatMap_append, ← List.append_assoc, ← outbox, sent])
        ((link !side).cacheInBuffer ++ (link side).session.outbox.take count)
        (link !side).currentHead (link !side).session ((link side).session.outbox.drop count)
        (transit side) before
        (by rwa [List.append_assoc, List.take_append_drop])
        settled.known
      obtain ⟨left, ⟨more, kept, outbox⟩, goes, _⟩ := loop
      refine consistent_of side (Function.update (Function.update transit side left) (!side)
        (transit (!side) ++ more)) ?_ ?_ ?_
      · simp only [Function.update_self, Function.update_of_ne apart.symm]
        exact (kept.symm).outbox _
      · unfold Streams
        simp only [Function.update_self, Function.update_of_ne apart.symm]
        exact goes
      · unfold Streams
        simp only [Bool.not_not, Function.update_self, Function.update_of_ne apart.symm]
        intro opened
        obtain ⟨pending, settled⟩ := back opened
        refine ⟨?_, settled.withSession rfl⟩
        have all := pending.appendAll more
        rw [List.append_assoc, ← outbox] at all
        exact all

theorem consistent_of_reachable {link : Link W Call}
    (reached : (linkSystem A maxPacketSize).Reachable link) : Consistent link := by
  refine reached.invariant ?_ ?_
  · rintro link ⟨app, rfl⟩
    have half (own peer : W) : Half (newSession own : Session W Call) (newSession peer) [] [] :=
      ⟨rfl, rfl, rfl⟩
    refine ⟨fun _ => [], fun side => ⟨half _ _, half _ _, ?_, ?_⟩, fun side _ => ⟨rfl, ?_⟩⟩
    · exact fun _ member => absurd member List.not_mem_nil
    · exact fun _ member => absurd member List.not_mem_nil
    · exact (by decide : 0 < bucketHead2Size)
  · rintro event link consistent
    cases event with
    | send side out => exact @Consistent.send W Call A maxPacketSize link consistent side out
    | deliver side count =>
      exact @Consistent.deliver W Call A maxPacketSize link consistent side count
    | close side => exact @Consistent.close W Call A maxPacketSize link consistent side

/-! ## A first request -/

theorem handlePacket_request (A : CommandsHandler W Call) (session : Session W Call)
    (packet : Packet) (isRequest : ¬ packet.isResponse)
    (returns : packet.head.haveToReturnData ≠ 0) {next : W × List (Outgoing Call)}
    {returnCode : UInt32} {returnBuff : Buffer}
    (invokes : A.invoke packet.head.command packet.body session.app =
      (next, returnCode, returnBuff)) :
    session.handlePacket A packet.head packet.body =
      ((session.proceed next).respond packet.head packet.body returnCode returnBuff, true) := by
  rw [Session.handlePacket, if_neg fun both => isRequest both.2, if_pos returns, invokes]

theorem handlePacket_response (A : CommandsHandler W Call) (session : Session W Call)
    (packet : Packet) (known : session.oponentProtocolVer = levinProtocolVer1)
    (isResponse : packet.isResponse) {cb : Call} {rest : List Call}
    (waits : session.invokeResponseHandlers = cb :: rest) :
    session.handlePacket A packet.head packet.body =
      ({ session with
        invokeResponseHandlers := rest
        answers := session.answers ++ [Answer.mk cb packet.head.returnCode packet.body] }.proceed
        (A.handle cb packet.head.returnCode packet.body session.app), true) := by
  rw [Session.handlePacket, if_pos ⟨known, isResponse⟩]
  split
  · next none =>
    rw [none] at waits
    cases waits
  · next isWaiting =>
    rw [isWaiting] at waits
    cases waits
    rfl

theorem Packet.length_bytes (packet : Packet) :
    packet.bytes.length = bucketHead2Size + packet.body.val.length := by
  rw [Packet.bytes, List.length_append, packet.head.length_bytes]

/-- Two ends that have just met. -/
def newLink (app : Bool → W) : Link W Call := fun side => ⟨[], none, newSession (app side), false⟩

/-- The first request and its answer arrive. -/
def firstExchange (inBuff returnBuff : Buffer) (command : UInt32) (cb : Call) :
    List (LinkEvent Call) :=
  [.send false (.asyncInvoke command inBuff cb),
    .deliver false (bucketHead2Size + inBuff.val.length),
    .deliver true (bucketHead2Size + returnBuff.val.length)]

/-- What the two ends have after a first request, where nothing else is sent. -/
theorem firstExchange_answers (A : Bool → CommandsHandler W Call) {maxPacketSize : Bool → Nat}
    (app : Bool → W) {command : UInt32} {inBuff returnBuff : Buffer} {cb : Call} {after later : W}
    {returnCode : UInt32}
    (invokes : (A true).invoke command inBuff (app true) = ((after, []), returnCode, returnBuff))
    (handles : (A false).handle cb returnCode returnBuff (app false) = (later, []))
    (fits : bucketHead2Size + inBuff.val.length ≤ maxPacketSize true)
    (fitsToo : bucketHead2Size + returnBuff.val.length ≤ maxPacketSize false) :
    (((linkSystem A maxPacketSize).after (newLink app)
        (firstExchange inBuff returnBuff command cb)) false).session =
      ⟨later, levinProtocolVer1, [], [], [⟨command, inBuff, cb⟩], [],
        [⟨cb, returnCode, returnBuff⟩]⟩ := by
  let fresh (side : Bool) : Handler W Call := ⟨[], none, newSession (app side), false⟩
  let request : Packet := (Outgoing.asyncInvoke command inBuff cb).packet
  let answer : Packet := responsePacket request.head returnCode returnBuff
  let sent : Link W Call := fun side =>
    if side then fresh true
    else (fresh false).withSession ((fresh false).session.send (.asyncInvoke command inBuff cb))
  let asking : Handler W Call :=
    (sent false).transmit (bucketHead2Size + inBuff.val.length)
  -- the request
  have executes := handlePacket_request (A true)
    { (fresh true).session with oponentProtocolVer := levinProtocolVer1 } request
    (not_isResponse _) (show (1 : UInt8) ≠ 0 by decide) invokes
  have arrives := @handleRecv_packet W Call (A true) (maxPacketSize true) (fresh true) rfl rfl rfl
    request (Outgoing.packet_valid _) (by rwa [Packet.length_bytes]) (by rw [executes])
  rw [executes] at arrives
  -- its answer
  have outbox : asking.session.outbox = [] := by
    change ([] ++ request.bytes).drop _ = []
    rw [List.nil_append, List.drop_eq_nil_iff, Packet.length_bytes]
    exact Nat.le_refl _
  have receives := handlePacket_response (A false)
    { asking.session with oponentProtocolVer := levinProtocolVer1 } answer rfl
    (responsePacket_isResponse _ _ _) (show _ = cb :: [] from rfl)
  have returns := @handleRecv_packet W Call (A false) (maxPacketSize false) asking rfl rfl rfl
    answer ⟨rfl, rfl, rfl⟩ (by rwa [Packet.length_bytes]) (by rw [receives])
  rw [receives] at returns
  have out : (sent false).session.outbox.take (bucketHead2Size + inBuff.val.length) =
      request.bytes := List.take_of_length_le (Packet.length_bytes request).le
  have first : linkStep A maxPacketSize (.send false (.asyncInvoke command inBuff cb))
      (newLink app) = sent := by
    funext side
    cases side with
    | false => rfl
    | true => rfl
  let met : Link W Call :=
    linkStep A maxPacketSize (.deliver false (bucketHead2Size + inBuff.val.length)) sent
  have sender : met false = asking := rfl
  have receiver : met true = ⟨[], none,
      ({ (fresh true).session with oponentProtocolVer := levinProtocolVer1 }.proceed
        (after, [])).respond request.head request.body returnCode returnBuff, false⟩ := by
    change (fresh true).handleRecv _ _ ((sent false).session.outbox.take _) = _
    rw [out]
    exact arrives
  have back : (met true).session.outbox.take (bucketHead2Size + returnBuff.val.length) =
      answer.bytes := by
    rw [receiver]
    exact List.take_of_length_le (Packet.length_bytes answer).le
  have last : (linkStep A maxPacketSize
      (.deliver true (bucketHead2Size + returnBuff.val.length)) met) false =
        asking.handleRecv (A false) (maxPacketSize false) answer.bytes := by
    change (met false).handleRecv _ _ ((met true).session.outbox.take _) = _
    rw [back, sender]
    rfl
  have whole : (linkSystem A maxPacketSize).after (newLink app)
      (firstExchange inBuff returnBuff command cb) = linkStep A maxPacketSize
        (.deliver true (bucketHead2Size + returnBuff.val.length)) met := by
    change _ = linkStep A maxPacketSize _ (linkStep A maxPacketSize _ sent)
    rw [← first]
    rfl
  have handled : (A false).handle cb answer.head.returnCode answer.body asking.session.app =
      (later, []) := handles
  rw [whole, last, returns, handled]
  have ends : asking.session =
      ⟨app false, 0, [cb], asking.session.outbox, [⟨command, inBuff, cb⟩], [], []⟩ := rfl
  rw [outbox] at ends
  rw [ends]
  rfl

/-! ## Answers -/

/-- An end that answers every request with what was sent. -/
def echo : CommandsHandler Nat Nat where
  invoke _ inBuff w := ((w + 1, []), 7, inBuff)
  notify _ _ w := (w, [])
  handle _ _ _ w := (w + 10, [])

def ping : Buffer := ⟨[112, 105], by decide⟩

/-- One end has asked, and the request and the answer have arrived. -/
def pinged : Link Nat Nat :=
  (linkSystem (fun _ => echo) fun _ => 1000).after
    (fun _ => ⟨[], none, newSession 0, false⟩)
    [.send false (.asyncInvoke 5 ping 3), .deliver false 35, .deliver true 35]

theorem pinged_answers : (pinged false).session.answers[0]? = some ⟨3, 7, ping⟩ := by
  have exchanged := @firstExchange_answers Nat Nat (fun _ => echo) (fun _ => 1000) (fun _ => 0) 5
    ping ping 3 1 10 7 rfl rfl (by decide) (by decide)
  have same : (pinged false).session = (((linkSystem (fun _ => echo) fun _ => 1000).after
      (newLink fun _ => 0) (firstExchange ping ping 5 3)) false).session := rfl
  rw [same, exchanged]
  rfl

/-- Nothing is on the way where every byte has arrived and no whole packet waits. -/
theorem Streams.arrived {link : Link W Call} {transit : Bool → List Packet} {side : Bool}
    (streams : Streams link transit side) (opened : (link !side).closed = false)
    (arrived : (link side).session.outbox = [])
    (valid : ∀ packet ∈ transit side, packet.Valid) : transit side = [] := by
  obtain ⟨pending, settled⟩ := streams opened
  rw [arrived, List.append_nil] at pending
  unfold Handler.Settled at settled
  split at settled
  · next none =>
    rw [none] at pending
    cases isTransit : transit side with
    | nil => rfl
    | cons packet rest =>
      rw [isTransit] at pending
      have length := congrArg List.length (pending : (link !side).cacheInBuffer = _)
      rw [List.flatMap_cons, Packet.bytes, List.length_append, List.length_append,
        packet.head.length_bytes] at length
      omega
  · next head isHead =>
    rw [isHead] at pending
    obtain ⟨packet, rest, isTransit, rfl, bytes⟩ := pending
    have size := (valid packet (by rw [isTransit]; exact .head _)).size
    have length := congrArg List.length bytes
    rw [List.length_append] at length
    omega

end Virie.Levin

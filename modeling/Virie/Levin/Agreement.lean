import Virie.Levin.Packets

/-! # Requests and answers

At any time the requests that one end has made are those the other has answered and those that are
on the way, in this order; the answers that were given are those that have reached a callback and
those that are on the way; and the callbacks that wait are those of the requests that have no answer
yet. Sending and handling a packet keep this. -/

open Foundation

namespace Virie.Levin

variable {W Call : Type} {A : CommandsHandler W Call}

/-! ## What packets say -/

namespace Packet

def isResponse (packet : Packet) : Prop := packet.head.flags &&& levinPacketResponse ≠ 0

instance (packet : Packet) : Decidable packet.isResponse :=
  inferInstanceAs (Decidable (packet.head.flags &&& levinPacketResponse ≠ 0))

/-- The request that is to be answered, if the packet is one. -/
def request (packet : Packet) : Option (UInt32 × Buffer) :=
  if packet.isResponse then none
  else if packet.head.haveToReturnData ≠ 0 then some (packet.head.command, packet.body)
  else none

/-- The answer, if the packet is one. -/
def response (packet : Packet) : Option (UInt32 × Buffer) :=
  if packet.isResponse then some (packet.head.returnCode, packet.body) else none

end Packet

def Asked.request (asked : Asked Call) : UInt32 × Buffer := (asked.command, asked.inBuff)
def Executed.request (executed : Executed) : UInt32 × Buffer := (executed.command, executed.inBuff)
def Executed.result (executed : Executed) : UInt32 × Buffer :=
  (executed.returnCode, executed.returnBuff)
def Answer.result (answer : Answer Call) : UInt32 × Buffer := (answer.returnCode, answer.returnBuff)

/-- The packet of something that is sent. -/
def Outgoing.packet : Outgoing Call → Packet
  | .asyncInvoke command inBuff _ => ⟨Session.requestHead command inBuff 1, inBuff⟩
  | .notify command inBuff => ⟨Session.requestHead command inBuff 0, inBuff⟩

theorem Outgoing.packet_valid (out : Outgoing Call) : out.packet.Valid := by
  cases out with
  | asyncInvoke => exact ⟨rfl, rfl, rfl⟩
  | notify => exact ⟨rfl, rfl, rfl⟩

/-! ## Agreement -/

/-- The requests of one end and their answers. -/
structure Half (asker answerer : Session W Call) (toAnswerer toAsker : List Packet) : Prop where
  requests : answerer.executed.map Executed.request ++ toAnswerer.filterMap Packet.request =
    asker.asked.map Asked.request
  results : asker.answers.map Answer.result ++ toAsker.filterMap Packet.response =
    answerer.executed.map Executed.result
  callbacks : asker.answers.map Answer.cb ++ asker.invokeResponseHandlers = asker.asked.map Asked.cb

/-- Both ends and what is on the way to each of them. -/
structure Agree (own peer : Session W Call) (toOwn toPeer : List Packet) : Prop where
  asks : Half own peer toPeer toOwn
  answers : Half peer own toOwn toPeer
  validOwn : ∀ packet ∈ toOwn, packet.Valid
  validPeer : ∀ packet ∈ toPeer, packet.Valid

theorem Agree.symm {own peer : Session W Call} {toOwn toPeer : List Packet}
    (agree : Agree own peer toOwn toPeer) : Agree peer own toPeer toOwn :=
  ⟨agree.answers, agree.asks, agree.validPeer, agree.validOwn⟩

/-- Each answer is that of the request with its number. -/
theorem Half.answered {asker answerer : Session W Call} {toAnswerer toAsker : List Packet}
    (half : Half asker answerer toAnswerer toAsker) {i : Nat} {answer : Answer Call}
    (answered : asker.answers[i]? = some answer) :
    ∃ asked executed, asker.asked[i]? = some asked ∧ answerer.executed[i]? = some executed ∧
      executed.request = asked.request ∧ answer.cb = asked.cb ∧
      answer.result = executed.result := by
  obtain ⟨requests, results, callbacks⟩ := half
  have inRange : i < asker.answers.length := (List.getElem?_eq_some_iff.mp answered).1
  have result : (answerer.executed.map Executed.result)[i]? = some answer.result := by
    rw [← results, List.getElem?_append_left (by rwa [List.length_map]), List.getElem?_map,
      answered]
    rfl
  have callback : (asker.asked.map Asked.cb)[i]? = some answer.cb := by
    rw [← callbacks, List.getElem?_append_left (by rwa [List.length_map]), List.getElem?_map,
      answered]
    rfl
  rw [List.getElem?_map] at result callback
  obtain ⟨executed, isExecuted, sameResult⟩ := Option.map_eq_some_iff.mp result
  obtain ⟨asked, isAsked, sameCallback⟩ := Option.map_eq_some_iff.mp callback
  have executedRange : i < answerer.executed.length :=
    (List.getElem?_eq_some_iff.mp isExecuted).1
  have request : (asker.asked.map Asked.request)[i]? = some executed.request := by
    rw [← requests, List.getElem?_append_left (by rwa [List.length_map]), List.getElem?_map,
      isExecuted]
    rfl
  rw [List.getElem?_map, isAsked] at request
  exact ⟨asked, executed, isAsked, isExecuted, (Option.some.inj request).symm, sameCallback.symm,
    sameResult.symm⟩

section Steps

variable {own peer : Session W Call} {toOwn toPeer : List Packet}

theorem Agree.version (agree : Agree own peer toOwn toPeer) (ver : UInt32) :
    Agree { own with oponentProtocolVer := ver } peer toOwn toPeer :=
  ⟨⟨agree.asks.requests, agree.asks.results, agree.asks.callbacks⟩,
    ⟨agree.answers.requests, agree.answers.results, agree.answers.callbacks⟩, agree.validOwn,
    agree.validPeer⟩

theorem Agree.app (agree : Agree own peer toOwn toPeer) (app : W) :
    Agree { own with app := app } peer toOwn toPeer :=
  ⟨⟨agree.asks.requests, agree.asks.results, agree.asks.callbacks⟩,
    ⟨agree.answers.requests, agree.answers.results, agree.answers.callbacks⟩, agree.validOwn,
    agree.validPeer⟩

theorem not_isResponse (out : Outgoing Call) : ¬ out.packet.isResponse := by
  have flags : ¬ levinPacketRequest &&& levinPacketResponse ≠ 0 := by decide
  cases out with
  | asyncInvoke => exact flags
  | notify => exact flags

theorem request_asyncInvoke (command : UInt32) (inBuff : Buffer) (cb : Call) :
    (Outgoing.asyncInvoke command inBuff cb).packet.request = some (command, inBuff) := by
  rw [Packet.request, if_neg (not_isResponse _)]
  exact if_pos (by decide : (1 : UInt8) ≠ 0)

theorem request_notify (command : UInt32) (inBuff : Buffer) :
    (Outgoing.notify command inBuff : Outgoing Call).packet.request = none := by
  rw [Packet.request, if_neg (not_isResponse _)]
  exact if_neg (by decide : ¬ (0 : UInt8) ≠ 0)

theorem response_outgoing (out : Outgoing Call) : out.packet.response = none := by
  rw [Packet.response, if_neg (not_isResponse out)]

/-- Sending. -/
theorem Agree.send (agree : Agree own peer toOwn toPeer) (out : Outgoing Call) :
    Agree (own.send out) peer toOwn (toPeer ++ [out.packet]) ∧
      (own.send out).outbox = own.outbox ++ out.packet.bytes := by
  have valid : ∀ packet ∈ toPeer ++ [out.packet], packet.Valid := by
    intro packet member
    rcases List.mem_append.mp member with before | last
    · exact agree.validPeer packet before
    · rw [List.mem_singleton.mp last]
      exact out.packet_valid
  have responses : (toPeer ++ [out.packet]).filterMap Packet.response =
      toPeer.filterMap Packet.response := by
    rw [List.filterMap_append, List.filterMap_cons_none (response_outgoing out),
      List.filterMap_nil, List.append_nil]
  obtain ⟨⟨requests, results, callbacks⟩, ⟨requestsToo, resultsToo, callbacksToo⟩, validOwn, _⟩ :=
    agree
  cases out with
  | asyncInvoke command inBuff cb =>
    refine ⟨⟨⟨?_, results, ?_⟩, ⟨requestsToo, ?_, callbacksToo⟩, validOwn, valid⟩, rfl⟩
    · have asked : (own.send (.asyncInvoke command inBuff cb)).asked.map Asked.request =
          own.asked.map Asked.request ++ [(command, inBuff)] := List.map_append
      rw [List.filterMap_append, List.filterMap_cons_some (request_asyncInvoke command inBuff cb),
        List.filterMap_nil, ← List.append_assoc, requests, asked]
    · have asked : (own.send (.asyncInvoke command inBuff cb)).asked.map Asked.cb =
          own.asked.map Asked.cb ++ [cb] := List.map_append
      rw [asked, ← callbacks, List.append_assoc]
      rfl
    · rw [responses]
      exact resultsToo
  | notify command inBuff =>
    refine ⟨⟨⟨?_, results, callbacks⟩, ⟨requestsToo, ?_, callbacksToo⟩, validOwn, valid⟩, rfl⟩
    · rw [List.filterMap_append, List.filterMap_cons_none (request_notify command inBuff),
        List.filterMap_nil, List.append_nil]
      exact requests
    · rw [responses]
      exact resultsToo

/-- All of some packets, one after the other. -/
theorem Agree.sends (agree : Agree own peer toOwn toPeer) (outs : List (Outgoing Call)) :
    ∃ more, Agree (outs.foldl Session.send own) peer toOwn (toPeer ++ more) ∧
      (outs.foldl Session.send own).outbox = own.outbox ++ more.flatMap Packet.bytes ∧
      (outs.foldl Session.send own).oponentProtocolVer = own.oponentProtocolVer := by
  induction outs generalizing own toPeer with
  | nil =>
    refine ⟨[], ?_, (List.append_nil _).symm, rfl⟩
    rwa [List.append_nil]
  | cons out outs ih =>
    obtain ⟨sent, outbox⟩ := agree.send out
    obtain ⟨more, rest, outboxToo, ver⟩ := ih sent
    refine ⟨out.packet :: more, ?_, ?_, ?_⟩
    · rwa [List.append_cons]
    · rw [List.foldl_cons, outboxToo, outbox, List.append_assoc]
      rfl
    · rw [List.foldl_cons, ver]
      cases out with
      | asyncInvoke => rfl
      | notify => rfl

theorem Agree.proceed (agree : Agree own peer toOwn toPeer) (next : W × List (Outgoing Call)) :
    ∃ more, Agree (own.proceed next) peer toOwn (toPeer ++ more) ∧
      (own.proceed next).outbox = own.outbox ++ more.flatMap Packet.bytes := by
  obtain ⟨more, rest, outbox, _⟩ := (agree.app next.1).sends next.2
  exact ⟨more, rest, outbox⟩

/-- The packet of an answer. -/
def responsePacket (head : BucketHead2) (returnCode : UInt32) (returnBuff : Buffer) : Packet where
  head :=
    { head with
      returnCode, cb := returnBuff.size, haveToReturnData := 0,
      protocolVersion := levinProtocolVer1, flags := levinPacketResponse }
  body := returnBuff

theorem responsePacket_isResponse (head : BucketHead2) (returnCode : UInt32)
    (returnBuff : Buffer) : (responsePacket head returnCode returnBuff).isResponse :=
  (by decide : levinPacketResponse &&& levinPacketResponse ≠ 0)

/-- The answer to the first packet. -/
theorem Agree.respond {packet : Packet} (agree : Agree own peer (packet :: toOwn) toPeer)
    (request : packet.request = some (packet.head.command, packet.body))
    (response : packet.response = none) (returnCode : UInt32) (returnBuff : Buffer) :
    Agree (own.respond packet.head packet.body returnCode returnBuff) peer toOwn
        (toPeer ++ [responsePacket packet.head returnCode returnBuff]) ∧
      (own.respond packet.head packet.body returnCode returnBuff).outbox =
        own.outbox ++ (responsePacket packet.head returnCode returnBuff).bytes := by
  have isResponse := responsePacket_isResponse packet.head returnCode returnBuff
  have noRequest : (responsePacket packet.head returnCode returnBuff).request = none :=
    if_pos isResponse
  have answers : (responsePacket packet.head returnCode returnBuff).response =
      some (returnCode, returnBuff) := if_pos isResponse
  obtain ⟨⟨requests, results, callbacks⟩, ⟨requestsToo, resultsToo, callbacksToo⟩, valid,
    validToo⟩ := agree
  rw [List.filterMap_cons_none response] at results
  rw [List.filterMap_cons_some request] at requestsToo
  refine ⟨⟨⟨?_, results, callbacks⟩, ⟨?_, ?_, callbacksToo⟩,
    fun other member => valid other (.tail _ member), ?_⟩, rfl⟩
  · rw [List.filterMap_append, List.filterMap_cons_none noRequest, List.filterMap_nil,
      List.append_nil]
    exact requests
  · change (own.executed ++ [_]).map Executed.request ++ _ = _
    rw [List.map_append, List.append_assoc]
    exact requestsToo
  · change _ = (own.executed ++ [_]).map Executed.result
    rw [List.filterMap_append, List.filterMap_cons_some answers, List.filterMap_nil,
      ← List.append_assoc, resultsToo, List.map_append]
    rfl
  · intro other member
    rcases List.mem_append.mp member with before | last
    · exact validToo other before
    · rw [List.mem_singleton.mp last]
      exact ⟨(valid packet (.head _)).signature, rfl, rfl⟩

/-- Handling the first packet: the connection goes on, and what the end sends is on the way. -/
theorem Agree.handlePacket {packet : Packet} (agree : Agree own peer (packet :: toOwn) toPeer)
    (known : own.oponentProtocolVer = levinProtocolVer1) :
    (own.handlePacket A packet.head packet.body).2 = true ∧
      ∃ more, Agree (own.handlePacket A packet.head packet.body).1 peer toOwn (toPeer ++ more) ∧
        (own.handlePacket A packet.head packet.body).1.outbox =
          own.outbox ++ more.flatMap Packet.bytes := by
  unfold Session.handlePacket
  by_cases isResponse : packet.isResponse
  · rw [if_pos ⟨known, isResponse⟩]
    have request : packet.request = none := if_pos isResponse
    have response : packet.response = some (packet.head.returnCode, packet.body) :=
      if_pos isResponse
    obtain ⟨⟨requests, results, callbacks⟩, ⟨requestsToo, resultsToo, callbacksToo⟩, valid,
      validToo⟩ := agree
    rw [List.filterMap_cons_some response] at results
    rw [List.filterMap_cons_none request] at requestsToo
    split
    · next none =>
      -- more requests were answered than callbacks were called, so one waits
      rw [none, List.append_nil] at callbacks
      have first := congrArg List.length results
      have second := congrArg List.length requests
      have third := congrArg List.length callbacks
      simp only [List.length_append, List.length_map, List.length_cons] at first second third
      omega
    · next cb rest waits =>
      rw [waits] at callbacks
      let answered : Session W Call :=
        { own with
          invokeResponseHandlers := rest
          answers := own.answers ++ [Answer.mk cb packet.head.returnCode packet.body] }
      have kept : Agree answered peer toOwn toPeer := by
        refine ⟨⟨requests, ?_, ?_⟩, ⟨requestsToo, resultsToo, callbacksToo⟩,
          fun other member => valid other (.tail _ member), validToo⟩
        · rw [List.map_append, List.append_assoc]
          exact results
        · rw [List.map_append, List.append_assoc]
          exact callbacks
      exact ⟨rfl, kept.proceed _⟩
  · rw [if_neg fun both => isResponse both.2]
    have response : packet.response = none := if_neg isResponse
    by_cases returns : packet.head.haveToReturnData ≠ 0
    · rw [if_pos returns]
      have request : packet.request = some (packet.head.command, packet.body) := by
        rw [Packet.request, if_neg isResponse, if_pos returns]
      obtain ⟨next, returnCode, returnBuff⟩ := A.invoke packet.head.command packet.body own.app
      obtain ⟨more, rest, outbox⟩ := agree.proceed next
      obtain ⟨kept, sent⟩ := rest.respond request response returnCode returnBuff
      refine ⟨rfl, more ++ [responsePacket packet.head returnCode returnBuff], ?_, ?_⟩
      · rw [← List.append_assoc]
        exact kept
      · rw [List.flatMap_append, List.flatMap_singleton, ← List.append_assoc, ← outbox]
        exact sent
    · rw [if_neg returns]
      have request : packet.request = none := by
        rw [Packet.request, if_neg isResponse, if_neg returns]
      refine ⟨rfl, Agree.proceed ?_ _⟩
      obtain ⟨⟨requests, results, callbacks⟩, ⟨requestsToo, resultsToo, callbacksToo⟩, valid,
        validToo⟩ := agree
      rw [List.filterMap_cons_none response] at results
      rw [List.filterMap_cons_none request] at requestsToo
      exact ⟨⟨requests, results, callbacks⟩, ⟨requestsToo, resultsToo, callbacksToo⟩,
        fun other member => valid other (.tail _ member), validToo⟩

end Steps

end Virie.Levin

import Virie.Foundation.Reader

/-! # Connections

Both ends of a connection send packets: requests, some of which are to be answered, and answers. A
packet is a head of fixed size and a body. What arrives comes in pieces that have nothing to do with
packets, so an end keeps what it cannot handle yet. An answer does not say which request it is for:
the end that asked takes it for the oldest request that has none. -/

open Foundation

namespace Virie.Levin

def levinSignature : UInt64 := 0x0101010101012101
def levinPacketRequest : UInt32 := 1
def levinPacketResponse : UInt32 := 2
def levinProtocolVer1 : UInt32 := 1
def bucketHead2Size : Nat := 33

/-- A string; its size is a number of 64 bits. -/
abbrev Buffer := { bytes : List UInt8 // bytes.length < 2 ^ 64 }

def Buffer.size (buff : Buffer) : UInt64 := UInt64.ofNat buff.val.length

/-- The head of a packet. The first of the numbers is the same in all packets. -/
structure BucketHead2 where
  signature : UInt64
  cb : UInt64
  haveToReturnData : UInt8
  command : UInt32
  returnCode : UInt32
  flags : UInt32
  protocolVersion : UInt32
deriving DecidableEq

namespace BucketHead2

/-- The head as it lies in memory, without gaps. -/
def bytes (head : BucketHead2) : List UInt8 :=
  Codec.writeUint 8 head.signature.toNat ++ (Codec.writeUint 8 head.cb.toNat ++
    (Codec.writeUint 1 head.haveToReturnData.toNat ++ (Codec.writeUint 4 head.command.toNat ++
      (Codec.writeUint 4 head.returnCode.toNat ++ (Codec.writeUint 4 head.flags.toNat ++
        Codec.writeUint 4 head.protocolVersion.toNat)))))

def read : Reader BucketHead2 := do
  let signature ← Reader.uint 8
  let cb ← Reader.uint 8
  let haveToReturnData ← Reader.uint 1
  let command ← Reader.uint 4
  let returnCode ← Reader.uint 4
  let flags ← Reader.uint 4
  let protocolVersion ← Reader.uint 4
  pure ⟨.ofNat signature, .ofNat cb, .ofNat haveToReturnData, .ofNat command, .ofNat returnCode,
    .ofNat flags, .ofNat protocolVersion⟩

end BucketHead2

/-! ## The ends -/

variable {W Call : Type}

/-- What an end sends on its own: a request whose answer goes to a callback, or one that has no
answer. -/
inductive Outgoing (Call : Type) where
  | asyncInvoke (command : UInt32) (inBuff : Buffer) (cb : Call)
  | notify (command : UInt32) (inBuff : Buffer)

/-- What an end does with requests and answers. All of it may send. -/
structure CommandsHandler (W Call : Type) where
  invoke : UInt32 → Buffer → W → (W × List (Outgoing Call)) × UInt32 × Buffer
  notify : UInt32 → Buffer → W → W × List (Outgoing Call)
  handle : Call → UInt32 → Buffer → W → W × List (Outgoing Call)

/-- A request that was answered: what was asked, the code and the answer. -/
structure Executed where
  command : UInt32
  inBuff : Buffer
  returnCode : UInt32
  returnBuff : Buffer

/-- A request of this end, for which an answer is expected. -/
structure Asked (Call : Type) where
  command : UInt32
  inBuff : Buffer
  cb : Call

/-- An answer that was passed to a callback. -/
structure Answer (Call : Type) where
  cb : Call
  returnCode : UInt32
  returnBuff : Buffer

/-- An end without the bytes it has received: its application, the callbacks that wait, and the bytes
that it sent and that have not arrived. The last fields tell what has happened so far; nothing
depends on them. -/
structure Session (W Call : Type) where
  app : W
  oponentProtocolVer : UInt32
  invokeResponseHandlers : List Call
  outbox : List UInt8
  asked : List (Asked Call)
  executed : List Executed
  answers : List (Answer Call)

namespace Session

/-- The head of a request. -/
def requestHead (command : UInt32) (inBuff : Buffer) (haveToReturnData : UInt8) : BucketHead2 :=
  ⟨levinSignature, inBuff.size, haveToReturnData, command, 0, levinPacketRequest,
    levinProtocolVer1⟩

/-- Send a packet. -/
def doSend (head : BucketHead2) (buff : Buffer) (session : Session W Call) : Session W Call :=
  { session with outbox := session.outbox ++ (head.bytes ++ buff.val) }

def send (session : Session W Call) : Outgoing Call → Session W Call
  | .asyncInvoke command inBuff cb =>
    { session with
      invokeResponseHandlers := session.invokeResponseHandlers ++ [cb]
      asked := session.asked ++ [Asked.mk command inBuff cb] }.doSend
      (requestHead command inBuff 1) inBuff
  | .notify command inBuff => session.doSend (requestHead command inBuff 0) inBuff

/-- Answer a request. The head of the answer is that of the request but for some fields. -/
def respond (session : Session W Call) (head : BucketHead2) (inBuff : Buffer) (returnCode : UInt32)
    (returnBuff : Buffer) : Session W Call :=
  { session with
    executed := session.executed ++
      [Executed.mk head.command inBuff returnCode returnBuff] }.doSend
    { head with
      returnCode, cb := returnBuff.size, haveToReturnData := 0,
      protocolVersion := levinProtocolVer1, flags := levinPacketResponse } returnBuff

/-- The application goes on and sends. -/
def proceed (session : Session W Call) (next : W × List (Outgoing Call)) : Session W Call :=
  next.2.foldl send { session with app := next.1 }

/-- Handle a packet. An answer nobody waits for ends the connection. -/
def handlePacket (A : CommandsHandler W Call) (head : BucketHead2) (buff : Buffer)
    (session : Session W Call) : Session W Call × Bool :=
  if session.oponentProtocolVer = levinProtocolVer1 ∧ head.flags &&& levinPacketResponse ≠ 0 then
    match session.invokeResponseHandlers with
    | [] => (session, false)
    | cb :: rest =>
      ({ session with
        invokeResponseHandlers := rest
        answers := session.answers ++ [Answer.mk cb head.returnCode buff] }.proceed
        (A.handle cb head.returnCode buff session.app), true)
  else if head.haveToReturnData ≠ 0 then
    let (next, returnCode, returnBuff) := A.invoke head.command buff session.app
    ((session.proceed next).respond head buff returnCode returnBuff, true)
  else (session.proceed (A.notify head.command buff session.app), true)

end Session

/-- An end: what it has received and not handled, and the head of a packet whose body is not here
yet. -/
structure Handler (W Call : Type) where
  cacheInBuffer : List UInt8
  currentHead : Option BucketHead2
  session : Session W Call
  closed : Bool

theorem length_body_lt (head : BucketHead2) (cache : List UInt8) :
    (cache.take head.cb.toNat).length < 2 ^ 64 :=
  (List.length_take_le _ _).trans_lt (UInt64.toNat_lt head.cb)

/-- The body of a packet at the front of some bytes. -/
def bodyOf (head : BucketHead2) (cache : List UInt8) : Buffer :=
  ⟨cache.take head.cb.toNat, length_body_lt head cache⟩

/-- Handle packets as long as there are whole ones. -/
def handleLoop (A : CommandsHandler W Call) (maxPacketSize : Nat) (cache : List UInt8)
    (currentHead : Option BucketHead2) (session : Session W Call) : Handler W Call :=
  match currentHead with
  | some head =>
    if cache.length < head.cb.toNat then ⟨cache, some head, session, false⟩
    else
      let result := session.handlePacket A head (bodyOf head cache)
      if result.2 then handleLoop A maxPacketSize (cache.drop head.cb.toNat) none result.1
      else ⟨cache.drop head.cb.toNat, some head, result.1, true⟩
  | none =>
    if cache.length < bucketHead2Size then
      -- what is there of a head is checked as soon as its first number is
      ⟨cache, none, session,
        decide (8 ≤ cache.length ∧ Codec.writeUint 8 levinSignature.toNat ≠ cache.take 8)⟩
    else
      match BucketHead2.read (cache.take bucketHead2Size) with
      | none => ⟨cache, none, session, true⟩
      | some (head, _) =>
        if head.signature ≠ levinSignature then ⟨cache, none, session, true⟩
        else
          let session := { session with oponentProtocolVer := head.protocolVersion }
          if maxPacketSize < head.cb.toNat then
            ⟨cache.drop bucketHead2Size, some head, session, true⟩
          else handleLoop A maxPacketSize (cache.drop bucketHead2Size) (some head) session
termination_by 2 * cache.length + (if currentHead.isSome then 1 else 0)
decreasing_by
  · simp only [List.length_drop, Option.isSome_some, Option.isSome_none, if_true,
      Bool.false_eq_true, if_false]
    omega
  · have long : bucketHead2Size ≤ cache.length := Nat.le_of_not_lt ‹_›
    simp only [List.length_drop, Option.isSome_some, Option.isSome_none, if_true,
      Bool.false_eq_true, if_false]
    unfold bucketHead2Size at long ⊢
    omega

/-- Some bytes arrive. -/
def Handler.handleRecv (A : CommandsHandler W Call) (maxPacketSize : Nat) (bytes : List UInt8)
    (handler : Handler W Call) : Handler W Call :=
  if handler.closed then handler
  else if maxPacketSize < handler.cacheInBuffer.length + bytes.length then
    { handler with closed := true }
  else
    handleLoop A maxPacketSize (handler.cacheInBuffer ++ bytes) handler.currentHead handler.session

end Virie.Levin

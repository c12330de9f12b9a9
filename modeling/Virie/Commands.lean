import Virie.RemoteCalls
import Virie.StorageBlobs

/-! # Typed commands

Requests and answers are sections. A section is sent as its blob, and the other end reads the blob,
runs the handler of the command and sends the blob of what the handler returns. The callback gets
the code of the handler and, if the code is positive, the section. -/

open Foundation Virie.PortableStorage

namespace Virie.Levin

/-! ## Codes -/

/-- A code as the unsigned number that a head has. -/
def levinCode (code : Int) : UInt32 := UInt32.ofInt code

def levinErrorConnectionHandlerNotDefined : UInt32 := levinCode (-6)
def levinErrorFormat : UInt32 := levinCode (-7)
def levinErrorInternal : UInt32 := levinCode (-10)

def isPositive (code : UInt32) : Bool := decide (0 < code.toInt32.toInt)

/-! ## Blobs as strings -/

/-- Bytes as a string; there are no longer strings. -/
def toBuffer (bytes : List UInt8) : Buffer :=
  if short : bytes.length < 2 ^ 64 then ⟨bytes, short⟩ else ⟨[], by decide⟩

/-- The blob of a section. What cannot be stored leaves an empty string. -/
def blobOf (s : Section) : Buffer := toBuffer ((storeToBinary s).getD [])

variable {W Call : Type}

/-! ## Commands -/

/-- What an end sends: a section to be answered, or one that has no answer. -/
inductive Command (Call : Type) where
  | asyncInvokeRemoteCommand2 (command : UInt32) (outStruct : Section) (cb : Call)
  | notifyRemoteCommand2 (command : UInt32) (outStruct : Section)

def Command.outgoing : Command Call → Outgoing Call
  | .asyncInvokeRemoteCommand2 command outStruct cb => .asyncInvoke command (blobOf outStruct) cb
  | .notifyRemoteCommand2 command outStruct => .notify command (blobOf outStruct)

/-- The handlers of the commands that an end knows, and its callbacks. -/
structure InvokeMap (W Call : Type) where
  invoke : UInt32 → Option (Section → W → (W × List (Command Call)) × UInt32 × Section)
  notify : UInt32 → Option (Section → W → W × List (Command Call))
  handle : Call → UInt32 → Option Section → W → W × List (Command Call)

def outgoings (next : W × List (Command Call)) : W × List (Outgoing Call) :=
  (next.1, next.2.map Command.outgoing)

/-- What a callback is told of an answer. -/
def received (code : UInt32) (buff : Buffer) : UInt32 × Option Section :=
  if !isPositive code then (code, none)
  else
    match loadFromBinary buff.val with
    | none => (levinErrorFormat, none)
    | some result => (code, some result)

/-- Run the handler of a command. -/
def buffToTAdapter (cb : Section → W → (W × List (Command Call)) × UInt32 × Section)
    (inBuff : Buffer) (app : W) : (W × List (Outgoing Call)) × UInt32 × Buffer :=
  match loadFromBinary inBuff.val with
  | none => ((app, []), levinErrorFormat, toBuffer [])
  | some inStruct =>
    let (next, res, outStruct) := cb inStruct app
    match storeToBinary outStruct with
    | none => (outgoings next, levinErrorInternal, toBuffer [])
    | some _ => (outgoings next, res, blobOf outStruct)

/-- The handler of a connection for a map of commands. -/
def InvokeMap.handler (M : InvokeMap W Call) : CommandsHandler W Call where
  invoke command inBuff app :=
    match M.invoke command with
    | none => ((app, []), levinErrorConnectionHandlerNotDefined, toBuffer [])
    | some cb => buffToTAdapter cb inBuff app
  notify command inBuff app :=
    match M.notify command with
    | none => (app, [])
    | some cb =>
      match loadFromBinary inBuff.val with
      | none => (app, [])
      | some inStruct => outgoings (cb inStruct app)
  handle cb code buff app :=
    outgoings (M.handle cb (received code buff).1 (received code buff).2 app)

/-! ## What is executed -/

/-- Every answer that an end has given is what its handler returned. -/
def Executes (A : CommandsHandler W Call) (session : Session W Call) : Prop :=
  ∀ executed ∈ session.executed,
    ∃ app, (A.invoke executed.command executed.inBuff app).2 = executed.result

theorem executed_send (session : Session W Call) (out : Outgoing Call) :
    (session.send out).executed = session.executed := by
  cases out with
  | asyncInvoke => rfl
  | notify => rfl

theorem executed_sends (outs : List (Outgoing Call)) (session : Session W Call) :
    (outs.foldl Session.send session).executed = session.executed := by
  induction outs generalizing session with
  | nil => rfl
  | cons out outs ih => rw [List.foldl_cons, ih, executed_send]

theorem executed_proceed (session : Session W Call) (next : W × List (Outgoing Call)) :
    (session.proceed next).executed = session.executed := executed_sends next.2 _

theorem Executes.of_same {A : CommandsHandler W Call} {session next : Session W Call}
    (executes : Executes A session) (same : next.executed = session.executed) :
    Executes A next := by
  unfold Executes
  rwa [same]

theorem Executes.handlePacket {A : CommandsHandler W Call} {session : Session W Call}
    (executes : Executes A session) (head : BucketHead2) (buff : Buffer) :
    Executes A (session.handlePacket A head buff).1 := by
  unfold Session.handlePacket
  split
  · split
    · exact executes
    · exact executes.of_same (executed_proceed _ _)
  · split
    · intro executed member
      rcases List.mem_append.mp member with before | last
      · rw [executed_proceed] at before
        exact executes executed before
      · rw [List.mem_singleton.mp last]
        exact ⟨session.app, rfl⟩
    · exact executes.of_same (executed_proceed _ _)

theorem Executes.handleLoop {A : CommandsHandler W Call} {maxPacketSize : Nat}
    {session : Session W Call} (executes : Executes A session) (cache : List UInt8)
    (currentHead : Option BucketHead2) :
    Executes A (handleLoop A maxPacketSize cache currentHead session).session := by
  fun_induction Levin.handleLoop A maxPacketSize cache currentHead session with
  | case1 => exact executes
  | case2 cache session head long result goes ih => exact ih (executes.handlePacket _ _)
  | case3 cache session head long result stops => exact executes.handlePacket _ _
  | case4 => exact executes
  | case5 => exact executes
  | case6 => exact executes
  | case7 => exact executes
  | case8 cache session long head behind isRead good next small ih => exact ih executes

theorem Executes.handleRecv {A : CommandsHandler W Call} {handler : Handler W Call}
    (executes : Executes A handler.session) (maxPacketSize : Nat) (bytes : List UInt8) :
    Executes A (handler.handleRecv A maxPacketSize bytes).session := by
  unfold Handler.handleRecv
  split
  · exact executes
  · split
    · exact executes
    · exact executes.handleLoop _ _

variable {A : Bool → CommandsHandler W Call} {maxPacketSize : Bool → Nat}

theorem executes_update {link : Link W Call}
    (executes : ∀ side, Executes (A side) (link side).session) (changed : Bool)
    {handler : Handler W Call} (kept : Executes (A changed) handler.session) (side : Bool) :
    Executes (A side) (Function.update link changed handler side).session := by
  rcases eq_or_ne side changed with rfl | apart
  · rwa [Function.update_self]
  · rw [Function.update_of_ne apart]
    exact executes side

theorem executes_of_reachable {link : Link W Call}
    (reached : (linkSystem A maxPacketSize).Reachable link) :
    ∀ side, Executes (A side) (link side).session := by
  let I (link : Link W Call) : Prop := ∀ side, Executes (A side) (link side).session
  have start (link : Link W Call) (initial : (linkSystem A maxPacketSize).start link) :
      I link := by
    obtain ⟨app, rfl⟩ := initial
    intro side executed member
    exact absurd member List.not_mem_nil
  refine System.Reachable.invariant reached start ?_
  intro event link executes
  cases event with
  | send side out =>
    change I (linkStep A maxPacketSize (.send side out) link)
    rw [linkStep]
    split
    · exact executes
    · exact executes_update executes side ((executes side).of_same (executed_send _ _))
  | deliver side count =>
    have transmitted : Executes (A side) ((link side).transmit count).session :=
      (executes side).of_same rfl
    exact executes_update (executes_update executes side transmitted) (!side)
      ((executes !side).handleRecv _ _)
  | close side => exact executes_update executes side (executes side)

/-! ## Sections -/

/-- A section that can be sent. -/
structure Sendable (s : Section) : Prop where
  fits : s.Fits 255
  short : 9 + s.size < 2 ^ 64

/-- The other end reads the section that was sent, unless it is too deep. -/
theorem Sendable.read {s : Section} (sendable : Sendable s) :
    (storeToBinary s).isSome ∧ loadFromBinary (blobOf s).val =
      if s.calls < epeePortableStorageRecursionLimit then some s else none := by
  obtain ⟨out, packed, length, reads⟩ := s.stored sendable.fits
  have stored : storeToBinary s = some (storageBlockHeader ++ out) := by
    rw [storeToBinary, packed]
    rfl
  have short : (storageBlockHeader ++ out).length < 2 ^ 64 := by
    rw [List.length_append, storageBlockHeader_length, length]
    exact sendable.short
  have read := loadFromBinary_packed length reads []
  rw [List.append_nil] at read
  refine ⟨by rw [stored]; rfl, ?_⟩
  rw [blobOf, stored, Option.getD_some, toBuffer, dif_pos short]
  exact read

/-- What an end learns of a code and a section that the handler of the other end returns. -/
def told (res : UInt32) (outStruct : Section) : UInt32 × Option Section :=
  if isPositive res then
    if outStruct.calls < epeePortableStorageRecursionLimit then (res, some outStruct)
    else (levinErrorFormat, none)
  else (res, none)

theorem received_blobOf {outStruct : Section} (sendable : Sendable outStruct) (res : UInt32) :
    received res (blobOf outStruct) = told res outStruct := by
  rw [received, told, sendable.read.2]
  cases isPositive res with
  | false => rfl
  | true =>
    by_cases few : outStruct.calls < epeePortableStorageRecursionLimit
    · rw [if_pos few, if_pos few]
      rfl
    · rw [if_neg few, if_neg few]
      rfl

/-- What an end learns of a request: what the handler of the other end returns for the section that
was sent, or a code that says why there is no answer. -/
def InvokeMap.outcome (M : InvokeMap W Call) (command : UInt32) (outStruct : Section) (app : W) :
    UInt32 × Option Section :=
  match M.invoke command with
  | none => (levinErrorConnectionHandlerNotDefined, none)
  | some cb =>
    if outStruct.calls < epeePortableStorageRecursionLimit then
      told (cb outStruct app).2.1 (cb outStruct app).2.2
    else (levinErrorFormat, none)

theorem received_notDefined (buff : Buffer) :
    received levinErrorConnectionHandlerNotDefined buff =
      (levinErrorConnectionHandlerNotDefined, none) := by
  have error : isPositive levinErrorConnectionHandlerNotDefined = false := by decide
  rw [received, error]
  rfl

theorem received_format (buff : Buffer) :
    received levinErrorFormat buff = (levinErrorFormat, none) := by
  have error : isPositive levinErrorFormat = false := by decide
  rw [received, error]
  rfl

/-- The handler runs on the section that was sent. -/
theorem InvokeMap.handler_invoke (M : InvokeMap W Call) {command : UInt32} {outStruct : Section}
    {app : W} (sendable : Sendable outStruct)
    (few : outStruct.calls < epeePortableStorageRecursionLimit)
    {cb : Section → W → (W × List (Command Call)) × UInt32 × Section}
    (known : M.invoke command = some cb) (returns : Sendable (cb outStruct app).2.2) :
    M.handler.invoke command (blobOf outStruct) app =
      (outgoings (cb outStruct app).1, (cb outStruct app).2.1,
        blobOf (cb outStruct app).2.2) := by
  obtain ⟨blob, stored⟩ := Option.isSome_iff_exists.mp returns.read.1
  unfold InvokeMap.handler
  dsimp only
  rw [known]
  unfold buffToTAdapter
  dsimp only
  rw [sendable.read.2, if_pos few]
  dsimp only
  rw [stored]

theorem InvokeMap.received_handler (M : InvokeMap W Call) {command : UInt32} {outStruct : Section}
    (sendable : Sendable outStruct) {app : W}
    (returns : ∀ cb, M.invoke command = some cb → Sendable (cb outStruct app).2.2) :
    received (M.handler.invoke command (blobOf outStruct) app).2.1
        (M.handler.invoke command (blobOf outStruct) app).2.2 =
      M.outcome command outStruct app := by
  unfold InvokeMap.outcome
  cases known : M.invoke command with
  | none =>
    unfold InvokeMap.handler
    dsimp only
    rw [known]
    exact received_notDefined _
  | some cb =>
    by_cases few : outStruct.calls < epeePortableStorageRecursionLimit
    · dsimp only
      rw [if_pos few, M.handler_invoke sendable few known (returns cb known)]
      exact received_blobOf (returns cb known) _
    · unfold InvokeMap.handler
      dsimp only
      rw [known, if_neg few]
      unfold buffToTAdapter
      dsimp only
      rw [sendable.read.2, if_neg few]
      exact received_format _

/-! ## Answers -/

/-- In every state that a connection reaches, whatever both ends send and however it arrives: a
callback that was to get the answer to a section is told what the handler of the other end returned
for that section. -/
theorem received_own_result {M : Bool → InvokeMap W Call} {link : Link W Call}
    (reached : (linkSystem (fun side => (M side).handler) maxPacketSize).Reachable link)
    (side : Bool) {i : Nat} {answer : Answer Call} {command : UInt32} {outStruct : Section}
    {cb : Call} (sendable : Sendable outStruct)
    (asked : (link side).session.asked[i]? = some ⟨command, blobOf outStruct, cb⟩)
    (answered : (link side).session.answers[i]? = some answer)
    (returns : ∀ invoke app, (M !side).invoke command = some invoke →
      Sendable (invoke outStruct app).2.2) :
    answer.cb = cb ∧ ∃ app, received answer.returnCode answer.returnBuff =
      (M !side).outcome command outStruct app := by
  obtain ⟨transit, agree, _⟩ := consistent_of_reachable reached
  obtain ⟨own, executed, isOwn, isExecuted, request, callback, result⟩ :=
    (agree side).asks.answered answered
  rw [asked] at isOwn
  cases isOwn
  obtain ⟨app, executes⟩ := executes_of_reachable reached (!side) executed
    (List.mem_of_getElem? isExecuted)
  obtain ⟨sameCommand, sameBuff⟩ := Prod.mk.inj request
  rw [sameCommand, sameBuff, ← result] at executes
  refine ⟨callback, app, ?_⟩
  have handled := (M !side).received_handler sendable fun invoke => returns invoke app
  rw [← handled, executes]
  rfl

/-- An end that knows one command and answers with the section it gets. -/
def echoMap : InvokeMap Nat Nat where
  invoke command := if command = 5 then some fun inStruct w => ((w + 1, []), 7, inStruct) else none
  notify _ := none
  handle _ _ _ w := (w + 10, [])

theorem sendable_answer : Sendable PortableStorage.answer := ⟨answer_fits, by decide⟩

theorem echoMap_exchanges : ((((linkSystem (fun _ => echoMap.handler) fun _ => 1000).after
    (newLink fun _ => 0) (firstExchange (blobOf PortableStorage.answer)
      (blobOf PortableStorage.answer) 5 3)) false).session : Session Nat Nat) =
        ⟨10, levinProtocolVer1, [], [], [⟨5, blobOf PortableStorage.answer, 3⟩], [],
          [⟨3, 7, blobOf PortableStorage.answer⟩]⟩ := by
  have short : bucketHead2Size + (blobOf PortableStorage.answer).val.length ≤ 1000 := by
    decide +kernel
  have invokes := @InvokeMap.handler_invoke Nat Nat echoMap 5 PortableStorage.answer 0
    sendable_answer (by decide) _ rfl sendable_answer
  exact firstExchange_answers _ _ invokes rfl short short

theorem received_own_result_answer : ∃ app, received 7 (blobOf PortableStorage.answer) =
    echoMap.outcome 5 PortableStorage.answer app := by
  have met : (linkSystem (fun _ => echoMap.handler) fun _ => 1000).Reachable
    (newLink fun _ => 0) := .start ⟨fun _ => 0, rfl⟩
  have reached := met.after (firstExchange (blobOf PortableStorage.answer)
    (blobOf PortableStorage.answer) 5 3)
  refine (@received_own_result Nat Nat (fun _ => 1000) (fun _ => echoMap) _ reached false 0
    ⟨3, 7, blobOf PortableStorage.answer⟩ 5 PortableStorage.answer 3 sendable_answer ?_ ?_ ?_).2
  · rw [echoMap_exchanges]
    rfl
  · rw [echoMap_exchanges]
    rfl
  · intro invoke app known
    cases known
    exact sendable_answer

end Virie.Levin

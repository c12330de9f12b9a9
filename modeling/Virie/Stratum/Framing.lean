import Mathlib.Data.List.Basic

/-! # The framing of stratum requests

`json_helper` collects what a miner sends and cuts it after every closing brace that brings the
count of open braces to zero. Every call scans the collected bytes from their start. However the
stream is cut into packets, the same objects come out and the same bytes stay, and objects with
matching braces come out one by one. -/

namespace Virie.Stratum

/-- `json_helper`: the bytes that are not yet part of an object, and the objects that were cut off
and not yet taken. -/
structure JsonHelper where
  buffer : List UInt8
  objects : List (List UInt8)
deriving DecidableEq

def openBrace : UInt8 := 0x7b
def closeBrace : UInt8 := 0x7d

/-- The loop of `feed`. `seen` is the buffer before the index `i` and `bCount` the number of braces
that are open there; the result is what is cut off and what stays in the buffer. -/
def scan (seen : List UInt8) (bCount : Int) : List UInt8 → List (List UInt8) × List UInt8
  | [] => ([], seen)
  | c :: rest =>
    if c = openBrace then scan (seen ++ [c]) (bCount + 1) rest
    else if c = closeBrace then
      if bCount - 1 = 0 then
        let (objects, buffer) := scan [] 0 rest
        ((seen ++ [c]) :: objects, buffer)
      else scan (seen ++ [c]) (bCount - 1) rest
    else scan (seen ++ [c]) bCount rest

namespace JsonHelper

/-- A helper that was given nothing. -/
def fresh : JsonHelper := ⟨[], []⟩

/-- `feed`: append the bytes and scan the buffer. -/
def feed (h : JsonHelper) (str : List UInt8) : JsonHelper where
  buffer := (scan [] 0 (h.buffer ++ str)).2
  objects := h.objects ++ (scan [] 0 (h.buffer ++ str)).1

/-- `pop_object`: the object that was cut off first. -/
def popObject (h : JsonHelper) : Option (List UInt8 × JsonHelper) :=
  match h.objects with
  | [] => none
  | object :: rest => some (object, { h with objects := rest })

theorem popObject_length {h h' : JsonHelper} {object : List UInt8}
    (popped : h.popObject = some (object, h')) : h'.objects.length < h.objects.length := by
  obtain ⟨buffer, objects⟩ := h
  cases objects with
  | nil => cases popped
  | cons first rest =>
    cases popped
    exact Nat.lt_succ_self _

/-- The loop of `handle_recv` over `pop_object`: the objects in the order in which they are
handled. -/
def popAll (h : JsonHelper) : List (List UInt8) × JsonHelper :=
  match _popped : h.popObject with
  | none => ([], h)
  | some (object, h') =>
    let (handled, last) := popAll h'
    (object :: handled, last)
termination_by h.objects.length
decreasing_by exact popObject_length (by assumption)

/-- What `handle_recv` hands to the handlers of requests. A packet that is too large closes the
connection. -/
def handleRecv (maxPacketSize : Nat) (h : JsonHelper) (data : List UInt8) :
    Option (List (List UInt8) × JsonHelper) :=
  if data.length > maxPacketSize then none else some (h.feed data).popAll

/-- Chunks given to a helper one after the other. -/
def feedAll (h : JsonHelper) (chunks : List (List UInt8)) : JsonHelper := chunks.foldl feed h

/-- Packets of a connection one after the other: what is handled, and the helper afterwards. -/
def receive (maxPacketSize : Nat) (h : JsonHelper) :
    List (List UInt8) → Option (List (List UInt8) × JsonHelper)
  | [] => some ([], h)
  | data :: packets => do
    let (handled, h) ← h.handleRecv maxPacketSize data
    let (later, h) ← h.receive maxPacketSize packets
    pure (handled ++ later, h)

theorem popAll_eq (buffer : List UInt8) (objects : List (List UInt8)) :
    popAll ⟨buffer, objects⟩ = (objects, ⟨buffer, []⟩) := by
  induction objects with
  | nil => rw [popAll]; rfl
  | cons object rest ih => rw [popAll]; simp only [popObject, ih]

end JsonHelper

/-! ## Cuts between packets -/

/-- A scan of the buffer from its start gets to the state that the loop has at an index. -/
def Resumes (seen : List UInt8) (bCount : Int) : Prop :=
  ∀ rest, scan [] 0 (seen ++ rest) = scan seen bCount rest

theorem resumes_start : Resumes [] 0 := fun _ => rfl

theorem Resumes.extend {seen : List UInt8} {bCount next : Int} {c : UInt8}
    (resumes : Resumes seen bCount)
    (step : ∀ rest, scan seen bCount (c :: rest) = scan (seen ++ [c]) next rest) :
    Resumes (seen ++ [c]) next := by
  intro rest
  rw [List.append_assoc, List.singleton_append, resumes, step]

/-- A scan may be interrupted anywhere and started again on what stays in the buffer. -/
theorem scan_append {seen : List UInt8} {bCount : Int} (resumes : Resumes seen bCount)
    (a b : List UInt8) :
    scan seen bCount (a ++ b) =
      ((scan seen bCount a).1 ++ (scan [] 0 ((scan seen bCount a).2 ++ b)).1,
        (scan [] 0 ((scan seen bCount a).2 ++ b)).2) := by
  induction a generalizing seen bCount with
  | nil => exact (resumes b).symm
  | cons c rest ih =>
    by_cases opens : c = openBrace
    · have step : ∀ rest, scan seen bCount (c :: rest) = scan (seen ++ [c]) (bCount + 1) rest :=
        fun rest => by rw [scan, if_pos opens]
      rw [List.cons_append, step, step]
      exact ih (resumes.extend step)
    · by_cases closes : c = closeBrace
      · by_cases last : bCount - 1 = 0
        · have step : ∀ rest, scan seen bCount (c :: rest) =
              ((seen ++ [c]) :: (scan [] 0 rest).1, (scan [] 0 rest).2) :=
            fun rest => by rw [scan, if_neg opens, if_pos closes, if_pos last]
          rw [List.cons_append, step, step, ih resumes_start]
          rfl
        · have step : ∀ rest, scan seen bCount (c :: rest) =
              scan (seen ++ [c]) (bCount - 1) rest :=
            fun rest => by rw [scan, if_neg opens, if_pos closes, if_neg last]
          rw [List.cons_append, step, step]
          exact ih (resumes.extend step)
      · have step : ∀ rest, scan seen bCount (c :: rest) = scan (seen ++ [c]) bCount rest :=
          fun rest => by rw [scan, if_neg opens, if_neg closes]
        rw [List.cons_append, step, step]
        exact ih (resumes.extend step)

namespace JsonHelper

/-- Two chunks are as good as one. -/
theorem feed_append (h : JsonHelper) (a b : List UInt8) :
    (h.feed a).feed b = h.feed (a ++ b) := by
  have whole := scan_append resumes_start (h.buffer ++ a) b
  rw [List.append_assoc] at whole
  rw [feed, feed, feed, whole, List.append_assoc]

theorem feedAll_eq (h : JsonHelper) (first : List UInt8) (chunks : List (List UInt8)) :
    (h.feed first).feedAll chunks = h.feed (first ++ chunks.flatten) := by
  induction chunks generalizing first with
  | nil => rw [List.flatten_nil, List.append_nil]; rfl
  | cons chunk rest ih =>
    rw [List.flatten_cons, ← List.append_assoc, ← ih, ← feed_append]
    rfl

/-- A new helper depends on the stream alone. -/
theorem feedAll_fresh (chunks : List (List UInt8)) :
    fresh.feedAll chunks = fresh.feed chunks.flatten := feedAll_eq fresh [] chunks

/-- Objects that were not taken yet stay in front. -/
theorem feedAll_objects (buffer : List UInt8) (waiting : List (List UInt8))
    (chunks : List (List UInt8)) :
    feedAll ⟨buffer, waiting⟩ chunks =
      ⟨(feedAll ⟨buffer, []⟩ chunks).buffer, waiting ++ (feedAll ⟨buffer, []⟩ chunks).objects⟩ := by
  induction chunks generalizing buffer waiting with
  | nil => simp [feedAll]
  | cons chunk rest ih =>
    have first := ih (scan [] 0 (buffer ++ chunk)).2 (waiting ++ (scan [] 0 (buffer ++ chunk)).1)
    have alone := ih (scan [] 0 (buffer ++ chunk)).2 ([] ++ (scan [] 0 (buffer ++ chunk)).1)
    rw [feedAll, List.foldl_cons, feedAll, List.foldl_cons]
    change feedAll ⟨_, _⟩ rest =
      ⟨(feedAll ⟨_, _⟩ rest).buffer, waiting ++ (feedAll ⟨_, _⟩ rest).objects⟩
    rw [first, alone, List.nil_append, List.append_assoc]

/-- A connection whose packets have the allowed size handles the objects of the stream. -/
theorem receive_eq {maxPacketSize : Nat} (buffer : List UInt8) {packets : List (List UInt8)}
    (fits : ∀ data ∈ packets, data.length ≤ maxPacketSize) :
    receive maxPacketSize ⟨buffer, []⟩ packets =
      some ((feedAll ⟨buffer, []⟩ packets).objects, ⟨(feedAll ⟨buffer, []⟩ packets).buffer, []⟩) := by
  induction packets generalizing buffer with
  | nil => rfl
  | cons data rest ih =>
    rw [List.forall_mem_cons] at fits
    have handled : handleRecv maxPacketSize ⟨buffer, []⟩ data =
        some ((scan [] 0 (buffer ++ data)).1, ⟨(scan [] 0 (buffer ++ data)).2, []⟩) := by
      rw [handleRecv, if_neg (Nat.not_lt.2 fits.1), feed, popAll_eq]
      rfl
    have later := feedAll_objects (scan [] 0 (buffer ++ data)).2
      (scan [] 0 (buffer ++ data)).1 rest
    have next : feedAll ⟨buffer, []⟩ (data :: rest) =
        feedAll ⟨(scan [] 0 (buffer ++ data)).2, (scan [] 0 (buffer ++ data)).1⟩ rest := rfl
    rw [receive, handled, next, later]
    simp only [Option.bind_eq_bind, Option.bind_some, ih _ fits.2]
    rfl

end JsonHelper

/-! ## Objects with matching braces -/

/-- Text without braces. -/
def BraceFree (text : List UInt8) : Prop := ∀ c ∈ text, c ≠ openBrace ∧ c ≠ closeBrace

/-- Text in which every brace has its partner. -/
inductive Balanced : List UInt8 → Prop
  | nil : Balanced []
  | other {c : UInt8} {rest : List UInt8} (opens : c ≠ openBrace) (closes : c ≠ closeBrace)
      (after : Balanced rest) : Balanced (c :: rest)
  | nest {inner rest : List UInt8} (within : Balanced inner) (after : Balanced rest) :
      Balanced (openBrace :: (inner ++ closeBrace :: rest))

/-- An object: braces around a balanced text. -/
def IsObject (object : List UInt8) : Prop :=
  ∃ inner, Balanced inner ∧ object = openBrace :: (inner ++ [closeBrace])

/-- A stream of objects, each after a text, with a text after the last one. -/
def stream (segments : List (List UInt8 × List UInt8)) (last : List UInt8) : List UInt8 :=
  (segments.map fun segment => segment.1 ++ segment.2).flatten ++ last

theorem scan_braceFree {text : List UInt8} (free : BraceFree text) (seen : List UInt8)
    (bCount : Int) (rest : List UInt8) :
    scan seen bCount (text ++ rest) = scan (seen ++ text) bCount rest := by
  induction text generalizing seen with
  | nil => rw [List.nil_append, List.append_nil]
  | cons c text ih =>
    obtain ⟨here, later⟩ := List.forall_mem_cons.1 free
    rw [List.cons_append, scan, if_neg here.1, if_neg here.2, ih later, List.append_assoc,
      List.singleton_append]

/-- Inside an object a balanced text is only passed over. -/
theorem scan_balanced {text : List UInt8} (balanced : Balanced text) (seen : List UInt8)
    {bCount : Int} (inside : 0 < bCount) (rest : List UInt8) :
    scan seen bCount (text ++ rest) = scan (seen ++ text) bCount rest := by
  induction balanced generalizing seen bCount rest with
  | nil => rw [List.nil_append, List.append_nil]
  | @other c text opens closes _ ih =>
    rw [List.cons_append, scan, if_neg opens, if_neg closes, ih _ inside, List.append_assoc,
      List.singleton_append]
  | @nest inner text _ _ within after =>
    have deeper : 0 < bCount + 1 := by omega
    have stays : bCount + 1 - 1 ≠ 0 := by omega
    have apart : closeBrace ≠ openBrace := by decide
    have back : bCount + 1 - 1 = bCount := by omega
    calc scan seen bCount (openBrace :: (inner ++ closeBrace :: text) ++ rest)
        = scan (seen ++ [openBrace]) (bCount + 1) (inner ++ (closeBrace :: (text ++ rest))) := by
          rw [List.cons_append, scan, if_pos rfl, List.append_assoc, List.cons_append]
      _ = scan (seen ++ [openBrace] ++ inner) (bCount + 1) (closeBrace :: (text ++ rest)) :=
          within _ deeper _
      _ = scan (seen ++ [openBrace] ++ inner ++ [closeBrace]) bCount (text ++ rest) := by
          rw [scan, if_neg apart, if_pos rfl, if_neg stays, back]
      _ = scan (seen ++ [openBrace] ++ inner ++ [closeBrace] ++ text) bCount rest :=
          after _ inside _
      _ = _ := by simp only [List.append_assoc, List.cons_append, List.nil_append]

/-- An object is cut off together with the text before it. -/
theorem scan_object {text object : List UInt8} (free : BraceFree text) (isObject : IsObject object)
    (rest : List UInt8) :
    scan [] 0 (text ++ (object ++ rest)) =
      ((text ++ object) :: (scan [] 0 rest).1, (scan [] 0 rest).2) := by
  obtain ⟨inner, balanced, rfl⟩ := isObject
  have apart : closeBrace ≠ openBrace := by decide
  rw [scan_braceFree free, List.nil_append, List.cons_append, scan, if_pos rfl, List.append_assoc,
    scan_balanced balanced _ (by decide), List.singleton_append, scan, if_neg apart, if_pos rfl,
    if_pos (by decide)]
  simp only [List.append_assoc, List.cons_append, List.nil_append]

theorem scan_stream {segments : List (List UInt8 × List UInt8)} {last : List UInt8}
    (framed : ∀ segment ∈ segments, BraceFree segment.1 ∧ IsObject segment.2)
    (free : BraceFree last) :
    scan [] 0 (stream segments last) =
      (segments.map fun segment => segment.1 ++ segment.2, last) := by
  induction segments with
  | nil =>
    have all := scan_braceFree free [] 0 []
    rw [List.append_nil] at all
    exact all
  | cons segment rest ih =>
    obtain ⟨first, later⟩ := List.forall_mem_cons.1 framed
    have cut : stream (segment :: rest) last = segment.1 ++ (segment.2 ++ stream rest last) := by
      simp only [stream, List.map_cons, List.flatten_cons, List.append_assoc]
    rw [cut, scan_object first.1 first.2, ih later]
    rfl

/-! ## Every stream -/

/-- The objects that come out and the bytes that stay depend on the stream and not on its chunks,
whether the objects are taken between the chunks or not. From objects with matching braces that are
separated by texts without braces, each object comes out once, in order, after its text. -/
theorem framing_of_chunks {chunks chunks' : List (List UInt8)}
    (same : chunks.flatten = chunks'.flatten) :
    JsonHelper.fresh.feedAll chunks = JsonHelper.fresh.feedAll chunks' ∧
      (∀ maxPacketSize, (∀ data ∈ chunks ++ chunks', data.length ≤ maxPacketSize) →
        JsonHelper.fresh.receive maxPacketSize chunks =
            JsonHelper.fresh.receive maxPacketSize chunks' ∧
          JsonHelper.fresh.receive maxPacketSize chunks =
            some ((JsonHelper.fresh.feedAll chunks).objects,
              ⟨(JsonHelper.fresh.feedAll chunks).buffer, []⟩)) ∧
      ∀ segments last, (∀ segment ∈ segments, BraceFree segment.1 ∧ IsObject segment.2) →
        BraceFree last → chunks.flatten = stream segments last →
        JsonHelper.fresh.feedAll chunks =
          ⟨last, segments.map fun segment => segment.1 ++ segment.2⟩ := by
  have agree : JsonHelper.fresh.feedAll chunks = JsonHelper.fresh.feedAll chunks' := by
    rw [JsonHelper.feedAll_fresh, JsonHelper.feedAll_fresh, same]
  refine ⟨agree, fun maxPacketSize fits => ?_, fun segments last framed free cut => ?_⟩
  · rw [List.forall_mem_append] at fits
    have first := JsonHelper.receive_eq [] fits.1
    have second := JsonHelper.receive_eq [] fits.2
    refine ⟨first.trans (Eq.trans ?_ second.symm), first⟩
    exact congrArg (fun h => some (h.objects, JsonHelper.mk h.buffer [])) agree
  · rw [JsonHelper.feedAll_fresh, cut, JsonHelper.feed, JsonHelper.fresh, List.nil_append,
      scan_stream framed free, List.nil_append]

/-- An object in an object, in two packets and byte by byte. -/
theorem framing_nested :
    JsonHelper.fresh.feedAll [[0x20, 0x7b, 0x7b], [0x7d, 0x7d, 0x0a]] =
        JsonHelper.fresh.feedAll [[0x20], [0x7b], [0x7b], [0x7d], [0x7d], [0x0a]] ∧
      (JsonHelper.fresh.feedAll [[0x20, 0x7b, 0x7b], [0x7d, 0x7d, 0x0a]]) =
        ⟨[0x0a], [[0x20, 0x7b, 0x7b, 0x7d, 0x7d]]⟩ := by
  have framing := @framing_of_chunks [[0x20, 0x7b, 0x7b], [0x7d, 0x7d, 0x0a]]
    [[0x20], [0x7b], [0x7b], [0x7d], [0x7d], [0x0a]] rfl
  have blank : BraceFree [0x20] := by simp [BraceFree, openBrace, closeBrace]
  have newline : BraceFree [0x0a] := by simp [BraceFree, openBrace, closeBrace]
  have object : IsObject [0x7b, 0x7b, 0x7d, 0x7d] :=
    ⟨[0x7b, 0x7d], .nest .nil .nil, rfl⟩
  refine ⟨framing.1, framing.2.2 [([0x20], [0x7b, 0x7b, 0x7d, 0x7d])] [0x0a] ?_ newline rfl⟩
  exact List.forall_mem_cons.2 ⟨⟨blank, object⟩, List.forall_mem_nil _⟩

end Virie.Stratum

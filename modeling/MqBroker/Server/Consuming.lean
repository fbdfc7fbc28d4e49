import MqBroker.Server.Answers

/-!
# Consuming What Was Produced

Whether a message that is in a log can be fetched from there.

A fetch at the offset of a message passes three limits on the way to its
answer. The log gives out a first message of any size up to the limit of the
fetch. The answer takes it if its record fits into a frame, with 4 bytes for
the number of messages and 4 bytes more that are subtracted once again. A
produce request has less around its message than that: the frame of a request
is full with 10 bytes beside key and value, an answer with 30. What is between
the two limits is stored and acknowledged, and every fetch that comes to it is
answered with nothing.

## Main definitions

* `Partition.Finds`: A message is the first of its log from its offset on.
* `Server.FetchesAt`: A fetch at the offset of a message.
* `Response.StartsWith`: It is answered with that message in front.
* `Broker.Consumable`: When it is.

## Theorems

* `Partition.Regular.finds`: In a log that has not run over, a message is found
  at its offset.
* `handleFetch_answers_iff`: What the handler does.
* `retained_consumable_iff`: Which messages of a log can be consumed.
-/

namespace MqBroker

open Traced

/-- A message is the first of its log from its offset on, and the offset is not
    behind the end. -/
structure Partition.Finds (p : Partition) (m : Message) : Prop where
  inside : m.offset ≤ p.nextOffset
  first : p.messages.find? (fun x => m.offset ≤ x.offset) = some m

/-- In a log that has not run over, every message is found at its offset. -/
theorem Partition.Regular.finds {p : Partition} (h : p.Regular) (hwrap : p.Unwrapped) {m : Message}
    (hm : m ∈ p.messages) : p.Finds m := by
  rcases h.split hwrap hm with ⟨front, back, hsplit, hfront⟩
  refine ⟨(hwrap m hm).le, ?_⟩
  rw [hsplit, List.find?_append, List.find?_eq_none.mpr, Option.none_or,
    List.find?_cons_of_pos (by rw [decide_eq_true_eq])]
  intro x hx
  rw [decide_eq_true_eq]
  exact not_le.mpr (hfront x hx)

/-- A fetch gets to its handler, for a partition that it names, at the offset of
    a message, and takes as much as fits into a frame. -/
structure Server.FetchesAt (s : Server) (request : Request) (topic : Bytes) (partition : UInt32)
    (m : Message) : Prop where
  command : request.command = .fetch
  named : partition ≠ autoPartition
  call : ∃ normalized call, s.Admits request normalized ∧ normalized.topic = topic ∧
    (readFetch normalized.payload).result = .ok call ∧ call.partition = partition ∧
    s.fetchStart call topic partition = m.offset ∧
    call.maxBytes = UInt32.ofNat maxPayloadBytes

/-- An answer is `kOk`, and a message is the first of those it holds. -/
def Response.StartsWith (r : Response) (m : Message) : Prop :=
  r.status = .ok ∧ ∃ rest, parseFetched r.payload = some (m :: rest)

/-- What it takes for a message to be consumed: its partition is still there
    and can be opened, the message is found at its offset, and it is not too
    large. -/
structure Broker.Consumable (b : Broker) (partitionOk : Bool) (topic : Bytes) (partition : UInt32)
    (m : Message) : Prop where
  there : ∃ count, b.topics.lookup topic = some count ∧ partition < count
  opened : partitionOk = true
  found : (b.storage.partition topic partition).Finds m
  small : m.key.length + m.value.length ≤ maxPayloadBytes - 30

/-- The answer to a fetch starts with the first message of the log from the
    start on, if that is not too large. -/
theorem fetchAnswer_head {p : Partition} (h : p.Regular) (start : UInt64) {m : Message}
    {messages : List Message} (hread : p.read start maxPayloadBytes = some messages) :
    (∃ rest, parseFetched (fetchAnswer messages) = some (m :: rest)) ↔
      p.messages.find? (fun x => start ≤ x.offset) = some m ∧
        m.key.length + m.value.length ≤ maxPayloadBytes - 30 := by
  have hloop : messages = readLoop start maxPayloadBytes p.messages [] 0 := by
    rw [Partition.read] at hread
    split at hread
    · cases hread
    · exact (Option.some.inj hread).symm
  have hframed : ∀ x ∈ messages, x.Framed := by
    intro x hx
    rw [hloop] at hx
    exact h.framed x (readLoop_mem hx)
  have hhead := fetchTaken_head messages
  rw [hloop, readLoop_head, ← hloop, Option.filter_filter] at hhead
  rw [parseFetched_framed messages hframed]
  constructor
  · rintro ⟨rest, heq⟩
    rw [Option.some.inj heq, List.head?_cons] at hhead
    rcases Option.filter_eq_some_iff.mp hhead.symm with ⟨hfind, hboth⟩
    rw [Bool.and_eq_true, decide_eq_true_eq, decide_eq_true_eq] at hboth
    exact ⟨hfind, hboth.2⟩
  · rintro ⟨hfind, hsmall⟩
    rw [hfind, Option.filter_some, if_pos (by
      rw [Bool.and_eq_true, decide_eq_true_eq, decide_eq_true_eq]
      exact ⟨by omega, hsmall⟩)] at hhead
    rcases List.head?_eq_some_iff.mp hhead with ⟨rest, hrest⟩
    exact ⟨rest, by rw [hrest]⟩

/-- What the handler answers to a fetch for a partition that is named. -/
theorem handleFetch_startsWith_iff {s : Server} (h : s.broker.Sound) (partitionOk : Bool)
    {request : Request} {call : FetchCall} {m : Message}
    (hread : (readFetch request.payload).result = .ok call) (hnamed : call.partition ≠ autoPartition)
    (hstart : s.fetchStart call request.topic call.partition = m.offset)
    (hmax : call.maxBytes = UInt32.ofNat maxPayloadBytes) :
    (s.handleFetch partitionOk request).StartsWith m ↔
      s.broker.Consumable partitionOk request.topic call.partition m := by
  have hno : ∀ status : Status, status ≠ .ok →
      ¬ (makeResponse request status).StartsWith m := fun status hstatus hyes => hstatus hyes.1
  have hbytes : call.maxBytes.toNat = maxPayloadBytes ∧ call.maxBytes ≠ 0 := by
    rw [hmax]
    decide
  simp only [Server.handleFetch, hread]
  cases htopic : s.broker.topics.lookup request.topic with
  | none =>
      have hresolve : s.broker.resolvePartition request.topic call.partition []
          = .error .unknownTopic := by
        rw [Broker.resolvePartition, htopic]
      rw [hresolve]
      refine iff_of_false (hno _ (by decide)) fun hyes => ?_
      rcases hyes.there with ⟨count, hcount, _⟩
      rw [htopic] at hcount
      cases hcount
  | some count =>
      by_cases hlt : call.partition < count
      · rw [resolvePartition_of_lt htopic hlt]
        have hvalid := (h.topics request.topic count htopic).1
        cases hopened : partitionOk with
        | false =>
            have hunavailable : s.broker.storage.read false request.topic call.partition
                (s.fetchStart call request.topic call.partition) call.maxBytes
                = .error .partitionUnavailable := by
              rw [StorageEngine.read, if_neg (not_or.mpr ⟨not_not.mpr hvalid, hbytes.2⟩)]
              exact if_pos Bool.false_ne_true
            simp only [hunavailable]
            exact iff_of_false (hno _ (by decide)) fun hyes =>
              Bool.false_ne_true hyes.opened
        | true =>
            simp only [StorageEngine.read, hstart, hbytes.1]
            rw [if_neg (not_or.mpr ⟨not_not.mpr hvalid, hbytes.2⟩), if_neg (not_not.mpr trivial)]
            cases hlog : (s.broker.storage.partition request.topic call.partition).read m.offset
              maxPayloadBytes with
            | none =>
                refine iff_of_false (hno _ (by decide)) fun hyes => ?_
                rw [Partition.read, if_neg (not_lt.mpr hyes.found.inside)] at hlog
                cases hlog
            | some messages =>
                have hinside : m.offset
                    ≤ (s.broker.storage.partition request.topic call.partition).nextOffset := by
                  rw [Partition.read] at hlog
                  split at hlog
                  · cases hlog
                  · rename_i hle
                    exact not_lt.mp hle
                have hhead := fetchAnswer_head (h.logs request.topic call.partition) m.offset
                  (m := m) hlog
                constructor
                · rintro ⟨_, hfirst⟩
                  rcases hhead.mp hfirst with ⟨hfind, hsmall⟩
                  exact ⟨⟨count, htopic, hlt⟩, rfl, ⟨hinside, hfind⟩, hsmall⟩
                · intro hyes
                  exact ⟨rfl, hhead.mpr ⟨hyes.found.first, hyes.small⟩⟩
      · have hresolve : s.broker.resolvePartition request.topic call.partition []
            = .error .outOfRange := by
          rw [Broker.resolvePartition, htopic]
          simp only
          rw [if_neg hnamed, if_pos (UInt32.not_lt.mp hlt)]
        rw [hresolve]
        refine iff_of_false (hno _ (by decide)) fun hyes => ?_
        rcases hyes.there with ⟨count', hcount, hlt'⟩
        rw [htopic] at hcount
        cases hcount
        exact hlt hlt'

/-- What a broker answers to a fetch at the offset of a message. -/
theorem handle_startsWith_iff {s : Server} (hsound : s.Sound) (env : ServerEnv) {request : Request}
    {topic : Bytes} {partition : UInt32} {m : Message}
    (hfetch : s.FetchesAt request topic partition m) :
    (s.handle env request).2.StartsWith m ↔
      s.broker.Consumable env.partitionOk topic partition m := by
  rcases hfetch.call with ⟨normalized, call, hadmits, rfl, hread, rfl, hstart, hmax⟩
  have hcommand := (acceptRequest_command hadmits.accepted).trans hfetch.command
  have hsame : s.counted .fetch
      = { s with requestCount := s.requestCount + 1, fetchCount := s.fetchCount + 1 } := rfl
  rw [hadmits.handle_eq, hfetch.command, hsame]
  simp only [Server.dispatch, hcommand]
  exact handleFetch_startsWith_iff (s := { s with
    requestCount := s.requestCount + 1
    fetchCount := s.fetchCount + 1 }) hsound.broker env.partitionOk hread hfetch.named hstart hmax

/-- Whatever has happened to a broker, a fetch at the offset of a message with
    as much room as a frame has is answered with that message in front exactly
    when the message can be consumed. That a message that is retained is found
    at its offset can only fail once offsets have run over. -/
theorem retained_consumable_iff (config : ServerConfig) (events : List ServerEvent)
    (env : ServerEnv) (request : Request) (topic : Bytes) (partition : UInt32) (m : Message)
    (hfetch : ((Server.fresh config).run events).FetchesAt request topic partition m) :
    ((((Server.fresh config).run events).handle env request).2.StartsWith m ↔
      ((Server.fresh config).run events).broker.Consumable env.partitionOk topic partition m) ∧
    (m ∈ (((Server.fresh config).run events).broker.storage.partition topic partition).messages →
      (((Server.fresh config).run events).broker.storage.partition topic partition).Unwrapped →
      (((Server.fresh config).run events).broker.storage.partition topic partition).Finds m) :=
  ⟨handle_startsWith_iff (run_sound config events) env hfetch,
    fun hm hwrap => ((run_sound config events).broker.logs topic partition).finds hwrap hm⟩

/-! ## A message that is not consumed -/

/-- A client produces a value without a key into partition 0. -/
def plainProduce (topic value : Bytes) : Request where
  command := .produce
  topic := topic
  payload := put32 0 ++ (put16 (UInt16.ofNat ([] : Bytes).length) ++ ([] ++
    (put32 (UInt32.ofNat value.length) ++ value)))

/-- A client fetches from the start of partition 0. -/
def plainFetch (topic : Bytes) : Request where
  command := .fetch
  topic := topic
  payload := put32 0 ++ (put64 0 ++ put32 (UInt32.ofNat maxPayloadBytes))

/-- A broker that takes writes stores a value at the end of its log. -/
theorem handle_plainProduce {s : Server} (hs : s.Sound) (hopened : s.opened = true)
    (htoken : s.clientAuthToken = []) {topic : Bytes}
    (htopic : s.broker.topics.lookup topic = some maxPartitions)
    (hserving : s.broker.coordinator.role = .leader ∧
      s.broker.coordinator.canServeWrites 0 = true)
    (hquota : s.broker.topicProduceQuota = 0)
    {value : Bytes} (hne : value ≠ []) (hsize : value.length ≤ maxMessageBytes) :
    (s.handle {} (plainProduce topic value)).2.status = .ok ∧
      ((s.handle {} (plainProduce topic value)).1.broker.storage.partition topic 0).messages
        = (s.broker.storage.partition topic 0).messages
          ++ [(s.broker.storage.partition topic 0).nextMessage 0 [] value] ∧
      (s.handle {} (plainProduce topic value)).1.consumerOffsets = s.consumerOffsets ∧
      (s.handle {} (plainProduce topic value)).1.opened = true ∧
      (s.handle {} (plainProduce topic value)).1.clientAuthToken = [] := by
  have hadmits : s.Admits (plainProduce topic value) (plainProduce topic value) :=
    admits_plain hopened htoken rfl (show Command.produce ∉ _ by decide)
      (show (0 : UInt16) ∈ clientFlags by decide)
  have hwrites : s.broker.refusesWrites (plainProduce topic value) 0 = false := by
    simp only [Broker.refusesWrites, hserving.1, hserving.2, bne_self_eq_false, Bool.not_true,
      Bool.or_self, Bool.and_false]
  have hplain : (plainProduce topic value).hasFlag flagProducerMetadata = false := by
    rw [Request.hasFlag, show (plainProduce topic value).flags = 0 from rfl]
    decide
  have hwaits : (plainProduce topic value).waitsForAll = false := by
    rw [Request.waitsForAll, show (plainProduce topic value).flags = 0 from rfl]
    decide
  have hparse : parseProduce (plainProduce topic value).payload 0 = some ⟨0, [], value⟩ := by
    refine parseProduce_encoded 0 [] value (Nat.two_pow_pos 16) ?_
    rw [maxMessageBytes] at hsize
    omega
  have hverdict := @admitProduce_plain s.broker {} (plainProduce topic value) true true 0
    ⟨0, [], value⟩ hwrites rfl hplain hquota hparse
    (resolvePartition_of_lt htopic (show 0 < maxPartitions by decide) [])
  rcases store_append_ok s.broker.storage 0 topic (hs.broker.topics _ _ htopic).1
    (show ((s.broker.storage.partition topic 0).nextMessage 0 [] value).Storable from
      ⟨Nat.zero_le _, hne, hsize⟩) (hs.broker.logs topic 0).opened with ⟨hstored, hresult⟩
  have hsettled : (s.broker.handleProduce {} (plainProduce topic value)).response.status = .ok ∧
      (s.broker.handleProduce {} (plainProduce topic value)).broker.storage
        = (s.broker.storage.append {} 0 topic 0 [] value).1 := by
    simp only [Broker.handleProduce, hverdict, Broker.settleProduce,
      show (plainProduce topic value).topic = topic from rfl, hresult, Broker.acknowledge, hwaits,
      Bool.false_eq_true, if_false, if_true, Broker.remember, hplain]
    exact ⟨rfl, trivial⟩
  have hhandle : s.handle {} (plainProduce topic value)
      = (Server.countError { s with
          requestCount := s.requestCount + 1
          produceCount := s.produceCount + 1
          broker := (s.broker.handleProduce {} (plainProduce topic value)).broker } .ok,
        (s.broker.handleProduce {} (plainProduce topic value)).response) := by
    rw [← hsettled.1]
    exact hadmits.handle_eq {}
  rw [hhandle]
  refine ⟨hsettled.1, ?_, rfl, hopened, htoken⟩
  rw [← hstored.messages, ← hsettled.2]
  rfl

/-- A client fetches from the start of partition 0. -/
theorem plainFetch_fetchesAt {s : Server} (hopened : s.opened = true)
    (htoken : s.clientAuthToken = []) (topic : Bytes) {m : Message} (hm : m.offset = 0) :
    s.FetchesAt (plainFetch topic) topic 0 m :=
  ⟨rfl, by decide, plainFetch topic, { partition := 0, offset := 0, maxBytes := 1048576 },
    admits_plain hopened htoken rfl (show Command.fetch ∉ _ by decide)
      (show (0 : UInt16) ∈ clientFlags by decide),
    rfl, by
      have hread : (readFetch (put32 0 ++ (put64 0 ++ put32 (UInt32.ofNat maxPayloadBytes)))).result
          = .ok { partition := 0, offset := 0, maxBytes := 1048576 } := by
        decide
      exact hread,
    rfl, hm.symm, rfl⟩

/-- A client creates a topic and produces a value into it. -/
def produceRun (value : Bytes) : List ServerEvent :=
  [createLarge [112]] ++ [.request {} (plainProduce [112] value).raw]

/-- A value of one byte, fetched from where it was stored. -/
theorem retained_consumable_iff_small :
    ((((Server.fresh {}).run (produceRun [120])).handle {} (plainFetch [112])).2.StartsWith
        ⟨0, 0, [], [120]⟩ ↔
      ((Server.fresh {}).run (produceRun [120])).broker.Consumable true [112] 0
        ⟨0, 0, [], [120]⟩) ∧
    (⟨0, 0, [], [120]⟩ ∈
        (((Server.fresh {}).run (produceRun [120])).broker.storage.partition [112] 0).messages →
      (((Server.fresh {}).run (produceRun [120])).broker.storage.partition [112] 0).Unwrapped →
      (((Server.fresh {}).run (produceRun [120])).broker.storage.partition [112] 0).Finds
        ⟨0, 0, [], [120]⟩) :=
  retained_consumable_iff {} (produceRun [120]) {} (plainFetch [112]) [112] 0 ⟨0, 0, [], [120]⟩
    (plainFetch_fetchesAt (by decide +kernel) (by decide +kernel) [112] rfl)

/-- The value is stored at the start of the log. -/
theorem produceRun_stored {value : Bytes} (hne : value ≠ [])
    (hsize : value.length ≤ maxMessageBytes) :
    (((Server.fresh {}).run [createLarge [112]]).handle {}
        (plainProduce [112] value)).2.status = .ok ∧
      (((Server.fresh {}).run (produceRun value)).broker.storage.partition [112] 0).messages
        = [⟨0, 0, [], value⟩] ∧
      ((Server.fresh {}).run (produceRun value)).opened = true ∧
      ((Server.fresh {}).run (produceRun value)).clientAuthToken = [] := by
  have hvalid : ValidTopic [112] maxPartitions := by
    refine ⟨?_, ?_, ?_⟩ <;> decide
  rcases exec_createLarge (Server.Sound.fresh {}) rfl rfl hvalid rfl (by decide) with
    ⟨hopened, htoken, hbroker, _, _⟩
  have hsound : ((createLarge [112]).exec (Server.fresh {})).Sound :=
    (Server.Sound.fresh {}).exec (createLarge [112])
  rw [produceRun, run_append,
    show (Server.fresh {}).run [createLarge [112]] = (createLarge [112]).exec (Server.fresh {})
      from rfl]
  generalize (createLarge [112]).exec (Server.fresh {}) = s at *
  have htopic : s.broker.topics.lookup [112] = some maxPartitions := by
    rw [hbroker, AList.lookup_insert]
  have hserving : s.broker.coordinator.role = .leader ∧
      s.broker.coordinator.canServeWrites 0 = true := by
    rw [hbroker]
    decide
  have hlog : (s.broker.storage.partition [112] 0).messages = [] ∧
      (s.broker.storage.partition [112] 0).nextOffset = 0 := by
    rw [hbroker]
    decide
  rcases handle_plainProduce hsound hopened htoken htopic hserving (by rw [hbroker]; rfl) hne
    hsize with ⟨hstatus, hmessages, _, hopened', htoken'⟩
  rw [show s.run [.request {} (plainProduce [112] value).raw]
    = (s.handle {} (plainProduce [112] value)).1 from rfl]
  rw [hlog.1, List.nil_append, Partition.nextMessage, hlog.2] at hmessages
  exact ⟨hstatus, hmessages, hopened', htoken'⟩

/-- A value of 1048547 bytes comes in a frame and is stored, and a fetch at its
    offset is not answered with it. -/
theorem large_not_fetched (value : Bytes) (hne : value ≠ []) (hsize : value.length = 1048547) :
    (∃ frame, decodeRequest frame = .ok (plainProduce [112] value).raw) ∧
      (((Server.fresh {}).run [createLarge [112]]).handle {}
        (plainProduce [112] value)).2.status = .ok ∧
      ⟨0, 0, [], value⟩
        ∈ (((Server.fresh {}).run (produceRun value)).broker.storage.partition [112] 0).messages ∧
      ((Server.fresh {}).run (produceRun value)).FetchesAt (plainFetch [112]) [112] 0
        ⟨0, 0, [], value⟩ ∧
      ¬ (((Server.fresh {}).run (produceRun value)).handle {} (plainFetch [112])).2.StartsWith
        ⟨0, 0, [], value⟩ := by
  rcases produceRun_stored hne (by rw [hsize]; decide) with ⟨hstatus, hmessages, hopened, htoken⟩
  have hlater := run_sound {} (produceRun value)
  generalize (Server.fresh {}).run (produceRun value) = s at *
  have hfetch : s.FetchesAt (plainFetch [112]) [112] 0 ⟨0, 0, [], value⟩ :=
    plainFetch_fetchesAt hopened htoken [112] rfl
  refine ⟨?_, hstatus, ?_, hfetch, fun hstarts => ?_⟩
  · rcases request_frame (plainProduce [112] value) rfl (show 1 ≤ 65535 by decide) (by
      rw [plainProduce]
      simp only [List.length_append, length_put32, length_put16, List.length_nil, hsize]
      decide) with ⟨frame, _, hdecode, _⟩
    exact ⟨frame, hdecode⟩
  · rw [hmessages]
    exact List.mem_singleton_self _
  · have hsmall := ((handle_startsWith_iff hlater {} hfetch).mp hstarts).small
    simp only [List.length_nil, hsize] at hsmall
    exact absurd hsmall (by decide)

/-- A value that is too large for an answer, and not for a request. -/
theorem large_not_consumed :
    ∃ value, value = List.replicate 1048547 120 ∧
      (∃ frame, decodeRequest frame = .ok (plainProduce [112] value).raw) ∧
      (((Server.fresh {}).run [createLarge [112]]).handle {}
        (plainProduce [112] value)).2.status = .ok ∧
      ⟨0, 0, [], value⟩
        ∈ (((Server.fresh {}).run (produceRun value)).broker.storage.partition [112] 0).messages ∧
      ((Server.fresh {}).run (produceRun value)).FetchesAt (plainFetch [112]) [112] 0
        ⟨0, 0, [], value⟩ ∧
      ¬ (((Server.fresh {}).run (produceRun value)).handle {} (plainFetch [112])).2.StartsWith
        ⟨0, 0, [], value⟩ := by
  refine ⟨_, rfl, large_not_fetched _ ?_ List.length_replicate⟩
  rw [← List.length_pos_iff_ne_nil, List.length_replicate]
  decide

end MqBroker

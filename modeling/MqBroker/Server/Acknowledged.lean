import MqBroker.Broker.Batch
import MqBroker.Server.Answers
import MqBroker.Server.Growth
import MqBroker.Server.Isolation

/-!
# Acknowledged Messages

A producer that got no answer sends its message again, and may be answered from the
cache. Then no log is looked at, so the answer is only as good as the cache: what it
says must still be in the log.

It is, as long as nothing but a deletion takes messages from a log. Messages come and
go with their answers: a message is answered and cached in the step that stores it, a
topic takes the answers with it when it is deleted, and a broker that is restarted has
an empty cache.

A producer is trusted to use a sequence number for one message only. What it uses them
for is a function from keys to contents, and the requests of a run have to agree with
it. A cached answer is then about the message that is asked for, whoever has sent it.

## Main definitions

* `Request.carried`: The messages of a request, with what they are known by.
* `StoredMessage.Kept`: A message is in its log, as its producer has sent it.
* `Broker.Remembers`: What is in the cache was stored.
* `ServerEvent.Spares`: An event that takes nothing from the logs of a topic.

## Theorems

* `Broker.Remembers.handleProduce`, `Broker.Remembers.handleProduceBatch`: Producing.
* `Broker.Remembers.handleDeleteTopic`: Deleting.
* `run_remembers`: What is in the cache was stored, at all times.
* `acknowledged_kept`: What was acknowledged is in the log.
-/

namespace MqBroker

open Traced

/-! ## What requests carry -/

/-- The items of a batch from `position` on, as far as they can be read. -/
def carriedItems (topic : Bytes) (producerId : UInt64) (payload : Bytes) :
    Nat → UInt64 → Nat → List (ProducerKey × Bytes × Bytes)
  | 0, _, _ => []
  | count + 1, sequence, position =>
      match parseItem payload position with
      | none => []
      | some (key, value, next) =>
          (⟨topic, producerId, sequence⟩, key, value)
            :: carriedItems topic producerId payload count (sequence + 1) next

/-- The messages with metadata that a request carries, with what they are known by. -/
def Request.carried (r : Request) : List (ProducerKey × Bytes × Bytes) :=
  if ¬ r.hasFlag flagProducerMetadata then []
  else
    match r.command with
    | .produce =>
        (parseProduce r.payload 16).toList.map fun body => (r.producerKey, body.key, body.value)
    | .produceBatch =>
        match batchHeader r.payload with
        | none => []
        | some (producerId, first, count) =>
            carriedItems r.topic producerId r.payload count first 20
    | _ => []

/-- A request uses no key for another message than it is for. -/
def Request.Agrees (content : ProducerKey → Bytes × Bytes) (r : Request) : Prop :=
  ∀ x ∈ r.carried, content x.1 = x.2

/-- The places that a good answer to a request names. -/
def Request.answers (r : Request) (payload : Bytes) : List Answer :=
  match r.command with
  | .produce => [⟨r.producerKey, get32 payload 0, get64 payload 4⟩]
  | .produceBatch =>
      match batchHeader r.payload with
      | none => []
      | some (producerId, first, count) => batchAnswers r.topic producerId payload count 4 first
  | _ => []

/-! ## What is remembered -/

/-- A message is in its log, and it is what its producer has sent. -/
structure StoredMessage.Kept (content : ProducerKey → Bytes × Bytes) (e : StorageEngine)
    (x : StoredMessage) : Prop where
  valid : isValidTopicName x.key.topic = true
  content : (x.message.key, x.message.value) = content x.key
  mem : x.message ∈ (e.partition x.key.topic x.partition).messages

/-- Every cached answer names the place of one of these messages, and they are all in
    their logs. -/
structure Broker.Remembers (content : ProducerKey → Bytes × Bytes) (b : Broker)
    (stored : List StoredMessage) : Prop where
  kept : ∀ x ∈ stored, x.Kept content b.storage
  cached : ∀ key entry, b.idempotencyCache.lookup key = some entry →
    ∃ k : ProducerKey, k.cacheKey = key ∧ Names stored k entry.response.payload

variable {content : ProducerKey → Bytes × Bytes} {stored : List StoredMessage}

theorem StoredMessage.Kept.mono {e e' : StorageEngine} {x : StoredMessage} (h : x.Kept content e)
    (hlog : (e.partition x.key.topic x.partition).messages
      <+: (e'.partition x.key.topic x.partition).messages) : x.Kept content e' :=
  ⟨h.valid, h.content, hlog.subset h.mem⟩

/-- An append that succeeds is to a topic with a valid name, and its message is there. -/
theorem append_ok {e : StorageEngine} {io : StoreIo} {now : Int64} {topic : Bytes}
    {number : UInt32} {key value : Bytes} {m : Message}
    (h : (e.append io now topic number key value).2 = .ok m) :
    isValidTopicName topic = true ∧ m.key = key ∧ m.value = value ∧
      m ∈ ((e.append io now topic number key value).1.partition topic number).messages := by
  have hvalid : isValidTopicName topic = true := by
    by_contra hname
    unfold StorageEngine.append at h
    simp only [if_pos (Or.inl hname)] at h
    cases h
  rcases store_append_cases e io now topic number key value with
    ⟨hstored, hresult⟩ | ⟨_, err, hresult⟩
  · rw [hresult] at h
    split at h
    · cases h
      refine ⟨hvalid, rfl, rfl, ?_⟩
      rw [hstored.messages]
      exact List.mem_append_right _ List.mem_cons_self
    · cases h
  · rw [hresult] at h
    cases h

namespace Broker.Remembers

variable {b b' : Broker}

/-- Logs have grown, and there is nothing new in the cache. -/
theorem mono (h : b.Remembers content stored)
    (hlogs : ∀ t n, (b.storage.partition t n).messages <+: (b'.storage.partition t n).messages)
    (hcache : ∀ key entry, b'.idempotencyCache.lookup key = some entry →
      b.idempotencyCache.lookup key = some entry) : b'.Remembers content stored :=
  ⟨fun x hx => (h.kept x hx).mono (hlogs _ _), fun key entry hentry =>
    h.cached key entry (hcache key entry hentry)⟩

theorem same (h : b.Remembers content stored) (hstorage : b'.storage = b.storage)
    (hcache : b'.idempotencyCache = b.idempotencyCache) : b'.Remembers content stored :=
  h.mono (fun _ _ => hstorage ▸ List.prefix_rfl) fun _ _ hentry => hcache ▸ hentry

theorem evictExpired (h : b.Remembers content stored) (now : Int) :
    (b.evictExpired now).Remembers content stored := by
  refine h.mono (fun _ _ => List.prefix_rfl) fun key entry hentry => ?_
  rw [Broker.evictExpired, Table.lookup_filterValues] at hentry
  exact (Option.filter_eq_some_iff.mp hentry).1

theorem quota (h : b.Remembers content stored) (hquota : b.SameButQuota b') :
    b'.Remembers content stored := by
  rcases hquota with ⟨windows, rfl⟩
  exact h.same rfl rfl

/-- A cached answer is about the message that is asked for. -/
theorem names (h : b.Remembers content stored) {k : ProducerKey} {entry : IdempotencyEntry}
    (hentry : b.idempotencyCache.lookup k.cacheKey = some entry) :
    Names stored k entry.response.payload := by
  rcases h.cached _ entry hentry with ⟨k', hk', hnames⟩
  rwa [ProducerKey.cacheKey_injective _ _ hk'] at hnames

end Broker.Remembers

/-! ## One message -/

/-- An admitted message is not answered, or it is in its log and the answer is its
    place. -/
theorem settleProduce_kept (b : Broker) (env : ProduceEnv) (request : Request)
    (partition : UInt32) (body : ProduceBody) :
    ((b.settleProduce env request partition body).response.status ≠ .ok ∧
      (b.settleProduce env request partition body).broker.idempotencyCache
        = b.idempotencyCache) ∨
    ∃ m : Message, isValidTopicName request.topic = true ∧ m.key = body.key ∧ m.value = body.value ∧
      m ∈ ((b.settleProduce env request partition body).broker.storage.partition request.topic
        partition).messages ∧
      (b.settleProduce env request partition body).response = produced request partition m ∧
      (b.settleProduce env request partition body).broker.idempotencyCache
        = (b.remember env request (produced request partition m)).idempotencyCache := by
  rw [(settleProduce_storage b env request partition body).1]
  cases happend : (b.storage.append env.io env.timestampMs request.topic partition body.key
      body.value).2 with
  | error err =>
      refine Or.inl ?_
      simp only [Broker.settleProduce, happend]
      exact ⟨error_status (by decide), trivial⟩
  | ok m =>
      rcases append_ok happend with ⟨hvalid, hkey, hvalue, hmem⟩
      simp only [Broker.settleProduce, happend]
      split
      · refine Or.inr ⟨m, hvalid, hkey, hvalue, hmem, rfl, ?_⟩
        rw [acknowledge_frame]
        unfold Broker.remember
        split <;> rfl
      · refine Or.inl ⟨error_status (by decide), ?_⟩
        rw [acknowledge_frame]

namespace Broker.Remembers

variable {b : Broker}

/-- One message keeps what is remembered, and a good answer names it. -/
theorem handleProduce (h : b.Remembers content stored) (env : ProduceEnv) {r : Request}
    (rate quota : Bool) (hmeta : r.hasFlag flagProducerMetadata = true)
    (hagrees : ∀ body, parseProduce r.payload 16 = some body →
      content r.producerKey = (body.key, body.value)) :
    ∃ new, (b.handleProduce env r rate quota).broker.Remembers content (stored ++ new) ∧
      ((b.handleProduce env r rate quota).response.status = .ok →
        Names (stored ++ new) r.producerKey (b.handleProduce env r rate quota).response.payload) := by
  rcases admitProduce_cases b env r rate quota hmeta with
    ⟨hb, reply, hreply, hstatus⟩ | ⟨entry, hentry, hadmits⟩ | ⟨hmiss, hquota, hrest⟩
  · have hadmits : b.admitProduce env r rate quota = (b, .error reply) := Prod.ext hb hreply
    refine ⟨[], ?_⟩
    simp only [Broker.handleProduce, hadmits, List.append_nil]
    exact ⟨h, fun hok => absurd hok hstatus⟩
  · refine ⟨[], ?_⟩
    simp only [Broker.handleProduce, hadmits, List.append_nil]
    exact ⟨h.evictExpired _, fun _ => (h.evictExpired env.cacheNow).names hentry⟩
  · have hrouted := (h.evictExpired env.cacheNow).quota hquota
    cases hverdict : b.admitProduce env r rate quota with
    | mk d outcome =>
        rw [hverdict] at hrouted hrest
        rcases hrest with ⟨reply, hreply, hstatus⟩ | ⟨partition, body, hok⟩
        · simp only at hreply
          refine ⟨[], ?_⟩
          simp only [Broker.handleProduce, hverdict, hreply, List.append_nil]
          exact ⟨hrouted, fun hok => absurd hok hstatus⟩
        · simp only at hok hrouted
          rw [hok] at hverdict
          have hparsed := (admitProduce_routes hverdict).parsed
          rw [if_pos hmeta] at hparsed
          have hbody := hagrees body hparsed
          have hgrows : ∀ t n, (d.storage.partition t n).messages <+:
              ((d.settleProduce env r partition body).broker.storage.partition t n).messages := by
            intro t n
            rw [(settleProduce_storage d env r partition body).1]
            exact (append_grows _ _ _ _ _ _ _ t n).1
          simp only [Broker.handleProduce, hverdict]
          rcases settleProduce_kept d env r partition body with
            ⟨hstatus, hcache⟩ | ⟨m, hvalid, hkey, hvalue, hmem, hresponse, hcache⟩
          · refine ⟨[], ?_⟩
            rw [List.append_nil]
            exact ⟨hrouted.mono hgrows fun key entry hentry => hcache ▸ hentry,
              fun hok => absurd hok hstatus⟩
          · -- The message is stored, answered and remembered in one step.
            refine ⟨[⟨r.producerKey, partition, m⟩], ⟨?_, ?_⟩, fun _ => ?_⟩
            · intro x hx
              rcases List.mem_append.mp hx with hold | hlast
              · exact (hrouted.kept x hold).mono (hgrows _ _)
              · rw [List.mem_singleton.mp hlast]
                exact ⟨hvalid, by rw [hkey, hvalue, hbody], hmem⟩
            · intro key entry hentry
              rw [hcache, Broker.remember, if_pos hmeta] at hentry
              by_cases hsame : key = r.cacheKey
              · rw [hsame, AList.lookup_insert] at hentry
                rw [← Option.some.inj hentry]
                exact ⟨r.producerKey, hsame.symm, _, List.mem_append_right _ List.mem_cons_self,
                  rfl, rfl⟩
              · rw [AList.lookup_insert_ne hsame] at hentry
                rcases hrouted.cached key entry hentry with ⟨k, hk, hnames⟩
                exact ⟨k, hk, hnames.mono⟩
            · rw [hresponse]
              exact ⟨_, List.mem_append_right _ List.mem_cons_self, rfl, rfl⟩

end Broker.Remembers

/-! ## Batches -/

/-- A batch that is admitted has metadata. -/
theorem admitBatch_metadata {b : Broker} {env : BatchEnv} {request : Request}
    {entries : List BatchEntry} (h : (b.admitBatch env request).2 = .ok entries) :
    request.hasFlag flagProducerMetadata = true := by
  by_contra hmeta
  rw [Bool.not_eq_true] at hmeta
  simp only [Broker.admitBatch, hmeta, Bool.not_false, if_true] at h
  split at h
  · cases h
  · split at h <;> cases h

/-- The requests for the items of a batch carry what the batch carries. -/
theorem prepareBatch_agrees {request : Request} {producerId : UInt64}
    {found : List (Option Response)} {sequence : UInt64} {position : Nat} {newBytes : UInt64}
    {prepared : List BatchEntry × Nat × UInt64}
    (h : prepareBatch request producerId found sequence position newBytes = .ok prepared)
    (hagrees : ∀ x ∈ carriedItems request.topic producerId request.payload found.length sequence
      position, content x.1 = x.2) {single : Request} (hmem : .pending single ∈ prepared.1)
    {body : ProduceBody} (hbody : parseProduce single.payload 16 = some body) :
    content single.producerKey = (body.key, body.value) := by
  induction found generalizing sequence position newBytes prepared with
  | nil =>
      cases h
      exact absurd hmem List.not_mem_nil
  | cons first found ih =>
      rw [List.length_cons] at hagrees
      rw [prepareBatch] at h
      cases hitem : parseItem request.payload position with
      | none =>
          rw [hitem] at h
          cases h
      | some item =>
          rcases item with ⟨key, value, next⟩
          rw [carriedItems, hitem] at hagrees
          rw [hitem] at h
          have hrest := fun x hx => hagrees x (List.mem_cons_of_mem _ hx)
          have hhere := hagrees _ List.mem_cons_self
          cases first with
          | some response =>
              simp only at h
              split at h
              · cases h
              · cases htail : prepareBatch request producerId found (sequence + 1) next newBytes with
                | error status =>
                    rw [htail] at h
                    cases h
                | ok tail =>
                    rw [htail] at h
                    cases h
                    rcases List.mem_cons.mp hmem with hfirst | hmem
                    · cases hfirst
                    · exact ih htail hrest hmem
          | none =>
              simp only at h
              split at h
              · cases h
              · cases htail : prepareBatch request producerId found (sequence + 1) next
                  (newBytes + UInt64.ofNat (key.length + value.length)) with
                | error status =>
                    rw [htail] at h
                    cases h
                | ok tail =>
                    rw [htail] at h
                    cases h
                    rcases List.mem_cons.mp hmem with hfirst | hmem
                    · -- The request for this item holds its key and its value.
                      rcases parseItem_sizes hitem with ⟨hkey, hvalue⟩
                      rw [BatchEntry.pending.inj hfirst] at hbody ⊢
                      have hmade : parseProduce (singleRequest request producerId sequence key
                          value).payload 16 = some ⟨autoPartition, key, value⟩ :=
                        Request.Carries.body (singleRequest_carries request producerId hkey hvalue
                          : Request.Carries _ request producerId ⟨sequence, key, value⟩)
                      rw [hmade] at hbody
                      rw [(singleRequest_producerKey request producerId sequence key value).1,
                        ← Option.some.inj hbody]
                      exact hhere
                    · exact ih htail hrest hmem

namespace Broker.Remembers

variable {b : Broker}

/-- What the cache has for the items of a batch names their messages. -/
theorem lookupBatch (h : b.Remembers content stored) (request : Request) (producerId : UInt64)
    (count : Nat) (sequence : UInt64) : FoundFor stored request.topic producerId sequence
      (b.lookupBatch request producerId count sequence) := by
  induction count generalizing sequence with
  | zero => trivial
  | succ count ih =>
      refine ⟨fun response hresponse => ?_, ih (sequence + 1)⟩
      rcases Option.map_eq_some_iff.mp hresponse with ⟨entry, hentry, rfl⟩
      have hnames : Names stored ⟨request.topic, producerId, sequence⟩ entry.response.payload :=
        h.names hentry
      exact hnames

/-- The loop over a batch. -/
theorem produceEntries (request : Request) {topic : Bytes} {producerId : UInt64}
    (calls : Nat → ProduceEnv) (entries : List BatchEntry) (index : Nat) (sequence : UInt64)
    (payload : Bytes) (log : List (Request × UInt32 × Message)) (h : b.Remembers content stored)
    (hentries : EntriesFor stored topic producerId sequence entries)
    (hagrees : ∀ single, .pending single ∈ entries → ∀ body,
      parseProduce single.payload 16 = some body →
        content single.producerKey = (body.key, body.value)) :
    ∃ new, (Broker.produceEntries request calls entries index b payload log).broker.Remembers
        content (stored ++ new) ∧
      ((Broker.produceEntries request calls entries index b payload log).response.status = .ok →
        ∃ items : List Bytes, items.length = entries.length ∧
          (Broker.produceEntries request calls entries index b payload log).response.payload
            = payload ++ items.flatten ∧ ItemsFor (stored ++ new) topic producerId sequence items) := by
  induction entries generalizing index sequence b payload log stored with
  | nil =>
      refine ⟨[], (List.append_nil stored).symm ▸ h, fun _ => ⟨[], rfl, ?_, trivial⟩⟩
      rw [List.flatten_nil, List.append_nil]
      rfl
  | cons entry rest ih =>
      have hlater := fun single hmem => hagrees single (List.mem_cons_of_mem entry hmem)
      cases entry with
      | cached response =>
          simp only [Broker.produceEntries]
          rcases ih (index + 1) (sequence + 1) (payload ++ response.payload) log h hentries.2 hlater
            with ⟨new, hnew, hanswer⟩
          refine ⟨new, hnew, fun hok => ?_⟩
          rcases hanswer hok with ⟨items, hlength, hpayload, hitems⟩
          refine ⟨response.payload :: items, congrArg Nat.succ hlength, ?_, hentries.1.mono, hitems⟩
          rw [hpayload, List.flatten_cons, List.append_assoc]
      | pending single =>
          rcases hentries with ⟨⟨hkey, hmeta⟩, hrest⟩
          rcases h.handleProduce (calls index) false false hmeta
            (hagrees single List.mem_cons_self) with ⟨first, hfirst, hnames⟩
          simp only [Broker.produceEntries]
          split
          · rename_i hstatus
            exact ⟨first, hfirst, fun hok => absurd hok hstatus⟩
          · rename_i hstatus
            rcases ih (index + 1) (sequence + 1)
              (payload ++ (b.handleProduce (calls index) single false false).response.payload)
              (log ++ (b.handleProduce (calls index) single false false).stored.toList.map
                (fun m => (single, m))) hfirst (hrest.mono first) hlater with ⟨new, hnew, hanswer⟩
            rw [List.append_assoc] at hnew
            refine ⟨first ++ new, hnew, fun hok => ?_⟩
            rcases hanswer hok with ⟨items, hlength, hpayload, hitems⟩
            rw [List.append_assoc] at hitems
            refine ⟨(b.handleProduce (calls index) single false false).response.payload :: items,
              congrArg Nat.succ hlength, ?_, ?_, hitems⟩
            · rw [hpayload, List.flatten_cons, List.append_assoc]
            · have hhere : Names (stored ++ first ++ new) single.producerKey
                  (b.handleProduce (calls index) single false false).response.payload :=
                (hnames (not_not.mp hstatus)).mono
              rwa [hkey, List.append_assoc] at hhere

/-- A batch keeps what is remembered, and a good answer names its messages. -/
theorem handleProduceBatch (h : b.Remembers content stored) (env : BatchEnv) {r : Request}
    (hcommand : r.command = .produceBatch) (hagrees : r.Agrees content) :
    ∃ new, (b.handleProduceBatch env r).broker.Remembers content (stored ++ new) ∧
      ((b.handleProduceBatch env r).response.status = .ok →
        ∀ a ∈ r.answers (b.handleProduceBatch env r).response.payload,
          a.Holds (stored ++ new)) := by
  have hrefused : ∀ (d : Broker) (status : Status), d.Remembers content stored → status ≠ .ok →
      b.admitBatch env r = (d, .error status) →
      ∃ new, (b.handleProduceBatch env r).broker.Remembers content (stored ++ new) ∧
        ((b.handleProduceBatch env r).response.status = .ok →
          ∀ a ∈ r.answers (b.handleProduceBatch env r).response.payload,
            a.Holds (stored ++ new)) := by
    intro d status hd hstatus hadmits
    refine ⟨[], ?_⟩
    simp only [Broker.handleProduceBatch, hadmits, List.append_nil]
    exact ⟨hd, fun hok => absurd hok (error_status hstatus)⟩
  rcases admitBatch_cases b env r with ⟨hb, status, hreply, hstatus⟩ |
    ⟨producerId, first, count, hheader, hquota, hrest⟩
  · exact hrefused b status h hstatus (Prod.ext hb hreply)
  · have hevicted := h.evictExpired env.lookupNow
    have hadmitted := hevicted.quota hquota
    rcases hrest with ⟨status, hreply, hstatus⟩ | ⟨entries, rest, hreply, hprepared⟩
    · exact hrefused _ status hadmitted hstatus (Prod.ext rfl hreply)
    · have hadmits : b.admitBatch env r = ((b.admitBatch env r).1, .ok entries) :=
        Prod.ext rfl hreply
      have hlength : entries.length = count :=
        (prepareBatch_length r producerId hprepared).trans (lookupBatch_length r producerId _ _ _)
      have hcarried : r.carried = carriedItems r.topic producerId r.payload count first 20 := by
        rw [Request.carried, if_neg (not_not.mpr (admitBatch_metadata hreply))]
        simp only [hcommand, hheader]
      have hsingles : ∀ single, .pending single ∈ entries → ∀ body,
          parseProduce single.payload 16 = some body →
            content single.producerKey = (body.key, body.value) := by
        refine fun single hmem body hbody => prepareBatch_agrees hprepared (fun x hx => ?_) hmem hbody
        rw [lookupBatch_length, ← hcarried] at hx
        exact hagrees x hx
      rcases produceEntries r env.calls entries 0 first (put32 (UInt32.ofNat entries.length)) []
        hadmitted (prepareBatch_entries stored r producerId _ first 20 0 entries rest
          (hevicted.lookupBatch r producerId count first) hprepared).1 hsingles with
        ⟨new, hnew, hanswer⟩
      refine ⟨new, ?_⟩
      have hresult : b.handleProduceBatch env r = Broker.produceEntries r env.calls entries 0
          (b.admitBatch env r).1 (put32 (UInt32.ofNat entries.length)) [] := by
        rw [Broker.handleProduceBatch, hadmits]
      rw [hresult]
      refine ⟨hnew, fun hok a ha => ?_⟩
      rcases hanswer hok with ⟨items, hitemsLength, hpayload, hitems⟩
      rw [hpayload] at ha
      simp only [Request.answers, hcommand, hheader] at ha
      rw [← hlength, ← hitemsLength] at ha
      exact batchAnswers_hold _ _ _ items _ first hitems a ha

end Broker.Remembers

/-! ## Other requests -/

/-- A message without metadata leaves the cache alone. -/
theorem handleProduce_plain {b : Broker} (env : ProduceEnv) {r : Request} (rate quota : Bool)
    (hmeta : r.hasFlag flagProducerMetadata = false) :
    (b.handleProduce env r rate quota).broker.idempotencyCache = b.idempotencyCache := by
  have hadmitted : (b.admitProduce env r rate quota).1.idempotencyCache = b.idempotencyCache := by
    simp only [Broker.admitProduce, hmeta, Bool.false_eq_true, if_false]
    split
    · rfl
    · split
      · rfl
      · rcases (routeProduce_cases b env r quota 0).1 with ⟨windows, heq⟩
        rw [heq]
  unfold Broker.handleProduce
  split
  · rename_i d response hverdict
    rw [hverdict] at hadmitted
    exact hadmitted
  · rename_i d partition body hverdict
    rw [hverdict] at hadmitted
    rcases settleProduce_kept d env r partition body with
      ⟨_, hcache⟩ | ⟨m, _, _, _, _, _, hcache⟩
    · exact hcache.trans hadmitted
    · rw [hcache, Broker.remember, if_neg (Bool.not_eq_true _ ▸ hmeta)]
      exact hadmitted

theorem Extended.longer {e e' : StorageEngine} {topic : Bytes} {number : UInt32}
    {ms : List Message} (h : Extended e e' topic number ms) (t : Bytes) (n : UInt32) :
    (e.partition t n).messages <+: (e'.partition t n).messages := by
  by_cases hplace : (t, n) = (topic, number)
  · rcases Prod.mk.inj hplace with ⟨rfl, rfl⟩
    exact ⟨ms, h.messages.symm⟩
  · rw [(h.others t n hplace).1]

/-- What another broker sends is added to a log. -/
theorem handleReplicaAppend_logs (b : Broker) (env : ReplicaEnv) {request : Request}
    (hterm : request.hasFlag flagReplicationTerm = true) :
    (∀ t n, (b.storage.partition t n).messages <+:
      ((b.handleReplicaAppend env request).1.storage.partition t n).messages) ∧
    (b.handleReplicaAppend env request).1.idempotencyCache = b.idempotencyCache := by
  rcases handleReplicaAppend_cases b env request hterm with
    ⟨hsame, _⟩ | ⟨header, partition, messages, _, _, heq⟩
  · rw [hsame]
    exact ⟨fun _ _ => List.prefix_rfl, rfl⟩
  · rw [heq]
    rcases applyAppend_cases b env request header partition messages with ⟨hsame, _⟩ |
      ⟨_, stored, e, _, hext, _, _, ⟨heq, _⟩ | ⟨heq, _⟩⟩
    · rw [hsame]
      exact ⟨fun _ _ => List.prefix_rfl, rfl⟩
    · rw [heq]
      exact ⟨hext.longer, rfl⟩
    · rw [heq]
      exact ⟨hext.longer, rfl⟩

/-- A topic takes its answers with it. -/
theorem Broker.Remembers.handleDeleteTopic {b : Broker} (h : b.Remembers content stored)
    (hb : b.Sound) (env : DeleteEnv) (hremoved : env.removed = true) (request : Request) :
    ∃ rest, (b.handleDeleteTopic env request).1.Remembers content rest := by
  have hback : ∀ (d : Broker) (count : UInt32), d.storage = b.storage →
      d.idempotencyCache = b.idempotencyCache →
      (d.createTopic request.topic count).1.Remembers content stored := by
    intro d count hstorage hcache
    rcases createTopic_outcome d request.topic count with ⟨_, _, heq⟩ | heq
    · rw [heq]
      exact h.same hstorage hcache
    · rw [heq]
      exact h.same hstorage hcache
  simp only [Broker.handleDeleteTopic]
  split
  · exact ⟨stored, h⟩
  · split
    · exact ⟨stored, h⟩
    · rename_i count hcount
      split
      · exact ⟨stored, hback _ count rfl rfl⟩
      · rcases deleteTopic_removed b.storage (hb.topics _ _ hcount).1 hremoved with
          ⟨hdeleted, hpartitions⟩
        rw [if_neg (not_not.mpr hdeleted)]
        -- What is left are the messages of the other topics.
        refine ⟨stored.filter (·.key.topic ≠ request.topic), ⟨fun x hx => ?_, ?_⟩⟩
        · rcases List.mem_filter.mp hx with ⟨hold, hother⟩
          refine (h.kept x hold).mono ?_
          rw [hpartitions, if_neg (of_decide_eq_true hother)]
        · intro key entry hentry
          rw [Table.lookup_filterKeys] at hentry
          split at hentry
          · rename_i hother
            rcases h.cached key entry hentry with ⟨k, hk, x, hx, hkey, hpayload⟩
            refine ⟨k, hk, x, List.mem_filter.mpr ⟨hx, decide_eq_true fun htopic => ?_⟩, hkey,
              hpayload⟩
            refine of_decide_eq_true hother ?_
            rw [← hk, ← hkey, ← htopic]
            exact ⟨_, List.append_assoc _ _ _⟩
          · cases hentry

/-- The logs have grown, and the cache is the same. -/
def Broker.OnlyGrows (b b' : Broker) : Prop :=
  (∀ t n, (b.storage.partition t n).messages <+: (b'.storage.partition t n).messages) ∧
    b'.idempotencyCache = b.idempotencyCache

theorem Broker.OnlyGrows.of_eq {b b' : Broker} (hstorage : b'.storage = b.storage)
    (hcache : b'.idempotencyCache = b.idempotencyCache) : b.OnlyGrows b' :=
  ⟨fun _ _ => hstorage ▸ List.prefix_rfl, hcache⟩

/-- Most handlers only add to logs, if anything. -/
theorem dispatch_onlyGrows (s : Server) (env : ServerEnv) {request : Request}
    (hcommand : request.command ∉ [.deleteTopic, .produce, .produceBatch])
    (happend : request.command = .replicaAppend → request.hasFlag flagReplicationTerm = true) :
    s.broker.OnlyGrows (s.dispatch env request).1.broker := by
  simp only [List.mem_cons, List.not_mem_nil, or_false, not_or] at hcommand
  cases hkind : request.command with
  | deleteTopic => exact absurd hkind hcommand.1
  | produce => exact absurd hkind hcommand.2.1
  | produceBatch => exact absurd hkind hcommand.2.2
  | replicaAppend =>
      simp only [Server.dispatch, hkind]
      exact handleReplicaAppend_logs s.broker env.replica (happend hkind)
  | createTopic =>
      simp only [Server.dispatch, hkind, Server.handleCreateTopic]
      split
      · exact .of_eq rfl rfl
      · rcases handleCreateTopic_cases s.broker (env.topicsSaved && topicsSavable
          (s.broker.createTopic request.topic _).1.listTopics) request with
          ⟨_, heq, _⟩ | ⟨_, _, _, _, _, heq⟩ <;> rw [heq] <;> exact .of_eq rfl rfl
  | heartbeat =>
      simp only [Server.dispatch, hkind, Server.handleHeartbeat]
      split
      · rcases handleReplicaHeartbeat_cases s.broker env.replica.now request with
          ⟨_, heq⟩ | ⟨_, _, heq⟩ <;> rw [heq] <;> exact .of_eq rfl rfl
      · split
        · exact .of_eq rfl rfl
        · split <;> exact .of_eq rfl rfl
        · exact .of_eq rfl rfl
  | commitOffset =>
      simp only [Server.dispatch, hkind, Server.handleCommitOffset]
      split
      · exact .of_eq rfl rfl
      · split <;> exact .of_eq rfl rfl
  | replicaVote =>
      simp only [Server.dispatch, hkind, Server.handleReplicaVote]
      split
      · exact .of_eq rfl rfl
      · split <;> exact .of_eq rfl rfl
  | listTopic | metrics | fetch | joinGroup | syncGroup | offsetFetch | replicaFetch =>
      simp only [Server.dispatch, hkind]
      exact .of_eq rfl rfl

/-- So does a fetch from a leader. -/
theorem pull_onlyGrows (s : Server) (topic : Bytes) (partition : UInt32) (payload : Bytes)
    (ios : Nat → StoreIo) : s.broker.OnlyGrows (s.pull topic partition payload ios).broker := by
  unfold Server.pull
  split
  · split
    · rename_i messages _ _ _
      rcases applyFetched_cases s.broker ios topic partition messages with
        ⟨e, cursors, stored, heq, _, _, hext, _⟩
      rw [heq]
      exact ⟨hext.longer, rfl⟩
    · exact .of_eq rfl rfl
  · exact .of_eq rfl rfl

/-- A request to append that gets to its handler has the term of a leader. -/
theorem Server.Handles.append {s : Server} {r : RawRequest} {normalized : Request}
    (h : s.Handles r normalized) (hcommand : normalized.command = .replicaAppend) :
    normalized.hasFlag flagReplicationTerm = true := by
  rcases h with ⟨command, _, hadmits⟩
  exact (acceptRequest_append hadmits.accepted hcommand).2

/-! ## Steps and runs -/

/-- Whoever sends a message with metadata agrees with the producer, what is deleted is
    gone, and the cleaner does not come. -/
def ServerEvent.Agrees (content : ProducerKey → Bytes × Bytes) (s : Server) : ServerEvent → Prop
  | .request env r => ∀ normalized, s.Handles r normalized → normalized.Agrees content ∧
      (normalized.command = .deleteTopic → env.delete.removed = true)
  | .cleanup _ => False
  | _ => True

/-- An event takes nothing from the logs of a topic. -/
def ServerEvent.Spares (topic : Bytes) : ServerEvent → Prop
  | .request _ r => Command.ofCode r.command = some .deleteTopic → r.topic ≠ topic
  | .cleanup _ => False
  | .restart _ _ => False
  | _ => True

/-- A handler keeps what is remembered, and what it answers to a produce request with
    metadata names messages that are in their logs. -/
theorem dispatch_remembers {s : Server} (hs : s.broker.Sound)
    (h : s.broker.Remembers content stored) (env : ServerEnv) {request : Request}
    (happend : request.command = .replicaAppend → request.hasFlag flagReplicationTerm = true)
    (hagrees : request.Agrees content)
    (hremoved : request.command = .deleteTopic → env.delete.removed = true) :
    ∃ rest, (s.dispatch env request).1.broker.Remembers content rest ∧
      (request.hasFlag flagProducerMetadata = true →
        (s.dispatch env request).2.status = .ok →
          ∀ a ∈ request.answers (s.dispatch env request).2.payload, a.Holds rest) := by
  -- Only produce requests have answers.
  have hother : ∀ rest, (s.dispatch env request).1.broker.Remembers content rest →
      (∀ payload, request.answers payload = []) →
      ∃ rest, (s.dispatch env request).1.broker.Remembers content rest ∧
        (request.hasFlag flagProducerMetadata = true →
          (s.dispatch env request).2.status = .ok →
            ∀ a ∈ request.answers (s.dispatch env request).2.payload, a.Holds rest) := by
    intro rest hrest hnone
    refine ⟨rest, hrest, fun _ _ a ha => ?_⟩
    rw [hnone] at ha
    exact absurd ha List.not_mem_nil
  cases hcommand : request.command with
  | produce =>
      simp only [Server.dispatch, hcommand]
      cases hmeta : request.hasFlag flagProducerMetadata with
      | false =>
          refine ⟨stored, h.mono (fun t n => ?_) fun key entry hentry => ?_, fun hflag => ?_⟩
          · exact (handleProduce_grows s.broker env.produce request true true t n).1
          · rwa [handleProduce_plain env.produce true true hmeta] at hentry
          · cases hflag
      | true =>
          have hbody : ∀ body, parseProduce request.payload 16 = some body →
              content request.producerKey = (body.key, body.value) := by
            intro body hbody
            refine hagrees (request.producerKey, body.key, body.value) ?_
            rw [Request.carried, if_neg (not_not.mpr hmeta)]
            simp only [hcommand, hbody, Option.toList_some, List.map_cons, List.map_nil,
              List.mem_cons, List.not_mem_nil, or_false]
          rcases h.handleProduce env.produce true true hmeta hbody with ⟨new, hnew, hnames⟩
          refine ⟨stored ++ new, hnew, fun _ hok a ha => ?_⟩
          simp only [Request.answers, hcommand, List.mem_singleton] at ha
          have hholds := (hnames hok).holds [] []
          rw [List.nil_append, List.append_nil] at hholds
          rw [ha]
          exact hholds
  | produceBatch =>
      simp only [Server.dispatch, hcommand]
      rcases h.handleProduceBatch env.batch hcommand hagrees with ⟨new, hnew, hanswers⟩
      exact ⟨stored ++ new, hnew, fun _ => hanswers⟩
  | deleteTopic =>
      rcases h.handleDeleteTopic hs
        { env.delete with
          saved := env.delete.saved && topicsSavable
            { s.broker with topics := s.broker.topics.erase request.topic }.listTopics }
        (hremoved hcommand) request with ⟨rest, hrest⟩
      refine hother rest ?_ fun payload => by simp only [Request.answers, hcommand]
      simp only [Server.dispatch, hcommand, Server.handleDeleteTopic]
      split
      · exact hrest
      · split <;> exact hrest
  | createTopic | listTopic | metrics | fetch | commitOffset | joinGroup | syncGroup | offsetFetch
  | heartbeat | replicaFetch | replicaAppend | replicaVote =>
      have hgrows := dispatch_onlyGrows s env (by rw [hcommand]; decide) happend
      refine hother stored (h.mono hgrows.1 fun key entry hentry => hgrows.2 ▸ hentry)
        fun payload => by simp only [Request.answers, hcommand]

/-- Deleting a topic leaves the logs of the others alone. -/
theorem dispatch_delete_other {s : Server} (hs : s.broker.Sound) (env : ServerEnv)
    {request : Request} (hcommand : request.command = .deleteTopic) {topic : Bytes}
    (hne : topic ≠ request.topic) (n : UInt32) :
    (s.dispatch env request).1.broker.storage.partition topic n
      = s.broker.storage.partition topic n := by
  have hbroker : ∀ deleteEnv : DeleteEnv,
      (s.broker.handleDeleteTopic deleteEnv request).1.storage.partition topic n
        = s.broker.storage.partition topic n := by
    intro deleteEnv
    have hother := (deleteTopic_other s.broker.storage deleteEnv hne).1 n
    rcases handleDeleteTopic_cases s.broker hs.topics deleteEnv request with
      ⟨_, _, hstorage | ⟨_, _, hstorage⟩⟩ | ⟨_, _, _, _, hstorage⟩
    · rw [hstorage]
    · rw [hstorage, hother]
    · rw [hstorage, hother]
  simp only [Server.dispatch, hcommand, Server.handleDeleteTopic]
  split
  · exact hbroker _
  · split <;> exact hbroker _

/-- An event that spares a topic takes nothing from its logs. -/
theorem exec_spares {s : Server} (hs : s.broker.Sound) {event : ServerEvent} {topic : Bytes}
    (hspares : event.Spares topic) (n : UInt32) :
    (s.broker.storage.partition topic n).messages
      <+: ((event.exec s).broker.storage.partition topic n).messages := by
  cases event with
  | request env r =>
      rcases serve_cases s env r with ⟨_, hcounts, _⟩ | ⟨normalized, d, hhandles, hd, hcounts, _⟩
      · rw [ServerEvent.exec, hcounts.broker]
      · rw [ServerEvent.exec, hcounts.broker, ← hd.broker]
        cases hkind : normalized.command with
        | produce =>
            simp only [Server.dispatch, hkind]
            exact (handleProduce_grows d.broker env.produce normalized true true topic n).1
        | produceBatch =>
            simp only [Server.dispatch, hkind]
            exact (handleProduceBatch_grows d.broker env.batch normalized topic n).1
        | deleteTopic =>
            have hne : topic ≠ normalized.topic := by
              rw [hhandles.topic]
              exact (hspares (hhandles.command.trans (congrArg some hkind))).symm
            rw [dispatch_delete_other (hd.broker.symm ▸ hs) env hkind hne]
        | createTopic | listTopic | metrics | fetch | commitOffset | joinGroup | syncGroup
        | offsetFetch | heartbeat | replicaFetch | replicaAppend | replicaVote =>
            exact (dispatch_onlyGrows d env (by rw [hkind]; decide) hhandles.append).1 topic n
  | operate op => exact List.prefix_rfl
  | heartbeatRound env => rw [ServerEvent.exec, heartbeatRound_storage]
  | pull t partition payload ios => exact (pull_onlyGrows s t partition payload ios).1 topic n
  | cleanup now => exact absurd hspares id
  | restart config kept => exact absurd hspares id

theorem run_spares {s : Server} (hs : s.Sound) {events : List ServerEvent} {topic : Bytes}
    (hspares : ∀ event ∈ events, event.Spares topic) (n : UInt32) :
    (s.broker.storage.partition topic n).messages
      <+: ((s.run events).broker.storage.partition topic n).messages := by
  induction events generalizing s with
  | nil => exact List.prefix_rfl
  | cons event events ih =>
      have hfirst := exec_spares hs.broker (hspares event List.mem_cons_self) n
      exact hfirst.trans (ih (hs.exec event) fun e he => hspares e (List.mem_cons_of_mem _ he))

/-- A broker that starts remembers nothing. -/
theorem start_remembers (config : ServerConfig) (storage : StorageEngine)
    (topics : Table Bytes UInt32) (topicsFile : List (Bytes × UInt32))
    (offsetsFile : List ConsumerOffset) (stateFile : Option Bytes) :
    (Server.start config storage topics topicsFile offsetsFile stateFile).broker.Remembers content
      [] := by
  refine ⟨fun x hx => absurd hx List.not_mem_nil, fun key entry hentry => ?_⟩
  have hempty : (Server.start config storage topics topicsFile offsetsFile
      stateFile).broker.idempotencyCache = ∅ := by
    simp only [Server.start]
    split <;> rfl
  rw [hempty, AList.lookup_empty] at hentry
  cases hentry

/-- A request keeps what is remembered, and what it is answered is in the logs. -/
theorem serve_remembers {s : Server} (hs : s.Sound) (h : s.broker.Remembers content stored)
    {env : ServerEnv} {r : RawRequest} (hagrees : (ServerEvent.request env r).Agrees content s) :
    ∃ rest, (s.serve env r).1.broker.Remembers content rest ∧
      ∀ normalized, s.Handles r normalized → normalized.hasFlag flagProducerMetadata = true →
        (s.serve env r).2.status = Status.ok.code →
          ∀ a ∈ normalized.answers (s.serve env r).2.payload, a.Holds rest := by
  rcases serve_cases s env r with
    ⟨hnobody, hcounts, hstatus⟩ | ⟨normalized, d, hhandles, hd, hcounts, hanswer⟩
  · refine ⟨stored, ?_, fun _ _ _ hok => absurd hok hstatus⟩
    rw [hcounts.broker]
    exact h
  · have hdbroker : d.broker.Sound := hd.broker.symm ▸ hs.broker
    have hdstored : d.broker.Remembers content stored := hd.broker.symm ▸ h
    rcases hagrees normalized hhandles with ⟨hcontent, hremoved⟩
    rcases dispatch_remembers hdbroker hdstored env hhandles.append hcontent hremoved with
      ⟨rest, hrest, hanswers⟩
    refine ⟨rest, hcounts.broker.symm ▸ hrest, fun other hother hmeta hok => ?_⟩
    rw [hother.unique hhandles] at hmeta ⊢
    rw [hanswer] at hok ⊢
    exact hanswers hmeta (status_of_code hok)

/-- Every event keeps what is remembered. -/
theorem Broker.Remembers.exec {s : Server} (hs : s.Sound) (h : s.broker.Remembers content stored)
    {event : ServerEvent} (hagrees : event.Agrees content s) :
    ∃ rest, (event.exec s).broker.Remembers content rest := by
  cases event with
  | request env r =>
      rcases serve_remembers hs h hagrees with ⟨rest, hrest, _⟩
      exact ⟨rest, hrest⟩
  | operate op => exact ⟨stored, h.same rfl rfl⟩
  | heartbeatRound env =>
      rcases heartbeatRound_frame s.broker env with ⟨_, _, heq, _⟩
      simp only [ServerEvent.exec, heq]
      exact ⟨stored, h.same rfl rfl⟩
  | pull topic partition payload ios =>
      have hgrows := pull_onlyGrows s topic partition payload ios
      exact ⟨stored, h.mono hgrows.1 fun key entry hentry => hgrows.2 ▸ hentry⟩
  | cleanup now => exact absurd hagrees id
  | restart config kept =>
      simp only [ServerEvent.exec, Server.restart]
      split
      · exact ⟨stored, h⟩
      · split
        · exact ⟨stored, h⟩
        · exact ⟨[], start_remembers _ _ _ _ _ _⟩

/-- What is in the cache was stored and is in the logs, at all times. -/
theorem run_remembers {s : Server} (hs : s.Sound) (h : s.broker.Remembers content stored)
    {events : List ServerEvent}
    (hagrees : Along ServerEvent.exec (ServerEvent.Agrees content) s events) :
    ∃ rest, (s.run events).broker.Remembers content rest := by
  induction events generalizing s stored with
  | nil => exact ⟨stored, h⟩
  | cons event events ih =>
      rcases h.exec hs hagrees.1 with ⟨rest, hrest⟩
      exact ih (hs.exec event) hrest hagrees.2

/-- What a request is answered is in the logs, as long as nobody takes it out. -/
theorem serve_kept {s : Server} (hs : s.Sound) (h : s.broker.Remembers content stored)
    {env : ServerEnv} {r : RawRequest} (hagrees : (ServerEvent.request env r).Agrees content s)
    {normalized : Request} (hhandles : s.Handles r normalized)
    (hmeta : normalized.hasFlag flagProducerMetadata = true)
    (hok : (s.serve env r).2.status = Status.ok.code) {a : Answer}
    (ha : a ∈ normalized.answers (s.serve env r).2.payload) {later : List ServerEvent}
    (hspares : ∀ event ∈ later, event.Spares a.key.topic) :
    ∃ m ∈ (((s.serve env r).1.run later).broker.storage.partition a.key.topic
        a.partition).messages, m.offset = a.offset ∧ (m.key, m.value) = content a.key := by
  obtain ⟨rest, hrest, hanswers⟩ := serve_remembers hs h hagrees
  obtain ⟨x, hx, hkey, hpartition, hoffset⟩ := hanswers normalized hhandles hmeta hok a ha
  have hkept := hrest.kept x hx
  have hlog := run_spares (hs.serve env r) hspares a.partition
  refine ⟨x.message, hlog.subset ?_, hoffset, ?_⟩
  · rw [← hkey, ← hpartition]
    exact hkept.mem
  · rw [hkept.content, hkey]

/-- A message with metadata that was acknowledged is in its log at the place that the
    answer names, also if the answer came from the cache, and it stays there as long as
    its topic is not deleted, the cleaner does not come and the broker runs. -/
theorem acknowledged_kept (config : ServerConfig) (content : ProducerKey → Bytes × Bytes)
    {past : List ServerEvent} {env : ServerEnv} {r : RawRequest}
    (hagrees : Along ServerEvent.exec (ServerEvent.Agrees content) (Server.fresh config)
      (past ++ [.request env r]))
    {normalized : Request} (hhandles : ((Server.fresh config).run past).Handles r normalized)
    (hmeta : normalized.hasFlag flagProducerMetadata = true)
    (hok : (((Server.fresh config).run past).serve env r).2.status = Status.ok.code)
    {a : Answer}
    (ha : a ∈ normalized.answers (((Server.fresh config).run past).serve env r).2.payload)
    {later : List ServerEvent} (hspares : ∀ event ∈ later, event.Spares a.key.topic) :
    ∃ m ∈ (((Server.fresh config).run
        (past ++ .request env r :: later)).broker.storage.partition a.key.topic
        a.partition).messages, m.offset = a.offset ∧ (m.key, m.value) = content a.key := by
  rw [along_append, ← Server.run] at hagrees
  have hstart : (Server.fresh config).broker.Remembers content [] := start_remembers _ _ _ _ _ _
  obtain ⟨stored, hstored⟩ := run_remembers (Server.Sound.fresh config) hstart hagrees.1
  rw [run_append, run_cons]
  exact serve_kept (run_sound config past) hstored hagrees.2.1 hhandles hmeta hok ha hspares

/-- A message of a producer with a number. -/
def numberedProduce : RawRequest :=
  { command := 0x10
    flags := flagProducerMetadata
    requestId := 1
    topic := [116]
    payload := put64 7 ++ (put64 0 ++ (put32 autoPartition ++ encodeItem [] [5])) }

/-- A topic is created and a message is produced. -/
def numberedRun : List ServerEvent := [createExample true, .request {} numberedProduce]

/-- Without a token a request gets to its handler as it is. -/
theorem handles_plain {s : Server} (hopened : s.opened = true) (htoken : s.clientAuthToken = [])
    {r : RawRequest} {command : Command} (hcommand : Command.ofCode r.command = some command)
    (hversion : r.version = currentVersion)
    (hkind : command ∉ [.replicaFetch, .replicaAppend, .replicaVote])
    (hflags : r.flags ∈ clientFlags) : s.Handles r (r.request command) :=
  ⟨command, hcommand, admits_plain hopened htoken hversion hkind hflags⟩

theorem numberedRun_handles :
    ((Server.fresh {}).run numberedRun).Handles numberedProduce
      (numberedProduce.request .produce) :=
  handles_plain (by decide +kernel) (by decide +kernel) rfl rfl (by decide) (by decide)

theorem numberedRun_agrees : Along ServerEvent.exec (ServerEvent.Agrees fun _ => ([], [5]))
    (Server.fresh {}) (numberedRun ++ [.request {} numberedProduce]) := by
  have hproduce : ∀ s : Server, s.Handles numberedProduce (numberedProduce.request .produce) →
      (ServerEvent.request {} numberedProduce).Agrees (fun _ => ([], [5])) s := by
    intro s hplain normalized hhandles
    rw [hhandles.unique hplain]
    exact ⟨by unfold Request.Agrees; decide +kernel, by rintro ⟨⟩⟩
  refine ⟨fun normalized hhandles => ?_, hproduce _ ?_, hproduce _ numberedRun_handles, trivial⟩
  · have hplain : (Server.fresh {}).Handles
        { command := 0x01, topic := [116], payload := put32 1 }
        (RawRequest.request { command := 0x01, topic := [116], payload := put32 1 } .createTopic) :=
      handles_plain rfl rfl rfl rfl (by decide) (by decide)
    rw [hhandles.unique hplain]
    exact ⟨by unfold Request.Agrees; decide +kernel, by rintro ⟨⟩⟩
  · exact handles_plain (by decide +kernel) (by decide +kernel) rfl rfl (by decide) (by decide)

/-- The message is sent again, and the answer comes from the cache. -/
theorem acknowledged_kept_again :
    ∃ m ∈ (((Server.fresh {}).run (numberedRun ++ .request {} numberedProduce
        :: [])).broker.storage.partition [116] 0).messages,
      m.offset = 0 ∧ (m.key, m.value) = ([], [5]) :=
  acknowledged_kept {} (fun _ => ([], [5])) numberedRun_agrees numberedRun_handles
    (by decide) (by decide +kernel) (a := ⟨⟨[116], 7, 0⟩, 0, 0⟩) (by decide +kernel)
    fun _ hmem => absurd hmem List.not_mem_nil

end MqBroker

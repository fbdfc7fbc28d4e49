import MqBroker.Server.Config
import MqBroker.Server.Whitelist

/-!
# What Clients Are Permitted

From the words in the configuration to what a run of requests leaves alone.

The configuration names permissions and topics in text. A list in it is split at
commas and every part is trimmed, and an empty part is an error, so a comma at the
end is one too. Without permissions clients may do everything, and an empty list of
topics stands for all of them. Since permissions are refused without a token, a
configuration that takes any away also makes every client show its token.

A client that is no administrator then changes no topic, no log of a topic it may
not write to, and no committed offset of a topic it may not read. The handler of a
commit accepts a request without a topic from every consumer, but no topic has that
name.

## Main definitions

* `parseList`, `buildClientAuthorization`: The permissions in the configuration.
* `Config.Permits`, `Config.MayProduce`, `Config.MayConsume`: What they say.
* `Server.Confined`: What clients with some topics leave alone.

## Theorems

* `buildClientAuthorization_spec`: The broker gets what the configuration says.
* `serve_confined`: A request of a client leaves the rest alone.
* `clients_confined`: So does every sequence of them.
-/

namespace MqBroker

open Server ConsumerGroupCoordinator

/-! ## The configuration of clients -/

/-- The elements of a list in the configuration. -/
def listed (text : Bytes) : List Bytes := (text.splitOn 44).map trim

/-- `ParseList`: no element may be empty. -/
def parseList (text : Bytes) : Option (List Bytes) :=
  let values := listed text
  if [] ∈ values then none else some values

def adminText : Bytes := "admin".toUTF8.toList

def produceText : Bytes := "produce".toUTF8.toList

def consumeText : Bytes := "consume".toUTF8.toList

/-- One permission of the list. -/
def ClientAuthorization.grant (authorization : ClientAuthorization) (permission : Bytes) :
    Option ClientAuthorization :=
  if permission = adminText then some { authorization with allowAdmin := true }
  else if permission = produceText then some { authorization with allowProduce := true }
  else if permission = consumeText then some { authorization with allowConsume := true }
  else none

/-- A topic is on a list in the configuration, or the list is left out. -/
def OnList (text topic : Bytes) : Prop := text = [] ∨ topic ∈ listed text

namespace Config

variable (config : Config)

/-- The first part of `BuildClientAuthorization`. -/
def buildPermissions : Except Bytes ClientAuthorization :=
  if config.clientAuthPermissions = [] then .ok {}
  else
    match parseList config.clientAuthPermissions with
    | none => .error "invalid client_auth_permissions".toUTF8.toList
    | some permissions =>
        match permissions.foldlM ClientAuthorization.grant
          { allowAdmin := false, allowProduce := false, allowConsume := false } with
        | none => .error "invalid client authorization permission".toUTF8.toList
        | some authorization => .ok authorization

/-- `BuildClientAuthorization`. -/
def buildClientAuthorization : Except Bytes ClientAuthorization :=
  match config.buildPermissions with
  | .error error => .error error
  | .ok authorization =>
      match (if config.clientAuthProduceTopics = [] then some []
        else parseList config.clientAuthProduceTopics) with
      | none => .error "invalid client_auth_produce_topics".toUTF8.toList
      | some produceTopics =>
          match (if config.clientAuthConsumeTopics = [] then some []
            else parseList config.clientAuthConsumeTopics) with
          | none => .error "invalid client_auth_consume_topics".toUTF8.toList
          | some consumeTopics =>
              .ok { authorization with
                produceTopics := produceTopics
                consumeTopics := consumeTopics }

/-- What `main` gives to `ConfigureClientAuth`: the token and the permissions. -/
def clientAuth : Except Bytes (Bytes × ClientAuthorization) :=
  if config.clientAuthToken = [] ∧ (config.clientAuthPermissions ≠ [] ∨
      config.clientAuthProduceTopics ≠ [] ∨ config.clientAuthConsumeTopics ≠ []) then
    .error "client_auth_token is required when client ACL is configured".toUTF8.toList
  else
    match config.buildClientAuthorization with
    | .error error => .error error
    | .ok authorization => .ok (config.clientAuthToken, authorization)

/-! ## What it says -/

/-- A permission is given to clients, by name or because none is named. -/
def Permits (permission : Bytes) : Prop :=
  config.clientAuthPermissions = [] ∨ permission ∈ listed config.clientAuthPermissions

/-- Clients may write to a topic. -/
def MayProduce (topic : Bytes) : Prop :=
  config.Permits produceText ∧ OnList config.clientAuthProduceTopics topic

/-- Clients may read a topic. -/
def MayConsume (topic : Bytes) : Prop :=
  config.Permits consumeText ∧ OnList config.clientAuthConsumeTopics topic

end Config

/-- The elements are accepted as they are. -/
theorem parseList_eq_some {text : Bytes} {values : List Bytes} (h : parseList text = some values) :
    values = listed text ∧ [] ∉ values := by
  rw [parseList] at h
  split at h
  · cases h
  · rename_i hfull
    cases h
    exact ⟨rfl, hfull⟩

-- A comma at the end is not taken.
example : parseList [97, 44, 32, 98] = some [[97], [98]] ∧ parseList [97, 44] = none := by
  decide +kernel

/-- A list of topics allows what is on it. -/
theorem topicAllowed_iff {text : Bytes} {topics : List Bytes}
    (h : (if text = [] then some [] else parseList text) = some topics) (topic : Bytes) :
    topicAllowed topics topic = true ↔ OnList text topic := by
  rw [topicAllowed, Bool.or_eq_true, List.isEmpty_iff, List.contains_iff_mem, OnList]
  split at h
  · rename_i hleft
    cases h
    exact iff_of_true (Or.inl rfl) (Or.inl hleft)
  · rename_i hgiven
    rw [(parseList_eq_some h).1]
    have hnonempty : listed text ≠ [] := by
      rw [listed, Ne, List.map_eq_nil_iff]
      exact List.splitOn_ne_nil 44 text
    rw [or_iff_right hnonempty, or_iff_right hgiven]

/-- The permissions that were named so far. -/
structure ClientAuthorization.Has (authorization : ClientAuthorization) (permissions : List Bytes) :
    Prop where
  admin : authorization.allowAdmin = true ↔ adminText ∈ permissions
  produce : authorization.allowProduce = true ↔ produceText ∈ permissions
  consume : authorization.allowConsume = true ↔ consumeText ∈ permissions

theorem texts_distinct : adminText ≠ produceText ∧ adminText ≠ consumeText ∧
    produceText ≠ consumeText := by
  refine ⟨?_, ?_, ?_⟩ <;> decide +kernel

namespace ClientAuthorization

variable {authorization authorization' : ClientAuthorization} {permissions : List Bytes}

/-- A permission is added to those there are. -/
theorem Has.grant (h : authorization.Has permissions) {permission : Bytes}
    (hgrant : authorization.grant permission = some authorization') :
    authorization'.Has (permissions ++ [permission]) := by
  rcases texts_distinct with ⟨hap, hac, hpc⟩
  rw [ClientAuthorization.grant] at hgrant
  -- The flag of the name is set now, and the other two names are different ones.
  split at hgrant
  · rename_i hname
    cases hgrant
    refine ⟨?_, ?_, ?_⟩
    · simp only [List.mem_append, List.mem_singleton, hname, or_true]
    · simp only [List.mem_append, List.mem_singleton, hname, hap.symm, or_false, h.produce]
    · simp only [List.mem_append, List.mem_singleton, hname, hac.symm, or_false, h.consume]
  · split at hgrant
    · rename_i hname
      cases hgrant
      refine ⟨?_, ?_, ?_⟩
      · simp only [List.mem_append, List.mem_singleton, hname, hap, or_false, h.admin]
      · simp only [List.mem_append, List.mem_singleton, hname, or_true]
      · simp only [List.mem_append, List.mem_singleton, hname, hpc.symm, or_false, h.consume]
    · split at hgrant
      · rename_i hname
        cases hgrant
        refine ⟨?_, ?_, ?_⟩
        · simp only [List.mem_append, List.mem_singleton, hname, hac, or_false, h.admin]
        · simp only [List.mem_append, List.mem_singleton, hname, hpc, or_false, h.produce]
        · simp only [List.mem_append, List.mem_singleton, hname, or_true]
      · cases hgrant

/-- After the loop they are those of the list. -/
theorem Has.grantAll (h : authorization.Has permissions) {more : List Bytes}
    (hall : more.foldlM ClientAuthorization.grant authorization = some authorization') :
    authorization'.Has (permissions ++ more) := by
  induction more generalizing authorization permissions with
  | nil =>
      cases hall
      rw [List.append_nil]
      exact h
  | cons permission more ih =>
      rw [List.foldlM_cons, Option.bind_eq_bind, Option.bind_eq_some_iff] at hall
      rcases hall with ⟨next, hgrant, hrest⟩
      have hboth := ih (h.grant hgrant) hrest
      rw [List.append_assoc] at hboth
      exact hboth

end ClientAuthorization

/-- The permissions are those of the configuration. -/
theorem buildPermissions_spec {config : Config} {authorization : ClientAuthorization}
    (h : config.buildPermissions = .ok authorization) :
    (authorization.allowAdmin = true ↔ config.Permits adminText) ∧
      (authorization.allowProduce = true ↔ config.Permits produceText) ∧
      (authorization.allowConsume = true ↔ config.Permits consumeText) := by
  simp only [Config.Permits]
  rw [Config.buildPermissions] at h
  split at h
  · rename_i hnone
    cases h
    simp only [hnone, true_or, and_self]
  · rename_i hgiven
    split at h
    · cases h
    · rename_i permissions hparse
      split at h
      · cases h
      · rename_i granted hall
        cases h
        have hstart : ClientAuthorization.Has
            { allowAdmin := false, allowProduce := false, allowConsume := false } [] := by
          refine ⟨?_, ?_, ?_⟩ <;>
            simp only [Bool.false_eq_true, List.not_mem_nil]
        have hhas := hstart.grantAll hall
        rw [List.nil_append, (parseList_eq_some hparse).1] at hhas
        rw [or_iff_right hgiven, or_iff_right hgiven, or_iff_right hgiven]
        exact ⟨hhas.admin, hhas.produce, hhas.consume⟩

/-- What a broker lets its clients do is what the configuration says. -/
structure Config.Describes (config : Config) (authorization : ClientAuthorization) : Prop where
  admin : authorization.allowAdmin = true ↔ config.Permits adminText
  produce : ∀ topic, authorization.allowProduce = true ∧
    topicAllowed authorization.produceTopics topic = true ↔ config.MayProduce topic
  consume : ∀ topic, authorization.allowConsume = true ∧
    topicAllowed authorization.consumeTopics topic = true ↔ config.MayConsume topic

theorem buildClientAuthorization_spec {config : Config} {authorization : ClientAuthorization}
    (h : config.buildClientAuthorization = .ok authorization) :
    config.Describes authorization := by
  rw [Config.buildClientAuthorization] at h
  split at h
  · cases h
  · rename_i permissions hpermissions
    split at h
    · cases h
    · rename_i produceTopics hproduce
      split at h
      · cases h
      · rename_i consumeTopics hconsume
        cases h
        rcases buildPermissions_spec hpermissions with ⟨hadmin, hmayProduce, hmayConsume⟩
        exact ⟨hadmin, fun topic => and_congr hmayProduce (topicAllowed_iff hproduce topic),
          fun topic => and_congr hmayConsume (topicAllowed_iff hconsume topic)⟩

/-- A configuration that takes a permission away has a token. -/
theorem clientAuth_spec {config : Config} {token : Bytes} {authorization : ClientAuthorization}
    (h : config.clientAuth = .ok (token, authorization)) :
    config.Describes authorization ∧ (¬ config.Permits adminText → token ≠ []) := by
  rw [Config.clientAuth] at h
  split at h
  · cases h
  · rename_i htoken
    split at h
    · cases h
    · rename_i built hbuild
      cases h
      -- Without permissions in the text clients have them all.
      refine ⟨buildClientAuthorization_spec hbuild, fun hadmin hnone => htoken ⟨hnone, Or.inl ?_⟩⟩
      exact fun hall => hadmin (Or.inl hall)

/-! ## Logs of other topics -/

/-- The logs of all topics but one are the same. -/
def StorageEngine.SameBut (topic : Bytes) (e e' : StorageEngine) : Prop :=
  ∀ t, t ≠ topic → ∀ n, e'.partition t n = e.partition t n

theorem StorageEngine.SameBut.refl (topic : Bytes) (e : StorageEngine) : e.SameBut topic e :=
  fun _ _ _ => rfl

theorem StorageEngine.SameBut.trans {topic : Bytes} {e e' e'' : StorageEngine}
    (h : e.SameBut topic e') (h' : e'.SameBut topic e'') : e.SameBut topic e'' :=
  fun t ht n => (h' t ht n).trans (h t ht n)

theorem append_sameBut (e : StorageEngine) (io : StoreIo) (now : Int64) (topic : Bytes)
    (number : UInt32) (key value : Bytes) :
    e.SameBut topic (e.append io now topic number key value).1 := by
  simp only [StorageEngine.append]
  split
  · exact .refl topic e
  · split
    · exact .refl topic e
    · intro t ht n
      exact put_partition_ne e topic number _ t n fun heq => ht (Prod.mk.inj heq).1

theorem handleProduce_sameBut (b : Broker) (env : ProduceEnv) (request : Request)
    (rate quota : Bool) :
    b.storage.SameBut request.topic (b.handleProduce env request rate quota).broker.storage := by
  rcases admitProduce_frame b env request rate quota with ⟨cache, windows, hverdict⟩
  unfold Broker.handleProduce
  split
  · rename_i d response hadmitted
    rw [hadmitted] at hverdict
    rw [show d = _ from hverdict]
    exact .refl _ _
  · rename_i d partition body hadmitted
    rw [hadmitted] at hverdict
    rw [(settleProduce_storage d env request partition body).1, show d = _ from hverdict]
    exact append_sameBut _ _ _ _ _ _ _

/-- What is produced of a batch is for the topic of the batch. -/
def BatchEntry.IsFor (topic : Bytes) : BatchEntry → Prop
  | .cached _ => True
  | .pending single => single.topic = topic

theorem prepareBatch_isFor {request : Request} {producerId : UInt64}
    {found : List (Option Response)} {sequence : UInt64} {position : Nat} {newBytes : UInt64}
    {prepared : List BatchEntry × Nat × UInt64}
    (h : prepareBatch request producerId found sequence position newBytes = .ok prepared) :
    ∀ entry ∈ prepared.1, entry.IsFor request.topic := by
  induction found generalizing sequence position newBytes prepared with
  | nil =>
      cases h
      exact fun entry hentry => absurd hentry List.not_mem_nil
  | cons first found ih =>
      rcases prepareBatch_cons request producerId first found sequence position newBytes with
        ⟨status, herror, _⟩ | ⟨entry, next, bytes, tail, htail, hok, hentry⟩
      · rw [herror] at h
        cases h
      · rw [hok] at h
        cases h
        refine List.forall_mem_cons.mpr ⟨?_, ih htail⟩
        rcases hentry with ⟨response, _, rfl, _⟩ | ⟨_, key, value, rfl⟩
        · trivial
        · -- A single request has the topic of the batch.
          rfl

theorem produceEntries_sameBut {request : Request} (calls : Nat → ProduceEnv)
    {entries : List BatchEntry} (hfor : ∀ entry ∈ entries, entry.IsFor request.topic) (index : Nat)
    (b : Broker) (payload : Bytes) (stored : List (Request × UInt32 × Message)) :
    b.storage.SameBut request.topic
      (Broker.produceEntries request calls entries index b payload stored).broker.storage := by
  induction entries generalizing index b payload stored with
  | nil => exact .refl _ _
  | cons entry rest ih =>
      rcases List.forall_mem_cons.mp hfor with ⟨hentry, hrest⟩
      cases entry with
      | cached response => exact ih hrest (index + 1) b _ stored
      | pending single =>
          have hfirst := handleProduce_sameBut b (calls index) single false false
          rw [show single.topic = request.topic from hentry] at hfirst
          simp only [Broker.produceEntries]
          split
          · exact hfirst
          · exact hfirst.trans (ih hrest _ _ _ _)

theorem handleProduceBatch_sameBut (b : Broker) (env : BatchEnv) (request : Request) :
    b.storage.SameBut request.topic (b.handleProduceBatch env request).broker.storage := by
  have hbefore : (b.admitBatch env request).1.storage = b.storage ∧
      ∀ entries, (b.admitBatch env request).2 = .ok entries →
        ∀ entry ∈ entries, entry.IsFor request.topic := by
    rcases admitBatch_cases b env request with
      ⟨hsame, status, herror, _⟩ | ⟨_, _, _, _, ⟨windows, hquota⟩, hverdict⟩
    · refine ⟨congrArg Broker.storage hsame, fun entries hok => ?_⟩
      rw [herror] at hok
      cases hok
    · refine ⟨?_, fun entries hok => ?_⟩
      · rw [hquota]
        rfl
      · rcases hverdict with ⟨status, herror, _⟩ | ⟨_, _, hentries, hprepared⟩
        · rw [herror] at hok
          cases hok
        · rw [hentries] at hok
          cases hok
          exact prepareBatch_isFor hprepared
  unfold Broker.handleProduceBatch
  split
  · rename_i d status hadmitted
    rw [hadmitted] at hbefore
    rw [show d.storage = _ from hbefore.1]
    exact .refl _ _
  · rename_i d entries hadmitted
    rw [hadmitted] at hbefore
    rw [← show d.storage = _ from hbefore.1]
    exact produceEntries_sameBut env.calls (hbefore.2 entries rfl) 0 d _ _

/-! ## What clients leave alone -/

/-- The topics are the same, and so are the logs of those that may not be written to
    and the committed offsets of those that may not be read. -/
structure Server.Confined (produce consume : Bytes → Prop) (s s' : Server) : Prop where
  topics : s'.broker.topics = s.broker.topics
  partitions : s'.groups.partitions = s.groups.partitions
  topicsFile : s'.topicsFile = s.topicsFile
  logs : ∀ t, ¬ produce t → ∀ n, s'.broker.storage.partition t n = s.broker.storage.partition t n
  offsets : ∀ t, ¬ consume t → ∀ group n, s'.committed group t n = s.committed group t n

namespace Server.Confined

variable {produce consume : Bytes → Prop} {s s' s'' : Server}

theorem refl (s : Server) : s.Confined produce consume s :=
  ⟨rfl, rfl, rfl, fun _ _ _ => rfl, fun _ _ _ _ => rfl⟩

theorem trans (h : s.Confined produce consume s') (h' : s'.Confined produce consume s'') :
    s.Confined produce consume s'' :=
  ⟨h'.topics.trans h.topics, h'.partitions.trans h.partitions, h'.topicsFile.trans h.topicsFile,
    fun t ht n => (h'.logs t ht n).trans (h.logs t ht n),
    fun t ht group n => (h'.offsets t ht group n).trans (h.offsets t ht group n)⟩

theorem ofCounts (h : s.Counts s') : s.Confined produce consume s' := by
  rcases h with ⟨_, _, _, _, rfl⟩
  exact ⟨rfl, rfl, rfl, fun _ _ _ => rfl, fun _ _ _ _ => rfl⟩

/-- Topics and offsets are the same, and logs are of topics that may be written to. -/
theorem ofMetadata (h : s.SameMetadata s')
    (hlogs : ∀ t, ¬ produce t → ∀ n,
      s'.broker.storage.partition t n = s.broker.storage.partition t n) :
    s.Confined produce consume s' := by
  refine ⟨h.topics, h.partitions, h.topicsFile, hlogs, fun t _ group n => ?_⟩
  rw [committed_eq, committed_eq, h.consumerOffsets]

end Server.Confined

section Handlers

variable {produce consume : Bytes → Prop} {s : Server} {request : Request}

theorem handleCommitOffset_confined (hs : s.broker.Sound) (env : ServerEnv)
    (hallowed : request.topic = [] ∨ consume request.topic) :
    s.Confined produce consume (s.handleCommitOffset env request).1 := by
  have hbroker : (s.handleCommitOffset env request).1.broker = s.broker ∧
      (s.handleCommitOffset env request).1.groups = s.groups ∧
      (s.handleCommitOffset env request).1.topicsFile = s.topicsFile := by
    simp only [Server.handleCommitOffset]
    split
    · exact ⟨rfl, rfl, rfl⟩
    · split <;> exact ⟨rfl, rfl, rfl⟩
  rcases hbroker with ⟨hbroker, hgroups, hfile⟩
  refine ⟨by rw [hbroker], by rw [hgroups], hfile, fun t _ n => by rw [hbroker], ?_⟩
  intro t ht group n
  rw [committed_eq, committed_eq]
  rcases handleCommitOffset_consumerOffsets (s := s) env request with
    hsame | ⟨group', partition, offset, hread, hset⟩
  · rw [hsame]
  · -- The topic of the request is there, so it has a name.
    rcases readCommitOffset_topic hs hread with ⟨count, hcount, _⟩
    have hname : request.topic ≠ [] := by
      intro hempty
      rw [hempty] at hcount
      exact absurd (hs.topics _ _ hcount).1 (by decide)
    have hconsume := hallowed.resolve_left hname
    rw [hset, committedIn_setOffset, if_neg]
    intro heq
    rw [(Prod.mk.inj (Prod.mk.inj heq).2).1] at hconsume
    exact ht hconsume

/-- A request that the permissions allow, and that does not manage topics, changes only
    what they are for. -/
theorem dispatch_confined (hs : s.broker.Sound) (env : ServerEnv)
    (hadmin : s.clientAuthorization.allowAdmin = false)
    (hproduce : ∀ t, s.clientAuthorization.allowProduce = true ∧
      topicAllowed s.clientAuthorization.produceTopics t = true → produce t)
    (hconsume : ∀ t, s.clientAuthorization.allowConsume = true ∧
      topicAllowed s.clientAuthorization.consumeTopics t = true → consume t)
    (hallowed : s.authorizeClientRequest request = true) :
    s.Confined produce consume (s.dispatch env request).1 := by
  have hmetadata := dispatch_sameMetadata s env request
  cases hkind : request.command with
  | createTopic | deleteTopic | listTopic | metrics =>
      -- These need the permission of an administrator.
      simp only [Server.authorizeClientRequest, hkind, hadmin, Bool.false_eq_true] at hallowed
  | replicaFetch | replicaAppend | replicaVote =>
      -- No permission is enough for what brokers ask each other.
      simp only [Server.authorizeClientRequest, hkind, Bool.false_eq_true] at hallowed
  | produce =>
      simp only [Server.authorizeClientRequest, hkind, Bool.and_eq_true] at hallowed
      refine .ofMetadata (hmetadata (by rw [hkind]; decide)) fun t ht n => ?_
      simp only [Server.dispatch, hkind]
      refine handleProduce_sameBut s.broker env.produce request true true t ?_ n
      rintro rfl
      exact ht (hproduce _ hallowed)
  | produceBatch =>
      simp only [Server.authorizeClientRequest, hkind, Bool.and_eq_true] at hallowed
      refine .ofMetadata (hmetadata (by rw [hkind]; decide)) fun t ht n => ?_
      simp only [Server.dispatch, hkind]
      refine handleProduceBatch_sameBut s.broker env.batch request t ?_ n
      rintro rfl
      exact ht (hproduce _ hallowed)
  | commitOffset =>
      simp only [Server.authorizeClientRequest, hkind, Bool.and_eq_true, Bool.or_eq_true,
        List.isEmpty_iff] at hallowed
      simp only [Server.dispatch, hkind]
      refine handleCommitOffset_confined hs env ?_
      rcases hallowed with ⟨hallow, hempty | hlisted⟩
      · exact Or.inl hempty
      · exact Or.inr (hconsume _ ⟨hallow, hlisted⟩)
  | heartbeat =>
      -- It needs no permission, and does not write to a log.
      refine .ofMetadata (hmetadata (by rw [hkind]; decide)) fun t _ n => ?_
      simp only [Server.dispatch, hkind, Server.handleHeartbeat]
      split
      · rcases handleReplicaHeartbeat_cases s.broker env.replica.now request with
          ⟨_, heq⟩ | ⟨_, _, heq⟩ <;> rw [heq]
      · split
        · rfl
        · split <;> rfl
        · rfl
  | fetch | joinGroup | syncGroup | offsetFetch =>
      refine .ofMetadata (hmetadata (by rw [hkind]; decide)) fun t _ n => ?_
      simp only [Server.dispatch, hkind]

end Handlers

/-! ## Runs of clients -/

/-- Clients have a token, and are not administrators. -/
structure Server.Restricted (config : Config) (s : Server) : Prop where
  token : s.clientAuthToken ≠ []
  describes : config.Describes s.clientAuthorization
  admin : ¬ config.Permits adminText

namespace Server.Restricted

variable {config : Config} {s s' : Server}

theorem congr (h : s.Restricted config) (htoken : s'.clientAuthToken = s.clientAuthToken)
    (hauthorization : s'.clientAuthorization = s.clientAuthorization) : s'.Restricted config :=
  ⟨htoken ▸ h.token, hauthorization ▸ h.describes, h.admin⟩

theorem counts (h : s.Restricted config) (hcounts : s.Counts s') : s'.Restricted config := by
  rcases hcounts with ⟨_, _, _, _, rfl⟩
  exact h.congr rfl rfl

theorem serve (h : s.Restricted config) (env : ServerEnv) (r : RawRequest) :
    (s.serve env r).1.Restricted config := by
  rcases serve_cases s env r with ⟨_, hcounts, _⟩ | ⟨normalized, d, _, hd, hcounts, _⟩
  · exact h.counts hcounts
  · rcases dispatch_settings d env normalized with ⟨htoken, hauthorization⟩
    exact ((h.counts hd).congr htoken hauthorization).counts hcounts

/-- The request of a client gets to its handler only if it is allowed. -/
theorem allowed (h : s.Restricted config) {r : RawRequest} (hclient : r.isReplication = false)
    {normalized : Request} (hhandles : s.Handles r normalized) :
    s.authorizeClientRequest normalized = true := by
  rcases hhandles with ⟨command, hcommand, hadmits⟩
  rw [RawRequest.isReplication, hcommand] at hclient
  exact hadmits.authorized h.token hclient

end Server.Restricted

/-- A request of a client leaves alone what the configuration does not permit. -/
theorem serve_confined {config : Config} {s : Server} (h : s.Restricted config) (hs : s.Sound)
    (env : ServerEnv) {r : RawRequest} (hclient : r.isReplication = false) :
    s.Confined config.MayProduce config.MayConsume (s.serve env r).1 := by
  rcases serve_cases s env r with ⟨_, hcounts, _⟩ | ⟨normalized, d, hhandles, hd, hcounts, _⟩
  · exact .ofCounts hcounts
  · have hallowed := h.allowed hclient hhandles
    have hrestricted := h.counts hd
    have hsame : d.authorizeClientRequest normalized = s.authorizeClientRequest normalized := by
      rcases hd with ⟨_, _, _, _, rfl⟩
      rfl
    have hadmin : d.clientAuthorization.allowAdmin = false :=
      Bool.eq_false_iff.mpr fun hadmin => h.admin (hrestricted.describes.admin.mp hadmin)
    refine (Server.Confined.ofCounts hd).trans (.trans ?_ (.ofCounts hcounts))
    exact dispatch_confined (hd.sound hs).broker env hadmin
      (fun t => (hrestricted.describes.produce t).mp)
      (fun t => (hrestricted.describes.consume t).mp) (hsame.trans hallowed)

/-- In whatever state a broker is that has the permissions of a configuration, and does
    not let clients manage topics: a run of requests of clients changes no topic, no log
    of a topic they may not write to, and no committed offset of a topic they may not
    read. -/
theorem clients_confined (settings : ServerConfig) (events : List ServerEvent) {config : Config}
    (hauth : config.clientAuth = .ok (((Server.fresh settings).run events).clientAuthToken,
      ((Server.fresh settings).run events).clientAuthorization))
    (hadmin : ¬ config.Permits adminText) {requests : List (ServerEnv × RawRequest)}
    (hclients : ∀ step ∈ requests, step.2.isReplication = false) :
    ((Server.fresh settings).run events).Confined config.MayProduce config.MayConsume
      (((Server.fresh settings).run events).run
        (requests.map fun step => .request step.1 step.2)) := by
  have hsound := run_sound settings events
  generalize (Server.fresh settings).run events = s at *
  rcases clientAuth_spec hauth with ⟨hdescribes, htoken⟩
  have hrestricted : s.Restricted config := ⟨htoken hadmin, hdescribes, hadmin⟩
  clear hauth hdescribes htoken
  -- A request keeps the permissions, so the next one meets the same ones.
  induction requests generalizing s with
  | nil => exact .refl s
  | cons step rest ih =>
      rcases List.forall_mem_cons.mp hclients with ⟨hstep, hrest⟩
      rw [List.map_cons, run_cons]
      exact (serve_confined hrestricted hsound step.1 hstep).trans
        (ih hrest _ (hsound.exec (.request step.1 step.2)) (hrestricted.serve step.1 step.2))

/-- What the permissions of `consumerExample` are written as. -/
def consumerConfig : Config where
  clientAuthToken := [99]
  clientAuthPermissions := consumeText
  clientAuthConsumeTopics := [97]

/-- A client that may only read topic "a" sends a commit for topic "t". -/
theorem clients_confined_hidden :
    ((Server.fresh {}).run hiddenExample).Confined consumerConfig.MayProduce
      consumerConfig.MayConsume (((Server.fresh {}).run hiddenExample).run
        ([consumerRequest Command.commitOffset.code [116]
            (put16 1 ++ (103 :: (put32 0 ++ put64 1)))].map
          fun step => .request step.1 step.2)) := by
  refine clients_confined {} hiddenExample ?_ ?_ ?_
  · rw [hiddenExample_run]
    decide +kernel
  · rw [Config.Permits, not_or]
    decide +kernel
  · intro step hstep
    rw [List.mem_singleton.mp hstep]
    rfl

end MqBroker

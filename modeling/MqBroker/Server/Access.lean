import MqBroker.Server.Metadata

/-!
# Requests without a Token

What a broker with a client token tells those who do not have it: nothing.

The token is in front of the payload, with its length. A request of a client has
to have the client token there and the flag that says so; a request between
brokers has to have the replication token and another flag, and to be one of four
commands. A request with neither gets past the checks on no combination of
command and flags: it is counted, and the answer depends on the request alone.

## Main definitions

* `constantTimeEqual`: `ConstantTimeEqual`.
* `CarriesToken`: A payload begins with a token.
* `Server.Authenticated`: A request has the token that it needs.

## Theorems

* `carriesToken_iff`: What the broker looks at.
* `acceptRequest_authenticated`: What it accepts has a token.
* `unauthenticated_refused`: The others are counted and learn nothing.
-/

namespace MqBroker

/-! ## Comparing tokens -/

/-- `ConstantTimeEqual`: all bytes are compared, also when one is different. -/
def constantTimeEqual (left right : Bytes) : Bool :=
  if left.length ≠ right.length then false
  else
    (left.zip right).foldl (fun difference pair => difference ||| (pair.1 ^^^ pair.2)) 0 == 0

/-- The difference is 0 when it was, and all pairs are equal. -/
theorem difference_eq_zero (pairs : List (UInt8 × UInt8)) (difference : UInt8) :
    pairs.foldl (fun difference pair => difference ||| (pair.1 ^^^ pair.2)) difference = 0 ↔
      difference = 0 ∧ ∀ pair ∈ pairs, pair.1 = pair.2 := by
  induction pairs generalizing difference with
  | nil => simp only [List.foldl_nil, List.not_mem_nil, false_implies, implies_true, and_true]
  | cons pair pairs ih =>
      rw [List.foldl_cons, ih, UInt8.or_eq_zero_iff, UInt8.xor_eq_zero_iff, and_assoc,
        List.forall_mem_cons]

theorem constantTimeEqual_iff (left right : Bytes) :
    constantTimeEqual left right = true ↔ left = right := by
  unfold constantTimeEqual
  split
  · rename_i hlen
    exact iff_of_false Bool.false_ne_true fun heq => hlen (congrArg List.length heq)
  · rename_i hlen
    rw [not_not] at hlen
    rw [beq_iff_eq, difference_eq_zero]
    constructor
    · rintro ⟨_, hall⟩
      refine List.ext_getElem hlen fun i hi hi' => ?_
      have hzip : i < (left.zip right).length := by
        rw [List.length_zip]
        omega
      have hmem := hall _ (List.getElem_mem hzip)
      rw [List.getElem_zip] at hmem
      exact hmem
    · rintro rfl
      refine ⟨rfl, fun pair hmem => ?_⟩
      rcases List.mem_iff_getElem.mp hmem with ⟨i, hi, rfl⟩
      rw [List.getElem_zip]

/-! ## Tokens -/

/-- A payload begins with a token, behind the length of the token. -/
def CarriesToken (token payload : Bytes) : Prop :=
  token.length ≤ 65535 ∧ put16 (UInt16.ofNat token.length) ++ token <+: payload

instance (token payload : Bytes) : Decidable (CarriesToken token payload) :=
  inferInstanceAs (Decidable (_ ∧ _))

/-- This is what the broker looks at: the length of the token, the length of the
    payload, and the bytes. -/
theorem carriesToken_iff (token payload : Bytes) :
    CarriesToken token payload ↔
      2 ≤ payload.length ∧ (get16 payload 0).toNat = token.length ∧
        2 + token.length ≤ payload.length ∧
        constantTimeEqual (substr payload 2 token.length) token = true := by
  rw [constantTimeEqual_iff]
  constructor
  · rintro ⟨hsize, rest, rfl⟩
    have hfits : token.length < 2 ^ 16 := Nat.lt_succ_of_le hsize
    rw [List.append_assoc, get16_put16, UInt16.toNat_ofNat_of_lt' hfits]
    refine ⟨?_, rfl, ?_, ?_⟩
    · rw [List.length_append, length_put16]
      omega
    · rw [List.length_append, List.length_append, length_put16]
      omega
    · rw [substr_append_right _ _ 2 _ (length_put16 _).le, length_put16, Nat.sub_self, substr,
        List.drop_zero, List.take_left]
  · rintro ⟨hlen, hsize, _, htoken⟩
    have hfront : put16 (UInt16.ofNat token.length) = payload.take 2 := by
      rw [← hsize, UInt16.ofNat_toNat, put16, get16,
        UInt16.toNat_ofNat_of_lt' (by
          have hlt := ofBE_lt ((payload.drop 0).take 2)
          rw [List.length_take, List.drop_zero, Nat.min_eq_left hlen] at hlt
          exact hlt),
        putBE_getBE 2 payload 0 hlen, substr, List.drop_zero]
    refine ⟨hsize ▸ Nat.le_of_lt_succ (get16 payload 0).toNat_lt,
      payload.drop (2 + token.length), ?_⟩
    have hrest := substr_append_drop payload 2 token.length
    rw [htoken] at hrest
    rw [hfront, List.append_assoc, hrest, List.take_append_drop]

/-- A request with a byte for a command that is one between brokers. -/
def RawRequest.isReplication (r : RawRequest) : Bool :=
  match Command.ofCode r.command with
  | some command => (r.request command).isReplication
  | none => false

/-- A request has the token that it needs: a client that of the clients, with the
    flag `AUTHENTICATION`, and another broker that of the brokers, with the flag
    `REPLICATION` and one of the four commands. -/
def Server.Authenticated (s : Server) (r : RawRequest) : Prop :=
  (r.isReplication = false ∧ r.flags &&& flagAuthentication ≠ 0 ∧
    CarriesToken s.clientAuthToken r.payload) ∨
  (r.isReplication = true ∧ r.flags &&& flagReplication ≠ 0 ∧
    CarriesToken s.broker.replicationAuthToken r.payload)

instance (s : Server) (r : RawRequest) : Decidable (s.Authenticated r) :=
  inferInstanceAs (Decidable (_ ∨ _))

/-! ## What is accepted -/

/-- The token of a client is checked when there is one to check. -/
theorem validateClientAuth_carries {token : Bytes} (htoken : token ≠ [])
    {request normalized : Request} (h : validateClientAuth token request = some normalized) :
    request.flags &&& flagAuthentication ≠ 0 ∧ CarriesToken token request.payload := by
  simp only [validateClientAuth, if_neg htoken] at h
  split at h
  · cases h
  · split at h
    · cases h
    · rename_i hflag
      split at h
      · cases h
      · rename_i hchecks
        rw [not_or, not_not, not_lt] at hflag
        rw [not_or, not_or, not_not, not_lt, not_not] at hchecks
        rcases hchecks with ⟨hsize, hlen, hbytes⟩
        rw [hsize] at hlen hbytes
        exact ⟨of_decide_eq_true hflag.1, (carriesToken_iff _ _).mpr
          ⟨hflag.2, hsize, hlen, (constantTimeEqual_iff _ _).mpr hbytes⟩⟩

/-- The token of a broker is always checked, after the flag and the command. -/
theorem validateReplicationRequest_carries {b : Broker} {request normalized : Request}
    (h : b.validateReplicationRequest request = some normalized) :
    request.isReplication = true ∧ request.flags &&& flagReplication ≠ 0 ∧
      CarriesToken b.replicationAuthToken request.payload := by
  have hflag := (validateReplicationRequest_some h).1
  simp only [Broker.validateReplicationRequest] at h
  split at h
  · cases h
  · split at h
    · cases h
    · rename_i hcommand
      split at h
      · cases h
      · split at h
        · cases h
        · split at h
          · cases h
          · rename_i hshort
            split at h
            · cases h
            · rename_i hchecks
              rw [not_not] at hcommand
              rw [not_lt] at hshort
              rw [not_or, not_or, not_not, not_lt, not_not] at hchecks
              rcases hchecks with ⟨hsize, hlen, hbytes⟩
              rw [hsize] at hlen hbytes
              refine ⟨?_, of_decide_eq_true hflag, (carriesToken_iff _ _).mpr
                ⟨hshort, hsize, hlen, (constantTimeEqual_iff _ _).mpr hbytes⟩⟩
              simp only [List.mem_cons, List.not_mem_nil, or_false] at hcommand
              rw [Request.isReplication, decide_eq_true_eq]
              exact hcommand.imp_left fun hheartbeat => ⟨hheartbeat, hflag⟩

/-- What is accepted has a token. -/
theorem acceptRequest_authenticated {s : Server} (htoken : s.clientAuthToken ≠ [])
    {r : RawRequest} {command : Command} (hcommand : Command.ofCode r.command = some command)
    {normalized : Request}
    (h : s.broker.acceptRequest s.clientAuthToken (r.request command) = some normalized) :
    s.Authenticated r := by
  have hkind : r.isReplication = (r.request command).isReplication := by
    rw [RawRequest.isReplication, hcommand]
  rw [Server.Authenticated, hkind]
  rcases acceptRequest_cases h with hbroker | ⟨hclient, haccept⟩
  · exact Or.inr (validateReplicationRequest_carries hbroker)
  · exact Or.inl ⟨hclient, validateClientAuth_carries htoken haccept⟩

/-! ## What is refused -/

/-- What is refused for its version, its flags or its token is answered without a
    look at the broker, as long as there is a client token. -/
theorem refuse_congr {s s' : Server} (htoken : s.clientAuthToken ≠ [])
    (htoken' : s'.clientAuthToken ≠ []) (request : Request) :
    s'.refuse request = s.refuse request := by
  simp only [Server.refuse, if_neg htoken, if_neg htoken']

/-- A request without a token is counted and refused, whatever its command. -/
theorem serve_unauthenticated {s : Server} (hopened : s.opened = true)
    (htoken : s.clientAuthToken ≠ []) {r : RawRequest} (h : ¬ s.Authenticated r)
    (env : ServerEnv) :
    s.serve env r
      = ({ s with requestCount := s.requestCount + 1 },
          (s.refuse (r.request ((Command.ofCode r.command).getD .heartbeat))).raw) := by
  simp only [Server.serve]
  cases hcommand : Command.ofCode r.command with
  | none =>
      -- No command, so it is not one between brokers, and the token is missing.
      have hclient : validateClientAuth s.clientAuthToken (r.request .heartbeat) = none := by
        refine Option.eq_none_iff_forall_ne_some.mpr fun normalized haccept => h (Or.inl ?_)
        refine ⟨?_, validateClientAuth_carries htoken haccept⟩
        rw [RawRequest.isReplication, hcommand]
      simp only [Server.handleUnknown, hopened, hclient, or_true, not_true_eq_false, if_false,
        if_true, Option.getD_none]
      rfl
  | some command =>
      have haccept : s.broker.acceptRequest s.clientAuthToken (r.request command) = none :=
        Option.eq_none_iff_forall_ne_some.mpr fun normalized haccept =>
          h (acceptRequest_authenticated htoken hcommand haccept)
      simp only [Server.handle, hopened, haccept, not_true_eq_false, if_false, Option.getD_some]
      rfl

/-- A broker with a client token does nothing for a request that has neither that
    token nor, between brokers, the replication token: only the counter of the
    requests is different, and every broker with these tokens answers the same. -/
theorem unauthenticated_refused {s : Server} (hopened : s.opened = true)
    (htoken : s.clientAuthToken ≠ []) {r : RawRequest} (h : ¬ s.Authenticated r)
    (env : ServerEnv) :
    (s.serve env r).1 = { s with requestCount := s.requestCount + 1 } ∧
      ∀ (s' : Server) (env' : ServerEnv), s'.opened = true →
        s'.clientAuthToken = s.clientAuthToken →
        s'.broker.replicationAuthToken = s.broker.replicationAuthToken →
        (s'.serve env' r).2 = (s.serve env r).2 := by
  refine ⟨by rw [serve_unauthenticated hopened htoken h env], ?_⟩
  intro s' env' hopened' hclient hbroker
  have htoken' : s'.clientAuthToken ≠ [] := by
    rw [hclient]
    exact htoken
  have h' : ¬ s'.Authenticated r := by
    rw [Server.Authenticated, hclient, hbroker]
    exact h
  rw [serve_unauthenticated hopened htoken h env, serve_unauthenticated hopened' htoken' h' env',
    refuse_congr htoken htoken']

/-- A broker with the tokens "c" and "r". -/
def tokenExample : ServerConfig where
  clientAuthToken := [99]
  replication := some { nodeId := [110], authToken := [114] }

/-- A replica fetch with the client token is one of these requests. -/
theorem unauthenticated_refused_example :
    ((Server.fresh tokenExample).serve {}
        { command := 0x40, flags := flagAuthentication, payload := put16 1 ++ [99] }).1
      = { Server.fresh tokenExample with requestCount := 1 } ∧
    ∀ (s' : Server) (env' : ServerEnv), s'.opened = true →
      s'.clientAuthToken = (Server.fresh tokenExample).clientAuthToken →
      s'.broker.replicationAuthToken = (Server.fresh tokenExample).broker.replicationAuthToken →
      (s'.serve env'
          { command := 0x40, flags := flagAuthentication, payload := put16 1 ++ [99] }).2
        = ((Server.fresh tokenExample).serve {}
            { command := 0x40, flags := flagAuthentication, payload := put16 1 ++ [99] }).2 :=
  unauthenticated_refused rfl (List.cons_ne_nil _ _) (by decide +kernel) {}

end MqBroker

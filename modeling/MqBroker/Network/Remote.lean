import MqBroker.Client.History
import MqBroker.Network.Exchanges
import Mathlib.Data.List.Forall2

/-!
# Client and Server

A client of the SDK at the other end of a socket. Between the two is a stream in each
direction: the server has read the first bytes of what the client has sent, and the
client has read the first bytes of what the server has written, and nothing else is
known of the network.

`Call` compares nothing but the id of a response. The ids of a client go up, the
handler puts the id of a request into its response, and the server sends over a
socket only what answers a request that came over it. So a response that `Call`
returns is the answer to the very attempt that has received it. It is not an answer to
an attempt before, which the client has given up, and not one to another client.

## Main definitions

* `TcpServer.RespondsTo`: A response answers a request.

## Theorems

* `TcpServer.Sound.responds`: Responses and requests with distinct ids.
* `TcpServer.call_answered`: What a call returns.
-/

namespace MqBroker

namespace TcpServer

variable {σ ε : Type}

/-- A response answers a request that was read from a socket. -/
def RespondsTo (s : TcpServer σ ε) (k : Nat) (request : RawRequest) (response : RawResponse) :
    Prop :=
  ∃ t, s.Answers k t request response

/-- What a system answers in a run, if it answers every input somehow. -/
theorem forall₂_outputs {ι ο : Type} {act : σ → ι → σ × ο} {P : ι → ο → Prop}
    (h : ∀ s i, P i (act s i).2) (s : σ) (is : List ι) :
    List.Forall₂ P is (outputs act s is) := by
  induction is generalizing s with
  | nil => exact .nil
  | cons i is ih => exact .cons (h s i) (ih _)

/-- A frame that was made is found as a whole. -/
theorem nextFrame_encoded {request : RawRequest}
    (h : encodeRequest request = .ok (requestFrame request)) :
    nextFrame (requestFrame request) = .item request [] := by
  obtain ⟨legal, rfl, -⟩ := encodeRequest_ok h
  exact nextFrame_frame legal

variable {s : TcpServer σ ε} {handler : σ → ε → RawRequest → σ × RawResponse}

/-- What holds of all answers of the handler holds of all its runs. -/
theorem InSequence.served {first : σ} {P : RawRequest → RawResponse → Prop}
    (h : s.InSequence handler first)
    (hP : ∀ handlerState env request, P request (handler handlerState env request).2) :
    ∀ run ∈ s.served, P run.request run.response := by
  have hall : List.Forall₂ (fun i o => P (Prod.snd i) o) (s.served.map input)
      (s.served.map Served.response) := by
    rw [← h.responses]
    exact forall₂_outputs (fun handlerState i => hP handlerState i.1 i.2) first _
  rw [List.forall₂_map_left_iff, List.forall₂_map_right_iff, List.forall₂_same] at hall
  exact hall

/-- Of requests with distinct ids that are sent over a socket, a response that was read
    there answers the one with its id. -/
theorem Sound.responds (h : s.Sound none)
    (hkeeps : ∀ run ∈ s.served, run.response.requestId = run.request.requestId) {k : Nat}
    {sent : List RawRequest} {taken : List RawResponse}
    (hsent : ∀ request ∈ sent, encodeRequest request = .ok (requestFrame request))
    (hids : (sent.map RawRequest.requestId).Nodup)
    (htaken : ∀ response ∈ taken, nextResponse (responseFrame response) = .item response [])
    (hto : (s.sockets k).incoming <+: sent.flatMap requestFrame)
    (hfrom : taken.flatMap responseFrame <+: (s.sockets k).outgoing)
    {request : RawRequest} {response : RawResponse} (hrequest : request ∈ sent)
    (hresponse : response ∈ taken) (hid : response.requestId = request.requestId) :
    s.RespondsTo k request response := by
  obtain ⟨c, answers, part, hdrain, -, hanswers⟩ := h.received k
  -- What was taken is a part of the answers.
  have hpart : taken <+: answers.map Prod.snd := by
    obtain ⟨rest, hrest⟩ := hfrom
    have htakenAll := drain_items nextResponse_incremental htaken nextResponse_nil
    rw [List.append_nil] at htakenAll
    rw [← hrest, drain_append nextResponse_incremental, htakenAll] at hdrain
    exact ⟨_, congrArg Prod.fst hdrain⟩
  obtain ⟨answer, hanswer, rfl⟩ := List.mem_map.mp (hpart.subset hresponse)
  obtain ⟨other, hanswers⟩ := hanswers answer hanswer
  have hread : other ∈ sent := by
    obtain ⟨front, left, hprefix, -, hdrained⟩ := drain_prefix nextFrame_incremental
      (fun request hmem => nextFrame_encoded (hsent request hmem)) nextFrame_nil hto
    have hget := hanswers.read
    rw [hdrained] at hget
    exact hprefix.subset (List.mem_of_getElem? hget)
  have hsame : answer.2.requestId = other.requestId := by
    rcases hanswers.said with ⟨run, hrun, hother, hresponse⟩ | ⟨hrefused, -⟩
    · rw [← hresponse, ← hother]
      exact hkeeps run hrun.served
    · rw [hrefused]
      rfl
  obtain rfl : request = other :=
    List.inj_on_of_nodup_map hids hrequest hread (hid.symm.trans hsame)
  exact ⟨⟨c, answer.1⟩, hanswers⟩

/-- What a client takes for the response to a request is the answer to this request. -/
theorem Sound.exchanges (h : s.Sound none)
    (hkeeps : ∀ run ∈ s.served, run.response.requestId = run.request.requestId)
    {c : MqProducer.Impl} (hclient : c.Sound) {k socket : Nat}
    (hto : (s.sockets k).incoming <+: c.sentOn socket)
    (hfrom : c.readOn socket <+: (s.sockets k).outgoing) {x : Exchange} (hx : x ∈ c.on socket)
    {response : RawResponse} (hresponse : x.response = some response) :
    s.RespondsTo k x.request response := by
  have hon : ∀ y ∈ c.on socket, y.Sound := fun y hy => hclient.exchange y (List.mem_of_mem_filter hy)
  have hsent : ∀ request ∈ (c.on socket).map Exchange.request,
      encodeRequest request = .ok (requestFrame request) := by
    intro request hmem
    obtain ⟨y, hy, rfl⟩ := List.mem_map.mp hmem
    exact (hon y hy).framed
  have hdistinct : (((c.on socket).map Exchange.request).map RawRequest.requestId).Nodup := by
    rw [List.map_map, List.nodup_iff_pairwise_ne, List.pairwise_map]
    refine (hclient.ids.sublist List.filter_sublist).imp fun {y z} hless heq => ?_
    simp only [Function.comp_apply] at heq
    rw [heq] at hless
    exact absurd hless (Nat.lt_irrefl _)
  have htaken : ∀ response ∈ (c.on socket).filterMap Exchange.response,
      nextResponse (responseFrame response) = .item response [] := by
    intro response hmem
    obtain ⟨y, hy, hsome⟩ := List.mem_filterMap.mp hmem
    exact ((hon y hy).taken response hsome).2.1
  have hread := hclient.readOn socket
  have hwrote : c.sentOn socket = ((c.on socket).map Exchange.request).flatMap requestFrame := by
    unfold MqProducer.Impl.sentOn
    rw [List.flatMap_map]
  rw [hwrote] at hto
  rw [hread] at hfrom
  exact h.responds hkeeps hsent hdistinct htaken hto hfrom (List.mem_map_of_mem hx)
    (List.mem_filterMap.mpr ⟨x, hx, hresponse⟩) ((hon x hx).taken response hresponse).2.2

/-- What `Call` takes for the response to an attempt is the answer to this attempt, if
    the handler puts the id of a request into its response. -/
theorem call_answered (handler : σ → ε → RawRequest → σ × RawResponse)
    (hkeeps : ∀ handlerState env request,
      (handler handlerState env request).2.requestId = request.requestId)
    (handlerState : σ) (tlsEnabled : Bool) (subCount : Nat) (events : List (NetworkEvent ε))
    (ops : List ClientOp) (hids : (ops.map ClientOp.turns).sum < 2 ^ 64 - 1) (k socket : Nat)
    (hto : ((events.foldl (exec handler) (start handlerState tlsEnabled subCount)).sockets
      k).incoming <+: (ops.foldl MqProducer.Impl.exec {}).sentOn socket)
    (hfrom : (ops.foldl MqProducer.Impl.exec {}).readOn socket <+:
      ((events.foldl (exec handler) (start handlerState tlsEnabled subCount)).sockets k).outgoing) :
    ∀ x ∈ (ops.foldl MqProducer.Impl.exec {}).on socket, ∀ response, x.response = some response →
      (events.foldl (exec handler) (start handlerState tlsEnabled subCount)).RespondsTo k
        x.request response := by
  have h : (events.foldl (exec handler) (start handlerState tlsEnabled subCount)).Sound none :=
    (sound_run handlerState tlsEnabled subCount events).last
  have hrun : (events.foldl (exec handler) (start handlerState tlsEnabled subCount)).InSequence
      handler handlerState := (inSequence_run handlerState tlsEnabled subCount events).last
  have hserved := hrun.served
    (P := fun request response => response.requestId = request.requestId) hkeeps
  intro x hx response hresponse
  exact h.exchanges hserved (MqProducer.Impl.sound_run ops hids) hto hfrom hx hresponse

/-- The client of a `visit`. -/
def visitor : List ClientOp :=
  [.connectHost [97] 1 fun _ => .connected,
    .call { command := .heartbeat }
      [⟨fun _ => .connected, true, responseFrame { status := 0, requestId := 1 }, none⟩]]

/-- The client of a `visit` gets the response of the handler. -/
theorem call_answered_visit :
    (visit.foldl (exec echo) (start 0 false 1)).RespondsTo 0
      { command := Command.heartbeat.code, requestId := 1 } { status := 0, requestId := 1 } :=
  call_answered echo (fun _ _ _ => rfl) 0 false 1 visit visitor (by decide) 0 0 ⟨[], rfl⟩ ⟨[], rfl⟩
    ⟨0, 0, { command := Command.heartbeat.code, requestId := 1 },
      responseFrame { status := 0, requestId := 1 }, some { status := 0, requestId := 1 }⟩
    (List.mem_singleton.mpr rfl) _ rfl

end TcpServer

end MqBroker

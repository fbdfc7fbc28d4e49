import MqBroker.Lib.Bytes

/-!
# Requests and Responses

The messages of the wire protocol as the broker sees them, behind the frame
codec: a command with flags, a topic and a payload, and a status with a
payload in return.

## Main definitions

* `Command`, `Status`: The codes of requests and responses.
* `Request`, `Response`: What the broker is handed and gives back.
* `makeResponse`: A response to a request.
* `take`: Consuming bytes of a payload.
-/

namespace MqBroker

/-- The commands of the protocol. -/
inductive Command
  | createTopic
  | deleteTopic
  | listTopic
  | metrics
  | produce
  | produceBatch
  | syncGroup
  | offsetFetch
  | fetch
  | commitOffset
  | joinGroup
  | heartbeat
  | replicaFetch
  | replicaAppend
  | replicaVote
deriving DecidableEq, Repr

/-- The status of a response. -/
inductive Status
  | ok
  | badRequest
  | unknownTopic
  | topicExists
  | invalidOffset
  | storageError
  | versionMismatch
  | notSupported
  | notLeader
  | rateLimited
  | quotaExceeded
  | resourceExhausted
  | unauthenticated
  | permissionDenied
  | internalError
deriving DecidableEq, Repr

/-- The protocol version a broker speaks. -/
def currentVersion : UInt8 := 1

/-- The largest payload of a frame. -/
def maxPayloadBytes : Nat := 1024 * 1024

/-- The bits of the acknowledgement level. -/
def ackMask : UInt16 := 0x0003

/-- The acknowledgement level that waits for the replicas. -/
def ackAll : UInt16 := 0x0002

/-- The flag of a payload that starts with producer metadata. -/
def flagProducerMetadata : UInt16 := 0x0004

/-- The flag of requests between brokers. -/
def flagReplication : UInt16 := 0x0008

/-- The flag of requests between brokers that carry a term. -/
def flagReplicationTerm : UInt16 := 0x0010

/-- The flag of a payload that starts with a client token. -/
def flagAuthentication : UInt16 := 0x0020

/-- A request. -/
structure Request where
  version : UInt8 := currentVersion
  command : Command := .heartbeat
  requestId : UInt64 := 0
  flags : UInt16 := 0
  topic : Bytes := []
  payload : Bytes := []
deriving DecidableEq, Repr

/-- A response. -/
structure Response where
  version : UInt8 := currentVersion
  status : Status := .ok
  requestId : UInt64 := 0
  flags : UInt16 := 0
  payload : Bytes := []
deriving DecidableEq, Repr

/-- Whether a request carries a flag. -/
def Request.hasFlag (r : Request) (flag : UInt16) : Bool := r.flags &&& flag ≠ 0

/-- Whether a request waits for the replicas. -/
def Request.waitsForAll (r : Request) : Bool := r.flags &&& ackMask = ackAll

/-- `MakeResponse`. -/
def makeResponse (request : Request) (status : Status) (payload : Bytes := []) : Response :=
  { version := currentVersion
    status := status
    requestId := request.requestId
    payload := payload }

/-- `Take`: the position behind `count` more bytes, if they are there. -/
def take (input : Bytes) (position count : Nat) : Option Nat :=
  if position > input.length ∨ count > input.length - position then none
  else some (position + count)

end MqBroker

import DrEvt.Server.Exchanges
import Mathlib.Logic.Function.Basic
import Mathlib.Data.List.Perm.Subperm
import Mathlib.Logic.Relation

/-!
# Clients and Sessions

The server with all of its clients. A client calls the server over a stream of its own: it
numbers its requests, writes one, and waits for the response before it writes the next one. On
the other side of the stream a session reads requests and writes responses. The sessions share
nothing but the counter that makes their identifiers unique. Everything happens in any order,
and a stream may break at any time.

The transport between the two is not part of the program. It is a parameter: what a stream hands
over next, given what was written to it and what was read from it. What the sessions do is right
over any transport. What a client gets to see rests on one property of it, that it neither makes
up a message nor hands one over twice (`Transport.AtMostOnce`). gRPC documents more of its
streams, that messages arrive in order. The program does not need it: at most one message is on
its way, and it belongs to the call that the client is in.

A client checks that the response it reads has the number of its request. That check never
fails, and what a call returns is what the session of that client has answered to that very
request.

## Main definitions

* `Delivery`, `Transport`, `Transport.AtMostOnce`: the transport.
* `Client`, `Stream`, `ServerState`: the parties, and what was written and read between them.
* `Step`: what any of them may do next.
* `Phase`: where a call is.

## Theorems

* `Step.inv`, `Step.ordered`: every step keeps the invariants.
* `calls_answered`: what clients get to see.
* `exchanges_lawful`: what each session does.
* `sessions_share_no_file`: no two simulations write to one file.
-/

namespace DrEvt

namespace Server

/-! ## The transport -/

/-- What one direction of a stream may hand over next, given what was written to it and what was
    read from it before. -/
def Delivery (μ : Type) : Type := (written read : List μ) → μ → Prop

namespace Delivery

variable {μ : Type}

/-- What is handed over was written, and was not handed over before. It may come in any order. -/
def AtMostOnce (d : Delivery μ) : Prop :=
  ∀ written read m, read.Subperm written → d written read m → (read ++ [m]).Subperm written

/-- The first message that was not read. -/
def first : Delivery μ := fun written read m => read ++ [m] <+: written

theorem first_atMostOnce : (first : Delivery μ).AtMostOnce :=
  fun _ _ _ _ hfirst => hfirst.sublist.subperm

/-- When one message at most was not read, it is the one that is handed over. -/
theorem AtMostOnce.inOrder {d : Delivery μ} (h : d.AtMostOnce) {written read : List μ} {m : μ}
    (hread : read <+: written) (hone : (written.drop read.length).length ≤ 1)
    (hd : d written read m) : read ++ [m] <+: written := by
  have hsub := h written read m hread.sublist.subperm hd
  rcases hread with ⟨unread, rfl⟩
  rw [List.drop_left] at hone
  have hmem : m ∈ unread :=
    (List.subperm_append_left read |>.1 hsub).subset (List.mem_singleton_self m)
  rcases List.length_eq_one_iff.1 (le_antisymm hone (List.length_pos_of_mem hmem)) with ⟨m', rfl⟩
  rw [List.mem_singleton.1 hmem]

end Delivery

/-- The transport of both directions. -/
structure Transport where
  request : Delivery ClientMessage
  response : Delivery ServerMessage

/-- No message is made up or repeated in either direction. -/
structure Transport.AtMostOnce (transport : Transport) : Prop where
  request : transport.request.AtMostOnce
  response : transport.response.AtMostOnce

/-- A transport that hands over the messages in order. -/
def Transport.reliable : Transport := ⟨.first, .first⟩

theorem Transport.reliable_atMostOnce : Transport.reliable.AtMostOnce :=
  ⟨Delivery.first_atMostOnce, Delivery.first_atMostOnce⟩

/-! ## The parties -/

/-- How a call of a client ends. -/
inductive CallResult
  | returned (response : ServerMessage)
  /-- "Server error: " and the message -/
  | serverError (response : ServerMessage)
  /-- "Response request_id mismatch" -/
  | mismatch (got expected : Nat)
  /-- A request could not be written, or a response could not be read. -/
  | streamClosed
deriving DecidableEq

/-- `SimulationClient`, with the calls that have ended. -/
structure Client where
  nextRequestId : Nat
  calling : Option ClientMessage
  finished : List (ClientMessage × CallResult)

/-- A stream with both of its ends: what was written to it and read from it, and in `handled` what
    the session has done. -/
structure Stream (σ : Type) where
  client : Client
  requestsWritten : List ClientMessage
  requestsRead : List ClientMessage
  responsesWritten : List ServerMessage
  responsesRead : List ServerMessage
  session : Session σ
  /-- The loop of the session is running. -/
  serving : Bool
  broken : Bool
  handled : List Exchange

/-- A new stream. -/
def Stream.fresh {σ : Type} : Stream σ :=
  { client := { nextRequestId := 1, calling := none, finished := [] }
    requestsWritten := [], requestsRead := [], responsesWritten := [], responsesRead := []
    session := .fresh, serving := true, broken := false, handled := [] }

/-- The server and its clients. The value of `next_session_sequence` is the number of values that
    were taken, modulo `2 ^ 64`. -/
structure ServerState (σ : Type) where
  issued : Nat
  streams : Nat → Stream σ

/-- Before the first request. -/
def ServerState.init {σ : Type} : ServerState σ := { issued := 0, streams := fun _ => .fresh }

/-! ## Steps -/

/-- The number of values of a 64-bit counter. -/
def counterModulus : Nat := 2 ^ 64

/-- The request that a client would send next. -/
def Client.message (c : Client) (request : ClientRequest) : ClientMessage :=
  { requestId := c.nextRequestId, request := request }

/-- The check of a response. -/
def Client.check (message : ClientMessage) (response : ServerMessage) : CallResult :=
  if response.requestId ≠ message.requestId then
    .mismatch response.requestId message.requestId
  else match response.response with
    | .error _ => .serverError response
    | _ => .returned response

namespace Stream

variable {σ : Type}

/-- The requests that were not read yet. -/
def requests (s : Stream σ) : List ClientMessage := s.requestsWritten.drop s.requestsRead.length

/-- The responses that were not read yet. -/
def responses (s : Stream σ) : List ServerMessage :=
  s.responsesWritten.drop s.responsesRead.length

/-- A call begins: its request is written. -/
def call (s : Stream σ) (request : ClientRequest) : Stream σ :=
  { s with
    client := { s.client with
      nextRequestId := (s.client.nextRequestId + 1) % counterModulus
      calling := some (s.client.message request) }
    requestsWritten := s.requestsWritten ++ [s.client.message request] }

/-- A call that cannot write its request. -/
def callFails (s : Stream σ) (request : ClientRequest) : Stream σ :=
  { s with
    client := { s.client with
      nextRequestId := (s.client.nextRequestId + 1) % counterModulus
      finished := s.client.finished ++ [(s.client.message request, .streamClosed)] } }

/-- A call ends, when the client has read these responses. -/
def ended (s : Stream σ) (message : ClientMessage) (result : CallResult)
    (responses : List ServerMessage) : Stream σ :=
  { s with
    client := { s.client with
      calling := none, finished := s.client.finished ++ [(message, result)] }
    responsesRead := s.responsesRead ++ responses }

/-- The session handles a request. When it cannot write the response, its loop ends. -/
def handle (build : BuildOptions) (backend : Backend σ) (s : Stream σ) (input : Input)
    (written : Bool) : Stream σ :=
  let handled := s.session.exchange build backend input
  { s with
    requestsRead := s.requestsRead ++ [input.message]
    responsesWritten :=
      if written then s.responsesWritten ++ [handled.2.response] else s.responsesWritten
    session := handled.1
    serving := written
    handled := s.handled ++ [handled.2] }

end Stream

/-- Another state of one stream. -/
def ServerState.update {σ : Type} (st : ServerState σ) (k : Nat) (s : Stream σ) : ServerState σ :=
  { st with streams := Function.update st.streams k s }

/-- What may happen next, over a transport. -/
inductive Step {σ : Type} (transport : Transport) (build : BuildOptions) (backend : Backend σ) :
    ServerState σ → ServerState σ → Prop
  /-- A client calls the server. -/
  | call {st : ServerState σ} (k : Nat) (request : ClientRequest)
      (idle : (st.streams k).client.calling = none) (sound : (st.streams k).broken = false) :
      Step transport build backend st (st.update k ((st.streams k).call request))
  /-- A client calls the server over a broken stream. -/
  | callFails {st : ServerState σ} (k : Nat) (request : ClientRequest)
      (idle : (st.streams k).client.calling = none) (broken : (st.streams k).broken = true) :
      Step transport build backend st (st.update k ((st.streams k).callFails request))
  /-- A session handles the next request. -/
  | handle {st : ServerState σ} (k : Nat) (message : ClientMessage) (readings : Readings)
      (written : Bool) (serving : (st.streams k).serving = true)
      (next : transport.request (st.streams k).requestsWritten (st.streams k).requestsRead
        message) :
      Step transport build backend st
        { st.update k ((st.streams k).handle build backend
            ⟨message, readings, st.issued % counterModulus⟩ written) with
          issued := st.issued + if (st.streams k).session.draws message then 1 else 0 }
  /-- A client reads the response that it waits for. -/
  | receive {st : ServerState σ} (k : Nat) (message : ClientMessage) (response : ServerMessage)
      (calling : (st.streams k).client.calling = some message)
      (next : transport.response (st.streams k).responsesWritten (st.streams k).responsesRead
        response) :
      Step transport build backend st
        (st.update k
          ((st.streams k).ended message (Client.check message response) [response]))
  /-- A client cannot read the response that it waits for. -/
  | readFails {st : ServerState σ} (k : Nat) (message : ClientMessage)
      (calling : (st.streams k).client.calling = some message)
      (broken : (st.streams k).broken = true) :
      Step transport build backend st
        (st.update k ((st.streams k).ended message .streamClosed []))
  /-- A stream breaks. -/
  | break {st : ServerState σ} (k : Nat) :
      Step transport build backend st (st.update k { st.streams k with broken := true })

/-- The states that the server can get into over a transport. -/
def Reachable {σ : Type} (transport : Transport) (build : BuildOptions) (backend : Backend σ)
    (st : ServerState σ) : Prop :=
  Relation.ReflTransGen (Step transport build backend) .init st

/-! ## Where a call is -/

/-- The response that a call has got. -/
def CallResult.response : CallResult → Option ServerMessage
  | returned response => some response
  | serverError response => some response
  | _ => none

/-- The calls that got a response. -/
def answered (calls : List (ClientMessage × CallResult)) : List (ClientMessage × ServerMessage) :=
  calls.filterMap fun call => call.2.response.map fun response => (call.1, response)

/-- The requests and responses of a session. -/
def pairs (handled : List Exchange) : List (ClientMessage × ServerMessage) :=
  handled.map fun e => (e.message, e.response)

/-- Where the call of a client is. -/
inductive Phase {σ : Type} (s : Stream σ) : Prop
  /-- No call. -/
  | idle (calling : s.client.calling = none) (requests : s.requests = [])
      (responses : s.responses = []) (seen : pairs s.handled = answered s.client.finished)
  /-- The request was written. -/
  | asked (message : ClientMessage) (calling : s.client.calling = some message)
      (requests : s.requests = [message]) (responses : s.responses = [])
      (seen : pairs s.handled = answered s.client.finished)
  /-- The response was written. -/
  | replied (message : ClientMessage) (response : ServerMessage)
      (calling : s.client.calling = some message) (requests : s.requests = [])
      (responses : s.responses = [response]) (correlated : response.requestId = message.requestId)
      (seen : pairs s.handled = answered s.client.finished ++ [(message, response)])
  /-- The response could not be written. -/
  | lost (message : ClientMessage) (response : ServerMessage)
      (calling : s.client.calling = some message) (requests : s.requests = [])
      (responses : s.responses = [])
      (seen : pairs s.handled = answered s.client.finished ++ [(message, response)])
  /-- A call has failed, and the stream is not used any more. -/
  | dead (broken : s.broken = true) (calling : s.client.calling = none)
      (seen : answered s.client.finished <+: pairs s.handled)
      (size : (pairs s.handled).length + s.requests.length ≤
        (answered s.client.finished).length + 1)
      (room : s.requests.length + s.responses.length ≤ 1)

/-- The invariant of a stream over any transport. -/
structure Stream.Inv {σ : Type} (s : Stream σ) : Prop where
  tracks : Tracks s.session s.handled
  lawful : Labelled.Along Lawful s.handled

/-- The invariant of a stream over a transport that makes up and repeats nothing. What was read is
    then what was written first. -/
structure Stream.Ordered {σ : Type} (s : Stream σ) : Prop where
  requests : s.requestsRead <+: s.requestsWritten
  responses : s.responsesRead <+: s.responsesWritten
  phase : Phase s
  matched : ∀ call ∈ s.client.finished, ∀ got expected, call.2 ≠ .mismatch got expected

section

variable {σ : Type} {transport : Transport} {build : BuildOptions} {backend : Backend σ}

/-- What was not read yet begins with what is read next. -/
theorem drop_of_prefix {μ : Type} {written read : List μ} {m : μ}
    (h : read ++ [m] <+: written) :
    written.drop read.length = m :: written.drop (read ++ [m]).length := by
  rcases h with ⟨rest, rfl⟩
  rw [List.drop_left, List.append_assoc, List.drop_left]
  rfl

/-- One more message is written. -/
theorem drop_append_of_prefix {μ : Type} {written read : List μ} (h : read <+: written)
    (more : List μ) : (written ++ more).drop read.length = written.drop read.length ++ more :=
  List.drop_append_of_le_length h.length_le

theorem answered_append (calls calls' : List (ClientMessage × CallResult)) :
    answered (calls ++ calls') = answered calls ++ answered calls' :=
  List.filterMap_append

theorem answered_closed (calls : List (ClientMessage × CallResult)) (message : ClientMessage) :
    answered (calls ++ [(message, .streamClosed)]) = answered calls := by
  rw [answered_append]
  exact List.append_nil _

/-- A response with the number of the request passes the check. -/
theorem check_response {message : ClientMessage} {response : ServerMessage}
    (h : response.requestId = message.requestId) :
    (Client.check message response).response = some response ∧
      ∀ got expected, Client.check message response ≠ .mismatch got expected := by
  unfold Client.check
  rw [if_neg (not_not.2 h)]
  cases response.response with
  | error message => exact ⟨rfl, fun _ _ h => by cases h⟩
  | init report => exact ⟨rfl, fun _ _ h => by cases h⟩
  | simulation response => exact ⟨rfl, fun _ _ h => by cases h⟩
  | finishSimulation report statistics => exact ⟨rfl, fun _ _ h => by cases h⟩

theorem inv_fresh : (Stream.fresh : Stream σ).Inv := ⟨tracks_fresh, .nil⟩

theorem ordered_fresh : (Stream.fresh : Stream σ).Ordered where
  requests := List.prefix_rfl
  responses := List.prefix_rfl
  phase := .idle rfl rfl rfl rfl
  matched := by
    intro call hcall
    cases hcall

/-! ## The steps -/

theorem Stream.Inv.handle {s : Stream σ} (h : s.Inv) (input : Input) (written : Bool) :
    (s.handle build backend input written).Inv := by
  rcases h.tracks.exchange build backend input with ⟨hlawful, htracks⟩
  exact ⟨htracks, h.lawful.append_one hlawful⟩

theorem Stream.Ordered.call {s : Stream σ} (h : s.Ordered) (request : ClientRequest)
    (idle : s.client.calling = none) (sound : s.broken = false) : (s.call request).Ordered := by
  refine ⟨h.requests.trans (List.prefix_append _ _), h.responses, ?_, h.matched⟩
  have hrequests : (s.call request).requests = s.requests ++ [s.client.message request] :=
    drop_append_of_prefix h.requests _
  cases h.phase with
  | idle _ requests responses seen =>
      refine .asked (s.client.message request) rfl ?_ responses seen
      rw [hrequests, requests, List.nil_append]
  | asked _ calling => rw [idle] at calling; cases calling
  | replied _ _ calling => rw [idle] at calling; cases calling
  | lost _ _ calling => rw [idle] at calling; cases calling
  | dead broken => rw [sound] at broken; cases broken

/-- A call that fails changes nothing that was answered. -/
theorem matched_append {calls : List (ClientMessage × CallResult)} {message : ClientMessage}
    {result : CallResult}
    (h : ∀ call ∈ calls, ∀ got expected, call.2 ≠ .mismatch got expected)
    (hresult : ∀ got expected, result ≠ .mismatch got expected) :
    ∀ call ∈ calls ++ [(message, result)], ∀ got expected, call.2 ≠ .mismatch got expected := by
  intro call hcall
  rcases List.mem_append.1 hcall with hcall | hcall
  · exact h call hcall
  · rw [List.mem_singleton.1 hcall]
    exact hresult

theorem Stream.Ordered.callFails {s : Stream σ} (h : s.Ordered) (request : ClientRequest)
    (idle : s.client.calling = none) : (s.callFails request).Ordered := by
  refine ⟨h.requests, h.responses, ?_, matched_append h.matched (by simp)⟩
  have hanswered : answered (s.callFails request).client.finished = answered s.client.finished :=
    answered_closed _ _
  cases h.phase with
  | idle calling requests responses seen =>
      exact .idle calling requests responses (by rw [hanswered]; exact seen)
  | asked _ calling => rw [idle] at calling; cases calling
  | replied _ _ calling => rw [idle] at calling; cases calling
  | lost _ _ calling => rw [idle] at calling; cases calling
  | dead broken calling seen size room =>
      exact .dead broken calling (by rw [hanswered]; exact seen) (by rw [hanswered]; exact size)
        room

/-- The request that is read next is the one that was written next. -/
theorem Stream.Ordered.handle {s : Stream σ} (h : s.Ordered) (hinv : s.Inv) (input : Input)
    (next : s.requestsRead ++ [input.message] <+: s.requestsWritten) (written : Bool) :
    (s.handle build backend input written).Ordered := by
  rcases hinv.tracks.exchange build backend input with ⟨hlawful, _⟩
  have hmessage : (s.session.exchange build backend input).2.message = input.message := rfl
  have hrequests : s.requests =
      input.message :: (s.handle build backend input written).requests := drop_of_prefix next
  have hresponses : (s.handle build backend input written).responses =
      if written then s.responses ++ [(s.session.exchange build backend input).2.response]
      else s.responses := by
    cases written with
    | true => exact drop_append_of_prefix h.responses _
    | false => rfl
  have hpairs : pairs (s.handle build backend input written).handled =
      pairs s.handled ++
        [(input.message, (s.session.exchange build backend input).2.response)] := by
    show pairs (s.handled ++ [_]) = _
    rw [pairs, List.map_append, List.map_singleton]
    rfl
  refine ⟨next, ?_, ?_, h.matched⟩
  · cases written with
    | true => exact h.responses.trans (List.prefix_append _ _)
    | false => exact h.responses
  cases h.phase with
  | idle _ requests => rw [requests] at hrequests; cases hrequests
  | replied _ _ _ requests => rw [requests] at hrequests; cases hrequests
  | lost _ _ _ requests => rw [requests] at hrequests; cases hrequests
  | asked message calling requests responses seen =>
      rw [requests, List.cons.injEq] at hrequests
      rcases hrequests with ⟨rfl, hnone⟩
      rw [responses, List.nil_append] at hresponses
      rw [seen] at hpairs
      cases written with
      | true =>
          refine .replied input.message _ calling hnone.symm hresponses ?_ hpairs
          rw [hlawful.correlated, hmessage]
      | false => exact .lost input.message _ calling hnone.symm hresponses hpairs
  | dead broken calling seen size room =>
      -- a session may still handle the request of a call that has failed
      have hlen : s.requests.length =
          (s.handle build backend input written).requests.length + 1 := by
        rw [hrequests, List.length_cons]
      refine .dead broken calling ?_ ?_ ?_
      · rw [hpairs]
        exact seen.trans (List.prefix_append _ _)
      · rw [hpairs, List.length_append, List.length_singleton]
        show _ ≤ (answered s.client.finished).length + 1
        omega
      · rw [hresponses]
        split
        · rw [List.length_append, List.length_singleton]
          omega
        · omega

theorem Stream.Ordered.receive {s : Stream σ} (h : s.Ordered) {message : ClientMessage}
    {response : ServerMessage} (calling : s.client.calling = some message)
    (next : s.responsesRead ++ [response] <+: s.responsesWritten) :
    (s.ended message (Client.check message response) [response]).Ordered := by
  have hresponses : s.responses =
      response :: (s.ended message (Client.check message response) [response]).responses :=
    drop_of_prefix next
  cases h.phase with
  | idle idle => rw [idle] at calling; cases calling
  | asked _ _ _ responses => rw [responses] at hresponses; cases hresponses
  | lost _ _ _ _ responses => rw [responses] at hresponses; cases hresponses
  | dead _ idle => rw [idle] at calling; cases calling
  | replied message' response' calling' requests responses correlated seen =>
      rw [calling', Option.some.injEq] at calling
      rw [responses, List.cons.injEq] at hresponses
      rcases hresponses with ⟨rfl, hnone⟩
      subst calling
      -- the response has the number of the request, so it is what the call returns
      rcases check_response correlated with ⟨hresponse, hmatched⟩
      refine ⟨h.requests, next, .idle rfl requests hnone.symm ?_,
        matched_append h.matched hmatched⟩
      refine seen.trans ?_
      show _ = answered (s.client.finished ++ [(message', Client.check message' response')])
      have hlast : answered [(message', Client.check message' response')] =
          [(message', response')] := by
        simp [answered, hresponse]
      rw [answered_append, hlast]

theorem Stream.Ordered.readFails {s : Stream σ} (h : s.Ordered) {message : ClientMessage}
    (calling : s.client.calling = some message) (broken : s.broken = true) :
    (s.ended message .streamClosed []).Ordered := by
  have hread : (s.ended message .streamClosed []).responsesRead = s.responsesRead :=
    List.append_nil _
  have hresponses : (s.ended message .streamClosed []).responses = s.responses := by
    unfold Stream.responses
    rw [hread]
    rfl
  refine ⟨h.requests, by rw [hread]; exact h.responses, ?_, matched_append h.matched (by simp)⟩
  have hanswered : answered (s.ended message .streamClosed []).client.finished =
      answered s.client.finished := answered_closed _ _
  -- at most one answer is missing, and the request or its response may still be on its way
  have hdead : ∀ missing, pairs s.handled = answered s.client.finished ++ missing →
      missing.length + s.requests.length ≤ 1 → s.requests.length + s.responses.length ≤ 1 →
      Phase (s.ended message .streamClosed []) := by
    intro missing seen size room
    refine .dead broken rfl ?_ ?_ (by rw [hresponses]; exact room)
    · rw [hanswered]
      show _ <+: pairs s.handled
      rw [seen]
      exact List.prefix_append _ _
    · rw [hanswered]
      show (pairs s.handled).length + s.requests.length ≤ _
      rw [seen, List.length_append]
      omega
  cases h.phase with
  | idle idle => rw [idle] at calling; cases calling
  | dead _ idle => rw [idle] at calling; cases calling
  | asked _ _ requests responses seen =>
      refine hdead [] ?_ (by simp [requests]) (by simp [requests, responses])
      rw [seen, List.append_nil]
  | replied _ _ _ requests responses _ seen =>
      exact hdead _ seen (by simp [requests]) (by simp [requests, responses])
  | lost _ _ _ requests responses seen =>
      exact hdead _ seen (by simp [requests]) (by simp [requests, responses])

theorem Stream.Ordered.break {s : Stream σ} (h : s.Ordered) :
    Stream.Ordered { s with broken := true } := by
  refine ⟨h.requests, h.responses, ?_, h.matched⟩
  cases h.phase with
  | idle calling requests responses seen => exact .idle calling requests responses seen
  | asked message calling requests responses seen =>
      exact .asked message calling requests responses seen
  | replied message response calling requests responses correlated seen =>
      exact .replied message response calling requests responses correlated seen
  | lost message response calling requests responses seen =>
      exact .lost message response calling requests responses seen
  | dead _ calling seen size room => exact .dead rfl calling seen size room

/-- A change of one stream. -/
theorem forall_update {P : Stream σ → Prop} {st : ServerState σ} (h : ∀ k, P (st.streams k))
    {k : Nat} {s : Stream σ} (hs : P s) : ∀ k', P ((st.update k s).streams k') := by
  intro k'
  show P (Function.update st.streams k s k')
  by_cases hk : k' = k
  · rw [hk, Function.update_self]
    exact hs
  · rw [Function.update_of_ne hk]
    exact h k'

/-- Every step keeps what the sessions do, whatever the transport hands over. -/
theorem Step.inv {st st' : ServerState σ} (hstep : Step transport build backend st st')
    (h : ∀ k, (st.streams k).Inv) : ∀ k, (st'.streams k).Inv := by
  cases hstep with
  | call k request => exact forall_update h ⟨(h k).tracks, (h k).lawful⟩
  | callFails k request => exact forall_update h ⟨(h k).tracks, (h k).lawful⟩
  | handle k message readings written =>
      exact forall_update h ((h k).handle ⟨message, readings, _⟩ written)
  | receive k message response => exact forall_update h ⟨(h k).tracks, (h k).lawful⟩
  | readFails k message => exact forall_update h ⟨(h k).tracks, (h k).lawful⟩
  | «break» k => exact forall_update h ⟨(h k).tracks, (h k).lawful⟩

theorem Reachable.inv {st : ServerState σ} (h : Reachable transport build backend st) :
    ∀ k, (st.streams k).Inv := by
  induction h with
  | refl => exact fun _ => inv_fresh
  | tail _ hstep ih => exact hstep.inv ih

/-- At most one message is on its way. -/
theorem Stream.Ordered.room {s : Stream σ} (h : s.Ordered) :
    s.requests.length + s.responses.length ≤ 1 := by
  cases h.phase with
  | idle _ requests responses => simp [requests, responses]
  | asked _ _ requests responses => simp [requests, responses]
  | replied _ _ _ requests responses => simp [requests, responses]
  | lost _ _ _ requests responses => simp [requests, responses]
  | dead _ _ _ _ room => exact room

/-- Every step keeps the order, since the transport has no two messages to choose from. -/
theorem Step.ordered (honce : transport.AtMostOnce) {st st' : ServerState σ}
    (hstep : Step transport build backend st st') (hinv : ∀ k, (st.streams k).Inv)
    (h : ∀ k, (st.streams k).Ordered) : ∀ k, (st'.streams k).Ordered := by
  cases hstep with
  | call k request idle sound => exact forall_update h ((h k).call request idle sound)
  | callFails k request idle _ => exact forall_update h ((h k).callFails request idle)
  | handle k message readings written _ next =>
      exact forall_update h ((h k).handle (hinv k) ⟨message, readings, _⟩
        (honce.request.inOrder (h k).requests (by
          have hroom := (h k).room
          exact le_trans (Nat.le_add_right _ _) hroom) next) written)
  | receive k message response calling next =>
      exact forall_update h ((h k).receive calling
        (honce.response.inOrder (h k).responses (by
          have hroom := (h k).room
          exact le_trans (Nat.le_add_left _ _) hroom) next))
  | readFails k message calling broken => exact forall_update h ((h k).readFails calling broken)
  | «break» k => exact forall_update h (h k).break

theorem Reachable.ordered (honce : transport.AtMostOnce) {st : ServerState σ}
    (h : Reachable transport build backend st) : ∀ k, (st.streams k).Ordered := by
  induction h with
  | refl => exact fun _ => ordered_fresh
  | tail hprefix hstep ih => exact hstep.ordered honce (Reachable.inv hprefix) ih

/-- A client calls the server, and the session handles the request. -/
def ServerState.served (build : BuildOptions) (backend : Backend σ) (st : ServerState σ) (k : Nat)
    (request : ClientRequest) (readings : Readings) : ServerState σ :=
  let message := (st.streams k).client.message request
  let called := st.update k ((st.streams k).call request)
  { called.update k ((called.streams k).handle build backend
      ⟨message, readings, called.issued % counterModulus⟩ true) with
    issued := called.issued + if (called.streams k).session.draws message then 1 else 0 }

/-- What the session answers to a request of a client. -/
def ServerState.answer (build : BuildOptions) (backend : Backend σ) (st : ServerState σ) (k : Nat)
    (request : ClientRequest) (readings : Readings) : ServerMessage :=
  ((st.streams k).session.exchange build backend
    ⟨(st.streams k).client.message request, readings, st.issued % counterModulus⟩).2.response

/-- A client calls the server, and gets its answer. -/
def ServerState.exchanged (build : BuildOptions) (backend : Backend σ) (st : ServerState σ)
    (k : Nat) (request : ClientRequest) (readings : Readings) : ServerState σ :=
  let message := (st.streams k).client.message request
  let response := st.answer build backend k request readings
  let served := st.served build backend k request readings
  served.update k
    ((served.streams k).ended message (Client.check message response) [response])

theorem ServerState.served_self (st : ServerState σ) (k : Nat) (request : ClientRequest)
    (readings : Readings) :
    (st.served build backend k request readings).streams k =
      ((st.streams k).call request).handle build backend
        ⟨(st.streams k).client.message request, readings, st.issued % counterModulus⟩ true := by
  have hself : (st.update k ((st.streams k).call request)).streams k =
      (st.streams k).call request := Function.update_self _ _ _
  refine (Function.update_self k _ _).trans ?_
  rw [hself]
  rfl

theorem ServerState.exchanged_self (st : ServerState σ) (k : Nat) (request : ClientRequest)
    (readings : Readings) :
    (st.exchanged build backend k request readings).streams k =
      ((st.served build backend k request readings).streams k).ended
        ((st.streams k).client.message request)
        (Client.check ((st.streams k).client.message request)
          (st.answer build backend k request readings))
        [st.answer build backend k request readings] :=
  Function.update_self _ _ _

/-- A stream that a call can be made on. -/
structure Stream.Ready (s : Stream σ) : Prop where
  idle : s.client.calling = none
  sound : s.broken = false
  serving : s.serving = true
  requests : s.requestsRead = s.requestsWritten
  responses : s.responsesRead = s.responsesWritten

theorem ready_fresh : (Stream.fresh : Stream σ).Ready := ⟨rfl, rfl, rfl, rfl, rfl⟩

theorem Reachable.served {st : ServerState σ} (h : Reachable .reliable build backend st) {k : Nat}
    (hready : (st.streams k).Ready) (request : ClientRequest) (readings : Readings) :
    Reachable .reliable build backend (st.served build backend k request readings) := by
  have hself : (st.update k ((st.streams k).call request)).streams k =
      (st.streams k).call request := Function.update_self _ _ _
  have hcalled := h.tail (.call k request hready.idle hready.sound)
  refine hcalled.tail (.handle k _ readings true ?_ ?_)
  · rw [hself]
    exact hready.serving
  · rw [hself]
    show (st.streams k).requestsRead ++ [_] <+: (st.streams k).requestsWritten ++ [_]
    rw [hready.requests]

theorem Reachable.exchanged {st : ServerState σ} (h : Reachable .reliable build backend st)
    {k : Nat} (hready : (st.streams k).Ready) (request : ClientRequest) (readings : Readings) :
    Reachable .reliable build backend (st.exchanged build backend k request readings) := by
  refine (h.served hready request readings).tail (.receive k _ _ ?_ ?_)
  · rw [ServerState.served_self]
    rfl
  · rw [ServerState.served_self]
    show (st.streams k).responsesRead ++ [_] <+: (st.streams k).responsesWritten ++ [_]
    rw [hready.responses]
    exact List.prefix_rfl

/-- After the answer the next call can be made. -/
theorem Stream.Ready.exchanged (build : BuildOptions) (backend : Backend σ) {st : ServerState σ}
    {k : Nat} (hready : (st.streams k).Ready) (request : ClientRequest) (readings : Readings) :
    ((st.exchanged build backend k request readings).streams k).Ready := by
  rw [ServerState.exchanged_self, ServerState.served_self]
  refine ⟨rfl, hready.sound, rfl, ?_, ?_⟩
  · show (st.streams k).requestsRead ++ [_] = (st.streams k).requestsWritten ++ [_]
    rw [hready.requests]
  · show (st.streams k).responsesRead ++ [_] = (st.streams k).responsesWritten ++ [_]
    rw [hready.responses]
    rfl

/-- A call of another client leaves the stream alone. -/
theorem ServerState.served_other (st : ServerState σ) {k k' : Nat} (hne : k' ≠ k)
    (request : ClientRequest) (readings : Readings) :
    (st.served build backend k request readings).streams k' = st.streams k' := by
  show Function.update (Function.update st.streams k _) k _ k' = _
  rw [Function.update_of_ne hne, Function.update_of_ne hne]

/-- What clients get to see over a transport that makes up and repeats nothing. The check of a
    response never fails; the calls that got a response got, in order, what the session has
    answered to them, of which at most the last answer is missing; and at most one message is on
    its way. -/
theorem calls_answered (honce : transport.AtMostOnce) {st : ServerState σ}
    (h : Reachable transport build backend st) (k : Nat) :
    (∀ call ∈ (st.streams k).client.finished, ∀ got expected,
        call.2 ≠ .mismatch got expected) ∧
      answered (st.streams k).client.finished <+: pairs (st.streams k).handled ∧
      (st.streams k).handled.length ≤ (answered (st.streams k).client.finished).length + 1 ∧
      (st.streams k).requests.length + (st.streams k).responses.length ≤ 1 := by
  have hordered := h.ordered honce k
  generalize st.streams k = s at hordered
  have hlen : (pairs s.handled).length = s.handled.length := List.length_map _
  suffices answered s.client.finished <+: pairs s.handled ∧
      s.handled.length ≤ (answered s.client.finished).length + 1 from
    ⟨hordered.matched, this.1, this.2, hordered.room⟩
  cases hordered.phase with
  | idle _ _ _ seen =>
      refine ⟨seen ▸ List.prefix_rfl, ?_⟩
      rw [← hlen, seen]
      omega
  | asked _ _ _ _ seen =>
      refine ⟨seen ▸ List.prefix_rfl, ?_⟩
      rw [← hlen, seen]
      omega
  | replied _ _ _ _ _ _ seen =>
      refine ⟨seen ▸ List.prefix_append _ _, ?_⟩
      rw [← hlen, seen, List.length_append, List.length_singleton]
  | lost _ _ _ _ _ seen =>
      refine ⟨seen ▸ List.prefix_append _ _, ?_⟩
      rw [← hlen, seen, List.length_append, List.length_singleton]
  | dead _ _ seen size =>
      refine ⟨seen, ?_⟩
      omega

/-- A client has opened a simulation and got the answer, and the answer to its next request is on
    its way. -/
theorem calls_answered_opening :
    let build : BuildOptions := { redis := false, ser20 := false }
    let st := (ServerState.init.exchanged build .inert 0 (.init (.plain ['a'] 4)) ⟨0, 0⟩).served
      build .inert 0 (.simulation .getCurrentTime) ⟨0, 0⟩
    let s := st.streams 0
    (s.client.finished.map fun call => call.1.requestId) = [1] ∧
      (answered s.client.finished).length = 1 ∧ s.handled.length = 2 ∧
      (∀ call ∈ s.client.finished, ∀ got expected, call.2 ≠ .mismatch got expected) ∧
      answered s.client.finished <+: pairs s.handled ∧
      s.handled.length ≤ (answered s.client.finished).length + 1 ∧
      s.requests.length + s.responses.length ≤ 1 := by
  intro build st s
  have hready : (ServerState.init.streams 0 : Stream Unit).Ready := ready_fresh
  have hreachable : Reachable .reliable build .inert st :=
    (Reachable.exchanged .refl hready _ _).served (hready.exchanged build .inert _ _) _ _
  exact ⟨by decide +kernel, by decide +kernel, by decide +kernel,
    calls_answered Transport.reliable_atMostOnce hreachable 0⟩

/-- What the sessions do, whatever happens in between. -/
theorem exchanges_lawful {st : ServerState σ} (h : Reachable transport build backend st)
    (k : Nat) : Labelled.Along Lawful (st.streams k).handled :=
  (h.inv k).lawful

/-- Two clients open a simulation each. The second one tries to open another one, asks for the
    time, and closes its simulation. -/
theorem exchanges_lawful_twoSessions :
    let build : BuildOptions := { redis := false, ser20 := false }
    let opening : ClientRequest := .init (.plain ['a'] 4)
    let first := ServerState.init.served build .inert 0 opening ⟨0, 0⟩
    let opened := first.exchanged build .inert 1 opening ⟨0, 0⟩
    let refused := opened.exchanged build .inert 1 opening ⟨0, 0⟩
    let asked := refused.exchanged build .inert 1 (.simulation .getCurrentTime) ⟨0, 0⟩
    let st := asked.exchanged build .inert 1 .finishSimulation ⟨0, 0⟩
    (st.streams 1).handled.length = 4 ∧
      ((st.streams 1).handled.map fun e => decide (e.response.response =
        .error Session.alreadyInitialized)) = [false, true, false, false] ∧
      (answered (st.streams 1).client.finished).length = 4 ∧
      Labelled.Along Lawful (st.streams 1).handled := by
  intro build opening first opened refused asked st
  have hready : (first.streams 1).Ready := by
    rw [ServerState.served_other _ (by decide)]
    exact ready_fresh
  have hready₁ := hready.exchanged build .inert opening ⟨0, 0⟩
  have hready₂ := hready₁.exchanged build .inert opening ⟨0, 0⟩
  have hready₃ := hready₂.exchanged build .inert
    (.simulation .getCurrentTime) ⟨0, 0⟩
  have hfirst : Reachable .reliable build .inert first :=
    Reachable.served .refl ready_fresh _ _
  have hreachable : Reachable .reliable build .inert st :=
    (((hfirst.exchanged hready _ _).exchanged hready₁ _ _).exchanged hready₂ _ _).exchanged
      hready₃ _ _
  exact ⟨by decide +kernel, by decide +kernel, by decide +kernel, exchanges_lawful hreachable 1⟩

/-! ## Identifiers -/

/-- The exchange opens a simulation. -/
def Exchange.Opens (e : Exchange) (report : SessionReport) : Prop :=
  e.response.response = .init report

/-- A simulation is opened under an identifier that was made for it. -/
theorem Tracks.draws {s : Session σ} {l : List Exchange} (h : Tracks s l) {input : Input}
    {report : SessionReport} (hopens : (s.exchange build backend input).2.Opens report) :
    s.draws input.message = true := by
  rcases (h.exchange build backend input).1.opens report hopens
    with ⟨hclosed, r, hrequest, hsafe, _⟩
  have hmessage : input.message.request = .init r := hrequest
  have hsim := h.closed_iff.2 hclosed
  simp only [Session.draws, hmessage, hsim, hsafe, Option.isNone_none, Bool.and_self]

/-- Exchange `i` of stream `k`. -/
def ServerState.At (st : ServerState σ) (k i : Nat) (e : Exchange) : Prop :=
  (st.streams k).handled[i]? = some e

/-- The simulations that were opened took different values of the counter. -/
structure Numbered (st : ServerState σ) : Prop where
  issued : ∀ k i e report, st.At k i e → e.Opens report → e.sequence < st.issued
  distinct : ∀ k i e report k' i' e' report', st.At k i e → st.At k' i' e' → e.Opens report →
    e'.Opens report' → e.sequence = e'.sequence → k = k' ∧ i = i'

/-- What a step adds to the exchanges: nothing, or one exchange of one stream. -/
theorem Step.history {st st' : ServerState σ} (hstep : Step transport build backend st st')
    (hinv : ∀ k, (st.streams k).Inv) :
    (st'.issued = st.issued ∧ ∀ k, (st'.streams k).handled = (st.streams k).handled) ∨
      ∃ k e, (st'.streams k).handled = (st.streams k).handled ++ [e] ∧
        (∀ k', k' ≠ k → (st'.streams k').handled = (st.streams k').handled) ∧
        e.sequence = st.issued % counterModulus ∧ st.issued ≤ st'.issued ∧
        ∀ report, e.Opens report → st'.issued = st.issued + 1 := by
  have hsame : ∀ {k : Nat} {s : Stream σ}, s.handled = (st.streams k).handled →
      ∀ k', ((st.update k s).streams k').handled = (st.streams k').handled := by
    intro k s hs k'
    show (Function.update st.streams k s k').handled = _
    by_cases hk : k' = k
    · rw [hk, Function.update_self, hs]
    · rw [Function.update_of_ne hk]
  cases hstep with
  | call k request => exact .inl ⟨rfl, hsame rfl⟩
  | callFails k request => exact .inl ⟨rfl, hsame rfl⟩
  | receive k message response => exact .inl ⟨rfl, hsame rfl⟩
  | readFails k message => exact .inl ⟨rfl, hsame rfl⟩
  | «break» k => exact .inl ⟨rfl, hsame rfl⟩
  | handle k message readings written _ next =>
      refine .inr ⟨k, ((st.streams k).session.exchange build backend
        ⟨message, readings, st.issued % counterModulus⟩).2, ?_, ?_, rfl, Nat.le_add_right _ _, ?_⟩
      · show (Function.update st.streams k _ k).handled = _
        rw [Function.update_self]
        rfl
      · intro k' hk
        show (Function.update st.streams k _ k').handled = _
        rw [Function.update_of_ne hk]
      · intro report hopens
        show st.issued + (if (st.streams k).session.draws message then 1 else 0) = _
        rw [if_pos ((hinv k).tracks.draws hopens)]

/-- While the counter has not run over, every simulation takes a new value. -/
theorem Numbered.step {st st' : ServerState σ} (hstep : Step transport build backend st st')
    (hinv : ∀ k, (st.streams k).Inv) (hissued : st'.issued ≤ counterModulus)
    (h : Numbered st) : Numbered st' := by
  rcases hstep.history hinv with ⟨hcount, hsame⟩ | ⟨k₀, new, hadded, hsame, hsequence, hle, hnew⟩
  · have hat : ∀ {k i e}, st'.At k i e → st.At k i e := by
      intro k i e he
      rwa [ServerState.At, hsame] at he
    refine ⟨?_, ?_⟩
    · intro k i e report he hopens
      rw [hcount]
      exact h.issued k i e report (hat he) hopens
    · intro k i e report k' i' e' report' he he' hopens hopens' heq
      exact h.distinct k i e report k' i' e' report' (hat he) (hat he') hopens hopens' heq
  · -- an exchange is an old one, with a smaller number, or the new one
    have hat : ∀ {k i e}, st'.At k i e → st.At k i e ∨
        k = k₀ ∧ i = (st.streams k₀).handled.length ∧ e = new := by
      intro k i e he
      rw [ServerState.At] at he
      by_cases hk : k = k₀
      · subst hk
        rw [hadded] at he
        by_cases hi : i < (st.streams k).handled.length
        · rw [List.getElem?_append_left hi] at he
          exact .inl he
        · have hlt := (List.getElem?_eq_some_iff.1 he).1
          rw [List.length_append, List.length_singleton] at hlt
          have hlast : i = (st.streams k).handled.length := by omega
          subst hlast
          rw [List.getElem?_concat_length, Option.some.injEq] at he
          exact .inr ⟨rfl, rfl, he.symm⟩
      · rw [hsame k hk] at he
        exact .inl he
    have hfresh : ∀ report, new.Opens report →
        new.sequence = st.issued ∧ st'.issued = st.issued + 1 := by
      intro report hopens
      have hcount := hnew report hopens
      rw [hsequence]
      exact ⟨Nat.mod_eq_of_lt (by omega), hcount⟩
    refine ⟨?_, ?_⟩
    · intro k i e report he hopens
      rcases hat he with hold | ⟨_, _, rfl⟩
      · exact lt_of_lt_of_le (h.issued k i e report hold hopens) hle
      · rcases hfresh report hopens with ⟨hnumber, hcount⟩
        omega
    · intro k i e report k' i' e' report' he he' hopens hopens' heq
      rcases hat he with hold | ⟨hk, hi, rfl⟩
      · rcases hat he' with hold' | ⟨_, _, rfl⟩
        · exact h.distinct k i e report k' i' e' report' hold hold' hopens hopens' heq
        · have hlt := h.issued k i e report hold hopens
          rw [heq, (hfresh report' hopens').1] at hlt
          omega
      · rcases hat he' with hold' | ⟨hk', hi', _⟩
        · have hlt := h.issued k' i' e' report' hold' hopens'
          rw [← heq, (hfresh report hopens).1] at hlt
          omega
        · exact ⟨hk.trans hk'.symm, hi.trans hi'.symm⟩

theorem Step.issued_le {st st' : ServerState σ} (hstep : Step transport build backend st st')
    (hinv : ∀ k, (st.streams k).Inv) : st.issued ≤ st'.issued := by
  rcases hstep.history hinv with ⟨hcount, _⟩ | ⟨_, _, _, _, _, hle, _⟩
  · exact le_of_eq hcount.symm
  · exact hle

theorem Reachable.numbered {st : ServerState σ} (h : Reachable transport build backend st)
    (hissued : st.issued ≤ counterModulus) : Numbered st := by
  induction h with
  | refl =>
      refine ⟨?_, ?_⟩
      · intro k i e report he
        cases he
      · intro k i e report k' i' e' report' he
        cases he
  | tail hprefix hstep ih =>
      have hinv := Reachable.inv hprefix
      exact (ih (le_trans (hstep.issued_le hinv) hissued)).step hstep hinv hissued

/-- The files that a session reports. -/
def SessionReport.files (report : SessionReport) : List (List Char) :=
  [report.simulatedTraceFile, report.resourceTraceFile, report.statisticsFile]

/-- A file of a report is one of those that are named after its identifier. -/
theorem SessionReport.NamedAfter.mem_names {report : SessionReport} {id file : List Char}
    (h : report.NamedAfter id) (hfile : file ∈ report.files) (hne : file ≠ []) :
    file ∈ (outputFiles id).names := by
  simp only [SessionReport.files, List.mem_cons, List.not_mem_nil, or_false] at hfile
  simp only [OutputFiles.names, List.mem_cons, List.not_mem_nil, or_false]
  rcases hfile with rfl | rfl | rfl
  · exact .inl (h.simulatedTrace.resolve_right hne)
  · exact .inr (.inl (h.resourceTrace.resolve_right hne))
  · exact .inr (.inr h.statistics)

/-- What the identifier of a simulation was made of. -/
theorem Reachable.namedAfter {st : ServerState σ} (h : Reachable transport build backend st)
    {k i : Nat} {e : Exchange} {report : SessionReport} (he : st.At k i e)
    (hopens : e.Opens report) :
    ∃ name, isSafeSessionName name = true ∧
      report.NamedAfter (makeSessionId name e.readings e.sequence) := by
  rcases List.getElem?_eq_some_iff.1 he with ⟨hlt, rfl⟩
  have hlawful := Labelled.Along.iff_take.1 (h.inv k).lawful i hlt
  rcases hlawful.opens report hopens with ⟨_, r, _, hsafe, hnamed⟩
  exact ⟨r.sessionName, hsafe, hnamed⟩

/-- No two simulations have the same identifier or write to one file, in whatever order the
    requests of all clients are handled, as long as the counter has not run over. -/
theorem sessions_share_no_file {st : ServerState σ} (h : Reachable transport build backend st)
    (hissued : st.issued ≤ counterModulus) {k i k' i' : Nat} (hne : (k, i) ≠ (k', i'))
    {e e' : Exchange} (he : st.At k i e) (he' : st.At k' i' e') {report report' : SessionReport}
    (hopens : e.Opens report) (hopens' : e'.Opens report') :
    report.sessionId ≠ report'.sessionId ∧
      ∀ file ∈ report.files, file ≠ [] → file ∉ report'.files := by
  have hsequence : e.sequence ≠ e'.sequence := by
    intro heq
    rcases (h.numbered hissued).distinct k i e report k' i' e' report' he he' hopens hopens' heq
      with ⟨rfl, rfl⟩
    exact hne rfl
  rcases h.namedAfter he hopens with ⟨name, _, hnamed⟩
  rcases h.namedAfter he' hopens' with ⟨name', _, hnamed'⟩
  refine ⟨?_, ?_⟩
  · rw [hnamed.sessionId, hnamed'.sessionId]
    exact fun heq => hsequence (makeSessionId_sequence heq)
  · intro file hfile hnil hfile'
    exact outputFiles_disjoint hsequence (hnamed.mem_names hfile hnil)
      (hnamed'.mem_names hfile' hnil)

/-- Two clients open a simulation of the same name at the same time. -/
theorem sessions_share_no_file_sameName :
    let build : BuildOptions := { redis := false, ser20 := false }
    let st := (ServerState.init.served build .inert 0 (.init (.plain ['a'] 4)) ⟨0, 0⟩).served
      build .inert 1 (.init (.plain ['a'] 4)) ⟨0, 0⟩
    let report : Nat → SessionReport := fun sequence =>
      { sessionId := makeSessionId ['a'] ⟨0, 0⟩ sequence
        simulatedTraceFile := (outputFiles (makeSessionId ['a'] ⟨0, 0⟩ sequence)).simulatedTrace
        resourceTraceFile := (outputFiles (makeSessionId ['a'] ⟨0, 0⟩ sequence)).resourceTrace
        statisticsFile := (outputFiles (makeSessionId ['a'] ⟨0, 0⟩ sequence)).statistics
        redisKeyPrefix := "" }
    (∀ k < 2, ((st.streams k).handled.map fun e => e.response.response) = [.init (report k)]) ∧
      ∀ file ∈ (report 0).files, file ≠ [] → file ∉ (report 1).files := by
  intro build st report
  have hreachable : Reachable .reliable build .inert st :=
    Reachable.served (Reachable.served .refl ready_fresh _ _) (by
      rw [ServerState.served_other _ (by decide)]
      exact ready_fresh) _ _
  have hopens : ∀ k < 2,
      ((st.streams k).handled.map fun e => e.response.response) = [.init (report k)] := by
    decide +kernel
  rcases List.map_eq_singleton_iff.1 (hopens 0 (by decide)) with ⟨e, he, hopen⟩
  rcases List.map_eq_singleton_iff.1 (hopens 1 (by decide)) with ⟨e', he', hopen'⟩
  refine ⟨hopens, (sessions_share_no_file hreachable (by decide +kernel)
    (show ((0 : Nat), (0 : Nat)) ≠ (1, 0) by decide) ?_ ?_ hopen hopen').2⟩
  · rw [ServerState.At, he]
    rfl
  · rw [ServerState.At, he']
    rfl

end

end Server

end DrEvt

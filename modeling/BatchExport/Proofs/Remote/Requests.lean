import BatchExport.Proofs.Remote.Retry
import BatchExport.Remote.Publisher

/-! Requests to a service that answers whatever it does. Main statement: how often a document is asked for, or a status
record is sent, what comes of it, and how long the pauses are. -/
namespace BatchExport

open Retry (Act IsLast IsFinal history)

/-- A network with these replies, one after the other, whatever is asked for. -/
def Network.scripted (replies : Nat → HttpReply) : Network (List (Act HttpRequest)) where
  send r log := (replies (log.countP Act.isTry + 1), log ++ [.tried r])
  pause := Act.pause

namespace HttpReply

/-- A fault of the service or of the way to it. -/
def MayPass : HttpReply → Prop
  | answered status _ => 500 ≤ status
  | unreachable _ | timedOut _ => True

/-- The fault that a reply is, whatever was asked for. -/
inductive IsFault : HttpReply → RemoteFault → Prop
  | refused {status : Nat} {body : String} (failed : ¬ (200 ≤ status ∧ status < 300)) (low : status < 500) :
      IsFault (answered status body) (.clientError status body)
  | broken {status : Nat} {body : String} (high : 500 ≤ status) : IsFault (answered status body) (.serverError status body)
  | unreachable {detail : String} : IsFault (unreachable detail) (.connectionFailed detail)
  | timedOut {detail : String} : IsFault (timedOut detail) (.timeout detail)

theorem isSuccess_iff {status : Nat} : isSuccess status = true ↔ 200 ≤ status ∧ status < 300 := by
  simp [isSuccess]

/-- A reply is a success or a fault. -/
theorem success_cases (reply : HttpReply) :
    (∃ status body, reply = answered status body ∧ 200 ≤ status ∧ status < 300 ∧ reply.success = .ok body) ∨
      ∃ fault, reply.IsFault fault ∧ reply.success = .error fault := by
  cases reply with
  | answered status body =>
    rw [success]
    by_cases hok : isSuccess status = true
    · rw [if_pos hok]
      obtain ⟨hlow, hhigh⟩ := isSuccess_iff.mp hok
      exact .inl ⟨status, body, rfl, hlow, hhigh, rfl⟩
    · rw [if_neg hok]
      by_cases hhigh : status ≥ 500
      · rw [if_pos hhigh]
        exact .inr ⟨_, .broken hhigh, rfl⟩
      · rw [if_neg hhigh]
        exact .inr ⟨_, .refused (fun h => hok (isSuccess_iff.mpr h)) (Nat.lt_of_not_le hhigh), rfl⟩
  | unreachable detail => exact .inr ⟨_, .unreachable, rfl⟩
  | timedOut detail => exact .inr ⟨_, .timedOut, rfl⟩

/-- Faults that may pass are those that are tried again. -/
theorem IsFault.isTransient_iff {reply : HttpReply} {fault : RemoteFault} (h : reply.IsFault fault) :
    fault.isTransient = true ↔ reply.MayPass := by
  cases h with
  | refused failed low => simpa [RemoteFault.isTransient, MayPass] using low
  | broken high => simpa [RemoteFault.isTransient, MayPass] using high
  | unreachable => simp [RemoteFault.isTransient, MayPass]
  | timedOut => simp [RemoteFault.isTransient, MayPass]

end HttpReply

/-- What a request for a document comes to if this is the last reply. -/
inductive RemoteClient.Yields : HttpReply → Except Failure (Option Json) → Prop
  | unknown {body : String} : Yields (.answered 404 body) (.ok none)
  | readable {status : Nat} {body : String} {j : Json} (low : 200 ≤ status) (high : status < 300)
      (read : Json.parse? body = some j) : Yields (.answered status body) (.ok (some j))
  | unreadable {status : Nat} {body : String} (low : 200 ≤ status) (high : status < 300) (read : Json.parse? body = none) :
      Yields (.answered status body) (.error (.remoteUnavailable (.invalidResponse "error decoding response body")))
  | failed {reply : HttpReply} {fault : RemoteFault} (known : ∀ body, reply ≠ .answered 404 body)
      (isFault : reply.IsFault fault) : Yields reply (.error (.remoteUnavailable fault))

/-- What sending a status record comes to if this is the last reply. -/
inductive TopicPublisher.Yields (p : TopicPublisher) : HttpReply → Except Failure Unit → Prop
  | accepted {status : Nat} {body : String} (low : 200 ≤ status) (high : status < 300) :
      Yields p (.answered status body) (.ok ())
  | failed {reply : HttpReply} {fault : RemoteFault} (isFault : reply.IsFault fault) :
      Yields p reply (.error (.publication ("POST " ++ p.url ++ " failed: " ++ (Failure.remoteUnavailable fault).message)))

theorem RemoteClient.Yields.isFinal_iff {reply : HttpReply} {answer : Except Failure (Option Json)}
    (h : RemoteClient.Yields reply answer) : IsFinal answer ↔ ¬ reply.MayPass := by
  cases h with
  | unknown => simp [IsFinal, HttpReply.MayPass]
  | readable low high read =>
    have hlow := Nat.lt_trans high (by omega : 300 < 500)
    simpa [IsFinal, HttpReply.MayPass] using hlow
  | unreadable low high read =>
    have hlow := Nat.lt_trans high (by omega : 300 < 500)
    simpa [IsFinal, Failure.isTransient, RemoteFault.isTransient, HttpReply.MayPass] using hlow
  | failed known isFault =>
    rw [← isFault.isTransient_iff, Bool.not_eq_true]
    rfl

namespace RemoteClient

/-- What one reply comes to. -/
private def outcome (reply : HttpReply) : Except Failure (Option Json) := (document reply).mapError .remoteUnavailable

private theorem document_of_known {reply : HttpReply} (h : ∀ body, reply ≠ .answered 404 body) : document reply =
    reply.success.bind fun body =>
      match Json.parse? body with
      | some j => .ok (some j)
      | none => .error (.invalidResponse "error decoding response body") := by
  unfold document
  split
  · exact absurd rfl (h _)
  · rfl

private theorem yields_outcome (reply : HttpReply) : Yields reply (outcome reply) := by
  by_cases hunknown : ∃ body, reply = .answered 404 body
  · obtain ⟨body, rfl⟩ := hunknown
    exact .unknown
  · have hknown : ∀ body, reply ≠ .answered 404 body := fun body heq => hunknown ⟨body, heq⟩
    rw [outcome, document_of_known hknown]
    obtain ⟨status, body, rfl, hlow, hhigh, hsuccess⟩ | ⟨fault, hfault, hsuccess⟩ := reply.success_cases
    · rw [hsuccess, Except.bind]
      cases hread : Json.parse? body with
      | none => exact .unreadable hlow hhigh hread
      | some j => exact .readable hlow hhigh hread
    · rw [hsuccess]
      exact .failed hknown hfault

private theorem run_attempt (replies : Nat → HttpReply) (request : HttpRequest) (log : List (Act HttpRequest)) :
    (do
      match document (← (Network.scripted replies).request request) with
      | .ok j => return j
      | .error fault => throw (.remoteUnavailable fault) : Effect (List (Act HttpRequest)) (Option Json)).run log =
      some (outcome (replies (log.countP Act.isTry + 1)), log ++ [.tried request]) := by
  rw [Effect.run_bind, Network.request, Effect.run_ofChange, Option.bind_some]
  dsimp only [Network.scripted]
  rw [outcome]
  cases document (replies (log.countP Act.isTry + 1)) <;> rfl

/-- A document is asked for until a reply settles what it is. -/
theorem getJson_scripted (client : RemoteClient) (path : String) (query : List (String × String))
    (replies : Nat → HttpReply) :
    ∃ k answer, IsLast (fun j => ¬ (replies j).MayPass) (max 1 client.retry.attempts) k ∧ Yields (replies k) answer ∧
      (client.getJson (.scripted replies) path query).run [] =
        some (answer, history client.retry (client.request path query) k) := by
  obtain ⟨k, hlast, hrun⟩ := Retry.run_of_script client.retry (client.request path query) _
    (fun j => outcome (replies j)) (run_attempt replies (client.request path query))
  exact ⟨k, _, hlast.congr fun j => (yields_outcome (replies j)).isFinal_iff, yields_outcome (replies k), hrun⟩

/-- What is made of a document without another request leaves it at one request, some times. -/
theorem getJson_then_scripted {α : Type} (client : RemoteClient) (path : String) (query : List (String × String))
    (replies : Nat → HttpReply) {next : Option Json → Effect (List (Act HttpRequest)) α}
    (hquiet : ∀ found log, ∃ answer, (next found).run log = some (answer, log)) :
    ∃ k answer, 1 ≤ k ∧ (client.getJson (.scripted replies) path query >>= next).run [] =
      some (answer, history client.retry (client.request path query) k) := by
  obtain ⟨k, answer, hlast, -, hrun⟩ := client.getJson_scripted path query replies
  rw [Effect.run_bind, hrun, Option.bind_some]
  cases answer with
  | error f => exact ⟨k, .error f, hlast.pos, rfl⟩
  | ok found =>
    obtain ⟨answer, hanswer⟩ := hquiet found (history client.retry (client.request path query) k)
    exact ⟨k, answer, hlast.pos, hanswer⟩

end RemoteClient

/-- A computation that makes one request, some times, makes no other, and does make it. -/
theorem tried_iff_of_history {α : Type} {policy : RetryPolicy} {request other : HttpRequest}
    {e : (Nat → HttpReply) → Effect (List (Act HttpRequest)) α}
    (h : ∀ replies, ∃ k answer, 1 ≤ k ∧ (e replies).run [] = some (answer, history policy request k)) :
    (∃ replies answer log, (e replies).run [] = some (answer, log) ∧ .tried other ∈ log) ↔ other = request := by
  constructor
  · rintro ⟨replies, answer, log, hrun, hmem⟩
    obtain ⟨k, answer', -, hrun'⟩ := h replies
    rw [hrun] at hrun'
    cases hrun'
    exact ((Retry.tried_mem_history k).mp hmem).1
  · intro heq
    obtain ⟨k, answer, hpos, hrun⟩ := h fun _ => .answered 404 ""
    exact ⟨_, answer, _, hrun, (Retry.tried_mem_history k).mpr ⟨heq, hpos⟩⟩

namespace TopicPublisher

variable {p : TopicPublisher}

/-- What one reply comes to, before it is told as a failure of the publication. -/
private def outcome (reply : HttpReply) : Except Failure Unit :=
  (reply.success.map fun _ => ()).mapError .remoteUnavailable

/-- The words for a failure of the last attempt. -/
private def told (p : TopicPublisher) (f : Failure) : Failure := .publication ("POST " ++ p.url ++ " failed: " ++ f.message)

private theorem yields_outcome (reply : HttpReply) : p.Yields reply ((outcome reply).mapError p.told) := by
  rw [outcome]
  obtain ⟨status, body, rfl, hlow, hhigh, hsuccess⟩ | ⟨fault, hfault, hsuccess⟩ := reply.success_cases
  · rw [hsuccess]
    exact .accepted hlow hhigh
  · rw [hsuccess]
    exact .failed hfault

private theorem isFinal_outcome (reply : HttpReply) : IsFinal (outcome reply) ↔ ¬ reply.MayPass := by
  rw [outcome]
  obtain ⟨status, body, rfl, hlow, hhigh, hsuccess⟩ | ⟨fault, hfault, hsuccess⟩ := reply.success_cases
  · have hhigh : status < 500 := Nat.lt_trans hhigh (by omega)
    rw [hsuccess]
    simpa [IsFinal, HttpReply.MayPass, Except.map, Except.mapError] using hhigh
  · rw [hsuccess, ← hfault.isTransient_iff, Bool.not_eq_true]
    rfl

private theorem run_attempt (replies : Nat → HttpReply) (request : HttpRequest) (log : List (Act HttpRequest)) :
    (do
      match (← (Network.scripted replies).request request).success with
      | .ok _ => return ()
      | .error fault => throw (.remoteUnavailable fault) : Effect (List (Act HttpRequest)) Unit).run log =
      some (outcome (replies (log.countP Act.isTry + 1)), log ++ [.tried request]) := by
  rw [Effect.run_bind, Network.request, Effect.run_ofChange, Option.bind_some]
  dsimp only [Network.scripted]
  rw [outcome]
  cases (replies (log.countP Act.isTry + 1)).success <;> rfl

/-- A record is sent until a reply settles whether it is taken. -/
theorem publish_scripted (p : TopicPublisher) (id : JobId) (record : StatusRecord) (replies : Nat → HttpReply) :
    ∃ k answer, IsLast (fun j => ¬ (replies j).MayPass) (max 1 p.retry.attempts) k ∧ p.Yields (replies k) answer ∧
      (p.publish (.scripted replies) id record).run [] = some (answer, history p.retry (p.request id record) k) := by
  obtain ⟨k, hlast, hrun⟩ := Retry.run_of_script p.retry (p.request id record) _ (fun j => outcome (replies j))
    (run_attempt replies (p.request id record))
  refine ⟨k, _, hlast.congr fun j => isFinal_outcome (replies j), yields_outcome (replies k), ?_⟩
  exact congrArg (Option.map fun (r, log) => (r.mapError p.told, log)) hrun

end TopicPublisher

/-- How retries go, whatever the outcomes are: an attempt is the last if it is final or if no more are allowed, and there
are no other requests and no other pauses. -/
structure RetryLaw : Prop where
  /-- No pause is longer than the policy allows. -/
  pauses : ∀ (policy : RetryPolicy) j, policy.delay j ≤ policy.maxDelay
  /-- The outcome of the last attempt is handed on. -/
  attempts : ∀ (policy : RetryPolicy) {α : Type} (outcome : Nat → Except Failure α),
    ∃ k, IsLast (fun j => IsFinal (outcome j)) (max 1 policy.attempts) k ∧
      (Retry.run policy Act.pause (Retry.scripted outcome)).run [] = some (outcome k, history policy () k)
  /-- In a request for a document, only faults of the service and of the way to it are not final. -/
  documents : ∀ (client : RemoteClient) (path : String) (query : List (String × String)) (replies : Nat → HttpReply),
    ∃ k answer, IsLast (fun j => ¬ (replies j).MayPass) (max 1 client.retry.attempts) k ∧
      RemoteClient.Yields (replies k) answer ∧
      (client.getJson (.scripted replies) path query).run [] =
        some (answer, history client.retry (client.request path query) k)
  /-- It is the same with a status record that is sent. -/
  records : ∀ (p : TopicPublisher) (id : JobId) (record : StatusRecord) (replies : Nat → HttpReply),
    ∃ k answer, IsLast (fun j => ¬ (replies j).MayPass) (max 1 p.retry.attempts) k ∧ p.Yields (replies k) answer ∧
      (p.publish (.scripted replies) id record).run [] = some (answer, history p.retry (p.request id record) k)

theorem attempts_end_with_final : RetryLaw where
  pauses := RetryPolicy.delay_le_maxDelay
  attempts policy _ _ := Retry.run_of_script policy () _ _ fun _ => rfl
  documents := RemoteClient.getJson_scripted
  records := TopicPublisher.publish_scripted

end BatchExport

import SourceIndex.Proofs.Remote.Envelopes
import SourceIndex.Proofs.Text.Lowercase

/-! Repeated requests. A call sends its request up to the first outcome that counts, or until its retries are used up,
and gives what the last outcome says; nothing is left of the outcomes before it. An answer that reports success always
counts, whatever its envelope holds: its result, its error, or that it could not be read. -/

namespace SourceIndex.Remote
open Text

variable {σ : Type}

/-- The same network, with the requests that it was sent, in order. -/
def Transport.recorded (transport : Transport σ) : Transport (σ × List Request) := fun request =>
  modifyGet fun state =>
    let (outcome, network) := (transport request).run state.1
    (outcome, network, state.2 ++ [request])

theorem run_send_recorded (transport : Transport σ) (request : Request) (network : σ) (sent : List Request) :
    (transport.recorded.send request).run (network, sent) =
      (((transport.send request).run network).1, ((transport.send request).run network).2,
        if isHeaderValue request.bearer then sent ++ [request] else sent) := by
  rw [Transport.send, Transport.send]
  split <;> rfl

namespace Upstash
open VectorIndex Step

/-! ### Outcomes -/

/-- The outcomes after which a request is repeated: nothing answered, the body broke off, there were too many
requests, or the index is in trouble. -/
def Retried : Except String Reply → Prop
  | .error _ => True
  | .ok reply => reply.complete = false ∨ reply.status = 429 ∨ 500 ≤ reply.status ∧ reply.status < 600

/-- What an outcome says to the caller. -/
def verdict {α : Type} (decoder : Json.Decoder α) : Except String Reply → Except Error α
  | .error message => .error (.transport message)
  | .ok reply =>
    match reply.text? with
    | none => .error (.transport "body")
    | some text => if reply.isSuccess then resultOf decoder text else .error (failureOf reply.status text)

section
variable {α : Type} (decoder : Json.Decoder α)

theorem text?_eq_none_iff {reply : Reply} : reply.text? = none ↔ reply.complete = false := by
  cases hcomplete : reply.complete <;> simp [Reply.text?, Reply.body?, hcomplete]

theorem complete_of_text? {reply : Reply} {text : Chars} (htext : reply.text? = some text) :
    ¬ reply.complete = false := by
  rw [← text?_eq_none_iff, htext]
  exact Option.some_ne_none text

theorem not_retried_of_isSuccess {reply : Reply} {text : Chars} (htext : reply.text? = some text)
    (hsuccess : reply.isSuccess = true) : ¬ Retried (.ok reply) := by
  simp only [Reply.isSuccess, Bool.and_eq_true, decide_eq_true_eq] at hsuccess
  rintro (hbroken | htooMany | htrouble)
  · exact complete_of_text? htext hbroken
  · omega
  · omega

theorem isTemporary_iff {status : Nat} : isTemporary status = true ↔ status = 429 ∨ 500 ≤ status ∧ status < 600 := by
  simp [isTemporary]

/-- An outcome either is an error after which the request is repeated, or it counts. -/
theorem outcomeOf_cases (answer : Except String Reply) :
    Retried answer ∧ (∃ e, outcomeOf decoder answer = .again e ∧ verdict decoder answer = .error e) ∨
      ¬ Retried answer ∧ outcomeOf decoder answer = .final (verdict decoder answer) := by
  cases answer with
  | error message => exact Or.inl ⟨trivial, _, rfl, rfl⟩
  | ok reply =>
      cases htext : reply.text? with
      | none =>
          left
          exact ⟨Or.inl (text?_eq_none_iff.mp htext), .transport "body", by simp only [outcomeOf, htext],
            by simp only [verdict, htext]⟩
      | some text =>
          cases hsuccess : reply.isSuccess with
          | true =>
              right
              exact ⟨not_retried_of_isSuccess htext hsuccess, by simp [outcomeOf, verdict, htext, hsuccess]⟩
          | false =>
              cases htemporary : isTemporary reply.status with
              | true =>
                  left
                  refine ⟨Or.inr (isTemporary_iff.mp htemporary), failureOf reply.status text, ?_, ?_⟩
                  · simp [outcomeOf, htext, hsuccess, htemporary]
                  · simp [verdict, htext, hsuccess]
              | false =>
                  right
                  refine ⟨?_, by simp [outcomeOf, verdict, htext, hsuccess, htemporary]⟩
                  rintro (hbroken | hstatus)
                  · exact complete_of_text? htext hbroken
                  · rw [isTemporary_iff.mpr hstatus] at htemporary
                    cases htemporary

theorem verdict_of_retried {answer : Except String Reply} (h : Retried answer) :
    ∃ e, verdict decoder answer = .error e := by
  rcases outcomeOf_cases decoder answer with ⟨-, e, -, hverdict⟩ | ⟨hcounts, -⟩
  · exact ⟨e, hverdict⟩
  · exact absurd h hcounts

end

/-! ### Attempts -/

/-- The request as it is sent for the attempt with a number. -/
def attemptOf (request : Request) (n : Nat) : Request := { request with delay := delayBefore n }

/-- The state of the network after some attempts, one after the other. -/
def networkAfter (transport : Transport σ) (request : Request) (network : σ) : Nat → σ
  | 0 => network
  | n + 1 => ((transport.send (attemptOf request n)).run (networkAfter transport request network n)).2

/-- The outcome of the attempt with a number, when all attempts before it were made. -/
def replyTo (transport : Transport σ) (request : Request) (network : σ) (n : Nat) : Except String Reply :=
  ((transport.send (attemptOf request n)).run (networkAfter transport request network n)).1

section
variable {α : Type} (decoder : Json.Decoder α) (transport : Transport σ) (request : Request) (network : σ)

/-- The requests that reach a network in some attempts: none if the token cannot stand in a header. -/
def sentIn (n : Nat) : List Request :=
  if isHeaderValue request.bearer then (List.range n).map (attemptOf request) else []

theorem networkAfter_recorded (n : Nat) :
    networkAfter transport.recorded request (network, []) n =
      (networkAfter transport request network n, sentIn request n) := by
  induction n with
  | zero => simp [networkAfter, sentIn]
  | succ n ih =>
      rw [networkAfter, ih, run_send_recorded, networkAfter]
      by_cases hheader : isHeaderValue request.bearer = true
      · simp [sentIn, attemptOf, hheader, List.range_succ]
      · simp [sentIn, attemptOf, hheader]

theorem replyTo_recorded (n : Nat) :
    replyTo transport.recorded request (network, []) n = replyTo transport request network n := by
  rw [replyTo, networkAfter_recorded, run_send_recorded]
  rfl

/-- One attempt: an outcome that counts ends the call, after another one the call goes on while there are retries. -/
theorem run_attempts_eq (retries n : Nat) :
    (attempts transport decoder request retries n).run (networkAfter transport request network n) =
      match outcomeOf decoder (replyTo transport request network n) with
      | .final result => (result, networkAfter transport request network (n + 1))
      | .again e =>
        match retries with
        | 0 => (.error e, networkAfter transport request network (n + 1))
        | retries + 1 =>
          (attempts transport decoder request retries (n + 1)).run (networkAfter transport request network (n + 1)) := by
  rw [attempts.eq_def, StateT.run_bind]
  change (match outcomeOf decoder (replyTo transport request network n) with
    | .final result => pure result
    | .again e =>
      match retries with
      | 0 => pure (Except.error e)
      | retries + 1 => attempts transport decoder request retries (n + 1)).run
        (networkAfter transport request network (n + 1)) = _
  cases outcomeOf decoder (replyTo transport request network n) with
  | final result => rfl
  | again e => cases retries <;> rfl

/-- From some attempt on, the call goes on to the first outcome that counts or to the last attempt. -/
theorem run_attempts (retries n : Nat) : ∃ k, k ≤ retries ∧
    (∀ i, i < k → Retried (replyTo transport request network (n + i))) ∧
    (Retried (replyTo transport request network (n + k)) → k = retries) ∧
    (attempts transport decoder request retries n).run (networkAfter transport request network n) =
      (verdict decoder (replyTo transport request network (n + k)),
        networkAfter transport request network (n + k + 1)) := by
  induction retries generalizing n with
  | zero =>
      refine ⟨0, Nat.le_refl 0, fun i hi => absurd hi (Nat.not_lt_zero i), fun _ => rfl, ?_⟩
      rw [run_attempts_eq]
      simp only [Nat.add_zero]
      rcases outcomeOf_cases decoder (replyTo transport request network n) with ⟨-, e, hagain, hverdict⟩ | ⟨-, hfinal⟩
      · rw [hagain, hverdict]
      · rw [hfinal]
  | succ retries ih =>
      rw [run_attempts_eq]
      rcases outcomeOf_cases decoder (replyTo transport request network n) with
        ⟨hretried, e, hagain, -⟩ | ⟨hcounts, hfinal⟩
      · obtain ⟨k, hk, hbefore, hlast, hrun⟩ := ih (n + 1)
        have hnext : ∀ i, n + 1 + i = n + (i + 1) := fun i => by omega
        rw [hnext k] at hlast hrun
        refine ⟨k + 1, Nat.succ_le_succ hk, ?_, fun h => by rw [hlast h], ?_⟩
        · intro i hi
          cases i with
          | zero => exact hretried
          | succ i =>
              rw [← hnext i]
              exact hbefore i (by omega)
        · rw [hagain]
          exact hrun
      · refine ⟨0, Nat.zero_le _, fun i hi => absurd hi (Nat.not_lt_zero i), fun h => absurd h hcounts, ?_⟩
        rw [hfinal]
        rfl

end

/-! ### Messages -/

/-- The message says that an index or a namespace is empty, in letters of either case. -/
def MentionsEmpty (message : Chars) : Prop :=
  Mentions message "empty".toList ∧ (Mentions message "index".toList ∨ Mentions message "namespace".toList)

/-- The error that a message is taken for, in an answer with a status. -/
def Classified (status : Nat) (message : String) (e : Error) : Prop :=
  MentionsEmpty message.toList ∧ e = .emptyIndex ∨ ¬MentionsEmpty message.toList ∧ e = .api status message

theorem saysEmpty_iff {message : Chars} : saysEmpty message = true ↔ MentionsEmpty message := by
  have hempty : isPlainWord "empty".toList = true := by decide
  have hindex : isPlainWord "index".toList = true := by decide
  have hnamespace : isPlainWord "namespace".toList = true := by decide
  rw [saysEmpty, Bool.and_eq_true, Bool.or_eq_true, containsText_lowercase_iff hempty,
    containsText_lowercase_iff hindex, containsText_lowercase_iff hnamespace, MentionsEmpty]

theorem classified_errorOf (status : Nat) (message : String) : Classified status message (errorOf status message) := by
  rw [Classified, ← saysEmpty_iff, errorOf]
  split <;> simp_all

theorem Classified.eq_emptyIndex_iff {status : Nat} {message : String} {e : Error} (h : Classified status message e) :
    e = .emptyIndex ↔ MentionsEmpty message.toList := by
  rcases h with ⟨hempty, rfl⟩ | ⟨hother, rfl⟩
  · exact iff_of_true rfl hempty
  · exact iff_of_false nofun hother

/-! ### Answers -/

/-- What an answer that reports success is read as: its result if there is no error, the error that its message is taken
for, and that it could not be read if it holds neither or is no envelope. -/
structure Decoded {α : Type} (decoder : Json.Decoder α) (text : Chars) (result : Except Error α) : Prop where
  value : ∀ a, Envelope decoder (.read text) (some a) none → result = .ok a
  message : ∀ found message, Envelope decoder (.read text) found (some message) →
    ∃ e, Classified 200 message e ∧ result = .error e
  neither : (∀ a, ¬Envelope decoder (.read text) (some a) none) →
    (∀ found message, ¬Envelope decoder (.read text) found (some message)) → ∃ words, result = .error (.decode words)

/-- The message of an answer that reports a failure: the error in its envelope, or its whole text. -/
def FailureMessage (text : Chars) (message : String) : Prop :=
  (∃ found, Envelope Json.Decoder.any (.read text) found (some message)) ∨
    (∀ found message', ¬Envelope Json.Decoder.any (.read text) found (some message')) ∧
      message = String.ofList (trim text)

section
variable {α : Type} (decoder : Json.Decoder α) {text : Chars} {result : Option α} {message : Option String}

theorem envelope_text_iff :
    (envelope decoder).text text = .ok (result, message) ↔ Envelope decoder (.read text) result message :=
  envelope_document_iff decoder

/-- An answer with a result and without an error is read as the result. -/
theorem resultOf_of_envelope {a : α} (h : Envelope decoder (.read text) (some a) none) :
    resultOf decoder text = .ok a := by
  rw [resultOf, (envelope_text_iff decoder).mpr h]

example : (resultOf Json.Decoder.word64 "\x7b\"result\": 5, \"error\": null\x7d".toList).toOption = some 5 := by decide +kernel

theorem resultOf_of_message {found : Option α} {message : String}
    (h : Envelope decoder (.read text) found (some message)) :
    resultOf decoder text = .error (errorOf 200 message) := by
  rw [resultOf, (envelope_text_iff decoder).mpr h]

theorem decoded_resultOf : Decoded decoder text (resultOf decoder text) where
  value _ h := resultOf_of_envelope decoder h
  message _ message h := ⟨_, classified_errorOf 200 message, resultOf_of_message decoder h⟩
  neither hvalue hmessage := by
    rw [resultOf]
    rcases hread : (envelope decoder).text text with _ | ⟨_ | a, _ | message⟩
    · exact ⟨_, rfl⟩
    · exact ⟨_, rfl⟩
    · exact absurd ((envelope_text_iff decoder).mp hread) (hmessage _ _)
    · exact absurd ((envelope_text_iff decoder).mp hread) (hvalue _)
    · exact absurd ((envelope_text_iff decoder).mp hread) (hmessage _ _)

theorem failureOf_of_message {status : Nat} {message : String} (h : FailureMessage text message) :
    failureOf status text = errorOf status message := by
  rw [failureOf]
  rcases h with ⟨found, hread⟩ | ⟨hnone, rfl⟩
  · rw [(envelope_text_iff _).mpr hread]
  · split
    · next message' hread => exact absurd ((envelope_text_iff _).mp hread) (hnone _ message')
    · rfl

theorem exists_failureMessage (text : Chars) : ∃ message, FailureMessage text message := by
  by_cases h : ∃ found message, Envelope Json.Decoder.any (.read text) found (some message)
  · obtain ⟨found, message, hread⟩ := h
    exact ⟨message, Or.inl ⟨found, hread⟩⟩
  · exact ⟨_, Or.inr ⟨fun found message hread => h ⟨found, message, hread⟩, rfl⟩⟩

/-- What an outcome gives the caller: the error of a request that did not come through or whose answer broke off, what an
answer that reports success is read as, and else the error that the message of the answer is taken for. -/
structure Gives (answer : Except String Reply) (result : Except Error α) : Prop where
  unanswered : ∀ message, answer = .error message → result = .error (.transport message)
  brokenOff : ∀ reply, answer = .ok reply → reply.complete = false → ∃ words, result = .error (.transport words)
  succeeded : ∀ reply text, answer = .ok reply → reply.text? = some text → reply.isSuccess = true →
    Decoded decoder text result
  failed : ∀ reply text, answer = .ok reply → reply.text? = some text → reply.isSuccess = false →
    ∃ message e, FailureMessage text message ∧ Classified reply.status message e ∧ result = .error e

theorem gives_verdict (answer : Except String Reply) : Gives decoder answer (verdict decoder answer) where
  unanswered := by
    rintro message rfl
    rfl
  brokenOff := by
    rintro reply rfl hcomplete
    simp only [verdict, text?_eq_none_iff.mpr hcomplete]
    exact ⟨_, rfl⟩
  succeeded := by
    rintro reply text rfl htext hsuccess
    simp only [verdict, htext, hsuccess]
    exact decoded_resultOf decoder
  failed := by
    rintro reply text rfl htext hsuccess
    obtain ⟨message, hmessage⟩ := exists_failureMessage text
    simp only [verdict, htext, hsuccess, failureOf_of_message hmessage]
    exact ⟨message, _, hmessage, classified_errorOf reply.status message, rfl⟩

/-- The message of an answer without a result. -/
def MessageOf (reply : Reply) (message : String) : Prop :=
  ∃ text, reply.text? = some text ∧
    if reply.isSuccess then ∃ found, Envelope decoder (.read text) found (some message) else FailureMessage text message

theorem verdict_of_messageOf {reply : Reply} {message : String} (h : MessageOf decoder reply message) :
    ∃ e, Classified (if reply.isSuccess then 200 else reply.status) message e ∧
      verdict decoder (.ok reply) = .error e := by
  obtain ⟨text, htext, h⟩ := h
  cases hsuccess : reply.isSuccess with
  | true =>
      rw [hsuccess, if_pos rfl] at h
      obtain ⟨found, hread⟩ := h
      exact ((gives_verdict decoder (.ok reply)).succeeded reply text rfl htext hsuccess).message found message hread
  | false =>
      rw [hsuccess, if_neg Bool.false_ne_true] at h
      refine ⟨_, classified_errorOf reply.status message, ?_⟩
      simp [verdict, htext, hsuccess, failureOf_of_message h]

theorem verdict_eq_emptyIndex_iff (reply : Reply) : verdict decoder (.ok reply) = .error .emptyIndex ↔
    ∃ message, MessageOf decoder reply message ∧ MentionsEmpty message.toList := by
  constructor
  · intro h
    have hgives := gives_verdict decoder (.ok reply)
    rw [h] at hgives
    cases htext : reply.text? with
    | none =>
        obtain ⟨words, hwords⟩ := hgives.brokenOff reply rfl (text?_eq_none_iff.mp htext)
        cases hwords
    | some text =>
        cases hsuccess : reply.isSuccess with
        | true =>
            have hdecoded := hgives.succeeded reply text rfl htext hsuccess
            by_cases hmessage : ∃ found message, Envelope decoder (.read text) found (some message)
            · obtain ⟨found, message, hread⟩ := hmessage
              obtain ⟨e, hclass, he⟩ := hdecoded.message found message hread
              cases he
              exact ⟨message, ⟨text, htext, by simpa [hsuccess] using ⟨found, hread⟩⟩, hclass.eq_emptyIndex_iff.mp rfl⟩
            · obtain ⟨words, hwords⟩ := hdecoded.neither (fun a ha => nomatch hdecoded.value a ha)
                (fun found message hread => hmessage ⟨found, message, hread⟩)
              cases hwords
        | false =>
            obtain ⟨message, e, hmessage, hclass, he⟩ := hgives.failed reply text rfl htext hsuccess
            cases he
            exact ⟨message, ⟨text, htext, by simpa [hsuccess] using hmessage⟩, hclass.eq_emptyIndex_iff.mp rfl⟩
  · rintro ⟨message, hmessage, hempty⟩
    obtain ⟨e, hclass, he⟩ := verdict_of_messageOf decoder hmessage
    rw [he, hclass.eq_emptyIndex_iff.mpr hempty]

end

/-! ### Calls -/

/-- The request of a call. -/
def Client.request (client : Client) (method path : String) (body : Json) : Request :=
  ⟨method, client.baseUrl ++ path, client.token, [("content-type", "application/json")], some body, 0⟩

theorem outcome_call {α : Type} (client : Client) (transport : Transport σ) (method path : String) (body : Json)
    (decoder : Json.Decoder α) (network : σ) :
    outcome (call client transport method path body decoder) network =
      (attempts transport decoder (client.request method path body) client.maxRetries 0).run network := rfl

/-- A call sends one request more than outcomes that are retried, up to its limit of retries, and gives what the last
outcome says. No answer that reports success is followed by another request, and the call then gives its result, the
error of its envelope, or that it could not be read. An answer says that the index is empty exactly if its message
mentions this, in letters of either case. -/
theorem call_retries {α : Type} (client : Client) (transport : Transport σ) (method path : String) (body : Json)
    (decoder : Json.Decoder α) (network : σ) :
    (∃ k, k ≤ client.maxRetries ∧
      (∀ i, i < k → Retried (replyTo transport (client.request method path body) network i)) ∧
      (Retried (replyTo transport (client.request method path body) network k) → k = client.maxRetries ∧
        ∃ e, verdict decoder (replyTo transport (client.request method path body) network k) = .error e) ∧
      outcome (call client transport.recorded method path body decoder) (network, []) =
        (verdict decoder (replyTo transport (client.request method path body) network k),
          networkAfter transport (client.request method path body) network (k + 1),
          sentIn (client.request method path body) (k + 1)) ∧
      Gives decoder (replyTo transport (client.request method path body) network k)
        (outcome (call client transport.recorded method path body decoder) (network, [])).1 ∧
      ∀ i reply text, i ≤ k → replyTo transport (client.request method path body) network i = .ok reply →
        reply.text? = some text → reply.isSuccess = true →
        i = k ∧ Decoded decoder text (outcome (call client transport.recorded method path body decoder) (network, [])).1) ∧
    ∀ reply, verdict decoder (.ok reply) = .error .emptyIndex ↔
      ∃ message, MessageOf decoder reply message ∧ Mentions message.toList "empty".toList ∧
        (Mentions message.toList "index".toList ∨ Mentions message.toList "namespace".toList) := by
  refine ⟨?_, verdict_eq_emptyIndex_iff decoder⟩
  obtain ⟨k, hk, hbefore, hlast, hrun⟩ := run_attempts decoder transport.recorded
    (client.request method path body) (network, []) client.maxRetries 0
  simp only [Nat.zero_add, replyTo_recorded] at hbefore hlast hrun
  rw [networkAfter_recorded _ _ _ (k + 1)] at hrun
  have hcall : outcome (call client transport.recorded method path body decoder) (network, []) =
      (verdict decoder (replyTo transport (client.request method path body) network k),
        networkAfter transport (client.request method path body) network (k + 1),
        sentIn (client.request method path body) (k + 1)) := by
    rw [outcome_call]
    exact hrun
  rw [hcall]
  refine ⟨k, hk, hbefore, fun hretried => ⟨hlast hretried, verdict_of_retried decoder hretried⟩, rfl,
    gives_verdict decoder _, ?_⟩
  intro i reply text hi hreply htext hsuccess
  have hcounts := not_retried_of_isSuccess htext hsuccess
  have heq : i = k := by
    by_contra hne
    have hretried := hbefore i (by omega)
    rw [hreply] at hretried
    exact hcounts hretried
  subst heq
  exact ⟨rfl, (gives_verdict decoder _).succeeded reply text hreply htext hsuccess⟩

end Upstash
end SourceIndex.Remote

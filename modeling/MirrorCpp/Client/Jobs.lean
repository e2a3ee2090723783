import MirrorCpp.Client.Conformance
import MirrorCpp.Client.Session
import MirrorCpp.Protocol.Texts

/-!
# Asynchronous jobs (`client.cpp`)

An operation sends one job message and reads its reply, on a transport it only borrows. `JobRun`
is its traffic and its result; `Exchanged` lists the ways the exchange behind every operation can
go. `Classified` is what the callers count on when they use the connection again.
-/

namespace MirrorCpp.Client

open Itf Protocol

/-! ## Operations -/

/-- The traffic of an operation; the outer `Except` of the result is an exception. -/
structure JobRun (α : Type) where
  traffic : List Traffic
  result : Except Exn (Result α)

structure JobAccepted where
  jobId : String
  kind : JobKind
  deriving DecidableEq, Repr

structure JobStatus where
  jobId : String
  phase : JobPhase
  deriving DecidableEq, Repr

inductive AwaitResult where
  | result (jobId : String) (outcome : JobOutcome)
  | status (s : JobStatus)
  deriving Repr

namespace JobRun

variable {α : Type}

/-- Close and return an error, after some traffic. -/
def abort (ts : List Traffic) (e : Error) : JobRun α := ⟨ts ++ [.close], .ok (.error e)⟩

end JobRun

/-- The job a control message is about. -/
def expectedId : ClientMessage → Option String
  | .queryJob jobId | .awaitJob jobId _ | .cancelJob jobId => some jobId
  | _ => none

/-- The job a reply is about. -/
def actualId : MirrorMessage → Option String
  | .jobStatus jobId _ | .jobResult jobId _ => some jobId
  | _ => none

section Operations

variable (lib : Library) (asyncCapable : Bool) (a : Answers)

/-- `job_exchange`. -/
def jobExchange (msg : ClientMessage) : JobRun MirrorMessage :=
  if !asyncCapable then
    ⟨[], .ok (.error
      { kind := .protocol, message := "async jobs require a server-mode transport" })⟩
  else match Phase.sent .idle msg with
    | .error e => .abort [] e
    | .ok guard =>
      match lib.encode msg with
      | none => ⟨[], .error (.std lib.dumpWhat)⟩
      | some line =>
        match a.send with
        | some e => .abort [.send line] e
        | none =>
          let ts := [.send line, .recv a.recv]
          match a.recv with
          | .error e => .abort ts e
          | .ok text =>
            match lib.decode text with
            | .error x => ⟨ts, .error (.std (lib.escapeWhat x))⟩
            | .ok (.error e) => .abort ts e
            | .ok (.ok m) =>
              match guard.received m with
              | .error e => .abort ts e
              | .ok _ =>
                match m with
                | .registerError error =>
                  ⟨ts, .ok (.error { kind := .registration, message := error })⟩
                | .protocolError error => .abort ts { kind := .protocol, message := error }
                | m =>
                  match expectedId msg with
                  | none => ⟨ts, .ok (.ok m)⟩
                  | some jobId =>
                    if actualId m = some jobId then ⟨ts, .ok (.ok m)⟩
                    else .abort ts
                      { kind := .protocol, message := "async reply jobId mismatch" }

/-- The kind of job a submission is about. -/
def submittedKind : ClientMessage → JobKind
  | .registerValidateAsync _ _ _ => .validate
  | _ => .genTraces

/-- `submit_async`. -/
def submitAsync (msg : ClientMessage) : JobRun JobAccepted :=
  if !asyncCapable then
    ⟨[], .ok (.error
      { kind := .protocol, message := "async jobs require a server-mode (TCP/TLS) transport" })⟩
  else
    let r := jobExchange lib asyncCapable a msg
    match r.result with
    | .error x => ⟨r.traffic, .error x⟩
    | .ok (.error e) => ⟨r.traffic, .ok (.error e)⟩
    | .ok (.ok (.jobAccepted jobId kind)) =>
      if kind = submittedKind msg then ⟨r.traffic, .ok (.ok ⟨jobId, kind⟩)⟩
      else .abort r.traffic { kind := .protocol, message := "async reply job kind mismatch" }
    | .ok (.ok m) => .abort r.traffic (unexpectedTagError m "job_accepted")

/-- `classify_job_reply`. -/
def classifyJobReply (r : JobRun MirrorMessage) (expected : String) : JobRun AwaitResult :=
  match r.result with
  | .error x => ⟨r.traffic, .error x⟩
  | .ok (.error e) => ⟨r.traffic, .ok (.error e)⟩
  | .ok (.ok (.jobResult jobId outcome)) => ⟨r.traffic, .ok (.ok (.result jobId outcome))⟩
  | .ok (.ok (.jobStatus jobId phase)) => ⟨r.traffic, .ok (.ok (.status ⟨jobId, phase⟩))⟩
  | .ok (.ok m) => .abort r.traffic (unexpectedTagError m expected)

def submitValidateAsync (config : ApalacheConfig) (bound : Int)
    (inlineSpec : Option ApalacheSpec) : JobRun JobAccepted :=
  submitAsync lib asyncCapable a (.registerValidateAsync config bound inlineSpec)

def submitTraceGenAsync (config : ApalacheConfig) (traceConfig : TraceGenerationConfig)
    (destPath : Option String) (inlineSpec : Option ApalacheSpec) : JobRun JobAccepted :=
  submitAsync lib asyncCapable a (.registerTraceGenAsync config traceConfig destPath inlineSpec)

def queryJobResult (jobId : String) : JobRun AwaitResult :=
  classifyJobReply (jobExchange lib asyncCapable a (.queryJob jobId)) "job_result | job_status"

/-- The status a result stands for. -/
def AwaitResult.toStatus : AwaitResult → JobStatus
  | .status s => s
  | .result jobId (.error _) => ⟨jobId, .failed⟩
  | .result jobId _ => ⟨jobId, .done⟩

def queryJob (jobId : String) : JobRun JobStatus :=
  let r := queryJobResult lib asyncCapable a jobId
  ⟨r.traffic, match r.result with
    | .error x => .error x
    | .ok (.error e) => .ok (.error e)
    | .ok (.ok reply) => .ok (.ok reply.toStatus)⟩

def awaitJob (jobId : String) (timeoutSecs : Option Int) : JobRun AwaitResult :=
  classifyJobReply (jobExchange lib asyncCapable a (.awaitJob jobId timeoutSecs))
    "job_result | job_status"

def cancelJob (jobId : String) : JobRun AwaitResult :=
  classifyJobReply (jobExchange lib asyncCapable a (.cancelJob jobId)) "job_result | job_status"

end Operations

/-! ## Requests as data -/

inductive JobRequest where
  | submitValidate (config : ApalacheConfig) (bound : Int) (inlineSpec : Option ApalacheSpec)
  | submitTraceGen (config : ApalacheConfig) (traceConfig : TraceGenerationConfig)
      (destPath : Option String) (inlineSpec : Option ApalacheSpec)
  | queryResult (jobId : String)
  | query (jobId : String)
  | await (jobId : String) (timeoutSecs : Option Int)
  | cancel (jobId : String)

/-- What a request returns. -/
inductive JobSuccess where
  | accepted (j : JobAccepted)
  | reply (r : AwaitResult)
  | status (s : JobStatus)

def JobRun.map {α β : Type} (f : α → β) (r : JobRun α) : JobRun β :=
  ⟨r.traffic, match r.result with
    | .error x => .error x
    | .ok (.error e) => .ok (.error e)
    | .ok (.ok v) => .ok (.ok (f v))⟩

namespace JobRequest

def message : JobRequest → ClientMessage
  | submitValidate config bound inlineSpec => .registerValidateAsync config bound inlineSpec
  | submitTraceGen config traceConfig destPath inlineSpec =>
    .registerTraceGenAsync config traceConfig destPath inlineSpec
  | queryResult jobId | query jobId => .queryJob jobId
  | await jobId timeoutSecs => .awaitJob jobId timeoutSecs
  | cancel jobId => .cancelJob jobId

def perform (lib : Library) (asyncCapable : Bool) (a : Answers) : JobRequest → JobRun JobSuccess
  | submitValidate config bound inlineSpec =>
    (submitValidateAsync lib asyncCapable a config bound inlineSpec).map .accepted
  | submitTraceGen config traceConfig destPath inlineSpec =>
    (submitTraceGenAsync lib asyncCapable a config traceConfig destPath inlineSpec).map .accepted
  | queryResult jobId => (queryJobResult lib asyncCapable a jobId).map .reply
  | query jobId => (queryJob lib asyncCapable a jobId).map .status
  | await jobId timeoutSecs => (awaitJob lib asyncCapable a jobId timeoutSecs).map .reply
  | cancel jobId => (cancelJob lib asyncCapable a jobId).map .reply

/-- The replies that grant a request, and what it then returns: an acceptance of the kind of job
submitted, a status or a result of the job asked for. -/
def granted : JobRequest → MirrorMessage → Option JobSuccess
  | submitValidate _ _ _, .jobAccepted jobId .validate => some (.accepted ⟨jobId, .validate⟩)
  | submitTraceGen _ _ _ _, .jobAccepted jobId .genTraces => some (.accepted ⟨jobId, .genTraces⟩)
  | queryResult id, .jobResult jobId outcome | await id _, .jobResult jobId outcome
  | cancel id, .jobResult jobId outcome =>
    if jobId = id then some (.reply (.result jobId outcome)) else none
  | queryResult id, .jobStatus jobId phase | await id _, .jobStatus jobId phase
  | cancel id, .jobStatus jobId phase =>
    if jobId = id then some (.reply (.status ⟨jobId, phase⟩)) else none
  | query id, .jobResult jobId outcome =>
    if jobId = id then some (.status (AwaitResult.result jobId outcome).toStatus) else none
  | query id, .jobStatus jobId phase => if jobId = id then some (.status ⟨jobId, phase⟩) else none
  | _, _ => none

end JobRequest

/-! ## The exchange -/

/-- Traffic of at most one send, then at most one reply, and no close. -/
def Once (ts : List Traffic) : Prop :=
  ts = [] ∨ (∃ line, ts = [.send line]) ∨ ∃ line reply, ts = [.send line, .recv reply]

/-- The replies the guard lets pass that are no errors. -/
def isJobReply : MirrorMessage → Bool
  | .jobAccepted _ _ | .jobStatus _ _ | .jobResult _ _ => true
  | _ => false

/-- The ways an exchange can go. -/
inductive Exchanged (lib : Library) (asyncCapable : Bool) (a : Answers) (msg : ClientMessage) :
    JobRun MirrorMessage → Prop
  | refused {e : Error} : asyncCapable = false →
      Exchanged lib asyncCapable a msg ⟨[], .ok (.error e)⟩
  | thrown {x : Exn} : asyncCapable = true → lib.encode msg = none →
      Exchanged lib asyncCapable a msg ⟨[], .error x⟩
  | aborted {ts : List Traffic} {e : Error} : asyncCapable = true → lib.encode msg ≠ none →
      Once ts → (∀ text err, .recv (.ok text) ∈ ts →
        lib.decode text ≠ .ok (.ok (.registerError err))) →
      Exchanged lib asyncCapable a msg ⟨ts ++ [.close], .ok (.error e)⟩
  | rejected {line text error : String} {e : Error} : asyncCapable = true →
      lib.encode msg = some line → lib.decode text = .ok (.ok (.registerError error)) →
      Exchanged lib asyncCapable a msg ⟨[.send line, .recv (.ok text)], .ok (.error e)⟩
  | passed {line text : String} {m : MirrorMessage} : asyncCapable = true →
      lib.encode msg = some line → a.recv = .ok text → lib.decode text = .ok (.ok m) →
      isJobReply m = true → (∀ id, expectedId msg = some id → actualId m = some id) →
      Exchanged lib asyncCapable a msg ⟨[.send line, .recv (.ok text)], .ok (.ok m)⟩

section Exchange

variable {lib : Library} {asyncCapable : Bool} {a : Answers} {msg : ClientMessage}

/-- The guard of an idle connection lets job replies and errors pass. -/
theorem received_idle {m : MirrorMessage} {guard : Phase} (h : Phase.idle.received m = .ok guard) :
    isJobReply m = true ∨ (∃ e, m = .registerError e) ∨ ∃ e, m = .protocolError e := by
  cases m with
  | jobAccepted _ _ | jobStatus _ _ | jobResult _ _ => exact .inl rfl
  | registerError e => exact .inr (.inl ⟨e, rfl⟩)
  | protocolError e => exact .inr (.inr ⟨e, rfl⟩)
  | specValidated m => cases h
  | _ => cases h

/-- Every exchange of a message the idle guard sends goes one of the ways. -/
theorem jobExchange_exchanged (hs : Phase.sent .idle msg = .ok .idle)
    (hd : ∀ text, a.recv = .ok text → ∃ r, lib.decode text = .ok r) :
    Exchanged lib asyncCapable a msg (jobExchange lib asyncCapable a msg) := by
  unfold jobExchange
  cases hcap : asyncCapable with
  | false => exact .refused rfl
  | true =>
    simp only [Bool.not_true, Bool.false_eq_true, if_false, hs]
    cases he : lib.encode msg with
    | none => exact .thrown rfl he
    | some line =>
      have hne : lib.encode msg ≠ none := by rw [he]; nofun
      dsimp only
      cases a.send with
      | some e => exact .aborted rfl hne (.inr (.inl ⟨line, rfl⟩)) (by simp)
      | none =>
        dsimp only
        cases hr : a.recv with
        | error e => exact .aborted rfl hne (.inr (.inr ⟨line, _, rfl⟩)) (by simp)
        | ok text =>
          obtain ⟨r, hr'⟩ := hd text hr
          -- the reply was read and is no refusal of the registration
          have hab : ∀ {e : Error}, (∀ err, r ≠ .ok (.registerError err)) →
              Exchanged lib true a msg (.abort [.send line, .recv (.ok text)] e) := by
            intro e hn
            refine .aborted rfl hne (.inr (.inr ⟨line, _, rfl⟩)) fun t err ht => ?_
            obtain rfl : t = text := by simpa using ht
            rw [hr']
            exact fun h => hn err (Except.ok.inj h)
          simp only [hr']
          cases r with
          | error e => exact hab nofun
          | ok m =>
            dsimp only
            cases hg : Phase.idle.received m with
            | error e =>
              refine hab ?_
              rintro err ⟨⟩
              cases hg
            | ok guard =>
              dsimp only
              rcases received_idle hg with hj | ⟨e, rfl⟩ | ⟨e, rfl⟩
              · have hpass := @Exchanged.passed lib true a msg line text m rfl he hr hr' hj
                cases m with
                | jobAccepted _ _ | jobStatus _ _ | jobResult _ _ =>
                  dsimp only
                  cases hid : expectedId msg with
                  | none => exact hpass (by simp [hid])
                  | some id =>
                    dsimp only
                    split
                    · rename_i h
                      exact hpass fun i hi => by rw [h, ← hi, hid]
                    · exact hab nofun
                | _ => cases hj
              · exact .rejected rfl he hr'
              · exact hab nofun

/-- The ways an operation can go. -/
inductive Performed (lib : Library) (asyncCapable : Bool) (a : Answers) (req : JobRequest) :
    JobRun JobSuccess → Prop
  | refused {e : Error} : asyncCapable = false →
      Performed lib asyncCapable a req ⟨[], .ok (.error e)⟩
  | thrown {x : Exn} : asyncCapable = true → lib.encode req.message = none →
      Performed lib asyncCapable a req ⟨[], .error x⟩
  | aborted {ts : List Traffic} {e : Error} : asyncCapable = true →
      lib.encode req.message ≠ none → Once ts → (∀ text err, .recv (.ok text) ∈ ts →
        lib.decode text ≠ .ok (.ok (.registerError err))) →
      Performed lib asyncCapable a req ⟨ts ++ [.close], .ok (.error e)⟩
  | rejected {line text error : String} {e : Error} : asyncCapable = true →
      lib.encode req.message = some line → lib.decode text = .ok (.ok (.registerError error)) →
      Performed lib asyncCapable a req ⟨[.send line, .recv (.ok text)], .ok (.error e)⟩
  | granted {line text : String} {m : MirrorMessage} {v : JobSuccess} : asyncCapable = true →
      lib.encode req.message = some line → a.recv = .ok text →
      lib.decode text = .ok (.ok m) → req.granted m = some v →
      Performed lib asyncCapable a req ⟨[.send line, .recv (.ok text)], .ok (.ok v)⟩

theorem sent_job (req : JobRequest) : Phase.sent .idle req.message = .ok .idle := by
  cases req <;> rfl

/-- An operation that hands on what fails and grants or closes on a job reply. -/
theorem performed_of {req : JobRequest} {r : JobRun MirrorMessage} {o : JobRun JobSuccess}
    (hx : Exchanged lib asyncCapable a req.message r)
    (hthrow : ∀ x, r.result = .error x → o = ⟨r.traffic, .error x⟩)
    (hfail : ∀ e, r.result = .ok (.error e) → o = ⟨r.traffic, .ok (.error e)⟩)
    (hreply : ∀ m, r.result = .ok (.ok m) → isJobReply m = true →
      (∀ id, expectedId req.message = some id → actualId m = some id) →
      (∃ v, req.granted m = some v ∧ o = ⟨r.traffic, .ok (.ok v)⟩) ∨
        ∃ e, o = ⟨r.traffic ++ [.close], .ok (.error e)⟩) :
    Performed lib asyncCapable a req o := by
  cases hx with
  | refused hcap => rw [hfail _ rfl]; exact .refused hcap
  | thrown hcap he => rw [hthrow _ rfl]; exact .thrown hcap he
  | aborted hcap he hts hr => rw [hfail _ rfl]; exact .aborted hcap he hts hr
  | rejected hcap he hr => rw [hfail _ rfl]; exact .rejected hcap he hr
  | @passed line text m hcap he hrecv hdec hj hid =>
    rcases hreply m rfl hj hid with ⟨v, hv, rfl⟩ | ⟨e, rfl⟩
    · exact .granted hcap he hrecv hdec hv
    · refine .aborted hcap (by rw [he]; nofun) (.inr (.inr ⟨line, _, rfl⟩)) fun t err ht => ?_
      obtain rfl : t = text := by simpa using ht
      rw [hdec]
      rintro ⟨⟩
      cases hj

/-- A submission, for the kind of job it accepts. -/
theorem submit_performed {req : JobRequest}
    (hd : ∀ text, a.recv = .ok text → ∃ r, lib.decode text = .ok r)
    (hg : ∀ jobId kind, req.granted (.jobAccepted jobId kind) =
      if kind = submittedKind req.message then some (.accepted ⟨jobId, kind⟩) else none) :
    Performed lib asyncCapable a req
      ((submitAsync lib asyncCapable a req.message).map .accepted) := by
  have hx := @jobExchange_exchanged lib asyncCapable a _ (sent_job req) hd
  unfold submitAsync
  cases hcap : asyncCapable with
  | false => exact .refused rfl
  | true =>
    rw [hcap] at hx
    simp only [Bool.not_true, Bool.false_eq_true, if_false]
    refine performed_of hx (fun x h => ?_) (fun e h => ?_) fun m h hj _ => ?_
    · simp only [JobRun.map, h]
    · simp only [JobRun.map, h]
    · simp only [JobRun.map, h]
      cases m with
      | jobAccepted jobId kind =>
        dsimp only
        split
        · rename_i hk
          exact .inl ⟨_, by rw [hg, if_pos hk], rfl⟩
        · exact .inr ⟨_, rfl⟩
      | jobStatus _ _ | jobResult _ _ => exact .inr ⟨_, rfl⟩
      | _ => cases hj

/-- A control operation, for what it returns of a status and of a result. -/
theorem control_performed {req : JobRequest} {id expected : String} {f : AwaitResult → JobSuccess}
    (hd : ∀ text, a.recv = .ok text → ∃ r, lib.decode text = .ok r)
    (hid : expectedId req.message = some id)
    (hr : ∀ outcome, req.granted (.jobResult id outcome) = some (f (.result id outcome)))
    (hs : ∀ phase, req.granted (.jobStatus id phase) = some (f (.status ⟨id, phase⟩))) :
    Performed lib asyncCapable a req
      ((classifyJobReply (jobExchange lib asyncCapable a req.message) expected).map f) := by
  have hx := @jobExchange_exchanged lib asyncCapable a _ (sent_job req) hd
  refine performed_of hx (fun x h => ?_) (fun e h => ?_) fun m h hj hm => ?_
  · simp only [classifyJobReply, JobRun.map, h]
  · simp only [classifyJobReply, JobRun.map, h]
  · simp only [classifyJobReply, JobRun.map, h]
    cases m with
    | jobResult jobId outcome =>
      obtain rfl : jobId = id := by simpa [actualId] using hm id hid
      exact .inl ⟨_, hr outcome, rfl⟩
    | jobStatus jobId phase =>
      obtain rfl : jobId = id := by simpa [actualId] using hm id hid
      exact .inl ⟨_, hs phase, rfl⟩
    | jobAccepted _ _ => exact .inr ⟨_, rfl⟩
    | _ => cases hj

/-- Every operation goes one of the ways. -/
theorem perform_performed (req : JobRequest)
    (hd : ∀ text, a.recv = .ok text → ∃ r, lib.decode text = .ok r) :
    Performed lib asyncCapable a req (req.perform lib asyncCapable a) := by
  cases req with
  | submitValidate config bound inlineSpec =>
    exact submit_performed hd fun jobId kind => by cases kind <;> rfl
  | submitTraceGen config traceConfig destPath inlineSpec =>
    exact submit_performed hd fun jobId kind => by cases kind <;> rfl
  | queryResult jobId => exact control_performed hd rfl (fun _ => if_pos rfl) fun _ => if_pos rfl
  | query jobId =>
    have h := @control_performed lib asyncCapable a (.query jobId) jobId
      "job_result | job_status" (fun r => .status r.toStatus) hd rfl (fun _ => if_pos rfl)
      fun _ => if_pos rfl
    have he : (queryJob lib asyncCapable a jobId).map JobSuccess.status =
        (queryJobResult lib asyncCapable a jobId).map fun r => .status r.toStatus := by
      simp only [queryJob, JobRun.map]
      rcases (queryJobResult lib asyncCapable a jobId).result with x | (e | r) <;> rfl
    rw [JobRequest.perform, he]
    exact h
  | await jobId timeoutSecs =>
    exact control_performed hd rfl (fun _ => if_pos rfl) fun _ => if_pos rfl
  | cancel jobId => exact control_performed hd rfl (fun _ => if_pos rfl) fun _ => if_pos rfl

end Exchange

/-! ## What the caller is left with -/

def Traffic.isSend : Traffic → Bool
  | send _ => true
  | _ => false

def Traffic.isRecv : Traffic → Bool
  | recv _ => true
  | _ => false

theorem Once.counts {ts : List Traffic} (h : Once ts) :
    (ts.filter Traffic.isSend).length ≤ 1 ∧ (ts.filter Traffic.isRecv).length ≤ 1 := by
  rcases h with rfl | ⟨line, rfl⟩ | ⟨line, reply, rfl⟩ <;>
    simp [Traffic.isSend, Traffic.isRecv, List.filter_cons]

/-- The mirror answered `register_error`. -/
def RegisterErrorRead (lib : Library) (ts : List Traffic) : Prop :=
  ∃ text error, .recv (.ok text) ∈ ts ∧ lib.decode text = .ok (.ok (.registerError error))

/-- At most one line is sent and one received; a success is a reply that grants the request; and
the transport stays open exactly behind a success, a `register_error`, or when it was not asked at
all. -/
structure Classified (lib : Library) (asyncCapable : Bool) (a : Answers) (req : JobRequest)
    (o : JobRun JobSuccess) : Prop where
  sent : (o.traffic.filter Traffic.isSend).length ≤ 1
  received : (o.traffic.filter Traffic.isRecv).length ≤ 1
  success : ∀ v, o.result = .ok (.ok v) → ∃ text m, a.recv = .ok text ∧
    lib.decode text = .ok (.ok m) ∧ req.granted m = some v
  left_open : .close ∉ o.traffic ↔
    (∃ v, o.result = .ok (.ok v)) ∨ RegisterErrorRead lib o.traffic ∨ asyncCapable = false
  untouched : asyncCapable = false → o.traffic = []

/-- **Every operation on a job classifies its reply and leaves the transport open exactly where it
can be used again, as long as the texts of the request are valid UTF-8**; otherwise the request
does not encode, and an exception leaves the transport open. -/
theorem jobs_classified (lib : Library) (asyncCapable : Bool) (a : Answers) (req : JobRequest)
    (hd : ∀ text, a.recv = .ok text → ∃ r, lib.decode text = .ok r) :
    Classified lib asyncCapable a req (req.perform lib asyncCapable a) ↔
      asyncCapable = false ∨ ∀ t ∈ req.message.texts, Text.utf8 t = true := by
  have henc : (∀ t ∈ req.message.texts, Text.utf8 t = true) ↔ lib.encode req.message ≠ none := by
    unfold Library.encode
    rw [← utf8_toJson, ← encodeClientMessage_isSome lib.json]
    exact Option.isSome_iff_ne_none
  rw [henc]
  have hp := @perform_performed lib asyncCapable a req hd
  generalize req.perform lib asyncCapable a = o at hp
  cases hp with
  | refused hcap =>
    refine iff_of_true ⟨by simp, by simp, nofun, ?_, fun _ => rfl⟩ (.inl hcap)
    simp [hcap]
  | thrown hcap he =>
    refine iff_of_false (fun h => ?_) (by simp [hcap, he])
    have := h.left_open.mp (by simp)
    simp [RegisterErrorRead, hcap] at this
  | @aborted ts e hcap he hts hr =>
    have hc := hts.counts
    refine iff_of_true ⟨?_, ?_, nofun, ?_, fun h => ?_⟩ (.inr he)
    · simpa [Traffic.isSend, List.filter_cons] using hc.1
    · simpa [Traffic.isRecv, List.filter_cons] using hc.2
    · refine iff_of_false (by simp) ?_
      rintro (⟨v, h⟩ | ⟨text, error, hm, hdec⟩ | h)
      · cases h
      · exact hr text error (by simpa using hm) hdec
      · rw [hcap] at h; cases h
    · rw [hcap] at h; cases h
  | @rejected line text error e hcap he hdec =>
    have hc := Once.counts (.inr (.inr ⟨line, .ok text, rfl⟩))
    refine iff_of_true ⟨hc.1, hc.2, nofun, ?_, fun h => ?_⟩ (.inr (by rw [he]; nofun))
    · exact iff_of_true (by simp) (.inr (.inl ⟨text, error, by simp, hdec⟩))
    · rw [hcap] at h; cases h
  | @granted line text m v hcap he hrecv hdec hv =>
    have hc := Once.counts (.inr (.inr ⟨line, .ok text, rfl⟩))
    refine iff_of_true ⟨hc.1, hc.2, ?_, ?_, fun h => ?_⟩ (.inr (by rw [he]; nofun))
    · rintro _ ⟨⟩
      exact ⟨text, m, hrecv, hdec, hv⟩
    · exact iff_of_true (by simp) (.inl ⟨v, rfl⟩)
    · rw [hcap] at h; cases h

/-- The answers of a mirror that is still working on the job asked for. -/
def runningAnswers : Answers where
  send := none
  recv := .ok (sampleText (.obj [("jobId", .str "j"), ("phase", .str "running"),
    ("proto_step", .str "job_status")]))
  close := none

theorem decodes_running {text : String} (h : runningAnswers.recv = .ok text) :
    ∃ r, compactLibrary.decode text = .ok r := by
  cases h
  have h : (compactLibrary.decode (sampleText (.obj [("jobId", .str "j"),
    ("phase", .str "running"), ("proto_step", .str "job_status")]))).isOk = true := by
    decide +kernel
  cases hd : compactLibrary.decode (sampleText (.obj [("jobId", .str "j"),
    ("phase", .str "running"), ("proto_step", .str "job_status")])) with
  | ok r => exact ⟨r, rfl⟩
  | error e => rw [hd] at h; cases h

theorem jobs_classified_sample : Classified compactLibrary true runningAnswers (.query "j")
    ((JobRequest.query "j").perform compactLibrary true runningAnswers) := by
  refine (jobs_classified compactLibrary true runningAnswers (.query "j")
    fun _ => decodes_running).mpr (.inr ?_)
  simp only [JobRequest.message, ClientMessage.texts, List.mem_singleton]
  rintro _ rfl
  decide

/-- A job id that is no UTF-8: an exception, and the transport stays open. -/
theorem jobs_unencodable :
    (∀ text, runningAnswers.recv = .ok text → ∃ r, compactLibrary.decode text = .ok r) ∧
    (JobRequest.query "\xff").perform compactLibrary true runningAnswers =
      ⟨[], .error (.std "[json.exception.type_error.316] invalid UTF-8 byte")⟩ ∧
    ¬ Classified compactLibrary true runningAnswers (.query "\xff")
      ((JobRequest.query "\xff").perform compactLibrary true runningAnswers) := by
  have h : (JobRequest.query "\xff").perform compactLibrary true runningAnswers =
      ⟨[], .error (.std "[json.exception.type_error.316] invalid UTF-8 byte")⟩ := by
    have he : compactLibrary.encode (.queryJob "\xff") = none := by
      rw [Library.encode, ← Option.not_isSome_iff_eq_none, encodeClientMessage_isSome, utf8_toJson]
      simp only [ClientMessage.texts, List.mem_singleton, forall_eq]
      decide
    simp only [JobRequest.perform, queryJob, queryJobResult, jobExchange, Bool.not_true,
      Bool.false_eq_true, if_false, he]
    rfl
  refine ⟨fun _ => decodes_running, h, fun hc => ?_⟩
  rw [h] at hc
  have := hc.left_open.mp (by simp)
  simp [RegisterErrorRead] at this

end MirrorCpp.Client

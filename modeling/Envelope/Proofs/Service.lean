import Envelope.Enclave
import Envelope.Proofs.Drafts

/-!
# What refused requests leave behind

An enclave answers requests one after another from one stream of random bytes. Every
operation makes all its checks before its first draw, so a refusal leaves no trace
and the requests that were refused might as well not have been made. Only a request
that runs out of random bytes may have used some. Stopping is for good.
-/

namespace Envelope

/-! ## Operations that refuse before they draw -/

namespace Payload

variable {suite : Suite}

theorem failsOnly_sealKey (key : SymmetricKey) (sealer : PrivateKey) (recipient : PublicKey) :
    (sealKey suite key sealer recipient).FailsOnly (· = .resource .randomness) := by
  refine Sampler.failsOnly_nonce.bind fun nonce => ?_
  exact (Sampler.failsOnly_sealBox suite _ nonce _).map _

theorem failsOnly_sealKeys (key : SymmetricKey) (sealer : PrivateKey) (payload : Payload)
    (recipients : List PublicKey) :
    (sealKeys suite key sealer payload recipients).FailsOnly (· = .resource .randomness) := by
  induction recipients generalizing payload with
  | nil => exact Sampler.failsOnly_pure payload
  | cons recipient rest ih =>
    cases hmem : payload.boxes.contains recipient with
    | true =>
      rw [sealKeys_of_contains hmem]
      exact ih payload
    | false =>
      rw [sealKeys_of_not_contains hmem]
      exact (failsOnly_sealKey key sealer recipient).bind fun box => ih _

theorem prompt_encrypt (message : Bytes) (sender : PrivateKey) (recipients : List PublicKey) :
    (encrypt suite message sender recipients).Prompt (· = .resource .randomness)
      fun _ => True := by
  refine Sampler.Prompt.lift_bind (fun _ _ => trivial) fun _ _ => Sampler.FailsOnly.prompt ?_
  refine Sampler.failsOnly_payloadKey.bind fun key => ?_
  refine Sampler.failsOnly_nonce.bind fun nonce => ?_
  refine (Sampler.failsOnly_sealBody suite key nonce message).bind fun body => ?_
  exact failsOnly_sealKeys key sender _ recipients

theorem prompt_newBox (payload : Payload) (own : PrivateKey) (recipient : PublicKey) :
    (newBox suite payload own recipient).Prompt (· = .resource .randomness) fun _ => True := by
  refine Sampler.Prompt.lift_bind (fun _ _ => trivial) fun _ _ => ?_
  refine Sampler.Prompt.lift_bind (fun _ _ => trivial) fun key _ => ?_
  exact (failsOnly_sealKey key own recipient).prompt

end Payload

namespace Draft

variable {suite : Suite}

theorem prompt_encrypt (message : Bytes) (sender : PrivateKey) :
    (encrypt suite message sender).Prompt (· = .resource .randomness) fun _ => True := by
  refine Sampler.FailsOnly.prompt ?_
  refine Sampler.failsOnly_payloadKey.bind fun key => ?_
  refine Sampler.failsOnly_nonce.bind fun nonce => ?_
  refine (Sampler.failsOnly_sealBody suite key nonce message).bind fun body => ?_
  exact (Sampler.failsOnly_sealBox suite _ nonce _).map _

theorem prompt_address (draft : Draft) (sender : PrivateKey) (recipients : List PublicKey) :
    (draft.address suite sender recipients).Prompt (· = .resource .randomness)
      fun _ => True := by
  refine Sampler.Prompt.lift_bind (fun _ _ => trivial) fun _ _ => ?_
  split
  · exact Sampler.prompt_ofExcept fun _ _ => trivial
  · exact (Payload.failsOnly_sealKeys _ _ _ _).prompt

end Draft

/-- Whether there was too little of something. -/
def EnclaveError.shortage : EnclaveError → Bool
  | .crypto (.resource _) => true
  | _ => false

namespace Enclave

variable {suite : Suite} {enclave : Enclave}

/-- The error does not say that the enclave is stopped unless it is. -/
def Candid (enclave : Enclave) (error : EnclaveError) : Prop :=
  error = .stopped → enclave.running = false

theorem candid_of_requireRunning {error : EnclaveError}
    (h : enclave.requireRunning = .error error) : enclave.Candid error := by
  intro _
  cases hrunning : enclave.running with
  | false => rfl
  | true =>
    rw [requireRunning, if_pos hrunning] at h
    cases h

theorem candid_crypto (enclave : Enclave) (error : Error) : enclave.Candid (.crypto error) := by
  intro h
  cases h

theorem candid_of_requireRecipients {recipients : List PublicKey} {error : EnclaveError}
    (h : requireRecipients recipients = .error error) : enclave.Candid error := by
  unfold requireRecipients at h
  split at h
  · cases h
    exact candid_crypto enclave _
  · cases h

theorem candid_of_privateKey {name : PublicKey} {error : EnclaveError}
    (h : enclave.ring.privateKey name = .error error) : enclave.Candid error := by
  unfold KeyRing.privateKey at h
  split at h
  · cases h
  · cases h
    intro hstopped
    cases hstopped

theorem candid_of_mapError {α : Type} {result : Except Error α} {error : EnclaveError}
    (h : result.mapError .crypto = .error error) : enclave.Candid error := by
  cases result with
  | ok a => cases h
  | error fault => exact Except.error.inj h ▸ candid_crypto enclave fault

/-- Reading what the enclave holds only takes that it is running. -/
theorem prompt_read {α : Type} (enclave : Enclave) (a : α) :
    (liftM (enclave.requireRunning >>= fun _ => pure a) : Sampler EnclaveError α).Prompt
      (·.shortage = true) enclave.Candid := by
  rw [Sampler.lift_bind]
  refine Sampler.Prompt.lift_bind (fun _ => candid_of_requireRunning) fun _ _ => ?_
  exact (Sampler.failsOnly_pure a).prompt

/-- An operation with a held key is prompt where the operation on payloads is. -/
theorem prompt_held {α : Type} {name : PublicKey} {work : PrivateKey → Sampler Error α}
    (h : ∀ key, (work key).Prompt (· = .resource .randomness) fun _ => True) :
    ((liftM (enclave.ring.privateKey name) : Sampler EnclaveError PrivateKey) >>= fun key =>
      (work key).mapError .crypto).Prompt (·.shortage = true) enclave.Candid := by
  refine Sampler.Prompt.lift_bind (fun _ => candid_of_privateKey) fun key _ => ?_
  apply (h key).mapError
  · rintro error rfl
    rfl
  · exact fun error _ => candid_crypto enclave error

/-! ## Requests -/

inductive Request
  | defaultKey
  | forwardingKeys
  | publicKeys
  | encrypt (message : Bytes) (sender : PublicKey) (recipients : List PublicKey)
  | encryptDraft (message : Bytes) (sender : PublicKey)
  | addressDraft (draft : Draft) (recipients : List PublicKey)
  | decrypt (payload : Payload) (key : PublicKey)
  | newBox (payload : Payload) (recipient : PublicKey)
  | status
  | stop
deriving DecidableEq

inductive Reply
  | key (key : PublicKey)
  | keys (keys : KeySet)
  | payload (payload : Payload)
  | draft (draft : Draft)
  | message (message : Bytes)
  | box (box : KeyBox)
  | status (status : Status)
  | done
deriving DecidableEq

/-- What an enclave answers to a request. -/
def reply (suite : Suite) (enclave : Enclave) : Request → Sampler EnclaveError Reply
  | .defaultKey => return .key (← enclave.defaultKey)
  | .forwardingKeys => return .keys (← enclave.forwardingKeys)
  | .publicKeys => return .keys (← enclave.publicKeys)
  | .encrypt message sender recipients =>
    return .payload (← enclave.encrypt suite message sender recipients)
  | .encryptDraft message sender => return .draft (← enclave.encryptDraft suite message sender)
  | .addressDraft draft recipients =>
    return .payload (← enclave.addressDraft suite draft recipients)
  | .decrypt payload key => return .message (← enclave.decrypt suite payload key)
  | .newBox payload recipient => return .box (← enclave.newBox suite payload recipient)
  | .status => return .status enclave.status
  | .stop => return .done

/-- The enclave after a request. -/
def after (enclave : Enclave) : Request → Enclave
  | .stop => enclave.stop
  | _ => enclave

/-- A request with what came of it. -/
abbrev Entry := Request × Except EnclaveError Reply

/-- What a sequence of requests comes to. -/
structure Run where
  entries : List Entry
  left : Bytes
  enclave : Enclave

/-- Answers requests one after another. -/
def serve (suite : Suite) (enclave : Enclave) : List Request → Bytes → Run
  | [], stream => ⟨[], stream, enclave⟩
  | request :: rest, stream =>
    let outcome := enclave.reply suite request stream
    let run := serve suite (enclave.after request) rest outcome.left
    { run with entries := (request, outcome.result) :: run.entries }

/-- What a stopped enclave answers. -/
def declined : Request → Entry
  | .status => (.status, .ok (.status .stopped))
  | .stop => (.stop, .ok .done)
  | request => (request, .error .stopped)

/-! ## One request -/

/-- Whatever is refused is refused before the first draw. -/
theorem prompt_reply (suite : Suite) (enclave : Enclave) (request : Request) :
    (enclave.reply suite request).Prompt (·.shortage = true) enclave.Candid := by
  have hrunning : ∀ error, enclave.requireRunning = .error error → enclave.Candid error :=
    fun _ => candid_of_requireRunning
  cases request with
  | defaultKey => exact (prompt_read enclave enclave.ring.default).map _
  | forwardingKeys => exact (prompt_read enclave enclave.ring.forwarding).map _
  | publicKeys => exact (prompt_read enclave enclave.ring.publicKeys).map _
  | encrypt message sender recipients =>
    refine Sampler.Prompt.map ?_ _
    refine Sampler.Prompt.lift_bind hrunning fun _ _ => ?_
    refine Sampler.Prompt.lift_bind (fun _ => candid_of_requireRecipients) fun _ _ => ?_
    exact prompt_held fun key => Payload.prompt_encrypt message key _
  | encryptDraft message sender =>
    refine Sampler.Prompt.map ?_ _
    refine Sampler.Prompt.lift_bind hrunning fun _ _ => ?_
    exact prompt_held fun key => Draft.prompt_encrypt message key
  | addressDraft draft recipients =>
    refine Sampler.Prompt.map ?_ _
    refine Sampler.Prompt.lift_bind hrunning fun _ _ => ?_
    refine Sampler.Prompt.lift_bind (fun _ => candid_of_requireRecipients) fun _ _ => ?_
    exact prompt_held fun key => draft.prompt_address key _
  | decrypt payload name =>
    refine Sampler.Prompt.map ?_ _
    rw [decrypt, Sampler.lift_bind]
    refine Sampler.Prompt.lift_bind hrunning fun _ _ => ?_
    rw [Sampler.lift_bind]
    refine Sampler.Prompt.lift_bind (fun _ => candid_of_privateKey) fun key _ => ?_
    exact Sampler.prompt_ofExcept fun _ => candid_of_mapError
  | newBox payload recipient =>
    refine Sampler.Prompt.map ?_ _
    refine Sampler.Prompt.lift_bind hrunning fun _ _ => ?_
    split
    · exact Sampler.prompt_ofExcept fun error herror =>
        Except.error.inj herror ▸ candid_crypto enclave _
    · exact prompt_held fun key => payload.prompt_newBox key recipient
  | status => exact (Sampler.failsOnly_pure _).prompt
  | stop => exact (Sampler.failsOnly_pure _).prompt

theorem after_of_ne_stop {request : Request} (h : request ≠ .stop) :
    enclave.after request = enclave := by
  cases request with
  | stop => exact absurd rfl h
  | _ => rfl

/-- Nothing that fails changes the enclave. -/
theorem after_of_error {request : Request} {stream : Bytes} {error : EnclaveError}
    (h : (enclave.reply suite request stream).result = .error error) :
    enclave.after request = enclave := by
  apply after_of_ne_stop
  rintro rfl
  cases h

theorem reply_of_stopped (suite : Suite) (hstopped : enclave.running = false)
    (request : Request) (stream : Bytes) :
    (request, (enclave.reply suite request stream).result) = declined request ∧
      (enclave.reply suite request stream).left = stream := by
  have hrefused : enclave.requireRunning = .error .stopped := by simp [requireRunning, hstopped]
  cases request with
  | status => simp [reply, status, declined, hstopped]
  | stop => exact ⟨rfl, rfl⟩
  | _ =>
    simp only [reply, defaultKey, forwardingKeys, publicKeys, encrypt, encryptDraft, addressDraft,
      decrypt, newBox, hrefused]
    exact ⟨rfl, rfl⟩

theorem after_of_stopped (hstopped : enclave.running = false) (request : Request) :
    enclave.after request = enclave := by
  by_cases hstop : request = .stop
  · obtain ⟨ring, running⟩ := enclave
    cases hstopped
    rw [hstop]
    rfl
  · exact after_of_ne_stop hstop

/-! ## Sequences of requests -/

/-- Whether a request failed otherwise than by a shortage. -/
def refused (entry : Entry) : Bool :=
  match entry.2 with
  | .ok _ => false
  | .error error => !error.shortage

theorem refused_eq_true_iff {entry : Entry} :
    refused entry = true ↔ ∃ error, entry.2 = .error error ∧ ¬error.shortage = true := by
  unfold refused
  cases entry.2 with
  | ok reply => simp
  | error error => simp

/-- Any of the requests that were refused are left out, and no other ones. -/
inductive Thinned : List Entry → List Entry → Prop
  | nil : Thinned [] []
  | keep (entry : Entry) {entries kept : List Entry} :
    Thinned entries kept → Thinned (entry :: entries) (entry :: kept)
  | drop (entry : Entry) {entries kept : List Entry} :
    refused entry = true → Thinned entries kept → Thinned (entry :: entries) kept

theorem Thinned.cons_cases {entry : Entry} {entries kept : List Entry}
    (h : Thinned (entry :: entries) kept) :
    (∃ rest, Thinned entries rest ∧ kept = entry :: rest) ∨
      (refused entry = true ∧ Thinned entries kept) := by
  cases h with
  | keep _ hrest => exact .inl ⟨_, hrest, rfl⟩
  | drop _ hrefused hrest => exact .inr ⟨hrefused, hrest⟩

/-- All that were refused may be left out. -/
theorem thinned_filter (entries : List Entry) :
    Thinned entries (entries.filter fun entry => !refused entry) := by
  induction entries with
  | nil => exact .nil
  | cons entry rest ih =>
    cases hrefused : refused entry with
    | true =>
      rw [List.filter_cons_of_neg (by simp [hrefused])]
      exact .drop entry hrefused ih
    | false =>
      rw [List.filter_cons_of_pos (by simp [hrefused])]
      exact .keep entry ih

theorem serve_append {before requests : List Request} {stream : Bytes} {run rest : Run}
    (hrun : enclave.serve suite before stream = run)
    (hrest : run.enclave.serve suite requests run.left = rest) :
    enclave.serve suite (before ++ requests) stream =
      { rest with entries := run.entries ++ rest.entries } := by
  subst hrun hrest
  induction before generalizing enclave stream with
  | nil => rfl
  | cons request before ih =>
    rw [List.cons_append, serve, ih]
    rfl

theorem serve_of_stopped (hstopped : enclave.running = false) (requests : List Request)
    (stream : Bytes) :
    enclave.serve suite requests stream = ⟨requests.map declined, stream, enclave⟩ := by
  induction requests with
  | nil => rfl
  | cons request rest ih =>
    obtain ⟨hentry, hleft⟩ := reply_of_stopped suite hstopped request stream
    rw [serve, hentry, hleft, after_of_stopped hstopped, ih]
    rfl

/-- What was refused might as well not have been asked for. -/
theorem serve_thinned {requests : List Request} {stream : Bytes} {kept : List Entry}
    (h : Thinned (enclave.serve suite requests stream).entries kept) :
    enclave.serve suite (kept.map Prod.fst) stream =
      { enclave.serve suite requests stream with entries := kept } := by
  induction requests generalizing enclave stream kept with
  | nil =>
    cases h
    rfl
  | cons request rest ih =>
    rcases h.cons_cases with ⟨others, hothers, rfl⟩ | ⟨hrefused, hkept⟩
    · rw [List.map_cons, serve, ih hothers]
      rfl
    · obtain ⟨error, herror, hshortage⟩ := refused_eq_true_iff.1 hrefused
      obtain ⟨-, hleft⟩ := (prompt_reply suite enclave request herror).resolve_left hshortage
      have hrest := ih hkept
      rw [after_of_error herror, hleft] at hrest
      rw [hrest, serve, after_of_error herror, hleft]

/-- A running enclave never says that it is stopped. -/
theorem result_ne_stopped (hrunning : enclave.running = true) (request : Request)
    (stream : Bytes) : (enclave.reply suite request stream).result ≠ .error .stopped := by
  intro hstopped
  rcases prompt_reply suite enclave request hstopped with hshortage | ⟨hcandid, -⟩
  · cases hshortage
  · rw [hcandid rfl] at hrunning
    cases hrunning

theorem results_ne_stopped (hrunning : enclave.running = true) {requests : List Request}
    (hstop : .stop ∉ requests) (stream : Bytes) :
    ∀ entry ∈ (enclave.serve suite requests stream).entries, entry.2 ≠ .error .stopped := by
  induction requests generalizing stream with
  | nil =>
    intro entry hmem
    cases hmem
  | cons request rest ih =>
    obtain ⟨hhead, hrest⟩ := not_or.1 (mt List.mem_cons.2 hstop)
    intro entry hmem
    rw [serve, after_of_ne_stop (Ne.symm hhead)] at hmem
    rcases List.mem_cons.1 hmem with rfl | hmem
    · exact result_ne_stopped hrunning request stream
    · exact ih hrest _ entry hmem

/-- Any requests that were refused, for another reason than a shortage, can be left out:
the other answers, the bytes that are left and the enclave stay the same. The first
request to stop decides who is told that the enclave is stopped: nobody before it, and
whoever asks for anything but the status after it, at no cost of random bytes. -/
theorem serve_refusals (suite : Suite) (enclave : Enclave) (requests : List Request)
    (stream : Bytes) :
    let run := enclave.serve suite requests stream
    (∀ kept, Thinned run.entries kept →
      enclave.serve suite (kept.map Prod.fst) stream = { run with entries := kept }) ∧
    (enclave.running = true → .stop ∉ requests → ∀ entry ∈ run.entries,
      entry.2 ≠ .error .stopped) ∧
    (∀ later, enclave.serve suite (requests ++ .stop :: later) stream =
      ⟨run.entries ++ (.stop :: later).map declined, run.left, run.enclave.stop⟩) ∧
    (enclave.running = false → run = ⟨requests.map declined, stream, enclave⟩) := by
  intro run
  refine ⟨fun kept hkept => serve_thinned hkept,
    fun hrunning hstop => results_ne_stopped hrunning hstop stream, fun later => ?_,
    fun hstopped => serve_of_stopped hstopped requests stream⟩
  have hstop : run.enclave.serve suite (.stop :: later) run.left =
      ⟨(.stop :: later).map declined, run.left, run.enclave.stop⟩ := by
    rw [serve, serve_of_stopped rfl]
    rfl
  exact serve_append rfl hstop

theorem serve_refusals_solo :
    let sealing := Request.encryptDraft [104, 105] solo.ring.default
    let requests := [sealing, .encrypt [] solo.ring.default [], .encryptDraft [] (point 7),
      sealing, .defaultKey]
    let declines : List Entry :=
      [(.stop, .ok .done), (sealing, .error .stopped), (.status, .ok (.status .stopped))]
    let stream := List.replicate 96 7
    let run := solo.serve .standard requests stream
    run.entries.map (fun entry => entry.2.toOption.isSome) = [true, false, false, false, true] ∧
      run.left = List.replicate 8 7 ∧
      solo.serve .standard [sealing, sealing, .defaultKey] stream =
        { run with entries := run.entries.filter fun entry => !refused entry } ∧
      (∀ entry ∈ run.entries, entry.2 ≠ .error .stopped) ∧
      solo.serve .standard (requests ++ [.stop, sealing, .status]) stream =
        ⟨run.entries ++ declines, List.replicate 8 7, solo.stop⟩ := by
  intro sealing requests declines stream run
  obtain ⟨hthinned, hstopped, hlater, -⟩ := serve_refusals .standard solo requests stream
  have hfacts : run.entries.map (fun entry => entry.2.toOption.isSome) =
        [true, false, false, false, true] ∧
      run.left = List.replicate 8 7 ∧
      (run.entries.filter fun entry => !refused entry).map Prod.fst =
        [sealing, sealing, .defaultKey] := by decide +kernel
  obtain ⟨hresults, hleft, hkept⟩ := hfacts
  have hthin := hthinned _ (thinned_filter _)
  rw [hkept] at hthin
  have hall := hlater [sealing, .status]
  have hdeclined : (.stop :: [sealing, .status]).map declined = declines := rfl
  rw [hleft, hdeclined] at hall
  exact ⟨hresults, hleft, hthin, hstopped rfl (by decide), hall⟩

end Enclave

end Envelope

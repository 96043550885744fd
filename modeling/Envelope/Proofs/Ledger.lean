import Envelope.Proofs.FanOut
import Envelope.Protector

/-!
# What drawn bytes are used for

Every draw goes into one private key, payload key, salt or nonce, and with a
nonce something is sealed as soon as it is drawn. A sampler *accounts* for its
draws when its ledger is a sequence of such uses whose bytes are what it took
off the stream, also where it fails halfway.
-/

namespace Envelope

/-- What is sealed with a nonce. -/
inductive Sealed
  | body
  | box
  | both
deriving DecidableEq

/-- What drawn bytes go into. -/
inductive Use
  | privateKey (key : PrivateKey)
  | payloadKey (key : SymmetricKey)
  | salt (salt : Salt)
  | nonce (nonce : Nonce) (sealed : Sealed)
deriving DecidableEq

namespace Use

def purpose : Use → Purpose
  | .privateKey _ => .privateKey
  | .payloadKey _ => .payloadKey
  | .salt _ => .salt
  | .nonce _ _ => .nonce

def bytes : Use → Bytes
  | .privateKey key => key.octets.toBytes
  | .payloadKey key => key.octets.toBytes
  | .salt s => s.octets.toBytes
  | .nonce n _ => n.octets.toBytes

/-- What the ledger says of sealing. -/
def seals : Use → List Event
  | .nonce n .body => [.sealedBody n]
  | .nonce n .box => [.sealedBox n]
  | .nonce n .both => [.sealedBody n, .sealedBox n]
  | _ => []

/-- What the use leaves in the ledger. -/
def events (use : Use) : List Event :=
  .drawn use.purpose use.bytes :: use.seals

/-- Whether two things are sealed with one nonce. -/
def twofold : Use → Bool
  | .nonce _ .both => true
  | _ => false

@[simp] def privateKey? : Use → Option PrivateKey
  | .privateKey key => some key
  | _ => none

@[simp] def salt? : Use → Option Salt
  | .salt s => some s
  | _ => none

/-- The nonce of a body or a private key that is sealed. -/
@[simp] def bodyNonce? : Use → Option Nonce
  | .nonce n .body => some n
  | .nonce n .both => some n
  | _ => none

/-- The nonce of a box that is sealed. -/
@[simp] def boxNonce? : Use → Option Nonce
  | .nonce n .box => some n
  | .nonce n .both => some n
  | _ => none

/-- One box after another. -/
def boxes (nonces : List Nonce) : List Use :=
  nonces.map (.nonce · .box)

variable (nonces : List Nonce)

@[simp] theorem privateKeys_boxes : (boxes nonces).filterMap privateKey? = [] := by
  simp [boxes, Function.comp_def]

@[simp] theorem salts_boxes : (boxes nonces).filterMap salt? = [] := by
  simp [boxes, Function.comp_def]

@[simp] theorem bodyNonces_boxes : (boxes nonces).filterMap bodyNonce? = [] := by
  simp [boxes, Function.comp_def]

@[simp] theorem boxNonces_boxes : (boxes nonces).filterMap boxNonce? = nonces := by
  simp [boxes, Function.comp_def]

end Use

namespace Sampler

variable {ε α β : Type} {allowed : Use → Prop} {post : α → List Use → Prop}
  {post' : β → List Use → Prop}

/-- The uses are what the ledger tells, and their bytes are what was taken. -/
structure Spends (s : Sampler ε α) (stream : Bytes) (uses : List Use) : Prop where
  ledger_eq : (s stream).ledger = uses.flatMap Use.events
  stream_eq : stream = uses.flatMap Use.bytes ++ (s stream).left

/-- On every stream the sampler accounts for its draws by allowed uses. Where it
succeeds, its value and the uses are related as stated. -/
def Accounts (s : Sampler ε α) (allowed : Use → Prop) (post : α → List Use → Prop) : Prop :=
  ∀ stream, ∃ uses, s.Spends stream uses ∧ (∀ use ∈ uses, allowed use) ∧
    ∀ a, (s stream).result = .ok a → post a uses

/-! ## Rules -/

theorem Accounts.mono {s : Sampler ε α} {post' : α → List Use → Prop} (h : s.Accounts allowed post)
    (hpost : ∀ a uses, post a uses → post' a uses) : s.Accounts allowed post' := by
  intro stream
  obtain ⟨uses, hspends, hallowed, hresult⟩ := h stream
  exact ⟨uses, hspends, hallowed, fun a ha => hpost a uses (hresult a ha)⟩

theorem Accounts.allow {s : Sampler ε α} {more : Use → Prop} (h : s.Accounts allowed post)
    (hmore : ∀ use, allowed use → more use) : s.Accounts more post := by
  intro stream
  obtain ⟨uses, hspends, hallowed, hresult⟩ := h stream
  exact ⟨uses, hspends, fun use huse => hmore use (hallowed use huse), hresult⟩

theorem accounts_pure {a : α} (h : post a []) : (pure a : Sampler ε α).Accounts allowed post :=
  fun _ => ⟨[], ⟨rfl, rfl⟩, by simp, fun _ ha => Except.ok.inj ha ▸ h⟩

theorem accounts_fail (e : ε) : (fail e : Sampler ε α).Accounts allowed post :=
  fun _ => ⟨[], ⟨rfl, rfl⟩, by simp, nofun⟩

/-- What is decided without a draw needs no account. -/
theorem accounts_lift_bind {result : Except ε α} {f : α → Sampler ε β}
    (h : ∀ a, (f a).Accounts allowed post') : (liftM result >>= f).Accounts allowed post' := by
  cases result with
  | ok a =>
    rw [lift_ok, pure_bind]
    exact h a
  | error e =>
    rw [lift_error, fail_bind]
    exact accounts_fail e

theorem Accounts.bind {s : Sampler ε α} {f : α → Sampler ε β} (h : s.Accounts allowed post)
    (hf : ∀ a uses, post a uses → (f a).Accounts allowed fun b more => post' b (uses ++ more)) :
    (s >>= f).Accounts allowed post' := by
  intro stream
  obtain ⟨uses, hspends, hallowed, hresult⟩ := h stream
  cases hs : (s stream).result with
  | error e =>
    -- What was drawn before the failure stays in the account.
    have hbind := bind_apply_of_error (f := f) hs
    refine ⟨uses, ⟨?_, ?_⟩, hallowed, ?_⟩
    · rw [hbind, hspends.ledger_eq]
    · rw [hbind]
      exact hspends.stream_eq
    · rw [hbind]
      exact nofun
  | ok a =>
    have hbind := bind_apply_of_ok (f := f) hs
    obtain ⟨more, hspends', hallowed', hresult'⟩ := hf a uses (hresult a hs) (s stream).left
    refine ⟨uses ++ more, ⟨?_, ?_⟩, ?_, ?_⟩
    · rw [hbind, List.flatMap_append, ← hspends.ledger_eq, ← hspends'.ledger_eq]
    · rw [hbind, List.flatMap_append, List.append_assoc, ← hspends'.stream_eq]
      exact hspends.stream_eq
    · intro use huse
      exact (List.mem_append.1 huse).elim (hallowed use) (hallowed' use)
    · rw [hbind]
      exact hresult'

theorem Accounts.map {s : Sampler ε α} {f : α → β} (h : s.Accounts allowed post)
    (hf : ∀ a uses, post a uses → post' (f a) uses) :
    (s >>= fun a => pure (f a)).Accounts allowed post' :=
  h.bind fun a uses ha => accounts_pure (by simpa using hf a uses ha)

/-! ## Draws -/

/-- A draw and the seals right after it are one use. -/
theorem accounts_draw_bind {size : Nat} {purpose : Purpose} (use : Octets size → Use)
    {f g : Octets size → Sampler Error β} (hpurpose : ∀ octets, (use octets).purpose = purpose)
    (hbytes : ∀ octets, (use octets).bytes = octets.toBytes)
    (hseals : ∀ octets, f octets = noting (use octets).seals (g octets))
    (hallowed : ∀ octets, allowed (use octets))
    (hg : ∀ octets, (g octets).Accounts allowed fun b uses => post' b (use octets :: uses)) :
    (draw purpose size >>= f).Accounts allowed post' := by
  intro stream
  by_cases h : size ≤ stream.length
  · let octets : Octets size := ⟨stream.take size, List.length_take_of_le h⟩
    obtain ⟨uses, hspends, huses, hresult⟩ := hg octets (stream.drop size)
    have hdraw : draw purpose size stream =
      ⟨.ok octets, stream.drop size, [.drawn purpose octets.toBytes]⟩ := draw_of_le h
    have hrun : (draw purpose size >>= f) stream =
        { g octets (stream.drop size) with
          ledger := (use octets).events ++ (g octets (stream.drop size)).ledger } := by
      rw [bind_apply_of_ok (a := octets) (by rw [hdraw]), hdraw, hseals]
      simp [noting, Use.events, hpurpose, hbytes]
    refine ⟨use octets :: uses, ⟨?_, ?_⟩, ?_, ?_⟩
    · rw [hrun, List.flatMap_cons, hspends.ledger_eq]
    · rw [hrun, List.flatMap_cons, List.append_assoc, ← hspends.stream_eq, hbytes]
      exact (List.take_append_drop size stream).symm
    · exact List.forall_mem_cons.2 ⟨hallowed octets, huses⟩
    · rw [hrun]
      exact hresult
  · have hdraw : draw purpose size stream = ⟨.error (.resource .randomness), stream, []⟩ :=
      draw_of_lt (Nat.lt_of_not_le h)
    have hrun : (draw purpose size >>= f) stream =
        ⟨.error (.resource .randomness), stream, []⟩ := by
      rw [bind_apply_of_error (e := .resource .randomness) (by rw [hdraw]), hdraw]
    refine ⟨[], ⟨?_, ?_⟩, by simp, ?_⟩ <;> rw [hrun]
    · rfl
    · rfl
    · exact nofun

theorem accounts_privateKey (h : ∀ key, allowed (.privateKey key)) :
    privateKey.Accounts allowed fun key uses => uses = [.privateKey key] :=
  accounts_draw_bind (fun octets => .privateKey ⟨octets⟩) (fun _ => rfl) (fun _ => rfl)
    (fun _ => rfl) (fun _ => h _) fun _ => accounts_pure rfl

theorem accounts_payloadKey (h : ∀ key, allowed (.payloadKey key)) :
    payloadKey.Accounts allowed fun key uses => uses = [.payloadKey key] :=
  accounts_draw_bind (fun octets => .payloadKey ⟨octets⟩) (fun _ => rfl) (fun _ => rfl)
    (fun _ => rfl) (fun _ => h _) fun _ => accounts_pure rfl

theorem accounts_salt (h : ∀ salt, allowed (.salt salt)) :
    salt.Accounts allowed fun salt uses => uses = [.salt salt] :=
  accounts_draw_bind (fun octets => .salt ⟨octets⟩) (fun _ => rfl) (fun _ => rfl)
    (fun _ => rfl) (fun _ => h _) fun _ => accounts_pure rfl

/-- A nonce and what is sealed with it before anything else is drawn. -/
theorem accounts_nonce_bind {f g : Nonce → Sampler Error β} (sealed : Sealed)
    (hseals : ∀ nonce, f nonce = noting (Use.nonce nonce sealed).seals (g nonce))
    (hallowed : ∀ nonce, allowed (.nonce nonce sealed))
    (hg : ∀ nonce, (g nonce).Accounts allowed fun b uses => post' b (.nonce nonce sealed :: uses)) :
    (nonce >>= f).Accounts allowed post' := by
  have hnonce : nonce >>= f = draw .nonce 24 >>= fun octets => f ⟨octets⟩ := by
    rw [nonce, bind_assoc]
    simp only [pure_bind]
  rw [hnonce]
  exact accounts_draw_bind (fun octets => .nonce ⟨octets⟩ sealed) (fun _ => rfl) (fun _ => rfl)
    (fun octets => hseals ⟨octets⟩) (fun _ => hallowed _) fun octets => hg ⟨octets⟩

end Sampler

/-! ## Payloads -/

namespace Payload

variable {suite : Suite} {key : SymmetricKey} {sealer own : PrivateKey} {recipient : PublicKey}
  {payload before after final : Payload} {box : KeyBox} {nonces more : List Nonce}

/-- The nonces of the boxes. -/
def boxNonces (payload : Payload) : List Nonce :=
  payload.boxes.entries.map (·.2.nonce)

/-- The payload kept its nonce and got boxes with the given ones. -/
structure Gained (before after : Payload) (nonces : List Nonce) : Prop where
  nonce_eq : after.nonce = before.nonce
  boxes_perm : after.boxNonces.Perm (before.boxNonces ++ nonces)

theorem gained_refl (payload : Payload) : Gained payload payload [] :=
  ⟨rfl, by rw [List.append_nil]⟩

theorem Gained.trans (h : Gained before after nonces) (h' : Gained after final more) :
    Gained before final (nonces ++ more) := by
  refine ⟨h'.nonce_eq.trans h.nonce_eq, ?_⟩
  rw [← List.append_assoc]
  exact h'.boxes_perm.trans (h.boxes_perm.append_right more)

theorem gained_addBox (h : payload.boxes.contains recipient = false) :
    Gained payload (payload.addBox recipient box).1 [box.nonce] := by
  obtain ⟨front, back, hold, hnew⟩ := KeyMap.insert_entries_eq_append h box
  rw [addBox_of_not_contains h]
  refine ⟨rfl, ?_⟩
  simp only [boxNonces, hold, hnew, List.map_append, List.map_cons, List.append_assoc]
  exact (List.perm_append_singleton box.nonce _).symm.append_left _

theorem accounts_sealKey : (sealKey suite key sealer recipient).Accounts (¬·.twofold)
    fun box uses => uses = Use.boxes [box.nonce] :=
  Sampler.accounts_nonce_bind .box (fun _ => Sampler.sealBox_bind ..) (fun _ => nofun)
    fun _ => Sampler.accounts_pure rfl

theorem accounts_sealKeys (recipients : List PublicKey) (payload : Payload) :
    (sealKeys suite key sealer payload recipients).Accounts (¬·.twofold)
      fun final uses => ∃ nonces, uses = Use.boxes nonces ∧ Gained payload final nonces := by
  induction recipients generalizing payload with
  | nil => exact Sampler.accounts_pure ⟨[], rfl, gained_refl payload⟩
  | cons recipient rest ih =>
    cases hmem : payload.boxes.contains recipient with
    | true =>
      rw [sealKeys_of_contains hmem]
      exact ih payload
    | false =>
      rw [sealKeys_of_not_contains hmem]
      -- What is accounted for next starts from the payload that has this box too.
      refine accounts_sealKey.bind fun box uses huses => (ih _).mono ?_
      rintro final _ ⟨nonces, rfl, hgained⟩
      refine ⟨box.nonce :: nonces, ?_, (gained_addBox hmem).trans hgained⟩
      rw [huses]
      rfl

theorem accounts_encrypt (message : Bytes) (sender : PrivateKey) (recipients : List PublicKey) :
    (encrypt suite message sender recipients).Accounts (¬·.twofold)
      fun payload uses => ∃ key nonces, payload.boxNonces.Perm nonces ∧
        uses = .payloadKey key :: .nonce payload.nonce .body :: Use.boxes nonces := by
  refine Sampler.accounts_lift_bind fun _ => ?_
  refine (Sampler.accounts_payloadKey fun _ => nofun).bind ?_
  rintro key _ rfl
  refine Sampler.accounts_nonce_bind .body (fun _ => Sampler.sealBody_bind ..) (fun _ => nofun) ?_
  intro nonce
  refine (accounts_sealKeys recipients _).mono ?_
  rintro payload _ ⟨nonces, rfl, hgained⟩
  refine ⟨key, nonces, hgained.boxes_perm, ?_⟩
  rw [hgained.nonce_eq]
  rfl

theorem accounts_newBox : (newBox suite payload own recipient).Accounts (¬·.twofold)
    fun box uses => uses = Use.boxes [box.nonce] := by
  refine Sampler.accounts_lift_bind fun _ => ?_
  exact Sampler.accounts_lift_bind fun _ => accounts_sealKey

theorem accounts_addRecipient : (addRecipient suite payload own recipient).Accounts (¬·.twofold)
    fun final uses => ∃ nonces, uses = Use.boxes nonces ∧ Gained payload final nonces := by
  cases hmem : payload.boxes.contains recipient with
  | true =>
    rw [addRecipient_of_contains hmem]
    exact Sampler.accounts_pure ⟨[], rfl, gained_refl payload⟩
  | false =>
    rw [addRecipient_of_not_contains hmem]
    exact accounts_newBox.map fun box uses huses => ⟨[box.nonce], huses, gained_addBox hmem⟩

end Payload

namespace Draft

variable {suite : Suite}

/-- The one place where a nonce serves twice. -/
theorem accounts_encrypt (message : Bytes) (sender : PrivateKey) :
    (encrypt suite message sender).Accounts (fun _ => True)
      fun draft uses => ∃ key, uses = [.payloadKey key, .nonce draft.nonce .both] := by
  refine (Sampler.accounts_payloadKey fun _ => trivial).bind ?_
  rintro key _ rfl
  let own := suite.publicKey sender
  let drafted (nonce : Nonce) : Draft :=
    { body := suite.sealBody key nonce message
      sealedKey := suite.sealBox (suite.sharedKey own sender) nonce key.octets.toBytes
      nonce
      sender := own }
  refine Sampler.accounts_nonce_bind (g := fun nonce => pure (drafted nonce)) .both
    (fun nonce => ?_) (fun _ => trivial) fun nonce => Sampler.accounts_pure ⟨key, rfl⟩
  rw [Sampler.sealBody_bind, Sampler.sealBox_bind]
  rfl

theorem accounts_address (draft : Draft) (sender : PrivateKey) (recipients : List PublicKey) :
    (address suite draft sender recipients).Accounts (¬·.twofold)
      fun payload uses => ∃ nonces, uses = Use.boxes nonces ∧ payload.nonce = draft.nonce ∧
        payload.boxNonces.Perm nonces := by
  refine Sampler.accounts_lift_bind fun _ => ?_
  split
  · exact Sampler.accounts_fail _
  · refine (Payload.accounts_sealKeys recipients _).mono ?_
    rintro payload _ ⟨nonces, rfl, hgained⟩
    exact ⟨nonces, rfl, hgained.nonce_eq, hgained.boxes_perm⟩

end Draft

/-! ## Key records -/

namespace Protector

variable {suite : Suite} {protector : Protector}

theorem accounts_protectWith (key : PrivateKey) (password : String) (options : Kdf.Options) :
    (protectWith suite protector key password options).Accounts (¬·.twofold)
      fun record uses => uses = [.salt record.salt, .nonce record.nonce .body] := by
  refine Sampler.accounts_lift_bind fun _ => ?_
  refine (Sampler.accounts_salt fun _ => nofun).bind ?_
  rintro salt _ rfl
  refine Sampler.accounts_lift_bind fun _ => ?_
  exact Sampler.accounts_nonce_bind .body (fun _ => Sampler.sealBody_bind ..) (fun _ => nofun)
    fun nonce => Sampler.accounts_pure rfl

theorem accounts_changePassword (record : KeyRecord) (old new : String) :
    (changePassword suite protector record old new).Accounts (¬·.twofold)
      fun record uses => uses = [.salt record.salt, .nonce record.nonce .body] := by
  refine Sampler.accounts_lift_bind fun key => ?_
  exact (accounts_protectWith key new record.options).map fun _ _ huses => huses

theorem accounts_generate (password : String) :
    (generate suite protector password).Accounts (¬·.twofold)
      fun (pair, record) uses => uses =
        [.privateKey pair.privateKey, .salt record.salt, .nonce record.nonce .body] := by
  refine (Sampler.accounts_privateKey fun _ => nofun).bind ?_
  rintro key _ rfl
  refine (accounts_protectWith key password protector.options).map ?_
  rintro record _ rfl
  rfl

end Protector

end Envelope

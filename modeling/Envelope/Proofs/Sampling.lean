import Envelope.Sampler

/-!
# Laws of operations that draw random bytes

Samplers form a lawful monad, ledger included. Two samplers *agree* when nobody
can tell them apart by their results and by the bytes they leave; agreement
says nothing about the ledger.
-/

namespace Envelope.Sampler

variable {ε ε' α β : Type}

instance decidableEqResult [DecidableEq ε] [DecidableEq α] : DecidableEq (Except ε α)
  | .ok a, .ok b => decidable_of_iff (a = b) ⟨congrArg Except.ok, Except.ok.inj⟩
  | .error e, .error e' => decidable_of_iff (e = e') ⟨congrArg Except.error, Except.error.inj⟩
  | .ok _, .error _ => isFalse nofun
  | .error _, .ok _ => isFalse nofun

theorem pure_bind_eq (a : α) (f : α → Sampler ε β) : (pure a >>= f) = f a := by
  funext stream
  rw [bind_apply_of_ok (a := a) rfl]
  simp

theorem bind_pure_eq (s : Sampler ε α) : (s >>= fun a => pure a) = s := by
  funext stream
  cases h : (s stream).result with
  | ok a =>
    rw [bind_apply_of_ok h]
    simp [← h]
  | error e =>
    rw [bind_apply_of_error h, ← h]

instance : LawfulMonad (Sampler ε) :=
  LawfulMonad.mk' (Sampler ε) bind_pure_eq pure_bind_eq bind_assoc

/-! ## Results -/

theorem result_bind_eq_ok_iff {s : Sampler ε α} {f : α → Sampler ε β} {stream : Bytes} {b : β} :
    ((s >>= f) stream).result = .ok b ↔
      ∃ a, (s stream).result = .ok a ∧ (f a (s stream).left).result = .ok b := by
  cases h : (s stream).result with
  | ok a => rw [bind_apply_of_ok h]; simp
  | error e => rw [bind_apply_of_error h]; simp

/-- What follows an operation only matters on results that it can give. -/
theorem bind_congr_of_ok {s : Sampler ε α} {f g : α → Sampler ε β} {stream : Bytes}
    (h : ∀ a, (s stream).result = .ok a → f a (s stream).left = g a (s stream).left) :
    (s >>= f) stream = (s >>= g) stream := by
  cases hs : (s stream).result with
  | ok a => rw [bind_apply_of_ok hs, bind_apply_of_ok hs, h a hs]
  | error e => rw [bind_apply_of_error hs, bind_apply_of_error hs]

@[simp] theorem lift_ok (a : α) : (liftM (Except.ok a : Except ε α) : Sampler ε α) = pure a := rfl

@[simp] theorem lift_error (e : ε) :
    (liftM (Except.error e : Except ε α) : Sampler ε α) = fail e := rfl

@[simp] theorem fail_bind (e : ε) (f : α → Sampler ε β) : (fail e >>= f) = fail e := rfl

theorem lift_bind (result : Except ε α) (f : α → Except ε β) :
    (liftM (result >>= f) : Sampler ε β) =
      (liftM result : Sampler ε α) >>= fun a => (liftM (f a) : Sampler ε β) := by
  cases result with
  | ok a =>
    rw [lift_ok, pure_bind]
    rfl
  | error e => rfl

theorem bind_pure_apply (s : Sampler ε α) (f : α → β) (stream : Bytes) :
    (s >>= fun a => pure (f a)) stream =
      ⟨(s stream).result.map f, (s stream).left, (s stream).ledger⟩ := by
  cases h : (s stream).result with
  | ok a =>
    rw [bind_apply_of_ok h]
    simp [Except.map]
  | error e =>
    rw [bind_apply_of_error h]
    rfl

theorem result_mapError_of_ok (g : ε → ε') {s : Sampler ε α} {stream : Bytes} {a : α}
    (h : (s stream).result = .ok a) : (s.mapError g stream).result = .ok a := by
  rw [mapError, h]
  rfl

theorem result_mapError_of_error (g : ε → ε') {s : Sampler ε α} {stream : Bytes} {e : ε}
    (h : (s stream).result = .error e) : (s.mapError g stream).result = .error (g e) := by
  rw [mapError, h]
  rfl

theorem mapError_bind (g : ε → ε') (s : Sampler ε α) (f : α → Sampler ε β) :
    (s >>= f).mapError g = s.mapError g >>= fun a => (f a).mapError g := by
  funext stream
  cases h : (s stream).result with
  | ok a =>
    rw [bind_apply_of_ok (result_mapError_of_ok g h), mapError, bind_apply_of_ok h]
    rfl
  | error e =>
    rw [bind_apply_of_error (result_mapError_of_error g h), mapError, bind_apply_of_error h]
    rfl

theorem result_mapError_eq_ok_iff {g : ε → ε'} {s : Sampler ε α} {stream : Bytes} {a : α} :
    (s.mapError g stream).result = .ok a ↔ (s stream).result = .ok a := by
  cases h : (s stream).result with
  | ok a' =>
    rw [result_mapError_of_ok g h]
    simp
  | error e =>
    rw [result_mapError_of_error g h]
    simp

theorem result_mapError_eq_error_iff {g : ε → ε'} {s : Sampler ε α} {stream : Bytes} {e' : ε'} :
    (s.mapError g stream).result = .error e' ↔
      ∃ e, (s stream).result = .error e ∧ g e = e' := by
  cases h : (s stream).result with
  | ok a =>
    rw [result_mapError_of_ok g h]
    simp
  | error e =>
    rw [result_mapError_of_error g h]
    simp

/-! ## Seals -/

/-- A sampler after entries of the ledger. -/
def noting (events : List Event) (s : Sampler ε α) : Sampler ε α :=
  fun stream => { s stream with ledger := events ++ (s stream).ledger }

theorem sealBody_bind (suite : Suite) (key : SymmetricKey) (nonce : Nonce) (message : Bytes)
    (f : Bytes → Sampler ε β) :
    (sealBody suite key nonce message >>= f) =
      noting [.sealedBody nonce] (f (suite.sealBody key nonce message)) := by
  funext stream
  exact bind_apply_of_ok rfl

theorem sealBox_bind (suite : Suite) (key : suite.SharedKey) (nonce : Nonce) (message : Bytes)
    (f : Bytes → Sampler ε β) :
    (sealBox suite key nonce message >>= f) =
      noting [.sealedBox nonce] (f (suite.sealBox key nonce message)) := by
  funext stream
  exact bind_apply_of_ok rfl

/-! ## Success -/

/-- The sampler succeeds with a value and takes so many bytes. -/
structure Gives (s : Sampler ε α) (stream : Bytes) (taken : Nat) (a : α) : Prop where
  result_eq : (s stream).result = .ok a
  left_eq : (s stream).left = stream.drop taken

theorem gives_pure (a : α) (stream : Bytes) : Gives (pure a : Sampler ε α) stream 0 a :=
  ⟨rfl, rfl⟩

theorem Gives.bind {s : Sampler ε α} {f : α → Sampler ε β} {stream : Bytes} {taken more : Nat}
    {a : α} {b : β} (h : Gives s stream taken a) (hf : Gives (f a) (stream.drop taken) more b) :
    Gives (s >>= f) stream (taken + more) b := by
  rw [← h.left_eq] at hf
  constructor
  · rw [bind_apply_of_ok h.result_eq]
    exact hf.result_eq
  · rw [bind_apply_of_ok h.result_eq, ← List.drop_drop, ← h.left_eq]
    exact hf.left_eq

theorem Gives.map {s : Sampler ε α} {stream : Bytes} {taken : Nat} {a : α}
    (h : Gives s stream taken a) (f : α → β) :
    Gives (s >>= fun a => pure (f a)) stream taken (f a) :=
  h.bind (f := fun a => pure (f a)) (gives_pure (f a) _)

theorem Gives.mapError {s : Sampler ε α} {stream : Bytes} {taken : Nat} {a : α}
    (h : Gives s stream taken a) (f : ε → ε') : Gives (s.mapError f) stream taken a :=
  ⟨result_mapError_of_ok f h.result_eq, h.left_eq⟩

theorem gives_draw {purpose : Purpose} {size : Nat} {stream : Bytes} (h : size ≤ stream.length) :
    Gives (draw purpose size) stream size ⟨stream.take size, List.length_take_of_le h⟩ := by
  constructor <;> rw [draw_of_le h]

theorem gives_privateKey {stream : Bytes} (h : 32 ≤ stream.length) :
    Gives privateKey stream 32 ⟨⟨stream.take 32, List.length_take_of_le h⟩⟩ :=
  (gives_draw h).map PrivateKey.mk

theorem gives_payloadKey {stream : Bytes} (h : 32 ≤ stream.length) :
    Gives payloadKey stream 32 ⟨⟨stream.take 32, List.length_take_of_le h⟩⟩ :=
  (gives_draw h).map SymmetricKey.mk

theorem gives_salt {stream : Bytes} (h : 16 ≤ stream.length) :
    Gives salt stream 16 ⟨⟨stream.take 16, List.length_take_of_le h⟩⟩ :=
  (gives_draw h).map Salt.mk

theorem gives_nonce {stream : Bytes} (h : 24 ≤ stream.length) :
    Gives nonce stream 24 ⟨⟨stream.take 24, List.length_take_of_le h⟩⟩ :=
  (gives_draw h).map Nonce.mk

theorem gives_sealBody (suite : Suite) (key : SymmetricKey) (nonce : Nonce) (message : Bytes)
    (stream : Bytes) :
    Gives (sealBody suite key nonce message : Sampler ε Bytes) stream 0
      (suite.sealBody key nonce message) :=
  ⟨rfl, rfl⟩

theorem gives_sealBox (suite : Suite) (key : suite.SharedKey) (nonce : Nonce) (message : Bytes)
    (stream : Bytes) :
    Gives (sealBox suite key nonce message : Sampler ε Bytes) stream 0
      (suite.sealBox key nonce message) :=
  ⟨rfl, rfl⟩

/-! ## Running out -/

/-- The sampler takes so many bytes and then finds too few. -/
structure Starves (s : Sampler Error α) (stream : Bytes) (taken : Nat) : Prop where
  result_eq : (s stream).result = .error (.resource .randomness)
  left_eq : (s stream).left = stream.drop taken

theorem starves_draw {purpose : Purpose} {size : Nat} {stream : Bytes}
    (h : stream.length < size) : Starves (draw purpose size) stream 0 := by
  constructor <;> rw [draw_of_lt h]
  exact List.drop_zero.symm

theorem Starves.bind {s : Sampler Error α} {stream : Bytes} {taken : Nat}
    (h : Starves s stream taken) (f : α → Sampler Error β) : Starves (s >>= f) stream taken := by
  have hbind := bind_apply_of_error (f := f) h.result_eq
  constructor
  · rw [hbind]
  · rw [hbind]
    exact h.left_eq

theorem Gives.starves {s : Sampler Error α} {f : α → Sampler Error β} {stream : Bytes}
    {taken more : Nat} {a : α} (h : Gives s stream taken a)
    (hf : Starves (f a) (stream.drop taken) more) : Starves (s >>= f) stream (taken + more) := by
  rw [← h.left_eq] at hf
  constructor
  · rw [bind_apply_of_ok h.result_eq]
    exact hf.result_eq
  · rw [bind_apply_of_ok h.result_eq, ← List.drop_drop, ← h.left_eq]
    exact hf.left_eq

theorem starves_payloadKey {stream : Bytes} (h : stream.length < 32) :
    Starves payloadKey stream 0 :=
  (starves_draw h).bind fun octets => pure (SymmetricKey.mk octets)

theorem starves_salt {stream : Bytes} (h : stream.length < 16) : Starves salt stream 0 :=
  (starves_draw h).bind fun octets => pure (Salt.mk octets)

theorem starves_nonce {stream : Bytes} (h : stream.length < 24) : Starves nonce stream 0 :=
  (starves_draw h).bind fun octets => pure (Nonce.mk octets)

/-! ## Failures -/

/-- The sampler only fails in known ways. -/
def FailsOnly (known : ε → Prop) (s : Sampler ε α) : Prop :=
  ∀ ⦃stream e⦄, (s stream).result = .error e → known e

theorem failsOnly_pure {known : ε → Prop} (a : α) : FailsOnly known (pure a : Sampler ε α) := by
  intro stream e h
  cases h

theorem failsOnly_ofExcept {known : ε → Prop} {result : Except ε α}
    (h : ∀ e, result = .error e → known e) : FailsOnly known (ofExcept result) :=
  fun _ e he => h e he

theorem failsOnly_draw (purpose : Purpose) (size : Nat) :
    FailsOnly (· = .resource .randomness) (draw purpose size) := by
  intro stream e h
  by_cases hsize : size ≤ stream.length
  · rw [draw_of_le hsize] at h
    cases h
  · rw [draw_of_lt (Nat.lt_of_not_le hsize)] at h
    exact (Except.error.inj h).symm

theorem failsOnly_sealBody {known : ε → Prop} (suite : Suite) (key : SymmetricKey) (nonce : Nonce)
    (message : Bytes) : FailsOnly known (sealBody suite key nonce message : Sampler ε Bytes) := by
  intro stream e h
  cases h

theorem failsOnly_sealBox {known : ε → Prop} (suite : Suite) (key : suite.SharedKey) (nonce : Nonce)
    (message : Bytes) : FailsOnly known (sealBox suite key nonce message : Sampler ε Bytes) := by
  intro stream e h
  cases h

theorem FailsOnly.bind {known : ε → Prop} {s : Sampler ε α} {f : α → Sampler ε β}
    (h : FailsOnly known s) (hf : ∀ a, FailsOnly known (f a)) : FailsOnly known (s >>= f) := by
  intro stream e he
  cases hs : (s stream).result with
  | ok a =>
    rw [bind_apply_of_ok hs] at he
    exact hf a he
  | error e' =>
    rw [bind_apply_of_error hs] at he
    exact Except.error.inj he ▸ h hs

theorem FailsOnly.map {known : ε → Prop} {s : Sampler ε α} (h : FailsOnly known s) (f : α → β) :
    FailsOnly known (s >>= fun a => pure (f a)) :=
  h.bind fun a => failsOnly_pure (f a)

theorem failsOnly_privateKey : FailsOnly (· = .resource .randomness) privateKey :=
  (failsOnly_draw _ _).map PrivateKey.mk

theorem failsOnly_payloadKey : FailsOnly (· = .resource .randomness) payloadKey :=
  (failsOnly_draw _ _).map SymmetricKey.mk

theorem failsOnly_salt : FailsOnly (· = .resource .randomness) salt :=
  (failsOnly_draw _ _).map Salt.mk

theorem failsOnly_nonce : FailsOnly (· = .resource .randomness) nonce :=
  (failsOnly_draw _ _).map Nonce.mk

theorem FailsOnly.mapError {known : ε → Prop} {known' : ε' → Prop} {s : Sampler ε α}
    (h : FailsOnly known s) {g : ε → ε'} (hknown : ∀ e, known e → known' (g e)) :
    FailsOnly known' (s.mapError g) := by
  intro stream e' he
  obtain ⟨e, hs, rfl⟩ := result_mapError_eq_error_iff.1 he
  exact hknown e (h hs)

/-- The sampler refuses before it takes anything, and later on it can only lack something. -/
def Prompt (lack refusal : ε → Prop) (s : Sampler ε α) : Prop :=
  ∀ ⦃stream e⦄, (s stream).result = .error e → lack e ∨ (refusal e ∧ (s stream).left = stream)

theorem FailsOnly.prompt {lack refusal : ε → Prop} {s : Sampler ε α} (h : FailsOnly lack s) :
    Prompt lack refusal s :=
  fun _ _ he => .inl (h he)

theorem prompt_ofExcept {lack refusal : ε → Prop} {result : Except ε α}
    (h : ∀ e, result = .error e → refusal e) : Prompt lack refusal (ofExcept result) :=
  fun _ e he => .inr ⟨h e he, rfl⟩

/-- A check without a draw may stand before a prompt sampler. -/
theorem Prompt.lift_bind {lack refusal : ε → Prop} {result : Except ε α} {f : α → Sampler ε β}
    (h : ∀ e, result = .error e → refusal e)
    (hf : ∀ a, result = .ok a → Prompt lack refusal (f a)) :
    Prompt lack refusal ((liftM result : Sampler ε α) >>= f) := by
  cases result with
  | ok a =>
    rw [lift_ok, pure_bind]
    exact hf a rfl
  | error e =>
    rw [lift_error, fail_bind]
    exact prompt_ofExcept fun e' he => h e' (congrArg Except.error (Except.error.inj he))

theorem Prompt.map {lack refusal : ε → Prop} {s : Sampler ε α} (h : Prompt lack refusal s)
    (f : α → β) : Prompt lack refusal (s >>= fun a => pure (f a)) := by
  intro stream e he
  cases hs : (s stream).result with
  | ok a =>
    rw [bind_apply_of_ok hs] at he
    cases he
  | error e' =>
    rw [bind_apply_of_error hs] at he ⊢
    exact Except.error.inj he ▸ h hs

theorem Prompt.mapError {lack refusal : ε → Prop} {lack' refusal' : ε' → Prop} {s : Sampler ε α}
    (h : Prompt lack refusal s) {g : ε → ε'} (hlack : ∀ e, lack e → lack' (g e))
    (hrefusal : ∀ e, refusal e → refusal' (g e)) : Prompt lack' refusal' (s.mapError g) := by
  intro stream e' he
  obtain ⟨e, hs, rfl⟩ := result_mapError_eq_error_iff.1 he
  exact (h hs).imp (hlack e) (And.imp_left (hrefusal e))

/-! ## Agreement -/

/-- The same result and the same bytes left, on every stream. -/
def Agree (s t : Sampler ε α) : Prop :=
  ∀ stream, (s stream).result = (t stream).result ∧ (s stream).left = (t stream).left

theorem Agree.refl (s : Sampler ε α) : Agree s s := fun _ => ⟨rfl, rfl⟩

theorem Agree.trans {s t u : Sampler ε α} (h : Agree s t) (h' : Agree t u) : Agree s u :=
  fun stream => ⟨(h stream).1.trans (h' stream).1, (h stream).2.trans (h' stream).2⟩

theorem Agree.bind (s : Sampler ε α) {f g : α → Sampler ε β} (h : ∀ a, Agree (f a) (g a)) :
    Agree (s >>= f) (s >>= g) := by
  intro stream
  cases hs : (s stream).result with
  | ok a =>
    rw [bind_apply_of_ok hs, bind_apply_of_ok hs]
    exact h a (s stream).left
  | error e =>
    rw [bind_apply_of_error hs, bind_apply_of_error hs]
    exact ⟨rfl, rfl⟩

theorem Agree.mapError (g : ε → ε') {s t : Sampler ε α} (h : Agree s t) :
    Agree (s.mapError g) (t.mapError g) := by
  intro stream
  obtain ⟨hresult, hleft⟩ := h stream
  exact ⟨congrArg (Except.mapError g) hresult, hleft⟩

/-- Sealing only shows in the ledger. -/
theorem agree_sealBox (suite : Suite) (key : suite.SharedKey) (nonce : Nonce) (message : Bytes)
    (f : Bytes → Sampler ε β) :
    Agree (sealBox suite key nonce message >>= f) (f (suite.sealBox key nonce message)) := by
  rw [sealBox_bind]
  exact fun _ => ⟨rfl, rfl⟩

end Envelope.Sampler

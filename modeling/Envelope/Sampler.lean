import Envelope.Suite

/-!
# Operations that draw random bytes

A `Sampler` takes random bytes from the front of a stream and may fail. What
it took stays taken when it fails later on; only a draw that finds too few
bytes takes nothing. Beside its result it gives a ledger of the draws and of
the nonces that were sealed with, in the order in which this happened.
-/

namespace Envelope

/-- What drawn bytes are used as. -/
inductive Purpose
  | privateKey
  | payloadKey
  | salt
  | nonce
  | unspecified
deriving DecidableEq, Repr

/-- An entry of the ledger. -/
inductive Event
  | drawn (purpose : Purpose) (bytes : Bytes)
  /-- Something was sealed under a symmetric key. -/
  | sealedBody (nonce : Nonce)
  /-- Something was sealed between two parties. -/
  | sealedBox (nonce : Nonce)
deriving DecidableEq

/-- What becomes of a sampler on a stream. -/
@[ext] structure Outcome (ε α : Type) where
  result : Except ε α
  /-- The bytes that were not taken. -/
  left : Bytes
  ledger : List Event

/-- An operation on a stream of random bytes. -/
def Sampler (ε α : Type) := Bytes → Outcome ε α

namespace Sampler

variable {ε ε' α β γ : Type}

/-- The operation that takes nothing and gives a value. -/
protected def pure (a : α) : Sampler ε α :=
  fun stream => ⟨.ok a, stream, []⟩

/-- One operation after another, on the bytes that the first one left. -/
protected def bind (s : Sampler ε α) (f : α → Sampler ε β) : Sampler ε β :=
  fun stream =>
    let first := s stream
    match first.result with
    | .ok a =>
      let second := f a first.left
      { second with ledger := first.ledger ++ second.ledger }
    | .error e => ⟨.error e, first.left, first.ledger⟩

instance : Monad (Sampler ε) where
  pure := Sampler.pure
  bind := Sampler.bind

/-- A result without any draw. -/
def ofExcept (result : Except ε α) : Sampler ε α :=
  fun stream => ⟨result, stream, []⟩

instance : MonadLift (Except ε) (Sampler ε) := ⟨ofExcept⟩

def fail (error : ε) : Sampler ε α :=
  ofExcept (.error error)

/-- The same operation with another type of errors. -/
def mapError (f : ε → ε') (s : Sampler ε α) : Sampler ε' α :=
  fun stream =>
    let outcome := s stream
    ⟨outcome.result.mapError f, outcome.left, outcome.ledger⟩

/-- Draws `size` bytes. -/
def draw (purpose : Purpose) (size : Nat) : Sampler Error (Octets size) :=
  fun stream =>
    match Octets.ofBytes? (stream.take size) with
    | some octets => ⟨.ok octets, stream.drop size, [.drawn purpose octets.toBytes]⟩
    | none => ⟨.error (.resource .randomness), stream, []⟩

def privateKey : Sampler Error PrivateKey :=
  return ⟨← draw .privateKey 32⟩

def payloadKey : Sampler Error SymmetricKey :=
  return ⟨← draw .payloadKey 32⟩

def salt : Sampler Error Salt :=
  return ⟨← draw .salt 16⟩

def nonce : Sampler Error Nonce :=
  return ⟨← draw .nonce 24⟩

def sealBody (suite : Suite) (key : SymmetricKey) (nonce : Nonce) (message : Bytes) :
    Sampler ε Bytes :=
  fun stream => ⟨.ok (suite.sealBody key nonce message), stream, [.sealedBody nonce]⟩

def sealBox (suite : Suite) (key : suite.SharedKey) (nonce : Nonce) (message : Bytes) :
    Sampler ε Bytes :=
  fun stream => ⟨.ok (suite.sealBox key nonce message), stream, [.sealedBox nonce]⟩

/-! ## Laws -/

@[simp] theorem pure_apply (a : α) (stream : Bytes) :
    (pure a : Sampler ε α) stream = ⟨.ok a, stream, []⟩ := rfl

@[simp] theorem fail_apply (error : ε) (stream : Bytes) :
    (fail error : Sampler ε α) stream = ⟨.error error, stream, []⟩ := rfl

theorem bind_apply_of_ok {s : Sampler ε α} {f : α → Sampler ε β} {stream : Bytes} {a : α}
    (h : (s stream).result = .ok a) :
    (s >>= f) stream =
      { f a (s stream).left with ledger := (s stream).ledger ++ (f a (s stream).left).ledger } := by
  show Sampler.bind s f stream = _
  simp only [Sampler.bind, h]

theorem bind_apply_of_error {s : Sampler ε α} {f : α → Sampler ε β} {stream : Bytes} {e : ε}
    (h : (s stream).result = .error e) :
    (s >>= f) stream = ⟨.error e, (s stream).left, (s stream).ledger⟩ := by
  show Sampler.bind s f stream = _
  simp only [Sampler.bind, h]

theorem bind_assoc (s : Sampler ε α) (f : α → Sampler ε β) (g : β → Sampler ε γ) :
    s >>= f >>= g = s >>= fun a => f a >>= g := by
  funext stream
  cases h : (s stream).result with
  | error e =>
    have hs := bind_apply_of_error (f := f) h
    rw [bind_apply_of_error (e := e) (by rw [hs]), hs, bind_apply_of_error h]
  | ok a =>
    have hs := bind_apply_of_ok (f := f) h
    rw [bind_apply_of_ok (f := fun a => f a >>= g) h]
    cases h' : (f a (s stream).left).result with
    | error e =>
      rw [bind_apply_of_error (e := e) (by rw [hs, h']), bind_apply_of_error h', hs]
    | ok b =>
      rw [bind_apply_of_ok (a := b) (by rw [hs, h']), bind_apply_of_ok h', hs]
      simp

theorem draw_of_le {purpose : Purpose} {size : Nat} {stream : Bytes} (h : size ≤ stream.length) :
    draw purpose size stream =
      ⟨.ok ⟨stream.take size, List.length_take_of_le h⟩, stream.drop size,
        [.drawn purpose (stream.take size)]⟩ := by
  have : Octets.ofBytes? (stream.take size) =
      some ⟨stream.take size, List.length_take_of_le h⟩ :=
    Octets.ofBytes?_eq_some_iff.2 rfl
  simp only [draw, this]

theorem draw_of_lt {purpose : Purpose} {size : Nat} {stream : Bytes} (h : stream.length < size) :
    draw purpose size stream = ⟨.error (.resource .randomness), stream, []⟩ := by
  have : (Octets.ofBytes? (stream.take size) : Option (Octets size)) = none := by
    rw [Octets.ofBytes?, dif_neg]
    simp only [List.length_take]
    omega
  simp only [draw, this]

end Sampler

end Envelope

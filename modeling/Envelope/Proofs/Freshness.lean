import Envelope.Proofs.Circle
import Envelope.Proofs.Ledger

/-!
# Fresh nonces over whole sessions

A session is a run of calls that share one stream of random bytes, each of which
may fail. Whatever the calls are, no two things are sealed with one nonce as
long as the stream gives different nonces.
-/

namespace Envelope

/-- What a call hands out. -/
inductive Product
  | payload (payload : Payload)
  | draft (draft : Draft)
  | box (box : KeyBox)
  | record (record : KeyRecord)
  | keyPair (pair : KeyPair) (record : KeyRecord)

/-- A call that draws random bytes. Its arguments may be anything, also what
earlier calls handed out. -/
inductive Call
  | encrypt (message : Bytes) (sender : PrivateKey) (recipients : List PublicKey)
  | draft (message : Bytes) (sender : PrivateKey)
  | address (draft : Draft) (sender : PrivateKey) (recipients : List PublicKey)
  | newBox (payload : Payload) (own : PrivateKey) (recipient : PublicKey)
  | addRecipient (payload : Payload) (own : PrivateKey) (recipient : PublicKey)
  | protect (protector : Protector) (key : PrivateKey) (password : String)
  | protectWith (protector : Protector) (key : PrivateKey) (password : String)
    (options : Kdf.Options)
  | changePassword (protector : Protector) (record : KeyRecord) (old new : String)
  | generate (protector : Protector) (password : String)

namespace Product

@[simp] def privateKeys : Product → List PrivateKey
  | .keyPair pair _ => [pair.privateKey]
  | _ => []

@[simp] def salts : Product → List Salt
  | .record r => [r.salt]
  | .keyPair _ r => [r.salt]
  | _ => []

/-- The nonces of sealed bodies and private keys. -/
@[simp] def bodyNonces : Product → List Nonce
  | .payload p => [p.nonce]
  | .draft d => [d.nonce]
  | .box _ => []
  | .record r => [r.nonce]
  | .keyPair _ r => [r.nonce]

@[simp] def boxNonces : Product → List Nonce
  | .payload p => p.boxNonces
  | .draft d => [d.nonce]
  | .box b => [b.nonce]
  | _ => []

end Product

namespace Call

def perform (suite : Suite) : Call → Sampler Error Product
  | encrypt message sender recipients =>
    return .payload (← Payload.encrypt suite message sender recipients)
  | draft message sender => return .draft (← Draft.encrypt suite message sender)
  | address d sender recipients => return .payload (← d.address suite sender recipients)
  | newBox payload own recipient => return .box (← payload.newBox suite own recipient)
  | addRecipient payload own recipient =>
    return .payload (← payload.addRecipient suite own recipient)
  | protect protector key password => return .record (← protector.protect suite key password)
  | protectWith protector key password options =>
    return .record (← protector.protectWith suite key password options)
  | changePassword protector record old new =>
    return .record (← protector.changePassword suite record old new)
  | generate protector password => do
    let made ← protector.generate suite password
    return .keyPair made.1 made.2

def isDraft : Call → Bool
  | draft .. => true
  | _ => false

/-- The nonce of the body that is handed on. -/
@[simp] def bodyNonces : Call → List Nonce
  | address d _ _ => [d.nonce]
  | addRecipient payload _ _ => [payload.nonce]
  | _ => []

/-- The nonces of the boxes that are handed on. -/
@[simp] def boxNonces : Call → List Nonce
  | addRecipient payload _ _ => payload.boxNonces
  | _ => []

/-- What is handed out has the keys, the salts and the nonces that were drawn,
and no others but those that were handed in. -/
structure Delivers (call : Call) (uses : List Use) (product : Product) : Prop where
  privateKeys_eq : product.privateKeys = uses.filterMap Use.privateKey?
  salts_eq : product.salts = uses.filterMap Use.salt?
  bodyNonces_eq : product.bodyNonces = call.bodyNonces ++ uses.filterMap Use.bodyNonce?
  boxNonces_perm : product.boxNonces.Perm (call.boxNonces ++ uses.filterMap Use.boxNonce?)

theorem accounts_of_single {α : Type} {call : Call} {s : Sampler Error α} {f : α → Product}
    {post : α → List Use → Prop} (h : s.Accounts (¬·.twofold) post)
    (hpost : ∀ a uses, post a uses → call.Delivers uses (f a)) :
    (s >>= fun a => pure (f a)).Accounts (fun use => use.twofold → call.isDraft)
      fun product uses => call.Delivers uses product :=
  (h.map hpost).allow fun _ hsingle htwofold => absurd htwofold hsingle

/-- One call draws for what it hands out, and uses a nonce twice only in a draft. -/
theorem accounts_perform (suite : Suite) (call : Call) :
    (call.perform suite).Accounts (fun use => use.twofold → call.isDraft)
      fun product uses => call.Delivers uses product := by
  cases call with
  | encrypt message sender recipients =>
    refine accounts_of_single (Payload.accounts_encrypt message sender recipients) ?_
    rintro payload _ ⟨key, nonces, hperm, rfl⟩
    constructor <;> simp [List.filterMap_cons, hperm]
  | draft message sender =>
    refine ((Draft.accounts_encrypt message sender).map ?_).allow fun _ _ _ => rfl
    rintro draft _ ⟨key, rfl⟩
    exact ⟨rfl, rfl, rfl, .refl _⟩
  | address draft sender recipients =>
    refine accounts_of_single (Draft.accounts_address draft sender recipients) ?_
    rintro payload _ ⟨nonces, rfl, hnonce, hperm⟩
    constructor <;> simp [hnonce, hperm]
  | newBox payload own recipient =>
    refine accounts_of_single Payload.accounts_newBox ?_
    rintro box _ rfl
    exact ⟨rfl, rfl, rfl, .refl _⟩
  | addRecipient payload own recipient =>
    refine accounts_of_single Payload.accounts_addRecipient ?_
    rintro final _ ⟨nonces, rfl, hgained⟩
    constructor <;> simp [hgained.nonce_eq, hgained.boxes_perm]
  | protect protector key password =>
    refine accounts_of_single (Protector.accounts_protectWith key password protector.options) ?_
    rintro record _ rfl
    exact ⟨rfl, rfl, rfl, .refl _⟩
  | protectWith protector key password options =>
    refine accounts_of_single (Protector.accounts_protectWith key password options) ?_
    rintro record _ rfl
    exact ⟨rfl, rfl, rfl, .refl _⟩
  | changePassword protector record old new =>
    refine accounts_of_single (Protector.accounts_changePassword record old new) ?_
    rintro renewed _ rfl
    exact ⟨rfl, rfl, rfl, .refl _⟩
  | generate protector password =>
    refine accounts_of_single (Protector.accounts_generate password) ?_
    rintro ⟨pair, record⟩ _ rfl
    exact ⟨rfl, rfl, rfl, .refl _⟩

end Call

/-! ## Sessions -/

/-- The calls of a session with what became of them. -/
structure Session where
  entries : List (Call × Outcome Error Product)
  /-- The bytes that no call took. -/
  left : Bytes

namespace Event

/-- The bytes that were drawn. -/
def bytes : Event → Bytes
  | drawn _ bytes => bytes
  | _ => []

/-- The bytes of a nonce that was drawn. -/
def nonce? : Event → Option Bytes
  | drawn .nonce bytes => some bytes
  | _ => none

/-- The nonce that a body or a private key was sealed with. -/
def body? : Event → Option Nonce
  | sealedBody nonce => some nonce
  | _ => none

/-- The nonce that a box was sealed with. -/
def box? : Event → Option Nonce
  | sealedBox nonce => some nonce
  | _ => none

end Event

namespace Use

/-- The nonce that is drawn. -/
def nonce? : Use → Option Nonce
  | .nonce n _ => some n
  | _ => none

theorem bytes_events (uses : List Use) :
    (uses.flatMap events).flatMap Event.bytes = uses.flatMap bytes := by
  have h (use : Use) : use.events.flatMap Event.bytes = use.bytes := by
    rcases use with _ | _ | _ | ⟨_, _ | _ | _⟩ <;> simp [events, seals, Event.bytes, bytes]
  simp only [List.flatMap_assoc, h]

/-- What is read off every use is read off the whole ledger. -/
theorem filterMap_events {γ : Type} {event? : Event → Option γ} {use? : Use → Option γ}
    (h : ∀ use : Use, use.events.filterMap event? = (use? use).toList) (uses : List Use) :
    (uses.flatMap events).filterMap event? = uses.filterMap use? := by
  induction uses with
  | nil => rfl
  | cons use rest ih =>
    rw [List.flatMap_cons, List.filterMap_append, h, ih, List.filterMap_cons]
    cases use? use <;> rfl

theorem bodies_events (uses : List Use) :
    (uses.flatMap events).filterMap Event.body? = uses.filterMap bodyNonce? :=
  filterMap_events (by rintro (_ | _ | _ | ⟨_, _ | _ | _⟩) <;> rfl) uses

theorem boxes_events (uses : List Use) :
    (uses.flatMap events).filterMap Event.box? = uses.filterMap boxNonce? :=
  filterMap_events (by rintro (_ | _ | _ | ⟨_, _ | _ | _⟩) <;> rfl) uses

theorem nonces_events (uses : List Use) : (uses.flatMap events).filterMap Event.nonce? =
    (uses.filterMap nonce?).map (·.octets.toBytes) := by
  rw [List.map_filterMap]
  exact filterMap_events (by rintro (_ | _ | _ | ⟨_, _ | _ | _⟩) <;> rfl) uses

theorem nonce?_of_bodyNonce? {use : Use} {n : Nonce} (h : use.bodyNonce? = some n) :
    use.nonce? = some n := by
  rcases use with _ | _ | _ | ⟨_, _ | _ | _⟩ <;> simp_all [nonce?]

theorem nonce?_of_boxNonce? {use : Use} {n : Nonce} (h : use.boxNonce? = some n) :
    use.nonce? = some n := by
  rcases use with _ | _ | _ | ⟨_, _ | _ | _⟩ <;> simp_all [nonce?]

/-- Where a use seals with no nonce but the one that it draws, the nonces that are
sealed with are some of those that are drawn. -/
theorem sublist_nonces {seal? : Use → Option Nonce}
    (hseal : ∀ {use n}, seal? use = some n → use.nonce? = some n) (uses : List Use) :
    (uses.filterMap seal?).Sublist (uses.filterMap nonce?) := by
  induction uses with
  | nil => exact .slnil
  | cons use rest ih =>
    cases hs : seal? use with
    | none =>
      rw [List.filterMap_cons_none hs, List.filterMap_cons]
      split
      · exact ih
      · exact ih.cons _
    | some n =>
      rw [List.filterMap_cons_some hs, List.filterMap_cons_some (hseal hs)]
      exact ih.cons_cons n

theorem nodup_nonces {uses : List Use}
    (h : ((uses.filterMap nonce?).map (·.octets.toBytes)).Nodup) :
    (uses.filterMap nonce?).Nodup := by
  rw [List.Nodup, List.pairwise_map] at h
  exact h.imp fun hne heq => hne (by rw [heq])

end Use

namespace Session

/-- One call after another, each on the bytes that the ones before it left. Where
callers go by what came out before, these are the calls that they made. -/
def run (suite : Suite) : List Call → Bytes → Session
  | [], stream => ⟨[], stream⟩
  | call :: calls, stream =>
    let outcome := call.perform suite stream
    let later := run suite calls outcome.left
    ⟨(call, outcome) :: later.entries, later.left⟩

def ledger (session : Session) : List Event :=
  session.entries.flatMap (·.2.ledger)

/-- The draws of a call are the uses, and what it hands out comes from them. -/
structure Settles (entry : Call × Outcome Error Product) (uses : List Use) : Prop where
  ledger_eq : entry.2.ledger = uses.flatMap Use.events
  twofold : ∀ use ∈ uses, use.twofold → entry.1.isDraft
  delivers : ∀ product, entry.2.result = .ok product → entry.1.Delivers uses product

/-- The calls of a session use up the stream one after another. -/
theorem run_uses (suite : Suite) (calls : List Call) (stream : Bytes) :
    (∀ entry ∈ (run suite calls stream).entries, ∃ uses, Settles entry uses) ∧
      ∃ uses : List Use, (run suite calls stream).ledger = uses.flatMap Use.events ∧
        stream = uses.flatMap Use.bytes ++ (run suite calls stream).left := by
  induction calls generalizing stream with
  | nil => exact ⟨by simp [run], [], rfl, rfl⟩
  | cons call calls ih =>
    obtain ⟨uses, hspends, htwofold, hdelivers⟩ := call.accounts_perform suite stream
    obtain ⟨hentries, more, hledger, hstream⟩ := ih (call.perform suite stream).left
    refine ⟨List.forall_mem_cons.2 ⟨⟨uses, hspends.ledger_eq, htwofold, hdelivers⟩, hentries⟩,
      uses ++ more, ?_, ?_⟩
    · rw [List.flatMap_append, ← hspends.ledger_eq, ← hledger]
      rfl
    · rw [List.flatMap_append, List.append_assoc]
      exact hspends.stream_eq.trans (congrArg _ hstream)

/-- The draws of a session follow each other on the stream, each for one use by
its own call, and no nonce serves twice for the same kind of seal unless the
stream repeats a nonce. -/
theorem run_fresh (suite : Suite) (calls : List Call) (stream : Bytes) :
    let session := run suite calls stream
    stream = session.ledger.flatMap Event.bytes ++ session.left ∧
      (∀ entry ∈ session.entries, ∃ uses, Settles entry uses) ∧
      ((session.ledger.filterMap Event.nonce?).Nodup →
        (session.ledger.filterMap Event.body?).Nodup ∧
          (session.ledger.filterMap Event.box?).Nodup) := by
  obtain ⟨hentries, uses, hledger, hstream⟩ := run_uses suite calls stream
  simp only [hledger, Use.bytes_events, Use.bodies_events, Use.boxes_events, Use.nonces_events]
  refine ⟨hstream, hentries, fun hbytes => ?_⟩
  have hnodup := Use.nodup_nonces hbytes
  exact ⟨hnodup.sublist (Use.sublist_nonces Use.nonce?_of_bodyNonce? uses),
    hnodup.sublist (Use.sublist_nonces Use.nonce?_of_boxNonce? uses)⟩

/-- Some calls: the third one is refused at once, the fourth one for its memory
after it drew a salt, and the last one finds too few bytes. -/
def errands : List Call :=
  let options : Kdf.Options := ⟨.hybrid, 8, 1, 1, 19⟩
  [.draft [1] (party 1), .encrypt [2] (party 1) [point 5, point 6, point 5],
    .encrypt [3] (party 1) [], .protectWith ⟨7, options⟩ (party 2) "first" options,
    .generate ⟨8, options⟩ "second", .draft [4] (party 1)]

theorem run_fresh_errands :
    let session := run .standard errands ((List.range 256).map UInt8.ofNat)
    session.entries.map (·.2.result.toOption.isSome) = [true, true, false, false, true, false] ∧
      (session.ledger.filterMap Event.body?).length = 3 ∧
      (session.ledger.filterMap Event.box?).length = 3 ∧
      (session.ledger.filterMap Event.nonce?).Nodup ∧
      (session.ledger.filterMap Event.body?).Nodup ∧
      (session.ledger.filterMap Event.box?).Nodup := by
  have hnonces : ((run .standard errands ((List.range 256).map UInt8.ofNat)).ledger.filterMap
      Event.nonce?).Nodup := by decide +kernel
  refine ⟨by decide +kernel, by decide +kernel, by decide +kernel, hnonces, ?_⟩
  exact (run_fresh .standard errands _).2.2 hnonces

end Session

end Envelope

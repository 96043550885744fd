import Envelope.Payload
import Envelope.Steps

/-!
# Closed circles

A circle is the standard suite among a few parties, who are the only ones with
a public key. Both ends of a shared key are looked up, and the smaller one
computes it, so that the suite is lawful without any theory of the curve. Among
parties for whom the standard suite is lawful as well, as it is for the four of
`Suite.quartet`, the two suites agree.
-/

namespace Envelope

namespace Suite

variable (members : List PrivateKey)

/-- The public key of a member. Everyone else has the zero key. -/
def memberKey (own : PrivateKey) : PublicKey :=
  if own ∈ members then standard.publicKey own else .zero

def member? (point : PublicKey) : Option PrivateKey :=
  members.find? fun member => standard.publicKey member = point

/-- What a party shares with the holder of a point. A point of no member is
multiplied as it is. -/
def circleKey (point : PublicKey) (own : PrivateKey) : standard.SharedKey :=
  let ownKey := memberKey members own
  if point = .zero ∨ ownKey = .zero then standard.sharedKey .zero ⟨.zero⟩
  else
    match member? members point, member? members ownKey with
    | some other, some self =>
      if point < ownKey then standard.sharedKey ownKey other else standard.sharedKey point self
    | _, _ => standard.sharedKey point own

def circle : Suite :=
  { standard with
    publicKey := memberKey members
    sharedKey := circleKey members }

instance : DecidableEq standard.SharedKey :=
  inferInstanceAs (DecidableEq Bytes)

variable {members} {a b : PrivateKey}

theorem exists_member? (h : memberKey members a ≠ .zero) :
    ∃ member, member? members (memberKey members a) = some member := by
  unfold memberKey at h ⊢
  split at h
  · rename_i hmem
    rw [if_pos hmem]
    exact Option.isSome_iff_exists.1 (List.find?_isSome.2 ⟨a, hmem, by simp⟩)
  · exact absurd rfl h

theorem circleKey_comm (a b : PrivateKey) :
    circleKey members (memberKey members a) b = circleKey members (memberKey members b) a := by
  by_cases hzero : memberKey members a = .zero ∨ memberKey members b = .zero
  · simp only [circleKey, hzero, hzero.symm, ↓reduceIte]
  · obtain ⟨x, hx⟩ := exists_member? (not_or.1 hzero).1
    obtain ⟨y, hy⟩ := exists_member? (not_or.1 hzero).2
    simp only [circleKey, hzero, (not_congr or_comm).1 hzero, hx, hy, ↓reduceIte]
    rcases PublicKey.lt_trichotomy (memberKey members a) (memberKey members b) with
      hlt | heq | hlt
    · simp [hlt, PublicKey.lt_asymm hlt]
    · rw [heq, hy] at hx
      cases hx
      simp [heq, PublicKey.lt_irrefl]
    · simp [hlt, PublicKey.lt_asymm hlt]

theorem memberKey_of_mem (ha : a ∈ members) : memberKey members a = standard.publicKey a :=
  if_pos ha

/-- Parties who can do without a circle: each has a public key of its own, which is
not zero, and any two of them compute the same shared key. -/
structure Acquainted (members : List PrivateKey) : Prop where
  distinct : ∀ a ∈ members, ∀ b ∈ members, standard.publicKey a = standard.publicKey b → a = b
  nonzero : ∀ a ∈ members, standard.publicKey a ≠ .zero
  shares : ∀ a ∈ members, ∀ b ∈ members,
    standard.sharedKey (standard.publicKey a) b = standard.sharedKey (standard.publicKey b) a

/-- The circle gives its members the keys that the standard suite gives them. -/
structure Agrees (members : List PrivateKey) : Prop where
  publicKey_eq : ∀ a ∈ members, (circle members).publicKey a = standard.publicKey a
  sharedKey_eq : ∀ a ∈ members, ∀ b ∈ members,
    (circle members).sharedKey (standard.publicKey a) b =
      standard.sharedKey (standard.publicKey a) b

theorem Acquainted.member?_eq (h : Acquainted members) (ha : a ∈ members) :
    member? members (standard.publicKey a) = some a := by
  cases hfind : member? members (standard.publicKey a) with
  | none =>
    have hnone := List.find?_eq_none.1 hfind a ha
    simp at hnone
  | some found =>
    have hkey : standard.publicKey found = standard.publicKey a := by
      simpa using List.find?_some hfind
    rw [h.distinct found (List.mem_of_find?_eq_some hfind) a ha hkey]

theorem Acquainted.agrees (h : Acquainted members) : Agrees members where
  publicKey_eq _ ha := memberKey_of_mem ha
  sharedKey_eq a ha b hb := by
    have hzero : ¬(standard.publicKey a = .zero ∨ standard.publicKey b = .zero) :=
      not_or.2 ⟨h.nonzero a ha, h.nonzero b hb⟩
    show circleKey members (standard.publicKey a) b = _
    simp only [circleKey, memberKey_of_mem hb, if_neg hzero, h.member?_eq ha, h.member?_eq hb]
    split
    · exact h.shares b hb a ha
    · rfl

theorem opensBoxes_circle : (circle members).OpensBoxes := by
  dsimp only [OpensBoxes, circle]
  exact opensBoxes_standard

theorem opensBodies_circle : (circle members).OpensBodies := by
  dsimp only [OpensBodies, circle]
  exact opensBodies_standard

theorem sharesKeys_circle : (circle members).SharesKeys := by
  dsimp only [SharesKeys, circle]
  exact circleKey_comm

theorem lawful_circle (members : List PrivateKey) : (circle members).Lawful :=
  ⟨opensBoxes_circle, opensBodies_circle, sharesKeys_circle⟩

end Suite

/-! ## Sealing within a circle -/

namespace Payload

variable {members : List PrivateKey} {sealer sender : PrivateKey} {recipient : PublicKey}
  {recipients : List PublicKey}

theorem sealKey_circle (h : Suite.Agrees members) (hsealer : sealer ∈ members)
    (hrecipient : ∃ a ∈ members, Suite.standard.publicKey a = recipient) (key : SymmetricKey) :
    sealKey (.circle members) key sealer recipient = sealKey .standard key sealer recipient := by
  obtain ⟨a, ha, rfl⟩ := hrecipient
  unfold sealKey
  rw [h.sharedKey_eq a ha sealer hsealer, h.publicKey_eq sealer hsealer]
  rfl

theorem sealKeys_circle (h : Suite.Agrees members) (hsealer : sealer ∈ members)
    (hrecipients : ∀ recipient ∈ recipients, ∃ a ∈ members,
      Suite.standard.publicKey a = recipient) (key : SymmetricKey) (payload : Payload) :
    sealKeys (.circle members) key sealer payload recipients =
      sealKeys .standard key sealer payload recipients := by
  induction recipients generalizing payload with
  | nil => rfl
  | cons recipient rest ih =>
    obtain ⟨hrecipient, hrest⟩ := List.forall_mem_cons.1 hrecipients
    simp only [sealKeys, sealKey_circle h hsealer hrecipient, ih hrest]

/-- Members seal a message for one another as they would without the circle. -/
theorem encrypt_circle (h : Suite.Agrees members) (hsender : sender ∈ members)
    (hrecipients : ∀ recipient ∈ recipients, ∃ a ∈ members,
      Suite.standard.publicKey a = recipient) (message : Bytes) :
    encrypt (.circle members) message sender recipients =
      encrypt .standard message sender recipients := by
  unfold encrypt
  simp only [sealKeys_circle h hsender hrecipients, h.publicKey_eq sender hsender]
  rfl

end Payload

/-! ## Four parties -/

/-- A party whose private key repeats one byte. -/
def party (byte : UInt8) : PrivateKey :=
  ⟨⟨List.replicate 32 byte, List.length_replicate⟩⟩

/-- A point, by its least significant byte. -/
def point (byte : UInt8) : PublicKey :=
  ⟨⟨byte :: List.replicate 31 0, rfl⟩⟩

def parties : List PrivateKey :=
  [party 1, party 2, party 3, party 4]

/-- The circle of four parties. -/
def Suite.quartet : Suite :=
  circle parties

/-- The four can do without the circle, so that it makes no difference to them. -/
theorem Suite.quartet_agrees : Agrees parties :=
  Acquainted.agrees ⟨by decide +kernel, by decide +kernel, by decide +kernel⟩

def partyKey (byte : UInt8) : PublicKey :=
  Suite.quartet.publicKey (party byte)

/-- The bytes of "hi", from the first party to the second. -/
@[irreducible] def letter : Payload :=
  (Payload.encrypt .quartet [104, 105] (party 1) [partyKey 2]
    (List.replicate 80 7)).result.toOption.get (by decide +kernel)

theorem encrypt_letter : (Payload.encrypt .quartet [104, 105] (party 1) [partyKey 2]
    (List.replicate 80 7)).result = .ok letter := by
  unfold letter
  exact eq_ok_get _

/-- The letter is the one that the standard suite seals. -/
theorem encrypt_letter_standard :
    (Payload.encrypt .standard [104, 105] (party 1) [Suite.standard.publicKey (party 2)]
      (List.replicate 80 7)).result = .ok letter := by
  have hsecond : partyKey 2 = Suite.standard.publicKey (party 2) :=
    Suite.quartet_agrees.publicKey_eq (party 2) (by decide)
  rw [← Payload.encrypt_circle Suite.quartet_agrees (by decide)
    (List.forall_mem_singleton.2 ⟨party 2, by decide, rfl⟩), ← hsecond]
  exact encrypt_letter

end Envelope

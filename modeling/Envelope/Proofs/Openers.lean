import Envelope.Proofs.Drafts
import Envelope.Proofs.Transport

/-!
# The key that an enclave opens with

An enclave makes a box with a key that it holds and that the payload names: as
its sender, as an addressee or as a sealer. It picks by names alone, and does
not try whether the key opens anything. Names on a payload that was sealed and
extended in order are good enough for this; one false name may keep an enclave
from extending what it reads.
-/

namespace Envelope

namespace KeyRing

variable {ring : KeyRing} {name : PublicKey} {key : PrivateKey}

theorem exists_privateKey (h : ring.contains name = true) :
    ∃ key, ring.privateKey name = .ok key := by
  obtain ⟨pair, hmem, hname⟩ := List.any_eq_true.1 h
  have hfound : (ring.pairs.find? (·.publicKey = name)).isSome = true :=
    List.find?_isSome.2 ⟨pair, hmem, hname⟩
  obtain ⟨found, hfound⟩ := Option.isSome_iff_exists.1 hfound
  exact ⟨found.privateKey, by simp [privateKey, hfound]⟩

/-- No public key is held twice, so every pair is found. -/
theorem privateKey_of_mem {pair : KeyPair} (h : pair ∈ ring.pairs) :
    ring.privateKey pair.publicKey = .ok pair.privateKey := by
  obtain ⟨front, back, hpairs⟩ := List.append_of_mem h
  have hnodup := ring.nodup
  rw [hpairs, List.map_append, List.nodup_append] at hnodup
  have hfront : front.find? (·.publicKey = pair.publicKey) = none := by
    apply List.find?_eq_none.2
    intro other hother
    have hne := hnodup.2.2 _ (List.mem_map_of_mem hother) pair.publicKey (by simp)
    simpa using hne
  have hfound : ring.pairs.find? (·.publicKey = pair.publicKey) = some pair := by
    rw [hpairs, List.find?_append, hfront, List.find?_cons_of_pos (by simp)]
    rfl
  rw [privateKey, hfound]

theorem contains_of_privateKey (h : ring.privateKey name = .ok key) :
    ring.contains name = true :=
  List.any_eq_true.2 ⟨_, mem_of_privateKey h, by simp⟩

end KeyRing

/-- The payload names a key: as its sender, as an addressee or as a sealer. -/
def Payload.Names (payload : Payload) (name : PublicKey) : Prop :=
  name = payload.sender ∨
    ∃ addressee box, payload.boxes.find? addressee = some box ∧
      (name = addressee ∨ name = box.sealedBy)

namespace Enclave

variable {suite : Suite} {enclave : Enclave} {payload : Payload} {name recipient : PublicKey}
  {stream : Bytes}

/-- The enclave holds the private key of a name on the payload. -/
def Involved (enclave : Enclave) (payload : Payload) : Prop :=
  ∃ name, payload.Names name ∧ enclave.ring.contains name = true

theorem names_of_opener? (h : enclave.opener? payload = some name) :
    payload.Names name ∧ enclave.ring.contains name = true := by
  unfold opener? at h
  split at h
  · rename_i hsender
    cases h
    exact ⟨.inl rfl, hsender⟩
  · obtain ⟨entry, hentry, hname⟩ := List.mem_flatMap.1 (List.mem_of_find?_eq_some h)
    have hfind := KeyMap.mem_entries_iff.1 hentry
    exact ⟨.inr ⟨entry.1, entry.2, hfind, by simpa using hname⟩, List.find?_some h⟩

theorem exists_opener? (h : enclave.Involved payload) :
    ∃ name, enclave.opener? payload = some name := by
  obtain ⟨name, hname, hheld⟩ := h
  unfold opener?
  split
  · exact ⟨_, rfl⟩
  · rename_i hsender
    rcases hname with rfl | ⟨addressee, box, hfind, hname⟩
    · exact absurd hheld hsender
    · apply Option.isSome_iff_exists.1
      apply List.find?_isSome.2
      have hentry := KeyMap.mem_entries_iff.2 hfind
      refine ⟨name, List.mem_flatMap.2 ⟨(addressee, box), hentry, ?_⟩, hheld⟩
      simpa using hname

theorem opener?_eq_none (h : ¬enclave.Involved payload) : enclave.opener? payload = none := by
  apply Option.eq_none_iff_forall_ne_some.2
  intro name hname
  exact h ⟨name, names_of_opener? hname⟩

/-! ## Reading -/

theorem decrypt_of_privateKey {key : PrivateKey} (hrunning : enclave.running = true)
    (hkey : enclave.ring.privateKey name = .ok key) :
    enclave.decrypt suite payload name = (payload.decrypt suite key).mapError .crypto := by
  simp [decrypt, requireRunning, hrunning, hkey, bind, Except.bind]

theorem decrypt_eq_ok_iff {message : Bytes} (hrunning : enclave.running = true) :
    enclave.decrypt suite payload name = .ok message ↔
      ∃ key, enclave.ring.privateKey name = .ok key ∧ payload.decrypt suite key = .ok message := by
  constructor
  · intro h
    cases hkey : enclave.ring.privateKey name with
    | error error => simp [decrypt, requireRunning, hrunning, hkey, bind, Except.bind] at h
    | ok key =>
      rw [decrypt_of_privateKey hrunning hkey] at h
      cases hread : payload.decrypt suite key with
      | error error =>
        rw [hread] at h
        cases h
      | ok text =>
        rw [hread] at h
        cases h
        exact ⟨key, rfl, hread⟩
  · rintro ⟨key, hkey, hread⟩
    rw [decrypt_of_privateKey hrunning hkey, hread]
    rfl

/-! ## Making a box -/

theorem newBox_of_opener? {key : PrivateKey} (hrunning : enclave.running = true)
    (hopener : enclave.opener? payload = some name)
    (hkey : enclave.ring.privateKey name = .ok key) :
    enclave.newBox suite payload recipient =
      (payload.newBox suite key recipient).mapError .crypto := by
  simp [newBox, requireRunning, hrunning, hopener, hkey]

theorem newBox_of_not_involved (suite : Suite) (recipient : PublicKey)
    (hrunning : enclave.running = true) (h : ¬enclave.Involved payload) :
    enclave.newBox suite payload recipient = Sampler.fail (.crypto .decryption) := by
  simp [newBox, requireRunning, hrunning, opener?_eq_none h]

/-- A running enclave makes a box with one of the held keys that the payload names. -/
theorem newBox_cases {box : KeyBox} (hrunning : enclave.running = true)
    (h : (enclave.newBox suite payload recipient stream).result = .ok box) :
    ∃ name key, payload.Names name ∧ enclave.ring.privateKey name = .ok key ∧
      (payload.newBox suite key recipient stream).result = .ok box := by
  cases hopener : enclave.opener? payload with
  | none =>
    simp [newBox, requireRunning, hrunning, hopener] at h
  | some name =>
    obtain ⟨hnames, hheld⟩ := names_of_opener? hopener
    obtain ⟨key, hkey⟩ := KeyRing.exists_privateKey hheld
    rw [newBox_of_opener? hrunning hopener hkey] at h
    exact ⟨name, key, hnames, hkey, Sampler.result_mapError_eq_ok_iff.1 h⟩

/-! ## What the names are worth -/

/-- The enclave gives a box for the recipient, and the payload key in it opens the message. -/
def Extends (suite : Suite) (enclave : Enclave) (payload : Payload) (recipient : PublicKey)
    (message stream : Bytes) : Prop :=
  ∃ box name own key, (enclave.newBox suite payload recipient stream).result = .ok box ∧
    enclave.ring.privateKey name = .ok own ∧ box.Holds suite key own recipient ∧
    Payload.openBody suite payload key = .ok message

/-- It does so exactly where the key that it picks reads the message. -/
theorem extends_iff_opener_reads (hsuite : suite.OpensBoxes) (hrunning : enclave.running = true)
    (hpaired : enclave.ring.Paired suite) (hzero : recipient ≠ .zero) {message : Bytes}
    (hstream : 24 ≤ stream.length) :
    enclave.Extends suite payload recipient message stream ↔
      ∃ name, enclave.opener? payload = some name ∧
        enclave.decrypt suite payload name = .ok message := by
  constructor
  · rintro ⟨box, name, own, key, hbox, hown, hholds, hbody⟩
    cases hopener : enclave.opener? payload with
    | none => simp [newBox, requireRunning, hrunning, hopener] at hbox
    | some picked =>
      obtain ⟨held, hheld⟩ := KeyRing.exists_privateKey (names_of_opener? hopener).2
      rw [newBox_of_opener? hrunning hopener hheld] at hbox
      obtain ⟨recovered, hkey, hholds'⟩ :=
        Payload.newBox_holds (Sampler.result_mapError_eq_ok_iff.1 hbox)
      -- The name on the box tells which of the held keys sealed it.
      have hnames : name = picked :=
        calc name = suite.publicKey own := hpaired _ (KeyRing.mem_of_privateKey hown)
          _ = suite.publicKey held := hholds.sealedBy_eq.symm.trans hholds'.sealedBy_eq
          _ = picked := (hpaired _ (KeyRing.mem_of_privateKey hheld)).symm
      subst hnames
      obtain rfl : own = held := Except.ok.inj (hown.symm.trans hheld)
      obtain rfl : key = recovered := hholds.key_eq hholds' hsuite
      refine ⟨name, rfl, (decrypt_eq_ok_iff hrunning).2 ⟨own, hown, ?_⟩⟩
      exact Payload.decrypt_eq_ok_iff.2 ⟨key, hkey, hbody⟩
  · rintro ⟨name, hopener, hread⟩
    obtain ⟨own, hown, hread⟩ := (decrypt_eq_ok_iff hrunning).1 hread
    obtain ⟨key, hkey, hbody⟩ := Payload.decrypt_eq_ok_iff.1 hread
    obtain ⟨box, hbox⟩ := Payload.gives_sealKey suite key own recipient hstream
    refine ⟨box, name, own, key, ?_, hown, Payload.sealKey_holds hbox.result_eq, hbody⟩
    rw [newBox_of_opener? hrunning hopener hown, Payload.newBox_of_recoverKey hzero hkey]
    exact Sampler.result_mapError_eq_ok_iff.2 hbox.result_eq

/-- A held sender without any box to open makes every box fail. -/
theorem newBox_of_route?_eq_none {own : PrivateKey} (hrunning : enclave.running = true)
    (hown : enclave.ring.privateKey payload.sender = .ok own)
    (hroute : payload.route? (suite.publicKey own) = none) (hzero : recipient ≠ .zero) :
    enclave.newBox suite payload recipient = Sampler.fail (.crypto .decryption) := by
  have hopener : enclave.opener? payload = some payload.sender :=
    if_pos (KeyRing.contains_of_privateKey hown)
  have hcheck : Payload.checkRecipients [recipient] = .ok () :=
    Payload.checkRecipients_eq_ok_iff.2 ⟨by simp, by simpa using Ne.symm hzero⟩
  have hkey := Payload.recoverKey_of_route?_eq_none hroute
  rw [newBox_of_opener? hrunning hopener hown, Payload.newBox, hcheck, hkey]
  rfl

/-- An enclave extends a payload exactly where the key that it picks by names reads
it. Whatever other keys read it, a held key that has no part in any box makes
extending fail once it is named as the sender, which nothing on the payload
prevents. -/
theorem newBox_trusts_names (hsuite : suite.OpensBoxes) (hrunning : enclave.running = true)
    (hpaired : enclave.ring.Paired suite) (hlisted : payload.Listed) (hzero : recipient ≠ .zero) :
    (∀ message stream, 24 ≤ stream.length →
      (enclave.Extends suite payload recipient message stream ↔
        ∃ name, enclave.opener? payload = some name ∧
          enclave.decrypt suite payload name = .ok message)) ∧
    ∀ name, enclave.ring.contains name = true → payload.boxes.contains name = false →
      (∀ other box, payload.boxes.find? other = some box → box.sealedBy ≠ name) →
      Payload.decode { payload with sender := name }.encode = .ok { payload with sender := name } ∧
      (∀ reader, enclave.decrypt suite { payload with sender := name } reader =
        enclave.decrypt suite payload reader) ∧
      enclave.newBox suite { payload with sender := name } recipient =
        Sampler.fail (.crypto .decryption) := by
  constructor
  · exact fun message stream hstream =>
      extends_iff_opener_reads hsuite hrunning hpaired hzero hstream
  · intro name hheld hnew hsealed
    obtain ⟨own, hown⟩ := KeyRing.exists_privateKey hheld
    have hname : name = suite.publicKey own := hpaired _ (KeyRing.mem_of_privateKey hown)
    refine ⟨?_, fun reader => rfl, ?_⟩
    · have hmisnamed : Payload.Listed { payload with sender := name } :=
        ⟨hlisted.nodup, hlisted.mem_iff⟩
      rw [Payload.decode_encode, hmisnamed.settle_eq]
    · apply newBox_of_route?_eq_none hrunning hown ?_ hzero
      rw [← hname]
      exact Payload.route?_eq_none hnew hsealed

/-- An enclave of two parties. It forwards to nobody. -/
def couple : Enclave :=
  start
    { pairs := [Suite.standard.keyPair (party 1), Suite.standard.keyPair (party 2)]
      forwarding := .empty
      pairs_ne_nil := List.cons_ne_nil _ _
      nodup := by decide +kernel }

/-- The bytes of "hi", from a third party to the second one. -/
@[irreducible] def notice : Payload :=
  (Payload.encrypt .standard [104, 105] (party 3) [Suite.standard.publicKey (party 2)]
    (List.replicate 80 7)).result.toOption.get (by decide +kernel)

/-- The enclave extends the notice, and no longer once the first party is named as
its sender. -/
theorem newBox_trusts_names_couple :
    let first := Suite.standard.publicKey (party 1)
    let second := Suite.standard.publicKey (party 2)
    let misnamed := { notice with sender := first }
    Suite.standard.OpensBoxes ∧ couple.running = true ∧ couple.ring.Paired .standard ∧
      notice.Listed ∧ point 9 ≠ .zero ∧ couple.ring.contains first = true ∧
      notice.boxes.contains first = false ∧
      (∀ other box, notice.boxes.find? other = some box → box.sealedBy ≠ first) ∧
      couple.decrypt .standard notice second = .ok [104, 105] ∧
      couple.Extends .standard notice (point 9) [104, 105] (List.replicate 24 7) ∧
      Payload.decode misnamed.encode = .ok misnamed ∧
      couple.decrypt .standard misnamed second = .ok [104, 105] ∧
      couple.newBox .standard misnamed (point 9) = Sampler.fail (.crypto .decryption) := by
  intro first second misnamed
  have hsuite := Suite.opensBoxes_standard
  have hrunning : couple.running = true := rfl
  have hpaired : couple.ring.Paired .standard := by
    intro pair hmem
    simp only [couple, start, List.mem_cons, List.not_mem_nil, or_false] at hmem
    rcases hmem with rfl | rfl <;> rfl
  have hlist : notice.recipients = notice.boxes.keys := by decide +kernel
  have hlisted : notice.Listed :=
    ⟨hlist ▸ notice.boxes.nodup_keys, fun _ => hlist ▸ KeyMap.mem_keys_iff⟩
  have hzero : point 9 ≠ .zero := by decide
  have hfacts : couple.ring.contains first = true ∧ notice.boxes.contains first = false ∧
      (∀ entry ∈ notice.boxes.entries, entry.2.sealedBy ≠ first) ∧
      couple.opener? notice = some second ∧
      couple.decrypt .standard notice second = .ok [104, 105] := by decide +kernel
  obtain ⟨hheld, hnew, hsealed, hopener, hread⟩ := hfacts
  have hsealed' : ∀ other box, notice.boxes.find? other = some box → box.sealedBy ≠ first :=
    fun other box hfind => hsealed (other, box) (KeyMap.mem_entries_iff.2 hfind)
  obtain ⟨hextends, hmisnamed⟩ :=
    newBox_trusts_names hsuite hrunning hpaired hlisted hzero
  obtain ⟨hdecode, hreaders, hfails⟩ := hmisnamed first hheld hnew hsealed'
  exact ⟨hsuite, hrunning, hpaired, hlisted, hzero, hheld, hnew, hsealed', hread,
    (hextends [104, 105] _ (by simp)).2 ⟨second, hopener, hread⟩, hdecode,
    (hreaders second).trans hread, hfails⟩

end Enclave

end Envelope

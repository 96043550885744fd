import Envelope.Proofs.Delivery
import Envelope.Proofs.Views

/-!
# Boxes on offer

A payload keeps two accounts of its recipients: the keys of its boxes and the list
of names. Whatever boxes are offered to it, in whatever order and however often,
the two stay in step. An offer is taken exactly if nobody offered a box for that
recipient before, so that the first one counts, and the list grows by the names of
the offers that were taken.
-/

namespace Envelope

namespace Payload

variable {payload : Payload} {recipient key : PublicKey} {box : KeyBox}

/-- Whether each of the offers is taken when they are made one after another. -/
def answers (payload : Payload) : List (PublicKey × KeyBox) → List Bool
  | [] => []
  | offer :: offers =>
    let (next, taken) := payload.addBox offer.1 offer.2
    taken :: answers next offers

/-! ## One offer -/

theorem addBox_taken (payload : Payload) (recipient : PublicKey) (box : KeyBox) :
    (payload.addBox recipient box).2 = !payload.boxes.contains recipient := by
  unfold addBox
  cases payload.boxes.contains recipient <;> rfl

/-- An offer concerns the boxes and the list, and nothing else. -/
theorem addBox_frame (payload : Payload) (recipient : PublicKey) (box : KeyBox) :
    (payload.addBox recipient box).1 = { payload with
      boxes := (payload.addBox recipient box).1.boxes
      recipients := (payload.addBox recipient box).1.recipients } := by
  unfold addBox
  split <;> rfl

/-! ## All offers -/

theorem addBoxes_cons (payload : Payload) (offer : PublicKey × KeyBox)
    (offers : List (PublicKey × KeyBox)) :
    payload.addBoxes (offer :: offers) =
      (payload.addBox offer.1 offer.2).1.addBoxes offers := rfl

theorem addBoxes_frame (offers : List (PublicKey × KeyBox)) (payload : Payload) :
    payload.addBoxes offers = { payload with
      boxes := (payload.addBoxes offers).boxes
      recipients := (payload.addBoxes offers).recipients } := by
  induction offers generalizing payload with
  | nil => rfl
  | cons offer offers ih =>
    rw [addBoxes_cons, ih, addBox_frame]

theorem length_answers (offers : List (PublicKey × KeyBox)) (payload : Payload) :
    (payload.answers offers).length = offers.length := by
  induction offers generalizing payload with
  | nil => rfl
  | cons offer offers ih =>
    rw [answers, List.length_cons, List.length_cons, ih]

theorem contains_addBoxes_iff (payload : Payload) (offers : List (PublicKey × KeyBox))
    (key : PublicKey) :
    (payload.addBoxes offers).boxes.contains key = true ↔
      payload.boxes.contains key = true ∨ ∃ offer ∈ offers, offer.1 = key := by
  rw [KeyMap.contains, find?_addBoxes, Option.isSome_or, Option.isSome_map, Bool.or_eq_true,
    List.find?_isSome, KeyMap.contains]
  simp only [decide_eq_true_eq]

/-- An offer is taken if there is no box for its recipient when it is made. -/
theorem getElem?_answers {offers : List (PublicKey × KeyBox)} {i : Nat}
    {offer : PublicKey × KeyBox} (h : offers[i]? = some offer) (payload : Payload) :
    (payload.answers offers)[i]? =
      some (!(payload.addBoxes (offers.take i)).boxes.contains offer.1) := by
  induction offers generalizing payload i with
  | nil => cases h
  | cons first offers ih =>
    cases i with
    | zero =>
      cases h
      rw [answers, List.getElem?_cons_zero, addBox_taken]
      rfl
    | succ i =>
      rw [answers, List.getElem?_cons_succ, List.take_succ_cons, addBoxes_cons]
      exact ih h _

theorem recipients_addBoxes (offers : List (PublicKey × KeyBox)) (payload : Payload) :
    (payload.addBoxes offers).recipients =
      payload.recipients ++ newcomers payload.boxes (offers.map Prod.fst) := by
  induction offers generalizing payload with
  | nil => simp [addBoxes, newcomers]
  | cons offer offers ih =>
    rw [addBoxes_cons, ih, List.map_cons]
    cases hmem : payload.boxes.contains offer.1 with
    | true => rw [addBox_of_contains hmem, newcomers_of_contains hmem]
    | false =>
      rw [newcomers_addBox hmem offer.2, addBox_of_not_contains hmem, List.append_assoc]
      rfl

theorem Listed.addBoxes (h : payload.Listed) (offers : List (PublicKey × KeyBox)) :
    (payload.addBoxes offers).Listed := by
  induction offers generalizing payload with
  | nil => exact h
  | cons offer offers ih => exact ih (h.addBox offer.1 offer.2)

/-- An offer is taken if its recipient neither had a box from the start nor was
offered one before. -/
theorem taken_iff {offers : List (PublicKey × KeyBox)} {i : Nat} {offer : PublicKey × KeyBox}
    (h : offers[i]? = some offer) (payload : Payload) :
    (payload.answers offers)[i]? = some true ↔
      payload.boxes.contains offer.1 = false ∧
        ∀ j earlier, j < i → offers[j]? = some earlier → earlier.1 ≠ offer.1 := by
  have hbox := contains_addBoxes_iff payload (offers.take i) offer.1
  rw [getElem?_answers h, Option.some_inj, Bool.not_eq_true', ← Bool.not_eq_true, hbox, not_or,
    Bool.not_eq_true]
  refine and_congr_right fun _ => ⟨?_, ?_⟩
  · intro hnone j earlier hj hearlier hkey
    refine hnone ⟨earlier, List.mem_of_getElem? (i := j) ?_, hkey⟩
    rw [List.getElem?_take_of_lt hj, hearlier]
  · rintro hfirst ⟨earlier, hmem, hkey⟩
    obtain ⟨j, hj⟩ := List.mem_iff_getElem?.1 hmem
    obtain ⟨hlt, hearlier⟩ : j < i ∧ offers[j]? = some earlier := by
      rw [List.getElem?_take] at hj
      split at hj
      · exact ⟨‹_›, hj⟩
      · cases hj
    exact hfirst j earlier hlt hearlier hkey

/-- Offers to a payload whose list names exactly the recipients with a box. Each is
answered by whether it is the first one for its recipient; boxes that are there
stay, and of several offers for one recipient the first counts; the list grows by the
new names in the order in which they were first offered a box; and nothing else
changes. Map and list stay in step, so that the payload passes through transport,
and offers to different recipients give the same map in every order. -/
theorem offers_account (h : payload.Listed) (offers : List (PublicKey × KeyBox)) :
    ((payload.answers offers).length = offers.length ∧
      ∀ (i : Nat) (offer : PublicKey × KeyBox), offers[i]? = some offer →
        ((payload.answers offers)[i]? = some true ↔
          payload.boxes.contains offer.1 = false ∧
            ∀ (j : Nat) (earlier : PublicKey × KeyBox), j < i → offers[j]? = some earlier →
              earlier.1 ≠ offer.1)) ∧
    (∀ key, (payload.addBoxes offers).boxes.find? key =
      (payload.boxes.find? key).or ((offers.find? (·.1 = key)).map (·.2))) ∧
    (payload.addBoxes offers).recipients =
      payload.recipients ++ newcomers payload.boxes (offers.map Prod.fst) ∧
    ((payload.addBoxes offers).sender = payload.sender ∧
      (payload.addBoxes offers).nonce = payload.nonce ∧
      (payload.addBoxes offers).body = payload.body) ∧
    (payload.addBoxes offers).Listed ∧
    decode (payload.addBoxes offers).encode = .ok (payload.addBoxes offers) ∧
    ∀ offers', offers.Perm offers' → (offers.map Prod.fst).Nodup →
      (payload.addBoxes offers).boxes = (payload.addBoxes offers').boxes := by
  have hframe := addBoxes_frame offers payload
  have hlisted := h.addBoxes offers
  refine ⟨⟨length_answers offers payload, fun i offer hi => taken_iff hi payload⟩,
    find?_addBoxes offers payload, recipients_addBoxes offers payload, ?_, hlisted, ?_, ?_⟩
  · rw [hframe]
    exact ⟨rfl, rfl, rfl⟩
  · rw [decode_encode, hlisted.settle_eq]
  · intro offers' hperm hnodup
    exact boxes_addBoxes_perm payload hperm hnodup

/-- The letter is for the second party. A third party is offered two boxes, the second
one another box, and a fourth one; only the first offers for newcomers are taken. -/
theorem offers_account_letter :
    let spare : KeyBox := ⟨.zero, ⟨.zero⟩, []⟩
    let other : KeyBox := ⟨.zero, ⟨.zero⟩, [1]⟩
    let offers :=
      [(partyKey 3, spare), (partyKey 2, other), (partyKey 3, other), (partyKey 4, other)]
    let apart := [(partyKey 3, spare), (partyKey 4, other)]
    letter.Listed ∧ letter.answers offers = [true, false, false, true] ∧
      (letter.addBoxes offers).boxes.find? (partyKey 3) = some spare ∧
      (letter.addBoxes offers).boxes.find? (partyKey 2) = letter.boxes.find? (partyKey 2) ∧
      (letter.addBoxes offers).recipients = [partyKey 2, partyKey 3, partyKey 4] ∧
      decode (letter.addBoxes offers).encode = .ok (letter.addBoxes offers) ∧
      (letter.addBoxes apart).boxes = (letter.addBoxes apart.reverse).boxes := by
  intro spare other offers apart
  have hlisted : letter.Listed := listed_of_settle (by decide +kernel : letter.settle = .ok letter)
  obtain ⟨-, hboxes, hlist, -, -, hdecode, -⟩ := offers_account hlisted offers
  obtain ⟨-, -, -, -, -, -, horder⟩ := offers_account hlisted apart
  refine ⟨hlisted, by decide +kernel, ?_, ?_, ?_, hdecode, ?_⟩
  · rw [hboxes]
    decide +kernel
  · rw [hboxes]
    decide +kernel
  · rw [hlist]
    decide +kernel
  · exact horder apart.reverse (List.reverse_perm apart).symm (by decide +kernel)

end Payload

end Envelope

import Envelope.Proofs.Transport
import Envelope.Steps
import Mathlib.Data.List.Nodup

/-!
# Ways to spell a record

A record is read from more texts than the one that is written for it: its fields
may stand in any order and among members that are no fields, or without names in an
array, and a field with a fallback may be absent. `Layout.Spells` says which
readings these are without going through them from left to right, and a record is
read from these and no others.
-/

namespace Envelope.Json

theorem decode_eq_ok_iff {α : Type} {decoder : Decoder α} {text : Bytes} {a : α} :
    decode decoder text = .ok a ↔
      decoder (Document.read text).value = .ok a ∧ (Document.read text).trailing = false := by
  simp only [decode]
  cases decoder (Document.read text).value with
  | error fault =>
    constructor
    · intro h
      cases h
    · rintro ⟨⟨⟩, -⟩
  | ok value =>
    cases (Document.read text).trailing with
    | true =>
      constructor
      · intro h
        cases h
      · rintro ⟨-, ⟨⟩⟩
    | false => exact (and_iff_left rfl).symm

/-- The name that a reading is, if it is one. -/
def Reading.name? : Reading → Option String
  | .scalar (.text text) => text
  | _ => none

theorem Decoder.name_eq_ok_iff {reading : Reading} {name : String} :
    Decoder.name reading = .ok name ↔ reading.name? = some name := by
  cases reading with
  | scalar scalar =>
    cases scalar with
    | text text => cases text <;> simp [Decoder.name, Reading.name?]
    | _ => simp [Decoder.name, Reading.name?]
  | _ => simp [Decoder.name, Reading.name?]

/-! ## Readings of a field -/

namespace Field

variable {field : Field} {readings : List Reading} {old new : Option field.Value}

/-- What readings of a field make of what was found for it before. -/
def Yields (field : Field) : List Reading → Option field.Value → Option field.Value → Prop
  | [], old, new => new = old
  | reading :: rest, old, new =>
    old = none ∧ ∃ value, field.read reading = .ok value ∧ field.Yields rest (some value) new

theorem yields_append_iff (readings more : List Reading) :
    field.Yields (readings ++ more) old new ↔
      ∃ between, field.Yields readings old between ∧ field.Yields more between new := by
  induction readings generalizing old with
  | nil =>
    constructor
    · intro h
      exact ⟨old, rfl, h⟩
    · rintro ⟨_, rfl, h⟩
      exact h
  | cons reading readings ih =>
    constructor
    · rintro ⟨hold, value, hread, hrest⟩
      obtain ⟨between, hbetween, hmore⟩ := ih.1 hrest
      exact ⟨between, ⟨hold, value, hread, hbetween⟩, hmore⟩
    · rintro ⟨between, ⟨hold, value, hread, hbetween⟩, hmore⟩
      exact ⟨hold, value, hread, ih.2 ⟨between, hbetween, hmore⟩⟩

/-- A field is read no more than once. -/
theorem yields_none_iff :
    field.Yields readings none new ↔
      (∃ reading, readings = [reading] ∧ ∃ value, field.read reading = .ok value ∧
        new = some value) ∨ readings = [] ∧ new = none := by
  cases readings with
  | nil => simp [Yields]
  | cons reading readings =>
    cases readings with
    | nil => simp [Yields]
    | cons second rest => simp [Yields]

end Field

namespace Layout

variable {Index : Type} [DecidableEq Index] {layout : Layout Index} {values : Values layout}
  {found next final : Found layout} {members : List (Reading × Reading)} {items : List Reading}
  {i : Index}

/-- The fields have names and places of their own. -/
structure Distinct (layout : Layout Index) : Prop where
  named : ∀ i, layout.index? (layout.field i).name = some i
  nodup : layout.order.Nodup

/-- What stands under a name among the members of an object. -/
def under (name : String) (members : List (Reading × Reading)) : List Reading :=
  (members.filter fun member => member.1.name? = some name).map Prod.snd

/-- A field is given by a single reading of its value, or by nothing at all if it
falls back on the value. -/
def Given (layout : Layout Index) (values : Values layout) (i : Index)
    (readings : List Reading) : Prop :=
  (∃ reading, readings = [reading] ∧ (layout.field i).read reading = .ok (values i)) ∨
    readings = [] ∧ (layout.field i).fallback = some (values i)

/-- The member of an object has a name, and is well-formed where that is the name of
no field. -/
def Passes (layout : Layout Index) (member : Reading × Reading) : Prop :=
  ∃ name, member.1.name? = some name ∧
    (layout.index? name = none → member.2.complete = true)

/-- The ways to spell a record with given values. -/
inductive Spells (layout : Layout Index) (values : Values layout) : Reading → Prop
  | object {members : List (Reading × Reading)} (passes : ∀ member ∈ members, layout.Passes member)
      (given : ∀ i, layout.Given values i (under (layout.field i).name members)) :
      Spells layout values (.object members true)
  | array {items : List Reading} (length_le : items.length ≤ layout.order.length)
      (given : ∀ (i : Index) (place : Nat), layout.order[place]? = some i →
        layout.Given values i items[place]?.toList) :
      Spells layout values (.array items true)

/-! ## Members of an object -/

omit [DecidableEq Index] in
theorem name_of_index? {name : String} (h : layout.index? name = some i) :
    (layout.field i).name = name := by
  simpa using List.find?_some h

theorem under_cons (name : String) (member : Reading × Reading)
    (members : List (Reading × Reading)) :
    under name (member :: members) = under name [member] ++ under name members := by
  rw [under, under, under, ← List.map_append, ← List.filter_append, List.singleton_append]

/-- A member stands under its own name. -/
theorem under_self {member : Reading × Reading} {name : String}
    (h : member.1.name? = some name) : under name [member] = [member.2] := by
  simp [under, h]

omit [DecidableEq Index] in
/-- It makes no difference to a field that has another name. -/
theorem Distinct.under_of_ne (h : layout.Distinct) {member : Reading × Reading} {name : String}
    (hname : member.1.name? = some name) (hne : layout.index? name ≠ some i) :
    under (layout.field i).name [member] = [] := by
  have hother : name ≠ (layout.field i).name := by
    rintro rfl
    exact hne (h.named i)
  simp [under, hname, hother]

/-- A member is passed over, or gives a field that was not given yet. -/
theorem readMember_eq_ok_iff {member : Reading × Reading} :
    layout.readMember found member = .ok next ↔ ∃ name, member.1.name? = some name ∧
      ((layout.index? name = none ∧ member.2.complete = true ∧ next = found) ∨
        ∃ i value, layout.index? name = some i ∧ found i = none ∧
          (layout.field i).read member.2 = .ok value ∧ next = found.set i value) := by
  unfold readMember
  rw [bind_eq_ok_iff]
  refine exists_congr fun name => and_congr Decoder.name_eq_ok_iff ?_
  cases hindex : layout.index? name with
  | none =>
    rw [ite_throw_eq_ok_iff]
    constructor
    · rintro ⟨hcomplete, ⟨⟩⟩
      exact .inl ⟨rfl, hcomplete, rfl⟩
    · rintro (⟨-, hcomplete, rfl⟩ | ⟨i, value, hi, -⟩)
      · exact ⟨hcomplete, rfl⟩
      · cases hi
  | some i =>
    constructor
    · intro h
      cases hfound : found i with
      | some old =>
        simp only [hfound, Option.isSome_some, ↓reduceIte] at h
        cases h
      | none =>
        simp only [hfound, Option.isSome_none, Bool.false_eq_true, ↓reduceIte] at h
        obtain ⟨value, hread, ⟨⟩⟩ := bind_eq_ok_iff.1 h
        exact .inr ⟨i, value, rfl, hfound, hread, rfl⟩
    · rintro (⟨h, -⟩ | ⟨j, value, hj, hfound, hread, rfl⟩)
      · cases h
      · cases hj
        simp only [hfound, Option.isSome_none, Bool.false_eq_true, ↓reduceIte, hread]
        rfl

/-- What a member comes to, told field by field. -/
theorem Distinct.readMember_eq_ok_iff_yields (h : layout.Distinct) {member : Reading × Reading} :
    layout.readMember found member = .ok next ↔ layout.Passes member ∧
      ∀ i, (layout.field i).Yields (under (layout.field i).name [member]) (found i) (next i) := by
  rw [readMember_eq_ok_iff]
  constructor
  · rintro ⟨name, hname, ⟨hindex, hcomplete, rfl⟩ | ⟨i, value, hindex, hnew, hread, rfl⟩⟩
    · refine ⟨⟨name, hname, fun _ => hcomplete⟩, fun i => ?_⟩
      rw [h.under_of_ne hname (by simp [hindex])]
      rfl
    · refine ⟨⟨name, hname, by simp [hindex]⟩, fun j => ?_⟩
      by_cases hij : i = j
      · subst hij
        obtain rfl := name_of_index? hindex
        rw [under_self hname]
        exact ⟨hnew, value, hread, Found.set_self found i value⟩
      · rw [h.under_of_ne hname (by simp [hindex, hij])]
        exact Found.set_of_ne found hij value
  · rintro ⟨⟨name, hname, hcomplete⟩, hfields⟩
    refine ⟨name, hname, ?_⟩
    cases hindex : layout.index? name with
    | none =>
      refine .inl ⟨rfl, hcomplete hindex, funext fun i => ?_⟩
      have hi := hfields i
      rwa [h.under_of_ne hname (by simp [hindex])] at hi
    | some i =>
      obtain rfl := name_of_index? hindex
      have hi := hfields i
      rw [under_self hname] at hi
      obtain ⟨hnew, value, hread, hnext⟩ := hi
      refine .inr ⟨i, value, rfl, hnew, hread, funext fun j => ?_⟩
      by_cases hij : i = j
      · subst hij
        rw [hnext, Found.set_self]
      · have hj := hfields j
        rw [h.under_of_ne hname (by simp [hindex, hij])] at hj
        rw [hj, Found.set_of_ne found hij]

/-- What all members of an object come to. -/
theorem Distinct.foldlM_readMember_eq_ok_iff (h : layout.Distinct) :
    members.foldlM layout.readMember found = .ok final ↔
      (∀ member ∈ members, layout.Passes member) ∧
        ∀ i, (layout.field i).Yields (under (layout.field i).name members) (found i)
          (final i) := by
  induction members generalizing found with
  | nil =>
    constructor
    · rintro ⟨⟩
      exact ⟨nofun, fun i => rfl⟩
    · rintro ⟨-, hfields⟩
      rw [funext hfields]
      rfl
  | cons member members ih =>
    rw [List.foldlM_cons, bind_eq_ok_iff, List.forall_mem_cons]
    simp only [h.readMember_eq_ok_iff_yields, ih, under_cons _ member members,
      Field.yields_append_iff]
    constructor
    · rintro ⟨next, ⟨hpass, hfirst⟩, hpasses, hrest⟩
      exact ⟨⟨hpass, hpasses⟩, fun i => ⟨next i, hfirst i, hrest i⟩⟩
    · rintro ⟨⟨hpass, hpasses⟩, hfields⟩
      choose next hfirst hrest using hfields
      exact ⟨next, ⟨hpass, hfirst⟩, hpasses, hrest⟩

/-! ## Items of an array -/

/-- Every item gives the next field in order; behind the items the fallbacks do. -/
theorem readItem_eq_ok_iff {place : Nat} :
    layout.readItem items true found (i, place) = .ok next ↔
      ∃ value, next = found.set i value ∧
        ((∃ item, items[place]? = some item ∧ (layout.field i).read item = .ok value) ∨
          items[place]? = none ∧ (layout.field i).fallback = some value) := by
  simp only [readItem]
  cases items[place]? with
  | some item =>
    rw [map_eq_ok_iff]
    constructor
    · rintro ⟨value, hread, rfl⟩
      exact ⟨value, rfl, .inl ⟨item, rfl, hread⟩⟩
    · rintro ⟨value, rfl, ⟨_, ⟨⟩, hread⟩ | ⟨⟨⟩, -⟩⟩
      exact ⟨value, hread, rfl⟩
  | none =>
    cases (layout.field i).fallback with
    | none =>
      constructor
      · nofun
      · rintro ⟨value, -, ⟨_, ⟨⟩, -⟩ | ⟨-, ⟨⟩⟩⟩
    | some value =>
      constructor
      · rintro ⟨⟩
        exact ⟨value, rfl, .inr ⟨rfl, rfl⟩⟩
      · rintro ⟨_, rfl, ⟨_, ⟨⟩, -⟩ | ⟨-, ⟨⟩⟩⟩
        rfl

/-- What the items of an array come to, told field by field. -/
theorem foldlM_readItem_eq_ok_iff {fields : List Index} (hnodup : fields.Nodup) {start : Nat} :
    (fields.zipIdx start).foldlM (layout.readItem items true) found = .ok final ↔
      (∀ i, i ∉ fields → final i = found i) ∧
        ∀ i place, fields[place]? = some i → ∃ value, final i = some value ∧
          ((∃ item, items[start + place]? = some item ∧
              (layout.field i).read item = .ok value) ∨
            items[start + place]? = none ∧ (layout.field i).fallback = some value) := by
  induction fields generalizing found start with
  | nil =>
    constructor
    · rintro ⟨⟩
      exact ⟨fun i _ => rfl, nofun⟩
    · rintro ⟨hothers, -⟩
      rw [show final = found from funext fun i => hothers i List.not_mem_nil]
      rfl
  | cons i fields ih =>
    obtain ⟨hi, hnodup⟩ := List.nodup_cons.1 hnodup
    rw [List.zipIdx_cons, List.foldlM_cons, bind_eq_ok_iff]
    constructor
    · rintro ⟨next, hstep, hrest⟩
      obtain ⟨value, rfl, hgiven⟩ := readItem_eq_ok_iff.1 hstep
      obtain ⟨hothers, hfields⟩ := (ih hnodup).1 hrest
      refine ⟨fun j hj => ?_, fun j place hj => ?_⟩
      · rw [hothers j fun hmem => hj (List.mem_cons_of_mem i hmem)]
        exact Found.set_of_ne found (by rintro rfl; exact hj List.mem_cons_self) value
      · cases place with
        | zero =>
          cases hj
          exact ⟨value, by rw [hothers i hi, Found.set_self], hgiven⟩
        | succ place =>
          have hlater := hfields j place hj
          rwa [Nat.add_right_comm] at hlater
    · rintro ⟨hothers, hfields⟩
      obtain ⟨value, hfinal, hgiven⟩ := hfields i 0 rfl
      refine ⟨found.set i value, readItem_eq_ok_iff.2 ⟨value, rfl, hgiven⟩,
        (ih hnodup).2 ⟨fun j hj => ?_, fun j place hj => ?_⟩⟩
      · by_cases hij : i = j
        · subst hij
          rw [hfinal, Found.set_self]
        · rw [Found.set_of_ne found hij]
          exact hothers j (by simp [Ne.symm hij, hj])
      · have hlater := hfields j (place + 1) hj
        rwa [Nat.add_right_comm]

/-! ## Records -/

omit [DecidableEq Index] in
theorem complete_eq_ok_iff :
    layout.complete found = .ok values ↔ ∀ i, layout.value? found i = some (values i) := by
  unfold complete
  split
  · rename_i i hmissing
    have hnone : layout.value? found i = none := by simpa using List.find?_some hmissing
    refine ⟨nofun, fun hvalues => ?_⟩
    rw [hvalues i] at hnone
    cases hnone
  · rename_i hmissing
    constructor
    · rintro ⟨⟩ i
      exact (Option.some_get _).symm
    · intro hvalues
      simp [hvalues]

omit [DecidableEq Index] in
theorem given_toList_iff {reading? : Option Reading} :
    layout.Given values i reading?.toList ↔
      (∃ reading, reading? = some reading ∧ (layout.field i).read reading = .ok (values i)) ∨
        reading? = none ∧ (layout.field i).fallback = some (values i) := by
  cases reading? <;> simp [Given]

omit [DecidableEq Index] in
theorem given_iff_yields {readings : List Reading} :
    layout.Given values i readings ↔ ∃ new, (layout.field i).Yields readings none new ∧
      new.or (layout.field i).fallback = some (values i) := by
  simp only [Field.yields_none_iff, Given]
  constructor
  · rintro (⟨reading, rfl, hread⟩ | ⟨rfl, hfallback⟩)
    · exact ⟨some (values i), .inl ⟨reading, rfl, values i, hread, rfl⟩, rfl⟩
    · exact ⟨none, .inr ⟨rfl, rfl⟩, hfallback⟩
  · rintro ⟨_, ⟨reading, rfl, value, hread, rfl⟩ | ⟨rfl, rfl⟩, hvalue⟩
    · obtain rfl := Option.some.inj hvalue
      exact .inl ⟨reading, rfl, hread⟩
    · exact .inr ⟨rfl, hvalue⟩

theorem Distinct.read_object_eq_ok_iff (h : layout.Distinct) {closed : Bool} :
    layout.read (.object members closed) = .ok values ↔
      closed = true ∧ (∀ member ∈ members, layout.Passes member) ∧
        ∀ i, layout.Given values i (under (layout.field i).name members) := by
  rw [read, bind_eq_ok_iff]
  simp only [given_iff_yields, h.foldlM_readMember_eq_ok_iff]
  constructor
  · rintro ⟨final, ⟨hpasses, hfields⟩, hcomplete⟩
    obtain ⟨hclosed, hcomplete⟩ := ite_throw_eq_ok_iff.1 hcomplete
    exact ⟨hclosed, hpasses, fun i => ⟨final i, hfields i, complete_eq_ok_iff.1 hcomplete i⟩⟩
  · rintro ⟨hclosed, hpasses, hfields⟩
    choose final hfields hcomplete using hfields
    exact ⟨final, ⟨hpasses, hfields⟩,
      ite_throw_eq_ok_iff.2 ⟨hclosed, complete_eq_ok_iff.2 hcomplete⟩⟩

theorem Distinct.read_array_eq_ok_iff (h : layout.Distinct) {closed : Bool} :
    layout.read (.array items closed) = .ok values ↔
      closed = true ∧ items.length ≤ layout.order.length ∧
        ∀ (i : Index) (place : Nat), layout.order[place]? = some i →
          layout.Given values i items[place]?.toList := by
  rw [read, bind_eq_ok_iff]
  constructor
  · rintro ⟨final, hfold, hread⟩
    obtain ⟨hwhole, hcomplete⟩ := ite_throw_eq_ok_iff.1 hread
    obtain ⟨rfl, hlength⟩ := Bool.and_eq_true_iff.1 hwhole
    obtain ⟨-, hfields⟩ := (foldlM_readItem_eq_ok_iff h.nodup).1 hfold
    refine ⟨rfl, of_decide_eq_true hlength, fun i place hplace => given_toList_iff.2 ?_⟩
    obtain ⟨value, hfinal, hgiven⟩ := hfields i place hplace
    have hi := complete_eq_ok_iff.1 hcomplete i
    rw [value?, hfinal, Option.some_or] at hi
    obtain rfl := Option.some.inj hi
    rwa [Nat.zero_add] at hgiven
  · rintro ⟨rfl, hlength, hgiven⟩
    refine ⟨fun i => some (values i), (foldlM_readItem_eq_ok_iff h.nodup).2 ⟨?_, ?_⟩,
      ite_throw_eq_ok_iff.2 ⟨?_, complete_eq_ok_iff.2 fun i => rfl⟩⟩
    · exact fun i hi => absurd (layout.mem_order i) hi
    · intro i place hplace
      rw [Nat.zero_add]
      exact ⟨values i, rfl, given_toList_iff.1 (hgiven i place hplace)⟩
    · rw [decide_eq_true hlength]
      rfl

/-- A record is read from the ways to spell it and from nothing else. -/
theorem Distinct.read_eq_ok_iff (h : layout.Distinct) {reading : Reading} :
    layout.read reading = .ok values ↔ layout.Spells values reading := by
  cases reading with
  | broken => exact ⟨nofun, nofun⟩
  | scalar scalar => exact ⟨nofun, nofun⟩
  | object members closed =>
    rw [h.read_object_eq_ok_iff]
    constructor
    · rintro ⟨rfl, hpasses, hgiven⟩
      exact .object hpasses hgiven
    · intro hspells
      cases hspells with
      | object hpasses hgiven => exact ⟨rfl, hpasses, hgiven⟩
  | array items closed =>
    rw [h.read_array_eq_ok_iff]
    constructor
    · rintro ⟨rfl, hlength, hgiven⟩
      exact .array hlength hgiven
    · intro hspells
      cases hspells with
      | array hlength hgiven => exact ⟨rfl, hlength, hgiven⟩

/-! ## Formats of records -/

variable {α : Type} {decoder : Decoder α} {write : α → Value} {make : Values layout → α}
  {valuesOf : α → Values layout}

theorem read_bind_eq_ok_iff (hmake : ∀ a, make (valuesOf a) = a)
    (hvalues : ∀ v, valuesOf (make v) = v) {reading : Reading} {a : α} :
    (layout.read reading >>= fun v => .ok (make v)) = .ok a ↔
      layout.read reading = .ok (valuesOf a) := by
  rw [bind_eq_ok_iff]
  constructor
  · rintro ⟨v, hread, ⟨⟩⟩
    rwa [hvalues v]
  · intro hread
    exact ⟨_, hread, congrArg Except.ok (hmake a)⟩

/-- A format that keeps what is written in it. -/
structure Faithful (layout : Layout Index) (decoder : Decoder α) (write : α → Value)
    (valuesOf : α → Values layout) : Prop where
  /-- Every value comes back from its text. -/
  decode_write : ∀ a, decode decoder ((write a).write .compact) = .ok a
  /-- So different values never have the same text. -/
  write_inj : ∀ a b, (write a).write .compact = (write b).write .compact → a = b
  /-- The texts of a value are those that spell it, with nothing behind it. -/
  decode_eq_ok_iff : ∀ text a, decode decoder text = .ok a ↔
    layout.Spells (valuesOf a) (Document.read text).value ∧ (Document.read text).trailing = false
  /-- Whatever text a value was read from, it comes back from the text that is written
  for it. -/
  decode_rewrite : ∀ text a, decode decoder text = .ok a →
    decode decoder ((write a).write .compact) = .ok a

theorem Distinct.faithful (h : layout.Distinct) (hinverts : decoder.Inverts write)
    (hread : ∀ reading a, decoder reading = .ok a ↔ layout.read reading = .ok (valuesOf a)) :
    layout.Faithful decoder write valuesOf where
  decode_write := hinverts.decode_write Style.blank_compact
  write_inj a b htext := by
    have ha := hinverts.decode_write Style.blank_compact a
    rw [htext, hinverts.decode_write Style.blank_compact b] at ha
    exact (Except.ok.inj ha).symm
  decode_eq_ok_iff text a := by
    rw [Json.decode_eq_ok_iff, hread, h.read_eq_ok_iff]
  decode_rewrite _ a _ := hinverts.decode_write Style.blank_compact a

end Layout

end Envelope.Json

namespace Envelope

open Json

/-! ## Boxes, payloads and drafts -/

namespace KeyBox

theorem distinct : layout.Distinct where
  named := by intro i; cases i <;> rfl
  nodup := by decide

theorem decoder_eq_ok_iff {reading : Reading} {box : KeyBox} :
    decoder reading = .ok box ↔ layout.read reading = .ok box.values :=
  Layout.read_bind_eq_ok_iff (fun _ => rfl) fun v => by
    funext i
    cases i <;> rfl

end KeyBox

namespace Payload

theorem distinct : layout.Distinct where
  named := by intro i; cases i <;> rfl
  nodup := by decide

theorem decoder_eq_ok_iff {reading : Reading} {payload : Payload} :
    decoder reading = .ok payload ↔ layout.read reading = .ok payload.values :=
  Layout.read_bind_eq_ok_iff (fun _ => rfl) fun v => by
    funext i
    cases i <;> rfl

end Payload

namespace Draft

/-- What is written for a field. -/
def written (draft : Draft) : Field → Value
  | .body => Bytes.toJson draft.body
  | .sealedKey => Bytes.toJson draft.sealedKey
  | .nonce => draft.nonce.toJson
  | .sender => draft.sender.toJson

/-- What is read from it. -/
def values (draft : Draft) : Layout.Values layout
  | .body => draft.body
  | .sealedKey => draft.sealedKey
  | .nonce => draft.nonce
  | .sender => draft.sender

theorem distinct : layout.Distinct where
  named := by intro i; cases i <;> rfl
  nodup := by decide

theorem writes (draft : Draft) : layout.Writes layout.order draft.written draft.values where
  named := distinct.named
  nodup := distinct.nodup
  reads i _ := by
    cases i
    · exact Bytes.inverts.read draft.body
    · exact Bytes.inverts.read draft.sealedKey
    · exact Nonce.inverts.read draft.nonce
    · exact PublicKey.inverts.read draft.sender
  rest i hi := absurd (layout.mem_order i) hi

theorem decoder_eq_ok_iff {reading : Reading} {draft : Draft} :
    decoder reading = .ok draft ↔ layout.read reading = .ok draft.values :=
  Layout.read_bind_eq_ok_iff (fun _ => rfl) fun v => by
    funext i
    cases i <;> rfl

theorem inverts : Decoder.Inverts decoder toJson where
  fits _ := ⟨trivial, trivial, trivial, trivial, trivial⟩
  read draft := decoder_eq_ok_iff.2 draft.writes.read_eq

end Draft

/-- Drafts, boxes and payloads, consistent or not, are kept by their texts: none is
lost or confused with another, however the text was spelled that it was read from. -/
theorem transport_faithful :
    Draft.layout.Faithful Draft.decoder Draft.toJson Draft.values ∧
      KeyBox.layout.Faithful KeyBox.decoder KeyBox.toJson KeyBox.values ∧
      Payload.layout.Faithful Payload.decoder Payload.toJson Payload.values :=
  ⟨Draft.distinct.faithful Draft.inverts fun _ _ => Draft.decoder_eq_ok_iff,
    KeyBox.distinct.faithful KeyBox.inverts fun _ _ => KeyBox.decoder_eq_ok_iff,
    Payload.distinct.faithful Payload.inverts fun _ _ => Payload.decoder_eq_ok_iff⟩

/-- A draft as an array, and as an object in another order with a field that is none;
and a payload that decoding would refuse, with a box for nobody on its list and a list
that names a party twice. -/
theorem transport_faithful_loose :
    let draft : Draft := ⟨[1, 2, 3], [], ⟨.zero⟩, .zero⟩
    let listed : Value := .array
      [Bytes.toJson [1, 2, 3], Bytes.toJson [], Nonce.toJson ⟨.zero⟩, PublicKey.zero.toJson]
    let mixed : Value := .object
      [("from", PublicKey.zero.toJson), ("remark", .array [.number 1, .object []]),
        ("nonce", Nonce.toJson ⟨.zero⟩), ("encryptedPayload", Bytes.toJson [1, 2, 3]),
        ("encryptedKey", Bytes.toJson [])]
    let odd : Payload :=
      { sender := .zero, nonce := ⟨.zero⟩, body := [0], recipients := [.zero, .zero],
        boxes := .ofList [(⟨⟨List.replicate 32 1, rfl⟩⟩, ⟨.zero, ⟨.zero⟩, [1]⟩)] }
    Json.decode Draft.decoder (listed.write .indented) = .ok draft ∧
      Json.decode Draft.decoder (mixed.write .compact) = .ok draft ∧
      Draft.layout.Spells draft.values (Document.read (mixed.write .compact)).value ∧
      Json.decode Draft.decoder (draft.toJson.write .compact) = .ok draft ∧
      Json.decode Payload.decoder odd.encode = .ok odd ∧
      Payload.decode odd.encode = .error (.recipient (.noBox .zero)) := by
  intro draft listed mixed odd
  obtain ⟨hdraft, -, hpayload⟩ := transport_faithful
  have hlisted : Json.decode Draft.decoder (listed.write .indented) = .ok draft := by
    decide +kernel
  have hmixed : Json.decode Draft.decoder (mixed.write .compact) = .ok draft := by
    decide +kernel
  exact ⟨hlisted, hmixed, ((hdraft.decode_eq_ok_iff _ _).1 hmixed).1,
    hdraft.decode_rewrite _ _ hlisted, hpayload.decode_write odd, by decide +kernel⟩

end Envelope

import Envelope.Json.Decode

/-!
# Records in JSON

A `Layout` says what the fields of a record are called and how they are read. A
record is read from an object with the fields in any order, or from an array
with the fields in the order of the layout. The main statement is that an
object with some of the fields is read if the others have a fallback.
-/

namespace Envelope.Json

structure Field where
  name : String
  Value : Type
  read : Decoder Value
  /-- The value of an absent field; `none` if the field must be there. -/
  fallback : Option Value

/-- The fields of a record, each named by an index. -/
structure Layout (Index : Type) where
  title : String
  order : List Index
  mem_order : ∀ i, i ∈ order := by intro i; cases i <;> decide
  field : Index → Field

namespace Layout

variable {Index : Type} [DecidableEq Index]

abbrev Found (layout : Layout Index) := (i : Index) → Option (layout.field i).Value

abbrev Values (layout : Layout Index) := (i : Index) → (layout.field i).Value

/-- What was found and one more field. -/
def Found.set {layout : Layout Index} (found : Found layout) (i : Index)
    (value : (layout.field i).Value) : Found layout :=
  fun j => if h : i = j then some (h ▸ value) else found j

def index? (layout : Layout Index) (name : String) : Option Index :=
  layout.order.find? fun i => (layout.field i).name = name

/-- Adds one member to what was found. A name that is no field is passed over
with its value. -/
def readMember (layout : Layout Index) (found : Found layout) (member : Reading × Reading) :
    Except Fault (Found layout) := do
  let name ← Decoder.name member.1
  match layout.index? name with
  | none => if member.2.complete then return found else throw .malformed
  | some i =>
    if (found i).isSome then throw (.duplicate name)
    let value ← (layout.field i).read member.2
    return found.set i value

/-- Adds the item at the place of a field in an array to what was found. -/
def readItem (layout : Layout Index) (items : List Reading) (closed : Bool)
    (found : Found layout) (entry : Index × Nat) : Except Fault (Found layout) :=
  let (i, place) := entry
  match items[place]? with
  | some item => (layout.field i).read item |>.map (found.set i)
  | none =>
    if closed then
      match (layout.field i).fallback with
      | some value => .ok (found.set i value)
      | none => .error (.short place layout.title layout.order.length)
    else .error .malformed

/-- The value of a field, if it was found or has a fallback. -/
def value? (layout : Layout Index) (found : Found layout) (i : Index) :
    Option (layout.field i).Value :=
  (found i).or (layout.field i).fallback

/-- The first field without a value. -/
def missing? (layout : Layout Index) (found : Found layout) : Option Index :=
  layout.order.find? fun i => (layout.value? found i).isNone

omit [DecidableEq Index] in
theorem isSome_value? {layout : Layout Index} {found : Found layout}
    (h : layout.missing? found = none) (i : Index) : (layout.value? found i).isSome := by
  have hi := List.find?_eq_none.1 h i (layout.mem_order i)
  cases hv : layout.value? found i with
  | none => simp [hv] at hi
  | some value => rfl

/-- The values of all fields, or the first field that is missing. -/
def complete (layout : Layout Index) (found : Found layout) : Except Fault (Values layout) :=
  match h : layout.missing? found with
  | some i => .error (.missing (layout.field i).name)
  | none => .ok fun i => (layout.value? found i).get (isSome_value? h i)

def read (layout : Layout Index) : Reading → Except Fault (Values layout)
  | .object members closed => do
    let found ← members.foldlM layout.readMember fun _ => none
    if closed then layout.complete found else throw .malformed
  | .array items closed => do
    let found ← layout.order.zipIdx.foldlM (layout.readItem items closed) fun _ => none
    if closed && items.length ≤ layout.order.length then layout.complete found
    else throw .malformed
  | r => throw (Decoder.mismatch ("struct " ++ layout.title) r)

/-! ## Reading an object -/

theorem Found.set_self {layout : Layout Index} (found : Found layout) (i : Index)
    (value : (layout.field i).Value) : found.set i value i = some value := by
  simp [Found.set]

theorem Found.set_of_ne {layout : Layout Index} (found : Found layout) {i j : Index} (h : i ≠ j)
    (value : (layout.field i).Value) : found.set i value j = found j := by
  simp [Found.set, h]

/-- The member of an object that stands for a field. -/
def member (layout : Layout Index) (readings : Index → Reading) (i : Index) : Reading × Reading :=
  (.scalar (.text (some (layout.field i).name)), readings i)

theorem readMember_member {layout : Layout Index} {readings : Index → Reading} {i : Index}
    {value : (layout.field i).Value} {found : Found layout}
    (hname : layout.index? (layout.field i).name = some i) (hnew : found i = none)
    (hread : (layout.field i).read (readings i) = .ok value) :
    layout.readMember found (layout.member readings i) = .ok (found.set i value) := by
  simp [readMember, member, Decoder.name, hname, hnew, hread, bind, Except.bind, pure, Except.pure]

theorem foldlM_readMember {layout : Layout Index} {readings : Index → Reading}
    {values : Values layout} (hname : ∀ i, layout.index? (layout.field i).name = some i)
    {given : List Index} (hnodup : given.Nodup)
    (hread : ∀ i ∈ given, (layout.field i).read (readings i) = .ok (values i))
    {found : Found layout} (hnew : ∀ i ∈ given, found i = none) :
    ∃ final, (given.map (layout.member readings)).foldlM layout.readMember found = .ok final ∧
      ∀ i, final i = if i ∈ given then some (values i) else found i := by
  induction given generalizing found with
  | nil => exact ⟨found, rfl, fun i => by simp⟩
  | cons i given ih =>
    obtain ⟨hi, hgiven⟩ := List.nodup_cons.1 hnodup
    have hstep := readMember_member (hname i) (hnew i (by simp)) (hread i (by simp))
    have hne : ∀ j ∈ given, i ≠ j := fun j hj e => hi (e ▸ hj)
    have hfree : ∀ j ∈ given, found.set i (values i) j = none := fun j hj => by
      rw [Found.set_of_ne _ (hne j hj)]
      exact hnew j (by simp [hj])
    obtain ⟨final, hfinal, hvalue⟩ := ih hgiven (fun j hj => hread j (by simp [hj])) hfree
    refine ⟨final, ?_, fun j => ?_⟩
    · rw [List.map_cons, List.foldlM_cons, hstep]
      exact hfinal
    · rw [hvalue j]
      by_cases hj : j ∈ given
      · simp [hj]
      · by_cases he : i = j
        · subst he
          simp [hj, Found.set_self]
        · simp [hj, Found.set_of_ne _ he, Ne.symm he]

/-- An object with some of the fields, each once, is read if the others have a
fallback. -/
theorem read_object {layout : Layout Index} {readings : Index → Reading}
    {values : Values layout} (hname : ∀ i, layout.index? (layout.field i).name = some i)
    {given : List Index} (hnodup : given.Nodup)
    (hread : ∀ i ∈ given, (layout.field i).read (readings i) = .ok (values i))
    (hrest : ∀ i, i ∉ given → (layout.field i).fallback = some (values i)) :
    layout.read (.object (given.map (layout.member readings)) true) = .ok values := by
  have hfree : ∀ i ∈ given, (fun _ => none : Found layout) i = none := fun _ _ => rfl
  obtain ⟨found, hfound, hvalue⟩ := foldlM_readMember hname hnodup hread hfree
  have hall : ∀ i, layout.value? found i = some (values i) := fun i => by
    rw [value?, hvalue i]
    by_cases hi : i ∈ given
    · simp [hi]
    · simp [hi, hrest i hi]
  have hmissing : layout.missing? found = none := by
    simp [missing?, hall]
  have hcomplete : layout.complete found = .ok values := by
    unfold complete
    split
    · rename_i h; rw [hmissing] at h; simp at h
    · simp [hall]
  simp [read, hfound, hcomplete, bind, Except.bind]

end Layout

end Envelope.Json

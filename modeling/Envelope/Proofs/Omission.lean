import Envelope.Proofs.Codec
import Mathlib.Data.List.Perm.Basic
import Mathlib.Logic.Function.Basic

/-!
# Objects with members left out

What becomes of a record that is read from an object in which some members are
missing and the others stand in any order. A member that cannot be read is
reported where it stands. Otherwise a missing field takes its fallback, and a
field without one is reported by its name.
-/

namespace Envelope.Json

namespace Value

def members : Value → List (String × Value)
  | .object members => members
  | _ => []

/-- Another value is an object with the members of this one except those of
some names, in any order. -/
def Without (value : Value) (names : List String) (other : Value) : Prop :=
  ∃ members, other = .object members ∧
    members.Perm (value.members.filter fun member => member.1 ∉ names)

/-- The object with another value for the members of a name. -/
def replace (value : Value) (name : String) (new : Value) : Value :=
  .object (value.members.map fun member => if member.1 = name then (name, new) else member)

theorem fitsMembers_iff {members : List (String × Value)} :
    FitsMembers members ↔ ∀ member ∈ members, member.2.Fits := by
  induction members with
  | nil => simp [FitsMembers]
  | cons member members ih =>
    obtain ⟨name, value⟩ := member
    rw [FitsMembers, FitsMember, ih, List.forall_mem_cons]

theorem fits_members {value : Value} (h : value.Fits) :
    ∀ member ∈ value.members, member.2.Fits := by
  cases value with
  | object members => exact fitsMembers_iff.1 h
  | number n => nofun
  | text s => nofun
  | array items => nofun

theorem Without.fits {value other : Value} {names : List String} (h : value.Without names other)
    (hfits : value.Fits) : other.Fits := by
  obtain ⟨members, rfl, hperm⟩ := h
  refine fitsMembers_iff.2 fun member hmember => ?_
  exact fits_members hfits member (List.mem_filter.1 (hperm.mem_iff.1 hmember)).1

theorem fits_replace {value new : Value} (name : String) (hfits : value.Fits) (hnew : new.Fits) :
    (value.replace name new).Fits := by
  refine fitsMembers_iff.2 fun member hmember => ?_
  obtain ⟨old, hold, rfl⟩ := List.mem_map.1 hmember
  by_cases hname : old.1 = name
  · rwa [if_pos hname]
  · rw [if_neg hname]
    exact fits_members hfits old hold

/-- What is replaced and then left out may as well stay as it was. -/
theorem Without.of_replace {value new other : Value} {name : String} {names : List String}
    (hname : name ∈ names) (h : (value.replace name new).Without names other) :
    value.Without names other := by
  obtain ⟨members, rfl, hperm⟩ := h
  refine ⟨members, rfl, hperm.trans (List.Perm.of_eq ?_)⟩
  rw [replace, Value.members]
  induction value.members with
  | nil => rfl
  | cons member rest ih =>
    rw [List.map_cons, List.filter_cons, List.filter_cons, ih]
    by_cases hmember : member.1 = name
    · simp [hmember, hname]
    · simp [hmember]

end Value

namespace Layout

open Value

variable {Index : Type} [DecidableEq Index] {layout : Layout Index}
  {given kept dropped : List Index} {written : Index → Value} {values : Values layout}
  {other : Value} {i : Index}

/-- The names of some fields. -/
def names (layout : Layout Index) (fields : List Index) : List String :=
  fields.map fun i => (layout.field i).name

/-! ## The members that are there -/

namespace Writes

omit [DecidableEq Index] in
theorem name_inj (h : layout.Writes given written values) {j : Index}
    (hname : (layout.field i).name = (layout.field j).name) : i = j := by
  have hfound := h.named i
  rw [hname, h.named j] at hfound
  exact (Option.some.inj hfound).symm

omit [DecidableEq Index] in
theorem mem_names_iff (h : layout.Writes given written values) :
    (layout.field i).name ∈ layout.names dropped ↔ i ∈ dropped := by
  constructor
  · intro hmem
    obtain ⟨j, hj, hname⟩ := List.mem_map.1 hmem
    exact h.name_inj hname ▸ hj
  · exact fun hi => List.mem_map.2 ⟨i, hi, rfl⟩

/-- What is left of a record, whatever is written for its fields, is what is
written for the fields that are not left out. -/
theorem exists_kept (h : layout.Writes given written values) {texts : Index → Value}
    (hother : (layout.object texts given).Without (layout.names dropped) other) :
    ∃ kept, other = layout.object texts kept ∧ kept.Nodup ∧
      ∀ i, i ∈ kept ↔ i ∈ given ∧ i ∉ dropped := by
  obtain ⟨members, rfl, hperm⟩ := hother
  have hfilter : (layout.object texts given).members.filter
        (fun member => member.1 ∉ layout.names dropped) =
      (given.filter (· ∉ dropped)).map fun i => ((layout.field i).name, texts i) := by
    rw [object, Value.members, List.filter_map]
    congr 2
    funext i
    exact decide_eq_decide.2 (not_congr h.mem_names_iff)
  rw [hfilter] at hperm
  obtain ⟨kept, rfl, hkept⟩ := (congrFun₂ (List.eq_map_comp_perm _) members _).mpr hperm
  refine ⟨kept, rfl, hkept.nodup_iff.2 (h.nodup.filter _), fun i => ?_⟩
  rw [hkept.mem_iff, List.mem_filter, decide_eq_true_eq]

/-- What is written with another value for one field. -/
theorem replace_eq (h : layout.Writes given written values) (i : Index) (new : Value) :
    (layout.object written given).replace (layout.field i).name new =
      layout.object (Function.update written i new) given := by
  rw [replace, object, Value.members, List.map_map, object]
  congr 2
  funext j
  by_cases hj : j = i
  · subst hj
    simp
  · have hname : (layout.field j).name ≠ (layout.field i).name := fun e => hj (h.name_inj e)
    simp [hj, hname]

/-- Another value that is read for one field is read with the others. -/
theorem update (h : layout.Writes given written values) {new : Value}
    {value : (layout.field i).Value} (hi : i ∈ given)
    (hread : (layout.field i).read new.reading = .ok value) :
    layout.Writes given (Function.update written i new) (Function.update values i value) where
  named := h.named
  nodup := h.nodup
  reads j hj := by
    by_cases he : j = i
    · subst he
      simpa using hread
    · simpa [he] using h.reads j hj
  rest j hj := by
    have hne : j ≠ i := fun e => hj (e ▸ hi)
    simpa [hne] using h.rest j hj

end Writes

/-! ## Reading what is left -/

/-- The values of a record in which fallbacks stand for some fields. -/
def defaulted (layout : Layout Index) (dropped : List Index) (values : Values layout) :
    Values layout :=
  fun i => if i ∈ dropped then (layout.field i).fallback.getD (values i) else values i

theorem defaulted_of_none (h : (layout.field i).fallback = none) :
    layout.defaulted dropped values i = values i := by
  rw [defaulted, h, Option.getD_none, ite_self]

theorem defaulted_of_some {value : (layout.field i).Value}
    (h : (layout.field i).fallback = some value) :
    layout.defaulted dropped values i = if i ∈ dropped then value else values i := by
  rw [defaulted, h, Option.getD_some]

theorem defaulted_of_mem {value : (layout.field i).Value} (hi : i ∈ dropped)
    (h : (layout.field i).fallback = some value) :
    layout.defaulted dropped values i = value := by
  rw [defaulted_of_some h, if_pos hi]

/-- Where every field that is left out has a fallback, the record is read with it. -/
theorem Writes.read_without (h : layout.Writes given written values)
    (hother : (layout.object written given).Without (layout.names dropped) other)
    (hfallback : ∀ i ∈ dropped, (layout.field i).fallback ≠ none) :
    layout.read other.reading = .ok (layout.defaulted dropped values) := by
  obtain ⟨kept, rfl, hnodup, hkept⟩ := h.exists_kept hother
  rw [reading_object]
  refine read_object h.named hnodup ?_ ?_
  · intro i hi
    obtain ⟨hgiven, hnot⟩ := (hkept i).1 hi
    rw [defaulted, if_neg hnot]
    exact h.reads i hgiven
  · intro i hi
    unfold defaulted
    split
    · rename_i hdropped
      obtain ⟨value, hvalue⟩ := Option.ne_none_iff_exists'.1 (hfallback i hdropped)
      rw [hvalue, Option.getD_some]
    · rename_i hnot
      exact h.rest i fun hgiven => hi ((hkept i).2 ⟨hgiven, hnot⟩)

/-- Where a field that is left out has no fallback, such a field is reported. -/
theorem Writes.read_without_missing (h : layout.Writes given written values)
    (hother : (layout.object written given).Without (layout.names dropped) other)
    (hi : i ∈ dropped) (hfallback : (layout.field i).fallback = none) :
    ∃ j ∈ dropped, (layout.field j).fallback = none ∧
      layout.read other.reading = .error (.missing (layout.field j).name) := by
  obtain ⟨kept, rfl, hnodup, hkept⟩ := h.exists_kept hother
  have hreads : ∀ j ∈ kept, (layout.field j).read (written j).reading = .ok (values j) :=
    fun j hj => h.reads j ((hkept j).1 hj).1
  have hfree : ∀ j ∈ kept, (fun _ => none : Found layout) j = none := fun _ _ => rfl
  obtain ⟨found, hfound, hvalue⟩ := foldlM_readMember h.named hnodup hreads hfree
  -- Whatever is found to be missing was neither read nor has a fallback.
  have hmissing : ∀ j, (layout.value? found j).isNone = true ↔
      j ∉ kept ∧ (layout.field j).fallback = none := by
    intro j
    by_cases hj : j ∈ kept <;> simp [value?, hvalue j, hj]
  obtain ⟨j, hj⟩ : ∃ j, layout.order.find? (fun j => (layout.value? found j).isNone) = some j := by
    apply Option.isSome_iff_exists.1
    refine List.find?_isSome.2 ⟨i, layout.mem_order i, (hmissing i).2 ⟨?_, hfallback⟩⟩
    exact fun hmem => ((hkept i).1 hmem).2 hi
  have hisnone : (layout.value? found j).isNone = true := by
    simpa using List.find?_some hj
  obtain ⟨hnot, hnone⟩ := (hmissing j).1 hisnone
  have hdropped : j ∈ dropped := by
    by_contra hnotdropped
    have hgiven : j ∉ given := fun hgiven => hnot ((hkept j).2 ⟨hgiven, hnotdropped⟩)
    rw [h.rest j hgiven] at hnone
    cases hnone
  have hcomplete : layout.complete found = .error (.missing (layout.field j).name) := by
    unfold complete
    split
    · rename_i k hk
      cases hk.symm.trans hj
      rfl
    · rename_i hk
      cases hk.symm.trans hj
  refine ⟨j, hdropped, hnone, ?_⟩
  rw [reading_object]
  simp [read, hfound, hcomplete, bind, Except.bind]

/-- A member that cannot be read is reported before anything that is left out. -/
theorem Writes.read_without_fault (h : layout.Writes given written values) {new : Value}
    {fault : Fault} (hi : i ∈ given) (hnot : i ∉ dropped)
    (hread : (layout.field i).read new.reading = .error fault)
    (hother : (layout.object (Function.update written i new) given).Without
      (layout.names dropped) other) :
    layout.read other.reading = .error fault := by
  obtain ⟨kept, rfl, hnodup, hkept⟩ := h.exists_kept hother
  obtain ⟨before, after, rfl⟩ := List.append_of_mem ((hkept i).2 ⟨hi, hnot⟩)
  obtain ⟨hbefore, -, hdisjoint⟩ := List.nodup_append.1 hnodup
  have hfresh : i ∉ before := fun hmem => hdisjoint i hmem i (by simp) rfl
  have hreads : ∀ j ∈ before, (layout.field j).read
      (Function.update written i new j).reading = .ok (values j) := by
    intro j hj
    have hne : j ≠ i := fun e => hfresh (e ▸ hj)
    rw [Function.update_of_ne hne]
    exact h.reads j ((hkept j).1 (by simp [hj])).1
  have hfree : ∀ j ∈ before, (fun _ => none : Found layout) j = none := fun _ _ => rfl
  obtain ⟨found, hfound, hvalue⟩ := foldlM_readMember h.named hbefore hreads hfree
  have hnone : found i = none := by rw [hvalue i, if_neg hfresh]
  have hstep : layout.readMember found
      (layout.member (fun j => (Function.update written i new j).reading) i) =
        .error fault := by
    simp [readMember, member, Decoder.name, h.named i, hnone, hread, bind, Except.bind]
  rw [reading_object, read, List.map_append, List.map_cons, List.foldlM_append, hfound]
  simp [List.foldlM_cons, hstep, bind, Except.bind]

end Layout

end Envelope.Json

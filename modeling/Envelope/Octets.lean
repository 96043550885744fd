import Envelope.Bytes

/-!
# Byte strings of a fixed length

Keys, nonces and salts are byte strings whose length is part of their type.
They are ordered byte by byte, as the strings are.
-/

namespace Envelope

/-- A byte string of exactly `size` bytes. -/
@[ext] structure Octets (size : Nat) where
  toBytes : Bytes
  length_toBytes : toBytes.length = size
deriving DecidableEq

namespace Octets

variable {size : Nat}

/-- A byte string as octets, where its length is right. -/
def ofBytes? (bs : Bytes) : Option (Octets size) :=
  if h : bs.length = size then some ⟨bs, h⟩ else none

@[simp] theorem ofBytes?_toBytes (o : Octets size) : ofBytes? o.toBytes = some o := by
  simp [ofBytes?, o.length_toBytes]

theorem ofBytes?_eq_some_iff {bs : Bytes} {o : Octets size} :
    ofBytes? bs = some o ↔ o.toBytes = bs := by
  constructor
  · intro h
    unfold ofBytes? at h
    split at h <;> simp_all
    exact h ▸ rfl
  · rintro rfl
    exact ofBytes?_toBytes o

def zero : Octets size :=
  ⟨List.replicate size 0, List.length_replicate⟩

instance : LT (Octets size) := ⟨fun a b => a.toBytes < b.toBytes⟩

instance : DecidableRel (α := Octets size) (· < ·) :=
  fun a b => inferInstanceAs (Decidable (a.toBytes < b.toBytes))

theorem lt_irrefl (a : Octets size) : ¬a < a :=
  List.lt_irrefl a.toBytes

theorem lt_trans {a b c : Octets size} : a < b → b < c → a < c :=
  List.lt_trans

theorem lt_trichotomy (a b : Octets size) : a < b ∨ a = b ∨ b < a := by
  by_cases hab : a < b
  · exact .inl hab
  · by_cases hba : b < a
    · exact .inr (.inr hba)
    · exact .inr (.inl (Octets.ext (List.le_antisymm (List.not_lt.1 hba) (List.not_lt.1 hab))))

end Octets

end Envelope

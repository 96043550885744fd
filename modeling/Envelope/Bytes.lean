/-!
# Byte strings

Byte strings are lists, so that every format and cipher of the library can be
stated by recursion on them. Numbers inside them are little-endian throughout.
-/

namespace Envelope

abbrev Bytes := List UInt8

namespace Bytes

/-- The number a byte string denotes, least significant byte first. -/
def toNat : Bytes → Nat
  | [] => 0
  | b :: rest => b.toNat + 256 * toNat rest

/-- The low `width` bytes of a number, least significant first. -/
def ofNat : (width : Nat) → Nat → Bytes
  | 0, _ => []
  | width + 1, n => UInt8.ofNat n :: ofNat width (n / 256)

@[simp] theorem length_ofNat (width n : Nat) : (ofNat width n).length = width := by
  induction width generalizing n with
  | zero => rfl
  | succ width ih => simp [ofNat, ih]

def word32 (bs : Bytes) (i : Nat) : UInt32 :=
  UInt32.ofNat (toNat ((bs.drop i).take 4))

def word64 (bs : Bytes) (i : Nat) : UInt64 :=
  UInt64.ofNat (toNat ((bs.drop i).take 8))

def ofUInt32 (w : UInt32) : Bytes :=
  ofNat 4 w.toNat

def ofUInt64 (w : UInt64) : Bytes :=
  ofNat 8 w.toNat

/-- Exclusive or of two strings, as long as the shorter of them. -/
def xor (a b : Bytes) : Bytes :=
  List.zipWith (· ^^^ ·) a b

theorem length_xor_of_le {a s : Bytes} (h : a.length ≤ s.length) :
    (xor a s).length = a.length := by
  simp only [xor, List.length_zipWith]
  omega

/-- Masking twice with one stream restores the string. -/
theorem xor_xor (a s : Bytes) (h : a.length ≤ s.length) : xor (xor a s) s = a := by
  induction a generalizing s with
  | nil => rfl
  | cons x a ih =>
    cases s with
    | nil => simp at h
    | cons y s =>
      simp only [List.length_cons, Nat.add_le_add_iff_right] at h
      have hx : x ^^^ y ^^^ y = x := by rw [UInt8.xor_assoc, UInt8.xor_self, UInt8.xor_zero]
      simp only [xor, List.zipWith_cons_cons, hx, List.cons.injEq, true_and]
      exact ih s h

/-- The pieces of a byte string, `size` bytes each but for a shorter last one. -/
def chunks (size : Nat) (bs : Bytes) : List Bytes :=
  go bs.length bs
where
  /-- Cuts at most `count` pieces off the front. -/
  go : Nat → Bytes → List Bytes
    | 0, _ => []
    | _ + 1, [] => []
    | count + 1, b :: rest => (b :: rest).take size :: go count ((b :: rest).drop size)

/-! ## Text -/

def ofString (s : String) : Bytes :=
  s.toByteArray.data.toList

/-- The text whose UTF-8 form this is, if it is one. -/
def toString? (bs : Bytes) : Option String :=
  String.fromUTF8? ⟨bs.toArray⟩

@[simp] theorem toString?_ofString (s : String) : toString? (ofString s) = some s := by
  have h : (⟨(ofString s).toArray⟩ : ByteArray) = s.toByteArray := by simp [ofString]
  rw [toString?, h, String.fromUTF8?, dif_pos s.isValidUTF8]
  rfl

theorem ofString_injective {s t : String} (h : ofString s = ofString t) : s = t := by
  have := congrArg toString? h
  simpa using this

def ofCodes (bs : Bytes) : String :=
  String.ofList (bs.map fun b => Char.ofNat b.toNat)

/-- Codes below 128 are their own UTF-8 form. -/
theorem ofString_ofCodes {bs : Bytes} (h : ∀ b ∈ bs, b < 128) : ofString (ofCodes bs) = bs := by
  simp only [ofString, ofCodes, String.toByteArray_ofList]
  induction bs with
  | nil => rfl
  | cons b bs ih =>
    simp only [List.mem_cons, forall_eq_or_imp] at h
    have hb : String.utf8EncodeChar (Char.ofNat b.toNat) = [b] := by
      have : ∀ n : Fin 128, String.utf8EncodeChar (Char.ofNat n) = [UInt8.ofNat n] := by decide
      have hlt : b.toNat < 128 := h.1
      simpa using this ⟨b.toNat, hlt⟩
    rw [List.map_cons, List.utf8Encode_cons, List.utf8Encode_singleton, hb]
    have := ih h.2
    simp_all

end Bytes

end Envelope

import Envelope.Bytes

/-!
# Written numbers

The grammar of numbers, and which of them a reader tells apart: whole numbers
of 64 bits, other numbers within the range of doubles, and numbers beyond it.
-/

namespace Envelope.Json

/-- What a reader makes of a number. -/
inductive Numeral
  /-- A whole number below `2^64`, written without a sign. -/
  | unsigned (value : Nat)
  /-- Minus a whole number from 1 to `2^63`. -/
  | negative (magnitude : Nat)
  /-- Any other number that rounds to a finite double. -/
  | real
  /-- A number too large for a double. -/
  | overflowing
deriving DecidableEq, Repr

/-- A number as it is written. -/
structure Decimal where
  negative : Bool
  whole : List Nat
  fraction : List Nat
  exponent : Int
  /-- Written with neither a fraction nor an exponent. -/
  plain : Bool
deriving DecidableEq, Repr

namespace Decimal

def isDigit (byte : UInt8) : Bool :=
  48 ≤ byte && byte ≤ 57

/-- The digits at the front, and what follows them. -/
def digits (bs : Bytes) : List Nat × Bytes :=
  ((bs.takeWhile isDigit).map (·.toNat - 48), bs.dropWhile isDigit)

def value (digits : List Nat) : Nat :=
  digits.foldl (fun n d => 10 * n + d) 0

def ofNat (n : Nat) : Bytes :=
  (Nat.toDigits 10 n).map fun c => UInt8.ofNat c.toNat

/-- The digits before the point: one zero, or a first digit other than zero. -/
def whole? (bs : Bytes) : Option (List Nat × Bytes) :=
  match digits bs with
  | ([], _) => none
  | (0 :: _ :: _, _) => none
  | (ds, rest) => some (ds, rest)

def fraction? : Bytes → Option (Option (List Nat) × Bytes)
  | 46 :: rest =>
    match digits rest with
    | ([], _) => none
    | (ds, rest) => some (some ds, rest)
  | rest => some (none, rest)

def signed? (bs : Bytes) : Option (Int × Bytes) :=
  let (minus, bs) := match bs with
    | 43 :: rest => (false, rest)
    | 45 :: rest => (true, rest)
    | rest => (false, rest)
  match digits bs with
  | ([], _) => none
  | (ds, rest) => some (if minus then -(value ds : Int) else value ds, rest)

def exponent? : Bytes → Option (Option Int × Bytes)
  | 69 :: rest | 101 :: rest => (signed? rest).map fun (e, rest) => (some e, rest)
  | rest => some (none, rest)

def read? (bs : Bytes) : Option (Decimal × Bytes) := do
  let (negative, bs) := match bs with
    | 45 :: rest => (true, rest)
    | rest => (false, rest)
  let (whole, bs) ← whole? bs
  let (fraction, bs) ← fraction? bs
  let (exponent, bs) ← exponent? bs
  return ({ negative, whole, fraction := fraction.getD [], exponent := exponent.getD 0,
            plain := fraction.isNone && exponent.isNone }, bs)

/-- Appends digits to a significand as long as it stays below `2^64`, and says
how many were appended. -/
def absorb (significand taken : Nat) : List Nat → Nat × Nat
  | [] => (significand, taken)
  | d :: ds =>
    if 10 * significand + d < UInt64.size then absorb (10 * significand + d) (taken + 1) ds
    else (significand, taken)

/-- The significand and the power of ten that approximate a written number:
whole digits beyond the significand only scale it, and fraction digits beyond
it are dropped. -/
def scaled (d : Decimal) : Nat × Int :=
  let (significand, taken) := absorb 0 0 d.whole
  let (significand, places) := absorb significand 0 d.fraction
  (significand, (d.whole.length - taken : Nat) - (places : Int) + d.exponent)

/-- The nearest number with 53 significant bits, ties to the even one. -/
def nearest (n : Nat) : Nat :=
  let unit := 1 <<< (n.log2 + 1 - 53)
  let quotient := n / unit
  let remainder := n % unit
  let up := unit < 2 * remainder ∨ (unit = 2 * remainder ∧ quotient % 2 = 1)
  (if up then quotient + 1 else quotient) * unit

/-- Whether the value lies beyond the doubles: the significand and the power of
ten are rounded, and their product as well. -/
def overflows (d : Decimal) : Bool :=
  let (significand, power) := d.scaled
  significand != 0 && (308 < power ||
    (0 ≤ power &&
      (1 <<< 1024) - (1 <<< 970) ≤ nearest significand * nearest (Nat.pow 10 power.toNat)))

/-- What a reader makes of the number. Minus zero is no whole number. -/
def numeral (d : Decimal) : Numeral :=
  let n := value d.whole
  if d.plain && !d.negative && n < UInt64.size then .unsigned n
  else if d.plain && d.negative && 0 < n && 2 * n ≤ UInt64.size then .negative n
  else if d.overflows then .overflowing
  else .real

/-! ## What is written is read -/

/-- A whole number ends where this string starts. -/
def Ends (rest : Bytes) : Prop :=
  ∀ b ∈ rest.head?, isDigit b = false ∧ b ≠ 46 ∧ b ≠ 69 ∧ b ≠ 101

theorem isDigit_of_mem_ofNat {n : Nat} {b : UInt8} (h : b ∈ ofNat n) : isDigit b = true := by
  obtain ⟨c, hc, rfl⟩ := List.mem_map.1 h
  have hd := Nat.isDigit_of_mem_toDigits (by decide) (by decide) hc
  simp only [Char.isDigit, Bool.and_eq_true, decide_eq_true_eq] at hd
  have h1 : 48 ≤ c.toNat := hd.1
  have h2 : c.toNat ≤ 57 := hd.2
  simp only [isDigit, Bool.and_eq_true, decide_eq_true_eq, UInt8.le_iff_toNat_le]
  simp
  omega

theorem digits_append {ds rest : Bytes} (hds : ∀ b ∈ ds, isDigit b = true)
    (hrest : ∀ b ∈ rest.head?, isDigit b = false) :
    digits (ds ++ rest) = (ds.map (·.toNat - 48), rest) := by
  have htake : rest.takeWhile isDigit = [] := by
    cases rest with
    | nil => rfl
    | cons b rest => simp [hrest b (by simp)]
  have hdrop : rest.dropWhile isDigit = rest := by
    cases rest with
    | nil => rfl
    | cons b rest => simp [hrest b (by simp)]
  simp [digits, List.takeWhile_append_of_pos hds, List.dropWhile_append_of_pos hds, htake, hdrop]

/-- The decimal digits of a number, as numbers. -/
def digitsOf (n : Nat) : List Nat := (ofNat n).map (·.toNat - 48)

theorem value_digitsOf (n : Nat) : value (digitsOf n) = n := by
  have h := Nat.ofDigitChars_toDigits (b := 10) (n := n) (by decide) (by decide)
  have hchar : ∀ c ∈ Nat.toDigits 10 n, (UInt8.ofNat c.toNat).toNat = c.toNat := by
    intro c hc
    have hd := Nat.isDigit_of_mem_toDigits (by decide) (by decide) hc
    simp only [Char.isDigit, Bool.and_eq_true, decide_eq_true_eq] at hd
    have h2 : c.toNat ≤ 57 := hd.2
    simp
    omega
  have : digitsOf n = (Nat.toDigits 10 n).map (fun c => c.toNat - '0'.toNat) := by
    simp only [digitsOf, ofNat, List.map_map]
    exact List.map_congr_left fun c hc => by simp [hchar c hc]
  rw [this, value, List.foldl_map]
  exact h

theorem digitsOf_ne_nil (n : Nat) : digitsOf n ≠ [] := by
  simp [digitsOf, ofNat, Nat.toDigits_ne_nil]

theorem digitsOf_of_lt {n : Nat} (h : n < 10) : digitsOf n = [n] := by
  have : ∀ n : Fin 10, digitsOf n = [n.val] := by decide
  exact this ⟨n, h⟩

theorem digitsOf_of_le {n : Nat} (h : 10 ≤ n) : digitsOf n = digitsOf (n / 10) ++ [n % 10] := by
  have hlast : digitsOf (n % 10) = [n % 10] := digitsOf_of_lt (Nat.mod_lt _ (by decide))
  rw [digitsOf, ofNat, Nat.toDigits_of_base_le (by decide) h]
  rw [digitsOf, ofNat, Nat.toDigits_of_lt_base (Nat.mod_lt _ (by decide))] at hlast
  simpa [digitsOf, ofNat] using hlast

/-- Only zero is written with a zero in front. -/
theorem head?_digitsOf {n : Nat} (h : 0 < n) : (digitsOf n).head? ≠ some 0 := by
  induction n using Nat.strongRecOn with
  | _ n ih =>
    by_cases hn : n < 10
    · rw [digitsOf_of_lt hn]
      simp
      omega
    · have hhead := ih (n / 10) (by omega) (by omega)
      rw [digitsOf_of_le (by omega), List.head?_append]
      cases hd : digitsOf (n / 10) with
      | nil => exact absurd hd (digitsOf_ne_nil _)
      | cons d ds => simpa [hd] using hhead

theorem whole?_ofNat_append (n : Nat) {rest : Bytes}
    (hrest : ∀ b ∈ rest.head?, isDigit b = false) :
    whole? (ofNat n ++ rest) = some (digitsOf n, rest) := by
  have hd : digits (ofNat n ++ rest) = (digitsOf n, rest) :=
    digits_append (fun _ => isDigit_of_mem_ofNat) hrest
  unfold whole?
  rw [hd]
  split
  · rename_i h; simp only [Prod.mk.injEq] at h; exact absurd h.1 (digitsOf_ne_nil n)
  · rename_i d ds _ h
    simp only [Prod.mk.injEq] at h
    rcases Nat.lt_or_ge n 10 with hn | hn
    · rw [digitsOf_of_lt hn] at h; simp at h
    · exact absurd (by rw [h.1]; rfl) (head?_digitsOf (n := n) (by omega))
  · rename_i h
    rw [h]

theorem read?_ofNat_append (n : Nat) {rest : Bytes} (hrest : Ends rest) :
    read? (ofNat n ++ rest) =
      some ({ negative := false, whole := digitsOf n, fraction := [], exponent := 0,
              plain := true }, rest) := by
  have hne : ∀ tail, ofNat n ++ rest ≠ 45 :: tail := by
    intro tail h
    cases hd : ofNat n with
    | nil => exact absurd (by simp [digitsOf, hd]) (digitsOf_ne_nil n)
    | cons b bs =>
      have hb : isDigit b = true := isDigit_of_mem_ofNat (n := n) (by simp [hd])
      rw [hd, List.cons_append, List.cons.injEq] at h
      rw [h.1] at hb
      exact absurd hb (by decide)
  have hw : whole? (ofNat n ++ rest) = some (digitsOf n, rest) :=
    whole?_ofNat_append n fun b hb => (hrest b hb).1
  have hf : fraction? rest = some (none, rest) := by
    unfold fraction?
    split
    · exact absurd rfl (hrest 46 (by simp)).2.1
    · rfl
  have he : exponent? rest = some (none, rest) := by
    unfold exponent?
    split
    · exact absurd rfl (hrest 69 (by simp)).2.2.1
    · exact absurd rfl (hrest 101 (by simp)).2.2.2
    · rfl
  unfold read?
  split
  rename_i neg bs heq
  split at heq
  · rename_i tail h; exact absurd h (hne tail)
  · obtain ⟨rfl, rfl⟩ := Prod.mk.inj heq
    simp [hw, hf, he]

theorem numeral_digitsOf {n : Nat} (h : n < UInt64.size) :
    numeral { negative := false, whole := digitsOf n, fraction := [], exponent := 0,
              plain := true } = .unsigned n := by
  have hn : decide (n < UInt64.size) = true := decide_eq_true h
  simp only [numeral, value_digitsOf, hn, Bool.not_false, Bool.and_self, if_true]

end Decimal

end Envelope.Json

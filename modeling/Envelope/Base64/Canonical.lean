import Envelope.Base64
import Envelope.Steps

/-!
# Base64 texts are canonical

A text is read exactly if it is the one that is written for its bytes, so that
two texts never denote the same bytes. `OneText` says so of any type with a text,
and carries over from bytes to what is made of them.
-/

namespace Envelope.Base64

/-! ## Digits and their symbols -/

theorem digit?_symbol {d : Nat} (h : d < 64) : digit? (symbol d) = some d := by
  have : ∀ d : Fin 64, digit? (symbol d) = some d.val := by decide
  exact this ⟨d, h⟩

theorem symbol_ne_pad {d : Nat} (h : d < 64) : symbol d ≠ pad := by
  have : ∀ d : Fin 64, symbol d ≠ pad := by decide
  exact this ⟨d, h⟩

theorem symbol_of_digit? {b : UInt8} {d : Nat} (h : digit? b = some d) : symbol d = b ∧ d < 64 := by
  have : ∀ n : Fin 256, ∀ d ∈ digit? (UInt8.ofNat n), symbol d = UInt8.ofNat n ∧ d < 64 := by
    decide +kernel
  have hb := this ⟨b.toNat, b.toNat_lt⟩ d (by simpa using h)
  simpa using hb

theorem readDigit_symbol {d : Nat} (h : d < 64) (offset : Nat) :
    readDigit offset (symbol d) = .ok d := by
  rw [readDigit, digit?_symbol h]

theorem readDigit_eq_ok {offset d : Nat} {b : UInt8} (h : readDigit offset b = .ok d) :
    b = symbol d ∧ d < 64 := by
  unfold readDigit at h
  split at h
  · rename_i hd
    obtain rfl := Except.ok.inj h
    exact ⟨(symbol_of_digit? hd).1.symm, (symbol_of_digit? hd).2⟩
  · simp at h

theorem join_digits (a b c : UInt8) :
    join (a.toNat / 4) (a.toNat % 4 * 16 + b.toNat / 16) (b.toNat % 16 * 4 + c.toNat / 64)
      (c.toNat % 64) = [a, b, c] := by
  have ha := a.toNat_lt
  have hb := b.toNat_lt
  have hc := c.toNat_lt
  have h1 : a.toNat / 4 * 4 + (a.toNat % 4 * 16 + b.toNat / 16) / 16 = a.toNat := by omega
  have h2 : (a.toNat % 4 * 16 + b.toNat / 16) % 16 * 16 + (b.toNat % 16 * 4 + c.toNat / 64) / 4 =
    b.toNat := by omega
  have h3 : (b.toNat % 16 * 4 + c.toNat / 64) % 4 * 64 + c.toNat % 64 = c.toNat := by omega
  rw [join, h1, h2, h3]
  simp only [UInt8.ofNat_toNat]

theorem digits_join {p q r s : Nat} (hp : p < 64) (hq : q < 64) (hr : r < 64) (hs : s < 64) :
    ∃ a b c : UInt8, join p q r s = [a, b, c] ∧ a.toNat / 4 = p ∧
      a.toNat % 4 * 16 + b.toNat / 16 = q ∧ b.toNat % 16 * 4 + c.toNat / 64 = r ∧
      c.toNat % 64 = s := by
  refine ⟨_, _, _, rfl, ?_, ?_, ?_, ?_⟩ <;> simp only [UInt8.toNat_ofNat'] <;> omega

/-! ## What is written is read -/

theorem readGroup_symbol {d : Nat} (h : d < 64) (base index : Nat) (rest : Bytes) :
    readGroup base index (symbol d :: rest) =
      (readGroup base (index + 1) rest).map fun (ds, pads) => (d :: ds, pads) := by
  rw [readGroup, if_neg (symbol_ne_pad h), readDigit_symbol h]
  cases readGroup base (index + 1) rest <;> rfl

theorem decodeLast_one (base : Nat) (a : UInt8) : decodeLast base (symbols [a]) = .ok [a] := by
  have ha := a.toNat_lt
  have h := join_digits a 0 0
  have hgroup : readGroup base 0 (symbols [a]) =
      .ok ([a.toNat / 4, a.toNat % 4 * 16], 2) := by
    rw [symbols, readGroup_symbol (by omega), readGroup_symbol (by omega)]
    rfl
  have hjoin : (join (a.toNat / 4) (a.toNat % 4 * 16) 0 0).take 1 = [a] := by
    simpa using congrArg (List.take 1) h
  rw [decodeLast, hgroup]
  simp [bind, Except.bind, pure, Except.pure, hjoin, Nat.mul_mod_left]

theorem decodeLast_two (base : Nat) (a b : UInt8) :
    decodeLast base (symbols [a, b]) = .ok [a, b] := by
  have ha := a.toNat_lt
  have hb := b.toNat_lt
  have h := join_digits a b 0
  have hgroup : readGroup base 0 (symbols [a, b]) =
      .ok ([a.toNat / 4, a.toNat % 4 * 16 + b.toNat / 16, b.toNat % 16 * 4], 1) := by
    rw [symbols, readGroup_symbol (by omega), readGroup_symbol (by omega),
      readGroup_symbol (by omega)]
    rfl
  have hjoin : (join (a.toNat / 4) (a.toNat % 4 * 16 + b.toNat / 16) (b.toNat % 16 * 4) 0).take 2 =
      [a, b] := by
    simpa using congrArg (List.take 2) h
  rw [decodeLast, hgroup]
  simp [bind, Except.bind, pure, Except.pure, hjoin]

theorem decodeLast_three (base : Nat) (a b c : UInt8) :
    decodeLast base (symbols [a, b, c]) = .ok [a, b, c] := by
  have ha := a.toNat_lt
  have hb := b.toNat_lt
  have hc := c.toNat_lt
  have hgroup : readGroup base 0 (symbols [a, b, c]) =
      .ok ([a.toNat / 4, a.toNat % 4 * 16 + b.toNat / 16, b.toNat % 16 * 4 + c.toNat / 64,
        c.toNat % 64], 0) := by
    rw [symbols, readGroup_symbol (by omega), readGroup_symbol (by omega),
      readGroup_symbol (by omega), readGroup_symbol (by omega)]
    rfl
  rw [decodeLast, hgroup]
  simp [bind, Except.bind, pure, Except.pure, join_digits]

theorem symbols_ne_nil {bs : Bytes} (h : bs ≠ []) : symbols bs ≠ [] := by
  cases bs using symbols.fun_cases <;> simp_all [symbols]

theorem decodeFrom_symbols (bs : Bytes) : ∀ base, decodeFrom base (symbols bs) = .ok bs := by
  induction bs using symbols.induct with
  | case1 => intro base; rfl
  | case2 a => intro base; exact decodeLast_one base a
  | case3 a b => intro base; exact decodeLast_two base a b
  | case4 a b c rest ih =>
    intro base
    have ha := a.toNat_lt
    have hb := b.toNat_lt
    have hc := c.toNat_lt
    cases hrest : symbols rest with
    | nil =>
      have : rest = [] := by
        by_cases hr : rest = []
        · exact hr
        · exact absurd hrest (symbols_ne_nil hr)
      subst this
      exact decodeLast_three base a b c
    | cons e tail =>
      rw [symbols, hrest, decodeFrom, ← hrest, ih, readDigit_symbol (by omega),
        readDigit_symbol (by omega), readDigit_symbol (by omega), readDigit_symbol (by omega)]
      simp [bind, Except.bind, pure, Except.pure, join_digits]

theorem length_symbols (bs : Bytes) : (symbols bs).length % 4 = 0 := by
  induction bs using symbols.induct with
  | case1 => rfl
  | case2 a => simp [symbols]
  | case3 a b => simp [symbols]
  | case4 a b c rest ih => simp only [symbols, List.length_cons]; omega

theorem decodeSymbols_symbols (bs : Bytes) : decodeSymbols (symbols bs) = .ok bs := by
  unfold decodeSymbols
  split
  · rw [if_neg (by have := length_symbols bs; omega)]
    exact decodeFrom_symbols bs 0
  · rename_i h
    have hnil : symbols bs = [] := by simpa using h
    by_cases hb : bs = []
    · rw [hb]
    · exact absurd hnil (symbols_ne_nil hb)

/-! ## Nothing else is read -/

theorem readGroup_eq_ok {base index : Nat} {group : Bytes} {ds : List Nat} {pads : Nat}
    (h : readGroup base index group = .ok (ds, pads)) :
    group = ds.map symbol ++ List.replicate pads pad ∧ ∀ d ∈ ds, d < 64 := by
  induction group generalizing index ds pads with
  | nil =>
    obtain ⟨rfl, rfl⟩ := Prod.mk.inj (Except.ok.inj h)
    simp
  | cons b rest ih =>
    unfold readGroup at h
    split at h
    · rename_i hb
      split at h
      · simp at h
      · split at h
        · rename_i hall
          obtain ⟨rfl, rfl⟩ := Prod.mk.inj (Except.ok.inj h)
          have : rest = List.replicate rest.length pad := by
            rw [List.eq_replicate_iff]
            exact ⟨rfl, fun c hc => by simpa using List.all_eq_true.1 hall c hc⟩
          rw [hb, List.replicate_succ]
          simpa using this
        · simp at h
    · obtain ⟨d, hd, hrest⟩ := bind_eq_ok_iff.1 h
      obtain ⟨⟨ds', pads'⟩, hr, hfound⟩ := bind_eq_ok_iff.1 hrest
      obtain ⟨rfl, hlt⟩ := readDigit_eq_ok hd
      obtain ⟨rfl, rfl⟩ := Prod.mk.inj (Except.ok.inj hfound)
      obtain ⟨hgroup, hds⟩ := ih hr
      refine ⟨by rw [hgroup]; rfl, fun d' hd' => ?_⟩
      rcases List.mem_cons.1 hd' with rfl | hd'
      · exact hlt
      · exact hds d' hd'

/-- A full group is written for the bytes of its digits. -/
theorem symbols_join {p q r s : Nat} (hp : p < 64) (hq : q < 64) (hr : r < 64) (hs : s < 64)
    (tail : Bytes) :
    symbols (join p q r s ++ tail) =
      symbol p :: symbol q :: symbol r :: symbol s :: symbols tail := by
  obtain ⟨a, b, c, hj, h1, h2, h3, h4⟩ := digits_join hp hq hr hs
  rw [hj, List.cons_append, List.cons_append, List.cons_append, List.nil_append, symbols, h1, h2,
    h3, h4]

/-- So is a group of three digits for two bytes, if no bits are left over. -/
theorem symbols_take_two_join {p q r : Nat} (hp : p < 64) (hq : q < 64) (hr : r < 64)
    (hz : r % 4 = 0) :
    symbols ((join p q r 0).take 2) = [symbol p, symbol q, symbol r, pad] := by
  obtain ⟨a, b, c, hj, h1, h2, h3, -⟩ := digits_join hp hq hr (show 0 < 64 by decide)
  have hc := c.toNat_lt
  have hlast : b.toNat % 16 * 4 = r := by omega
  rw [hj, List.take_succ_cons, List.take_succ_cons, List.take_zero, symbols, h1, h2, hlast]

/-- And one of two digits for a single byte. -/
theorem symbols_take_one_join {p q : Nat} (hp : p < 64) (hq : q < 64) (hz : q % 16 = 0) :
    symbols ((join p q 0 0).take 1) = [symbol p, symbol q, pad, pad] := by
  obtain ⟨a, b, c, hj, h1, h2, -, -⟩ :=
    digits_join hp hq (show 0 < 64 by decide) (show 0 < 64 by decide)
  have hb := b.toNat_lt
  have hlast : a.toNat % 4 * 16 = q := by omega
  rw [hj, List.take_succ_cons, List.take_zero, symbols, h1, hlast]

theorem decodeLast_eq_ok {base : Nat} {group bs : Bytes} (hlen : group.length ≤ 4)
    (h : decodeLast base group = .ok bs) : group = symbols bs := by
  obtain ⟨⟨ds, pads⟩, hread, h⟩ := bind_eq_ok_iff.1 h
  obtain ⟨hgroup, hds⟩ := readGroup_eq_ok hread
  have hlength : ds.length + pads ≤ 4 := by
    rwa [hgroup, List.length_append, List.length_map, List.length_replicate] at hlen
  dsimp only at h
  split at h
  · cases h
  rename_i hshort
  split at h
  · cases h
  rename_i hpadded
  -- Digits and padding make a full group, so the digits tell how much padding there is.
  split at h
  · rename_i p q
    split at h
    · rename_i hz
      obtain rfl := Except.ok.inj h
      obtain rfl : pads = 2 := by
        simp only [List.length_cons, List.length_nil] at hlength hpadded
        omega
      rw [hgroup, symbols_take_one_join (hds p (by simp)) (hds q (by simp)) hz]
      rfl
    · cases h
  · rename_i p q r
    split at h
    · rename_i hz
      obtain rfl := Except.ok.inj h
      obtain rfl : pads = 1 := by
        simp only [List.length_cons, List.length_nil] at hlength hpadded
        omega
      rw [hgroup, symbols_take_two_join (hds p (by simp)) (hds q (by simp)) (hds r (by simp)) hz]
      rfl
    · cases h
  · rename_i p q r s
    obtain rfl := Except.ok.inj h
    obtain rfl : pads = 0 := by
      simp only [List.length_cons, List.length_nil] at hlength
      omega
    rw [hgroup, ← List.append_nil (join p q r s), symbols_join (hds p (by simp))
      (hds q (by simp)) (hds r (by simp)) (hds s (by simp))]
    rfl
  · rename_i htwo hthree hfour
    obtain rfl := Except.ok.inj h
    by_cases hnil : group = []
    · rw [hnil]
      rfl
    · have hge : 2 ≤ ds.length := Nat.le_of_not_lt fun hlt => hshort ⟨hnil, hlt⟩
      match ds, hge, hlength with
      | [p, q], _, _ => exact absurd rfl (htwo p q)
      | [p, q, r], _, _ => exact absurd rfl (hthree p q r)
      | [p, q, r, s], _, _ => exact absurd rfl (hfour p q r s)
      | p :: q :: r :: s :: t :: ds, _, hlength =>
        simp only [List.length_cons] at hlength
        omega

theorem decodeFrom_eq_ok {text bs : Bytes} {base : Nat} (h : decodeFrom base text = .ok bs) :
    text = symbols bs := by
  induction base, text using decodeFrom.induct generalizing bs with
  | case1 base a b c d e rest ih =>
    rw [decodeFrom] at h
    obtain ⟨p, hreadp, h⟩ := bind_eq_ok_iff.1 h
    obtain ⟨q, hreadq, h⟩ := bind_eq_ok_iff.1 h
    obtain ⟨r, hreadr, h⟩ := bind_eq_ok_iff.1 h
    obtain ⟨s, hreads, h⟩ := bind_eq_ok_iff.1 h
    obtain ⟨tail, htail, h⟩ := bind_eq_ok_iff.1 h
    obtain rfl := Except.ok.inj h
    obtain ⟨rfl, hp⟩ := readDigit_eq_ok hreadp
    obtain ⟨rfl, hq⟩ := readDigit_eq_ok hreadq
    obtain ⟨rfl, hr⟩ := readDigit_eq_ok hreadr
    obtain ⟨rfl, hs⟩ := readDigit_eq_ok hreads
    rw [ih htail, symbols_join hp hq hr hs]
  | case2 base group hgroup =>
    rw [decodeFrom] at h
    · refine decodeLast_eq_ok ?_ h
      match group, hgroup with
      | [], _ => simp
      | [_], _ => simp
      | [_, _], _ => simp
      | [_, _, _], _ => simp
      | [_, _, _, _], _ => simp
      | a :: b :: c :: d :: e :: rest, hgroup => exact absurd rfl (hgroup a b c d e rest)
    · exact hgroup

theorem decodeSymbols_eq_ok {text bs : Bytes} (h : decodeSymbols text = .ok bs) :
    text = symbols bs := by
  unfold decodeSymbols at h
  split at h
  · split at h
    · simp at h
    · exact decodeFrom_eq_ok h
  · rename_i hnil
    obtain rfl := Except.ok.inj h
    simpa [symbols] using hnil

theorem decodeSymbols_eq_ok_iff {text bs : Bytes} :
    decodeSymbols text = .ok bs ↔ text = symbols bs :=
  ⟨decodeSymbols_eq_ok, fun h => h ▸ decodeSymbols_symbols bs⟩

/-! ## Texts -/

theorem symbol_lt (d : Nat) (h : d < 64) : symbol d < 128 := by
  have : ∀ d : Fin 64, symbol d < 128 := by decide
  exact this ⟨d, h⟩

theorem symbols_lt (bs : Bytes) : ∀ b ∈ symbols bs, b < 128 := by
  induction bs using symbols.induct with
  | case1 => simp [symbols]
  | case2 a =>
    have ha := a.toNat_lt
    simp only [symbols, List.mem_cons, forall_eq_or_imp, List.not_mem_nil, false_implies,
      implies_true, and_true]
    exact ⟨symbol_lt _ (by omega), symbol_lt _ (by omega), by decide, by decide⟩
  | case3 a b =>
    have ha := a.toNat_lt
    have hb := b.toNat_lt
    simp only [symbols, List.mem_cons, forall_eq_or_imp, List.not_mem_nil, false_implies,
      implies_true, and_true]
    exact ⟨symbol_lt _ (by omega), symbol_lt _ (by omega), symbol_lt _ (by omega), by decide⟩
  | case4 a b c rest ih =>
    have ha := a.toNat_lt
    have hb := b.toNat_lt
    have hc := c.toNat_lt
    simp only [symbols, List.mem_cons, forall_eq_or_imp]
    exact ⟨symbol_lt _ (by omega), symbol_lt _ (by omega), symbol_lt _ (by omega),
      symbol_lt _ (by omega), ih⟩

theorem ofString_encode (bs : Bytes) : Bytes.ofString (encode bs) = symbols bs :=
  Bytes.ofString_ofCodes (symbols_lt bs)

/-- A text is read exactly if it is the one that is written. -/
theorem decode_eq_ok_iff {text : String} {bs : Bytes} :
    decode text = .ok bs ↔ text = encode bs := by
  rw [decode, decodeSymbols_eq_ok_iff, ← ofString_encode]
  exact ⟨Bytes.ofString_injective, fun h => h ▸ rfl⟩

theorem decode_encode (bs : Bytes) : decode (encode bs) = .ok bs :=
  decode_eq_ok_iff.2 rfl

theorem decodeOctets_eq_ok_iff {size : Nat} {text : String} {o : Octets size} :
    decodeOctets text = .ok o ↔ text = encode o.toBytes := by
  constructor
  · intro h
    unfold decodeOctets at h
    split at h
    · simp at h
    · rename_i bs hbs
      split at h
      · rename_i o' ho
        obtain rfl := Except.ok.inj h
        rw [decode_eq_ok_iff.1 hbs, Octets.ofBytes?_eq_some_iff.1 ho]
      · simp at h
  · rintro rfl
    rw [decodeOctets, decode_encode]
    simp

end Envelope.Base64

namespace Envelope

/-! ## One text for each value -/

/-- Reading and writing undo each other: a value is read from its text, and from no
other. -/
structure OneText {ε α : Type} (parse : String → Except ε α) (print : α → String) : Prop where
  parse_print : ∀ a, parse (print a) = .ok a
  print_parse : ∀ text a, parse text = .ok a → print a = text

namespace OneText

variable {ε ε' α β : Type} {parse : String → Except ε α} {print : α → String}

theorem eq_ok_iff (h : OneText parse print) {text : String} {a : α} :
    parse text = .ok a ↔ text = print a := by
  constructor
  · intro hparse
    exact (h.print_parse text a hparse).symm
  · rintro rfl
    exact h.parse_print a

theorem of_eq_ok_iff (h : ∀ {text : String} {a : α}, parse text = .ok a ↔ text = print a) :
    OneText parse print where
  parse_print _ := h.2 rfl
  print_parse _ _ hparse := (h.1 hparse).symm

theorem print_injective (h : OneText parse print) {a b : α} (hprint : print a = print b) :
    a = b := by
  have ha := h.parse_print a
  rw [hprint, h.parse_print b] at ha
  exact (Except.ok.inj ha).symm

/-- It does not matter how a fault is told. -/
theorem mapError (h : OneText parse print) (tell : ε → ε') :
    OneText (fun text => (parse text).mapError tell) print where
  parse_print a := by
    rw [h.parse_print a]
    rfl
  print_parse text a hparse := h.print_parse text a (mapError_eq_ok_iff.1 hparse)

/-- Neither does it whether the value stands in a type of its own. -/
theorem map (h : OneText parse print) {wrap : α → β} {unwrap : β → α}
    (hunwrap : ∀ a, unwrap (wrap a) = a) (hwrap : ∀ b, wrap (unwrap b) = b) :
    OneText (fun text => (parse text).map wrap) fun b => print (unwrap b) := by
  refine of_eq_ok_iff fun {text b} => ?_
  rw [map_eq_ok_iff]
  constructor
  · rintro ⟨a, hparse, rfl⟩
    rw [hunwrap, h.print_parse text a hparse]
  · rintro rfl
    exact ⟨unwrap b, h.parse_print _, hwrap b⟩

end OneText

namespace Base64

theorem oneText : OneText decode encode :=
  .of_eq_ok_iff decode_eq_ok_iff

theorem oneText_octets (size : Nat) :
    OneText (@decodeOctets size) fun octets => encode octets.toBytes :=
  .of_eq_ok_iff decodeOctets_eq_ok_iff

/-- Octets are read where bytes are, if there are as many of them as there have to be. -/
theorem exists_decodeOctets_eq_ok_iff {size : Nat} {text : String} :
    (∃ octets : Octets size, decodeOctets text = .ok octets) ↔
      ∃ bs, decode text = .ok bs ∧ bs.length = size := by
  constructor
  · rintro ⟨octets, hread⟩
    exact ⟨octets.toBytes, decode_eq_ok_iff.2 (decodeOctets_eq_ok_iff.1 hread),
      octets.length_toBytes⟩
  · rintro ⟨bs, hread, hlength⟩
    exact ⟨⟨bs, hlength⟩, decodeOctets_eq_ok_iff.2 (decode_eq_ok_iff.1 hread)⟩

end Base64

end Envelope

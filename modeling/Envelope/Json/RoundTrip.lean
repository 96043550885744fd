import Envelope.Json.Reading
import Envelope.Json.Value

/-!
# Reading what was written

Every value has its tokens and its reading. Scanning the text of a value gives
the tokens in any style that puts only blanks between them, and going through
the tokens gives the reading, with nothing behind it. Numbers have to fit into
64 bits, since a reader keeps no larger ones.
-/

namespace Envelope.Json

/-! ## Tokens and readings of a value -/

namespace Value

mutual

/-- The tokens of a value. -/
def tokens : Value → List Token
  | .number n => [.scalar (.number (.unsigned n))]
  | .text s => [.scalar (.text (some s))]
  | .array [] => [.openArray, .closeArray]
  | .array (item :: items) => .openArray :: tokens item ++ itemTokens items ++ [.closeArray]
  | .object [] => [.openObject, .closeObject]
  | .object (member :: members) =>
    .openObject :: memberTokens member ++ membersTokens members ++ [.closeObject]

def itemTokens : List Value → List Token
  | [] => []
  | item :: items => .comma :: tokens item ++ itemTokens items

def memberTokens : String × Value → List Token
  | (name, value) => .scalar (.text (some name)) :: .colon :: tokens value

def membersTokens : List (String × Value) → List Token
  | [] => []
  | member :: members => .comma :: memberTokens member ++ membersTokens members

end

mutual

/-- Every number in the value fits into 64 bits. -/
def Fits : Value → Prop
  | .number n => n < UInt64.size
  | .text _ => True
  | .array items => FitsAll items
  | .object members => FitsMembers members

def FitsAll : List Value → Prop
  | [] => True
  | item :: items => Fits item ∧ FitsAll items

def FitsMember : String × Value → Prop
  | (_, value) => Fits value

def FitsMembers : List (String × Value) → Prop
  | [] => True
  | member :: members => FitsMember member ∧ FitsMembers members

end

mutual

/-- What a value is read as. -/
def reading : Value → Reading
  | .number n => .scalar (.number (.unsigned n))
  | .text s => .scalar (.text (some s))
  | .array items => .array (readings items) true
  | .object members => .object (memberReadings members) true

def readings : List Value → List Reading
  | [] => []
  | item :: items => reading item :: readings items

def memberReading : String × Value → Reading × Reading
  | (name, value) => (.scalar (.text (some name)), reading value)

def memberReadings : List (String × Value) → List (Reading × Reading)
  | [] => []
  | member :: members => memberReading member :: memberReadings members

end

theorem readings_eq_map (items : List Value) : readings items = items.map reading := by
  induction items with
  | nil => rfl
  | cons item items ih => simp [readings, ih]

theorem memberReadings_eq_map (members : List (String × Value)) :
    memberReadings members = members.map fun m => (.scalar (.text (some m.1)), m.2.reading) := by
  induction members with
  | nil => rfl
  | cons member members ih => obtain ⟨n, v⟩ := member; simp [memberReadings, memberReading, ih]

/-! ## Going through the tokens -/

open Cursor

theorem tokens_eq_cons (v : Value) : ∃ t ts, v.tokens = t :: ts ∧ t ≠ .closeArray := by
  cases v with
  | number n => exact ⟨_, _, rfl, by simp⟩
  | text s => exact ⟨_, _, rfl, by simp⟩
  | array items => cases items <;> exact ⟨_, _, rfl, by simp⟩
  | object members => cases members <;> exact ⟨_, _, rfl, by simp⟩

theorem foldl_step_valueOrEnd (outer : List Begun) (v : Value) :
    v.tokens.foldl step (.inside .valueOrEnd outer) =
      v.tokens.foldl step (.inside .value outer) := by
  obtain ⟨t, ts, h, hne⟩ := v.tokens_eq_cons
  rw [h, List.foldl_cons, List.foldl_cons]
  simp [step, hne]

mutual

/-- Behind its tokens a value is complete. -/
theorem foldl_step_tokens (outer : List Begun) (v : Value) :
    v.tokens.foldl step (.inside .value outer) = supply v.reading outer := by
  cases v with
  | number n => rfl
  | text s => rfl
  | array items =>
    cases items with
    | nil => rfl
    | cons item items =>
      have hfirst := foldl_step_tokens (.items [] :: outer) item
      have hmore := foldl_step_itemTokens outer [item.reading] items
      have hopen : step (.inside .value outer) .openArray =
        .inside .valueOrEnd (.items [] :: outer) := rfl
      rw [tokens, List.cons_append, List.cons_append, List.foldl_cons, hopen, List.append_assoc,
        List.foldl_append, foldl_step_valueOrEnd, hfirst, List.foldl_append, supply, hmore]
      simp [step, separate, closeArray, reading, readings]
  | object members =>
    cases members with
    | nil => rfl
    | cons member members =>
      have hfirst := foldl_step_memberTokens .nameOrEnd (.inr rfl) outer [] member
      have hmore := foldl_step_membersTokens outer [memberReading member] members
      have hopen : step (.inside .value outer) .openObject =
        .inside .nameOrEnd (.members [] :: outer) := rfl
      rw [tokens, List.cons_append, List.cons_append, List.foldl_cons, hopen, List.append_assoc,
        List.foldl_append, hfirst, List.foldl_append, hmore]
      simp [step, separate, closeObject, reading, memberReadings]

theorem foldl_step_itemTokens (outer : List Begun) (before : List Reading) (items : List Value) :
    (itemTokens items).foldl step (.inside .separator (.items before :: outer)) =
      .inside .separator (.items ((readings items).reverse ++ before) :: outer) := by
  cases items with
  | nil => rfl
  | cons item items =>
    have hfirst := foldl_step_tokens (.items before :: outer) item
    have hmore := foldl_step_itemTokens outer (item.reading :: before) items
    have hcomma : step (.inside .separator (.items before :: outer)) .comma =
      .inside .value (.items before :: outer) := rfl
    rw [itemTokens, List.cons_append, List.foldl_cons, hcomma, List.foldl_append, hfirst,
      supply, hmore]
    simp [readings]

theorem foldl_step_memberTokens (expected : Expected)
    (h : expected = .name ∨ expected = .nameOrEnd) (outer : List Begun)
    (before : List (Reading × Reading)) (member : String × Value) :
    (memberTokens member).foldl step (.inside expected (.members before :: outer)) =
      .inside .separator (.members (memberReading member :: before) :: outer) := by
  obtain ⟨name, value⟩ := member
  have hvalue := foldl_step_tokens (.member before (.scalar (.text (some name))) :: outer) value
  have hname : step (.inside expected (.members before :: outer)) (.scalar (.text (some name))) =
      .inside .colon (.member before (.scalar (.text (some name))) :: outer) := by
    rcases h with rfl | rfl <;> rfl
  have hcolon : step (.inside .colon (.member before (.scalar (.text (some name))) :: outer))
      .colon = .inside .value (.member before (.scalar (.text (some name))) :: outer) := rfl
  rw [memberTokens, List.foldl_cons, hname, List.foldl_cons, hcolon, hvalue]
  rfl

theorem foldl_step_membersTokens (outer : List Begun) (before : List (Reading × Reading))
    (members : List (String × Value)) :
    (membersTokens members).foldl step (.inside .separator (.members before :: outer)) =
      .inside .separator (.members ((memberReadings members).reverse ++ before) :: outer) := by
  cases members with
  | nil => rfl
  | cons member members =>
    have hfirst := foldl_step_memberTokens .name (.inl rfl) outer before member
    have hmore := foldl_step_membersTokens outer (memberReading member :: before) members
    have hcomma : step (.inside .separator (.members before :: outer)) .comma =
      .inside .name (.members before :: outer) := rfl
    rw [membersTokens, List.cons_append, List.foldl_cons, hcomma, List.foldl_append, hfirst, hmore]
    simp [memberReadings]

end
end Value

/-! ## Scanning -/

namespace Token

theorem mem_of_isDigit {b : UInt8} (h : Decimal.isDigit b = true) :
    b ∈ [48, 49, 50, 51, 52, 53, 54, 55, 56, 57] := by
  have : ∀ n : Fin 256, Decimal.isDigit (UInt8.ofNat n) = true →
      UInt8.ofNat n ∈ [48, 49, 50, 51, 52, 53, 54, 55, 56, 57] := by decide +kernel
  simpa using this ⟨b.toNat, b.toNat_lt⟩ (by simpa using h)

theorem isBlank_of_isDigit {b : UInt8} (h : Decimal.isDigit b = true) : isBlank b = false := by
  have hmem := mem_of_isDigit h
  simp only [List.mem_cons, List.not_mem_nil, or_false] at hmem
  rcases hmem with rfl | rfl | rfl | rfl | rfl | rfl | rfl | rfl | rfl | rfl <;> rfl

/-- A token that starts with a digit is a number. -/
theorem read_of_isDigit {b : UInt8} {bs rest : Bytes} {d : Decimal}
    (hb : Decimal.isDigit b = true) (h : Decimal.read? (b :: bs) = some (d, rest)) :
    read b bs = (.scalar (.number d.numeral), rest) := by
  have hmem := mem_of_isDigit hb
  simp only [List.mem_cons, List.not_mem_nil, or_false] at hmem
  rcases hmem with rfl | rfl | rfl | rfl | rfl | rfl | rfl | rfl | rfl | rfl <;>
    simp [read, Text.mark, h]

/-- A token that starts with a quotation mark is a text. -/
theorem read_mark {bs rest : Bytes} {ps : List Text.Piece}
    (h : Text.pieces [] bs = some (ps, rest)) :
    read Text.mark bs = (.scalar (.text (Text.ofPieces? ps)), rest) := by
  simp [read, Text.mark, h]

/-- The tokens `ts` are at the front of `bs`, and `rest` follows them. -/
def Scans (bs : Bytes) (ts : List Token) (rest : Bytes) : Prop :=
  ∀ steps before, bs.length ≤ steps →
    ∃ steps', rest.length ≤ steps' ∧
      scanFrom steps before bs = scanFrom steps' (ts.reverse ++ before) rest

namespace Scans

theorem refl (bs : Bytes) : Scans bs [] bs :=
  fun steps _ h => ⟨steps, h, rfl⟩

theorem blank {byte : UInt8} (h : isBlank byte = true) {rest : Bytes} {ts : List Token}
    {tail : Bytes} (h' : Scans rest ts tail) : Scans (byte :: rest) ts tail := by
  intro steps before hsteps
  cases steps with
  | zero => simp at hsteps
  | succ steps =>
    obtain ⟨s, hs, e⟩ := h' steps before (by simpa using hsteps)
    refine ⟨s, hs, ?_⟩
    rw [scanFrom, if_pos h, e]

theorem blanks {bs : Bytes} (h : ∀ b ∈ bs, isBlank b = true) {rest : Bytes} {ts : List Token}
    {tail : Bytes} (h' : Scans rest ts tail) : Scans (bs ++ rest) ts tail := by
  induction bs with
  | nil => exact h'
  | cons b bs ih =>
    exact blank (h b (by simp)) (ih fun c hc => h c (by simp [hc]))

theorem token {byte : UInt8} {bs rest : Bytes} {t : Token} (hread : read byte bs = (t, rest))
    (hblank : isBlank byte = false) (ht : t ≠ .malformed) (hle : rest.length ≤ bs.length)
    {ts : List Token} {tail : Bytes} (h : Scans rest ts tail) :
    Scans (byte :: bs) (t :: ts) tail := by
  intro steps before hsteps
  cases steps with
  | zero => simp at hsteps
  | succ steps =>
    obtain ⟨s, hs, e⟩ := h steps (t :: before) (by simp at hsteps; omega)
    refine ⟨s, hs, ?_⟩
    rw [scanFrom, hblank, hread]
    cases t <;> simp_all

theorem scan {bs : Bytes} {ts : List Token} (h : Scans bs ts []) : Token.scan bs = ts := by
  obtain ⟨s, _, e⟩ := h bs.length [] (Nat.le_refl _)
  rw [Token.scan, e]
  cases s <;> simp [scanFrom]

theorem number (n : Nat) (hn : n < UInt64.size) {rest : Bytes} (hrest : Decimal.Ends rest)
    {ts : List Token} {tail : Bytes} (h : Scans rest ts tail) :
    Scans (Decimal.ofNat n ++ rest) (.scalar (.number (.unsigned n)) :: ts) tail := by
  cases hd : Decimal.ofNat n with
  | nil => exact absurd (by simp [Decimal.digitsOf, hd]) (Decimal.digitsOf_ne_nil n)
  | cons b bs =>
    have hb : Decimal.isDigit b = true := Decimal.isDigit_of_mem_ofNat (n := n) (by simp [hd])
    have hscan := Decimal.read?_ofNat_append n hrest
    rw [hd, List.cons_append] at hscan
    rw [List.cons_append]
    refine token ?_ (isBlank_of_isDigit hb) (by simp) ?_ h
    · rw [read_of_isDigit hb hscan, Decimal.numeral_digitsOf hn]
    · simp

theorem text (s : String) {rest : Bytes} {ts : List Token} {tail : Bytes}
    (h : Scans rest ts tail) :
    Scans (Text.quote s ++ rest) (.scalar (.text (some s)) :: ts) tail := by
  have hp := Text.pieces_quoted [] (Bytes.ofString s) rest
  simp only [List.nil_append, List.reverse_nil] at hp
  simp only [Text.quote, List.cons_append, List.append_assoc, List.nil_append]
  refine token ?_ (by decide) (by simp) ?_ h
  · rw [read_mark hp, Text.ofPieces?_pieceOf]
  · simp
    omega

end Scans

end Token

/-! ## Styles -/

/-- Nothing but blanks goes between the tokens. -/
structure Style.Blank (style : Style) : Prop where
  line : ∀ depth, ∀ b ∈ style.line depth, Token.isBlank b = true
  gap : ∀ b ∈ style.gap, Token.isBlank b = true

theorem Style.blank_compact : Style.compact.Blank :=
  ⟨fun _ b h => (by simp [Style.compact] at h), fun b h => (by simp [Style.compact] at h)⟩

theorem Style.blank_indented : Style.indented.Blank := by
  refine ⟨fun depth b h => ?_, fun b h => ?_⟩
  · simp only [Style.indented, List.mem_cons, List.mem_replicate] at h
    rcases h with rfl | ⟨_, rfl⟩ <;> decide
  · simp only [Style.indented, List.mem_singleton] at h
    subst h
    decide

theorem Decimal.ends_of_blank {b : UInt8} (h : Token.isBlank b = true) (rest : Bytes) :
    Decimal.Ends (b :: rest) := by
  intro c hc
  simp only [List.head?_cons, Option.mem_def, Option.some.injEq] at hc
  subst hc
  simp only [Token.isBlank, Bool.or_eq_true, beq_iff_eq] at h
  rcases h with ((rfl | rfl) | rfl) | rfl <;> decide

theorem Decimal.ends_blanks {bs : Bytes} (h : ∀ b ∈ bs, Token.isBlank b = true) {rest : Bytes}
    (hrest : Decimal.Ends rest) : Decimal.Ends (bs ++ rest) := by
  cases bs with
  | nil => exact hrest
  | cons b bs => exact ends_of_blank (h b (by simp)) _

theorem Decimal.ends_sign {b : UInt8} (h : b = 44 ∨ b = 93 ∨ b = 125) (rest : Bytes) :
    Decimal.Ends (b :: rest) := by
  intro c hc
  simp only [List.head?_cons, Option.mem_def, Option.some.injEq] at hc
  subst hc
  rcases h with rfl | rfl | rfl <;> decide

/-! ## The text of a value -/

namespace Value

open Token

variable {style : Style} {rest tail : Bytes} {ts : List Token}

theorem scans_sign {b : UInt8} {t : Token}
    (h : (b = 91 ∧ t = .openArray) ∨ (b = 93 ∧ t = .closeArray) ∨ (b = 123 ∧ t = .openObject) ∨
      (b = 125 ∧ t = .closeObject) ∨ (b = 44 ∧ t = .comma) ∨ (b = 58 ∧ t = .colon))
    (hrest : Scans rest ts tail) : Scans (b :: rest) (t :: ts) tail := by
  rcases h with ⟨rfl, rfl⟩ | ⟨rfl, rfl⟩ | ⟨rfl, rfl⟩ | ⟨rfl, rfl⟩ | ⟨rfl, rfl⟩ | ⟨rfl, rfl⟩ <;>
    refine Scans.token ?_ (by decide) (by simp) (Nat.le_refl _) hrest <;> rfl

theorem ends_itemsTail (hs : style.Blank) (depth depth' : Nat) (items : List Value) (rest : Bytes) :
    Decimal.Ends (writeItems style depth items ++ (style.line depth' ++ 93 :: rest)) := by
  cases items with
  | nil => exact Decimal.ends_blanks (hs.line _) (Decimal.ends_sign (by simp) _)
  | cons item items => exact Decimal.ends_sign (by simp) _

theorem ends_membersTail (hs : style.Blank) (depth depth' : Nat) (members : List (String × Value))
    (rest : Bytes) :
    Decimal.Ends (writeMembers style depth members ++ (style.line depth' ++ 125 :: rest)) := by
  cases members with
  | nil => exact Decimal.ends_blanks (hs.line _) (Decimal.ends_sign (by simp) _)
  | cons member members => exact Decimal.ends_sign (by simp) _

mutual

theorem scans_writeAt (hs : style.Blank) (depth : Nat) (v : Value) (hv : v.Fits) {rest : Bytes}
    {ts : List Token} (hrest : Decimal.Ends rest) (h : Scans rest ts tail) :
    Scans (v.writeAt style depth ++ rest) (v.tokens ++ ts) tail := by
  cases v with
  | number n => exact Scans.number n hv hrest h
  | text s => exact Scans.text s h
  | array items =>
    cases items with
    | nil => exact scans_sign (by simp) (scans_sign (by simp) h)
    | cons item items =>
      obtain ⟨hitem, hitems⟩ := hv
      have hclose := Scans.blanks (hs.line depth)
        (scans_sign (b := 93) (t := .closeArray) (by simp) h)
      have hmore := scans_writeItems hs (depth + 1) items hitems
        (Decimal.ends_blanks (hs.line _) (Decimal.ends_sign (by simp) _)) hclose
      have hfirst := scans_writeAt hs (depth + 1) item hitem
        (ends_itemsTail hs (depth + 1) depth items rest) hmore
      have hopen := scans_sign (b := 91) (t := .openArray) (by simp)
        (Scans.blanks (hs.line (depth + 1)) hfirst)
      simpa [writeAt, tokens, List.append_assoc] using hopen
  | object members =>
    cases members with
    | nil => exact scans_sign (by simp) (scans_sign (by simp) h)
    | cons member members =>
      obtain ⟨hmember, hmembers⟩ := hv
      have hclose := Scans.blanks (hs.line depth)
        (scans_sign (b := 125) (t := .closeObject) (by simp) h)
      have hmore := scans_writeMembers hs (depth + 1) members hmembers
        (Decimal.ends_blanks (hs.line _) (Decimal.ends_sign (by simp) _)) hclose
      have hfirst := scans_writeMember hs (depth + 1) member hmember
        (ends_membersTail hs (depth + 1) depth members rest) hmore
      have hopen := scans_sign (b := 123) (t := .openObject) (by simp)
        (Scans.blanks (hs.line (depth + 1)) hfirst)
      simpa [writeAt, tokens, List.append_assoc] using hopen

theorem scans_writeItems (hs : style.Blank) (depth : Nat) (items : List Value)
    (hv : FitsAll items) {rest : Bytes} {ts : List Token} (hrest : Decimal.Ends rest)
    (h : Scans rest ts tail) :
    Scans (writeItems style depth items ++ rest) (itemTokens items ++ ts) tail := by
  cases items with
  | nil => exact h
  | cons item items =>
    obtain ⟨hitem, hitems⟩ := hv
    have hmore := scans_writeItems hs depth items hitems hrest h
    have hends : Decimal.Ends (writeItems style depth items ++ rest) := by
      cases items with
      | nil => exact hrest
      | cons item items => exact Decimal.ends_sign (by simp) _
    have hfirst := scans_writeAt hs depth item hitem hends hmore
    have hcomma := scans_sign (b := 44) (t := .comma) (by simp)
      (Scans.blanks (hs.line depth) hfirst)
    simpa [writeItems, itemTokens, List.append_assoc] using hcomma

theorem scans_writeMember (hs : style.Blank) (depth : Nat) (member : String × Value)
    (hv : FitsMember member) {rest : Bytes} {ts : List Token} (hrest : Decimal.Ends rest)
    (h : Scans rest ts tail) :
    Scans (writeMember style depth member ++ rest) (memberTokens member ++ ts) tail := by
  obtain ⟨name, value⟩ := member
  have hvalue := scans_writeAt hs depth value hv hrest h
  have hcolon := scans_sign (b := 58) (t := .colon) (by simp) (Scans.blanks hs.gap hvalue)
  have hname := Scans.text name hcolon
  simpa [writeMember, memberTokens, List.append_assoc] using hname

theorem scans_writeMembers (hs : style.Blank) (depth : Nat) (members : List (String × Value))
    (hv : FitsMembers members) {rest : Bytes} {ts : List Token} (hrest : Decimal.Ends rest)
    (h : Scans rest ts tail) :
    Scans (writeMembers style depth members ++ rest) (membersTokens members ++ ts) tail := by
  cases members with
  | nil => exact h
  | cons member members =>
    obtain ⟨hmember, hmembers⟩ := hv
    have hmore := scans_writeMembers hs depth members hmembers hrest h
    have hends : Decimal.Ends (writeMembers style depth members ++ rest) := by
      cases members with
      | nil => exact hrest
      | cons member members => exact Decimal.ends_sign (by simp) _
    have hfirst := scans_writeMember hs depth member hmember hends hmore
    have hcomma := scans_sign (b := 44) (t := .comma) (by simp)
      (Scans.blanks (hs.line depth) hfirst)
    simpa [writeMembers, membersTokens, List.append_assoc] using hcomma

end

theorem scan_write (hs : style.Blank) (v : Value) (hv : v.Fits) :
    Token.scan (v.write style) = v.tokens := by
  have h : Scans (v.writeAt style 0 ++ []) (v.tokens ++ []) [] :=
    scans_writeAt hs 0 v hv (fun b hb => by simp at hb) (Scans.refl [])
  simpa [write] using h.scan

/-- Reading finds what was written. -/
theorem read_write (hs : style.Blank) (v : Value) (hv : v.Fits) :
    Document.read (v.write style) = ⟨v.reading, false⟩ := by
  rw [Document.read, scan_write hs v hv]
  have := foldl_step_tokens [] v
  rw [Cursor.start, this]
  rfl

end Value

end Envelope.Json

import Envelope.Key
import Envelope.Lists

/-!
# Maps and sets of public keys

A map keeps its entries in the order of the keys, each key once, so that equal
maps have equal entries and the order of insertion leaves no trace.
-/

namespace Envelope

/-- A map from public keys, in the order of the keys. -/
@[ext] structure KeyMap (β : Type) where
  entries : List (PublicKey × β)
  sorted : entries.Pairwise (·.1 < ·.1)
deriving DecidableEq

namespace KeyMap

variable {β : Type}

def empty : KeyMap β := ⟨[], .nil⟩

def find? (m : KeyMap β) (key : PublicKey) : Option β :=
  (m.entries.find? (·.1 = key)).map (·.2)

def contains (m : KeyMap β) (key : PublicKey) : Bool :=
  (m.find? key).isSome

def keys (m : KeyMap β) : List PublicKey :=
  m.entries.map (·.1)

/-- Puts an entry in its place, instead of one with the same key. -/
def insertEntry (key : PublicKey) (value : β) : List (PublicKey × β) → List (PublicKey × β)
  | [] => [(key, value)]
  | entry :: rest =>
    if key < entry.1 then (key, value) :: entry :: rest
    else if key = entry.1 then (key, value) :: rest
    else entry :: insertEntry key value rest

theorem mem_insertEntry {key : PublicKey} {value : β} {entries : List (PublicKey × β)}
    {e : PublicKey × β} (h : e ∈ insertEntry key value entries) :
    e = (key, value) ∨ e ∈ entries := by
  induction entries with
  | nil => simpa [insertEntry] using h
  | cons entry rest ih =>
    unfold insertEntry at h
    split at h
    · simpa using h
    · split at h
      · simp only [List.mem_cons] at h ⊢
        exact h.imp_right .inr
      · simp only [List.mem_cons] at h ⊢
        rcases h with h | h
        · exact .inr (.inl h)
        · exact (ih h).imp_right .inr

theorem sorted_insertEntry (key : PublicKey) (value : β) {entries : List (PublicKey × β)}
    (h : entries.Pairwise (·.1 < ·.1)) : (insertEntry key value entries).Pairwise (·.1 < ·.1) := by
  induction entries with
  | nil => simp [insertEntry]
  | cons entry rest ih =>
    obtain ⟨hhead, htail⟩ := List.pairwise_cons.1 h
    unfold insertEntry
    split
    · rename_i hlt
      refine List.pairwise_cons.2 ⟨fun e he => ?_, h⟩
      rcases List.mem_cons.1 he with rfl | he
      · exact hlt
      · exact PublicKey.lt_trans hlt (hhead e he)
    · split
      · rename_i heq
        subst heq
        exact List.pairwise_cons.2 ⟨hhead, htail⟩
      · rename_i hnot hne
        refine List.pairwise_cons.2 ⟨fun e he => ?_, ih htail⟩
        rcases mem_insertEntry he with rfl | he
        · exact ((PublicKey.lt_trichotomy key entry.1).resolve_left hnot).resolve_left hne
        · exact hhead e he

/-- The map with one more entry; an older one with the same key is replaced. -/
def insert (m : KeyMap β) (key : PublicKey) (value : β) : KeyMap β :=
  ⟨insertEntry key value m.entries, sorted_insertEntry key value m.sorted⟩

def erase (m : KeyMap β) (key : PublicKey) : KeyMap β :=
  ⟨m.entries.filter (·.1 ≠ key), m.sorted.filter _⟩

/-- The map of a list of entries; of several with one key the last one stays. -/
def ofList (entries : List (PublicKey × β)) : KeyMap β :=
  entries.foldl (fun m entry => m.insert entry.1 entry.2) empty

/-! ## What is found -/

theorem nodup_keys (m : KeyMap β) : m.keys.Nodup :=
  List.pairwise_map.2 (m.sorted.imp fun h => PublicKey.ne_of_lt h)

/-- The entries are what is found. -/
theorem mem_entries_iff {m : KeyMap β} {key : PublicKey} {value : β} :
    (key, value) ∈ m.entries ↔ m.find? key = some value := by
  constructor
  · intro h
    exact congrArg (Option.map Prod.snd) (List.find?_fst_of_mem m.nodup_keys h)
  · intro h
    obtain ⟨e, he, rfl⟩ := Option.map_eq_some_iff.1 h
    have hkey : e.1 = key := by simpa using List.find?_some he
    exact hkey ▸ List.mem_of_find?_eq_some he

/-- A map is what is found in it. -/
theorem ext_find? {m n : KeyMap β} (h : ∀ key, m.find? key = n.find? key) : m = n := by
  have hmem : ∀ e, e ∈ m.entries ↔ e ∈ n.entries := fun (key, value) => by
    rw [mem_entries_iff, mem_entries_iff, h]
  refine KeyMap.ext (List.Perm.eq_of_pairwise ?_ m.sorted n.sorted ?_)
  · intro a b _ _ hab hba
    exact absurd hba (PublicKey.lt_asymm hab)
  · have nodup (k : KeyMap β) : k.entries.Nodup :=
      k.sorted.imp fun {a b} (h : a.1 < b.1) (e : a = b) => PublicKey.lt_irrefl b.1 (e ▸ h)
    exact (List.perm_ext_iff_of_nodup (nodup m) (nodup n)).2 hmem

@[simp] theorem find?_empty (key : PublicKey) : (empty : KeyMap β).find? key = none := rfl

theorem find?_insertEntry (key other : PublicKey) (value : β) {entries : List (PublicKey × β)}
    (h : entries.Pairwise (·.1 < ·.1)) :
    ((insertEntry key value entries).find? (·.1 = other)).map (·.2) =
      if key = other then some value else (entries.find? (·.1 = other)).map (·.2) := by
  induction entries with
  | nil => by_cases ho : key = other <;> simp [insertEntry, ho]
  | cons entry rest ih =>
    obtain ⟨_, htail⟩ := List.pairwise_cons.1 h
    unfold insertEntry
    split
    · by_cases ho : key = other <;> simp [ho]
    · split
      · rename_i heq
        subst heq
        by_cases ho : entry.1 = other <;> simp [ho]
      · rename_i hne
        by_cases he : entry.1 = other
        · have ho : key ≠ other := fun e => hne (e.trans he.symm)
          simp [he, ho]
        · have hrest := ih htail
          simpa [he] using hrest

theorem find?_insert (m : KeyMap β) (key other : PublicKey) (value : β) :
    (m.insert key value).find? other = if key = other then some value else m.find? other :=
  find?_insertEntry key other value m.sorted

theorem find?_erase (m : KeyMap β) (key other : PublicKey) :
    (m.erase key).find? other = if key = other then none else m.find? other := by
  simp only [find?, erase, List.find?_filter]
  split
  · rename_i h
    subst h
    simp
  · rename_i h
    have : (fun e : PublicKey × β => !decide (e.1 = key) && decide (e.1 = other)) =
        fun e => decide (e.1 = other) := by
      funext e
      by_cases he : e.1 = other
      · simp [he, Ne.symm h]
      · simp [he]
    simp [this]

theorem mem_keys_iff {m : KeyMap β} {key : PublicKey} : key ∈ m.keys ↔ m.contains key = true := by
  simp only [keys, contains, List.mem_map, Option.isSome_iff_exists]
  constructor
  · rintro ⟨⟨k, value⟩, he, rfl⟩
    exact ⟨value, mem_entries_iff.1 he⟩
  · rintro ⟨value, h⟩
    exact ⟨(key, value), mem_entries_iff.2 h, rfl⟩

end KeyMap

/-- A set of public keys, in the order of the keys. -/
abbrev KeySet := KeyMap Unit

namespace KeySet

def ofKeys (keys : List PublicKey) : KeySet :=
  KeyMap.ofList (keys.map fun key => (key, ()))

end KeySet

end Envelope

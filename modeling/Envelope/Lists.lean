/-!
# Lists

What the library leaves out about taking, finding and replacing elements.
-/

namespace List

variable {α β : Type}

/-- Enough elements for two parts leave enough for the second one. -/
theorem le_length_drop {l : List α} {taken more : Nat} (h : taken + more ≤ l.length) :
    more ≤ (l.drop taken).length := by
  rw [length_drop]
  omega

/-- Putting an element in another one's place keeps the rest. -/
theorem eq_or_mem_append_cons {front back : List α} {x y a : α} (h : a ∈ front ++ x :: back) :
    a = x ∨ a ∈ front ++ y :: back := by
  simp only [mem_append, mem_cons] at h ⊢
  rcases h with h | h | h
  · exact .inr (.inl h)
  · exact .inl h
  · exact .inr (.inr (.inr h))

theorem eraseDups_of_nodup [BEq α] [LawfulBEq α] {l : List α} (h : l.Nodup) :
    l.eraseDups = l := by
  induction l with
  | nil => rfl
  | cons a rest ih =>
    obtain ⟨ha, hrest⟩ := nodup_cons.1 h
    have hfilter : rest.filter (fun b => !b == a) = rest := by
      apply filter_eq_self.2
      intro b hb
      have hne : b ≠ a := fun he => ha (he ▸ hb)
      simp [hne]
    rw [eraseDups_cons, hfilter, ih hrest]

/-- Where keys are used once, a search by key finds what stands under it. -/
theorem find?_fst_of_mem [DecidableEq α] {entries : List (α × β)}
    (hnodup : (entries.map Prod.fst).Nodup) {entry : α × β} (h : entry ∈ entries) :
    entries.find? (·.1 = entry.1) = some entry := by
  induction entries with
  | nil => cases h
  | cons first rest ih =>
    rw [map_cons, nodup_cons] at hnodup
    rcases mem_cons.1 h with rfl | h
    · simp
    · have hne : first.1 ≠ entry.1 := fun hkey => hnodup.1 (hkey ▸ mem_map_of_mem h)
      rw [find?_cons_of_neg (by simpa using hne)]
      exact ih hnodup.2 h

theorem find?_fst_eq_some_iff [DecidableEq α] {entries : List (α × β)}
    (hnodup : (entries.map Prod.fst).Nodup) {key : α} {entry : α × β} :
    entries.find? (·.1 = key) = some entry ↔ entry ∈ entries ∧ entry.1 = key := by
  constructor
  · intro h
    exact ⟨mem_of_find?_eq_some h, by simpa using find?_some h⟩
  · rintro ⟨h, rfl⟩
    exact find?_fst_of_mem hnodup h

end List

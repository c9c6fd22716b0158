/-! Look-up by name in a list of named values. The first of a name is found; where no name stands
twice, whatever is there is found. -/
namespace SyntaxAudit

variable {α : Type} {entries : List (String × α)} {key : String}

theorem lookupCons (other k : String) (v : α) (rest : List (String × α)) :
    ((k, v) :: rest).lookup other = if other = k then some v else rest.lookup other := by
  by_cases same : other = k
  · simp [same]
  · have test : (other == k) = false := beq_eq_false_iff_ne.mpr same
    simp only [List.lookup_cons, test, if_neg same]

theorem lookupAbsent : entries.lookup key = none ↔ key ∉ entries.map Prod.fst := by
  rw [List.lookup_eq_none_iff]
  constructor
  · intro apart taken
    obtain ⟨e, mem, rfl⟩ := List.mem_map.mp taken
    simpa using apart e mem
  · intro absent e mem
    have apart : key ≠ e.1 := fun same => absent (same ▸ List.mem_map_of_mem mem)
    simpa using apart

theorem memOfLookup {value : α} (found : entries.lookup key = some value) :
    (key, value) ∈ entries := by
  obtain ⟨front, back, split, _⟩ := List.lookup_eq_some_iff.mp found
  exact split ▸ List.mem_append_right front List.mem_cons_self

theorem lookupOfMem {e : String × α} (distinct : (entries.map Prod.fst).Nodup) (mem : e ∈ entries) :
    entries.lookup e.1 = some e.2 := by
  induction entries with
  | nil => contradiction
  | cons entry rest ih =>
    obtain ⟨fresh, distinct⟩ := List.nodup_cons.mp distinct
    rw [lookupCons]
    rcases List.mem_cons.mp mem with rfl | inside
    · exact if_pos rfl
    · have apart : e.1 ≠ entry.1 := fun same => fresh (same ▸ List.mem_map_of_mem inside)
      rw [if_neg apart]
      exact ih distinct inside

theorem lookupFilter (keep : String → Bool) (entries : List (String × α)) (key : String) :
    (entries.filter fun e => keep e.1).lookup key =
      if keep key then entries.lookup key else none := by
  induction entries with
  | nil => simp
  | cons head rest ih =>
    obtain ⟨k, v⟩ := head
    rw [List.filter_cons]
    by_cases kept : keep k
    · rw [if_pos kept, lookupCons, lookupCons, ih]
      by_cases same : key = k
      · simp [same, kept]
      · simp [same]
    · rw [if_neg kept, ih, lookupCons]
      by_cases same : key = k
      · simp [same, kept]
      · simp [same]

end SyntaxAudit

import SyntaxAudit.Proofs.Lookup
import SyntaxAudit.Proofs.Text
import SyntaxAudit.Rule.Metadata

/-! Settings seen through look-up. A write and an erasure change one key and no other. Stores that
answer every look-up alike are equal, so a value that is put back leaves no trace. A number is read
exactly if the text under the key denotes it. -/
namespace SyntaxAudit

theorem lookupInsertEntry (key other value : String) (entries : List (String × String)) :
    (insertEntry key value entries).lookup other =
      if other = key then some value else entries.lookup other := by
  induction entries with
  | nil => simp only [insertEntry, lookupCons, List.lookup_nil]
  | cons head rest ih =>
    obtain ⟨k, v⟩ := head
    simp only [insertEntry]
    split
    · rw [lookupCons]
    · split
      · rename_i taken
        subst taken
        simp only [lookupCons]
        split <;> rfl
      · rename_i apart
        simp only [lookupCons, ih]
        by_cases same : other = k
        · simp [same, Ne.symm apart]
        · simp only [if_neg same]

theorem lookupHeadAbsent {k v : String} {rest : List (String × String)}
    (h : Ascending ((k, v) :: rest)) : rest.lookup k = none := by
  refine lookupAbsent.mpr fun taken => ?_
  obtain ⟨e, mem, same⟩ := List.mem_map.mp taken
  exact String.lt_irrefl k (same ▸ (List.pairwise_cons.mp h).1 e mem)

theorem lookupBelow {k k' v' : String} {rest : List (String × String)} (less : k < k')
    (h : Ascending ((k', v') :: rest)) : ((k', v') :: rest).lookup k = none := by
  have apart : k ≠ k' := fun same => String.lt_irrefl k (same ▸ less)
  rw [lookupCons, if_neg apart]
  refine lookupHeadAbsent (v := v') (List.pairwise_cons.mpr ⟨fun e mem => ?_, ?_⟩)
  · exact String.lt_trans less ((List.pairwise_cons.mp h).1 e mem)
  · exact (List.pairwise_cons.mp h).2

/- The first keys have to agree: the lesser of two would be found on one side only. -/
theorem entriesExt {left right : List (String × String)} (hl : Ascending left)
    (hr : Ascending right) (same : ∀ key, left.lookup key = right.lookup key) : left = right := by
  induction left generalizing right with
  | nil =>
    cases right with
    | nil => rfl
    | cons head rest =>
      obtain ⟨k, v⟩ := head
      have absent := same k
      simp at absent
  | cons head rest ih =>
    obtain ⟨k, v⟩ := head
    cases right with
    | nil =>
      have absent := same k
      simp at absent
    | cons head' rest' =>
      obtain ⟨k', v'⟩ := head'
      have keys : k = k' := by
        rcases Std.lt_trichotomy k k' with less | equal | greater
        · have absent := same k
          simp [lookupBelow less hr] at absent
        · exact equal
        · have absent := same k'
          simp [lookupBelow greater hl] at absent
      subst keys
      have values : v = v' := by simpa [lookupCons] using same k
      subst values
      have rests : ∀ key, rest.lookup key = rest'.lookup key := by
        intro key
        by_cases equal : key = k
        · rw [equal, lookupHeadAbsent hl, lookupHeadAbsent hr]
        · simpa only [lookupCons, if_neg equal] using same key
      rw [ih (List.pairwise_cons.mp hl).2 (List.pairwise_cons.mp hr).2 rests]

namespace Settings

theorem getSet (s : Settings) (key value other : String) :
    (s.set key value).get? other = if other = key then some value else s.get? other :=
  lookupInsertEntry key other value s.entries

theorem getErase (s : Settings) (key other : String) :
    (s.erase key).get? other = if other = key then none else s.get? other := by
  have kept := lookupFilter (fun k => decide (k ≠ key)) s.entries other
  rw [get?, erase, kept]
  by_cases same : other = key <;> simp [same, get?]

theorem equalOfGet {s u : Settings} (same : ∀ key, s.get? key = u.get? key) : s = u := by
  obtain ⟨entries, ascending⟩ := s
  obtain ⟨entries', ascending'⟩ := u
  have equal : entries = entries' := entriesExt ascending ascending' same
  subst equal
  rfl

theorem eraseSet {s : Settings} {key : String} (absent : s.get? key = none) (value : String) :
    (s.set key value).erase key = s := by
  apply equalOfGet
  intro other
  rw [getErase, getSet]
  by_cases same : other = key
  · rw [if_pos same, same, absent]
  · rw [if_neg same, if_neg same]

theorem setSet {s : Settings} {key previous : String} (present : s.get? key = some previous)
    (value : String) : (s.set key value).set key previous = s := by
  apply equalOfGet
  intro other
  rw [getSet, getSet]
  by_cases same : other = key
  · rw [if_pos same, same, present]
  · rw [if_neg same, if_neg same]

theorem naturalIff (s : Settings) (limit : Nat) (key : String) (n : Nat) :
    s.natural? limit key = some n ↔
      ∃ text, s.get? key = some text ∧ Text.Denotes text.toList n ∧ n < limit := by
  rw [natural?, trimmed?, Option.bind_map, Option.bind_eq_some_iff]
  exact exists_congr fun text => and_congr_right fun _ => Text.denotesIff limit text.toList n

end Settings
end SyntaxAudit

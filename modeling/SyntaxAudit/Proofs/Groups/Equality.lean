import Mathlib.Data.List.Perm.Subperm
import SyntaxAudit.Proofs.Groups

/-! When groups are the same. The order of the groups does not count, that of the nodes in a group
does: groups of two lists are the same exactly if the lists agree kind by kind. Grouping what stands in
the groups, one group after the other, puts everything where it was. -/
namespace SyntaxAudit

variable {N : Type}

theorem pushEntryBehind {kind : String} {front : List (String × List N)}
    (fresh : kind ∉ front.map Prod.fst) (n : N) (entries : List (String × List N)) :
    pushEntry kind n (front ++ entries) = front ++ pushEntry kind n entries := by
  induction front with
  | nil => rfl
  | cons entry rest ih =>
    obtain ⟨k, ns⟩ := entry
    obtain ⟨apart, fresh⟩ := List.ne_and_not_mem_of_not_mem_cons fresh
    rw [List.cons_append, pushEntry, if_neg (Ne.symm apart), ih fresh, List.cons_append]

namespace Groups

theorem keysLength (g : Groups N) : g.keys.length = g.size := List.length_map _

theorem keysNodup (g : Groups N) : g.keys.Nodup := g.nodup

theorem getNone {g : Groups N} {kind : String} : g.get? kind = none ↔ kind ∉ g.keys := lookupAbsent

theorem equalOfKeys {g h : Groups N} (keys : g.keys = h.keys)
    (alike : ∀ kind, g.get? kind = h.get? kind) : g = h := by
  apply equalOfEntries
  rw [entriesFromKeys, entriesFromKeys h, keys]
  simp only [alike]

theorem sameIff [DecidableEq N] (g h : Groups N) :
    g.same h ↔ ∀ kind, g.get? kind = h.get? kind := by
  have test : g.same h ↔ g.size = h.size ∧ ∀ e ∈ g.entries, h.get? e.1 = some e.2 := by
    simp only [same, Bool.and_eq_true, beq_iff_eq, List.all_eq_true]
  rw [test]
  constructor
  · intro ⟨sizes, there⟩ kind
    have listed : g.keys ⊆ h.keys := by
      intro key mem
      obtain ⟨e, inside, rfl⟩ := List.mem_map.mp mem
      by_contra absent
      rw [← getNone, there e inside] at absent
      cases absent
    -- As many kinds on either side, so none on the right is left over.
    have lengths : h.keys.length = g.keys.length := by rw [keysLength, keysLength, sizes]
    have keys : g.keys.Perm h.keys :=
      (g.keysNodup.subperm listed).perm_of_length_le (Nat.le_of_eq lengths)
    cases own : g.get? kind with
    | none => exact (getNone.mpr fun mem => getNone.mp own (keys.mem_iff.mpr mem)).symm
    | some ns => exact (there (kind, ns) (memOfLookup own)).symm
  · intro alike
    have keys : g.keys.Perm h.keys := by
      refine (List.perm_ext_iff_of_nodup g.keysNodup h.keysNodup).mpr fun kind => ?_
      rw [← not_iff_not, ← getNone, ← getNone, alike]
    refine ⟨by rw [← keysLength, keys.length_eq, keysLength], fun e mem => ?_⟩
    rw [← alike]
    exact lookupOfMem g.nodup mem

end Groups

section Kinds
variable [Kinded N]

theorem ofKindExchanged (before after : List N) (a b : N) :
    (∀ kind, ofKind kind (before ++ a :: b :: after) = ofKind kind (before ++ b :: a :: after)) ↔
      Kinded.kind a ≠ Kinded.kind b ∨ a = b := by
  simp only [ofKind, List.filter_append, List.append_cancel_left_eq, List.filter_cons]
  constructor
  · intro same
    by_cases kinds : Kinded.kind a = Kinded.kind b
    · have own := same (Kinded.kind a)
      simp only [kinds, decide_true, if_true] at own
      exact .inr (List.cons.inj own).1
    · exact .inl kinds
  · rintro (apart | rfl) kind
    · by_cases own : Kinded.kind a = kind
      · have other : Kinded.kind b ≠ kind := fun same => apart (own.trans same.symm)
        simp only [other, decide_false, Bool.false_eq_true, if_false]
      · simp only [own, decide_false, Bool.false_eq_true, if_false]
    · rfl

theorem kindsAppend (xs ys : List N) :
    kinds (xs ++ ys) = kinds xs ++ ((ys.map Kinded.kind).removeAll (xs.map Kinded.kind)).eraseDups := by
  rw [kinds, List.map_append, List.eraseDups_append, kinds]

theorem kindsExchanged (before after : List N) (a b : N) :
    kinds (before ++ a :: b :: after) = kinds (before ++ b :: a :: after) ↔
      Kinded.kind a = Kinded.kind b ∨ Kinded.kind a ∈ kinds before ∨ Kinded.kind b ∈ kinds before := by
  have apart : ∀ x y, kinds (before ++ x :: y :: after) = kinds (before ++ [x] ++ [y]) ++
      ((after.map Kinded.kind).removeAll ((before ++ [x] ++ [y]).map Kinded.kind)).eraseDups := by
    intro x y
    rw [← kindsAppend, List.append_assoc, List.append_assoc]
    rfl
  -- What comes after the two is new behind both orders of them or behind neither.
  have later : (after.map Kinded.kind).removeAll ((before ++ [a] ++ [b]).map Kinded.kind) =
      (after.map Kinded.kind).removeAll ((before ++ [b] ++ [a]).map Kinded.kind) := by
    refine List.filter_congr fun kind _ => ?_
    simp [or_comm]
  rw [apart, apart, later, List.append_cancel_right_eq]
  simp only [kindsSnoc]
  by_cases equal : Kinded.kind a = Kinded.kind b
  · simp [equal]
  · by_cases first : Kinded.kind a ∈ kinds before
    · by_cases second : Kinded.kind b ∈ kinds before <;> simp [first, second]
    · by_cases second : Kinded.kind b ∈ kinds before
      · simp [first, second]
      · simp [first, second, equal, Ne.symm equal]

def pushAll (ns : List N) (entries : List (String × List N)) : List (String × List N) :=
  ns.foldl (fun entries n => pushEntry (Kinded.kind n) n entries) entries

def Filled (entries : List (String × List N)) : Prop :=
  ∀ e ∈ entries, e.2 ≠ [] ∧ ∀ n ∈ e.2, Kinded.kind n = e.1

section Refilling
variable {kind : String} {ns : List N} {front : List (String × List N)}

theorem pushAllBehind (fresh : kind ∉ front.map Prod.fst) (own : ∀ n ∈ ns, Kinded.kind n = kind)
    (entries : List (String × List N)) : pushAll ns (front ++ entries) = front ++ pushAll ns entries := by
  induction ns generalizing entries with
  | nil => rfl
  | cons n rest ih =>
    have first : kind = Kinded.kind n := (own n List.mem_cons_self).symm
    simp only [pushAll, List.foldl_cons]
    rw [pushEntryBehind (first ▸ fresh)]
    exact ih (fun m mem => own m (List.mem_cons_of_mem n mem)) _

theorem pushAllOne (own : ∀ n ∈ ns, Kinded.kind n = kind) (ms : List N) :
    pushAll ns [(kind, ms)] = [(kind, ms ++ ns)] := by
  induction ns generalizing ms with
  | nil => rw [List.append_nil]; rfl
  | cons n rest ih =>
    have first : Kinded.kind n = kind := own n List.mem_cons_self
    have next := ih (fun m mem => own m (List.mem_cons_of_mem n mem)) (ms ++ [n])
    rw [List.append_assoc, List.singleton_append] at next
    rw [← next, pushAll, List.foldl_cons, first, pushEntry, if_pos rfl]
    rfl

theorem pushAllGroup (fresh : kind ∉ front.map Prod.fst) (some : ns ≠ [])
    (own : ∀ n ∈ ns, Kinded.kind n = kind) : pushAll ns front = front ++ [(kind, ns)] := by
  have behind := pushAllBehind fresh own []
  rw [List.append_nil] at behind
  rw [behind]
  cases ns with
  | nil => contradiction
  | cons n rest =>
    have first : Kinded.kind n = kind := own n List.mem_cons_self
    have rest := pushAllOne (fun m mem => own m (List.mem_cons_of_mem n mem)) [n]
    rw [List.singleton_append] at rest
    rw [← rest, pushAll, List.foldl_cons, first]
    rfl

theorem pushAllGroups (front entries : List (String × List N))
    (distinct : ((front ++ entries).map Prod.fst).Nodup) (filled : Filled entries) :
    pushAll (entries.flatMap Prod.snd) front = front ++ entries := by
  induction entries generalizing front with
  | nil => exact (List.append_nil front).symm
  | cons e rest ih =>
    obtain ⟨⟨some, first⟩, others⟩ := List.forall_mem_cons.mp filled
    have fresh : e.1 ∉ front.map Prod.fst := by
      rw [List.map_append, List.map_cons] at distinct
      exact fun mem => (List.nodup_append.mp distinct).2.2 e.1 mem e.1 List.mem_cons_self rfl
    -- The kind is new, so its nodes make up one more group at the end.
    have grouped : pushAll e.2 front = front ++ [e] := pushAllGroup fresh some first
    have joined : front ++ e :: rest = front ++ [e] ++ rest := by simp
    rw [joined] at distinct ⊢
    rw [List.flatMap_cons, ← ih (front ++ [e]) distinct others, ← grouped, pushAll, List.foldl_append]
    rfl

end Refilling

namespace Groups

theorem entriesPushes (ns : List N) (g : Groups N) :
    (ns.foldl push g).entries = pushAll ns g.entries := by
  induction ns generalizing g with
  | nil => rfl
  | cons n rest ih => exact ih (g.push n)

theorem regrouped {g : Groups N} (filled : Filled g.entries) :
    ofList (g.entries.flatMap Prod.snd) = g := by
  apply equalOfEntries
  rw [ofList, entriesPushes]
  exact pushAllGroups [] g.entries g.nodup filled

theorem Sorts.filled {g : Groups N} {ns : List N} (sorts : g.Sorts ns) : Filled g.entries := by
  intro e mem
  rw [sorts.entries] at mem
  obtain ⟨kind, listed, rfl⟩ := List.mem_map.mp mem
  refine ⟨fun empty => ofKindEmpty.mp empty listed, fun n inside => ?_⟩
  exact of_decide_eq_true (List.mem_filter.mp inside).2

theorem keysOfList (ns : List N) : (ofList ns).keys = kinds ns := (sortsOfList ns).keys

variable [DecidableEq N]

theorem sameOfList (xs ys : List N) :
    (ofList xs).same (ofList ys) ↔ ∀ kind, ofKind kind xs = ofKind kind ys := by
  have left := sortsOfList xs
  have right := sortsOfList ys
  rw [sameIff]
  constructor
  · intro alike kind
    rw [← left.group, ← right.group, alike]
  · intro agree kind
    have listed : kind ∈ kinds xs ↔ kind ∈ kinds ys := by
      rw [← not_iff_not, ← ofKindEmpty, ← ofKindEmpty, agree]
    simp only [left.get, right.get, listed, agree]

theorem sameUpToOrder (xs ys : List N) :
    ((ofList xs).same (ofList ys) ↔ ∀ kind,
      (xs.filter fun n => Kinded.kind n = kind) = ys.filter fun n => Kinded.kind n = kind) ∧
    (ofList xs = ofList ys ↔ (ofList xs).same (ofList ys) ∧ (ofList xs).keys = (ofList ys).keys) ∧
    (∀ (before after : List N) (a b : N),
      ((ofList (before ++ a :: b :: after)).same (ofList (before ++ b :: a :: after)) ↔
        Kinded.kind a ≠ Kinded.kind b ∨ a = b) ∧
      ((ofList (before ++ a :: b :: after)).keys = (ofList (before ++ b :: a :: after)).keys ↔
        Kinded.kind a = Kinded.kind b ∨ Kinded.kind a ∈ (ofList before).keys ∨
          Kinded.kind b ∈ (ofList before).keys)) ∧
    (∀ n, ¬ (ofList xs).same (ofList (xs ++ [n]))) ∧
    ofList ((ofList xs).entries.flatMap Prod.snd) = ofList xs := by
  refine ⟨sameOfList xs ys, ⟨?_, ?_⟩, fun before after a b => ⟨?_, ?_⟩, fun n same => ?_,
    regrouped (sortsOfList xs).filled⟩
  · intro equal
    rw [equal, sameIff]
    exact ⟨fun _ => rfl, rfl⟩
  · intro ⟨same, keys⟩
    exact equalOfKeys keys ((sameIff _ _).mp same)
  · rw [sameOfList, ofKindExchanged]
  · rw [keysOfList, keysOfList, keysOfList, kindsExchanged]
  · have own := (sameOfList _ _).mp same (Kinded.kind n)
    rw [ofKindSnoc, if_pos rfl] at own
    simp at own

end Groups
end Kinds
end SyntaxAudit

import SyntaxAudit.Proofs.Lookup
import SyntaxAudit.Rule.Basic

/-! Grouping as a stable partition. The kinds stand in the order in which they first occur, and the
group of a kind is what a filter leaves of the nodes. One more node changes the group of its own
kind and no other; what holds of a list of nodes follows push by push. A map that keeps the kind of every
node may be applied before the nodes are grouped or after. -/
namespace SyntaxAudit

variable {N M σ : Type}

theorem mapNodesPure (f : N → M) (ns : List N) (s : σ) :
    mapNodes (fun n s => (f n, s)) ns s = (ns.map f, s) := by
  induction ns with
  | nil => rfl
  | cons n rest ih => simp only [mapNodes, ih, List.map_cons]

theorem mapEntriesPure (f : N → M) (entries : List (String × List N)) (s : σ) :
    mapEntries (fun n s => (f n, s)) entries s =
      (entries.map fun entry => (entry.1, entry.2.map f), s) := by
  induction entries with
  | nil => rfl
  | cons entry rest ih => simp only [mapEntries, mapNodesPure, ih, List.map_cons]

theorem pushEntryMap (f : N → M) (kind : String) (n : N) (entries : List (String × List N)) :
    (pushEntry kind n entries).map (fun entry => (entry.1, entry.2.map f)) =
      pushEntry kind (f n) (entries.map fun entry => (entry.1, entry.2.map f)) := by
  induction entries with
  | nil => rfl
  | cons entry rest ih =>
    obtain ⟨k, ns⟩ := entry
    by_cases own : k = kind
    · simp [pushEntry, own]
    · simp [pushEntry, own, ih]

theorem pushEntryNodes (kind : String) (n : N) (entries : List (String × List N)) :
    ((pushEntry kind n entries).flatMap Prod.snd).Perm (entries.flatMap Prod.snd ++ [n]) := by
  induction entries with
  | nil => exact List.Perm.refl [n]
  | cons entry rest ih =>
    obtain ⟨k, ns⟩ := entry
    by_cases own : k = kind
    · simp only [pushEntry, if_pos own, List.flatMap_cons, List.append_assoc]
      exact List.perm_append_comm.append_left ns
    · simp only [pushEntry, if_neg own, List.flatMap_cons, List.append_assoc]
      exact ih.append_left ns

namespace Groups

theorem equalOfEntries {g h : Groups N} (same : g.entries = h.entries) : g = h := by
  cases g
  cases h
  cases same
  rfl

theorem entriesMap (f : N → M) (g : Groups N) :
    (g.map f).entries = g.entries.map fun entry => (entry.1, entry.2.map f) :=
  congrArg Prod.fst (mapEntriesPure f g.entries ())

section Kinds
variable [Kinded N] [Kinded M]

theorem pushMap {f : N → M} (kinds : ∀ n, Kinded.kind (f n) = Kinded.kind n) (g : Groups N)
    (n : N) : (g.push n).map f = (g.map f).push (f n) := by
  apply equalOfEntries
  rw [entriesMap]
  simp only [push, entriesMap, kinds]
  exact pushEntryMap f (Kinded.kind n) n g.entries

theorem foldPushMap {f : N → M} (kinds : ∀ n, Kinded.kind (f n) = Kinded.kind n) (ns : List N)
    (g : Groups N) : (ns.foldl push g).map f = (ns.map f).foldl push (g.map f) := by
  induction ns generalizing g with
  | nil => rfl
  | cons n rest ih => rw [List.foldl_cons, ih, pushMap kinds, List.map_cons, List.foldl_cons]

theorem ofListMap {f : N → M} (kinds : ∀ n, Kinded.kind (f n) = Kinded.kind n) (ns : List N) :
    (ofList ns).map f = ofList (ns.map f) :=
  foldPushMap kinds ns empty

theorem foldPushNodes (ns : List N) (g : Groups N) :
    ((ns.foldl push g).entries.flatMap Prod.snd).Perm (g.entries.flatMap Prod.snd ++ ns) := by
  induction ns generalizing g with
  | nil => exact List.Perm.of_eq (List.append_nil _).symm
  | cons n rest ih =>
    have step := pushEntryNodes (Kinded.kind n) n g.entries
    refine (ih (g.push n)).trans ((step.append_right rest).trans (List.Perm.of_eq ?_))
    rw [List.append_assoc, List.singleton_append]

theorem nodesOfList (ns : List N) : ((ofList ns).entries.flatMap Prod.snd).Perm ns :=
  foldPushNodes ns empty

theorem totalOfList (ns : List N) : (ofList ns).total = ns.length := (nodesOfList ns).length_eq

end Kinds
end Groups

theorem lookupPushEntry (kind other : String) (n : N) (entries : List (String × List N)) :
    (pushEntry kind n entries).lookup other =
      if other = kind then some ((entries.lookup other).getD [] ++ [n])
      else entries.lookup other := by
  induction entries with
  | nil => simp only [pushEntry, lookupCons, List.lookup_nil, Option.getD_none, List.nil_append]
  | cons entry rest ih =>
    obtain ⟨k, ns⟩ := entry
    by_cases own : k = kind
    · subst own
      simp only [pushEntry, if_true, lookupCons]
      by_cases asked : other = k
      · simp only [if_pos asked, Option.getD_some]
      · simp only [if_neg asked]
    · simp only [pushEntry, if_neg own, lookupCons, ih]
      by_cases asked : other = k
      · have apart : other ≠ kind := asked ▸ own
        simp only [if_pos asked, if_neg apart]
      · simp only [if_neg asked]

theorem keysPushEntry (kind : String) (n : N) (entries : List (String × List N)) :
    (pushEntry kind n entries).map Prod.fst =
      if kind ∈ entries.map Prod.fst then entries.map Prod.fst
      else entries.map Prod.fst ++ [kind] := by
  induction entries with
  | nil => rfl
  | cons entry rest ih =>
    obtain ⟨k, ns⟩ := entry
    by_cases own : k = kind
    · simp [pushEntry, own]
    · have apart : kind ≠ k := Ne.symm own
      simp only [pushEntry, if_neg own, List.map_cons, ih, List.mem_cons, apart, false_or]
      split <;> rfl

theorem Groups.entriesFromKeys (g : Groups N) :
    g.entries = g.keys.map fun kind => (kind, (g.get? kind).getD []) := by
  rw [Groups.keys, List.map_map]
  refine (List.map_id g.entries).symm.trans (List.map_congr_left fun e mem => ?_)
  have found : g.get? e.1 = some e.2 := lookupOfMem g.nodup mem
  simp only [id_eq, Function.comp_apply, found, Option.getD_some]

section Kinds
variable [Kinded N]

def ofKind (kind : String) (ns : List N) : List N := ns.filter fun n => Kinded.kind n = kind

def kinds (ns : List N) : List String := (ns.map Kinded.kind).eraseDups

theorem memKinds {kind : String} {ns : List N} :
    kind ∈ kinds ns ↔ ∃ n ∈ ns, Kinded.kind n = kind := by
  rw [kinds, List.mem_eraseDups, List.mem_map]

theorem ofKindEmpty {kind : String} {ns : List N} : ofKind kind ns = [] ↔ kind ∉ kinds ns := by
  rw [memKinds, ofKind, List.filter_eq_nil_iff]
  simp

theorem ofKindSnoc (kind : String) (ns : List N) (n : N) :
    ofKind kind (ns ++ [n]) =
      if kind = Kinded.kind n then ofKind kind ns ++ [n] else ofKind kind ns := by
  by_cases own : kind = Kinded.kind n
  · simp [ofKind, own]
  · simp [ofKind, own, Ne.symm own]

theorem kindsSnoc (ns : List N) (n : N) :
    kinds (ns ++ [n]) =
      if Kinded.kind n ∈ kinds ns then kinds ns else kinds ns ++ [Kinded.kind n] := by
  have test : Kinded.kind n ∈ kinds ns ↔ Kinded.kind n ∈ ns.map Kinded.kind := List.mem_eraseDups
  rw [kinds, List.map_append, List.eraseDups_append, List.map_singleton, List.cons_removeAll]
  by_cases old : Kinded.kind n ∈ ns.map Kinded.kind
  · rw [if_pos (test.mpr old), if_neg (by simpa using old)]
    exact List.append_nil _
  · rw [if_neg (mt test.mp old), if_pos (by simpa using old)]
    rfl

namespace Groups

theorem keysPush (g : Groups N) (n : N) :
    (g.push n).keys = if Kinded.kind n ∈ g.keys then g.keys else g.keys ++ [Kinded.kind n] :=
  keysPushEntry (Kinded.kind n) n g.entries

theorem getPush (g : Groups N) (n : N) (kind : String) :
    (g.push n).get? kind =
      if kind = Kinded.kind n then some ((g.get? kind).getD [] ++ [n]) else g.get? kind :=
  lookupPushEntry (Kinded.kind n) kind n g.entries

structure Sorts (g : Groups N) (ns : List N) : Prop where
  keys : g.keys = kinds ns
  get : ∀ kind, g.get? kind = if kind ∈ kinds ns then some (ofKind kind ns) else none

theorem Sorts.group {g : Groups N} {ns : List N} (sorts : g.Sorts ns) (kind : String) :
    (g.get? kind).getD [] = ofKind kind ns := by
  rw [sorts.get]
  split
  · rfl
  · rename_i absent
    exact (ofKindEmpty.mpr absent).symm

theorem sortsPush {g : Groups N} {ns : List N} (sorts : g.Sorts ns) (n : N) :
    (g.push n).Sorts (ns ++ [n]) := by
  refine ⟨?_, fun kind => ?_⟩
  · rw [keysPush, kindsSnoc, sorts.keys]
  · have found : kind ∈ kinds (ns ++ [n]) ↔ kind ∈ kinds ns ∨ kind = Kinded.kind n := by
      simp only [memKinds, List.mem_append, List.mem_singleton, or_and_right, exists_or,
        exists_eq_left]
      exact or_congr_right eq_comm
    rw [getPush, sorts.group, ofKindSnoc, sorts.get]
    by_cases own : kind = Kinded.kind n
    · rw [if_pos own, if_pos own, if_pos (found.mpr (.inr own))]
    · simp only [found, own, or_false, if_false]

theorem sortsPushes {g : Groups N} {ms : List N} (sorts : g.Sorts ms) (ns : List N) :
    (ns.foldl push g).Sorts (ms ++ ns) := by
  induction ns generalizing g ms with
  | nil => rwa [List.append_nil]
  | cons n rest ih =>
    have next := ih (sortsPush sorts n)
    rwa [List.append_assoc, List.singleton_append] at next

theorem sortsOfList (ns : List N) : (ofList ns).Sorts ns := by
  have start : (empty : Groups N).Sorts [] := ⟨rfl, fun _ => rfl⟩
  exact sortsPushes start ns

theorem Sorts.entries {g : Groups N} {ns : List N} (sorts : g.Sorts ns) :
    g.entries = (kinds ns).map fun kind => (kind, ofKind kind ns) := by
  rw [entriesFromKeys, sorts.keys]
  simp only [sorts.group]

theorem Sorts.count {g : Groups N} {ns : List N} (sorts : g.Sorts ns) (kind : String) :
    g.count kind = (ofKind kind ns).length := by
  rw [Groups.count, sorts.get]
  split
  · rfl
  · rename_i absent
    rw [ofKindEmpty.mpr absent]
    rfl

structure Counts (g : Groups N) (ns : List N) : Prop where
  one : ∀ kind, g.count kind = (ofKind kind ns).length
  each : g.counts = (kinds ns).map fun kind => (kind, (ofKind kind ns).length)
  groups : g.size = (kinds ns).length
  all : g.total = ns.length

theorem Sorts.counts {g : Groups N} {ns : List N} (sorts : g.Sorts ns)
    (nodes : (g.entries.flatMap Prod.snd).Perm ns) : g.Counts ns := by
  refine ⟨sorts.count, ?_, ?_, nodes.length_eq⟩
  · rw [Groups.counts, sorts.entries, List.map_map]
    rfl
  · rw [Groups.size, sorts.entries, List.length_map]

theorem groupsPartition (xs ys : List N) :
    (ofList xs).keys = (xs.map Kinded.kind).eraseDups ∧
    (∀ kind, (ofList xs).get? kind =
      if ∃ n ∈ xs, Kinded.kind n = kind then some (xs.filter fun n => Kinded.kind n = kind)
      else none) ∧
    (∀ e ∈ (ofList xs).entries, e.2 ≠ []) ∧
    (ofList xs).Counts xs ∧
    ((ofList xs).entries.flatMap Prod.snd).Perm xs ∧
    ys.foldl push (ofList xs) = ofList (xs ++ ys) := by
  have sorts := sortsOfList xs
  refine ⟨sorts.keys, fun kind => ?_, fun e mem => ?_, sorts.counts (nodesOfList xs),
    nodesOfList xs, List.foldl_append.symm⟩
  · rw [sorts.get]
    simp only [memKinds, ofKind]
  · rw [sorts.entries] at mem
    obtain ⟨kind, listed, rfl⟩ := List.mem_map.mp mem
    exact fun empty => ofKindEmpty.mp empty listed

end Groups
end Kinds
end SyntaxAudit

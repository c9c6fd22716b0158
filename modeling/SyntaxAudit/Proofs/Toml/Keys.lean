import SyntaxAudit.Proofs.Lookup
import SyntaxAudit.Toml.Document

/-! In a document that has been read no table holds a key twice, however deep it lies. Each way of
adding to a table either finds the key free or goes into what stands there, so it keeps the keys
apart; the readers of values and of lines only ever make tables in these ways. -/
namespace SyntaxAudit.Toml

inductive Value.Keyed : Value → Prop where
  | string (text) : Keyed (.string text)
  | integer (n) : Keyed (.integer n)
  | float (x) : Keyed (.float x)
  | boolean (b) : Keyed (.boolean b)
  | datetime (d) : Keyed (.datetime d)
  | array {items} (each : ∀ v ∈ items, Keyed v) : Keyed (.array items)
  | tables {items} (each : ∀ v ∈ items, Keyed v) : Keyed (.tables items)
  | table {origin entries} (distinct : (entries.map Prod.fst).Nodup)
      (each : ∀ e ∈ entries, Keyed e.2) : Keyed (.table origin entries)

structure Entries.Keyed (entries : Entries) : Prop where
  distinct : (entries.map Prod.fst).Nodup
  each : ∀ e ∈ entries, e.2.Keyed

namespace Entries

theorem keyedOfTable {origin : Origin} {entries : Entries}
    (keyed : (Value.table origin entries).Keyed) : entries.Keyed := by
  cases keyed with
  | table distinct each => exact ⟨distinct, each⟩

theorem Keyed.inTable {entries : Entries} (keyed : entries.Keyed) (origin : Origin) :
    (Value.table origin entries).Keyed := .table keyed.distinct keyed.each

theorem keyedNil : Entries.Keyed [] := ⟨List.nodup_nil, fun _ mem => by contradiction⟩

variable {entries : Entries} {key : String} {value : Value}

theorem Keyed.get (keyed : entries.Keyed) (found : entries.get? key = some value) :
    value.Keyed := keyed.each (key, value) (memOfLookup found)

theorem Keyed.add (keyed : entries.Keyed) (free : entries.get? key = none) (new : value.Keyed) :
    Entries.Keyed (entries ++ [(key, value)]) := by
  have absent : key ∉ entries.map Prod.fst := lookupAbsent.mp free
  refine ⟨?_, fun e mem => ?_⟩
  · rw [List.map_append, List.nodup_append]
    refine ⟨keyed.distinct, List.pairwise_singleton .., fun a old b own same => ?_⟩
    rw [same, List.mem_singleton.mp own] at old
    exact absent old
  · rcases List.mem_append.mp mem with old | own
    · exact keyed.each e old
    · rw [List.mem_singleton.mp own]
      exact new

theorem Keyed.replace (keyed : entries.Keyed) (new : value.Keyed) (key : String) :
    (entries.replace key value).Keyed := by
  have keys : (entries.replace key value).map Prod.fst = entries.map Prod.fst := by
    rw [Entries.replace, List.map_map]
    refine List.map_congr_left fun e _ => ?_
    by_cases own : e.1 = key <;> simp [own]
  refine ⟨keys ▸ keyed.distinct, fun e mem => ?_⟩
  obtain ⟨old, there, rfl⟩ := List.mem_map.mp mem
  split
  · exact new
  · exact keyed.each old there

theorem Keyed.erase (keyed : entries.Keyed) (key : String) : (entries.erase key).Keyed :=
  ⟨(List.filter_sublist.map Prod.fst).nodup keyed.distinct,
    fun e mem => keyed.each e (List.mem_filter.mp mem).1⟩

theorem getErase (entries : Entries) (key : String) : (entries.erase key).get? key = none := by
  have kept := lookupFilter (fun k => decide (k ≠ key)) entries key
  rw [Entries.get?, Entries.erase, kept]
  simp

end Entries

/- A change after which no key stands twice if none did before. -/
def Keeps (change : Entries → Option Entries) : Prop :=
  ∀ {entries after : Entries}, entries.Keyed → change entries = some after → after.Keyed

theorem inLastKeeps {change : Entries → Option Entries} (keeps : Keeps change)
    {items after : List Value} (each : ∀ v ∈ items, v.Keyed)
    (done : inLast change items = some after) : ∀ v ∈ after, v.Keyed := by
  unfold inLast at done
  split at done
  · rename_i origin entries last
    obtain ⟨changed, ok, rfl⟩ := Option.map_eq_some_iff.mp done
    have keyed := Entries.keyedOfTable (each _ (List.mem_of_getLast? last))
    intro v mem
    rcases List.mem_append.mp mem with front | own
    · exact each v ((List.dropLast_sublist items).mem front)
    · rw [List.mem_singleton.mp own]
      exact (keeps keyed ok).inTable origin
  · contradiction

section Inside
variable {change : Entries → Option Entries} (keeps : Keeps change) {entries : Entries}
  (keyed : entries.Keyed) {step : String}
include keeps keyed

theorem insideTable {origin : Origin} {sub changed : Entries}
    (there : entries.get? step = some (.table origin sub)) (ok : change sub = some changed) :
    (entries.replace step (.table origin changed)).Keyed := by
  have under := Entries.keyedOfTable (keyed.get there)
  exact keyed.replace ((keeps under ok).inTable origin) step

theorem insideLast {items changed : List Value} (there : entries.get? step = some (.tables items))
    (ok : inLast change items = some changed) : (entries.replace step (.tables changed)).Keyed := by
  cases keyed.get there with
  | tables each => exact keyed.replace (.tables (inLastKeeps keeps each ok)) step

end Inside

theorem writeKeeps {value : Value} (own : value.Keyed) (made : Origin) (key : String)
    (path : List String) (writable : Bool) : Keeps (write made key value path writable) := by
  induction path generalizing writable with
  | nil =>
    intro entries after keyed done
    unfold write at done
    split at done
    · rename_i free
      cases Option.some.inj done
      exact keyed.add (Option.isNone_iff_eq_none.mp free.2) own
    · contradiction
  | cons step path ih =>
    intro entries after keyed done
    unfold write at done
    split at done
    · rename_i free
      obtain ⟨sub, ok, rfl⟩ := Option.map_eq_some_iff.mp done
      exact keyed.add free ((ih true Entries.keyedNil ok).inTable made)
    · rename_i origin sub there
      split at done
      · obtain ⟨changed, ok, rfl⟩ := Option.map_eq_some_iff.mp done
        exact insideTable (ih _) keyed there ok
      · contradiction
    · rename_i items there
      obtain ⟨changed, ok, rfl⟩ := Option.map_eq_some_iff.mp done
      exact insideLast (ih false) keyed there ok
    · contradiction

theorem fillKeeps {pairs : List Pair} (own : ∀ p ∈ pairs, p.value.Keyed) (made : Origin) :
    Keeps (fill made · pairs) := by
  induction pairs with
  | nil =>
    intro entries after keyed done
    cases Option.some.inj done
    exact keyed
  | cons p rest ih =>
    intro entries after keyed done
    simp only [fill, List.foldlM_cons, bind, Option.bind_eq_some_iff] at done
    obtain ⟨next, ok, done⟩ := done
    have step := writeKeeps (own p List.mem_cons_self) made p.key p.path true keyed ok
    exact ih (fun q mem => own q (List.mem_cons_of_mem p mem)) step done

theorem belowKeeps {change : Entries → Option Entries} (keeps : Keeps change)
    (path : List String) : Keeps (below change path) := by
  induction path with
  | nil => exact keeps
  | cons step path ih =>
    intro entries after keyed done
    unfold below at done
    split at done
    · rename_i free
      obtain ⟨sub, ok, rfl⟩ := Option.map_eq_some_iff.mp done
      exact keyed.add free ((ih Entries.keyedNil ok).inTable .implied)
    · rename_i origin sub there
      split at done
      · contradiction
      · obtain ⟨changed, ok, rfl⟩ := Option.map_eq_some_iff.mp done
        exact insideTable ih keyed there ok
    · rename_i items there
      obtain ⟨changed, ok, rfl⟩ := Option.map_eq_some_iff.mp done
      exact insideLast ih keyed there ok
    · contradiction

section Headers
variable {pairs : List Pair} (own : ∀ p ∈ pairs, p.value.Keyed) (key : String)
include own

theorem addTableKeeps : Keeps (addTable key pairs) := by
  intro parent after keyed done
  unfold addTable at done
  split at done
  · rename_i free
    obtain ⟨t, ok, rfl⟩ := Option.map_eq_some_iff.mp done
    exact keyed.add free ((fillKeeps own .dotted Entries.keyedNil ok).inTable .header)
  · rename_i sub there
    obtain ⟨t, ok, rfl⟩ := Option.map_eq_some_iff.mp done
    have filled := fillKeeps own .dotted (Entries.keyedOfTable (keyed.get there)) ok
    exact (keyed.erase key).add (Entries.getErase parent key) (filled.inTable .header)
  · contradiction

theorem addElementKeeps : Keeps (addElement key pairs) := by
  intro parent after keyed done
  simp only [addElement, bind, Option.bind_eq_some_iff] at done
  obtain ⟨element, ok, done⟩ := done
  have new : (Value.table .header element).Keyed :=
    (fillKeeps own .dotted Entries.keyedNil ok).inTable .header
  split at done
  · rename_i free
    cases Option.some.inj done
    refine keyed.add free (.tables fun v mem => ?_)
    rw [List.mem_singleton.mp mem]
    exact new
  · rename_i items there
    cases Option.some.inj done
    cases keyed.get there with
    | tables each =>
      refine keyed.replace (.tables fun v mem => ?_) key
      rcases List.mem_append.mp mem with old | last
      · exact each v old
      · rw [List.mem_singleton.mp last]
        exact new
  · contradiction

end Headers

def Yields {α : Type} (reader : Reader α) (holds : α → Prop) : Prop :=
  ∀ {s rest : List Char} {a : α}, reader s = some (a, rest) → holds a

theorem int64Keyed {negative : Bool} {n : Nat} {v : Value} (read : int64? negative n = some v) :
    v.Keyed := by
  unfold int64? at read
  split at read <;> split at read <;> cases read <;> exact .integer _

theorem floatKeyed {negative : Bool} {digits : List Char} {exponent : Int} {v : Value}
    (read : float? negative digits exponent = some v) : v.Keyed := by
  unfold float? at read
  dsimp only at read
  split at read
  · contradiction
  · cases Option.some.inj read
    exact .float _

theorem basedYields (base : Nat) : Yields (based? base) Value.Keyed := by
  intro s rest v read
  simp only [based?, bind, Option.bind_eq_some_iff] at read
  obtain ⟨_, _, _, _, read⟩ := read
  obtain ⟨w, made, same⟩ := Option.map_eq_some_iff.mp read
  cases same
  exact int64Keyed made

theorem decimalYields : Yields decimal? Value.Keyed := by
  intro s rest v read
  simp only [decimal?, bind, Option.bind_eq_some_iff] at read
  obtain ⟨_, _, _, _, _, _, read⟩ := read
  split at read
  · obtain ⟨w, made, same⟩ := Option.map_eq_some_iff.mp read
    cases same
    exact int64Keyed made
  · obtain ⟨w, made, same⟩ := Option.map_eq_some_iff.mp read
    cases same
    exact floatKeyed made

theorem specialYields (negative : Bool) : Yields (special? negative) Value.Keyed := by
  intro s rest v read
  unfold special? at read
  split at read
  · cases Option.some.inj read
    exact .float _
  · cases Option.some.inj read
    exact .float _
  · contradiction

theorem numberYields : Yields number? Value.Keyed := by
  intro s rest v read
  unfold number? at read
  split at read
  · exact basedYields 16 read
  · exact basedYields 8 read
  · exact basedYields 2 read
  · rcases Option.or_eq_some_iff.mp read with special | ⟨_, decimal⟩
    · exact specialYields _ special
    · exact decimalYields decimal

theorem scalarYields : Yields scalar Value.Keyed := by
  intro s rest v read
  unfold scalar at read
  split at read
  · cases Option.some.inj read
    exact .boolean true
  · cases Option.some.inj read
    exact .boolean false
  · rcases Option.or_eq_some_iff.mp read with first | ⟨_, number⟩
    · rcases Option.or_eq_some_iff.mp first with string | ⟨_, date⟩
      · obtain ⟨_, _, same⟩ := Option.map_eq_some_iff.mp string
        cases same
        exact .string _
      · obtain ⟨_, _, same⟩ := Option.map_eq_some_iff.mp date
        cases same
        exact .datetime _
    · exact numberYields number

section Nested
variable {value? : Reader Value} (yields : Yields value? Value.Keyed)
include yields

theorem pairYields : Yields (pair? value?) fun p => p.value.Keyed := by
  intro s rest p read
  simp only [pair?, bind, Option.bind_eq_some_iff] at read
  obtain ⟨_, _, _, _, ⟨value, _⟩, made, read⟩ := read
  cases Option.some.inj read
  exact yields made

theorem elementsYield (fuel : Nat) :
    Yields (elements? value? fuel) fun items => ∀ v ∈ items, v.Keyed := by
  induction fuel with
  | zero => intro s rest items read; contradiction
  | succ fuel ih =>
    intro s rest items read
    unfold elements? at read
    split at read
    · cases Option.some.inj read
      simp
    · simp only [bind, Option.bind_eq_some_iff] at read
      obtain ⟨⟨item, _⟩, made, read⟩ := read
      have own : item.Keyed := yields made
      split at read
      · obtain ⟨⟨more, _⟩, later, same⟩ := Option.map_eq_some_iff.mp read
        cases same
        exact List.forall_mem_cons.mpr ⟨own, ih later⟩
      · cases Option.some.inj read
        simpa using own
      · contradiction

theorem pairsYield (fuel : Nat) :
    Yields (pairs? value? fuel) fun pairs => ∀ p ∈ pairs, p.value.Keyed := by
  induction fuel with
  | zero => intro s rest pairs read; contradiction
  | succ fuel ih =>
    intro s rest pairs read
    unfold pairs? at read
    simp only [bind, Option.bind_eq_some_iff] at read
    obtain ⟨⟨pair, _⟩, made, read⟩ := read
    have own : pair.value.Keyed := pairYields yields made
    split at read
    · obtain ⟨⟨more, _⟩, later, same⟩ := Option.map_eq_some_iff.mp read
      cases same
      exact List.forall_mem_cons.mpr ⟨own, ih later⟩
    · cases Option.some.inj read
      simpa using own
    · contradiction

theorem inlineTableYields : Yields (inlineTable? value?) Value.Keyed := by
  intro s rest v read
  unfold inlineTable? at read
  split at read
  · cases Option.some.inj read
    exact Entries.keyedNil.inTable .inline
  · simp only [bind, Option.bind_eq_some_iff] at read
    obtain ⟨⟨pairs, _⟩, made, entries, filled, read⟩ := read
    cases Option.some.inj read
    have own := pairsYield yields _ made
    exact (fillKeeps own .inlineDotted Entries.keyedNil filled).inTable .inline

end Nested

theorem valueYields (depth : Nat) : Yields (value? depth) Value.Keyed := by
  induction depth with
  | zero => exact scalarYields
  | succ depth ih =>
    intro s rest v read
    unfold value? at read
    split at read
    · obtain ⟨⟨items, _⟩, made, same⟩ := Option.map_eq_some_iff.mp read
      cases same
      exact .array (elementsYield ih _ made)
    · exact inlineTableYields ih read
    · exact scalarYields read

def Line.Keyed : Line → Prop
  | .pair p => p.value.Keyed
  | _ => True

theorem lineYields : Yields line? Line.Keyed := by
  intro s rest line read
  unfold line? at read
  split at read
  · unfold header? at read
    split at read <;> simp only [bind, Option.bind_eq_some_iff] at read
    · obtain ⟨_, _, _, _, _, _, _, _, same⟩ := read
      cases Option.some.inj same
      trivial
    · obtain ⟨_, _, _, _, _, _, same⟩ := read
      cases Option.some.inj same
      trivial
  · simp only [bind, Option.bind_eq_some_iff] at read
    obtain ⟨⟨pair, _⟩, made, _, _, same⟩ := read
    cases Option.some.inj same
    exact pairYields (valueYields _) made

theorem linesKeyed {fuel : Nat} {s : List Char} {lines : List Line}
    (read : lines? fuel s = some lines) : ∀ line ∈ lines, line.Keyed := by
  induction fuel generalizing s lines with
  | zero => contradiction
  | succ fuel ih =>
    unfold lines? at read
    split at read
    · cases Option.some.inj read
      simp
    · simp only [bind, Option.bind_eq_some_iff] at read
      obtain ⟨⟨line, _⟩, made, more, later, same⟩ := read
      cases Option.some.inj same
      exact List.forall_mem_cons.mpr ⟨lineYields made, ih later⟩

theorem splitPairsKeyed {lines : List Line} (each : ∀ line ∈ lines, line.Keyed) :
    (∀ p ∈ (splitPairs lines).1, p.value.Keyed) ∧ ∀ line ∈ (splitPairs lines).2, line.Keyed := by
  induction lines with
  | nil => simp [splitPairs]
  | cons line rest ih =>
    cases line with
    | pair p =>
      obtain ⟨own, later⟩ := List.forall_mem_cons.mp each
      obtain ⟨pairs, after⟩ := ih later
      exact ⟨List.forall_mem_cons.mpr ⟨own, pairs⟩, after⟩
    | table path key => exact ⟨by simp [splitPairs], each⟩
    | element path key => exact ⟨by simp [splitPairs], each⟩

theorem buildKeyed {root document : Entries} {lines : List Line} (keyed : root.Keyed)
    (each : ∀ line ∈ lines, line.Keyed) (built : build root lines = some document) :
    document.Keyed := by
  fun_induction build root lines with
  | case1 root =>
    cases Option.some.inj built
    exact keyed
  | case2 => contradiction
  | case3 root path key lines ih =>
    obtain ⟨pairs, later⟩ := splitPairsKeyed (List.forall_mem_cons.mp each).2
    obtain ⟨next, ok, built⟩ := Option.bind_eq_some_iff.mp built
    exact ih next (belowKeeps (addTableKeeps pairs key) path keyed ok) later built
  | case4 root path key lines ih =>
    obtain ⟨pairs, later⟩ := splitPairsKeyed (List.forall_mem_cons.mp each).2
    obtain ⟨next, ok, built⟩ := Option.bind_eq_some_iff.mp built
    exact ih next (belowKeeps (addElementKeeps pairs key) path keyed ok) later built

theorem parseKeyed {text : String} {document : Entries} (read : parse? text = some document) :
    document.Keyed := by
  simp only [parse?, bind, Option.bind_eq_some_iff] at read
  obtain ⟨lines, made, root, filled, built⟩ := read
  obtain ⟨pairs, later⟩ := splitPairsKeyed (linesKeyed made)
  exact buildKeyed (fillKeeps pairs .dotted Entries.keyedNil filled) later built

end SyntaxAudit.Toml

import Mathlib.Data.Finset.Card
import Mathlib.Data.List.Induction
import SyntaxAudit.Proofs.Engine.OwnReport

/-! What is reported of repeated imports. The rule goes through its nodes with the texts that it has
seen, and reports a node exactly if an earlier one has the same text. So of each text all occurrences
are reported but the first. -/
namespace SyntaxAudit.Builtin

def occurrences (texts : List String) (text : String) : List Nat :=
  (List.range texts.length).filter fun i => texts[i]? = some text

def again (texts : List String) : List Nat :=
  (List.range texts.length).filter fun i => ∃ j < i, texts[j]? = texts[i]?

structure ReportsRepeat (p : Profile) {t : Tree} (n : Node t) (f : Finding) : Prop where
  made : f.MadeBy p n
  message : f.message = "'" ++ n.text ++ "' is imported more than once"
  suggestion : f.suggestion = some "Remove the repeated import"

section Positions
variable {texts : List String} {i : Nat}

theorem beforeLast (inside : i < texts.length) (x : String) : (texts ++ [x])[i]? = texts[i]? :=
  List.getElem?_append_left inside

theorem occurrencesSnoc (texts : List String) (x text : String) :
    occurrences (texts ++ [x]) text =
      occurrences texts text ++ if x = text then [texts.length] else [] := by
  have same : (List.range texts.length).filter (fun i => (texts ++ [x])[i]? = some text) =
      occurrences texts text :=
    List.filter_congr fun i mem => by rw [beforeLast (List.mem_range.mp mem)]
  rw [occurrences, List.length_append, List.length_singleton, List.range_succ, List.filter_append,
    same]
  simp [List.filter_cons]

theorem againSnoc (texts : List String) (x : String) :
    again (texts ++ [x]) = again texts ++ if x ∈ texts then [texts.length] else [] := by
  have same : (List.range texts.length).filter
      (fun i => ∃ j < i, (texts ++ [x])[j]? = (texts ++ [x])[i]?) = again texts := by
    refine List.filter_congr fun i mem => ?_
    have inside := List.mem_range.mp mem
    have earlier : ∀ j, j < i ∧ (texts ++ [x])[j]? = (texts ++ [x])[i]? ↔
        j < i ∧ texts[j]? = texts[i]? := fun j => and_congr_right fun less => by
      rw [beforeLast inside, beforeLast (Nat.lt_trans less inside)]
    simp only [earlier]
  have last : (∃ j < texts.length, (texts ++ [x])[j]? = (texts ++ [x])[texts.length]?) ↔
      x ∈ texts := by
    rw [List.getElem?_concat_length, List.mem_iff_getElem?]
    constructor
    · intro ⟨j, inside, own⟩
      exact ⟨j, beforeLast inside x ▸ own⟩
    · intro ⟨j, own⟩
      have inside := (List.getElem?_eq_some_iff.mp own).1
      exact ⟨j, inside, beforeLast inside x ▸ own⟩
  rw [again, List.length_append, List.length_singleton, List.range_succ, List.filter_append, same]
  simp only [List.filter_cons, last, List.filter_nil, decide_eq_true_eq]

theorem occurrencesNone {text : String} : occurrences texts text = [] ↔ text ∉ texts := by
  rw [occurrences, List.filter_eq_nil_iff]
  constructor
  · intro none there
    obtain ⟨i, own⟩ := List.mem_iff_getElem?.mp there
    have inside := (List.getElem?_eq_some_iff.mp own).1
    exact none i (List.mem_range.mpr inside) (decide_eq_true own)
  · intro absent i _ own
    exact absent (List.mem_of_getElem? (of_decide_eq_true own))

theorem againOccurrences (texts : List String) (text : String) :
    (again texts).filter (fun i => texts[i]? = some text) = (occurrences texts text).tail := by
  induction texts using List.reverseRecOn with
  | nil => rfl
  | append_singleton texts x ih =>
    have same : (again texts).filter (fun i => (texts ++ [x])[i]? = some text) =
        (occurrences texts text).tail := by
      rw [← ih]
      refine List.filter_congr fun i mem => ?_
      rw [beforeLast (List.mem_range.mp (List.mem_filter.mp mem).1)]
    rw [againSnoc, occurrencesSnoc, List.filter_append, same]
    -- The last position stands behind another exactly if it is not the first of its text.
    by_cases own : x = text
    · subst own
      by_cases there : x ∈ texts
      · have some : occurrences texts x ≠ [] := fun none => occurrencesNone.mp none there
        rw [if_pos there, if_pos rfl, List.tail_append_of_ne_nil some]
        simp
      · rw [if_neg there, if_pos rfl, occurrencesNone.mpr there]
        rfl
    · rw [if_neg own, List.append_nil]
      split <;> simp [own]

example : again ["os", "re", "os", "io", "re", "os"] = [2, 4, 5] := by decide

end Positions

section Repeats
variable {t : Tree}

theorem repeatsSnoc (seen : List String) (nodes : List (Node t)) (n : Node t) :
    repeats seen (nodes ++ [n]) =
      repeats seen nodes ++ if n.text ∈ seen ∨ n.text ∈ nodes.map Node.text then [n] else [] := by
  induction nodes generalizing seen with
  | nil =>
    by_cases old : n.text ∈ seen <;> simp [repeats, old]
  | cons m rest ih =>
    rw [List.cons_append, repeats, repeats, List.map_cons, ih, ih]
    by_cases old : m.text ∈ seen
    · have same : n.text ∈ seen ∨ n.text ∈ m.text :: rest.map Node.text ↔
          n.text ∈ seen ∨ n.text ∈ rest.map Node.text := by
        rw [List.mem_cons]
        constructor
        · rintro (before | own | inside)
          · exact .inl before
          · exact .inl (own ▸ old)
          · exact .inr inside
        · exact Or.imp_right .inr
      simp only [if_pos old, same, List.cons_append]
    · simp only [if_neg old, List.mem_cons, or_assoc, or_left_comm]

theorem repeatsLast (nodes : List (Node t)) (n : Node t) :
    repeats [] (nodes ++ [n]) =
      repeats [] nodes ++ if n.text ∈ nodes.map Node.text then [n] else [] := by
  rw [repeatsSnoc]
  simp only [List.not_mem_nil, false_or]

theorem repeatsAgain (nodes : List (Node t)) :
    List.Forall₂ (fun i n => nodes[i]? = some n) (again (nodes.map Node.text)) (repeats [] nodes) := by
  induction nodes using List.reverseRecOn with
  | nil => exact .nil
  | append_singleton nodes n ih =>
    rw [repeatsLast, List.map_append, List.map_singleton, againSnoc]
    apply List.rel_append
    · refine ih.imp fun i m there => ?_
      rwa [List.getElem?_append_left (List.getElem?_eq_some_iff.mp there).1]
    · split
      · refine .cons ?_ .nil
        rw [List.length_map, List.getElem?_concat_length]
      · exact .nil

theorem repeatsCount (nodes : List (Node t)) :
    (repeats [] nodes).length + (nodes.map Node.text).toFinset.card = nodes.length := by
  induction nodes using List.reverseRecOn with
  | nil => rfl
  | append_singleton nodes n ih =>
    have added : ((nodes ++ [n]).map Node.text).toFinset =
        insert n.text (nodes.map Node.text).toFinset := by
      simp [Finset.union_comm]
    rw [repeatsLast, added, List.length_append, List.length_append, List.length_singleton, ← ih]
    by_cases old : n.text ∈ nodes.map Node.text
    · rw [if_pos old, Finset.card_insert_of_mem (List.mem_toFinset.mpr old), List.length_singleton]
      omega
    · have new : n.text ∉ (nodes.map Node.text).toFinset := fun mem => old (List.mem_toFinset.mp mem)
      rw [if_neg old, Finset.card_insert_of_notMem new, List.length_nil]
      omega

end Repeats

theorem repeatsFlagged (s : Settings) {t : Tree} (nodes : List (Node t)) :
    ∃ found, (duplicateImport.under s).validateNodes nodes = .ok found ∧
      List.Forall₂ (fun i f => ∃ n, nodes[i]? = some n ∧
        ReportsRepeat (duplicateImport.under s).toProfile n f) (again (nodes.map Node.text)) found ∧
      (∀ text, (again (nodes.map Node.text)).filter (fun i => (nodes.map Node.text)[i]? = some text) =
        (occurrences (nodes.map Node.text) text).tail) ∧
      found.length + (nodes.map Node.text).toFinset.card = nodes.length := by
  refine ⟨_, rfl, ?_, againOccurrences _, ?_⟩
  · rw [List.forall₂_map_right_iff]
    refine (repeatsAgain nodes).imp fun i n there => ⟨n, there, ?_, rfl, rfl⟩
    exact Finding.madeWithMessage (Finding.madeOfRule _ n) _
  · rw [List.length_map]
    exact repeatsCount nodes

end SyntaxAudit.Builtin

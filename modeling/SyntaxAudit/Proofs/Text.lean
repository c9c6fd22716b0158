import Mathlib.Data.List.Induction
import SyntaxAudit.Text

/-! Texts and what is read off them. Trimming leaves what stands between the blanks, whatever the case
of its letters. A natural number is read off a text exactly if the text denotes it. What is written for
a number is read as that number wherever it lies in the range, and as nothing outside of it. -/
namespace SyntaxAudit.Text

structure Trims (s t : List Char) : Prop where
  around : ∃ front back, s = front ++ t ++ back ∧ (∀ c ∈ front, isBlank c) ∧ ∀ c ∈ back, isBlank c
  first : ∀ c ∈ t.head?, isBlank c = false
  last : ∀ c ∈ t.getLast?, isBlank c = false

inductive Numeral : List Char → Nat → Prop where
  | digit {d} (small : d < 10) : Numeral [d.digitChar] d
  | more {s n d} (front : Numeral s n) (small : d < 10) : Numeral (s ++ [d.digitChar]) (10 * n + d)

inductive Denotes (s : List Char) : Nat → Prop where
  | plain {digits n} (trims : Trims s digits) (numeral : Numeral digits n) : Denotes s n
  | plus {digits n} (trims : Trims s ('+' :: digits)) (numeral : Numeral digits n) : Denotes s n

theorem headTrimStart (s : List Char) : ∀ c ∈ (trimStart s).head?, isBlank c = false := by
  intro c first
  have solid := List.head?_dropWhile_not isBlank s
  rw [← trimStart, Option.mem_def.mp first] at solid
  simpa using solid

theorem trimEndSplit (s : List Char) :
    ∃ back, s = trimEnd s ++ back ∧ ∀ c ∈ back, isBlank c := by
  refine ⟨(s.reverse.takeWhile isBlank).reverse, ?_, fun c mem => ?_⟩
  · rw [trimEnd, ← List.reverse_append, List.takeWhile_append_dropWhile, List.reverse_reverse]
  · exact List.all_eq_true.mp List.all_takeWhile c (List.mem_reverse.mp mem)

theorem trimmedTrims (s : List Char) : Trims s (trimmed s) := by
  obtain ⟨back, split, blank⟩ := trimEndSplit (trimStart s)
  refine ⟨⟨s.takeWhile isBlank, back, ?_, List.all_eq_true.mp List.all_takeWhile, blank⟩,
    fun c first => ?_, fun c last => ?_⟩
  · rw [trimmed, List.append_assoc, ← split, trimStart, List.takeWhile_append_dropWhile]
  · apply headTrimStart s
    rw [split, List.head?_append]
    rw [trimmed] at first
    simp [Option.mem_def.mp first]
  · rw [trimmed, trimEnd, List.getLast?_reverse] at last
    exact headTrimStart (trimStart s).reverse c last

theorem dropFront {front s : List Char} (blank : ∀ c ∈ front, isBlank c)
    (solid : ∀ c ∈ s.head?, isBlank c = false) : (front ++ s).dropWhile isBlank = s := by
  rw [List.dropWhile_append_of_pos blank]
  cases s with
  | nil => rfl
  | cons c rest => simp [solid c rfl]

theorem trimsUnique {s t : List Char} (trims : Trims s t) : trimmed s = t := by
  obtain ⟨⟨front, back, rfl, before, behind⟩, first, last⟩ := trims
  rw [trimmed, trimStart, trimEnd, List.append_assoc]
  cases t with
  | nil =>
    -- Nothing solid ends the front, which goes on to the very end.
    have blank : ∀ c ∈ front ++ back, isBlank c := fun c mem =>
      (List.mem_append.mp mem).elim (before c) (behind c)
    have none : (front ++ ([] ++ back)).dropWhile isBlank = [] := by
      simpa using dropFront blank (s := []) nofun
    rw [none]
    rfl
  | cons c rest =>
    have start : (front ++ (c :: rest ++ back)).dropWhile isBlank = c :: rest ++ back :=
      dropFront before first
    have blank : ∀ c ∈ back.reverse, isBlank c := fun c mem => behind c (List.mem_reverse.mp mem)
    rw [start, List.reverse_append, dropFront blank, List.reverse_reverse]
    rwa [List.head?_reverse]

theorem trimmedSolid {s : List Char} (solid : ∀ c ∈ s, isBlank c = false) : trimmed s = s := by
  refine trimsUnique ⟨⟨[], [], by simp, nofun, nofun⟩, fun c first => ?_, fun c last => ?_⟩
  · exact solid c (List.mem_of_mem_head? first)
  · exact solid c (List.mem_of_mem_getLast? last)

theorem Trims.padded {s t front back : List Char} (trims : Trims s t)
    (left : ∀ c ∈ front, isBlank c) (right : ∀ c ∈ back, isBlank c) :
    Trims (front ++ s ++ back) t := by
  obtain ⟨⟨before, behind, rfl, blank, blank'⟩, first, last⟩ := trims
  refine ⟨⟨front ++ before, behind ++ back, by simp, fun c mem => ?_, fun c mem => ?_⟩, first, last⟩
  · exact (List.mem_append.mp mem).elim (left c) (blank c)
  · exact (List.mem_append.mp mem).elim (blank' c) (right c)

theorem trimmedPadded {front back : List Char} (left : ∀ c ∈ front, isBlank c)
    (right : ∀ c ∈ back, isBlank c) (s : List Char) : trimmed (front ++ s ++ back) = trimmed s :=
  trimsUnique ((trimmedTrims s).padded left right)

theorem codeLowered (c : Char) :
    c.toLower.toNat = if 65 ≤ c.toNat ∧ c.toNat ≤ 90 then c.toNat + 32 else c.toNat := by
  have capital : c.val ≥ 'A'.val ∧ c.val ≤ 'Z'.val ↔ 65 ≤ c.toNat ∧ c.toNat ≤ 90 := by
    simp [UInt32.le_iff_toNat_le]
  unfold Char.toLower
  split
  · rename_i upper
    have range := capital.mp upper
    rw [if_pos range, ← Char.toNat_val, UInt32.toNat_add, Char.toNat_val]
    exact Nat.mod_eq_of_lt (by simp; omega)
  · rename_i other
    rw [if_neg (mt capital.mpr other)]

theorem blankLowered (c : Char) : isBlank c.toLower = isBlank c := by
  simp only [isBlank, codeLowered]
  split
  · rw [Bool.eq_iff_iff]
    simp only [Bool.or_eq_true, Bool.and_eq_true, decide_eq_true_eq, beq_iff_eq]
    omega
  · rfl

theorem dropLowered (s : List Char) :
    (lowered s).dropWhile isBlank = lowered (s.dropWhile isBlank) := by
  have blank : isBlank ∘ Char.toLower = isBlank := funext blankLowered
  rw [lowered, List.dropWhile_map, blank, lowered]

theorem trimmedLowered (s : List Char) : trimmed (lowered s) = lowered (trimmed s) := by
  have turned : ∀ s, (lowered s).reverse = lowered s.reverse := fun s => List.map_reverse.symm
  rw [trimmed, trimStart, trimEnd, dropLowered, turned, dropLowered, turned]
  rfl

theorem digitOwn : ∀ d < 10, (Nat.digitChar d).isDigit ∧ (Nat.digitChar d).toNat - 48 = d := by
  decide

theorem digitRange {c : Char} (digit : c.isDigit) : 48 ≤ c.toNat ∧ c.toNat ≤ 57 := by
  simpa [Char.isDigit, UInt32.le_iff_toNat_le] using digit

theorem digitRebuilt {c : Char} (digit : c.isDigit) :
    c.toNat - 48 < 10 ∧ (c.toNat - 48).digitChar = c := by
  have range := digitRange digit
  have small : c.toNat - 48 < 10 := by omega
  refine ⟨small, Char.toNat_inj.mp ?_⟩
  rw [Nat.toNat_digitChar_of_lt_ten small]
  omega

theorem digitsValueMore (s : List Char) (c : Char) :
    digitsValue (s ++ [c]) = 10 * digitsValue s + (c.toNat - 48) := by
  rw [digitsValue, List.foldl_append]
  rfl

theorem numeralDigits {s : List Char} {n : Nat} (numeral : Numeral s n) :
    s ≠ [] ∧ (∀ c ∈ s, c.isDigit) ∧ digitsValue s = n := by
  induction numeral with
  | @digit d small =>
    obtain ⟨digit, value⟩ := digitOwn d small
    refine ⟨nofun, fun c mem => List.mem_singleton.mp mem ▸ digit, ?_⟩
    simpa [digitsValue] using value
  | @more s n d front small ih =>
    obtain ⟨_, digits, own⟩ := ih
    obtain ⟨digit, value⟩ := digitOwn d small
    refine ⟨List.concat_ne_nil _ _, fun c mem => ?_, ?_⟩
    · rcases List.mem_append.mp mem with before | last
      · exact digits c before
      · exact List.mem_singleton.mp last ▸ digit
    · rw [digitsValueMore, own, value]

theorem numeralOfDigits {s : List Char} (some : s ≠ []) (digits : ∀ c ∈ s, c.isDigit) :
    Numeral s (digitsValue s) := by
  induction s using List.reverseRecOn with
  | nil => contradiction
  | append_singleton s c ih =>
    obtain ⟨small, rebuilt⟩ :=
      digitRebuilt (digits c (List.mem_append_right _ (List.mem_singleton_self c)))
    rw [digitsValueMore]
    -- The first digit has no numeral before it to extend.
    by_cases single : s = []
    · subst single
      have own : Numeral [(c.toNat - 48).digitChar] (c.toNat - 48) := .digit small
      rw [rebuilt] at own
      simpa [digitsValue] using own
    · have front := ih single fun c mem => digits c (List.mem_append_left _ mem)
      have own := Numeral.more front small
      rwa [rebuilt] at own

theorem digitsIff (s : List Char) (n : Nat) : digits? s = some n ↔ Numeral s n := by
  unfold digits?
  constructor
  · intro read
    split at read
    · rename_i shape
      cases read
      exact numeralOfDigits shape.1 (List.all_eq_true.mp shape.2)
    · cases read
  · intro numeral
    obtain ⟨some, digits, value⟩ := numeralDigits numeral
    rw [if_pos ⟨some, List.all_eq_true.mpr digits⟩, value]

theorem decimalNumeral (n : Nat) : Numeral (decimalDigits n) n := by
  fun_induction decimalDigits n with
  | case1 n small => exact .digit small
  | case2 n large ih =>
    have own := Numeral.more ih (Nat.mod_lt n (by decide : 10 > 0))
    rwa [Nat.div_add_mod] at own

theorem decimalDigitsOnly (n : Nat) : ∀ c ∈ decimalDigits n, c.isDigit :=
  (numeralDigits (decimalNumeral n)).2.1

theorem digitsDecimal (n : Nat) : digits? (decimalDigits n) = some n :=
  (digitsIff _ n).mpr (decimalNumeral n)

theorem decimalUnsigned (n : Nat) : ∃ c rest, decimalDigits n = c :: rest ∧ c ≠ '+' ∧ c ≠ '-' := by
  cases written : decimalDigits n with
  | nil => exact absurd written (numeralDigits (decimalNumeral n)).1
  | cons c rest =>
    have digit : c.isDigit := decimalDigitsOnly n c (written ▸ List.mem_cons_self)
    refine ⟨c, rest, rfl, ?_, ?_⟩ <;> rintro rfl <;> contradiction

theorem naturalUnsigned {s : List Char} (unsigned : ∀ rest, s ≠ '+' :: rest) (limit : Nat) :
    natural? limit s = (digits? s).bind fun n => if n < limit then some n else none := by
  unfold natural?
  split
  · rename_i rest
    exact absurd rfl (unsigned rest)
  · rfl

theorem denotesIff (limit : Nat) (s : List Char) (n : Nat) :
    natural? limit (trimmed s) = some n ↔ Denotes s n ∧ n < limit := by
  have bounded : ∀ digits, ((digits? digits).bind fun n => if n < limit then some n else none) =
      some n ↔ Numeral digits n ∧ n < limit := by
    intro digits
    rw [← digitsIff, Option.bind_eq_some_iff]
    simp
  have own := trimmedTrims s
  by_cases sign : ∃ rest, trimmed s = '+' :: rest
  · obtain ⟨rest, signed⟩ := sign
    rw [signed] at own ⊢
    refine (bounded rest).trans (and_congr_left fun _ => ⟨.plus own, fun denotes => ?_⟩)
    cases denotes with
    | plain trims numeral =>
      have same := signed.symm.trans (trimsUnique trims)
      subst same
      exact absurd ((numeralDigits numeral).2.1 '+' List.mem_cons_self) (by decide)
    | plus trims numeral =>
      have same := signed.symm.trans (trimsUnique trims)
      cases same
      exact numeral
  · have unsigned : ∀ rest, trimmed s ≠ '+' :: rest := fun rest signed => sign ⟨rest, signed⟩
    rw [naturalUnsigned unsigned]
    refine (bounded _).trans (and_congr_left fun _ => ⟨.plain own, fun denotes => ?_⟩)
    cases denotes with
    | plain trims numeral => rwa [trimsUnique trims]
    | plus trims numeral => exact absurd (trimsUnique trims) (unsigned _)

theorem naturalDecimal (limit n : Nat) :
    natural? limit (decimalDigits n) = if n < limit then some n else none := by
  obtain ⟨c, rest, written, unsigned, _⟩ := decimalUnsigned n
  rw [naturalUnsigned (by simp [written, unsigned]), digitsDecimal]
  rfl

theorem naturalMinus (limit : Nat) (s : List Char) : natural? limit ('-' :: s) = none := by
  rw [naturalUnsigned (by simp), digits?, if_neg]
  · rfl
  · rintro ⟨_, digits⟩
    simp at digits

theorem integerDecimal (limit n : Nat) :
    integer? limit (decimalDigits n) = if n < limit then some (n : Int) else none := by
  obtain ⟨c, rest, written, _, unsigned⟩ := decimalUnsigned n
  have read : integer? limit (decimalDigits n) =
      (natural? limit (decimalDigits n)).map Int.ofNat := by
    rw [written]
    unfold integer?
    split
    · rename_i minus
      exact absurd (List.cons.inj minus).1 unsigned
    · rfl
  rw [read, naturalDecimal]
  split <;> rfl

theorem integerList (n : Nat) : (integer (.negSucc n)).toList = '-' :: decimalDigits (n + 1) := by
  simp [integer, decimal]

theorem digitSolid {c : Char} (digit : c.isDigit) : isBlank c = false := by
  have range := digitRange digit
  simp only [isBlank, Bool.or_eq_false_iff, Bool.and_eq_false_iff, decide_eq_false_iff_not,
    beq_eq_false_iff_ne]
  omega

theorem integerSolid (n : Int) : ∀ c ∈ (integer n).toList, isBlank c = false := by
  have digits : ∀ m, ∀ c ∈ decimalDigits m, isBlank c = false := fun m c mem =>
    digitSolid (decimalDigitsOnly m c mem)
  cases n with
  | ofNat n =>
    rw [integer, decimal, String.toList_ofList]
    exact digits n
  | negSucc n =>
    rw [integerList]
    intro c mem
    rcases List.mem_cons.mp mem with rfl | inside
    · decide
    · exact digits (n + 1) c inside

theorem integerReadsBack {limit : Nat} {n : Int} (low : -limit ≤ n) (high : n < limit) :
    integer? limit (integer n).toList = some n := by
  cases n with
  | ofNat n =>
    rw [integer, decimal, String.toList_ofList, integerDecimal, if_pos (Int.ofNat_lt.mp high)]
    rfl
  | negSucc n =>
    have inside : n + 1 ≤ limit := by omega
    rw [integerList, integer?, digitsDecimal]
    simp only [bind, Option.bind, if_pos inside]
    rfl

theorem naturalReadsBack (limit : Nat) (n : Int) :
    natural? limit (integer n).toList =
      if 0 ≤ n ∧ n < limit then some n.toNat else none := by
  cases n with
  | ofNat n =>
    rw [integer, decimal, String.toList_ofList, naturalDecimal]
    simp
  | negSucc n =>
    have negative : ¬ (0 ≤ Int.negSucc n ∧ Int.negSucc n < limit) := by omega
    rw [integerList, naturalMinus, if_neg negative]

theorem booleanReadsBack (b : Bool) : boolean? (boolean b).toList = some b := by
  cases b <;> decide

end SyntaxAudit.Text

import SyntaxAudit.Files

/-! Paths and the directories above them. The parent of a path is the shortest beginning of its text
that has all its components but the last. A name joined to a path is one more component. -/
namespace SyntaxAudit.Path

structure Same (p q : Path) : Prop where
  root : p.isAbsolute = q.isAbsolute
  components : p.components = q.components

structure ParentOf (p parent : Path) : Prop where
  beginning : parent.text <+: p.text
  root : parent.isAbsolute = p.isAbsolute
  components : ∃ last, p.components = parent.components ++ [last]
  shortest : ∀ q : Path, q.text <+: p.text → q.Same parent → parent.text.length ≤ q.text.length

inductive Lineage : Path → List Path → Prop where
  | top {p} (without : p.components = []) : Lineage p [p]
  | up {p parent above} (next : p.ParentOf parent) (rest : Lineage parent above) :
      Lineage p (p :: above)

def Opens (front : List Char) : Prop := front = [] ∨ ∃ before, front = before ++ ['/']

def ending (front piece : List Char) : List (List Char) :=
  if piece = [] ∨ (front ≠ [] ∧ piece = ['.']) then [] else [piece]

def weight (p : Path) : Nat := p.components.flatten.length

section Components
variable {front piece : List Char}

theorem componentsSlash (s t : List Char) :
    components ⟨s ++ '/' :: t⟩ =
      components ⟨s⟩ ++ (t.splitOn '/').filter fun x => x ≠ [] ∧ x ≠ ['.'] := by
  obtain ⟨first, rest, split⟩ := List.exists_cons_of_ne_nil (List.splitOn_ne_nil '/' s)
  simp only [components, pieces, List.splitOn_append_cons_self, split, List.cons_append,
    List.filter_append]
  split <;> rfl

theorem componentsEnd (opens : Opens front) (whole : '/' ∉ piece) :
    components ⟨front ++ piece⟩ = components ⟨front⟩ ++ ending front piece := by
  have single : piece.splitOn '/' = [piece] := List.splitOn_eq_singleton whole
  rcases opens with rfl | ⟨before, rfl⟩
  · simp [components, pieces, single, ending]
  · rw [List.append_assoc, List.singleton_append, componentsSlash, componentsSlash, single]
    by_cases empty : piece = []
    · simp [ending, empty]
    · by_cases dot : piece = ['.'] <;> simp [ending, empty, dot]

theorem absoluteEnd (opens : Opens front) (whole : '/' ∉ piece) :
    isAbsolute ⟨front ++ piece⟩ = isAbsolute ⟨front⟩ := by
  rcases opens with rfl | ⟨before, rfl⟩
  · cases piece with
    | nil => rfl
    | cons c rest =>
      have other : c ≠ '/' := fun own => whole (own ▸ List.mem_cons_self)
      simp [isAbsolute, other]
  · cases before <;> rfl

theorem endingAdds (front piece : List Char) : (ending front piece).flatten.length ≤ piece.length := by
  unfold ending
  split <;> simp

theorem lastPiece (s : List Char) :
    ∃ front piece, s = front ++ piece ∧ front = (s.reverse.dropWhile (· ≠ '/')).reverse ∧
      Opens front ∧ '/' ∉ piece := by
  refine ⟨_, (s.reverse.takeWhile (· ≠ '/')).reverse, ?_, rfl, ?_, ?_⟩
  · rw [← List.reverse_append, List.takeWhile_append_dropWhile, List.reverse_reverse]
  · cases rest : s.reverse.dropWhile (· ≠ '/') with
    | nil => exact .inl rfl
    | cons c tail =>
      have slash := List.head?_dropWhile_not (· ≠ '/') s.reverse
      rw [rest] at slash
      have own : c = '/' := by simpa using slash
      exact .inr ⟨tail.reverse, by rw [List.reverse_cons, own]⟩
  · intro mem
    have kept := List.all_eq_true.mp List.all_takeWhile _ (List.mem_reverse.mp mem)
    simp at kept

end Components

section Weight
variable {front piece : List Char} {c : Char}

theorem weightEnd (opens : Opens front) (whole : '/' ∉ piece) :
    weight ⟨front ++ piece⟩ = weight ⟨front⟩ + (ending front piece).flatten.length := by
  rw [weight, componentsEnd opens whole, List.flatten_append, List.length_append]
  rfl

theorem weightGrows (opens : Opens front) (whole : '/' ∉ piece ++ [c])
    (counts : ending front (piece ++ [c]) = [piece ++ [c]]) :
    weight ⟨front ++ piece⟩ < weight ⟨front ++ (piece ++ [c])⟩ := by
  have before : '/' ∉ piece := fun mem => whole (List.mem_append_left _ mem)
  have adds := endingAdds front piece
  have longer : [piece ++ [c]].flatten.length = piece.length + 1 := by simp
  rw [weightEnd opens before, weightEnd opens whole, counts]
  omega

theorem weightSnoc (s : List Char) (c : Char) : weight ⟨s⟩ ≤ weight ⟨s ++ [c]⟩ := by
  by_cases slash : c = '/'
  · rw [slash, weight, weight, componentsSlash]
    simp
  · obtain ⟨front, piece, rfl, _, opens, whole⟩ := lastPiece s
    have longer : '/' ∉ piece ++ [c] := by simp [whole, Ne.symm slash]
    rw [List.append_assoc]
    by_cases counts : ending front (piece ++ [c]) = [piece ++ [c]]
    · exact Nat.le_of_lt (weightGrows opens longer counts)
    · -- Only a dot adds nothing, and then nothing stood in its place before.
      have dot : piece ++ [c] = [] ∨ (front ≠ [] ∧ piece ++ [c] = ['.']) := by
        apply Decidable.byContradiction
        exact fun other => counts (if_neg other)
      have nothing : piece = [] := by
        rcases dot with none | ⟨_, single⟩
        · simp at none
        · exact (List.append_eq_singleton_iff.mp single).resolve_right (by simp) |>.1
      rw [nothing, weightEnd opens (by simp), weightEnd opens (by simpa [nothing] using longer)]
      simp [ending]

theorem weightBeginning {s t : List Char} (beginning : s <+: t) : weight ⟨s⟩ ≤ weight ⟨t⟩ := by
  obtain ⟨more, rfl⟩ := beginning
  induction more generalizing s with
  | nil => simp
  | cons c more ih =>
    have next := ih (s := s ++ [c])
    rw [List.append_assoc, List.singleton_append] at next
    exact Nat.le_trans (weightSnoc s c) next

end Weight

section Stripped
variable {s : List Char}

theorem Same.trans {p q r : Path} (first : p.Same q) (second : q.Same r) : p.Same r :=
  ⟨first.root.trans second.root, first.components.trans second.components⟩

theorem sameSlash (nonempty : s ≠ []) : Same ⟨s⟩ ⟨s ++ ['/']⟩ := by
  constructor
  · cases s with
    | nil => exact absurd rfl nonempty
    | cons c rest => rfl
  · rw [componentsSlash]
    simp

theorem sameDot (s : List Char) : Same ⟨s ++ ['/']⟩ ⟨s ++ ['/', '.']⟩ := by
  constructor
  · cases s <;> rfl
  · rw [componentsSlash, componentsSlash]
    rfl

theorem strippedSame (s : List Char) : Same ⟨(strippedEnd s).reverse⟩ ⟨s.reverse⟩ := by
  fun_induction strippedEnd s with
  | case1 => exact ⟨rfl, rfl⟩
  | case2 => exact ⟨rfl, rfl⟩
  | case3 rest nonempty ih =>
    rw [List.reverse_cons]
    exact ih.trans (sameSlash (by simpa using nonempty))
  | case4 rest ih =>
    refine ih.trans ?_
    simp only [List.reverse_cons, List.append_assoc, List.singleton_append]
    exact sameDot rest.reverse
  | case5 => exact ⟨rfl, rfl⟩

theorem strippedBeginning (s : List Char) : (strippedEnd s).reverse <+: s.reverse := by
  apply List.reverse_prefix.mpr
  fun_induction strippedEnd s with
  | case1 => exact List.suffix_refl _
  | case2 => exact List.suffix_refl _
  | case3 rest nonempty ih => exact ih.trans (List.suffix_cons _ rest)
  | case4 rest ih => exact ih.trans (List.suffix_cons _ _)
  | case5 => exact List.suffix_refl _

theorem strippedForm (s : List Char) :
    strippedEnd s = [] ∨ strippedEnd s = ['/'] ∨
      ∃ c rest, strippedEnd s = c :: rest ∧ c ≠ '/' ∧ (c = '.' → rest.head? ≠ some '/') := by
  fun_induction strippedEnd s with
  | case1 => exact .inr (.inl rfl)
  | case2 => exact .inr (.inr ⟨'.', [], rfl, by decide, by simp⟩)
  | case3 rest nonempty ih => exact ih
  | case4 rest ih => exact ih
  | case5 s _ _ notSlash notDot =>
    cases s with
    | nil => exact .inl rfl
    | cons c rest =>
      refine .inr (.inr ⟨c, rest, rfl, fun own => notSlash rest (by rw [own]), fun own first => ?_⟩)
      obtain ⟨tail, rfl⟩ := List.head?_eq_some_iff.mp first
      exact notDot tail (by rw [own])

theorem strippedEnds (s : List Char) :
    strippedEnd s = [] ∨ strippedEnd s = ['/'] ∨
      ∃ front piece, (strippedEnd s).reverse = front ++ piece ∧
        front = ((strippedEnd s).dropWhile (· ≠ '/')).reverse ∧ Opens front ∧ '/' ∉ piece ∧
        ending front piece = [piece] := by
  refine (strippedForm s).imp id (Or.imp id ?_)
  rintro ⟨c, rest, form, solid, kept⟩
  obtain ⟨front, piece, split, cut, opens, whole⟩ := lastPiece (strippedEnd s).reverse
  rw [List.reverse_reverse] at cut
  refine ⟨front, piece, split, cut, opens, whole, if_neg ?_⟩
  rw [form, List.reverse_cons] at split
  rintro (rfl | ⟨later, rfl⟩)
  · rcases opens with rfl | ⟨before, rfl⟩
    · simp at split
    · rw [List.append_nil] at split
      have same := (List.append_inj' split rfl).2
      exact solid (by simpa using same)
  · rcases opens with rfl | ⟨before, rfl⟩
    · exact later rfl
    · obtain ⟨ahead, same⟩ := List.append_inj' split rfl
      have first : rest.head? = some '/' := by
        rw [← List.reverse_reverse rest, ahead]
        simp
      exact kept (by simpa using same) first

/- No shorter beginning of a stripped text is a text of the same place, since the last character adds
to the components. -/
theorem strippedShortest {q : Path} (beginning : q.text <+: (strippedEnd s).reverse)
    (same : q.Same ⟨(strippedEnd s).reverse⟩) : (strippedEnd s).reverse.length ≤ q.text.length := by
  rcases strippedEnds s with empty | root | ⟨front, piece, split, _, opens, whole, counts⟩
  · simp [empty]
  · rw [root] at same ⊢
    cases text : q.text with
    | nil =>
      have absolute := same.root
      simp [isAbsolute, text] at absolute
    | cons c rest => simp
  · rw [split] at beginning same ⊢
    have solid : piece ≠ [] := by
      rintro rfl
      simp [ending] at counts
    obtain ⟨init, c, rfl⟩ : ∃ init c, piece = init ++ [c] :=
      ⟨_, _, (List.dropLast_concat_getLast solid).symm⟩
    rw [← List.append_assoc, List.prefix_concat_iff] at beginning
    rcases beginning with all | less
    · simp [all]
    · have lighter : weight q ≤ weight ⟨front ++ init⟩ := weightBeginning less
      have grows := weightGrows opens whole counts
      have equal : weight q = weight ⟨front ++ (init ++ [c])⟩ := by
        rw [weight, same.components, weight]
      omega

end Stripped

section Parent
variable {p q r : Path}

theorem parentFound (has : p.components ≠ []) :
    ∃ parent, p.parent? = some parent ∧ p.ParentOf parent := by
  have ends := strippedSame p.text.reverse
  have part := strippedBeginning p.text.reverse
  rw [List.reverse_reverse] at ends part
  obtain ⟨front, piece, split, cut, opens, whole, counts⟩ :
      ∃ front piece, (strippedEnd p.text.reverse).reverse = front ++ piece ∧
        front = ((strippedEnd p.text.reverse).dropWhile (· ≠ '/')).reverse ∧ Opens front ∧
        '/' ∉ piece ∧ ending front piece = [piece] := by
    rcases strippedEnds p.text.reverse with empty | root | found
    · rw [empty] at ends
      exact absurd ends.components.symm has
    · rw [root] at ends
      exact absurd ends.components.symm has
    · exact found
  have above := strippedSame front.reverse
  have start := strippedBeginning front.reverse
  rw [List.reverse_reverse] at above start
  rw [split] at ends part
  refine ⟨⟨(strippedEnd front.reverse).reverse⟩, ?_, ?_, ?_, ⟨piece, ?_⟩, fun q beginning same => ?_⟩
  · rw [cut, List.reverse_reverse, parent?, if_neg (by simpa using has)]
  · exact (start.trans (List.prefix_append front piece)).trans part
  · rw [above.root, ← absoluteEnd opens whole, ends.root]
  · rw [above.components, ← counts, ← componentsEnd opens whole, ends.components]
  · rcases Nat.le_total (strippedEnd front.reverse).reverse.length q.text.length with long | short
    · exact long
    · have inside := List.prefix_of_prefix_length_le beginning
        ((start.trans (List.prefix_append front piece)).trans part) short
      exact strippedShortest inside same

theorem parentNone (without : p.components = []) : p.parent? = none := by
  simp [parent?, without]

theorem parentUnique (first : p.ParentOf q) (second : p.ParentOf r) : q = r := by
  obtain ⟨last, own⟩ := first.components
  obtain ⟨last', own'⟩ := second.components
  have components := (List.append_inj' (own.symm.trans own') rfl).1
  have root := first.root.trans second.root.symm
  have short := first.shortest r second.beginning ⟨root.symm, components.symm⟩
  have long := second.shortest q first.beginning ⟨root, components⟩
  have inside := List.prefix_of_prefix_length_le first.beginning second.beginning short
  have text := inside.eq_of_length (Nat.le_antisymm short long)
  cases q
  cases r
  exact congrArg Path.mk text

theorem parentShorter (parent : p.ParentOf q) : q.text.length < p.text.length := by
  rcases Nat.lt_or_ge q.text.length p.text.length with less | all
  · exact less
  · have text := parent.beginning.eq_of_length_le all
    obtain ⟨last, own⟩ := parent.components
    have count := congrArg List.length own
    cases p
    cases q
    cases text
    simp at count

theorem parentHas (parent : p.ParentOf q) : p.components ≠ [] := by
  obtain ⟨last, own⟩ := parent.components
  simp [own]

theorem lineageUnique {xs ys : List Path} (first : Lineage p xs) (second : Lineage p ys) :
    xs = ys := by
  induction first generalizing ys with
  | top without =>
    cases second with
    | top => rfl
    | up next => exact absurd without (parentHas next)
  | up next rest ih =>
    cases second with
    | top without => exact absurd without (parentHas next)
    | up next' rest' =>
      cases parentUnique next next'
      rw [ih rest']

theorem joinName {name : List Char} (p : Path) (whole : '/' ∉ name) (solid : name ≠ [])
    (other : name ≠ ['.']) :
    (p.join ⟨name⟩).isAbsolute = p.isAbsolute ∧
      (p.join ⟨name⟩).components = p.components ++ [name] := by
  have relative : isAbsolute ⟨name⟩ = false := by
    have head := absoluteEnd (.inl rfl) whole
    rwa [List.nil_append] at head
  have counts : ∀ front, ending front name = [name] := fun front => if_neg (by simp [solid, other])
  unfold join
  rw [relative, if_neg (by decide)]
  split
  · rename_i ends
    have opens : Opens p.text := by
      rcases Bool.or_eq_true_iff.mp ends with empty | slash
      · exact .inl (List.isEmpty_iff.mp empty)
      · obtain ⟨before, text⟩ := List.getLast?_eq_some_iff.mp (beq_iff_eq.mp slash)
        exact .inr ⟨before, text⟩
    exact ⟨absoluteEnd opens whole, by rw [componentsEnd opens whole, counts]⟩
  · rename_i closed
    have nonempty : p.text ≠ [] := by
      intro empty
      simp [empty] at closed
    have opens : Opens (p.text ++ ['/']) := .inr ⟨p.text, rfl⟩
    have same := sameSlash nonempty
    rw [← List.singleton_append, ← List.append_assoc, absoluteEnd opens whole,
      componentsEnd opens whole, counts]
    exact ⟨same.root.symm, by rw [← same.components]⟩

end Parent

end SyntaxAudit.Path

import Mathlib.Data.List.Forall2

/-! Steps that may fail, taken one after the other. A sequence of them succeeds if each one does,
and otherwise fails the way the first failing one does. -/
namespace SyntaxAudit.Sequence

variable {α β ε : Type}

theorem bindOk {x : Except ε α} {f : α → Except ε β} {b : β} :
    (x >>= f) = .ok b ↔ ∃ a, x = .ok a ∧ f a = .ok b := by
  cases x <;> simp [bind, Except.bind]

theorem bindError {x : Except ε α} {f : α → Except ε β} {e : ε} :
    (x >>= f) = .error e ↔ x = .error e ∨ ∃ a, x = .ok a ∧ f a = .error e := by
  cases x <;> simp [bind, Except.bind]

theorem mapMOk {f : α → Except ε β} {xs : List α} {ys : List β} :
    xs.mapM f = .ok ys ↔ List.Forall₂ (fun x y => f x = .ok y) xs ys := by
  induction xs generalizing ys with
  | nil => cases ys <;> simp [pure, Except.pure]
  | cons x rest ih =>
    rw [List.mapM_cons, bindOk, List.forall₂_cons_left_iff]
    constructor
    · rintro ⟨y, head, tail⟩
      obtain ⟨ys', rest', last⟩ := bindOk.mp tail
      cases last
      exact ⟨y, ys', head, ih.mp rest', rfl⟩
    · rintro ⟨y, ys', head, tail, rfl⟩
      exact ⟨y, head, bindOk.mpr ⟨ys', ih.mpr tail, rfl⟩⟩

theorem answerOf {f : α → Except ε β} {xs : List α} {ys : List β}
    (all : List.Forall₂ (fun x y => f x = .ok y) xs ys) {y : β} (mem : y ∈ ys) :
    ∃ x ∈ xs, f x = .ok y := by
  induction all with
  | nil => cases mem
  | @cons x z xs ys head tail ih =>
    rcases List.mem_cons.mp mem with rfl | inside
    · exact ⟨x, List.mem_cons_self, head⟩
    · obtain ⟨w, there, ok⟩ := ih inside
      exact ⟨w, List.mem_cons_of_mem x there, ok⟩

theorem mapMError {f : α → Except ε β} {xs : List α} {e : ε} :
    xs.mapM f = .error e ↔
      ∃ before x after, xs = before ++ x :: after ∧ (∀ y ∈ before, ∃ b, f y = .ok b) ∧
        f x = .error e := by
  induction xs with
  | nil => simp [pure, Except.pure]
  | cons x rest ih =>
    rw [List.mapM_cons, bindError]
    constructor
    · rintro (head | ⟨b, head, tail⟩)
      · exact ⟨[], x, rest, rfl, fun _ mem => absurd mem List.not_mem_nil, head⟩
      · obtain fails | ⟨bs, _, last⟩ := bindError.mp tail
        · obtain ⟨before, y, after, rfl, fine, wrong⟩ := ih.mp fails
          refine ⟨x :: before, y, after, rfl, fun z mem => ?_, wrong⟩
          rcases List.mem_cons.mp mem with rfl | inside
          · exact ⟨b, head⟩
          · exact fine z inside
        · cases last
    · rintro ⟨before, y, after, split, fine, wrong⟩
      cases before with
      | nil =>
        cases split
        exact .inl wrong
      | cons z before =>
        cases split
        obtain ⟨b, head⟩ := fine x List.mem_cons_self
        have tail := ih.mpr ⟨before, y, after, rfl,
          fun w mem => fine w (List.mem_cons_of_mem _ mem), wrong⟩
        exact .inr ⟨b, head, bindError.mpr (.inl tail)⟩

theorem mapMTotal {f : α → Except ε β} {xs : List α} :
    (∃ ys, xs.mapM f = .ok ys) ↔ ∀ x ∈ xs, ∃ y, f x = .ok y := by
  constructor
  · rintro ⟨ys, ok⟩
    have each : List.Forall₂ (fun x y => (∃ z, f x = .ok z) ∧ f x = .ok y) xs ys :=
      (mapMOk.mp ok).imp fun x y answer => ⟨⟨y, answer⟩, answer⟩
    exact ((List.forall₂_and_left xs ys).mp each).1
  · intro fine
    cases outcome : xs.mapM f with
    | ok ys => exact ⟨ys, rfl⟩
    | error e =>
      obtain ⟨before, x, after, rfl, _, wrong⟩ := mapMError.mp outcome
      obtain ⟨y, ok⟩ := fine x (List.mem_append_right before List.mem_cons_self)
      rw [wrong] at ok
      cases ok

end SyntaxAudit.Sequence

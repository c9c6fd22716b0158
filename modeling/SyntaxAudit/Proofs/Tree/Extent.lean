import SyntaxAudit.Tree

/-! What a snapshot shows of a node: its kind, the bytes that it spans, the lines and columns where these
begin and end, and the characters between. -/
namespace SyntaxAudit

namespace Text

theorem utf8LengthNil : utf8Length [] = 0 := rfl

theorem utf8LengthCons (c : Char) (s : List Char) :
    utf8Length (c :: s) = c.utf8Size + utf8Length s := by
  rw [utf8Length, String.ofList_cons, String.utf8ByteSize_append, String.utf8ByteSize_singleton,
    utf8Length]

theorem utf8LengthAppend (s u : List Char) : utf8Length (s ++ u) = utf8Length s + utf8Length u := by
  rw [utf8Length, String.ofList_append, String.utf8ByteSize_append, utf8Length, utf8Length]

theorem utf8LengthZero {s : List Char} : utf8Length s = 0 ↔ s = [] := by
  cases s with
  | nil => simp [utf8LengthNil]
  | cons c rest =>
    have filled := c.utf8Size_pos
    simp only [utf8LengthCons, reduceCtorEq, iff_false]
    omega

theorem frontFilled {c : Char} {rest front back : List Char} {n : Nat}
    (whole : c :: rest = front ++ back) (length : utf8Length front = n + 1) :
    ∃ tail, front = c :: tail ∧ rest = tail ++ back ∧ c.utf8Size + utf8Length tail = n + 1 := by
  cases front with
  | nil => cases length
  | cons d tail =>
    obtain ⟨rfl, same⟩ := List.cons.inj whole
    rw [utf8LengthCons] at length
    exact ⟨tail, rfl, same, length⟩

theorem splitBytesIff {s front back : List Char} {n : Nat} :
    splitBytes? s n = some (front, back) ↔ s = front ++ back ∧ utf8Length front = n := by
  fun_induction splitBytes? s n generalizing front with
  | case1 s =>
    rw [utf8LengthZero]
    constructor
    · rintro ⟨⟩
      exact ⟨rfl, rfl⟩
    · rintro ⟨rfl, rfl⟩
      rfl
  | case2 n =>
    simp only [reduceCtorEq, false_iff, not_and]
    intro whole
    rw [(List.append_eq_nil_iff.mp whole.symm).1, utf8LengthNil]
    omega
  | case3 c rest n fits ih =>
    simp only [Option.map_eq_some_iff, Prod.exists, Prod.mk.injEq]
    constructor
    · rintro ⟨tail, back, found, rfl, rfl⟩
      obtain ⟨rfl, length⟩ := ih.mp found
      exact ⟨rfl, by rw [utf8LengthCons]; omega⟩
    · rintro ⟨whole, length⟩
      obtain ⟨tail, rfl, same, filled⟩ := frontFilled whole length
      exact ⟨tail, back, ih.mpr ⟨same, by omega⟩, rfl, rfl⟩
  | case4 c rest n wide =>
    simp only [reduceCtorEq, false_iff, not_and]
    intro whole length
    obtain ⟨tail, _, _, filled⟩ := frontFilled whole length
    omega

theorem sliceIff {s middle : List Char} {start stop : Nat} :
    slice? s start stop = some middle ↔
      ∃ before after, s = before ++ middle ++ after ∧ utf8Length before = start ∧
        utf8Length (before ++ middle) = stop := by
  simp only [slice?, utf8LengthAppend]
  split
  · rename_i ordered
    simp only [bind, Option.bind_eq_some_iff, Prod.exists, splitBytesIff, Option.some.injEq]
    constructor
    · rintro ⟨before, rest, ⟨rfl, first⟩, found, after, ⟨rfl, second⟩, rfl⟩
      exact ⟨before, after, (List.append_assoc ..).symm, first, by omega⟩
    · rintro ⟨before, after, rfl, first, second⟩
      exact ⟨before, middle ++ after, ⟨List.append_assoc .., first⟩, middle, after, ⟨rfl, by omega⟩, rfl⟩
  · simp only [reduceCtorEq, false_iff]
    rintro ⟨before, after, _, first, second⟩
    omega

end Text

namespace Position

/- A position behind some characters: the line counts the line ends among them, the column the bytes
since the last of these. -/
structure Behind (before : List Char) (p : Position) : Prop where
  line : p.line = before.count '\n' + 1
  column : ∃ earlier line, before = earlier ++ line ∧ '\n' ∉ line ∧
    (earlier = [] ∨ ∃ above, earlier = above ++ ['\n']) ∧ p.column = Text.utf8Length line + 1

theorem behindNext {before : List Char} {p : Position} (behind : Behind before p) (c : Char) :
    Behind (before ++ [c]) (p.next c) := by
  unfold next
  split
  · rename_i ends
    subst ends
    refine ⟨by simp [behind.line], before ++ ['\n'], [], (List.append_nil _).symm, List.not_mem_nil,
      .inr ⟨before, rfl⟩, rfl⟩
  · rename_i other
    obtain ⟨earlier, line, rfl, plain, ended, column⟩ := behind.column
    have still : '\n' ∉ line ++ [c] := by simpa [plain] using Ne.symm other
    refine ⟨?_, earlier, line ++ [c], List.append_assoc .., still, ended, ?_⟩
    · simp [behind.line, List.count_append, other]
    · show p.column + c.utf8Size = _
      rw [Text.utf8LengthAppend, Text.utf8LengthCons, Text.utf8LengthNil, column]
      omega

theorem behindAll {before : List Char} {p : Position} (behind : Behind before p) (rest : List Char) :
    Behind (before ++ rest) (rest.foldl next p) := by
  induction rest generalizing before p with
  | nil => rwa [List.append_nil]
  | cons c rest ih =>
    have step := ih (behindNext behind c)
    rwa [List.append_assoc] at step

theorem behindNothing : Behind [] first :=
  ⟨rfl, [], [], rfl, List.not_mem_nil, .inl rfl, rfl⟩

theorem advanceBehind (before after : List Char) (p : Position) :
    advance (before ++ after) (Text.utf8Length before) p = before.foldl next p := by
  induction before generalizing p with
  | nil => cases after <;> rfl
  | cons c rest ih =>
    have filled := c.utf8Size_pos
    have more : ¬ c.utf8Size + Text.utf8Length rest = 0 := by omega
    rw [List.cons_append, Text.utf8LengthCons, advance, if_neg more, Nat.add_sub_cancel_left, ih,
      List.foldl_cons]

theorem offsetBehind {source : String} {before after : List Char} {offset : Nat}
    (whole : source.toList = before ++ after) (length : Text.utf8Length before = offset) :
    (ofOffset source offset).Behind before := by
  rw [ofOffset, whole, ← length, advanceBehind]
  exact behindAll behindNothing before

end Position

variable {t : Tree}

def Node.Spans (n : Node t) (before middle after : List Char) : Prop :=
  t.source.toList = before ++ middle ++ after ∧ Text.utf8Length before = n.row.start ∧
    Text.utf8Length (before ++ middle) = n.row.stop

structure Snapshot.Shows (s : Snapshot) (n : Node t) : Prop where
  kind : s.kind = n.row.kind
  startByte : s.startByte = n.row.start
  stopByte : s.stopByte = n.row.stop
  start : s.start = n.start
  stop : s.stop = n.stop
  text : s.text = n.text
  inside : ∀ before middle after, n.Spans before middle after →
    s.start.Behind before ∧ s.stop.Behind (before ++ middle) ∧ s.text = String.ofList middle
  outside : (∀ before middle after, ¬ n.Spans before middle after) → s.text = ""

theorem Node.textInside {n : Node t} {before middle after : List Char}
    (spans : n.Spans before middle after) : n.text = String.ofList middle := by
  rw [Node.text, Text.sliceIff.mpr ⟨before, after, spans⟩, Option.getD_some]

theorem Node.textOutside {n : Node t} (nothing : ∀ before middle after, ¬ n.Spans before middle after) :
    n.text = "" := by
  unfold Node.text
  cases found : Text.slice? t.source.toList n.row.start n.row.stop with
  | none => rfl
  | some middle =>
    obtain ⟨before, after, spans⟩ := Text.sliceIff.mp found
    exact absurd spans (nothing before middle after)

theorem Node.snapshotShows (n : Node t) : n.snapshot.Shows n where
  kind := rfl
  startByte := rfl
  stopByte := rfl
  start := rfl
  stop := rfl
  text := rfl
  inside _ _ _ spans :=
    ⟨Position.offsetBehind (spans.1.trans (List.append_assoc ..)) spans.2.1,
      Position.offsetBehind spans.1 spans.2.2, Node.textInside spans⟩
  outside nothing := Node.textOutside nothing

end SyntaxAudit

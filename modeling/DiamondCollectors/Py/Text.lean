/-
DiamondCollectors/Py/Text.lean

The Python 2 string primitives the collectors call, on byte strings modelled as
`List Char`:

* `str.split()` with no separator (`split`) and `str.split(' ')` (core's
  `List.splitOn`);
* `str.splitlines()` (`splitlines`), which breaks at `\n`, `\r` and `\r\n`;
* `file.readline(size)` (`readline`), which stops after a newline or after
  `size` bytes, so that a line longer than `size` is read in pieces;
* the `in` operator on strings (`pyContains`), a substring test;
* `sep.join(parts)` and `s.split(sep)` for a one-byte `sep` (core's
  `List.intercalate` and `List.splitOn`): the parts of a split never hold
  `sep`, and on such parts `split` undoes `join`, so `join` is injective.

Whitespace is Python 2's `isspace` on bytes: space, `\t`, `\n`, `\r`, `\v`, `\f`.
-/
import Mathlib.Data.List.Infix

namespace Diamond

/-! ### Whitespace and `split` -/

/-- Python 2 `isspace` on one byte. -/
def isSpace (c : Char) : Bool :=
  c = ' ' || c = '\t' || c = '\n' || c = '\r' || c = '\x0b' || c = '\x0c'

/-- `s.split()`: the maximal runs of non-whitespace bytes, in order. -/
def split (s : List Char) : List (List Char) :=
  (s.splitOnP isSpace).filter fun t => !t.isEmpty

/-! ### `splitlines` -/

/-- A byte that ends a line for `splitlines`. -/
def isLineBreak (c : Char) : Bool := c = '\n' || c = '\r'

/-- `s.splitlines()`: the lines of `s` without their terminators `\n`, `\r` or
`\r\n`; a terminator at the very end opens no further line. -/
def splitlines : List Char → List (List Char)
  | [] => []
  | '\r' :: '\n' :: t => [] :: splitlines t
  | c :: s =>
    if isLineBreak c then [] :: splitlines s
    else
      match splitlines s with
      | [] => [[c]]
      | l :: ls => (c :: l) :: ls

theorem splitlines_cons_of_not_break {c : Char} (hc : isLineBreak c = false) (s : List Char) :
    splitlines (c :: s) = match splitlines s with
      | [] => [[c]]
      | l :: ls => (c :: l) :: ls := by
  rw [splitlines.eq_3 c s (fun _ h _ => by simp [h, isLineBreak] at hc), hc]
  rfl

/-- A piece `l` with no line break in it joins the first line of what follows. -/
theorem splitlines_append_of_noBreak {l : List Char} (hl : ∀ c ∈ l, isLineBreak c = false)
    (s : List Char) :
    splitlines (l ++ s) = match splitlines s with
      | [] => if l = [] then [] else [l]
      | x :: xs => (l ++ x) :: xs := by
  induction l with
  | nil => rw [List.nil_append]; cases splitlines s <;> simp
  | cons c l ih =>
    rw [List.cons_append, splitlines_cons_of_not_break (hl c (List.mem_cons_self _ _)),
      ih fun c' h => hl c' (List.mem_cons_of_mem _ h)]
    cases splitlines s with
    | nil => by_cases h : l = [] <;> simp [h]
    | cons x xs => rfl

/-- A line `l` ended by `\r\n`. -/
theorem splitlines_line_crlf {l : List Char} (hl : ∀ c ∈ l, isLineBreak c = false)
    (s : List Char) : splitlines (l ++ '\r' :: '\n' :: s) = l :: splitlines s := by
  rw [splitlines_append_of_noBreak hl]
  simp [splitlines]

/-- Text with no line break is one line, or none when empty. -/
theorem splitlines_of_noBreak {l : List Char} (hl : ∀ c ∈ l, isLineBreak c = false) :
    splitlines l = if l = [] then [] else [l] := by
  simpa [splitlines] using splitlines_append_of_noBreak hl []

/-- The lines of `s` as `f.readlines()` returns them: each keeps its `\n`, and
the last may have none. -/
def readlines : List Char → List (List Char)
  | [] => []
  | c :: s =>
    if c = '\n' then ['\n'] :: readlines s
    else
      match readlines s with
      | [] => [[c]]
      | l :: ls => (c :: l) :: ls

/-! ### `readline` -/

/-- `f.readline(size)` on a file whose unread bytes are `s`: the bytes read
(the newline included) and the bytes left.  It stops after a newline or after
`size` bytes.  At the end of `s` it returns what it has read, or raises `fault`
when a read past `s` fails. -/
def readline {ε : Type} (fault : Option ε) : Nat → List Char → Except ε (List Char × List Char)
  | 0, s => .ok ([], s)
  | _ + 1, [] =>
    match fault with
    | none => .ok ([], [])
    | some e => .error e
  | n + 1, c :: s =>
    if c = '\n' then .ok (['\n'], s)
    else (readline fault n s).map fun r => (c :: r.1, r.2)

theorem readline_zero {ε : Type} (fault : Option ε) (s : List Char) :
    readline fault 0 s = .ok ([], s) := rfl

@[simp] theorem readline_nil {ε : Type} (n : Nat) :
    readline (none : Option ε) (n + 1) [] = .ok ([], []) := rfl

theorem readline_cons {ε : Type} (fault : Option ε) (n : Nat) (c : Char) (s : List Char) :
    readline fault (n + 1) (c :: s) =
      if c = '\n' then .ok (['\n'], s)
      else (readline fault n s).map fun r => (c :: r.1, r.2) := rfl

/-- What `readline` returns and what it leaves make up what it was given. -/
theorem readline_append {ε : Type} {fault : Option ε} {n : Nat} {s l r : List Char}
    (h : readline fault n s = .ok (l, r)) : l ++ r = s := by
  induction n generalizing s l r with
  | zero => cases h; rfl
  | succ n ih =>
    cases s with
    | nil => cases fault <;> cases h; rfl
    | cons c s =>
      rw [readline_cons] at h
      split at h
      · cases h; simp_all
      · cases hr : readline fault n s with
        | error e => simp [hr, Except.map] at h
        | ok p =>
          simp only [hr, Except.map, Except.ok.injEq, Prod.mk.injEq] at h
          obtain ⟨rfl, rfl⟩ := h
          simp [ih hr]

/-- On a file that reads without error, `readline` returns. -/
theorem readline_none_ok (ε : Type) (n : Nat) (s : List Char) :
    ∃ l r, readline (none : Option ε) n s = .ok (l, r) := by
  induction n generalizing s with
  | zero => exact ⟨[], s, rfl⟩
  | succ n ih =>
    cases s with
    | nil => exact ⟨[], [], rfl⟩
    | cons c s =>
      rw [readline_cons]
      split
      · exact ⟨_, _, rfl⟩
      · obtain ⟨l, r, h⟩ := ih s
        exact ⟨c :: l, r, by simp [h, Except.map]⟩

/-- A `readline` of positive size returns nothing only at the end of the file. -/
theorem readline_eq_nil_iff {ε : Type} {fault : Option ε} {n : Nat} {s l r : List Char}
    (h : readline fault (n + 1) s = .ok (l, r)) : l = [] ↔ s = [] := by
  cases s with
  | nil => cases fault <;> cases h; simp
  | cons c s =>
    rw [readline_cons] at h
    split at h
    · cases h; simp
    · cases hr : readline fault n s with
      | error e => simp [hr, Except.map] at h
      | ok p =>
        simp only [hr, Except.map, Except.ok.injEq, Prod.mk.injEq] at h
        simp [← h.1]

/-! ### `sep.join` and `s.split(sep)` -/

@[simp] theorem intercalate_singleton (sep l : List Char) : sep.intercalate [l] = l := by
  simp [List.intercalate]

theorem intercalate_cons_cons (sep l l' : List Char) (parts : List (List Char)) :
    sep.intercalate (l :: l' :: parts) = l ++ sep ++ sep.intercalate (l' :: parts) := by
  simp [List.intercalate, List.intersperse_cons₂]

/-- A byte of `sep.join(parts)` comes from `sep` or from one of the parts. -/
theorem mem_of_mem_intercalate {sep : List Char} :
    ∀ {parts : List (List Char)} {c : Char}, c ∈ sep.intercalate parts →
      c ∈ sep ∨ ∃ l ∈ parts, c ∈ l
  | [], _, h => by simp [List.intercalate] at h
  | [l], _, h => .inr ⟨l, List.mem_singleton_self l, by simpa using h⟩
  | l :: l' :: parts, c, h => by
    rw [intercalate_cons_cons, List.mem_append, List.mem_append] at h
    rcases h with (h | h) | h
    · exact .inr ⟨l, List.mem_cons_self _ _, h⟩
    · exact .inl h
    · obtain h | ⟨l'', hl, hc⟩ := mem_of_mem_intercalate h
      · exact .inl h
      · exact .inr ⟨l'', List.mem_cons_of_mem _ hl, hc⟩

/-- Every part is a piece of `sep.join(parts)`. -/
theorem subset_intercalate {sep : List Char} :
    ∀ {parts : List (List Char)} {l : List Char}, l ∈ parts → l ⊆ sep.intercalate parts
  | [], _, h => absurd h (List.not_mem_nil _)
  | [l'], _, h => by rw [List.mem_singleton.1 h, intercalate_singleton]; exact List.Subset.refl _
  | l' :: l'' :: parts, l, h => by
    rw [intercalate_cons_cons]
    rcases List.mem_cons.1 h with rfl | h
    · exact List.subset_append_of_subset_left _ (List.subset_append_left _ _)
    · exact List.subset_append_of_subset_right _ (subset_intercalate h)

/-- No part of `s.split(sep)` holds `sep`. -/
theorem not_mem_of_mem_splitOn {x : Char} : ∀ {s l : List Char}, l ∈ s.splitOn x → x ∉ l
  | [], l, h => by simp [List.splitOn_nil] at h; simp [h]
  | y :: s, l, h => by
    rw [List.splitOn, List.splitOnP_cons] at h
    split at h
    · rcases List.mem_cons.1 h with rfl | h
      · exact List.not_mem_nil _
      · exact not_mem_of_mem_splitOn h
    · next hne =>
      -- `y` is not `sep`: it joins the first part of the split of `s`
      obtain ⟨p, ps, hps⟩ := List.exists_cons_of_ne_nil (List.splitOnP_ne_nil (· == x) s)
      have hmem : ∀ {l}, l ∈ p :: ps → x ∉ l := fun h' =>
        not_mem_of_mem_splitOn (by rw [List.splitOn, hps]; exact h')
      rw [hps, List.modifyHead_cons] at h
      rcases List.mem_cons.1 h with rfl | h
      · simp only [List.mem_cons, not_or]
        exact ⟨fun e => hne (by rw [e, beq_self_eq_true]), hmem (List.mem_cons_self _ _)⟩
      · exact hmem (List.mem_cons_of_mem _ h)

/-- `sep.join` is injective on non-empty lists of parts without `sep`. -/
theorem intercalate_inj {x : Char} {ls ls' : List (List Char)} (hx : ∀ l ∈ ls, x ∉ l)
    (hx' : ∀ l ∈ ls', x ∉ l) (hls : ls ≠ []) (hls' : ls' ≠ [])
    (h : [x].intercalate ls = [x].intercalate ls') : ls = ls' := by
  rw [← List.splitOn_intercalate ls x hx hls, h, List.splitOn_intercalate ls' x hx' hls']

/-- Splitting `sep.join(parts + [last])` at `sep` gives back the parts, when
they hold no `sep`, and then the pieces of `last`. -/
theorem splitOn_intercalate_append {x : Char} :
    ∀ {ls : List (List Char)}, (∀ l ∈ ls, x ∉ l) → ∀ last : List Char,
      ([x].intercalate (ls ++ [last])).splitOn x = ls ++ last.splitOn x
  | [], _, last => by simp
  | l :: ls, hx, last => by
    obtain ⟨l', rest, hcons⟩ := List.exists_cons_of_ne_nil (List.append_ne_nil_of_right_ne_nil ls
      (List.cons_ne_nil last []))
    have hl : ∀ c ∈ l, ¬(c == x) = true := fun c hc e =>
      hx l (List.mem_cons_self _ _) (beq_iff_eq.1 e ▸ hc)
    rw [List.cons_append, hcons, intercalate_cons_cons, List.append_assoc, List.singleton_append,
      List.splitOn, List.splitOnP_first _ _ hl x (beq_self_eq_true x), ← List.splitOn, ← hcons,
      splitOn_intercalate_append (fun l hl => hx l (List.mem_cons_of_mem _ hl)) last,
      List.cons_append]

/-! ### Substrings -/

/-- `sub in s` for two strings: some suffix of `s` starts with `sub`. -/
def pyContains (s sub : List Char) : Bool := s.tails.any sub.isPrefixOf

theorem pyContains_iff (s sub : List Char) : pyContains s sub = true ↔ sub <:+: s := by
  simp only [pyContains, List.any_eq_true, List.mem_tails, List.isPrefixOf_iff_prefix,
    List.infix_iff_prefix_suffix]
  exact ⟨fun ⟨t, ht, hp⟩ => ⟨t, hp, ht⟩, fun ⟨t, hp, ht⟩ => ⟨t, ht, hp⟩⟩

end Diamond

/-
# The expressions that are understood

The compiler understands a text when its tree has no invalid leaf. Here the understood
texts are shown to be those that chains of padded operands write, and their trees to be
the precedence trees of these chains. One direction follows the compiler into a text: a
cut leaves two shorter texts, and two chains make a longer one. The other follows a
chain: padding is trimmed away, the last operator of the loosest level used is where the
text is cut, and both sides are shorter chains. Which leaves the compiler finds in other
texts is left open.
-/

import Kata.Proofs.Expr.Flat

namespace Kata

/-- Whether no part of a text was left without a form. -/
def Expr.Understood : Expr → Prop
  | .literal _ => True
  | .var _ => True
  | .binary _ left right => left.Understood ∧ right.Understood
  | .invalid _ => False

theorem Operand.understood_tree (o : Operand) : o.tree.Understood := by
  rw [tree]
  cases Literal.value? o.word <;> trivial

namespace Chain

/-! ## Padding -/

/-- A chain is its core between blanks, and the core can be put between any blanks. -/
theorem exists_core (c : Chain Operand) :
    ∃ front core back, Text.allBlank front = true ∧ Text.allBlank back = true ∧
      c.text = front ++ (core ++ back) ∧
      Text.startsBlank core = false ∧ Text.endsBlank core = false ∧
      ∀ front' back', Text.allBlank front' = true → Text.allBlank back' = true →
        ∃ c' : Chain Operand, c'.text = front' ++ (core ++ back') ∧
          c'.map Operand.tree = c.map Operand.tree := by
  obtain ⟨first, links⟩ := c
  rcases List.eq_nil_or_concat links with rfl | ⟨init, ⟨op, last⟩, rfl⟩
  · refine ⟨first.front, first.word, first.back, first.front_blank, first.back_blank, ?_,
      first.atom_word.startsBlank_eq_false, first.atom_word.endsBlank_eq_false, ?_⟩
    · simp [text, linksText, Operand.text]
    · intro front back front_blank back_blank
      refine ⟨⟨first.within front back front_blank back_blank, []⟩, ?_, rfl⟩
      simp [text, linksText, Operand.text, Operand.within]
  · refine ⟨first.front, first.word ++ (first.back ++ (linksText init ++
        ' ' :: (op.symbol.toList ++ ' ' :: (last.front ++ last.word)))), last.back,
      first.front_blank, last.back_blank, ?_, ?_, ?_, ?_⟩
    · simp [text, linksText_append, linksText, Operand.text]
    · obtain ⟨c, rest, shape⟩ := List.exists_cons_of_ne_nil first.atom_word.ne_nil
      have starts := first.atom_word.startsBlank_eq_false
      rw [shape] at starts ⊢
      exact starts
    · have ends := Text.endsBlank_append (first.word ++ (first.back ++ (linksText init ++
        ' ' :: (op.symbol.toList ++ ' ' :: last.front)))) last.atom_word.ne_nil
      rw [last.atom_word.endsBlank_eq_false] at ends
      simpa using ends
    · intro front back front_blank back_blank
      refine ⟨⟨first.within front first.back front_blank first.back_blank,
        init.concat (op, last.within last.front back last.front_blank back_blank)⟩, ?_, ?_⟩
      · simp [text, linksText_append, linksText, Operand.text, Operand.within]
      · simp [map, Operand.within, Operand.tree]

theorem exists_text_eq_append (c : Chain Operand) {front back : List Char}
    (front_blank : Text.allBlank front = true) (back_blank : Text.allBlank back = true) :
    ∃ c' : Chain Operand, c'.text = front ++ (c.text ++ back) := by
  obtain ⟨inner, core, outer, inner_blank, outer_blank, shape, -, -, put⟩ := c.exists_core
  obtain ⟨c', written, -⟩ := put (front ++ inner) (outer ++ back)
    (by simp [front_blank, inner_blank]) (by simp [outer_blank, back_blank])
  exact ⟨c', by rw [written, shape]; simp⟩

/-- The trimmed text of a chain is written by a chain of the same leaves. -/
theorem exists_text_eq_trim (c : Chain Operand) :
    ∃ c' : Chain Operand, c'.text = Text.trim c.text ∧
      c'.map Operand.tree = c.map Operand.tree := by
  obtain ⟨front, core, back, front_blank, back_blank, shape, starts, ends, put⟩ :=
    c.exists_core
  obtain ⟨c', written, leaves⟩ := put [] [] rfl rfl
  refine ⟨c', ?_, leaves⟩
  rw [written, shape, Text.trim_append_left front_blank, Text.trim_append_right _ back_blank,
    Text.trim_eq_self starts ends]
  simp

/-! ## From chains to trees -/

variable {c left right : Chain Operand} {ops : List Op} {op : Op}

theorem uses_map {α β : Type} (f : α → β) (c : Chain α) : (c.map f).Uses ops ↔ c.Uses ops := by
  simp [Uses, map]

theorem map_join {α β : Type} (f : α → β) (left : Chain α) (op : Op) (right : Chain α) :
    (left.join op right).map f = (left.map f).join op (right.map f) := by
  simp [map, join]

theorem not_uses_of_join (unused : ¬ (left.join op right).Uses ops) :
    ¬ left.Uses ops ∧ ¬ right.Uses ops := by
  constructor
  · rintro ⟨link, inside, used⟩
    exact unused ⟨link, List.mem_append_left _ inside, used⟩
  · rintro ⟨link, inside, used⟩
    exact unused ⟨link, List.mem_append_right _ (List.mem_cons_of_mem _ inside), used⟩

/-- Going through the levels from the loosest one, the compiler cuts the text of a chain
where the tree of the chain has its root. -/
theorem exists_join_of_uses {levels : List (List Op)}
    (used : ∃ ops ∈ levels, c.Uses ops) :
    ∃ left op right, c = join left op right ∧
      levels.findSome? (fun ops => Expr.splitLast? ops none c.text) =
        some (text left, op, text right) ∧
      treeBy levels (c.map Operand.tree) =
        .binary op (treeBy levels (left.map Operand.tree))
          (treeBy levels (right.map Operand.tree)) := by
  induction levels with
  | nil => simp at used
  | cons ops tighter ih =>
      by_cases here : c.Uses ops
      · obtain ⟨left, op, right, inside, last, rfl⟩ := exists_last_join here
        refine ⟨left, op, right, rfl, ?_, ?_⟩
        · rw [List.findSome?_cons, splitLast?_text_join inside left last]
        · rw [map_join]
          exact treeBy_join inside _ (mt (uses_map _ right).mp last)
      · have later : ∃ ops ∈ tighter, c.Uses ops := by
          obtain ⟨other, member, used⟩ := used
          rcases List.mem_cons.mp member with rfl | member
          · exact absurd used here
          · exact ⟨other, member, used⟩
        obtain ⟨left, op, right, rfl, cut, root⟩ := ih later
        obtain ⟨notLeft, notRight⟩ := not_uses_of_join here
        refine ⟨left, op, right, rfl, ?_, ?_⟩
        · rw [List.findSome?_cons, splitLast?_text_eq_none here]
          exact cut
        · rw [treeBy_of_not_uses (mt (uses_map _ _).mp here), root,
            treeBy_of_not_uses (mt (uses_map _ _).mp notLeft),
            treeBy_of_not_uses (mt (uses_map _ _).mp notRight)]

/-- A chain with more than one operand is no leaf: the space behind the first operand is
outside quotes. -/
theorem leaf?_text_eq_none (several : c.links ≠ []) : Expr.leaf? c.text = none := by
  cases found : Expr.leaf? c.text with
  | none => rfl
  | some leaf =>
      obtain ⟨⟨op, o⟩, rest, shape⟩ := List.exists_cons_of_ne_nil several
      have atom := Expr.atom_of_leaf? found
      refine absurd c.first.quoteAfter_text ?_
      refine atom.hides (c := ' ') (by decide) (by decide) c.first.text
        (op.symbol.toList ++ ' ' :: (o.text ++ linksText rest)) ?_
      rw [text, shape, linksText_cons]

theorem exists_level (several : c.links ≠ []) : ∃ ops ∈ levels, c.Uses ops := by
  obtain ⟨⟨op, o⟩, rest, shape⟩ := List.exists_cons_of_ne_nil several
  have level : ∃ ops ∈ levels, op ∈ ops := by cases op <;> decide
  obtain ⟨ops, member, inside⟩ := level
  exact ⟨ops, member, (op, o), shape ▸ List.mem_cons_self, inside⟩

/-- The compiler gives the text of a chain the tree of the chain. The induction is on the
number of operators, since trimming may shorten a text without removing one. -/
theorem compile_text (c : Chain Operand) : Expr.compile c.text = c.compiled := by
  induction size : c.links.length using Nat.strongRecOn generalizing c with
  | ind n ih =>
      obtain ⟨bare, trimmed, leaves⟩ := c.exists_text_eq_trim
      have sameSize : bare.links.length = n := by
        have lengths := congrArg (fun c : Chain Expr => c.links.length) leaves
        simpa [map, size] using lengths
      have sameTree : c.compiled = bare.compiled := by rw [compiled, compiled, leaves]
      rw [sameTree, Expr.compile_eq, ← trimmed]
      by_cases single : bare.links = []
      · have word : bare.text = bare.first.word := by
          have again : Text.trim bare.text = bare.text := by rw [trimmed, Text.trim_trim]
          rw [← again, text, single, linksText, List.append_nil, Operand.text,
            Text.trim_append_left bare.first.front_blank,
            Text.trim_append_right _ bare.first.back_blank, bare.first.atom_word.trim_eq_self]
        have alone : bare.compiled = bare.first.tree := by
          obtain ⟨first, links⟩ := bare
          obtain rfl : links = [] := single
          rfl
        rw [word, bare.first.leaf?_word, alone]
      · obtain ⟨left, op, right, rfl, cut, root⟩ := exists_join_of_uses (exists_level single)
        have lengths : (left.join op right).links.length =
            left.links.length + right.links.length + 1 := by
          simp [join, Nat.add_assoc]
        rw [leaf?_text_eq_none single, Expr.split?, ← levels_eq, cut]
        show Expr.binary op (Expr.compile left.text) (Expr.compile right.text) = _
        rw [ih left.links.length (by omega) left rfl, ih right.links.length (by omega) right rfl]
        exact root.symm

/-! ## From trees to chains -/

/-- The tree of a chain is understood: its root either is an operand or stands between
two chains. -/
theorem understood_compiled (c : Chain Operand) : c.compiled.Understood := by
  induction size : c.links.length using Nat.strongRecOn generalizing c with
  | ind n ih =>
      by_cases single : c.links = []
      · obtain ⟨first, links⟩ := c
        obtain rfl : links = [] := single
        exact first.understood_tree
      · obtain ⟨left, op, right, rfl, -, root⟩ := exists_join_of_uses (exists_level single)
        have lengths : (left.join op right).links.length =
            left.links.length + right.links.length + 1 := by
          simp [join, Nat.add_assoc]
        rw [compiled, tree, root]
        exact ⟨ih left.links.length (by omega) left rfl,
          ih right.links.length (by omega) right rfl⟩

/-- A leaf is understood only as a literal or as a name, so its text is an operand. -/
theorem exists_operand_of_leaf? {s : List Char} {leaf : Expr}
    (found : Expr.leaf? s = some leaf) : ∃ o : Operand, o.text = s ∧ o.tree = leaf := by
  have isLeaf : (Literal.value? s).isSome = true ∨ Text.isName s = true := by
    rcases Expr.leaf?_cases found with ⟨value, read, -⟩ | ⟨-, name, -⟩
    · exact .inl (by rw [read, Option.isSome_some])
    · exact .inr name
  let o : Operand := ⟨[], s, [], rfl, rfl, isLeaf⟩
  exact ⟨o, by simp [o, Operand.text], Option.some.inj (o.leaf?_word.symm.trans found)⟩

/-- A text that is understood is written by a chain: a leaf is an operand, and the chains of
both sides of a cut make up that of the text. -/
theorem exists_text_eq_of_understood {s : List Char} (understood : (Expr.compile s).Understood) :
    ∃ c : Chain Operand, c.text = s := by
  -- Trimming only changes the padding of a chain.
  have padded {s : List Char} (core : ∃ c : Chain Operand, c.text = Text.trim s) :
      ∃ c : Chain Operand, c.text = s := by
    obtain ⟨front, back, front_blank, back_blank, shape⟩ := Text.exists_padding s
    obtain ⟨c, written⟩ := core
    obtain ⟨c', whole⟩ := c.exists_text_eq_append front_blank back_blank
    exact ⟨c', by rw [whole, written]; exact shape.symm⟩
  induction s using Expr.compile_induct with
  | leaf s tree single compiled =>
      obtain ⟨o, written, -⟩ := exists_operand_of_leaf? single
      exact padded ⟨⟨o, []⟩, by simp [text, linksText, written]⟩
  | cut s left op right single cut compiled ihLeft ihRight =>
      rw [compiled] at understood
      obtain ⟨leftChain, leftText⟩ := ihLeft understood.1
      obtain ⟨rightChain, rightText⟩ := ihRight understood.2
      obtain ⟨ops, -, atLevel⟩ := List.exists_of_findSome?_eq_some cut
      refine padded ⟨leftChain.join op rightChain, ?_⟩
      rw [text_join, leftText, rightText]
      exact (Expr.of_splitLast?_eq_some atLevel).2.symm
  | invalid s uncut compiled =>
      rw [compiled] at understood
      exact understood.elim

/-- The compiler understands exactly the texts of chains, and gives each the precedence
tree of its chain. -/
theorem understood_iff_chain_and_compile_eq_tree :
    (∀ s : List Char, (Expr.compile s).Understood ↔ ∃ c : Chain Operand, c.text = s) ∧
      ∀ c : Chain Operand, Expr.compile c.text = (c.map Operand.tree).tree := by
  refine ⟨fun s => ⟨exists_text_eq_of_understood, ?_⟩, compile_text⟩
  rintro ⟨c, rfl⟩
  rw [compile_text]
  exact c.understood_compiled

/-- All three levels in one text: the differences group to the left, the remainder binds tighter
and the comparison looser, and a quoted operand is no product. -/
theorem compile_eq_tree_of_three_levels :
    let a : Operand := ⟨[], ['a'], [], rfl, rfl, by decide⟩
    let b : Operand := ⟨[], ['b'], [' '], rfl, rfl, by decide⟩
    let quoted : Operand := ⟨[], "'c * d'".toList, [], rfl, rfl, by decide⟩
    let c : Chain Operand := ⟨a, [(.sub, b), (.sub, quoted), (.rem, b), (.eq, a)]⟩
    c.text = "a - b  - 'c * d' % b  == a".toList ∧ (Expr.compile c.text).Understood ∧
      Expr.compile c.text =
        .binary .eq
          (.binary .sub (.binary .sub (.var "a") (.var "b"))
            (.binary .rem (.literal (.text "c * d")) (.var "b")))
          (.var "a") := by
  intro a b quoted c
  obtain ⟨understood, compiled⟩ := understood_iff_chain_and_compile_eq_tree
  exact ⟨rfl, (understood c.text).mpr ⟨c, rfl⟩, compiled c⟩

end Chain

end Kata

/-
In-place updates of pairs of words.

A wing reads two words of a memory and replaces both.  Wings that share no
address may be applied in any order, so a list of wings that are apart from each
other has one result for all its permutations.

Nothing here mentions a particular circuit.
-/

import Synesthesia.Rtl.Memory

namespace Synesthesia.Rtl

variable {Address Word : Type}

structure Wing (Address Word : Type) where
  first : Address
  second : Address
  op : Word → Word → Word × Word

namespace Wing

structure Apart (left right : Wing Address Word) : Prop where
  firsts : left.first ≠ right.first
  firstSecond : left.first ≠ right.second
  secondFirst : left.second ≠ right.first
  seconds : left.second ≠ right.second

theorem Apart.symm {left right : Wing Address Word} (apart : Apart left right) :
    Apart right left :=
  { firsts := apart.firsts.symm
    firstSecond := apart.secondFirst.symm
    secondFirst := apart.firstSecond.symm
    seconds := apart.seconds.symm }

variable [DecidableEq Address]

/-- Both words are read before either is replaced. -/
def apply (memory : Address → Word) (wing : Wing Address Word) : Address → Word :=
  fun probe =>
    if probe = wing.second then (wing.op (memory wing.first) (memory wing.second)).2
    else if probe = wing.first then (wing.op (memory wing.first) (memory wing.second)).1
    else memory probe

theorem store_store_eq_apply (memory : Address → Word) (wing : Wing Address Word) :
    store (store memory true wing.first (wing.op (memory wing.first) (memory wing.second)).1)
        true wing.second (wing.op (memory wing.first) (memory wing.second)).2 =
      apply memory wing := by
  funext probe
  simp only [store, apply, true_and]

theorem apply_other (memory : Address → Word) (wing : Wing Address Word) {probe : Address}
    (notFirst : probe ≠ wing.first) (notSecond : probe ≠ wing.second) :
    apply memory wing probe = memory probe := by
  rw [apply, if_neg notSecond, if_neg notFirst]

theorem Apart.operands {left right : Wing Address Word} (apart : Apart left right)
    (memory : Address → Word) :
    apply memory right left.first = memory left.first ∧
      apply memory right left.second = memory left.second :=
  ⟨apply_other memory right apart.firsts apart.firstSecond,
    apply_other memory right apart.secondFirst apart.seconds⟩

theorem apply_comm {left right : Wing Address Word} (apart : Apart left right)
    (memory : Address → Word) :
    apply (apply memory left) right = apply (apply memory right) left := by
  obtain ⟨leftFirst, leftSecond⟩ := apart.operands memory
  obtain ⟨rightFirst, rightSecond⟩ := apart.symm.operands memory
  funext probe
  have outer : ∀ (inner : Address → Word) (wing : Wing Address Word),
      apply inner wing probe =
        if probe = wing.second then (wing.op (inner wing.first) (inner wing.second)).2
        else if probe = wing.first then (wing.op (inner wing.first) (inner wing.second)).1
        else inner probe := fun _ _ => rfl
  rw [outer (apply memory left) right, outer (apply memory right) left, leftFirst, leftSecond,
    rightFirst, rightSecond, outer memory left, outer memory right]
  have := apart.firsts
  have := apart.firstSecond
  have := apart.secondFirst
  have := apart.seconds
  grind

/-- The order of wings that are apart does not matter. -/
theorem foldl_perm {wings others : List (Wing Address Word)} (perm : wings.Perm others)
    (apart : ∀ left ∈ wings, ∀ right ∈ wings, left = right ∨ Apart left right)
    (memory : Address → Word) : wings.foldl apply memory = others.foldl apply memory := by
  refine perm.foldl_eq' ?_ memory
  intro left leftIn right rightIn inner
  rcases apart left leftIn right rightIn with rfl | apart
  · rfl
  · exact apply_comm apart inner

/-- Wings that are apart from each other turn words that satisfy `before` into
words that satisfy the weaker `after`.  While they do, the operands of the wings
still to come satisfy `before`. -/
theorem foldl_weakens (before after : Word → Prop) (wings : List (Wing Address Word))
    (apart : wings.Pairwise Apart)
    (results : ∀ wing ∈ wings, ∀ left right, before left → before right →
      after (wing.op left right).1 ∧ after (wing.op left right).2)
    (memory : Address → Word) (words : ∀ address, after (memory address))
    (operands : ∀ wing ∈ wings, before (memory wing.first) ∧ before (memory wing.second)) :
    ∀ count, (∀ address, after ((wings.take count).foldl apply memory address)) ∧
      ∀ wing ∈ wings.drop count,
        before ((wings.take count).foldl apply memory wing.first) ∧
          before ((wings.take count).foldl apply memory wing.second) := by
  induction wings generalizing memory with
  | nil =>
      intro count
      rw [List.take_nil, List.drop_nil]
      exact ⟨words, nofun⟩
  | cons head tail ih =>
      intro count
      cases count with
      | zero => exact ⟨words, operands⟩
      | succ count =>
          obtain ⟨headApart, tailApart⟩ := List.pairwise_cons.mp apart
          obtain ⟨first, second⟩ := operands head List.mem_cons_self
          obtain ⟨afterFirst, afterSecond⟩ :=
            results head List.mem_cons_self _ _ first second
          refine ih tailApart (fun wing member => results wing (List.mem_cons_of_mem _ member))
            (apply memory head) ?_ ?_ count
          · intro address
            rw [apply]
            split
            · exact afterSecond
            · split
              · exact afterFirst
              · exact words address
          · intro wing member
            obtain ⟨sameFirst, sameSecond⟩ := (headApart wing member).symm.operands memory
            rw [sameFirst, sameSecond]
            exact operands wing (List.mem_cons_of_mem _ member)

theorem foldl_other (wings : List (Wing Address Word)) {probe : Address}
    (untouched : ∀ wing ∈ wings, probe ≠ wing.first ∧ probe ≠ wing.second)
    (memory : Address → Word) : wings.foldl apply memory probe = memory probe := by
  induction wings generalizing memory with
  | nil => rfl
  | cons head tail ih =>
      obtain ⟨notFirst, notSecond⟩ := untouched head List.mem_cons_self
      rw [List.foldl_cons, ih fun wing member => untouched wing (List.mem_cons_of_mem _ member),
        apply_other memory head notFirst notSecond]

theorem foldl_operands {wings : List (Wing Address Word)} (apart : wings.Pairwise Apart)
    {wing : Wing Address Word} (member : wing ∈ wings) (distinct : wing.second ≠ wing.first)
    (memory : Address → Word) :
    wings.foldl apply memory wing.first = (wing.op (memory wing.first) (memory wing.second)).1 ∧
      wings.foldl apply memory wing.second =
        (wing.op (memory wing.first) (memory wing.second)).2 := by
  induction wings generalizing memory with
  | nil => exact absurd member List.not_mem_nil
  | cons head tail ih =>
      obtain ⟨headApart, tailApart⟩ := List.pairwise_cons.mp apart
      rw [List.foldl_cons]
      rcases List.mem_cons.mp member with rfl | later
      · constructor
        · rw [foldl_other tail fun other inside =>
            ⟨(headApart other inside).firsts, (headApart other inside).firstSecond⟩]
          rw [apply, if_neg distinct.symm, if_pos rfl]
        · rw [foldl_other tail fun other inside =>
            ⟨(headApart other inside).secondFirst, (headApart other inside).seconds⟩]
          rw [apply, if_pos rfl]
      · obtain ⟨first, second⟩ := (headApart wing later).symm.operands memory
        have worked := ih tailApart later (apply memory head)
        rwa [first, second] at worked

end Wing

end Synesthesia.Rtl

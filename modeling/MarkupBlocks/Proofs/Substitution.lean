/-
A leaf stands for nothing but itself.

A leaf in a document may be replaced by any other, as long as it is not the payload of a control
property. What decides how the run ends does not depend on the leaf: a leaf has no control
properties and no depth, and further out the tree around it is an element with the same control
properties. So the fault is the same, if there is one. The outline has the leaf in one place, or in
none when a part of the tree around it is not looked at: a payload, or a child that has a path that
cannot be read or is carried again by a later child. When the place is in the outline, all that is
written before it and after it is the same for every leaf.
-/

import MarkupBlocks.Proofs.OpenOutlines

namespace MarkupBlocks

/-! ### Leaves in a place -/

namespace Surroundings

/-- What a node amounts to in its place. Among siblings a text loses its layout, and it is dropped
when nothing else was in it. -/
def settle (node : Node) : Surroundings → Option Node
  | prop _ => some node
  | document _ _ | children _ _ => node.significant?

/-- A place is not that of the payload of a control property. -/
def Free : Surroundings → Prop
  | prop name => Control.isReserved name = false
  | document _ _ | children _ _ => True

/-- A leaf that may stand in a place, and what it amounts to there. -/
structure Choice (surroundings : Surroundings) where
  leaf : Leaf
  kept : Leaf
  settles : surroundings.settle (.leaf leaf) = some (.leaf kept)

variable {surroundings : Surroundings}

instance : Inhabited surroundings.Choice where
  default := ⟨.boolean true, .boolean true, by cases surroundings <;> rfl⟩

/-- A leaf may stand in every place where it amounts to anything. -/
theorem exists_choice {leaf : Leaf} (some : surroundings.settle (.leaf leaf) ≠ none) :
    ∃ choice : surroundings.Choice, choice.leaf = leaf := by
  obtain ⟨node, settles⟩ := Option.ne_none_iff_exists'.mp some
  have sibling (survives : (Node.leaf leaf).significant? = Option.some node) :
      ∃ kept, node = .leaf kept := by
    rcases Node.significant?_eq_some survives with ⟨text, -, rfl⟩ | ⟨rfl, -⟩
    · exact ⟨_, rfl⟩
    · exact ⟨leaf, rfl⟩
  have isLeaf : ∃ kept, node = .leaf kept := by
    cases surroundings with
    | document before after => exact sibling settles
    | prop name => exact ⟨leaf, (Option.some.inj settles).symm⟩
    | children before after => exact sibling settles
  obtain ⟨kept, rfl⟩ := isLeaf
  exact ⟨⟨leaf, kept, settles⟩, rfl⟩

theorem settle_element (surroundings : Surroundings) (element : Element) :
    surroundings.settle (.element element) = some (.element element) := by
  cases surroundings <;> rfl

/-- What is around a place sees no difference between leaves, as long as it does not look at how
they are written. -/
theorem Free.alike (free : surroundings.Free) (left right : surroundings.Choice) :
    surroundings.Alike (.stepsUpTo Step.decides) (.leaf left.leaf) (.leaf right.leaf) := by
  have agree (first second : Leaf) :
      (Comparison.stepsUpTo Step.decides).Agree (.leaf first) (.leaf second) := by
    refine ⟨fun depth => ?_, trivial⟩
    rw [Node.journal_leaf, Node.journal_leaf]
    rfl
  have siblings (nodes : List Node)
      (leftKept : (Node.leaf left.leaf).significant? = some (.leaf left.kept))
      (rightKept : (Node.leaf right.leaf).significant? = some (.leaf right.kept)) :
      SiblingsAlike (.stepsUpTo Step.decides) nodes (.leaf left.leaf) (.leaf right.leaf) := by
    rw [SiblingsAlike, leftKept, rightKept]
    refine .some ⟨agree _ _, fun _ position => ⟨rfl, fun depth => ?_⟩⟩
    rw [Node.journal_leaf, Node.journal_leaf]
    rfl
  cases surroundings with
  | document before after => exact siblings _ left.settles right.settles
  | prop name =>
    exact ⟨fun _ => agree _ _, fun reserved => absurd (free.symm.trans reserved) Bool.false_ne_true⟩
  | children before after =>
    exact ⟨rfl, fun _ => agree _ _, fun _ => siblings _ left.settles right.settles⟩

end Surroundings

/-! ### Places that are looked at -/

/-- The place of a context is looked at when a node is in it: all around it are, and none of them is
the payload of a control property. -/
def Context.Shows (node : Node) : Context → Prop
  | here => True
  | prop _ _ name inner _ _ _ => Control.isReserved name = false ∧ inner.Shows node
  | child _ _ _ inner after _ => Children.Taken (inner.fill node) after ∧ inner.Shows node

/-- As leaves are put into the place of a context, the outline varies only where the leaf shows. -/
theorem Context.opensOnce_fill (context : Context) {outer : Surroundings}
    (free : (context.around outer).Free) :
    ∃ node : (context.around outer).Choice → Node,
      (∀ choice, outer.settle (context.fill (.leaf choice.leaf)) = some (node choice)) ∧
        OpensOnce Surroundings.Choice.kept (fun choice => context.Shows (.leaf choice.leaf))
          fun choice => (node choice).outline := by
  induction context generalizing outer with
  | here =>
    exact ⟨fun choice => .leaf choice.kept, fun choice => choice.settles,
      Or.inr ⟨.here, fun choice => ⟨trivial, Node.outline_leaf choice.kept⟩⟩⟩
  | prop identifier before name inner after children selfClosing inductionHypothesis =>
    obtain ⟨node, settles, opens⟩ := inductionHypothesis free
    obtain rfl : (fun choice => inner.fill (.leaf choice.leaf)) = node :=
      funext fun choice => Option.some.inj (settles choice)
    exact ⟨_, fun choice => outer.settle_element _,
      opens.prop identifier before name after children selfClosing fun choice =>
        inner.alike_fill (free.alike choice default)⟩
  | child identifier props before inner after selfClosing inductionHypothesis =>
    obtain ⟨node, settles, opens⟩ := inductionHypothesis free
    exact ⟨_, fun choice => outer.settle_element _,
      opens.child identifier props before after selfClosing settles fun choice =>
        inner.alike_fill (free.alike choice default)⟩

/-! ### Documents -/

/-- A document with a leaf put into a place. -/
def Context.document (before : List Node) (context : Context) (after : List Node) (leaf : Leaf) :
    List Node :=
  before ++ context.fill (.leaf leaf) :: after

section Documents

variable {context : Context} {before after : List Node}
  (free : (context.around (.document before after)).Free)

include free

/-- What decides how the run ends does not depend on the leaf. -/
theorem Context.decides_document (choice other : (context.around (.document before after)).Choice) :
    (documentJournal (context.document before after choice.leaf)).filter Step.decides =
      (documentJournal (context.document before after other.leaf)).filter Step.decides :=
  (siblingsAgree_fill (free.alike choice other)).1 0

theorem Context.opensOnce_document :
    OpensOnce Surroundings.Choice.kept (fun choice => context.Shows (.leaf choice.leaf))
      fun choice : (context.around (.document before after)).Choice =>
        Siblings.outline (Siblings.significant (context.document before after choice.leaf)) := by
  obtain ⟨node, settles, opens⟩ := context.opensOnce_fill free
  have kept (choice : (context.around (.document before after)).Choice) :
      Siblings.significant (context.document before after choice.leaf) =
        Siblings.significant before ++ node choice :: Siblings.significant after := by
    have survives : (context.fill (.leaf choice.leaf)).significant? = some (node choice) :=
      settles choice
    rw [document, Siblings.significant_append_cons, survives]
    rfl
  simp only [kept]
  refine opens.siblings _ _ fun choice several position => ?_
  rw [← kept] at several
  exact SiblingsAlike.slotLabel_eq (context.alike_fill (free.alike choice default)) (settles choice)
    (settles default) several position

/-- A leaf stands for nothing but itself. Put any leaf into a place of a document that is not that
of the payload of a control property. Then the document does not render, and ends in one fault
whatever the leaf is; or the place is not looked at and the document renders to one text; or the
place is looked at, and what is written before the leaf and after it is the same for all leaves. -/
theorem render_fill_leaf (settings : Settings) :
    (∃ fault, ∀ choice : (context.around (.document before after)).Choice,
      (settings.render (context.document before after choice.leaf)).result = .error fault) ∨
    (∃ text, ∀ choice : (context.around (.document before after)).Choice,
      ¬ context.Shows (.leaf choice.leaf) ∧
        (settings.render (context.document before after choice.leaf)).result = .ok text) ∨
    ∃ start rest, ∀ choice : (context.around (.document before after)).Choice,
      context.Shows (.leaf choice.leaf) ∧
        (settings.render (context.document before after choice.leaf)).result =
          .ok (start ++ choice.kept.print ++ rest) := by
  let first : (context.around (.document before after)).Choice := default
  have result (choice : (context.around (.document before after)).Choice) :
      (settings.render (context.document before after choice.leaf)).result =
        (follow settings.maxDepth ((documentJournal (context.document before after
          first.leaf)).filter Step.decides) ()).result.map fun _ =>
            (assignmentTree (context.document before after choice.leaf)).print
              settings.indentation := by
    rw [render_result_eq, Context.decides_document free choice first]
  cases ends : (follow settings.maxDepth ((documentJournal (context.document before after
      first.leaf)).filter Step.decides) ()).result with
  | error fault =>
    refine Or.inl ⟨fault, fun choice => ?_⟩
    rw [result, ends]
    rfl
  | ok done =>
    refine Or.inr ?_
    rcases Context.opensOnce_document free with ⟨tree, hidden⟩ | ⟨place, shown⟩
    · refine Or.inl ⟨tree.value.print settings.indentation, fun choice => ⟨(hidden choice).1, ?_⟩⟩
      have outline : Siblings.outline (Siblings.significant
          (context.document before after choice.leaf)) = tree := (hidden choice).2
      rw [result, ends, assignmentTree, outline]
      rfl
    · obtain ⟨start, rest, written⟩ := place.exists_print_fill settings.indentation
      refine Or.inr ⟨start, rest, fun choice => ⟨(shown choice).1, ?_⟩⟩
      have outline : Siblings.outline (Siblings.significant
          (context.document before after choice.leaf)) = place.fill choice.kept := (shown choice).2
      rw [result, ends, assignmentTree, outline, ← written]
      rfl

end Documents

/-- A leaf in a property of a routed child, which has a sibling that is routed elsewhere and one
that is content. Every leaf may be put there, and all are written in one place. -/
theorem render_fill_leaf_routed :
    let other := Node.element ⟨"c", [("@path", .leaf (.literal "other"))], [], true⟩
    let context := Context.child "Vendor:Card" [] [.leaf (.text "x")]
      (.prop "b" [("@path", .leaf (.literal "slot"))] "title" .here [] [] false) [other] false
    let settings : Settings := ⟨"", some 2⟩
    (context.around (.document [] [])).Free ∧
      (∀ leaf, ∃ choice : (context.around (.document [] [])).Choice, choice.leaf = leaf) ∧
      ∃ start rest, ∀ choice : (context.around (.document [] [])).Choice,
        context.Shows (.leaf choice.leaf) ∧
          (settings.render (context.document [] [] choice.leaf)).result =
            .ok (start ++ choice.kept.print ++ rest) := by
  intro other context settings
  have free : (context.around (.document [] [])).Free :=
    (by decide : Control.isReserved "title" = false)
  have renders : (settings.render (context.document [] [] (.boolean true))).result = .ok
      ("Vendor:Card \x7b\n    slot = Neos.Fusion:Tag \x7b\n        tagName = 'b'\n" ++
        "        attributes.title = true\n    \x7d\n    other = Neos.Fusion:Tag \x7b\n" ++
        "        tagName = 'c'\n        selfClosingTag = true\n    \x7d\n    content = 'x'\n" ++
        "\x7d") := by decide +kernel
  have last : ∀ later ∈ [other], later.path? ≠ some "slot" := by decide +kernel
  have shows : context.Shows (.leaf (.boolean true)) := ⟨last, by decide, trivial⟩
  have every (leaf : Leaf) :
      ∃ choice : (context.around (.document [] [])).Choice, choice.leaf = leaf :=
    Surroundings.exists_choice (Option.some_ne_none (Node.leaf leaf))
  refine ⟨free, every, ?_⟩
  rcases render_fill_leaf free settings with ⟨fault, fails⟩ | ⟨text, hidden⟩ | shown
  · exact absurd (renders.symm.trans (fails default)) nofun
  · exact absurd shows (hidden default).1
  · exact shown

end MarkupBlocks

/-
The slots of several siblings.

Several siblings that mean something are written as an array, with one slot for each of them in
their order. A slot is named by the key of the sibling, or by its position when it has none, and
positions count all siblings, those with a key as well. The value in a slot is what the sibling
renders to on its own, one step further in: an array is no element, so it takes nothing from the
limit. Positions differ and so do their numerals, so two slots have one name only when two siblings
have one key, or when a key is the numeral of the position of a sibling without a key.
-/

import Mathlib
import MarkupBlocks.Proofs.Composition

namespace MarkupBlocks

/-- The name of the slot of a sibling: its key when it has one, and the numeral of its position when
it has none. -/
inductive SlotNamed (sibling : Node) (position : Nat) : String → Prop
  | key {key : String} (keyed : sibling.payload? .key = some (.leaf (.literal key))) :
      SlotNamed sibling position key
  | position (unkeyed : sibling.payload? .key = none) :
      SlotNamed sibling position (toString position)

/-- Each of several siblings, counted from one, is assigned to the name of its slot: the text that
it renders to on its own, on a line with the indentation given. -/
def FillSlots (settings : Settings) (indentation : String) (siblings : List Node)
    (assigned : List (String × String)) : Prop :=
  List.Forall₂
    (fun slot pair => SlotNamed slot.1 slot.2 pair.1 ∧
      (settings.renderNode slot.1 indentation).result = .ok pair.2)
    (siblings.zipIdx 1) assigned

/-! ### Names of slots -/

theorem Node.literal?_eq_some {node : Node} {text : String} (literal : node.literal? = some text) :
    node = .leaf (.literal text) := by
  unfold Node.literal? at literal
  split at literal
  · rw [Option.some.inj literal]
  · exact absurd literal nofun

theorem slotNamed_iff {sibling : Node} {position : Nat} {name : String} :
    SlotNamed sibling position name ↔
      ¬ Unreadable (sibling.payload? .key) ∧ name = slotLabel sibling position := by
  constructor
  · intro named
    cases named with
    | key keyed =>
      rw [slotLabel, Node.key?, keyed]
      exact ⟨not_unreadable_of_literal? rfl, rfl⟩
    | position unkeyed =>
      rw [slotLabel, Node.key?, unkeyed]
      exact ⟨not_unreadable_none, rfl⟩
  · rintro ⟨readable, rfl⟩
    rw [slotLabel, Node.key?]
    cases payload : sibling.payload? .key with
    | none => exact .position payload
    | some node =>
      rw [readable_some]
      cases literal : node.literal? with
      | none => exact absurd ⟨node, payload, literal⟩ readable
      | some key =>
        rw [Node.literal?_eq_some literal] at payload
        exact .key payload

theorem Node.key?_eq_none_iff {node : Node} (readable : ¬ Unreadable (node.payload? .key)) :
    node.key? = none ↔ node.payload? .key = none := by
  rw [Node.key?, MarkupBlocks.readable, Option.bind_eq_none_iff]
  constructor
  · intro unread
    by_contra carried
    obtain ⟨payload, found⟩ := Option.ne_none_iff_exists'.mp carried
    exact readable ⟨payload, found, unread payload found⟩
  · intro unkeyed payload found
    rw [unkeyed] at found
    exact absurd found.symm (Option.some_ne_none payload)

theorem mem_slotLabels_iff {slots : List (Node × Nat)} {name : String} :
    (name ∈ slots.map fun slot => slotLabel slot.1 slot.2) ↔
      (name ∈ slots.filterMap fun slot => slot.1.key?) ∨
        ∃ slot ∈ slots, slot.1.key? = none ∧ toString slot.2 = name := by
  rw [List.mem_map, List.mem_filterMap]
  constructor
  · rintro ⟨slot, member, named⟩
    cases keyed : slot.1.key? with
    | none =>
      rw [slotLabel, keyed] at named
      exact Or.inr ⟨slot, member, keyed, named⟩
    | some key =>
      rw [slotLabel, keyed] at named
      exact Or.inl ⟨slot, member, keyed.trans (congrArg some named)⟩
  · rintro (⟨slot, member, keyed⟩ | ⟨slot, member, unkeyed, named⟩)
    · refine ⟨slot, member, ?_⟩
      rw [slotLabel, keyed, Option.getD_some]
    · refine ⟨slot, member, ?_⟩
      rw [slotLabel, unkeyed, Option.getD_none, named]

/-- Slots at different positions are named apart exactly when the keys are, and no key is the
numeral of the position of a sibling without a key. -/
theorem nodup_slotLabels_iff {slots : List (Node × Nat)}
    (positions : (slots.map Prod.snd).Nodup) :
    (slots.map fun slot => slotLabel slot.1 slot.2).Nodup ↔
      (slots.filterMap fun slot => slot.1.key?).Nodup ∧
        ∀ slot ∈ slots, slot.1.key? = none →
          toString slot.2 ∉ slots.filterMap fun slot => slot.1.key? := by
  induction slots with
  | nil => exact iff_of_true List.nodup_nil ⟨List.nodup_nil, List.forall_mem_nil _⟩
  | cons slot rest inductionHypothesis =>
    obtain ⟨fresh, later⟩ := List.nodup_cons.mp positions
    rw [List.map_cons, List.nodup_cons, mem_slotLabels_iff, inductionHypothesis later,
      List.forall_mem_cons]
    cases keyed : slot.1.key? with
    | none =>
      -- No other position has the same numeral.
      have alone : ¬ ∃ other ∈ rest, other.1.key? = none ∧ toString other.2 = toString slot.2 := by
        rintro ⟨other, member, -, same⟩
        exact fresh (Nat.repr_injective same ▸ List.mem_map_of_mem member)
      rw [List.filterMap_cons_none (f := fun slot : Node × Nat => slot.1.key?) keyed, slotLabel,
        keyed, Option.getD_none, or_iff_left alone]
      constructor
      · rintro ⟨own, distinct, others⟩
        exact ⟨distinct, fun _ => own, others⟩
      · rintro ⟨distinct, own, others⟩
        exact ⟨own rfl, distinct, others⟩
    | some key =>
      rw [List.filterMap_cons_some (f := fun slot : Node × Nat => slot.1.key?) keyed,
        List.nodup_cons, slotLabel, keyed, Option.getD_some, not_or]
      simp only [List.mem_cons, not_or, not_exists, not_and]
      constructor
      · rintro ⟨⟨own, apart⟩, distinct, others⟩
        exact ⟨⟨own, distinct⟩, fun unkeyed => absurd unkeyed (Option.some_ne_none key),
          fun other member unkeyed => ⟨apart other member unkeyed, others other member unkeyed⟩⟩
      · rintro ⟨⟨own, distinct⟩, -, others⟩
        exact ⟨⟨own, fun other member unkeyed => (others other member unkeyed).1⟩, distinct,
          fun other member unkeyed => (others other member unkeyed).2⟩

/-! ### Slots of siblings -/

section Siblings

variable {settings : Settings} {indentation : String} {siblings : List Node}

theorem passes_slotSteps_iff {limit : Option Nat} {sibling : Node} {position : Nat}
    {steps : List Step} :
    (∀ step ∈ slotSteps sibling position steps, step.Passes limit) ↔
      ¬ Unreadable (sibling.payload? .key) ∧ ∀ step ∈ steps, step.Passes limit := by
  rw [slotSteps, List.forall_mem_append, List.forall_mem_append, passes_payloadSteps_iff]
  exact and_iff_left (List.forall_mem_singleton.mpr trivial)

/-- Slots can be filled when all keys can be read and all steps pass, and then in one way only. -/
theorem fillSlots_iff {assigned : List (String × String)} :
    FillSlots settings indentation siblings assigned ↔
      (∀ slot ∈ siblings.zipIdx 1, ∀ step ∈ slotSteps slot.1 slot.2 (slot.1.journal 0),
        step.Passes settings.maxDepth) ∧
      assigned = (siblings.zipIdx 1).map fun slot =>
        (slotLabel slot.1 slot.2, slot.1.outline.value.print indentation) := by
  have each (slot : Node × Nat) (pair : String × String) :
      (SlotNamed slot.1 slot.2 pair.1 ∧
        (settings.renderNode slot.1 indentation).result = .ok pair.2) ↔
      (∀ step ∈ slotSteps slot.1 slot.2 (slot.1.journal 0), step.Passes settings.maxDepth) ∧
        (slotLabel slot.1 slot.2, slot.1.outline.value.print indentation) = pair := by
    rw [slotNamed_iff, renderNode_eq_follow, follow_eq_ok_iff, passes_slotSteps_iff]
    constructor
    · rintro ⟨⟨readable, name⟩, passes, value⟩
      exact ⟨⟨readable, passes⟩, Prod.ext name.symm value.symm⟩
    · rintro ⟨⟨readable, passes⟩, rfl⟩
      exact ⟨⟨readable, rfl⟩, passes, rfl⟩
  unfold FillSlots
  simp only [each]
  rw [List.forall₂_and_left, eq_comm, ← List.forall₂_eq_eq_eq, List.forall₂_map_left_iff]

end Siblings

/-- Several siblings that mean something are written as an array exactly when each slot has a name
and each sibling renders on its own, one step further in and under the same limit: the array then
assigns these texts to these names, one for each sibling and in their order. The names are distinct
exactly when the keys are, and no key is the numeral of the position of a sibling without a key. -/
theorem renderSiblings_eq_ok_iff (settings : Settings) {nodes : List Node}
    (several : 2 ≤ (Siblings.significant nodes).length) (indentation : String) :
    (∀ text, (settings.renderSiblings nodes indentation).result = .ok text ↔
      ∃ assigned, FillSlots settings (indentation ++ indentStep) (Siblings.significant nodes)
          assigned ∧
        text = writtenBlock indentation "Neos.Fusion:Array" assigned) ∧
    ∀ assigned, FillSlots settings (indentation ++ indentStep) (Siblings.significant nodes)
        assigned →
      ((assigned.map Prod.fst).Nodup ↔
        ((Siblings.significant nodes).filterMap Node.key?).Nodup ∧
          ∀ slot ∈ (Siblings.significant nodes).zipIdx 1, slot.1.payload? .key = none →
            toString slot.2 ∉ (Siblings.significant nodes).filterMap Node.key?) := by
  generalize significant : Siblings.significant nodes = siblings at several ⊢
  refine ⟨fun text => ?_, fun assigned filled => ?_⟩
  · have printed := Outline.print_block indentation arrayPrototype
      ((siblings.zipIdx 1).map fun slot => (slotLabel slot.1 slot.2, slot.1.outline))
    rw [List.map_map] at printed
    rw [renderSiblings_eq_follow, follow_eq_ok_iff, documentJournal, assignmentTree, significant,
      Siblings.journal_of_two_le 0 several, Siblings.outline_of_two_le several,
      List.forall_mem_flatMap]
    simp only [fillSlots_iff]
    constructor
    · rintro ⟨passes, rfl⟩
      exact ⟨_, ⟨passes, rfl⟩, printed⟩
    · rintro ⟨_, ⟨passes, rfl⟩, rfl⟩
      exact ⟨passes, printed.symm⟩
  · obtain ⟨passes, rfl⟩ := fillSlots_iff.mp filled
    have positions : ((siblings.zipIdx 1).map Prod.snd).Nodup := by
      rw [List.zipIdx_map_snd]
      exact List.nodup_range'
    have keys : ((siblings.zipIdx 1).filterMap fun slot => slot.1.key?) =
        siblings.filterMap Node.key? := by
      conv_rhs => rw [← List.zipIdx_map_fst 1 siblings, List.filterMap_map]
      rfl
    rw [List.map_map]
    refine (nodup_slotLabels_iff positions).trans ?_
    rw [keys]
    refine and_congr_right fun _ => forall₂_congr fun slot member => ?_
    rw [Node.key?_eq_none_iff (passes_slotSteps_iff.mp (passes slot member)).1]

/-- A key may be the numeral of the position of a sibling that has a key, but not of one that has
none. Layout takes no position, and the limit lets one element in. -/
theorem renderSiblings_eq_ok_iff_keys :
    let keyed (key : String) := Node.element ⟨"V:A", [("@key", .leaf (.literal key))], [], false⟩
    let code := Node.leaf (.expression "b")
    let nodes := [.leaf (.text "\n "), keyed "3", code, keyed "last", .leaf (.text "t\n")]
    let text := "Neos.Fusion:Array \x7b\n     3 = V:A \x7b\n     \x7d\n     2 = $\x7bb\x7d\n" ++
      "     last = V:A \x7b\n     \x7d\n     4 = 't'\n \x7d"
    let settings : Settings := ⟨"", some 1⟩
    2 ≤ (Siblings.significant nodes).length ∧
      (settings.renderSiblings nodes " ").result = .ok text ∧
      (∃ assigned, FillSlots settings (" " ++ indentStep) (Siblings.significant nodes) assigned ∧
        text = writtenBlock " " "Neos.Fusion:Array" assigned ∧ (assigned.map Prod.fst).Nodup) ∧
      ∃ assigned, FillSlots settings (" " ++ indentStep) [keyed "2", code] assigned ∧
        ¬ (assigned.map Prod.fst).Nodup := by
  intro keyed code nodes text settings
  have several : 2 ≤ (Siblings.significant nodes).length := by decide +kernel
  have renders : (settings.renderSiblings nodes " ").result = .ok text := by decide +kernel
  have clash : (settings.renderSiblings [keyed "2", code] " ").result =
      .ok "Neos.Fusion:Array \x7b\n     2 = V:A \x7b\n     \x7d\n     2 = $\x7bb\x7d\n \x7d" := by
    decide +kernel
  obtain ⟨written, distinct⟩ := renderSiblings_eq_ok_iff settings several " "
  obtain ⟨assigned, filled, same⟩ := (written text).mp renders
  have pairOf : 2 ≤ (Siblings.significant [keyed "2", code]).length := Nat.le_refl 2
  obtain ⟨writtenPair, distinctPair⟩ := renderSiblings_eq_ok_iff settings pairOf " "
  obtain ⟨pair, filledPair, -⟩ := (writtenPair _).mp clash
  refine ⟨several, renders, ⟨assigned, filled, same, ?_⟩, pair, filledPair, ?_⟩
  · exact (distinct assigned filled).mpr (by decide +kernel)
  · rw [distinctPair pair filledPair]
    decide +kernel

end MarkupBlocks

/-
Properties that are set one after the other.

A name has its place from the first time that it is set, and its value from the last time. So the
properties that result are told by two things only: in which order the names are set for the first
time, and what each name is set to last. Nothing else of the way in which an element was built can
be seen in it. An element that has properties already is as if it had been given them first.
-/

import MarkupBlocks.Proofs.Routes

namespace MarkupBlocks

/-! ### Bindings told by their names and values -/

namespace Bindings

variable {Value : Type}

theorem get?_eq_none_iff {bindings : Bindings Value} {name : String} :
    get? bindings name = none ↔ name ∉ names bindings := by
  rw [get?, List.lookup_eq_none_iff, names, List.mem_map]
  constructor
  · rintro unbound ⟨pair, member, rfl⟩
    exact bne_iff_ne.mp (unbound pair member) rfl
  · intro fresh pair member
    exact bne_iff_ne.mpr fun same => fresh ⟨pair, member, same.symm⟩

/-- Bindings without a repeated name are equal when they bind the same names in the same order, to
the same values. -/
theorem eq_iff_get? {left right : Bindings Value} (distinct : (names left).Nodup)
    (otherDistinct : (names right).Nodup) :
    left = right ↔ names left = names right ∧ ∀ name, get? left name = get? right name := by
  constructor
  · rintro rfl
    exact ⟨rfl, fun _ => rfl⟩
  · rintro ⟨order, answers⟩
    rw [eq_filterMap_get? distinct, eq_filterMap_get? otherDistinct, order]
    exact List.filterMap_congr fun name _ => congrArg _ (answers name)

end Bindings

/-- Names of which only the first occurrences are kept stand in the order of these. -/
theorem pairwise_idxOf_eraseDups (names : List String) :
    names.eraseDups.Pairwise fun earlier later => names.idxOf earlier < names.idxOf later := by
  induction names using List.reverseRecOn with
  | nil => exact .nil
  | append_singleton rest last inductionHypothesis =>
    -- Another name at the end moves no first occurrence.
    have still {name : String} (member : name ∈ rest.eraseDups) :
        (rest ++ [last]).idxOf name = rest.idxOf name :=
      List.idxOf_append_of_mem (List.mem_eraseDups.mp member)
    have kept : rest.eraseDups.Pairwise fun earlier later =>
        (rest ++ [last]).idxOf earlier < (rest ++ [last]).idxOf later := by
      refine inductionHypothesis.imp_of_mem fun earlier later before => ?_
      rwa [still earlier, still later]
    rw [eraseDups_concat]
    by_cases again : last ∈ rest
    · rwa [if_pos again]
    · rw [if_neg again, List.pairwise_append]
      refine ⟨kept, List.pairwise_singleton _ _, fun earlier member later single => ?_⟩
      rw [List.mem_singleton.mp single, still member, List.idxOf_append_of_notMem again]
      exact Nat.lt_add_right _ (List.idxOf_lt_length_of_mem (List.mem_eraseDups.mp member))

/-! ### Elements with properties set -/

namespace Element

theorem setProps_concat (element : Element) (given : List (String × Node))
    (last : String × Node) :
    element.setProps (given ++ [last]) = (element.setProps given).setProp last.1 last.2 := by
  rw [setProps, List.foldl_append]
  rfl

/-- Setting properties is binding them after the ones that are there, and changes nothing else. -/
theorem setProps_eq {element : Element} (distinct : (Bindings.names element.props).Nodup)
    (given : List (String × Node)) :
    element.setProps given =
      { element with props := Bindings.ofList (element.props ++ given) } := by
  induction given using List.reverseRecOn with
  | nil =>
    rw [List.append_nil, Bindings.ofList_of_nodup distinct]
    cases element
    rfl
  | append_singleton rest last inductionHypothesis =>
    rw [setProps_concat, inductionHypothesis, ← List.append_assoc, Bindings.ofList_concat]
    rfl

theorem props_setProps_new (identifier : String) (given : List (String × Node)) :
    ((new identifier).setProps given).props = Bindings.ofList given := by
  have distinct : (Bindings.names (new identifier).props).Nodup := List.nodup_nil
  rw [setProps_eq distinct]
  rfl

end Element

/-- The last time that a name is set, it is set to a value. -/
def LastSet (given : List (String × Node)) (name : String) (value : Node) : Prop :=
  ∃ before after, given = before ++ (name, value) :: after ∧ ∀ prop ∈ after, prop.1 ≠ name

theorem get?_ofList_eq_some_iff {given : List (String × Node)} {name : String} {value : Node} :
    Bindings.get? (Bindings.ofList given) name = some value ↔ LastSet given name value := by
  rw [Bindings.get?_eq_some_iff (Bindings.nodup_names_ofList given), Bindings.mem_ofList_iff]
  rfl

/-- An element that is built by setting properties has each name once, in the order in which the
names are set for the first time. A name stands for what it is set to last, and for nothing when it
is never set. Two elements that are built in this way have the same properties in the same order
exactly when their names are first set in the same order and are last set to the same values. -/
theorem props_setProps_eq_iff (identifier : String) (given : List (String × Node)) :
    let element := (Element.new identifier).setProps given
    let called := given.map Prod.fst
    (Bindings.names element.props).Nodup ∧
      Bindings.names element.props = called.eraseDups ∧
      (Bindings.names element.props).Pairwise
        (fun earlier later => called.idxOf earlier < called.idxOf later) ∧
      (∀ name value, element.prop? name = some value ↔ LastSet given name value) ∧
      (∀ name, element.prop? name = none ↔ name ∉ called) ∧
      ∀ (other : String) (others : List (String × Node)),
        element.props = ((Element.new other).setProps others).props ↔
          called.eraseDups = (others.map Prod.fst).eraseDups ∧
            ∀ name value, LastSet given name value ↔ LastSet others name value := by
  intro element called
  have props : element.props = Bindings.ofList given := Element.props_setProps_new identifier given
  have order : Bindings.names element.props = called.eraseDups := by
    rw [props, Bindings.names_ofList]
  refine ⟨?_, order, ?_, fun name value => ?_, fun name => ?_, fun other others => ?_⟩
  · rw [props]
    exact Bindings.nodup_names_ofList given
  · rw [order]
    exact pairwise_idxOf_eraseDups called
  · rw [Element.prop?, props, get?_ofList_eq_some_iff]
  · rw [Element.prop?, Bindings.get?_eq_none_iff, order, List.mem_eraseDups]
  · rw [props, Element.props_setProps_new, Bindings.eq_iff_get? (Bindings.nodup_names_ofList _)
      (Bindings.nodup_names_ofList _), Bindings.names_ofList, Bindings.names_ofList]
    refine and_congr_right fun _ => forall_congr' fun name => ?_
    rw [Option.ext_iff]
    simp only [get?_ofList_eq_some_iff]

/-- A name that is set again keeps its place and takes the new value. -/
example (old label new : Node) :
    ((Element.new "a").setProps [("href", old), ("class", label), ("href", new)]).props =
      [("href", new), ("class", label)] := by
  rfl

end MarkupBlocks

/-
Lists of values bound to names, in the order in which the names were first bound.

Binding a name again keeps its place and takes the new value. The order is part of the data
because it shows: properties are written in the order of the list.
-/

namespace MarkupBlocks

/-- Values bound to names, oldest name first. -/
abbrev Bindings (Value : Type) := List (String × Value)

namespace Bindings

variable {Value : Type}

/-- Binds a name to a value: in the place of the name if it is bound already, at the end
otherwise. -/
def insert : Bindings Value → String → Value → Bindings Value
  | [], name, value => [(name, value)]
  | (bound, old) :: rest, name, value =>
    if bound = name then (name, value) :: rest else (bound, old) :: insert rest name value

/-- The value bound to a name. -/
def get? (bindings : Bindings Value) (name : String) : Option Value :=
  List.lookup name bindings

/-- The bound names in their order. -/
def names (bindings : Bindings Value) : List String :=
  bindings.map Prod.fst

/-- The bindings made by binding each pair in turn. -/
def ofList (pairs : List (String × Value)) : Bindings Value :=
  pairs.foldl (fun bindings pair => insert bindings pair.1 pair.2) []

theorem get?_cons (bound : String) (value : Value) (rest : Bindings Value) (asked : String) :
    get? ((bound, value) :: rest) asked =
      if asked = bound then some value else get? rest asked := by
  simp only [get?, List.lookup_cons]
  by_cases same : asked = bound
  · rw [if_pos same, same, BEq.rfl]
  · rw [if_neg same, beq_eq_false_iff_ne.mpr same]

theorem mem_of_get? {bindings : Bindings Value} {name : String} {value : Value}
    (found : get? bindings name = some value) : (name, value) ∈ bindings := by
  obtain ⟨before, after, rfl, -⟩ := List.lookup_eq_some_iff.mp found
  exact List.mem_append_right _ List.mem_cons_self

/-- Where no name is bound twice, a name answers with the value that it is bound to. -/
theorem get?_eq_some_iff {bindings : Bindings Value} (distinct : (names bindings).Nodup)
    {name : String} {value : Value} :
    get? bindings name = some value ↔ (name, value) ∈ bindings := by
  refine ⟨mem_of_get?, fun member => ?_⟩
  induction bindings with
  | nil => exact absurd member List.not_mem_nil
  | cons head rest inductionHypothesis =>
    obtain ⟨bound, old⟩ := head
    obtain ⟨fresh, later⟩ := List.nodup_cons.mp distinct
    rw [get?_cons]
    rcases List.mem_cons.mp member with same | elsewhere
    · obtain ⟨rfl, rfl⟩ := Prod.mk.inj same
      exact if_pos rfl
    · have other : name ≠ bound := fun same =>
        fresh (List.mem_map.mpr ⟨(name, value), elsewhere, same⟩)
      rw [if_neg other, inductionHypothesis later elsewhere]

/-- Binding a name answers for that name and leaves every other name alone. -/
theorem get?_insert (bindings : Bindings Value) (name : String) (value : Value)
    (asked : String) :
    get? (insert bindings name value) asked =
      if asked = name then some value else get? bindings asked := by
  induction bindings with
  | nil => exact get?_cons name value [] asked
  | cons head rest inductionHypothesis =>
    obtain ⟨bound, old⟩ := head
    unfold insert
    by_cases replaced : bound = name
    · rw [if_pos replaced, get?_cons, get?_cons, replaced]
      split <;> rfl
    · rw [if_neg replaced, get?_cons, get?_cons, inductionHypothesis]
      by_cases found : asked = bound
      · rw [if_pos found, if_pos found, if_neg (found ▸ replaced)]
      · rw [if_neg found, if_neg found]

/-- Binding a name that is bound changes no name; a new name comes last. -/
theorem names_insert (bindings : Bindings Value) (name : String) (value : Value) :
    names (insert bindings name value) =
      if name ∈ names bindings then names bindings else names bindings ++ [name] := by
  induction bindings with
  | nil => rfl
  | cons head rest inductionHypothesis =>
    obtain ⟨bound, old⟩ := head
    unfold insert
    by_cases replaced : bound = name
    · rw [if_pos replaced, ← replaced]
      exact (if_pos List.mem_cons_self).symm
    · rw [if_neg replaced]
      change bound :: names (insert rest name value) =
        if name ∈ bound :: names rest then bound :: names rest else bound :: names rest ++ [name]
      rw [inductionHypothesis]
      have elsewhere : name ∈ bound :: names rest ↔ name ∈ names rest :=
        List.mem_cons.trans (or_iff_right fun same => replaced same.symm)
      simp only [elsewhere]
      split <;> rfl

/-- No name is bound twice. -/
theorem nodup_names_insert {bindings : Bindings Value} (distinct : (names bindings).Nodup)
    (name : String) (value : Value) : (names (insert bindings name value)).Nodup := by
  rw [names_insert]
  split
  · exact distinct
  · next fresh =>
    rw [List.nodup_append]
    refine ⟨distinct, by simp, fun left member right single equal => fresh ?_⟩
    rw [← List.mem_singleton.mp single, ← equal]
    exact member

theorem mem_of_mem_insert {bindings : Bindings Value} {name : String} {value : Value}
    {pair : String × Value} (member : pair ∈ insert bindings name value) :
    pair = (name, value) ∨ pair ∈ bindings := by
  induction bindings with
  | nil => exact Or.inl (List.mem_singleton.mp member)
  | cons head rest inductionHypothesis =>
    simp only [insert] at member
    split at member
    · exact (List.mem_cons.mp member).imp id (List.mem_cons_of_mem head)
    · rcases List.mem_cons.mp member with same | later
      · exact Or.inr (same ▸ List.mem_cons_self)
      · exact (inductionHypothesis later).imp id (List.mem_cons_of_mem head)

/-- Binding pairs in turn invents nothing: each binding that results is one of the pairs. -/
theorem mem_of_mem_ofList {pairs : List (String × Value)} {pair : String × Value}
    (member : pair ∈ ofList pairs) : pair ∈ pairs := by
  -- The bindings made so far come from the pairs read so far.
  have sources : ∀ (rest : List (String × Value)) (made : Bindings Value),
      pair ∈ rest.foldl (fun bindings pair => insert bindings pair.1 pair.2) made →
        pair ∈ made ∨ pair ∈ rest := by
    intro rest
    induction rest with
    | nil => exact fun made reached => Or.inl reached
    | cons head rest inductionHypothesis =>
      intro made reached
      rcases inductionHypothesis _ reached with early | late
      · rcases mem_of_mem_insert early with same | older
        · exact Or.inr (same ▸ List.mem_cons_self)
        · exact Or.inl older
      · exact Or.inr (List.mem_cons_of_mem head late)
  exact (sources pairs [] member).resolve_left List.not_mem_nil

end Bindings

end MarkupBlocks

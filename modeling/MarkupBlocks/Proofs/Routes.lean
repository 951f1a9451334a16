/-
The child that a path stands for.

Binding pairs in turn leaves each name with the last value that was bound to it, in the place where
it was bound first. So among the routed children a path stands for the last child that carries it,
and the earlier children with that path are not looked at again. Where a child stands among the
routed children, if it does, is settled by the paths of the children alone.
-/

import Mathlib.Data.List.Basic
import Mathlib.Data.List.Induction
import Mathlib.Data.List.Nodup
import MarkupBlocks.Markup.Children

namespace MarkupBlocks

/-- A name at the end is kept when it comes there for the first time. -/
theorem eraseDups_concat (names : List String) (last : String) :
    (names ++ [last]).eraseDups =
      if last ∈ names then names.eraseDups else names.eraseDups ++ [last] := by
  rw [List.eraseDups_append]
  by_cases again : last ∈ names
  · simp [List.removeAll, again]
  · simp [List.removeAll, again, List.eraseDups_cons]

namespace Bindings

variable {Value : Type}

theorem ofList_concat (pairs : List (String × Value)) (last : String × Value) :
    ofList (pairs ++ [last]) = insert (ofList pairs) last.1 last.2 := by
  rw [ofList, List.foldl_append]
  rfl

theorem nodup_names_ofList (pairs : List (String × Value)) : (names (ofList pairs)).Nodup := by
  induction pairs using List.reverseRecOn with
  | nil => exact List.nodup_nil
  | append_singleton rest last inductionHypothesis =>
    rw [ofList_concat]
    exact nodup_names_insert inductionHypothesis last.1 last.2

/-- The bound names are the names of the pairs, each in the place where it came first. -/
theorem names_ofList (pairs : List (String × Value)) :
    names (ofList pairs) = (pairs.map Prod.fst).eraseDups := by
  induction pairs using List.reverseRecOn with
  | nil => rfl
  | append_singleton rest last inductionHypothesis =>
    rw [ofList_concat, names_insert, inductionHypothesis, List.map_append, List.map_singleton,
      eraseDups_concat]
    simp only [List.mem_eraseDups]

/-- A name answers with the value of the last pair that has it. -/
theorem get?_ofList (pairs : List (String × Value)) (name : String) :
    get? (ofList pairs) name =
      ((pairs.filter fun pair => pair.1 == name).getLast?).map Prod.snd := by
  induction pairs using List.reverseRecOn with
  | nil => rfl
  | append_singleton rest last inductionHypothesis =>
    rw [ofList_concat, get?_insert, List.filter_append, List.getLast?_append, inductionHypothesis]
    by_cases same : last.1 = name
    · have taken : [last].filter (fun pair => pair.1 == name) = [last] :=
        List.filter_cons_of_pos (beq_iff_eq.mpr same)
      rw [if_pos same.symm, taken]
      rfl
    · have passed : [last].filter (fun pair => pair.1 == name) = [] :=
        List.filter_cons_of_neg (mt beq_iff_eq.mp same)
      rw [if_neg (Ne.symm same), passed]
      rfl

/-- Bindings without a repeated name are told by their names and what these answer. -/
theorem eq_filterMap_get? {bindings : Bindings Value} (distinct : (names bindings).Nodup) :
    bindings = (names bindings).filterMap fun name => (get? bindings name).map (name, ·) := by
  induction bindings with
  | nil => rfl
  | cons head rest inductionHypothesis =>
    obtain ⟨bound, value⟩ := head
    obtain ⟨fresh, later⟩ := List.nodup_cons.mp distinct
    have others : ∀ name ∈ names rest,
        (get? ((bound, value) :: rest) name).map (name, ·) = (get? rest name).map (name, ·) := by
      intro name member
      rw [get?_cons, if_neg fun same : name = bound => fresh (same ▸ member)]
    show _ = (bound :: names rest).filterMap _
    rw [List.filterMap_cons, get?_cons, if_pos rfl, List.filterMap_congr others]
    exact congrArg _ (inductionHypothesis later)

theorem mem_insert_iff {bindings : Bindings Value} (distinct : (names bindings).Nodup)
    {name : String} {value : Value} {pair : String × Value} :
    pair ∈ insert bindings name value ↔
      pair = (name, value) ∨ pair.1 ≠ name ∧ pair ∈ bindings := by
  induction bindings with
  | nil =>
    rw [insert, List.mem_singleton]
    exact ⟨Or.inl, fun either => either.resolve_right fun both => List.not_mem_nil both.2⟩
  | cons head rest inductionHypothesis =>
    obtain ⟨bound, old⟩ := head
    obtain ⟨fresh, later⟩ := List.nodup_cons.mp distinct
    rw [insert]
    by_cases replaced : bound = name
    · -- The names that follow are all different from the one that is replaced.
      have others : pair ∈ rest → pair.1 ≠ name := fun member same =>
        fresh (List.mem_map.mpr ⟨pair, member, same.trans replaced.symm⟩)
      rw [if_pos replaced, List.mem_cons]
      refine or_congr_right ⟨fun member => ⟨others member, List.mem_cons_of_mem _ member⟩, ?_⟩
      rintro ⟨different, member⟩
      refine (List.mem_cons.mp member).resolve_left fun same => different ?_
      rw [same, replaced]
    · rw [if_neg replaced, List.mem_cons, inductionHypothesis later, List.mem_cons]
      constructor
      · rintro (same | same | ⟨different, member⟩)
        · exact Or.inr ⟨same ▸ replaced, Or.inl same⟩
        · exact Or.inl same
        · exact Or.inr ⟨different, Or.inr member⟩
      · rintro (same | ⟨different, same | member⟩)
        · exact Or.inr (Or.inl same)
        · exact Or.inl same
        · exact Or.inr (Or.inr ⟨different, member⟩)

theorem insert_of_notMem {bindings : Bindings Value} {name : String} (fresh : name ∉ names bindings)
    (value : Value) : insert bindings name value = bindings ++ [(name, value)] := by
  induction bindings with
  | nil => rfl
  | cons head rest inductionHypothesis =>
    obtain ⟨different, later⟩ := not_or.mp (mt List.mem_cons.mpr fresh)
    rw [insert, if_neg (Ne.symm different), inductionHypothesis later, List.cons_append]

/-- Pairs that bind no name twice are bound as they stand. -/
theorem ofList_of_nodup {pairs : List (String × Value)} (distinct : (names pairs).Nodup) :
    ofList pairs = pairs := by
  induction pairs using List.reverseRecOn with
  | nil => rfl
  | append_singleton rest last inductionHypothesis =>
    rw [names, List.map_append, List.map_singleton, ← List.concat_eq_append,
      List.nodup_concat] at distinct
    rw [ofList_concat, inductionHypothesis distinct.2, insert_of_notMem distinct.1]

/-- In the end a name is bound to the last value that it was bound to. -/
theorem mem_ofList_iff {pairs : List (String × Value)} {name : String} {value : Value} :
    (name, value) ∈ ofList pairs ↔
      ∃ before after, pairs = before ++ (name, value) :: after ∧ ∀ pair ∈ after, pair.1 ≠ name := by
  induction pairs using List.reverseRecOn with
  | nil =>
    refine ⟨fun member => absurd member List.not_mem_nil, ?_⟩
    rintro ⟨before, after, split, -⟩
    exact absurd split.symm (List.append_ne_nil_of_right_ne_nil before (List.cons_ne_nil _ after))
  | append_singleton rest last inductionHypothesis =>
    rw [ofList_concat, mem_insert_iff (nodup_names_ofList rest), inductionHypothesis]
    constructor
    · rintro (same | ⟨different, before, after, split, others⟩)
      · exact ⟨rest, [], by rw [same], nofun⟩
      · refine ⟨before, after ++ [last], by rw [split, List.append_assoc, List.cons_append], ?_⟩
        intro pair member
        rcases List.mem_append.mp member with earlier | end_
        · exact others pair earlier
        · rw [List.mem_singleton.mp end_]
          exact different.symm
    · rintro ⟨before, after, split, others⟩
      rcases List.eq_nil_or_concat after with rfl | ⟨others', final, rfl⟩
      · obtain ⟨-, same⟩ := List.append_inj' split rfl
        exact Or.inl (List.singleton_inj.mp same).symm
      · rw [List.concat_eq_append, ← List.cons_append, ← List.append_assoc] at split
        obtain ⟨same, finalSame⟩ := List.append_inj' split rfl
        have last_ne := others final (by simp)
        rw [← List.singleton_inj.mp finalSame] at last_ne
        exact Or.inr ⟨last_ne.symm, before, others', same, fun pair member =>
          others pair (by simp [member])⟩

end Bindings

/-- The last child that carries a path. -/
def Children.lastWith? (children : List Node) (path : String) : Option Node :=
  (children.filter fun child => child.path? == some path).getLast?

/-- The routed children are named by the paths of the children, each where it is first carried. -/
theorem Children.names_routed (children : List Node) :
    Bindings.names (Children.routed children) = (children.filterMap Node.path?).eraseDups := by
  rw [Children.routed, Bindings.names_ofList, List.map_filterMap]
  refine congrArg _ (List.filterMap_congr fun child _ => ?_)
  cases child.path? <;> rfl

/-- The routed children stand in the order in which their paths are first carried, and each of
them is the last child that carries its path. -/
theorem Children.routed_eq (children : List Node) :
    Children.routed children = (children.filterMap Node.path?).eraseDups.filterMap fun path =>
      (Children.lastWith? children path).map (path, ·) := by
  have carriers (path : String) :
      ((children.filterMap fun child => child.path?.map fun path => (path, child)).filter
        fun pair => pair.1 == path).map Prod.snd =
        children.filter fun child => child.path? == some path := by
    rw [List.filter_filterMap, List.map_filterMap, ← List.filterMap_eq_filter]
    refine List.filterMap_congr fun child _ => ?_
    cases carried : child.path? with
    | none => simp [Option.guard, carried]
    | some other => by_cases same : other = path <;> simp [Option.guard, carried, same]
  have answers := Bindings.eq_filterMap_get? (Bindings.nodup_names_ofList
    (children.filterMap fun child => child.path?.map fun path => (path, child)))
  rw [← Children.routed, Children.names_routed] at answers
  rw [answers]
  refine List.filterMap_congr fun path _ => ?_
  rw [Children.routed, Bindings.get?_ofList, ← List.getLast?_map, carriers, Children.lastWith?]

/-- The routed children are, for each path, the last child that carries it. -/
theorem Children.mem_routed_iff {children : List Node} {path : String} {child : Node} :
    (path, child) ∈ Children.routed children ↔
      ∃ before after, children = before ++ child :: after ∧ child.path? = some path ∧
        ∀ later ∈ after, later.path? ≠ some path := by
  rw [Children.routed, Bindings.mem_ofList_iff]
  constructor
  · rintro ⟨before, after, split, others⟩
    obtain ⟨first, rest, rfl, -, tail⟩ := List.filterMap_eq_append_iff.mp split
    obtain ⟨skipped, source, last, rfl, -, named, rfl⟩ := List.filterMap_eq_cons_iff.mp tail
    obtain ⟨carried, found, same⟩ := Option.map_eq_some_iff.mp named
    obtain ⟨rfl, rfl⟩ := Prod.mk.inj same
    refine ⟨first ++ skipped, last, by rw [List.append_assoc], found, fun later member again => ?_⟩
    exact others (carried, later)
      (List.mem_filterMap.mpr ⟨later, member, by rw [again, Option.map_some]⟩) rfl
  · rintro ⟨before, after, rfl, carried, last⟩
    refine ⟨before.filterMap fun child => child.path?.map fun path => (path, child),
      after.filterMap fun child => child.path?.map fun path => (path, child), ?_, ?_⟩
    · rw [List.filterMap_append, List.filterMap_cons, carried]
      rfl
    · intro pair member
      obtain ⟨later, present, named⟩ := List.mem_filterMap.mp member
      obtain ⟨found, carries, rfl⟩ := Option.map_eq_some_iff.mp named
      exact fun same => last later present (same ▸ carries)

/-! ### One child among the others -/

theorem nodup_eraseDups (names : List String) : names.eraseDups.Nodup := by
  have distinct := Bindings.nodup_names_ofList (names.map fun name => (name, ()))
  have same : (names.map fun name => (name, ())).map Prod.fst = names := by
    rw [List.map_map]
    exact List.map_id names
  rwa [Bindings.names_ofList, same] at distinct

namespace Children

variable {before after : List Node} {child : Node} {path : String}

theorem lastWith?_of_ne (other : child.path? ≠ some path) :
    lastWith? (before ++ child :: after) path = lastWith? (before ++ after) path := by
  have dropped : ((child :: after).filter fun node => node.path? == some path) =
      after.filter fun node => node.path? == some path :=
    List.filter_cons_of_neg (mt beq_iff_eq.mp other)
  rw [lastWith?, lastWith?, List.filter_append, List.filter_append, dropped]

theorem lastWith?_of_last (carried : child.path? = some path)
    (last : ∀ later ∈ after, later.path? ≠ some path) :
    lastWith? (before ++ child :: after) path = some child := by
  have others : (after.filter fun node => node.path? == some path) = [] :=
    List.filter_eq_nil_iff.mpr fun later member => mt beq_iff_eq.mp (last later member)
  have kept : ((child :: after).filter fun node => node.path? == some path) = [child] := by
    rw [← others]
    exact List.filter_cons_of_pos (beq_iff_eq.mpr carried)
  rw [lastWith?, List.filter_append, kept, List.getLast?_append]
  rfl

theorem lastWith?_of_later (again : ∃ later ∈ after, later.path? = some path) :
    lastWith? (before ++ child :: after) path = lastWith? after path := by
  obtain ⟨later, member, carries⟩ := again
  have some : (after.filter fun later => later.path? == some path) ≠ [] :=
    List.ne_nil_of_mem (List.mem_filter.mpr ⟨member, beq_iff_eq.mpr carries⟩)
  have split : before ++ child :: after = (before ++ [child]) ++ after := by
    rw [List.append_assoc, List.singleton_append]
  rw [split, lastWith?, List.filter_append, List.getLast?_append_of_ne_nil _ some, lastWith?]

/-- A child without a path that can be read changes no routed child. -/
theorem routed_of_path?_eq_none (unread : child.path? = none) :
    routed (before ++ child :: after) = routed (before ++ after) := by
  rw [routed, routed, List.filterMap_append, List.filterMap_append, List.filterMap_cons, unread]
  rfl

theorem filterMap_path?_append_cons (carried : child.path? = some path) :
    (before ++ child :: after).filterMap Node.path? =
      before.filterMap Node.path? ++ path :: after.filterMap Node.path? := by
  rw [List.filterMap_append, List.filterMap_cons_some carried]

/-- A child whose path is carried again later on is not looked at. -/
theorem routed_of_later {other : Node} (again : ∃ later ∈ after, later.path? = some path)
    (carried : child.path? = some path) (alike : other.path? = some path) :
    routed (before ++ child :: after) = routed (before ++ other :: after) := by
  rw [routed_eq, routed_eq, filterMap_path?_append_cons carried, filterMap_path?_append_cons alike]
  refine List.filterMap_congr fun name _ => congrArg _ ?_
  by_cases same : name = path
  · rw [same, lastWith?_of_later again, lastWith?_of_later again]
  · have different {node : Node} (named : node.path? = some path) : node.path? ≠ some name :=
      fun carries => same (Option.some.inj (carries.symm.trans named))
    rw [lastWith?_of_ne (different carried), lastWith?_of_ne (different alike)]

/-- The last child with a path has a place of its own among the routed children, which does not
depend on what else there is to the child. -/
theorem exists_routed_of_last (before : List Node)
    (last : ∀ later ∈ after, later.path? ≠ some path) :
    ∃ earlier later, ∀ child : Node, child.path? = some path →
      routed (before ++ child :: after) = earlier ++ (path, child) :: later := by
  obtain ⟨first, rest, split⟩ : ∃ first rest,
      (before.filterMap Node.path? ++ path :: after.filterMap Node.path?).eraseDups =
        first ++ path :: rest :=
    List.append_of_mem (List.mem_eraseDups.mpr (List.mem_append_right _ List.mem_cons_self))
  have distinct := nodup_eraseDups (before.filterMap Node.path? ++ path ::
    after.filterMap Node.path?)
  rw [split, List.nodup_middle, List.nodup_cons, List.mem_append, not_or] at distinct
  refine ⟨first.filterMap fun name => (lastWith? (before ++ after) name).map (name, ·),
    rest.filterMap fun name => (lastWith? (before ++ after) name).map (name, ·),
    fun child carried => ?_⟩
  have others {names : List String} (fresh : path ∉ names) :
      (names.filterMap fun name => (lastWith? (before ++ child :: after) name).map (name, ·)) =
        names.filterMap fun name => (lastWith? (before ++ after) name).map (name, ·) := by
    refine List.filterMap_congr fun name member => congrArg _ (lastWith?_of_ne ?_)
    rw [carried]
    exact fun same => fresh (Option.some.inj same ▸ member)
  rw [routed_eq, filterMap_path?_append_cons carried, split, List.filterMap_append,
    List.filterMap_cons, lastWith?_of_last carried last, others distinct.1.1, others distinct.1.2]
  rfl

end Children

end MarkupBlocks

/-
Trees that are read alike.

The work on a tree reads little of a node: its kind, the text of a quoted value, what its control
properties say, and what is left of it among siblings. A control property says the same when its
payload is of one kind and holds one quoted value, if any. Children whose paths say the same are
sorted alike. A correspondence is a relation of nodes that keeps all that is read, and then every
list that the work makes from corresponding nodes corresponds too.
-/

import Mathlib.Data.List.Forall2
import MarkupBlocks.Proofs.Journal

namespace MarkupBlocks

/-- Two values are bound to one name, and are related. -/
def BoundAlike {Left Right : Type} (Like : Left → Right → Prop) (left : String × Left)
    (right : String × Right) : Prop :=
  left.1 = right.1 ∧ Like left.2 right.2

namespace Bindings

variable {Left Right : Type} {Like : Left → Right → Prop}

theorem forall₂_insert {left : Bindings Left} {right : Bindings Right}
    (alike : List.Forall₂ (BoundAlike Like) left right) {name : String} {value : Left}
    {other : Right} (like : Like value other) :
    List.Forall₂ (BoundAlike Like) (insert left name value) (insert right name other) := by
  induction alike with
  | nil => exact .cons ⟨rfl, like⟩ .nil
  | @cons first second _ _ head tail inductionHypothesis =>
    obtain ⟨bound, old⟩ := first
    obtain ⟨_, young⟩ := second
    obtain ⟨rfl, related⟩ := head
    rw [insert, insert]
    split
    · exact .cons ⟨rfl, like⟩ tail
    · exact .cons ⟨rfl, related⟩ inductionHypothesis

theorem forall₂_ofList {left : List (String × Left)} {right : List (String × Right)}
    (alike : List.Forall₂ (BoundAlike Like) left right) :
    List.Forall₂ (BoundAlike Like) (ofList left) (ofList right) := by
  refine List.rel_foldl (fun _ _ bindings pair other bound => ?_) .nil alike
  rw [← bound.1]
  exact forall₂_insert bindings bound.2

theorem rel_get? {left : Bindings Left} {right : Bindings Right}
    (alike : List.Forall₂ (BoundAlike Like) left right) (name : String) :
    Option.Rel Like (get? left name) (get? right name) := by
  induction alike with
  | nil => exact .none
  | @cons first second _ _ head _ inductionHypothesis =>
    obtain ⟨bound, value⟩ := first
    obtain ⟨_, other⟩ := second
    obtain ⟨rfl, related⟩ := head
    rw [get?_cons, get?_cons]
    split
    · exact .some related
    · exact inductionHypothesis

end Bindings

/-! ### What a control property says -/

section Payloads

variable (control : Control) (payload : Option Node)

theorem payloadSteps_eq_readPayload : payloadSteps control payload =
    match readPayload control payload with
    | .ok _ => []
    | .error fault => [.fault fault] := by
  cases payload with
  | none => rfl
  | some value =>
    rw [payloadSteps, readPayload]
    cases value.literal? <;> rfl

theorem readable_eq_readPayload : readable payload =
    match readPayload control payload with
    | .ok text => text
    | .error _ => none := by
  cases payload with
  | none => rfl
  | some value =>
    rw [readable_some, readPayload]
    cases value.literal? <;> rfl

theorem isNone_eq_readPayload : payload.isNone =
    match readPayload control payload with
    | .ok none => true
    | _ => false := by
  cases payload with
  | none => rfl
  | some value =>
    rw [readPayload]
    cases value.literal? <;> rfl

variable {control} {left right : Option Node}

/-- Payloads of one kind that hold one quoted value, if any, say the same. -/
theorem readPayload_eq_of_rel (alike : Option.Rel (fun value other => value.kind = other.kind ∧
      value.literal? = other.literal?) left right) :
    readPayload control left = readPayload control right := by
  cases alike with
  | none => rfl
  | some alike => rw [readPayload, readPayload, alike.1, alike.2]

variable (same : readPayload control left = readPayload control right)

include same

theorem payloadSteps_eq_of_readPayload :
    payloadSteps control left = payloadSteps control right := by
  rw [payloadSteps_eq_readPayload, payloadSteps_eq_readPayload, same]

theorem readable_eq_of_readPayload : readable left = readable right := by
  rw [readable_eq_readPayload control, readable_eq_readPayload control right, same]

theorem isNone_eq_of_readPayload : left.isNone = right.isNone := by
  rw [isNone_eq_readPayload control, isNone_eq_readPayload control right, same]

end Payloads

theorem slotLabel_eq_of_readControl {left right : Node}
    (key : left.readControl .key = right.readControl .key) (position : Nat) :
    slotLabel left position = slotLabel right position := by
  rw [slotLabel, slotLabel, Node.key?, Node.key?, readable_eq_of_readPayload key]

/-! ### What a path says of a child -/

theorem Node.path?_eq_of_readControl {left right : Node}
    (path : left.readControl .path = right.readControl .path) : left.path? = right.path? :=
  readable_eq_of_readPayload path

theorem Node.path?_of_readControl {node : Node} {path : Option String}
    (read : node.readControl .path = .ok path) : node.path? = path := by
  rw [Node.path?, readable_eq_readPayload .path, ← Node.readControl, read]

theorem Node.payload?_of_readControl_none {node : Node}
    (read : node.readControl .path = .ok none) : node.payload? .path = none := by
  rw [← Option.isNone_iff_eq_none, isNone_eq_readPayload .path, ← Node.readControl, read]

theorem Node.path?_of_readControl_error {node : Node} {fault : Fault}
    (read : node.readControl .path = .error fault) :
    node.path? = none ∧ node.payload? .path ≠ none := by
  constructor
  · rw [Node.path?, readable_eq_readPayload .path, ← Node.readControl, read]
  · intro unrouted
    rw [Node.readControl, unrouted] at read
    cases read

/-- A child with a path is an element, so nothing of it is lost among siblings. -/
theorem Node.significant?_of_routed {node : Node} (routed : node.payload? .path ≠ none) :
    node.significant? = some node := by
  cases node with
  | leaf content => exact absurd rfl routed
  | element root => rfl

theorem Node.payload?_ne_none_of_path? {node : Node} {path : String}
    (carried : node.path? = some path) : node.payload? .path ≠ none := by
  intro unrouted
  rw [Node.path?, unrouted, readable_none] at carried
  exact absurd carried.symm (Option.some_ne_none path)

/-! ### Children whose paths say the same -/

section Paths

variable {Like : Node → Node → Prop}
  (path : ∀ {left right}, Like left right → left.readControl .path = right.readControl .path)
  {left right : List Node} (alike : List.Forall₂ Like left right)

include path alike

theorem forall₂_content_of_path :
    List.Forall₂ Like (Children.content left) (Children.content right) :=
  List.rel_filter (fun _ _ like => Bool.eq_iff_iff.mp (isNone_eq_of_readPayload (path like))) alike

theorem forall₂_routed_of_path :
    List.Forall₂ (BoundAlike Like) (Children.routed left) (Children.routed right) := by
  refine Bindings.forall₂_ofList (List.rel_filterMap (fun child other like => ?_) alike)
  rw [Node.path?_eq_of_readControl (path like)]
  cases other.path? with
  | none => exact .none
  | some path => exact .some ⟨rfl, like⟩

theorem pathSteps_eq_of_path (seen : List String) : pathSteps seen left = pathSteps seen right := by
  induction alike generalizing seen with
  | nil => rfl
  | cons like _ inductionHypothesis =>
    rw [pathSteps, pathSteps, payloadSteps_eq_of_readPayload (path like),
      Node.path?_eq_of_readControl (path like)]
    simp only [inductionHypothesis]

theorem classifySteps_eq_of_path : classifySteps left = classifySteps right := by
  rw [classifySteps, classifySteps, pathSteps_eq_of_path path alike,
    (forall₂_routed_of_path path alike).length_eq, (forall₂_content_of_path path alike).length_eq]

theorem content_isEmpty_eq_of_path :
    (Children.content left).isEmpty = (Children.content right).isEmpty := by
  have lengths := (forall₂_content_of_path path alike).length_eq
  rw [Bool.eq_iff_iff, List.isEmpty_iff_length_eq_zero, List.isEmpty_iff_length_eq_zero, lengths]

end Paths

/-! ### What is read of a node -/

/-- A relation that keeps what the work reads of a node. -/
structure Correspondence (Like : Node → Node → Prop) : Prop where
  kind : ∀ {left right : Node}, Like left right → left.kind = right.kind
  literal : ∀ {left right : Node}, Like left right → left.literal? = right.literal?
  payload : ∀ {left right : Node} (control : Control), Like left right →
    Option.Rel Like (left.payload? control) (right.payload? control)
  significant : ∀ {left right : Node}, Like left right →
    Option.Rel Like left.significant? right.significant?

/-- To change elements only, and of what they say in control properties nothing that is read, is
to keep what is read. -/
theorem correspondence_of_map {change : Node → Node}
    (leaf : ∀ content, change (.leaf content) = .leaf content)
    (element : ∀ root : Element, ∃ changed : Element, change (.element root) = .element changed ∧
      ∀ control : Control,
        changed.prop? control.name = (root.prop? control.name).map change) :
    Correspondence fun left right => right = change left where
  kind := by
    rintro (content | root) _ rfl
    · rw [leaf]
    · obtain ⟨changed, same, -⟩ := element root
      rw [same]
      rfl
  literal := by
    rintro (content | root) _ rfl
    · rw [leaf]
    · obtain ⟨changed, same, -⟩ := element root
      rw [same]
      rfl
  payload := by
    rintro (content | root) _ control rfl
    · rw [leaf]
      exact .none
    · obtain ⟨changed, same, props⟩ := element root
      rw [same]
      show Option.Rel _ (root.prop? control.name) (changed.prop? control.name)
      rw [props control]
      cases root.prop? control.name with
      | none => exact .none
      | some value => exact .some rfl
  significant := by
    rintro (content | root) _ rfl
    · rw [leaf]
      cases survives : (Node.leaf content).significant? with
      | none => exact .none
      | some kept =>
        rcases Node.significant?_eq_some survives with ⟨text, -, rfl⟩ | ⟨rfl, -⟩
        · exact .some (leaf _).symm
        · exact .some (leaf _).symm
    · obtain ⟨changed, same, -⟩ := element root
      rw [same]
      exact .some same.symm

namespace Correspondence

variable {Like : Node → Node → Prop} (correspondence : Correspondence Like)

include correspondence

theorem readPayload_eq (control : Control) {left right : Option Node}
    (like : Option.Rel Like left right) :
    readPayload control left = readPayload control right := by
  refine readPayload_eq_of_rel ?_
  cases like with
  | none => exact .none
  | some like => exact .some ⟨correspondence.kind like, correspondence.literal like⟩

theorem readControl_eq (control : Control) {left right : Node} (like : Like left right) :
    left.readControl control = right.readControl control :=
  correspondence.readPayload_eq control (correspondence.payload control like)

variable {left right : List Node} (alike : List.Forall₂ Like left right)

include alike

theorem forall₂_significant :
    List.Forall₂ Like (Siblings.significant left) (Siblings.significant right) :=
  List.rel_filterMap (fun _ _ like => correspondence.significant like) alike

theorem forall₂_content :
    List.Forall₂ Like (Children.content left) (Children.content right) :=
  forall₂_content_of_path (correspondence.readControl_eq .path) alike

theorem forall₂_routed :
    List.Forall₂ (BoundAlike Like) (Children.routed left) (Children.routed right) :=
  forall₂_routed_of_path (correspondence.readControl_eq .path) alike

theorem content_isEmpty_eq :
    (Children.content left).isEmpty = (Children.content right).isEmpty :=
  content_isEmpty_eq_of_path (correspondence.readControl_eq .path) alike

end Correspondence

end MarkupBlocks

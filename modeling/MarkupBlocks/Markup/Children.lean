/-
The two groups of an element's children.

A child that carries a path is routed: it becomes a property of its parent, named by the
path. When several children carry one path, the last of them is taken, in the place of the
first. All other children are the content of the element, layout included. A path that is
not a quoted value is a fault, and then nothing else of the element is looked at.
-/

import MarkupBlocks.Event
import MarkupBlocks.Fault
import MarkupBlocks.Markup.Tree
import MarkupBlocks.Traced

namespace MarkupBlocks

/-- A run over markup: it reports events and may meet a fault. -/
abbrev Run := Traced Event Fault

/-! ### Payloads of control properties -/

/-- Reads the payload of a control property. Only a quoted value says anything. -/
def readPayload (control : Control) : Option Node → Except Fault (Option String)
  | none => .ok none
  | some payload =>
    match payload.literal? with
    | some text => .ok (some text)
    | none => .error (.payload control payload.kind.name)

/-- Reads a control property of an element. -/
def Element.readControl (element : Element) (control : Control) : Except Fault (Option String) :=
  readPayload control (element.prop? control.name)

/-- Reads a control property of a node. Leaves have none. -/
def Node.readControl (node : Node) (control : Control) : Except Fault (Option String) :=
  readPayload control (node.payload? control)

/-- What the payload of a control property says, as far as it can be read. -/
def readable (payload : Option Node) : Option String :=
  payload.bind Node.literal?

theorem readable_none : readable none = none := rfl

theorem readable_some (payload : Node) : readable (some payload) = payload.literal? := rfl

/-- The path that a node carries. -/
def Node.path? (node : Node) : Option String :=
  readable (node.payload? .path)

/-! ### The groups -/

namespace Children

/-- The routed children under their paths. -/
def routed (children : List Node) : Bindings Node :=
  Bindings.ofList (children.filterMap fun child => child.path?.map fun path => (path, child))

/-- The children that carry no path. -/
def content (children : List Node) : List Node :=
  children.filter fun child => (child.payload? .path).isNone

/-- Reports a path that is among the paths seen before. -/
def reportRepeated (seen : List String) (path : String) : Run Unit :=
  if path ∈ seen then Traced.report (.duplicatePath path) else pure ()

/-- Reads the paths of children from left to right and reports the repeated ones. -/
def readPaths (seen : List String) : List Node → Run Unit
  | [] => pure ()
  | child :: rest => do
    match ← Traced.ofExcept (child.readControl .path) with
    | none => readPaths seen rest
    | some path =>
      reportRepeated seen path
      readPaths (path :: seen) rest

/-- Sorts children into the two groups: fails on a path that cannot be read, reports repeated
paths and then the sizes of the groups. -/
def classify (children : List Node) : Run Unit := do
  readPaths [] children
  Traced.report (.classified (routed children).length (content children).length)

/-- A child without a path is content, in its place. -/
theorem content_of_unrouted (before : List Node) {child : Node} (after : List Node)
    (unrouted : child.payload? .path = none) :
    content (before ++ child :: after) = content before ++ child :: content after := by
  rw [content, List.filter_append, List.filter_cons, unrouted]
  rfl

/-- A child with a path, of whatever kind, is no content. -/
theorem content_of_routed (before : List Node) {child : Node} (after : List Node)
    (routed : child.payload? .path ≠ none) :
    content (before ++ child :: after) = content before ++ content after := by
  obtain ⟨payload, carried⟩ := Option.ne_none_iff_exists'.mp routed
  rw [content, List.filter_append, List.filter_cons, carried]
  rfl

/-- A routed child is one of the children. -/
theorem mem_of_mem_routed {children : List Node} {path : String} {child : Node}
    (member : (path, child) ∈ routed children) : child ∈ children := by
  obtain ⟨source, present, named⟩ := List.mem_filterMap.mp (Bindings.mem_of_mem_ofList member)
  obtain ⟨_, _, same⟩ := Option.map_eq_some_iff.mp named
  exact (Prod.mk.inj same).2 ▸ present

end Children

end MarkupBlocks

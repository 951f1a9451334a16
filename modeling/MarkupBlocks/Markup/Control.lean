/-
Names of properties that start with an at sign.

Every such name is a meta property, which keeps its name in the output. Three of them are
control properties: they say where an element and its children go, and are never written
themselves.
-/

namespace MarkupBlocks

/-- The control properties. -/
inductive Control where
  /-- Names the slot of an element that is one of several siblings. -/
  | key
  /-- Names the property that receives the content of an element. -/
  | children
  /-- Routes a child out of the content, to a property of its parent. -/
  | path
deriving DecidableEq, Repr

namespace Control

/-- The name of a control property in markup. -/
def name : Control → String
  | key => "@key"
  | children => "@children"
  | path => "@path"

/-- All control properties. -/
def all : List Control := [key, children, path]

/-- Whether a property name is reserved for a control property. -/
def isReserved (name : String) : Bool :=
  all.any fun control => control.name == name

end Control

/-- Whether a property name marks a meta property. -/
def isMeta (name : String) : Bool :=
  name.toList.head? == some '@'

namespace Control

theorem isReserved_iff {name : String} :
    isReserved name = true ↔ ∃ control : Control, control.name = name := by
  rw [isReserved, List.any_eq_true]
  constructor
  · rintro ⟨control, -, same⟩
    exact ⟨control, beq_iff_eq.mp same⟩
  · rintro ⟨control, same⟩
    exact ⟨control, by cases control <;> decide, beq_iff_eq.mpr same⟩

theorem isReserved_name (control : Control) : isReserved control.name = true :=
  isReserved_iff.mpr ⟨control, rfl⟩

/-- A reserved name marks a meta property. -/
theorem isMeta_of_isReserved {name : String} (reserved : isReserved name = true) :
    isMeta name = true := by
  obtain ⟨control, rfl⟩ := isReserved_iff.mp reserved
  cases control <;> decide

end Control

end MarkupBlocks

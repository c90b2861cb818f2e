import Packrat.Json
import Packrat.Text.Basic
import Packrat.Tree.Basic

/-!
# `Packrat/Tree/Printer.lean` — trees as outlines and as JSON

An outline has a line for each node, indented by its depth. Given the source text, both forms also
show the stretch of it that a node covers.
-/

set_option autoImplicit false

namespace Packrat

namespace Node

def label (n : Node) : String := n.name.getD "<root>"

def outlineLine (source : Option Text) (indent : String) (depth : Nat) (n : Node) : String :=
  String.join (List.replicate depth indent) ++ n.label ++
    " [" ++ toString n.start ++ "," ++ toString n.stop ++ ")" ++
    match source with
    | none => ""
    | some text => " " ++ quoted (text.slice n.start n.stop)

mutual

/-- The lines of the outline of a tree that stands at `depth`. -/
def outlineLines (source : Option Text) (indent : String) (depth : Nat) : Node → List String
  | ⟨name, start, stop, children⟩ =>
    outlineLine source indent depth ⟨name, start, stop, children⟩ ::
      outlineLinesAll source indent (depth + 1) children

def outlineLinesAll (source : Option Text) (indent : String) (depth : Nat) :
    List Node → List String
  | [] => []
  | n :: ns => n.outlineLines source indent depth ++ outlineLinesAll source indent depth ns

end

def outline (n : Node) (source : Option Text) (indent : String) : String :=
  "\n".intercalate (n.outlineLines source indent 0)

/-- The indent of outlines where none is asked for. -/
def standardIndent : String := "  "

mutual

/-- A tree as JSON: name, offsets, the covered text if the source is given, children. -/
def toJson (source : Option Text) : Node → Json
  | ⟨name, start, stop, children⟩ =>
    .object <|
      [("name", match name with
          | none => .null
          | some s => .text s),
        ("start", .ofInt start), ("end", .ofInt stop)] ++
      (match source with
        | none => []
        | some text => [("text", .text (text.slice start stop))]) ++
      [("children", .list (toJsonAll source children))]

def toJsonAll (source : Option Text) : List Node → List Json
  | [] => []
  | n :: ns => n.toJson source :: toJsonAll source ns

end

end Node

end Packrat

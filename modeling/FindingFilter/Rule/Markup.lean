import FindingFilter.Rule.Basic
import FindingFilter.Text.LeadingInt
import FindingFilter.Xml.Document

/-!
# Rules as XML elements

Each child `suppress` of the root element is a rule; its own children give the constraints. Of
several children with one name the last counts, and children with other names are ignored.
-/

namespace FindingFilter.Rule

/-- The rule with the constraint that a child element sets, if it sets one. -/
def withField (rule : Rule) (child : Xml.Node) : Rule :=
  match child with
  | .element name _ =>
    let content := child.text?.getD ""
    match name.label with
    | "id" => { rule with id := content }
    | "fileName" => { rule with file := content }
    | "lineNumber" => { rule with line := Text.lineNumber content.toList }
    | "symbolName" => { rule with symbol := content }
    | _ => rule
  | _ => rule

def ofElement (element : Xml.Node) : Rule :=
  element.children.foldl withField { id := "" }

def ofDocument (root : Xml.Node) : List Rule :=
  (root.children.filter (Xml.Node.isElementNamed "suppress")).map ofElement

def ofXml (document : String) : Except Xml.Error (List Rule) :=
  (Xml.rootOf document).map ofDocument

end FindingFilter.Rule

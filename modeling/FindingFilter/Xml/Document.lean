import FindingFilter.Xml.Token

/-!
# Documents

A document as a tree, read off its tokens. Reading checks that tags are nested, that one element
holds everything, and that every prefix is bound to a namespace; attributes count only for these
checks and are not kept.
-/

namespace FindingFilter.Xml

inductive Node where
  | element (name : QName) (children : List Node)
  | text (content : String)
  | comment
  | instruction
  deriving Repr

/-- The namespaces in scope: each prefix with the name of its namespace, the innermost first. -/
abbrev Scope := List (String × List Char)

/-- The name of a namespace that the standard itself defines. -/
def standardNamespace (path : String) : List Char :=
  (String.intercalate "/" ["http:", "", "www.w3.org", path]).toList

/-- The namespace of the prefix `xml`, which no other prefix may have. -/
def xmlNamespace : List Char := standardNamespace "XML/1998/namespace"

/-- The namespace of the prefix `xmlns`, which cannot be declared. -/
def xmlnsNamespace : List Char := standardNamespace "2000/xmlns/"

/-- The bindings that the attributes of an element declare, after those already `found` on it. A
default namespace binds no prefix and is only checked. -/
def declared (found : Scope) : List Attribute → Except Error Scope
  | [] => .ok found
  | ⟨name, value⟩ :: rest =>
    if name.space = "xmlns" then
      -- The prefix `xml` may be declared, but only as what it is.
      if value = xmlnsNamespace then .error .reservedNamespace
      else if (name.label = "xml") != (value = xmlNamespace) then .error .reservedNamespace
      else if (found.lookup name.label).isSome then .error (.duplicateNamespace name.label)
      else if name.label = "xml" then declared found rest
      else declared (found ++ [(name.label, value)]) rest
    else if name.label = "xmlns" then
      if value = xmlNamespace ∨ value = xmlnsNamespace then .error .reservedNamespace
      else declared found rest
    else declared found rest

/-- Whether an attribute declares a namespace. -/
def Attribute.isDeclaration (item : Attribute) : Bool :=
  item.name.space == "xmlns" || item.name.label == "xmlns"

/-- The name of an attribute with its prefix replaced by the namespace it is bound to. An attribute
without a prefix has no namespace. -/
def Attribute.expandedName (scope : Scope) (item : Attribute) :
    Except Error (Option (List Char) × String) :=
  let label := item.name.label
  if item.name.space = "xml" then .ok (some xmlNamespace, label)
  else if item.name.space.isEmpty then .ok (none, label)
  else
    match scope.lookup item.name.space with
    | some namespaceName => .ok (some namespaceName, label)
    | none => .error (.unknownNamespace item.name.space)

/-- Checks that no two attributes have one name, those `seen` before included. -/
def checkAttributes (scope : Scope) (seen : List (Option (List Char) × String)) :
    List Attribute → Except Error Unit
  | [] => .ok ()
  | item :: rest =>
    if item.isDeclaration then checkAttributes scope seen rest
    else do
      let name ← item.expandedName scope
      if seen.contains name then .error (.duplicateAttribute item.name.text)
      else checkAttributes scope (name :: seen) rest

/-- The namespaces in scope inside an element, if its start tag is in order. -/
def enterScope (outer : Scope) (name : QName) (attributes : List Attribute) :
    Except Error Scope := do
  if name.space = "xmlns" then .error .reservedNamespace
  else
    let scope := (← declared [] attributes) ++ outer
    checkAttributes scope [] attributes
    if name.space.isEmpty || (scope.lookup name.space).isSome then return scope
    else .error (.unknownNamespace name.space)

/-- An element whose end tag is still to come: its name, its scope, and its children so far, the
latest first. -/
structure OpenElement where
  name : QName
  scope : Scope
  children : List Node := []

/-- The state of building: the open elements, the innermost first, and the root once it is closed.
-/
structure Builder where
  stack : List OpenElement := []
  root : Option Node := none

namespace Builder

def scope (builder : Builder) : Scope :=
  match builder.stack with
  | [] => []
  | top :: _ => top.scope

/-- The builder with one more text at its place: text next to text is one text. -/
def addText (top : OpenElement) (content : List Char) : OpenElement :=
  match top.children with
  | .text before :: rest =>
    { top with children := .text (before ++ String.ofList content) :: rest }
  | children => { top with children := .text (String.ofList content) :: children }

/-- The builder with a node that is no text. Outside of all elements comments and instructions are
dropped, and there is one element only. -/
def addNode (builder : Builder) (node : Node) : Except Error Builder :=
  match builder.stack, node with
  | top :: rest, node =>
    .ok { builder with stack := { top with children := node :: top.children } :: rest }
  | [], .element name children =>
    if builder.root.isSome then .error .strayMarkup
    else .ok { builder with root := some (.element name children) }
  | [], _ => .ok builder

def step (builder : Builder) : Token → Except Error Builder
  | .comment => builder.addNode .comment
  | .instruction => builder.addNode .instruction
  | .text data =>
    match builder.stack with
    | [] => if data.all isSpace then .ok builder else .error .strayMarkup
    | top :: rest => do
      return { builder with stack := addText top (← readText data) :: rest }
  | .characterSection data =>
    match builder.stack with
    | [] => .error .strayMarkup
    | top :: rest => .ok { builder with stack := addText top (readSection data) :: rest }
  | .startTag name attributes empty => do
    let scope ← enterScope builder.scope name attributes
    if empty then builder.addNode (.element name [])
    else if builder.stack.isEmpty && builder.root.isSome then .error .strayMarkup
    else return { builder with stack := { name, scope } :: builder.stack }
  | .endTag name =>
    match builder.stack with
    | [] => .error .strayMarkup
    | top :: rest =>
      if top.name = name then
        { builder with stack := rest }.addNode (.element top.name top.children.reverse)
      else .error (.mismatchedEndTag name.text)

def run (builder : Builder) : List Token → Except Error Builder
  | [] => .ok builder
  | token :: rest => do (← builder.step token).run rest

end Builder

def rootOf (document : String) : Except Error Node := do
  let builder ← Builder.run {} (← tokens document.toList)
  if !builder.stack.isEmpty then .error .unclosedElement
  else
    match builder.root with
    | some root => .ok root
    | none => .error .noRootElement

namespace Node

def children : Node → List Node
  | .element _ children => children
  | _ => []

/-- Whether the node is an element whose name, without prefix, is `label`. -/
def isElementNamed (label : String) : Node → Bool
  | .element name _ => name.label == label
  | _ => false

def text? : Node → Option String
  | .element _ (.text content :: _) => some content
  | _ => none

end Node

end FindingFilter.Xml

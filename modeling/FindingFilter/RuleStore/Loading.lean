import FindingFilter.FileTree
import FindingFilter.Rule.LineForm
import FindingFilter.Rule.Markup
import FindingFilter.RuleStore.Basic

/-!
# Loading rules into a store

Rules come as lines of text or as XML documents. Loading adds them in order and stops at the first
rule that is refused; the rules before it stay in the store. A source that cannot be read at all
leaves the store as it was.
-/

namespace FindingFilter

/-- Why a source of rules is not loaded to its end. -/
inductive LoadError where
  /-- A rule of the source is refused. -/
  | rule (cause : RuleError)
  | fileNotFound (path : String)
  | malformedXml (cause : Xml.Error)
  | unreadable (cause : FileError)
  deriving DecidableEq, Repr

namespace LoadError

def message : LoadError → String
  | .rule cause => cause.message
  | .fileNotFound _ => "File not found"
  | .malformedXml cause => "Failed to parse suppressions XML: " ++ cause.message
  | .unreadable cause => "Failed to read suppressions: " ++ cause.message

def code : LoadError → String
  | .rule cause => cause.code
  | .fileNotFound _ => "suppressor::file_not_found"
  | .malformedXml _ => "suppressor::xml"
  | .unreadable _ => "suppressor::io"

end LoadError

/-- A store after loading, and what stopped the loading, if anything did. -/
structure Loading where
  store : RuleStore
  failure : Option LoadError := none

namespace RuleStore

/-- Adds rules in order, up to the first that is refused. -/
def addAll (store : RuleStore) : List Rule → Loading
  | [] => { store }
  | rule :: rest =>
    match store.add rule with
    | .ok store => store.addAll rest
    | .error cause => { store, failure := some (.rule cause) }

def addLine (store : RuleStore) (line : String) : Except RuleError RuleStore :=
  store.add (Rule.ofLine line)

def addText (store : RuleStore) (content : String) : Loading :=
  store.addAll ((Rule.ruleLines content.toList).map fun line => Rule.ofLine (String.ofList line))

def addBytes (store : RuleStore) (content : ByteArray) : Loading :=
  match FileTree.decodeText content with
  | .ok text => store.addText text
  | .error cause => { store, failure := some (.unreadable cause) }

/-- Adds the rules in what a stream gives up to its end. A stream that fails before its end adds
none, whatever it gave until then. -/
def addStream (store : RuleStore) : Except FileError ByteArray → Loading
  | .ok content => store.addBytes content
  | .error cause => { store, failure := some (.unreadable cause) }

def addXml (store : RuleStore) (document : String) : Loading :=
  match Rule.ofXml document with
  | .ok rules => store.addAll rules
  | .error cause => { store, failure := some (.malformedXml cause) }

/-- Adds the rules of the XML document in a file. A file that cannot be read counts as missing. -/
def addXmlFile (store : RuleStore) (tree : FileTree) (path : String) : Loading :=
  match tree.readText path with
  | .ok document => store.addXml document
  | .error _ => { store, failure := some (.fileNotFound path) }

end RuleStore

end FindingFilter

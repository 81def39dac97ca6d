import Retarget.Document.Nesting
import Retarget.Document.Yaml.Node

/-!
# Documents in YAML

A text is cut into tokens (`Yaml.scan`), the tokens are read into a node (`Yaml.Node.read`), and the
node becomes a document. A text holds one document, with or without marks around it.
-/

namespace Retarget.Yaml

/-- Read the directives of a document; none if one is given twice or asks for another version. -/
def readDirectives (versioned : Bool) (handles : Handles) :
    List Token → Option (Handles × List Token)
  | .version major minor :: rest =>
    if versioned || major != 1 || !(minor == 1 || minor == 2) then none
    else readDirectives true handles rest
  | .handle name lead :: rest =>
    if (handles.lookup name).isSome then none
    else readDirectives versioned ((name, lead) :: handles) rest
  | ts => some (handles, ts)

/-- Whether a document ends before these tokens. -/
def endsDocument : List Token → Bool
  | [] => true
  | .documentStart :: _ | .documentEnd :: _ | .version _ _ :: _ | .handle _ _ :: _ => true
  | _ => false

/-- Read the content of a document. -/
def readDocument (ts : List Token) : Option (Node × List Token) :=
  (Node.read .block ts).map fun (node, rest) => (node, rest.val)

/-- Drop the marks at the end of a document. -/
def dropEnds : List Token → List Token
  | .documentEnd :: rest => dropEnds rest
  | ts => ts

/-- Read the only document of a text from its tokens. -/
def ofTokens? (ts : List Token) : Option Document := do
  let (handles, body) ← readDirectives false [] ts
  let (node, rest) ←
    match body with
    | .documentStart :: rest =>
      if endsDocument rest then pure (Node.empty, rest) else readDocument rest
    | [] => if ts.isEmpty then pure (Node.empty, []) else none
    | _ => if body.length < ts.length then none else readDocument body
  if !(dropEnds rest).isEmpty then
    none
  let (d, _) ← node.document? handles []
  return d

/-- How deeply lists and maps may be nested. -/
def maxDepth : Nat := 128

/-- Read a document; an empty one is the empty scalar. -/
def parse (s : String) : Option Document := do
  let ts ← scan s.toList
  return (← ofTokens? ts).limit maxDepth

end Retarget.Yaml
